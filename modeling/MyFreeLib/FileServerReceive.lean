/-
The receive loop of the client by itself, with any outcome of its calls.  The
loop tests `resp.mtype`, which a failed `msgrcv` leaves as it was, so it goes
on, adds -1 to the total and asks `write` for -1 bytes.
-/
import MyFreeLib.FileServerTransfer

namespace MyFreeLib

namespace FileServer

/-- What the next call of the client comes to. -/
inductive Outcome
  | received (message : Response)
  | failed
  | opened (ok : Bool)
  | truncated (ok : Bool)
  | sought
  | written (result : Written)
  | closed
deriving DecidableEq, Repr

def outcomeNext (c : Client) : Outcome → Option Client
  | .received message =>
      clientMain { c with queue := [message] } (.msgrcv true)
  | .failed => clientMain c (.msgrcv false)
  | .opened ok => clientMain c (.open ok)
  | .truncated ok => clientMain c (.ftruncate ok)
  | .sought => clientMain c .lseek
  | .written result => clientMain c (.write result)
  | .closed => clientMain c .close

/-- A client that has sent its request. -/
def Client.asking (pathname : Pathname) (clientId : QueueId) : Client :=
  { Client.start pathname clientId with pc := .first }

/-- The client is about to make the right call: it receives only after data
messages and no failure, it writes as many bytes as the last message has, and
behind the loop its totals are those of the messages. -/
structure ReceiveOk (c : Client) : Prop where
  receive : c.pc = .receive →
    c.misses = 0 ∧ ∀ message ∈ c.received, message.mtype = .data
  write : c.pc = .firstWrite ∨ c.pc = .write →
    ∃ message, c.received.getLast? = some message ∧
      c.msglen = message.data.length
  leave : c.pc = .close →
    c.totBytes = (c.received.map Response.size).sum ∧
      c.numMsgs = c.received.length

/-- No `msgrcv` of the loop fails, and an `int` can count the messages. -/
def NoMiss (c : Client) (outcome : Outcome) (t : Client) : Prop :=
  (c.pc = .receive → outcome ≠ .failed) ∧
    (t.pc = .close → t.received.length < 2 ^ 31)

/-- A message has been received and is to be written. -/
def ClientPc.Holds (pc : ClientPc) : Prop :=
  pc = .open ∨ pc = .ftruncate ∨ pc = .lseek ∨ pc = .firstWrite ∨ pc = .write

/-- As long as no receive has failed. -/
structure ReceiveInv (c : Client) : Prop where
  ok : ClientOk c
  misses : c.misses = 0
  msglen : c.pc.Holds →
    ∃ message, c.received.getLast? = some message ∧
      c.msglen = message.data.length

theorem asking_receiveInv (pathname : Pathname) (clientId : QueueId) :
    ReceiveInv (Client.asking pathname clientId) :=
  ⟨⟨rfl, rfl, rfl, rfl⟩, rfl, by simp [Client.asking, ClientPc.Holds]⟩

/-- Messages that an `int` can count have bytes that a `ssize_t` can count. -/
theorem payload_length_lt {received : List Response}
    (h : received.length < 2 ^ 31) : (payload received).length < 2 ^ 63 := by
  have hle : ∀ messages : List Response,
      (payload messages).length ≤ respMsgSize * messages.length := by
    intro messages
    induction messages with
    | nil => exact le_rfl
    | cons message rest ih =>
        have hfits := message.fits
        simp only [payload, List.map_cons, List.flatten_cons,
          List.length_append, List.length_cons, Nat.mul_succ] at ih ⊢
        omega
  have hbound := hle received
  simp only [respMsgSize] at hbound
  omega

theorem int32_lt (x : ℤ) : int32 x < 2 ^ 31 := by
  rw [int32]
  omega

/-- Behind the loop the totals are right exactly if an `int` can count the
messages. -/
theorem totals_iff {c : Client} (h : ReceiveInv c) (hpc : c.pc = .close) :
    (c.totBytes = (c.received.map Response.size).sum ∧
        c.numMsgs = c.received.length) ↔ c.received.length < 2 ^ 31 := by
  have hok := h.ok
  simp only [ClientOk, hpc, h.misses] at hok
  obtain ⟨hreceiving, -, hcount⟩ := hok
  constructor
  · rintro ⟨-, hnum⟩
    have hlt := int32_lt c.received.length
    rw [hnum] at hcount
    simp at hcount
    omega
  · intro hlt
    have htotal := hreceiving.total
    have hlength : (payload c.received).length =
        (c.received.map Response.size).sum := by
      simp [payload, Function.comp_def]
      rfl
    rw [h.misses, Nat.cast_zero, sub_zero,
      int64_of_lt (payload_length_lt hlt), hlength] at htotal
    rw [Nat.cast_zero, add_zero, int32_of_lt hlt] at hcount
    exact ⟨htotal, hcount⟩

theorem ReceiveInv.receiveOk_iff {c : Client} (h : ReceiveInv c) :
    ReceiveOk c ↔ (c.pc = .close → c.received.length < 2 ^ 31) := by
  constructor
  · intro hright hpc
    exact (totals_iff h hpc).mp (hright.leave hpc)
  · intro hcount
    refine ⟨?_, fun hpc => ?_, fun hpc => (totals_iff h hpc).mpr (hcount hpc)⟩
    case refine_2 =>
      apply h.msglen
      rcases hpc with hpc | hpc <;> simp [ClientPc.Holds, hpc]
    intro hpc
    have hok := h.ok
    simp only [ClientOk, hpc] at hok
    obtain ⟨hreceiving, hdata, -⟩ := hok
    exact ⟨h.misses, (hdata ▸ hreceiving.taken).isData⟩

/-- A call other than a failed receive of the loop. -/
theorem ClientStep.receiveInv {c moved : Client} {call : ClientCall}
    (h : ClientStep c call moved) (hc : ReceiveInv c)
    (hcall : c.pc = .receive → call ≠ .msgrcv false) : ReceiveInv moved := by
  refine ⟨h.clientOk hc.ok, ?_, ?_⟩
  · cases h with
    | misses hpc => exact absurd rfl (hcall hpc)
    | @storesFirst result count | @stores result count =>
        obtain ⟨printed, hstore⟩ := c.store_eq result count
        rw [hstore]
        exact hc.misses
    | _ => exact hc.misses
  · cases h with
    | misses hpc => exact absurd rfl (hcall hpc)
    | @takesFirst message | @takes message =>
        intro _
        exact ⟨message, by simp [Client.take, Client.count], rfl⟩
    | opens hpc | truncates hpc | seeks hpc =>
        intro _
        exact hc.msglen (by simp [ClientPc.Holds, hpc])
    | storesFirst | stores =>
        simp only [Client.loop]
        split <;> simp [ClientPc.Holds]
    | _ => simp [Client.leave, ClientPc.Holds]

/-- The failed receive asks `write` for -1 bytes. -/
theorem not_receiveOk_miss (c : Client) : ¬ ReceiveOk c.miss.count := by
  intro h
  obtain ⟨message, -, hlength⟩ := h.write (Or.inr rfl)
  simp only [Client.count, Client.miss] at hlength
  omega

/-- An outcome is a call, on a queue that holds what the call is to take. -/
theorem outcomeNext_step {c t : Client} {outcome : Outcome}
    (h : outcomeNext c outcome = some t) :
    ∃ queue call, ClientStep { c with queue := queue } call t ∧
      (outcome = .failed ↔ call = .msgrcv false) := by
  cases outcome with
  | received message =>
      exact ⟨[message], .msgrcv true, clientMain_step h, by simp⟩
  | failed => exact ⟨c.queue, .msgrcv false, clientMain_step h, by simp⟩
  | opened ok => exact ⟨c.queue, .open ok, clientMain_step h, by simp⟩
  | truncated ok => exact ⟨c.queue, .ftruncate ok, clientMain_step h, by simp⟩
  | sought => exact ⟨c.queue, .lseek, clientMain_step h, by simp⟩
  | written result => exact ⟨c.queue, .write result, clientMain_step h, by simp⟩
  | closed => exact ⟨c.queue, .close, clientMain_step h, by simp⟩

theorem ReceiveInv.step {c t : Client} {outcome : Outcome}
    (h : ReceiveInv c) (hstep : outcomeNext c outcome = some t)
    (hfine : c.pc = .receive → outcome ≠ .failed) : ReceiveInv t := by
  obtain ⟨queue, call, hcall, hfailed⟩ := outcomeNext_step hstep
  refine hcall.receiveInv ⟨h.ok, h.misses, h.msglen⟩ ?_
  exact fun hpc hmiss => hfine hpc (hfailed.mpr hmiss)

/-- Along every sequence of outcomes the client receives no more after the end
or after a failure, writes what it has received and counts right exactly if no
receive of its loop fails and an `int` can count the messages. -/
theorem receives_iff (pathname : Pathname) (clientId : QueueId)
    (outcomes : List Outcome) :
    EachStep outcomeNext (fun _ _ t => ReceiveOk t)
        (Client.asking pathname clientId) outcomes ↔
      EachStep outcomeNext NoMiss
        (Client.asking pathname clientId) outcomes := by
  refine eachStep_congr
    (fun c outcome t (hc : ReceiveInv c) hfine hstep => hc.step hstep hfine.1)
    ?_ (asking_receiveInv pathname clientId) outcomes
  · intro c outcome t hc hstep
    by_cases hmiss : c.pc = .receive ∧ outcome = .failed
    · obtain ⟨hpc, rfl⟩ := hmiss
      simp only [outcomeNext, clientMain, hpc, Option.some.injEq] at hstep
      subst hstep
      exact iff_of_false (not_receiveOk_miss c) fun h => h.1 hpc rfl
    · have hfine : c.pc = .receive → outcome ≠ .failed := not_and.mp hmiss
      rw [(hc.step hstep hfine).receiveOk_iff]
      exact ⟨fun h => ⟨hfine, h⟩, And.right⟩

/-- One data message comes in, and then the queue is removed. -/
def removedQueue : List Outcome :=
  [.received ⟨.data, [104], by decide⟩, .opened true, .truncated true, .sought,
    .written .whole, .failed]

theorem not_receives_removed :
    ¬ EachStep outcomeNext (fun _ _ t => ReceiveOk t)
      (Client.asking ⟨text "log", by decide, by decide, by decide⟩ 0)
      removedQueue := by
  intro h
  have hlast := ((((((h _ rfl).2 _ rfl).2 _ rfl).2 _ rfl).2 _ rfl).2 _ rfl).1
  exact not_receiveOk_miss _ hlast

end FileServer

end MyFreeLib
