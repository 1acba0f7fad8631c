/-
What becomes of the messages on the server queue.  Every message is still
queued, in the parent's hand or with one child, in the order of arrival; a
child sees its message and, behind it, what the structure held before.
-/
import MyFreeLib.SysvMsgServer

namespace MyFreeLib

namespace SysvMsg

/-- A message stands at the beginning of the memory it was received into. -/
structure Requests (s : State) : Prop where
  inHand : ∀ p message, s.parent = some p → p.pc = .fork message →
    message <+: p.memory
  handed : ∀ c ∈ s.children, c.message <+: c.memory

theorem initial_requests : Requests initial := by
  constructor <;> simp [initial]

theorem next_requests (s : State) (label : Label) (t : State)
    (hs : Requests s) (h : next s label = some t) : Requests t := by
  cases label with
  | start memory =>
      change main s memory = some t at h
      unfold main at h
      split at h
      · cases h
        exact ⟨hs.inHand, hs.handed⟩
      · cases h
        refine ⟨?_, hs.handed⟩
        rintro p message hp hpc
        cases hp
        cases hpc
      · cases h
  | post message =>
      obtain ⟨queue, -, rfl⟩ := Option.map_eq_some_iff.mp h
      exact ⟨hs.inHand, hs.handed⟩
  | childExits i =>
      obtain ⟨c, notices, hc, rfl⟩ := childEnds_cases h
      exact ⟨hs.inHand, forall_mem_set hs.handed
        (hs.handed c (List.mem_of_getElem? hc))⟩
  | childSignal i sig =>
      obtain ⟨c, notices, hc, rfl⟩ := childEnds_cases h
      exact ⟨hs.inHand, forall_mem_set hs.handed
        (hs.handed c (List.mem_of_getElem? hc))⟩
  | receive | interrupted | tooLong | receiveFails | fork | forkFails
  | signal sig =>
      obtain ⟨p, hp, hmove⟩ := Option.bind_eq_some_iff.mp h
      rcases parentNext_cases hmove with ⟨-, rfl⟩ |
        ⟨message, rest, -, -, -, -, rfl⟩ | ⟨message, -, hpc, rfl⟩ |
        ⟨-, -, notices, code, rfl⟩
      · exact hs
      · refine ⟨?_, hs.handed⟩
        rintro p' message' hp' hpc'
        cases hp'
        cases hpc'
        exact List.prefix_append message _
      · refine ⟨?_, ?_⟩
        · rintro p' message' hp' hpc'
          cases hp'
          cases hpc'
        · exact forall_mem_concat hs.handed (hs.inHand p message hp hpc)
      · refine ⟨?_, hs.handed⟩
        rintro p' message' hp' hpc'
        cases hp'

/-- Some run of servers, children and writers ends in `s`. -/
def Reachable (s : State) : Prop :=
  ∃ labels, exec next initial labels = some s

theorem Reachable.requests {s : State} (hs : Reachable s) : Requests s := by
  obtain ⟨labels, hrun⟩ := hs
  exact exec_invariant next_requests initial_requests hrun

/-- However the servers' runs went before, children forked for the message
open the same path and answer the same client. -/
def Isolated (message : Message) : Prop :=
  ∀ s₁ s₂ c₁ c₂, Reachable s₁ → Reachable s₂ →
    c₁ ∈ s₁.children → c₂ ∈ s₂.children →
    c₁.message = message → c₂.message = message →
    served c₁.memory = served c₂.memory

/-- The message sets the client id and terminates the pathname. -/
def Complete (message : Message) : Prop :=
  4 ≤ message.length ∧ 0 ∈ message.drop 4

instance (message : Message) : Decidable (Complete message) :=
  inferInstanceAs (Decidable (_ ∧ _))

theorem cString_append {front : List Byte} (hzero : 0 ∈ front)
    (rest : List Byte) : cString (front ++ rest) = cString front := by
  induction front with
  | nil => cases hzero
  | cons byte front ih =>
      simp only [cString, List.cons_append, List.takeWhile_cons]
      by_cases hbyte : byte = 0
      · simp [hbyte]
      · have hfront : 0 ∈ front := by
          rcases List.mem_cons.mp hzero with heq | hmem
          · exact absurd heq.symm hbyte
          · exact hmem
        have htail : (front ++ rest).takeWhile (fun b => b != 0) =
            front.takeWhile fun b => b != 0 := ih hfront
        rw [htail]

theorem Complete.served_eq {message : Message} (hm : Complete message)
    {memory : List Byte} (hmemory : message <+: memory) :
    served memory = served message := by
  obtain ⟨rest, rfl⟩ := hmemory
  obtain ⟨hlength, hzero⟩ := hm
  have hid : (message ++ rest).take 4 = message.take 4 := by
    rw [List.take_append_of_le_length hlength]
  have hpath : (message ++ rest).drop 4 = message.drop 4 ++ rest :=
    List.drop_append_of_le_length hlength
  simp only [served, clientId, bytesInt, hid, pathname, hpath,
    cString_append hzero]

/-- The parent takes the oldest message and forks a child for it. -/
theorem exec_serve {s : State} {p : Parent} {message : Message}
    {rest : List Message} (hp : s.parent = some p) (hpc : p.pc = .receive)
    (hqueue : s.queue = some (message :: rest))
    (hfit : message.length ≤ reqMsgSize) :
    exec next s [.receive, .fork] = some { s with
      queue := some rest
      parent := some ⟨.receive, overlay message p.memory⟩
      children := s.children ++
        [⟨message, overlay message p.memory, true⟩] } := by
  simp [exec, next, parentNext, receive, hp, hpc, hqueue, hfit]

/-- A server that is started on the given stack and handed one message. -/
theorem reachable_of_message {message : Message}
    (hfit : message.length ≤ reqMsgSize) (memory : List Byte) :
    ∃ s c, Reachable s ∧ c ∈ s.children ∧ c.message = message ∧
      c.memory = overlay message memory := by
  have hstart : exec next initial [.start memory, .post message] =
      some ⟨some [message], some ⟨.receive, memory⟩, [], [message], [], []⟩ :=
    rfl
  have hserve := exec_append_eq_some.mpr
    ⟨_, hstart, exec_serve rfl rfl rfl hfit⟩
  exact ⟨_, _, ⟨_, hserve⟩, List.mem_singleton_self _, rfl, rfl⟩

theorem replicate_ne {k : ℕ} (hk : 0 < k) :
    List.replicate k (0 : Byte) ≠ List.replicate k 1 := by
  intro h
  have hhead := congrArg List.head? h
  rw [List.head?_replicate, List.head?_replicate, if_neg hk.ne',
    if_neg hk.ne'] at hhead
  cases hhead

/-- Without four bytes of its own the message leaves the client id to the
stack. -/
theorem Isolated.four_le {message : Message}
    (hfit : message.length ≤ reqMsgSize) (h : Isolated message) :
    4 ≤ message.length := by
  by_contra hshort
  obtain ⟨s₁, c₁, hs₁, hc₁, hm₁, hmem₁⟩ :=
    reachable_of_message hfit (List.replicate 4 0)
  obtain ⟨s₂, c₂, hs₂, hc₂, hm₂, hmem₂⟩ :=
    reachable_of_message hfit (List.replicate 4 1)
  have hsame := congrArg Prod.fst (h s₁ s₂ c₁ c₂ hs₁ hs₂ hc₁ hc₂ hm₁ hm₂)
  simp only [served, clientId, hmem₁, hmem₂, overlay, List.drop_replicate]
    at hsame
  have hbytes := bytesInt_injective
    (by rw [List.length_append, List.length_replicate]; omega)
    (by rw [List.length_append, List.length_replicate]; omega) hsame
  rw [List.take_of_length_le
      (by rw [List.length_append, List.length_replicate]; omega),
    List.take_of_length_le
      (by rw [List.length_append, List.length_replicate]; omega)] at hbytes
  exact replicate_ne (by omega) (List.append_cancel_left hbytes)

/-- Without a zero of its own the message leaves the end of the pathname to
the stack. -/
theorem Isolated.zero_mem {message : Message}
    (hfit : message.length ≤ reqMsgSize) (hfour : 4 ≤ message.length)
    (h : Isolated message) : 0 ∈ message.drop 4 := by
  by_contra hzero
  obtain ⟨s₁, c₁, hs₁, hc₁, hm₁, hmem₁⟩ :=
    reachable_of_message hfit (List.replicate (reqMsgSize + 1) 0)
  obtain ⟨s₂, c₂, hs₂, hc₂, hm₂, hmem₂⟩ :=
    reachable_of_message hfit (List.replicate (reqMsgSize + 1) 1)
  have hsame := congrArg Prod.snd (h s₁ s₂ c₁ c₂ hs₁ hs₂ hc₁ hc₂ hm₁ hm₂)
  have hpath (rest : List Byte) :
      pathname (message ++ rest) = message.drop 4 ++ cString rest := by
    rw [pathname, List.drop_append_of_le_length hfour]
    simp only [cString]
    rw [List.takeWhile_append_of_pos]
    intro byte hbyte
    simp only [bne_iff_ne]
    rintro rfl
    exact hzero hbyte
  simp only [served, hmem₁, hmem₂, overlay, List.drop_replicate, hpath]
    at hsame
  have hend := congrArg List.length (List.append_cancel_left hsame)
  have hpos : 0 < reqMsgSize + 1 - message.length := by omega
  simp [cString] at hend
  omega

/-- A message of any length that the server takes is served the same way
after every history exactly when it is complete. -/
theorem isolated_iff {message : Message}
    (hfit : message.length ≤ reqMsgSize) :
    Isolated message ↔ Complete message := by
  constructor
  · intro h
    have hfour := h.four_le hfit
    exact ⟨hfour, h.zero_mem hfit hfour⟩
  · intro hm s₁ s₂ c₁ c₂ hs₁ hs₂ hc₁ hc₂ hm₁ hm₂
    have hmem₁ := hs₁.requests.handed c₁ hc₁
    have hmem₂ := hs₂.requests.handed c₂ hc₂
    rw [hm₁] at hmem₁
    rw [hm₂] at hmem₂
    rw [hm.served_eq hmem₁, hm.served_eq hmem₂]

/-- A message that ends after the client id. -/
def shortRequest : Message := intBytes 7

/-- A request for the file is followed by the short message. -/
def leaking (path : String) : List Label :=
  [.start (List.replicate reqMsgSize 0),
    .post (intBytes 5 ++ text path ++ [0]), .receive, .fork,
    .post shortRequest, .receive, .fork]

theorem isolated_iff_shortRequest :
    Isolated shortRequest ↔ Complete shortRequest :=
  isolated_iff (by decide)

/-- The path that the last child opens. -/
def lastOpened (s : State) : Option (List Byte) :=
  s.children.getLast?.map fun c => pathname c.memory

/-- What the short message opens for its client is what the client before it
has asked for. -/
theorem path_leaks :
    (exec next initial (leaking "/a")).bind lastOpened = some (text "/a") ∧
      (exec next initial (leaking "/b")).bind lastOpened = some (text "/b") :=
  ⟨rfl, rfl⟩

end SysvMsg

end MyFreeLib
