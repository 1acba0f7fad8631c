/-
Slot accounting for the POSIX channel.  Every step changes the number of slots
by the drift of its label alone, so the count over a run is read off its
schedule: a server that goes on after a failed wait makes a slot, a client
that leaves while holding one takes it along.
-/
import MyFreeLib.PosixShm
import Mathlib.Algebra.Ring.Int.Defs

namespace MyFreeLib

namespace PosixShm

/-- All slots: the two semaphores, the processes between a wait and its post,
and the slot that the server believes to hold after a failed wait. -/
def State.slots (s : State) : ℕ :=
  s.read + s.write + s.holders + s.unowned

/-- How a step changes the number of slots. -/
def Label.drift : Label → ℤ
  | .server | .launch _ | .client _ | .clientWaitFails _ => 0
  | .serverWaitFails => 1
  | .serverPostFails | .clientEof _ | .clientPostFails _ => -1

/-- One slot in all, and the server works only with a slot it has taken. -/
def Conserved (s : State) : Prop :=
  s.read + s.write + s.holders = 1 ∧ s.unowned = 0

instance (s : State) : Decidable (Conserved s) :=
  inferInstanceAs (Decidable (_ ∧ _))

theorem start_conserved (data : List Byte) : Conserved (start data) := by
  constructor <;> rfl

theorem clientsInside_set {clients : List Client} {i : ℕ} {c : Client}
    (hc : clients[i]? = some c) (c' : Client) :
    clientsInside (clients.set i c') + c.inside.toNat =
      clientsInside clients + c'.inside.toNat :=
  sum_map_set (fun c => c.inside.toNat) hc _

theorem clientsInside_launch (clients : List Client)
    (input : List (List Byte)) :
    clientsInside (clients ++ [⟨.wait, input, []⟩]) =
      clientsInside clients := by
  simp [clientsInside, Client.inside]

theorem serverNext_slots {s t : State} (h : serverNext s = some t) :
    t.slots = s.slots := by
  cases serverNext_step h with
  | waits hpc hread =>
      simp [State.slots, State.holders, State.unowned, ServerPc.inside, hpc,
        hread]
      omega
  | terminates hpc | prints hpc =>
      simp [State.slots, State.holders, State.unowned, ServerPc.inside, hpc]
  | posts hpc =>
      cases hholds : s.holds <;>
        simp [State.slots, State.holders, State.unowned, ServerPc.inside, hpc,
          hholds] <;> omega

theorem clientNext_slots {s t : State} {i : ℕ} {c : Client}
    (hc : s.clients[i]? = some c) (h : clientNext s i c = some t) :
    t.slots = s.slots := by
  cases clientNext_step h with
  | waits hpc hwrite =>
      have hset := clientsInside_set hc { c with pc := .scan }
      have hold : c.inside = false := by rw [Client.inside, hpc]
      have hnew : Client.inside { c with pc := .scan } = true := rfl
      rw [hold, hnew, Bool.toNat_false, Bool.toNat_true] at hset
      simp only [State.slots, State.holders, State.unowned, hwrite]
      omega
  | @scans token rest hpc hinput =>
      have hset := clientsInside_set hc ⟨.post token, rest, c.notices⟩
      have hold : c.inside = true := by rw [Client.inside, hpc]
      have hnew : Client.inside ⟨.post token, rest, c.notices⟩ = true := rfl
      rw [hold, hnew, Bool.toNat_true] at hset
      simp only [State.slots, State.holders, State.unowned]
      omega
  | posts hpc =>
      have hset := clientsInside_set hc { c with pc := .wait }
      have hold : c.inside = true := by rw [Client.inside, hpc]
      have hnew : Client.inside { c with pc := .wait } = false := rfl
      rw [hold, hnew, Bool.toNat_false, Bool.toNat_true] at hset
      simp only [State.slots, State.holders, State.unowned]
      omega

/-- The server goes on to work although it has taken no slot. -/
theorem serverWaitFails_slots {s t : State}
    (h : serverWaitFails s = some t) : t.slots = s.slots + 1 := by
  unfold serverWaitFails at h
  split at h
  · next hpc =>
      cases h
      simp [State.slots, State.holders, State.unowned, ServerPc.inside, hpc]
  · cases h

/-- The slot that the server was to give back is gone. -/
theorem serverPostFails_slots {s t : State}
    (h : serverPostFails s = some t) : t.slots + 1 = s.slots := by
  unfold serverPostFails at h
  split at h
  · next hpc =>
      cases h
      cases hholds : s.holds <;>
        simp [State.slots, State.holders, State.unowned, ServerPc.inside, hpc,
          hholds]
      omega
  · cases h

/-- A client that fails gives up a slot exactly when it held one. -/
theorem clientFails_slots {s : State} {i : ℕ} {c : Client}
    (hc : s.clients[i]? = some c) {inside : Bool} (hinside : c.inside = inside)
    (message : String) :
    ((clientFails s i c message).slots : ℤ) = s.slots - inside.toNat := by
  have hset := clientsInside_set hc (c.fails message)
  have hnew : (c.fails message).inside = false := rfl
  rw [hnew, hinside, Bool.toNat_false] at hset
  simp only [State.slots, State.holders, State.unowned, clientFails]
  omega

/-- One step changes the number of slots by its drift. -/
theorem next_slots (s : State) (label : Label) (t : State)
    (h : next s label = some t) : (t.slots : ℤ) = s.slots + label.drift := by
  cases label with
  | server =>
      rw [serverNext_slots h, Label.drift, add_zero]
  | serverWaitFails =>
      rw [serverWaitFails_slots h, Label.drift, Nat.cast_add, Nat.cast_one]
  | serverPostFails =>
      rw [← serverPostFails_slots h, Label.drift, Nat.cast_add, Nat.cast_one]
      omega
  | launch input =>
      cases h
      simp [State.slots, State.holders, State.unowned, clientsInside_launch,
        Label.drift]
  | client i =>
      obtain ⟨c, hc, hmove⟩ := Option.bind_eq_some_iff.mp h
      rw [clientNext_slots hc hmove, Label.drift, add_zero]
  | clientWaitFails i =>
      obtain ⟨c, hc, hmove⟩ := Option.bind_eq_some_iff.mp h
      split at hmove
      · next hpc =>
          cases hmove
          have hinside : c.inside = false := by rw [Client.inside, hpc]
          rw [clientFails_slots hc hinside]
          rfl
      · cases hmove
  | clientEof i =>
      obtain ⟨c, hc, hmove⟩ := Option.bind_eq_some_iff.mp h
      split at hmove
      · next hpc hinput =>
          cases hmove
          have hinside : c.inside = true := by rw [Client.inside, hpc]
          rw [clientFails_slots hc hinside]
          rfl
      · cases hmove
  | clientPostFails i =>
      obtain ⟨c, hc, hmove⟩ := Option.bind_eq_some_iff.mp h
      split at hmove
      · next hpc =>
          cases hmove
          have hinside : c.inside = true := by rw [Client.inside, hpc]
          rw [clientFails_slots hc hinside]
          rfl
      · cases hmove

/-- The slots after a run are one and the drifts of its labels. -/
theorem exec_slots {data : List Byte} {labels : List Label} {s : State}
    (hrun : exec next (start data) labels = some s) :
    (s.slots : ℤ) = 1 + (labels.map Label.drift).sum := by
  have hslots := exec_weight next_slots hrun
  simpa [State.slots, State.holders, State.unowned, start, ServerPc.inside,
    clientsInside] using hslots

/-- The calls whose failure the channel must survive: `sem_post` fails only
on a semaphore that is not valid. -/
def Label.PostSucceeds : Label → Prop
  | .serverPostFails | .clientPostFails _ => False
  | _ => True

/-- No client meets the end of its input, no wait of the server fails. -/
def Label.KeepsSlot : Label → Prop
  | .serverWaitFails | .clientEof _ => False
  | _ => True

/-- Only a failed wait of the server lets it work without a slot. -/
theorem next_unowned {s t : State} {label : Label}
    (hlabel : label ≠ .serverWaitFails) (hs : s.unowned = 0)
    (h : next s label = some t) : t.unowned = 0 := by
  cases label with
  | serverWaitFails => exact absurd rfl hlabel
  | server =>
      change serverNext s = some t at h
      grind [serverNext, State.unowned, ServerPc.inside,
        Option.map_eq_some_iff]
  | serverPostFails =>
      change serverPostFails s = some t at h
      grind [serverPostFails, State.unowned, ServerPc.inside]
  | launch input =>
      cases h
      exact hs
  | client i =>
      obtain ⟨c, -, hmove⟩ := Option.bind_eq_some_iff.mp h
      grind [clientNext, State.unowned, Option.map_eq_some_iff]
  | clientWaitFails i =>
      obtain ⟨c, -, hmove⟩ := Option.bind_eq_some_iff.mp h
      grind [clientFails, State.unowned]
  | clientEof i =>
      obtain ⟨c, -, hmove⟩ := Option.bind_eq_some_iff.mp h
      grind [clientFails, State.unowned]
  | clientPostFails i =>
      obtain ⟨c, -, hmove⟩ := Option.bind_eq_some_iff.mp h
      grind [clientFails, State.unowned]

theorem serverWaitFails_unowned {s t : State}
    (h : next s .serverWaitFails = some t) : t.unowned = 1 := by
  change serverWaitFails s = some t at h
  unfold serverWaitFails at h
  split at h
  · cases h
    rfl
  · cases h

theorem Conserved.slots {s : State} (hs : Conserved s) : s.slots = 1 := by
  rw [State.slots, hs.2, add_zero, hs.1]

/-- The label alone decides whether a step keeps the one slot. -/
theorem next_conserved_iff (s : State) (label : Label) (t : State)
    (hpost : label.PostSucceeds) (hs : Conserved s)
    (h : next s label = some t) : Conserved t ↔ label.KeepsSlot := by
  have hslots := next_slots s label t h
  rw [hs.slots] at hslots
  have keeps (hdrift : label.drift = 0) (hlabel : label ≠ .serverWaitFails) :
      Conserved t := by
    have hown := next_unowned hlabel hs.2 h
    refine ⟨?_, hown⟩
    rw [hdrift, State.slots, hown] at hslots
    omega
  cases label with
  | server | launch input | client i | clientWaitFails i =>
      exact iff_of_true (keeps rfl (by simp)) trivial
  | serverWaitFails =>
      refine iff_of_false (fun ht => ?_) id
      have hown := serverWaitFails_unowned h
      rw [ht.2] at hown
      exact absurd hown (by decide)
  | clientEof i =>
      refine iff_of_false (fun ht => ?_) id
      rw [ht.slots, Label.drift] at hslots
      omega
  | serverPostFails | clientPostFails i => exact hpost.elim

/-- The slot is conserved throughout a run exactly when no client meets the
end of its input and no wait of the server fails. -/
theorem conserved_throughout_iff {data : List Byte} {labels : List Label}
    {s : State} (hrun : exec next (start data) labels = some s)
    (hposts : ∀ label ∈ labels, label.PostSucceeds) :
    EachStep next (fun _ _ t => Conserved t) (start data) labels ↔
      ∀ label ∈ labels, label.KeepsSlot :=
  eachStep_iff_labels
    (fun s t label hmem hok hs h =>
      (next_conserved_iff s label t (hposts label hmem) hs h).mpr hok)
    (fun s t label hmem hs h =>
      next_conserved_iff s label t (hposts label hmem) hs h)
    (start_conserved data) hrun

/-- `ftruncate` gives a segment of zeros. -/
def newSegment : List Byte := List.replicate dataSize 0

/-- One token goes through the channel. -/
def oneToken : List Label :=
  [.launch [text "a"], .client 0, .client 0, .client 0, .server, .server,
    .server, .server]

theorem conserved_throughout_oneToken :
    EachStep next (fun _ _ t => Conserved t) (start newSegment) oneToken ↔
      ∀ label ∈ oneToken, label.KeepsSlot := by
  have hrun : exec next (start newSegment) oneToken = some _ := rfl
  exact conserved_throughout_iff hrun (by simp [oneToken, Label.PostSucceeds])

/-- The server's only call before it prints and posts is a wait that fails. -/
def failedWait : List Label :=
  [.serverWaitFails, .server, .server, .server]

/-- The first of two clients meets the end of its input. -/
def endOfInput : List Label :=
  [.launch [], .launch [text "a"], .client 0, .clientEof 0]

/-- After a failed wait the server has printed and there are two slots; after
the end of one client's input there is none and the other client waits. -/
theorem slot_not_conserved :
    (∃ s, exec next (start newSegment) failedWait = some s ∧
      s.read + s.write + s.holders = 2 ∧ s.printed.length = 1) ∧
    ∃ s, exec next (start newSegment) endOfInput = some s ∧
      s.read + s.write + s.holders = 0 ∧
      next s .server = none ∧ next s (.client 1) = none :=
  ⟨⟨_, rfl, rfl, rfl⟩, ⟨_, rfl, rfl, rfl, rfl⟩⟩

end PosixShm

end MyFreeLib
