/-
Whether the server stays available.  Accounting: as long as the parent serves,
what was sent is with the children, in its hand or on the queue.  Only a
message that does not fit into the request structure ends it.
-/
import MyFreeLib.SysvMsgRequests

namespace MyFreeLib

namespace SysvMsg

/-- The message that the parent has received and not forked a child for. -/
def Parent.inHand (p : Parent) : List Message :=
  match p.pc with
  | .fork message => [message]
  | .receive => []

def State.inHand (s : State) : List Message :=
  (s.parent.map Parent.inHand).getD []

/-- The messages on the queue. -/
def State.queued (s : State) : List Message := s.queue.getD []

/-- The parent serves, and every message is with exactly one child, in the
parent's hand or still queued. -/
structure Available (s : State) : Prop where
  serving : s.parent.isSome
  accounts : s.sent = s.children.map Child.message ++ s.inHand ++ s.queued

/-- No step but the end of the parent loses or repeats a message. -/
theorem next_available {s t : State} {label : Label} (hs : Available s)
    (hlabel : ¬ label.EndsParent) (h : next s label = some t) :
    Available t := by
  obtain ⟨p, hp⟩ := Option.isSome_iff_exists.mp hs.serving
  have haccounts := hs.accounts
  simp only [State.inHand, State.queued, hp] at haccounts
  cases label with
  | start memory =>
      change main s memory = some t at h
      unfold main at h
      split at h
      · cases h
        exact ⟨hs.serving, hs.accounts⟩
      · next hnone => simp [hnone] at hp
      · cases h
  | post message =>
      obtain ⟨queue, hqueue, rfl⟩ := Option.map_eq_some_iff.mp h
      refine ⟨hs.serving, ?_⟩
      simp only [hqueue, Option.getD_some] at haccounts
      simp [State.inHand, State.queued, hp, haccounts]
  | childExits i =>
      obtain ⟨c, notices, hc, rfl⟩ := childEnds_cases h
      refine ⟨hs.serving, ?_⟩
      have hset : (s.children.set i { c with running := false }).map
          Child.message = s.children.map Child.message := map_set_eq hc rfl
      simp only [State.inHand, State.queued, hset]
      exact hs.accounts
  | childSignal i sig =>
      obtain ⟨c, notices, hc, rfl⟩ := childEnds_cases h
      refine ⟨hs.serving, ?_⟩
      have hset : (s.children.set i { c with running := false }).map
          Child.message = s.children.map Child.message := map_set_eq hc rfl
      simp only [State.inHand, State.queued, sigHandler, msgctl_serverKey,
        hset]
      exact hs.accounts
  | receive | interrupted | tooLong | receiveFails | fork | forkFails
  | signal sig =>
      obtain ⟨p', hp', hmove⟩ := Option.bind_eq_some_iff.mp h
      obtain rfl : p = p' := Option.some.inj (hp.symm.trans hp')
      rcases parentNext_cases hmove with ⟨-, rfl⟩ |
        ⟨message, rest, -, hpc, hqueue, -, rfl⟩ | ⟨message, -, hpc, rfl⟩ |
        ⟨hends, -⟩
      · exact hs
      · refine ⟨rfl, ?_⟩
        simp only [Parent.inHand, hpc, hqueue, Option.map_some,
          Option.getD_some] at haccounts
        simp [State.inHand, State.queued, Parent.inHand, haccounts]
      · refine ⟨rfl, ?_⟩
        simp only [Parent.inHand, hpc, Option.map_some,
          Option.getD_some] at haccounts
        simp [State.inHand, State.queued, Parent.inHand, haccounts]
      · exact absurd hends hlabel

/-- The messages that the labels put on the queue. -/
def posted (labels : List Label) : List Message :=
  labels.filterMap fun label =>
    match label with
    | .post message => some message
    | _ => none

/-- `fork` succeeds, no signal reaches the parent, and `msgrcv` fails only
with `EINTR` or `E2BIG`. -/
def Label.InScope (label : Label) : Prop :=
  label.EndsParent → label = .tooLong

/-- The label is in scope and puts no message on the queue that does not
fit. -/
def Label.Fits (label : Label) : Prop :=
  label.InScope ∧ ∀ message, label = .post message →
    message.length ≤ reqMsgSize

theorem next_sent {s t : State} {label : Label} {message : Message}
    (h : next s label = some t) (hmem : message ∈ t.sent) :
    message ∈ s.sent ∨ label = .post message := by
  cases label with
  | start memory =>
      change main s memory = some t at h
      grind [main, printf]
  | post message' =>
      obtain ⟨queue, -, rfl⟩ := Option.map_eq_some_iff.mp h
      simp only [List.mem_append, List.mem_singleton] at hmem
      rcases hmem with hold | rfl
      · exact Or.inl hold
      · exact Or.inr rfl
  | childExits i | childSignal i sig =>
      obtain ⟨c, notices, -, rfl⟩ := childEnds_cases h
      exact Or.inl hmem
  | receive | interrupted | tooLong | receiveFails | fork | forkFails
  | signal sig =>
      obtain ⟨p, -, hmove⟩ := Option.bind_eq_some_iff.mp h
      rcases parentNext_cases hmove with ⟨_, rfl⟩ |
        ⟨_, _, _, _, _, _, rfl⟩ | ⟨_, _, _, rfl⟩ | ⟨_, _, _, _, rfl⟩
      all_goals exact Or.inl hmem

/-- The server is available and only messages that fit have been sent. -/
structure Sound (s : State) : Prop where
  available : Available s
  fits : ∀ message ∈ s.sent, message.length ≤ reqMsgSize

theorem next_sound (s : State) (label : Label) (t : State)
    (hlabel : label.Fits) (hs : Sound s) (h : next s label = some t) :
    Sound t := by
  have hends : ¬ label.EndsParent := by
    intro hends
    obtain rfl := hlabel.1 hends
    obtain ⟨p, -, hmove⟩ := Option.bind_eq_some_iff.mp h
    rcases parentNext_cases hmove with ⟨hother, -⟩ |
      ⟨_, _, hother, -⟩ | ⟨_, hother, -⟩ | ⟨-, hlong, -⟩
    · cases hother
    · cases hother
    · cases hother
    · obtain ⟨message, rest, hqueue, hlength⟩ := hlong rfl
      have hmem : message ∈ s.sent := by
        rw [hs.available.accounts, State.queued, hqueue]
        simp
      have hfits := hs.fits message hmem
      omega
  refine ⟨next_available hs.available hends h, ?_⟩
  intro message hmem
  rcases next_sent h hmem with hold | hnew
  · exact hs.fits message hold
  · exact hlabel.2 message hnew

theorem start_sound {memory : List Byte} {s : State}
    (h : next initial (.start memory) = some s) : Sound s := by
  cases h
  refine ⟨⟨rfl, rfl⟩, ?_⟩
  intro message hmem
  cases hmem

end SysvMsg

end MyFreeLib
