/-
How long the server queue lives.  It is created by the start of a server; the
exit paths mean to remove it and pass a command that `msgctl` does not know.
-/
import MyFreeLib.SysvMsgServer

namespace MyFreeLib

namespace SysvMsg

/-- The queue exists exactly while a server parent serves, so that a server
can be started whenever none is running. -/
structure Lifetime (s : State) : Prop where
  serving : s.parent.isSome → s.queue.isSome
  removed : s.parent = none → s.queue = none
  restart : s.parent = none → ∀ memory, ∃ t, next s (.start memory) = some t ∧
    t.parent.isSome

theorem lifetime_iff {s : State} :
    Lifetime s ↔ (s.parent.isSome ↔ s.queue.isSome) := by
  constructor
  · intro hs
    refine ⟨hs.serving, fun hqueue => ?_⟩
    by_contra hparent
    rw [hs.removed (by simpa using hparent)] at hqueue
    cases hqueue
  · intro hs
    have hremoved (hparent : s.parent = none) : s.queue = none := by
      simpa [hparent] using hs
    refine ⟨hs.mp, hremoved, ?_⟩
    intro hparent memory
    simp [next, main, hparent, hremoved hparent]

/-- No exit path of a server or a child removes the queue, and the parent
serves on unless one of its own calls or a signal ends it. -/
theorem next_keeps_queue {s t : State} {label : Label}
    (h : next s label = some t) (hqueue : s.queue.isSome) :
    t.queue.isSome ∧
      (t.parent.isSome ↔ s.parent.isSome ∧ ¬ label.EndsParent) := by
  obtain ⟨queue, hqueue⟩ := Option.isSome_iff_exists.mp hqueue
  cases label with
  | start memory =>
      simp only [next, main, hqueue, Option.some.injEq] at h
      simp [← h, printf, hqueue, Label.EndsParent]
  | post message =>
      simp only [next, hqueue, Option.map_some, Option.some.injEq] at h
      simp [← h, Label.EndsParent]
  | childExits i | childSignal i sig =>
      obtain ⟨c, notices, -, rfl⟩ := childEnds_cases h
      simp [sigHandler, hqueue, Label.EndsParent]
  | receive | interrupted | tooLong | receiveFails | fork | forkFails
  | signal sig =>
      obtain ⟨p, hparent, hmove⟩ := Option.bind_eq_some_iff.mp h
      rcases parentNext_cases hmove with ⟨hlabel, rfl⟩ |
        ⟨message, rest, hlabel, -, -, -, rfl⟩ | ⟨message, hlabel, -, rfl⟩ |
        ⟨hends, -, notices, code, rfl⟩
      all_goals simp_all [Label.EndsParent, leave, clean]

/-- Without a queue only a server can be started, or a child can end. -/
theorem next_without_queue {s t : State} {label : Label}
    (h : next s label = some t) (hparent : s.parent = none)
    (hqueue : s.queue = none) :
    ¬ label.EndsParent ∧ (t.parent.isSome ↔ t.queue.isSome) := by
  cases label with
  | start memory =>
      simp only [next, main, hqueue, hparent, Option.some.injEq] at h
      simp [← h, Label.EndsParent]
  | post message => simp [next, hqueue] at h
  | childExits i | childSignal i sig =>
      obtain ⟨c, notices, -, rfl⟩ := childEnds_cases h
      simp [sigHandler, hqueue, hparent, Label.EndsParent]
  | receive | interrupted | tooLong | receiveFails | fork | forkFails
  | signal sig => simp [next, hparent] at h

/-- The label alone decides whether the lifetime stays right. -/
theorem next_lifetime_iff {s t : State} {label : Label} (hs : Lifetime s)
    (h : next s label = some t) : Lifetime t ↔ ¬ label.EndsParent := by
  rw [lifetime_iff]
  by_cases hparent : s.parent.isSome
  · obtain ⟨hqueue, hserves⟩ := next_keeps_queue h (hs.serving hparent)
    rw [hserves]
    simp [hparent, hqueue]
  · have hnone : s.parent = none := by simpa using hparent
    obtain ⟨hlabel, hboth⟩ := next_without_queue h hnone (hs.removed hnone)
    exact iff_of_true hboth hlabel

/-- The queue lives exactly as long as a server parent throughout a run if and
only if no server parent terminates in it. -/
theorem lifetime_throughout_iff {labels : List Label} {s : State}
    (hrun : exec next initial labels = some s) :
    EachStep next (fun _ _ t => Lifetime t) initial labels ↔
      ∀ label ∈ labels, ¬ label.EndsParent := by
  have hstart : Lifetime initial :=
    lifetime_iff.mpr (iff_of_false (by simp [initial]) (by simp [initial]))
  exact eachStep_iff_labels
    (fun s t label _ hlabel hs h => (next_lifetime_iff hs h).mpr hlabel)
    (fun s t label _ hs h => next_lifetime_iff hs h) hstart hrun

/-- A server is started, terminated by `SIGTERM` and started again. -/
def restarted : List Label := [.start [], .signal 15, .start []]

theorem lifetime_throughout_restarted :
    EachStep next (fun _ _ t => Lifetime t) initial restarted ↔
      ∀ label ∈ restarted, ¬ label.EndsParent := by
  have hrun : exec next initial restarted = some _ := rfl
  exact lifetime_throughout_iff hrun

/-- The second start fails: the queue of the first server is still there. -/
theorem queue_outlives_server :
    ∃ s, exec next initial restarted = some s ∧ s.parent = none ∧
      s.queue = some [] ∧
      s.notices.getLast? = some "Create server message queue fail.\n" :=
  ⟨_, rfl, rfl, rfl, rfl⟩

end SysvMsg

end MyFreeLib
