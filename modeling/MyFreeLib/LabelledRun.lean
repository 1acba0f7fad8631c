/-
Runs of a system given by a partial step function.  A label says which party
moves and what its environment answers, so a list of labels is one complete
schedule and replaying it is ordinary evaluation.
-/
import Mathlib.Algebra.BigOperators.Group.List.Basic
import Mathlib.Data.List.Basic

namespace MyFreeLib

universe u v w

variable {S : Type u} {L : Type v}

/-- Replay a schedule from `s`.  The result is `none` as soon as a label is
not enabled, so every `some` answer is a state the system really reaches. -/
def exec (next : S → L → Option S) : S → List L → Option S
  | s, [] => some s
  | s, label :: rest => (next s label).bind fun t => exec next t rest

/-- A guarded step that is taken: the guard holds, and this is the result. -/
theorem guarded_eq_some {c : Prop} [Decidable c] {s t : S} :
    (if c then some s else none) = some t ↔ c ∧ s = t := by
  rw [Option.ite_none_right_eq_some, Option.some.injEq]

/-- Every step taken while replaying the schedule satisfies `P`. -/
def EachStep (next : S → L → Option S) (P : S → L → S → Prop) :
    S → List L → Prop
  | _, [] => True
  | s, label :: rest =>
      ∀ t, next s label = some t → P s label t ∧ EachStep next P t rest

theorem eachStep_cons_iff {next : S → L → Option S} {P : S → L → S → Prop}
    {s t : S} {label : L} {rest : List L} (h : next s label = some t) :
    EachStep next P s (label :: rest) ↔
      P s label t ∧ EachStep next P t rest := by
  simp [EachStep, h]

instance EachStep.decidable (next : S → L → Option S) {P : S → L → S → Prop}
    [∀ s label t, Decidable (P s label t)] :
    ∀ s labels, Decidable (EachStep next P s labels)
  | _, [] => isTrue trivial
  | s, label :: rest =>
      match h : next s label with
      | none => isTrue (by simp [EachStep, h])
      | some t =>
          have := EachStep.decidable next (P := P) t rest
          decidable_of_iff (P s label t ∧ EachStep next P t rest)
            (eachStep_cons_iff h).symm

@[simp] theorem exec_nil (next : S → L → Option S) (s : S) :
    exec next s [] = some s := rfl

theorem exec_cons_eq_some {next : S → L → Option S} {s u : S} {label : L}
    {rest : List L} :
    exec next s (label :: rest) = some u ↔
      ∃ t, next s label = some t ∧ exec next t rest = some u := by
  simp only [exec, Option.bind_eq_some_iff]

theorem exec_append_eq_some {next : S → L → Option S} {s u : S}
    {front back : List L} :
    exec next s (front ++ back) = some u ↔
      ∃ t, exec next s front = some t ∧ exec next t back = some u := by
  induction front generalizing s with
  | nil => simp
  | cons label rest ih =>
      simp only [List.cons_append, exec_cons_eq_some, ih]
      constructor
      · rintro ⟨t, hstep, v, hrest, hback⟩
        exact ⟨v, ⟨t, hstep, hrest⟩, hback⟩
      · rintro ⟨v, ⟨t, hstep, hrest⟩, hback⟩
        exact ⟨t, hstep, v, hrest, hback⟩

theorem exec_snoc_eq_some {next : S → L → Option S} {s u : S} {label : L}
    {front : List L} :
    exec next s (front ++ [label]) = some u ↔
      ∃ t, exec next s front = some t ∧ next t label = some u := by
  rw [exec_append_eq_some]
  constructor
  · rintro ⟨t, hfront, hlast⟩
    obtain ⟨v, hstep, hend⟩ := exec_cons_eq_some.mp hlast
    rw [exec_nil, Option.some.injEq] at hend
    exact ⟨t, hfront, hend ▸ hstep⟩
  · rintro ⟨t, hfront, hstep⟩
    exact ⟨t, hfront, exec_cons_eq_some.mpr ⟨u, hstep, rfl⟩⟩

/-- The invariant rule: what every step preserves, every run preserves. -/
theorem exec_invariant {next : S → L → Option S} {Inv : S → Prop}
    (hstep : ∀ s label t, Inv s → next s label = some t → Inv t)
    {s t : S} {labels : List L} (hs : Inv s)
    (hrun : exec next s labels = some t) : Inv t := by
  induction labels generalizing s with
  | nil =>
      rw [exec_nil, Option.some.injEq] at hrun
      exact hrun ▸ hs
  | cons label rest ih =>
      obtain ⟨u, hfirst, hrest⟩ := exec_cons_eq_some.mp hrun
      exact ih (hstep s label u hs hfirst) hrest

/-- The invariant rule for runs whose labels are restricted to `ok`. -/
theorem exec_invariant_of_labels {next : S → L → Option S} {Inv : S → Prop}
    {ok : L → Prop}
    (hstep : ∀ s label t, ok label → Inv s → next s label = some t → Inv t)
    {s t : S} {labels : List L} (hok : ∀ label ∈ labels, ok label)
    (hs : Inv s) (hrun : exec next s labels = some t) : Inv t := by
  induction labels generalizing s with
  | nil =>
      rw [exec_nil, Option.some.injEq] at hrun
      exact hrun ▸ hs
  | cons label rest ih =>
      obtain ⟨u, hfirst, hrest⟩ := exec_cons_eq_some.mp hrun
      exact ih (fun l hl => hok l (List.mem_cons_of_mem label hl))
        (hstep s label u (hok label List.mem_cons_self) hs hfirst) hrest

/-- Steps that a view of the states does not show can be left out of it. -/
theorem exec_filter {next : S → L → Option S} {Inv : S → Prop} (view : S → S)
    (shown : L → Bool)
    (hstep : ∀ s label t, Inv s → next s label = some t → Inv t)
    (hshown : ∀ s label t, Inv s → shown label → next s label = some t →
      next (view s) label = some (view t))
    (hhidden : ∀ s label t, Inv s → ¬ shown label → next s label = some t →
      view t = view s) {s t : S} {labels : List L} (hs : Inv s)
    (hrun : exec next s labels = some t) :
    exec next (view s) (labels.filter shown) = some (view t) := by
  induction labels generalizing s with
  | nil =>
      rw [exec_nil, Option.some.injEq] at hrun
      rw [hrun, List.filter_nil, exec_nil]
  | cons label rest ih =>
      obtain ⟨u, hfirst, hrest⟩ := exec_cons_eq_some.mp hrun
      have htail := ih (hstep s label u hs hfirst) hrest
      by_cases hlabel : shown label
      · rw [List.filter_cons_of_pos hlabel, exec_cons_eq_some]
        exact ⟨view u, hshown s label u hs hlabel hfirst, htail⟩
      · rw [List.filter_cons_of_neg hlabel,
          ← hhidden s label u hs hlabel hfirst]
        exact htail

/-- What holds of all labels holds of all steps. -/
theorem eachStep_of_labels (next : S → L → Option S) {ok : L → Prop}
    {labels : List L} (h : ∀ label ∈ labels, ok label) (s : S) :
    EachStep next (fun _ label _ => ok label) s labels := by
  induction labels generalizing s with
  | nil => trivial
  | cons label rest ih =>
      intro t _
      exact ⟨h label List.mem_cons_self,
        ih (fun l hl => h l (List.mem_cons_of_mem label hl)) t⟩

/-- The invariant rule for runs whose steps all satisfy `P`. -/
theorem exec_invariant_of_eachStep {next : S → L → Option S} {Inv : S → Prop}
    {P : S → L → S → Prop}
    (hstep : ∀ s label t, Inv s → P s label t → next s label = some t → Inv t)
    {s t : S} {labels : List L} (hsteps : EachStep next P s labels)
    (hs : Inv s) (hrun : exec next s labels = some t) : Inv t := by
  induction labels generalizing s with
  | nil =>
      rw [exec_nil, Option.some.injEq] at hrun
      exact hrun ▸ hs
  | cons label rest ih =>
      obtain ⟨u, hfirst, hrest⟩ := exec_cons_eq_some.mp hrun
      obtain ⟨hP, hlater⟩ := hsteps u hfirst
      exact ih hlater (hstep s label u hs hP hfirst) hrest

/-- In a run of `Q`-steps either all steps satisfy `P`, or the first that does
not leads to a bad state, and then all later ones are. -/
theorem eachStep_or_bad {next : S → L → Option S} {Inv Bad : S → Prop}
    {P Q : S → L → S → Prop}
    (hkeep : ∀ s label t, Inv s → P s label t → next s label = some t → Inv t)
    (hfail : ∀ s label t, Inv s → next s label = some t → ¬ P s label t →
      Bad t)
    (hlast : ∀ s label t, Bad s → Q s label t → next s label = some t → Bad t)
    {s t : S} {labels : List L} (hs : Inv s)
    (hsteps : EachStep next Q s labels)
    (hrun : exec next s labels = some t) :
    EachStep next P s labels ∨ Bad t := by
  induction labels generalizing s with
  | nil => exact Or.inl trivial
  | cons label rest ih =>
      obtain ⟨u, hfirst, hrest⟩ := exec_cons_eq_some.mp hrun
      obtain ⟨-, hlater⟩ := hsteps u hfirst
      by_cases hP : P s label u
      · refine (ih (hkeep s label u hs hP hfirst) hlater hrest).imp_left ?_
        intro hsame v hv
        obtain rfl : u = v := Option.some.inj (hfirst.symm.trans hv)
        exact ⟨hP, hsame⟩
      · have hbad := hfail s label u hs hfirst hP
        exact Or.inr (exec_invariant_of_eachStep hlast hlater hbad hrest)

/-- A property of single steps that follows from an invariant holds of every
step of every run. -/
theorem eachStep_of_invariant {next : S → L → Option S} {Inv : S → Prop}
    {P : S → L → S → Prop}
    (hstep : ∀ s label t, Inv s → next s label = some t → Inv t)
    (himp : ∀ s label t, Inv s → next s label = some t → P s label t)
    {s : S} (hs : Inv s) (labels : List L) : EachStep next P s labels := by
  induction labels generalizing s with
  | nil => trivial
  | cons label rest ih =>
      intro t hnext
      exact ⟨himp s label t hs hnext, ih (hstep s label t hs hnext)⟩

/-- A property of single steps that follows from an invariant and from `Q`
holds of every step of a run of `Q`-steps, if these keep the invariant. -/
theorem eachStep_mono {next : S → L → Option S} {Inv : S → Prop}
    {P Q : S → L → S → Prop}
    (hkeep : ∀ s label t, Inv s → Q s label t → next s label = some t → Inv t)
    (himp : ∀ s label t, Inv s → Q s label t → next s label = some t →
      P s label t)
    {s : S} (hs : Inv s) {labels : List L}
    (hsteps : EachStep next Q s labels) : EachStep next P s labels := by
  induction labels generalizing s with
  | nil => trivial
  | cons label rest ih =>
      intro t hnext
      obtain ⟨hQ, hlater⟩ := hsteps t hnext
      exact ⟨himp s label t hs hQ hnext,
        ih (hkeep s label t hs hQ hnext) hlater⟩

/-- Two properties of single steps that agree where the invariant holds agree
on whole runs, if steps with the second one keep the invariant. -/
theorem eachStep_congr {next : S → L → Option S} {Inv : S → Prop}
    {P Q : S → L → S → Prop}
    (hkeep : ∀ s label t, Inv s → Q s label t → next s label = some t → Inv t)
    (hstep : ∀ s label t, Inv s → next s label = some t →
      (P s label t ↔ Q s label t))
    {s : S} (hs : Inv s) (labels : List L) :
    EachStep next P s labels ↔ EachStep next Q s labels := by
  constructor
  · refine eachStep_mono (fun s label t hs hP hnext => ?_)
      (fun s label t hs hP hnext => (hstep s label t hs hnext).mp hP) hs
    exact hkeep s label t hs ((hstep s label t hs hnext).mp hP) hnext
  · exact eachStep_mono hkeep
      (fun s label t hs hQ hnext => (hstep s label t hs hnext).mpr hQ) hs

/-- Where the label alone decides whether a step is as it should be, all steps
of a run are exactly when all its labels are. -/
theorem eachStep_iff_labels {next : S → L → Option S} {Inv : S → Prop}
    {P : S → L → S → Prop} {ok : L → Prop} {s t : S} {labels : List L}
    (hkeep : ∀ s t, ∀ label ∈ labels, ok label → Inv s →
      next s label = some t → Inv t)
    (hstep : ∀ s t, ∀ label ∈ labels, Inv s →
      next s label = some t → (P s label t ↔ ok label))
    (hs : Inv s) (hrun : exec next s labels = some t) :
    EachStep next P s labels ↔ ∀ label ∈ labels, ok label := by
  induction labels generalizing s with
  | nil => simp [EachStep]
  | cons label rest ih =>
      obtain ⟨u, hfirst, hrest⟩ := exec_cons_eq_some.mp hrun
      have hhead := hstep s u label List.mem_cons_self hs hfirst
      have htail (hok : ok label) : EachStep next P u rest ↔
          ∀ label ∈ rest, ok label :=
        ih (fun s t l hl => hkeep s t l (List.mem_cons_of_mem label hl))
          (fun s t l hl => hstep s t l (List.mem_cons_of_mem label hl))
          (hkeep s u label List.mem_cons_self hok hs hfirst) hrest
      simp only [EachStep, hfirst, Option.some.injEq, forall_eq',
        List.forall_mem_cons]
      constructor
      · rintro ⟨hP, hlater⟩
        exact ⟨hhead.mp hP, (htail (hhead.mp hP)).mp hlater⟩
      · rintro ⟨hok, hlater⟩
        exact ⟨hhead.mpr hok, (htail hok).mpr hlater⟩

/-- A property of states that a step keeps exactly when the step satisfies `P`
holds after a run exactly when it held before and all steps satisfy `P`. -/
theorem exec_iff_eachStep {next : S → L → Option S} {Inv : S → Prop}
    {P : S → L → S → Prop} {good : S → Prop}
    (hkeep : ∀ s label t, Inv s → next s label = some t → Inv t)
    (hstep : ∀ s label t, Inv s → next s label = some t →
      (good t ↔ good s ∧ P s label t))
    {s t : S} {labels : List L} (hs : Inv s)
    (hrun : exec next s labels = some t) :
    good t ↔ good s ∧ EachStep next P s labels := by
  induction labels generalizing s with
  | nil =>
      rw [exec_nil, Option.some.injEq] at hrun
      simp [EachStep, hrun]
  | cons label rest ih =>
      obtain ⟨u, hfirst, hrest⟩ := exec_cons_eq_some.mp hrun
      rw [ih (hkeep s label u hs hfirst) hrest, hstep s label u hs hfirst,
        and_assoc]
      simp only [EachStep, hfirst, Option.some.injEq, forall_eq']

/-- A property of states that only certain labels bring about holds after a
run exactly if it held before or one of them is in the schedule. -/
theorem exec_iff_exists_label {next : S → L → Option S} {Inv good : S → Prop}
    {ok : L → Prop}
    (hkeep : ∀ s label t, Inv s → next s label = some t → Inv t)
    (hstep : ∀ s label t, Inv s → next s label = some t →
      (good t ↔ good s ∨ ok label))
    {s t : S} {labels : List L} (hs : Inv s)
    (hrun : exec next s labels = some t) :
    good t ↔ good s ∨ ∃ label ∈ labels, ok label := by
  induction labels generalizing s with
  | nil =>
      rw [exec_nil, Option.some.injEq] at hrun
      simp [hrun]
  | cons label rest ih =>
      obtain ⟨u, hfirst, hrest⟩ := exec_cons_eq_some.mp hrun
      rw [ih (hkeep s label u hs hfirst) hrest, hstep s label u hs hfirst,
        or_assoc, List.exists_mem_cons_iff]

/-- Accounting: a quantity that every step changes by the weight of its label
changes along a run by the total weight of the schedule. -/
theorem exec_weight {next : S → L → Option S} {M : Type w} [AddCommMonoid M]
    {value : S → M} {weight : L → M}
    (hstep : ∀ s label t, next s label = some t →
      value t = value s + weight label)
    {s t : S} {labels : List L} (hrun : exec next s labels = some t) :
    value t = value s + (labels.map weight).sum := by
  induction labels generalizing s with
  | nil =>
      rw [exec_nil, Option.some.injEq] at hrun
      simp [hrun]
  | cons label rest ih =>
      obtain ⟨u, hfirst, hrest⟩ := exec_cons_eq_some.mp hrun
      rw [ih hrest, hstep s label u hfirst, List.map_cons, List.sum_cons,
        add_assoc]

/-- Termination: a measure that every step of an invariant run lowers bounds
the length of the run. -/
theorem exec_length_le {next : S → L → Option S} {Inv : S → Prop}
    {ok : L → Prop} {measure : S → ℕ}
    (hinv : ∀ s label t, ok label → Inv s → next s label = some t → Inv t)
    (hdrop : ∀ s label t, ok label → Inv s → next s label = some t →
      measure t < measure s)
    {s t : S} {labels : List L} (hok : ∀ label ∈ labels, ok label)
    (hs : Inv s) (hrun : exec next s labels = some t) :
    labels.length + measure t ≤ measure s := by
  induction labels generalizing s with
  | nil =>
      rw [exec_nil, Option.some.injEq] at hrun
      simp [hrun]
  | cons label rest ih =>
      obtain ⟨u, hfirst, hrest⟩ := exec_cons_eq_some.mp hrun
      have hlabel := hok label List.mem_cons_self
      have htail := ih (fun l hl => hok l (List.mem_cons_of_mem label hl))
        (hinv s label u hlabel hs hfirst) hrest
      have hfall := hdrop s label u hlabel hs hfirst
      rw [List.length_cons]
      omega

/-- Completion: where every allowed step lowers a measure and one can be taken
unless the state is final, allowed steps lead to a final state. -/
theorem exists_completion {next : S → L → Option S} {Inv final : S → Prop}
    {ok : L → Prop} {measure : S → ℕ}
    (hinv : ∀ s label t, ok label → Inv s → next s label = some t → Inv t)
    (hdrop : ∀ s label t, ok label → Inv s → next s label = some t →
      measure t < measure s)
    (hmove : ∀ s, Inv s → ¬ final s →
      ∃ label, ok label ∧ (next s label).isSome)
    {s : S} (hs : Inv s) :
    ∃ labels t, (∀ label ∈ labels, ok label) ∧
      exec next s labels = some t ∧ Inv t ∧ final t := by
  induction hwork : measure s using Nat.strongRecOn generalizing s with
  | _ work ih =>
      by_cases hfinal : final s
      · exact ⟨[], s, by simp, rfl, hs, hfinal⟩
      · obtain ⟨label, hok, hnext⟩ := hmove s hs hfinal
        obtain ⟨t, ht⟩ := Option.isSome_iff_exists.mp hnext
        have hless := hdrop s label t hok hs ht
        obtain ⟨labels, u, hlabels, hrun, hlast⟩ :=
          ih (measure t) (hwork ▸ hless) (hinv s label t hok hs ht) rfl
        refine ⟨label :: labels, u, ?_, ?_, hlast⟩
        · exact List.forall_mem_cons.mpr ⟨hok, hlabels⟩
        · exact exec_cons_eq_some.mpr ⟨t, ht, hrun⟩

/-- The system that takes only the steps `P` allows. -/
def guardedBy (next : S → L → Option S) (P : S → L → Prop)
    [∀ s label, Decidable (P s label)] (s : S) (label : L) : Option S :=
  if P s label then next s label else none

theorem guardedBy_eq_some {next : S → L → Option S} {P : S → L → Prop}
    [∀ s label, Decidable (P s label)] {s t : S} {label : L} :
    guardedBy next P s label = some t ↔
      P s label ∧ next s label = some t := by
  rw [guardedBy, Option.ite_none_right_eq_some]

/-- Its runs are those of the system itself whose steps are all allowed. -/
theorem exec_guardedBy_iff {next : S → L → Option S} {P : S → L → Prop}
    [∀ s label, Decidable (P s label)] {s t : S} {labels : List L} :
    exec (guardedBy next P) s labels = some t ↔
      exec next s labels = some t ∧
        EachStep next (fun s label _ => P s label) s labels := by
  induction labels generalizing s with
  | nil => simp [EachStep]
  | cons label rest ih =>
      simp only [exec_cons_eq_some, guardedBy_eq_some, ih]
      constructor
      · rintro ⟨u, ⟨hP, hstep⟩, hrest, hlater⟩
        exact ⟨⟨u, hstep, hrest⟩, (eachStep_cons_iff hstep).mpr ⟨hP, hlater⟩⟩
      · rintro ⟨⟨u, hstep, hrest⟩, hsteps⟩
        obtain ⟨hP, hlater⟩ := (eachStep_cons_iff hstep).mp hsteps
        exact ⟨u, ⟨hP, hstep⟩, hrest, hlater⟩

/-- `act` shows the abstract action, if any, that a concrete step performs,
and `abs` the abstract state that a concrete one stands for; `ok` says which
labels the refinement is about. -/
structure Refines {A : Type u} {B : Type w} (next : S → L → Option S)
    (spec : A → B → Option A) (ok : L → Prop) (Inv : S → Prop) (abs : S → A)
    (act : S → L → Option B) : Prop where
  step : ∀ s label t, ok label → Inv s → next s label = some t → Inv t
  silent : ∀ s label t, ok label → Inv s → next s label = some t →
    act s label = none → abs t = abs s
  visible : ∀ s label t b, ok label → Inv s → next s label = some t →
    act s label = some b → spec (abs s) b = some (abs t)

/-- Forward simulation: every concrete run shows an abstract run. -/
theorem Refines.exec {A : Type u} {B : Type w} {next : S → L → Option S}
    {spec : A → B → Option A} {ok : L → Prop} {Inv : S → Prop} {abs : S → A}
    {act : S → L → Option B} (href : Refines next spec ok Inv abs act)
    {s t : S} {labels : List L} (hok : ∀ label ∈ labels, ok label)
    (hs : Inv s) (hrun : exec next s labels = some t) :
    ∃ shown, MyFreeLib.exec spec (abs s) shown = some (abs t) := by
  induction labels generalizing s with
  | nil =>
      rw [exec_nil, Option.some.injEq] at hrun
      exact ⟨[], by rw [hrun, exec_nil]⟩
  | cons label rest ih =>
      obtain ⟨u, hfirst, hrest⟩ := exec_cons_eq_some.mp hrun
      have hlabel := hok label List.mem_cons_self
      obtain ⟨shown, htail⟩ := ih
        (fun l hl => hok l (List.mem_cons_of_mem label hl))
        (href.step s label u hlabel hs hfirst) hrest
      cases hact : act s label with
      | none =>
          rw [href.silent s label u hlabel hs hfirst hact] at htail
          exact ⟨shown, htail⟩
      | some b =>
          exact ⟨b :: shown, exec_cons_eq_some.mpr
            ⟨abs u, href.visible s label u b hlabel hs hfirst hact, htail⟩⟩

end MyFreeLib
