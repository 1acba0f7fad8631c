/-
Who waits for ever at a semaphore.  The amount is narrowed to a `short`, and a
semaphore can have every value up to `SEMVMX`: so there is one amount, taken
from the command line of any process, that no value is enough for.
-/
import MyFreeLib.SysvSemCounts

namespace MyFreeLib

namespace SysvSem

theorem lookup_eq_some_iff {s : State} {id : ℤ} {k : ℕ} {set : SemSet} :
    s.lookup id = some (k, set) ↔ s.sets[k]? = some set ∧ set.id = id ∧
      ∀ (j : ℕ) (other : SemSet), j < k → s.sets[j]? = some other →
        other.id ≠ id := by
  constructor
  · intro h
    obtain ⟨hset, hid⟩ := lookup_eq_some h
    refine ⟨hset, hid, fun j other hj hother => ?_⟩
    obtain ⟨found, hfound, hmap⟩ := Option.bind_eq_some_iff.mp h
    obtain ⟨_, -, heq⟩ := Option.map_eq_some_iff.mp hmap
    obtain ⟨rfl, -⟩ := Prod.mk.inj heq
    obtain ⟨_, _, hbefore⟩ := List.findIdx?_eq_some_iff_getElem.mp hfound
    obtain ⟨hlt, rfl⟩ := List.getElem?_eq_some_iff.mp hother
    simpa using hbefore j hj
  · rintro ⟨hset, hid, hbefore⟩
    obtain ⟨hlt, hget⟩ := List.getElem?_eq_some_iff.mp hset
    have hfound : (s.sets.findIdx? fun set => set.id = id) = some k := by
      rw [List.findIdx?_eq_some_iff_getElem]
      refine ⟨hlt, by simpa [hget] using hid, fun j hj => ?_⟩
      have hne := hbefore j _ hj (List.getElem?_eq_getElem (hj.trans hlt))
      simpa using hne
    rw [State.lookup, hfound, Option.bind_some, hset, Option.map_some]

/-- What has been found stays where it is. -/
theorem Kept.lookup {s t : State} (h : Kept s t) {id : ℤ} {k : ℕ}
    {set after : SemSet} (hlookup : s.lookup id = some (k, set))
    (hafter : t.sets[k]? = some after) : t.lookup id = some (k, after) := by
  obtain ⟨hset, hid, hbefore⟩ := lookup_eq_some_iff.mp hlookup
  obtain ⟨same, hsame, hsameid, -⟩ := h k set hset
  obtain rfl := Option.some.inj (hafter.symm.trans hsame)
  refine lookup_eq_some_iff.mpr ⟨hafter, hsameid.trans hid, ?_⟩
  intro j other hj hother
  have hlt := hj.trans (List.getElem?_eq_some_iff.mp hset).1
  have hold := List.getElem?_eq_getElem hlt
  obtain ⟨new, hnew, hnewid, -⟩ := h j _ hold
  obtain rfl := Option.some.inj (hother.symm.trans hnew)
  rw [hnewid]
  exact hbefore j _ hj hold

theorem Move.kept {s t : State} {i : ℕ} {p q : Process}
    (hmove : Move s i p q t.sets) : Kept s t := by
  generalize hsets : t.sets = sets at hmove
  cases hmove with
  | ends | passes => exact kept_of_prefix (by rw [hsets])
  | makes => exact kept_of_prefix (hsets ▸ List.prefix_append _ _)
  | initialises hat hargs hk hset hafter =>
      obtain ⟨hid, howner, -⟩ := setval_eq_some hafter
      exact kept_set hset hsets hid howner
  | operates hat hargs hset => exact kept_set hset hsets rfl rfl

theorem next_kept {s t : State} {label : Label} (h : next s label = some t) :
    Kept s t := by
  rcases next_cases h with ⟨args, rfl⟩ | ⟨i, p, q, -, -, hmove⟩
  · exact kept_of_prefix (List.prefix_refl _)
  · exact hmove.kept

/-- A process stays as it is until its own turn. -/
theorem next_process {s t : State} {label : Label} {i : ℕ} {p : Process}
    (h : next s label = some t) (hp : s.processes[i]? = some p) :
    t.processes[i]? = some p ∨ (∃ id, step s i id p = some t) ∨
      (∃ errno, label = .fails i errno ∧ fails s i errno p = some t) ∨
      kill s i p = some t := by
  have hother {j : ℕ} {q : Process} (hj : j ≠ i)
      (ht : t.processes = s.processes.set j q) : t.processes[i]? = some p := by
    rw [ht, List.getElem?_set_ne hj, hp]
  cases label with
  | launch args =>
      cases h
      exact Or.inl (getElem?_of_front (List.prefix_append _ _) hp)
  | step j id =>
      obtain ⟨r, hr, hstep⟩ := Option.bind_eq_some_iff.mp h
      by_cases hj : j = i
      · subst hj
        obtain rfl := Option.some.inj (hp.symm.trans hr)
        exact Or.inr (Or.inl ⟨id, hstep⟩)
      · obtain ⟨q, ht, -⟩ := step_move hstep
        exact Or.inl (hother hj ht)
  | fails j errno =>
      obtain ⟨r, hr, hfails⟩ := Option.bind_eq_some_iff.mp h
      by_cases hj : j = i
      · subst hj
        obtain rfl := Option.some.inj (hp.symm.trans hr)
        exact Or.inr (Or.inr (Or.inl ⟨errno, rfl, hfails⟩))
      · obtain ⟨q, ht, -⟩ := fails_move hfails
        exact Or.inl (hother hj ht)
  | kill j =>
      obtain ⟨r, hr, hkill⟩ := Option.bind_eq_some_iff.mp h
      by_cases hj : j = i
      · subst hj
        obtain rfl := Option.some.inj (hp.symm.trans hr)
        exact Or.inr (Or.inr (Or.inr hkill))
      · obtain ⟨q, ht, -⟩ := kill_move hkill
        exact Or.inl (hother hj ht)

theorem execute_semop {s : State} {i : ℕ} {id : ℤ} {p : Process}
    {setid op : List Byte} (hargs : p.args = .operate setid op) :
    execute s i id p .semop = (s.lookup (atoi setid)).bind fun (k, set) =>
      (set.sem.op p.args.semOp).map fun sem =>
        { s with sets := s.sets.set k { set with sem } }.put i
          { p with
            pc := p.pc + 1
            set := some k
            late := set.base.isSome } := by
  obtain ⟨args, pc, set, late, status⟩ := p
  obtain rfl := hargs
  rfl

theorem not_ready {sem : Semaphore semvmx} {amount : ℤ}
    (h : amount = -32768) : ¬ sem.Ready amount := by
  intro hready
  have hmax : sem.value ≤ 32767 := sem.le_max
  have hlow := hready.2
  omega

/-- A process that waits can be interrupted, and one without the permission
for the set is turned away: the errors that do not depend on the value. -/
def Errno.FromOutside (errno : Errno) : Prop :=
  errno = .eintr ∨ errno = .eacces

/-- The label is no failure of process `i` for a reason from outside. -/
def Label.Leaves (i : ℕ) (label : Label) : Prop :=
  ∀ errno : Errno, errno.FromOutside → label ≠ .fails i errno

/-- The process has not got past `semop`, whatever became of it. -/
def Stuck (i : ℕ) (p : Process) (s : State) : Prop :=
  ∃ status, s.processes[i]? = some { p with status := status }

/-- The set is there and the process has not got past `semop`; only a signal
has ended it. -/
def Waits (i : ℕ) (p : Process) (setid : List Byte) (s : State) : Prop :=
  (∃ k set, s.lookup (atoi setid) = some (k, set)) ∧
    (s.processes[i]? = some p ∨
      s.processes[i]? = some { p with status := .ended none })

section Never

variable {i : ℕ} {p : Process} {setid op : List Byte}

theorem no_step (hat : p.at .semop) (hargs : p.args = .operate setid op)
    (hamount : p.args.semOp = -32768) (s : State) (id : ℤ) :
    step s i id p = none := by
  rw [step, hat.turn_eq, execute_semop hargs, Option.bind_eq_none_iff]
  rintro ⟨k, set⟩ -
  have hop : set.sem.op p.args.semOp = none :=
    dif_neg fun h => not_ready hamount h.1
  simp only [hop, Option.map_none]

theorem no_failure (hat : p.at .semop) (hargs : p.args = .operate setid op)
    (hamount : p.args.semOp = -32768) {s : State} {k : ℕ} {set : SemSet}
    (hlookup : s.lookup (atoi setid) = some (k, set)) {errno : Errno}
    (hinside : ¬ errno.FromOutside) : fails s i errno p = none := by
  have hfailure : failure s p errno .semop = none := by
    rw [failure, hargs]
    simp only [hlookup]
    rw [← hargs]
    cases errno with
    | eintr => exact absurd (Or.inl rfl) hinside
    | eacces => exact absurd (Or.inr rfl) hinside
    | erange => exact if_neg fun h => not_ready hamount h.1
    | einval | enospc => rfl
  rw [fails, hat.turn_eq]
  simp only [hfailure, Option.map_none]

theorem Stuck.next (hat : p.at .semop) (hargs : p.args = .operate setid op)
    (hamount : p.args.semOp = -32768) {s t : State} {label : Label}
    (hs : Stuck i p s) (h : next s label = some t) : Stuck i p t := by
  obtain ⟨status, hp⟩ := hs
  have hlast := (List.getElem?_eq_some_iff.mp hp).1
  rcases next_process h hp with hsame | ⟨id, hstep⟩ | ⟨errno, -, hfails⟩ |
    hkill
  · exact ⟨status, hsame⟩
  · cases status with
    | running =>
        have hnone := no_step (i := i) (p := { p with status := .running })
          ⟨rfl, hat.2⟩ hargs hamount s id
        cases hnone.symm.trans hstep
    | ended code => cases hstep
  · rcases Status.turn_eq_some hfails with ⟨stmt, -, hcall⟩ | ⟨-, -, hnone⟩
    · obtain ⟨message, -, rfl⟩ := Option.map_eq_some_iff.mp hcall
      exact ⟨_, List.getElem?_set_self hlast⟩
    · cases hnone
  · obtain ⟨-, rfl⟩ := Status.signal_eq_some hkill
    exact ⟨_, List.getElem?_set_self hlast⟩

theorem Waits.next (hat : p.at .semop) (hargs : p.args = .operate setid op)
    (hamount : p.args.semOp = -32768) {s t : State} {label : Label}
    (hleaves : label.Leaves i) (hs : Waits i p setid s)
    (h : next s label = some t) : Waits i p setid t := by
  obtain ⟨⟨k, set, hlookup⟩, hp⟩ := hs
  have hkept := next_kept h
  obtain ⟨after, hafter, -⟩ := hkept k set (lookup_eq_some hlookup).1
  refine ⟨⟨k, after, hkept.lookup hlookup hafter⟩, ?_⟩
  rcases hp with hp | hp
  · rcases next_process h hp with hsame | ⟨id, hstep⟩ | ⟨errno, rfl, hfails⟩ |
      hkill
    · exact Or.inl hsame
    · rw [no_step hat hargs hamount] at hstep
      cases hstep
    · have hinside : ¬ errno.FromOutside := fun h => hleaves errno h rfl
      rw [no_failure hat hargs hamount hlookup hinside] at hfails
      cases hfails
    · obtain ⟨-, rfl⟩ := Status.signal_eq_some hkill
      exact Or.inr (List.getElem?_set_self (List.getElem?_eq_some_iff.mp hp).1)
  · rcases next_process h hp with hsame | ⟨id, hstep⟩ | ⟨errno, -, hfails⟩ |
      hkill
    · exact Or.inr hsame
    · cases hstep
    · cases hfails
    · cases hkill

end Never

/-! ### The others -/

example : int16 (atoi (text "98304")) = -32768 := by decide

end SysvSem

end MyFreeLib
