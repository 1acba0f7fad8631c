/-
Counting semaphores.  A value outside of its range cannot be built, and a bank
of semaphores is balanced: each has the value it began with and what the
processes of a table have added to it or taken from it.
-/
import MyFreeLib.ProcessTable
import Mathlib.Algebra.Order.Group.Int
import Mathlib.Algebra.Ring.Int.Defs

namespace MyFreeLib

universe u

@[ext] structure Semaphore (max : ℕ) where
  value : ℕ
  le_max : value ≤ max
deriving Repr

namespace Semaphore

variable {max : ℕ}

/-- There is nothing to wait for: units are taken where there are so many, and
an operation with nothing to add or take waits for the value zero. -/
def Ready (sem : Semaphore max) (amount : ℤ) : Prop :=
  (amount = 0 → sem.value = 0) ∧ 0 ≤ sem.value + amount

instance (sem : Semaphore max) (amount : ℤ) : Decidable (sem.Ready amount) :=
  inferInstanceAs (Decidable (_ ∧ _))

/-- An operation that has to wait, or leads out of the range, is `none`. -/
def op (sem : Semaphore max) (amount : ℤ) : Option (Semaphore max) :=
  if h : sem.Ready amount ∧ sem.value + amount ≤ max then
    some ⟨(sem.value + amount).toNat, Int.toNat_le.mpr h.2⟩
  else none

theorem op_eq_some_iff {sem new : Semaphore max} {amount : ℤ} :
    sem.op amount = some new ↔
      sem.Ready amount ∧ (new.value : ℤ) = sem.value + amount := by
  have hmax := new.le_max
  rw [op, Option.dite_none_right_eq_some]
  constructor
  · rintro ⟨⟨hready, hrange⟩, hnew⟩
    rw [Option.some.injEq, Semaphore.ext_iff] at hnew
    refine ⟨hready, ?_⟩
    rw [← hnew]
    exact Int.toNat_of_nonneg hready.2
  · rintro ⟨hready, hvalue⟩
    refine ⟨⟨hready, by omega⟩, ?_⟩
    rw [Option.some.injEq, Semaphore.ext_iff]
    simp only
    omega

theorem op_isSome_iff {sem : Semaphore max} {amount : ℤ} :
    (sem.op amount).isSome ↔
      sem.Ready amount ∧ sem.value + amount ≤ max := by
  rw [op]
  split
  case isTrue h => simp [h]
  case isFalse h => simpa using h

variable {Process : Type u}

/-- Semaphore `k` began with `initial k`, and `amount p k` is what `p` has done
to it. -/
def Balanced (sems : List (Semaphore max)) (initial : ℕ → ℤ)
    (amount : Process → ℕ → ℤ) (processes : List Process) : Prop :=
  ∀ k sem, sems[k]? = some sem →
    (sem.value : ℤ) = initial k + (processes.map fun p => amount p k).sum

variable {sems : List (Semaphore max)} {initial : ℕ → ℤ}
  {amount : Process → ℕ → ℤ} {processes : List Process} {i : ℕ}
  {p q : Process}

/-- A process moves without an operation. -/
theorem Balanced.keep (h : Balanced sems initial amount processes)
    (hp : processes[i]? = some p) (hq : ∀ k, amount q k = amount p k) :
    Balanced sems initial amount (processes.set i q) := by
  intro k sem hsem
  rw [h k sem hsem, map_set_eq hp (hq k)]

/-- A process moves with an operation. -/
theorem Balanced.op (h : Balanced sems initial amount processes)
    (hp : processes[i]? = some p) {k : ℕ} {sem new : Semaphore max} {a : ℤ}
    (hsem : sems[k]? = some sem) (hop : sem.op a = some new)
    (hown : amount q k = amount p k + a)
    (hothers : ∀ j, j ≠ k → amount q j = amount p j) :
    Balanced (sems.set k new) initial amount (processes.set i q) := by
  intro j other hother
  rcases getElem?_set_cases hother with ⟨rfl, rfl⟩ | ⟨hne, hold⟩
  · have hvalue := (op_eq_some_iff.mp hop).2
    have hbalance := h j sem hsem
    have hsum := sum_map_set (fun p => amount p j) hp q
    omega
  · rw [h j other hold, map_set_eq hp (hothers j hne)]

/-- A new process has done nothing yet. -/
theorem Balanced.launch (h : Balanced sems initial amount processes)
    (hp : ∀ k, amount p k = 0) :
    Balanced sems initial amount (processes ++ [p]) := by
  intro k sem hsem
  rw [h k sem hsem, List.map_append, List.sum_append, List.map_singleton,
    List.sum_singleton, hp, add_zero]

/-- Nobody has done anything yet to a new semaphore. -/
theorem Balanced.create (h : Balanced sems initial amount processes)
    {sem : Semaphore max} (hinitial : (sem.value : ℤ) = initial sems.length)
    (hnew : ∀ p ∈ processes, amount p sems.length = 0) :
    Balanced (sems ++ [sem]) initial amount processes := by
  intro k other hother
  by_cases hk : k < sems.length
  · rw [List.getElem?_append_left hk] at hother
    exact h k other hother
  · have hlength : k = sems.length := by
      have hlt := (List.getElem?_eq_some_iff.mp hother).1
      rw [List.length_append, List.length_singleton] at hlt
      omega
    subst hlength
    rw [List.getElem?_concat_length, Option.some.injEq] at hother
    have hsum : (processes.map fun p => amount p sems.length).sum = 0 := by
      apply List.sum_eq_zero
      simp only [List.mem_map, forall_exists_index, and_imp]
      rintro _ p hp rfl
      exact hnew p hp
    rw [← hother, hsum, hinitial, add_zero]

end Semaphore

end MyFreeLib
