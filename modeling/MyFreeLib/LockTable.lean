/-
The locks on one object: many shared ones, or one exclusive one.  A table that
breaks this rule cannot be built, so whoever holds a lock knows what the others
may hold.
-/
import Mathlib.Data.List.Basic
import Mathlib.Data.List.Pairwise

namespace MyFreeLib

universe u

inductive LockMode
  | shared
  | exclusive
deriving DecidableEq, Repr

/-- Two owners may hold these at the same time. -/
def LockMode.Compatible (m n : LockMode) : Prop := m = .shared ∧ n = .shared

instance (m n : LockMode) : Decidable (m.Compatible n) :=
  inferInstanceAs (Decidable (_ ∧ _))

theorem LockMode.Compatible.symm {m n : LockMode} (h : m.Compatible n) :
    n.Compatible m :=
  And.symm h

/-- Every owner has one lock at most, and no two of them exclude each other. -/
structure LockTable (Owner : Type u) where
  locks : List (Owner × LockMode)
  apart : locks.Pairwise fun a b => a.1 ≠ b.1 ∧ a.2.Compatible b.2

namespace LockTable

variable {Owner : Type u}

def empty : LockTable Owner := ⟨[], List.Pairwise.nil⟩

def Holds (table : LockTable Owner) (owner : Owner) (mode : LockMode) : Prop :=
  (owner, mode) ∈ table.locks

@[simp] theorem not_holds_empty (owner : Owner) (mode : LockMode) :
    ¬ (empty : LockTable Owner).Holds owner mode := by
  simp [Holds, empty]

theorem Holds.eq_or_compatible {table : LockTable Owner} {a b : Owner}
    {m n : LockMode} (ha : table.Holds a m) (hb : table.Holds b n) :
    (a, m) = (b, n) ∨ a ≠ b ∧ m.Compatible n := by
  by_cases hsame : (a, m) = (b, n)
  · exact Or.inl hsame
  · have hsymm : Std.Symm fun x y : Owner × LockMode =>
        x.1 ≠ y.1 ∧ x.2.Compatible y.2 :=
      ⟨fun x y hxy => ⟨hxy.1.symm, hxy.2.symm⟩⟩
    exact Or.inr (List.Pairwise.forall table.apart ha hb hsame)

/-- Locks of two owners are both shared. -/
theorem Holds.compatible {table : LockTable Owner} {a b : Owner}
    {m n : LockMode} (ha : table.Holds a m) (hb : table.Holds b n)
    (hne : a ≠ b) : m.Compatible n := by
  rcases ha.eq_or_compatible hb with hsame | ⟨-, hcompatible⟩
  · exact absurd (congrArg Prod.fst hsame) hne
  · exact hcompatible

/-- No other owner's lock excludes a lock of this mode. -/
def Admits (table : LockTable Owner) (owner : Owner) (mode : LockMode) : Prop :=
  ∀ lock ∈ table.locks, lock.1 ≠ owner → lock.2.Compatible mode

/-- Whoever has to wait waits for an owner whose lock excludes its own. -/
theorem exists_holds_of_not_admits {table : LockTable Owner} {owner : Owner}
    {mode : LockMode} (h : ¬ table.Admits owner mode) :
    ∃ other m, other ≠ owner ∧ table.Holds other m ∧ ¬ m.Compatible mode := by
  rw [Admits] at h
  push Not at h
  obtain ⟨⟨other, m⟩, hmem, hne, hexcludes⟩ := h
  exact ⟨other, m, hne, hmem, hexcludes⟩

variable [DecidableEq Owner]

instance (table : LockTable Owner) (owner : Owner) (mode : LockMode) :
    Decidable (table.Admits owner mode) :=
  inferInstanceAs (Decidable (∀ lock ∈ table.locks, _))

def release (table : LockTable Owner) (owner : Owner) : LockTable Owner where
  locks := table.locks.filter fun lock => lock.1 ≠ owner
  apart := table.apart.filter _

/-- A lock that the owner has already is converted. -/
def acquire (table : LockTable Owner) (owner : Owner) (mode : LockMode)
    (h : table.Admits owner mode) : LockTable Owner where
  locks := (owner, mode) :: (table.release owner).locks
  apart := by
    refine List.Pairwise.cons ?_ (table.release owner).apart
    intro lock hlock
    obtain ⟨hmem, hne⟩ := List.mem_filter.mp hlock
    have hne : lock.1 ≠ owner := by simpa using hne
    exact ⟨hne.symm, (h lock hmem hne).symm⟩

@[simp] theorem holds_release (table : LockTable Owner) (owner o : Owner)
    (mode : LockMode) :
    (table.release owner).Holds o mode ↔ o ≠ owner ∧ table.Holds o mode := by
  simp [Holds, release, and_comm]

@[simp] theorem holds_acquire (table : LockTable Owner) (owner o : Owner)
    (mode m : LockMode) (h : table.Admits owner mode) :
    (table.acquire owner mode h).Holds o m ↔
      o = owner ∧ m = mode ∨ o ≠ owner ∧ table.Holds o m := by
  rw [Holds, acquire, List.mem_cons, Prod.mk.injEq]
  exact or_congr Iff.rfl (table.holds_release owner o m)

end LockTable

end MyFreeLib
