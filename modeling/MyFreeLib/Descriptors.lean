/-
Descriptor tables: a number refers to an open file, and a new descriptor takes
the lowest number that is free.
-/
import Mathlib.Data.List.Basic

namespace MyFreeLib

universe u

/-- Entry `fd` is what descriptor `fd` refers to; past the list all numbers
are free. -/
structure Descriptors (α : Type u) where
  entries : List (Option α)
deriving DecidableEq, Repr

namespace Descriptors

variable {α : Type u}

/-- What `fd` refers to, if it is open. -/
def get (table : Descriptors α) (fd : ℕ) : Option α :=
  table.entries[fd]?.join

/-- Make `fd` refer to a file, or to nothing. -/
def update (table : Descriptors α) (fd : ℕ) (entry : Option α) :
    Descriptors α :=
  ⟨(table.entries ++
    List.replicate (fd + 1 - table.entries.length) none).set fd entry⟩

/-- The number that the next descriptor gets. -/
def lowestFree (table : Descriptors α) : ℕ :=
  table.entries.findIdx Option.isNone

/-- The table after `open`; the new descriptor is `lowestFree`. -/
def openFile (table : Descriptors α) (file : α) : Descriptors α :=
  table.update table.lowestFree (some file)

def close (table : Descriptors α) (fd : ℕ) : Descriptors α :=
  table.update fd none

/-- `dup2` of an open descriptor. -/
def dup2 (table : Descriptors α) (oldFd newFd : ℕ) : Descriptors α :=
  table.update newFd (table.get oldFd)

theorem get_update (table : Descriptors α) (fd n : ℕ) (entry : Option α) :
    (table.update fd entry).get n = if n = fd then entry else table.get n := by
  have hlt : fd < (table.entries ++
      List.replicate (fd + 1 - table.entries.length) none).length := by
    rw [List.length_append, List.length_replicate]
    omega
  by_cases hn : n = fd
  · rw [if_pos hn, get, update, hn, List.getElem?_set_self hlt]
    rfl
  · rw [if_neg hn, get, update, List.getElem?_set_ne (Ne.symm hn), get]
    rcases Nat.lt_or_ge n table.entries.length with hin | hout
    · rw [List.getElem?_append_left hin]
    · rw [List.getElem?_append_right hout, List.getElem?_eq_none hout,
        List.getElem?_replicate]
      split <;> rfl

@[simp] theorem get_close (table : Descriptors α) (fd n : ℕ) :
    (table.close fd).get n = if n = fd then none else table.get n :=
  get_update table fd n none

@[simp] theorem get_openFile (table : Descriptors α) (file : α) (n : ℕ) :
    (table.openFile file).get n =
      if n = table.lowestFree then some file else table.get n :=
  get_update table table.lowestFree n (some file)

@[simp] theorem get_dup2 (table : Descriptors α) (oldFd newFd n : ℕ) :
    (table.dup2 oldFd newFd).get n =
      if n = newFd then table.get oldFd else table.get n :=
  get_update table newFd n (table.get oldFd)

/-- The new number was free. -/
theorem get_lowestFree (table : Descriptors α) :
    table.get table.lowestFree = none := by
  rw [get]
  cases hentry : table.entries[table.lowestFree]? with
  | none => rfl
  | some entry =>
      have hfree : entry.isNone = true :=
        List.findIdx_of_getElem?_eq_some hentry
      rw [Option.isNone_iff_eq_none.mp hfree]
      rfl

/-- Closing the new descriptor gives back the old table. -/
theorem get_openFile_close (table : Descriptors α) (file : α) (n : ℕ) :
    ((table.openFile file).close table.lowestFree).get n = table.get n := by
  rw [get_close, get_openFile]
  split
  case isTrue hn => rw [hn, table.get_lowestFree]
  case isFalse => rfl

end Descriptors

end MyFreeLib
