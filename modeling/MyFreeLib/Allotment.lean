/-
Ranges handed out by a counter that moves on by the length of each request.
With arbitrary lengths the counter can also go back; the ranges stay disjoint
exactly as long as it never comes back into a range that it has handed out.
-/
import Mathlib.Algebra.Order.Group.Defs
import Mathlib.Algebra.BigOperators.Group.List.Basic
import Mathlib.Order.CompletePartialOrder
import Mathlib.Order.Interval.Set.Disjoint
import Mathlib.Algebra.Order.BigOperators.Group.List
import Mathlib.Tactic.Tauto

namespace MyFreeLib

universe u

/-- `length` numbers from `start` on. -/
structure Allotment (α : Type u) where
  start : α
  length : α
deriving DecidableEq, Repr

variable {α : Type u}

/-- The counter after the requests. -/
def counter (advance : α → α → α) (start : α) (lengths : List α) : α :=
  lengths.foldl advance start

/-- What the requests are handed out, one after the other. -/
def allot (advance : α → α → α) (start : α) : List α → List (Allotment α)
  | [] => []
  | length :: rest =>
      ⟨start, length⟩ :: allot advance (advance start length) rest

theorem allot_concat (advance : α → α → α) (start : α) (lengths : List α)
    (last : α) :
    allot advance start (lengths ++ [last]) =
      allot advance start lengths ++
        [⟨counter advance start lengths, last⟩] := by
  induction lengths generalizing start with
  | nil => rfl
  | cons length rest ih =>
      simp only [List.cons_append, allot, ih, counter, List.foldl_cons]

theorem counter_concat (advance : α → α → α) (start : α) (lengths : List α)
    (last : α) :
    counter advance start (lengths ++ [last]) =
      advance (counter advance start lengths) last := by
  simp [counter]

theorem forall_mem_allot [AddMonoid α] {P : Allotment α → Prop} {start : α}
    {lengths : List α} :
    (∀ a ∈ allot (· + ·) start lengths, P a) ↔
      ∀ front y back, lengths = front ++ y :: back →
        P ⟨start + front.sum, y⟩ := by
  induction lengths generalizing start with
  | nil => simp [allot]
  | cons length rest ih =>
      rw [allot, List.forall_mem_cons, ih]
      constructor
      · rintro ⟨hhead, hrest⟩ front y back hsplit
        cases front with
        | nil =>
            obtain ⟨rfl, rfl⟩ := List.cons.inj hsplit
            simpa using hhead
        | cons z front =>
            obtain ⟨rfl, hrest'⟩ := List.cons.inj hsplit
            simpa [add_assoc] using hrest front y back hrest'
      · intro hall
        refine ⟨by simpa using hall [] length rest rfl, ?_⟩
        rintro front y back rfl
        simpa [add_assoc] using hall (length :: front) y back rfl

variable [AddCommGroup α] [LinearOrder α] [IsOrderedAddMonoid α]

/-- The numbers of an allotment; there are none if its length is negative. -/
def Allotment.numbers (a : Allotment α) : Set α :=
  Set.Ico a.start (a.start + a.length)

/-- Behind a request for `x` numbers the counter is not below its range when
it comes to a request for `y`, or so far below that it stays there. -/
def StaysOut (x : α) (between : List α) (y : α) : Prop :=
  0 < x → 0 < y → 0 ≤ between.sum ∨ x + between.sum + y ≤ 0

/-- The counter never comes back into a range. -/
def NeverReturns (lengths : List α) : Prop :=
  ∀ front x between y back,
    lengths = front ++ x :: (between ++ y :: back) → StaysOut x between y

theorem disjoint_iff_staysOut (start x y : α) (between : List α) :
    Disjoint (Allotment.numbers ⟨start, x⟩)
        (Allotment.numbers ⟨start + x + between.sum, y⟩) ↔
      StaysOut x between y := by
  have hend : start + x + between.sum + y = start + (x + between.sum + y) := by
    simp only [add_assoc]
  rw [Allotment.numbers, Allotment.numbers, Set.Ico_disjoint_Ico, StaysOut,
    min_le_iff, le_max_iff, le_max_iff, add_le_iff_nonpos_right,
    le_add_iff_nonneg_right, add_le_iff_nonpos_right, hend,
    add_le_iff_nonpos_right, ← not_lt, ← not_lt (a := 0) (b := y)]
  tauto

theorem pairwise_disjoint_iff {start : α} {lengths : List α} :
    (allot (· + ·) start lengths).Pairwise
        (fun a b => Disjoint a.numbers b.numbers) ↔
      NeverReturns lengths := by
  induction lengths generalizing start with
  | nil => simp [allot, NeverReturns]
  | cons length rest ih =>
      rw [allot, List.pairwise_cons, ih, forall_mem_allot]
      simp only [disjoint_iff_staysOut]
      constructor
      · rintro ⟨hhead, hrest⟩ front x between y back hsplit
        cases front with
        | nil =>
            obtain ⟨rfl, hrest'⟩ := List.cons.inj hsplit
            exact hhead between y back hrest'
        | cons z front =>
            obtain ⟨rfl, hrest'⟩ := List.cons.inj hsplit
            exact hrest front x between y back hrest'
      · intro hall
        refine ⟨?_, ?_⟩
        · rintro between y back rfl
          exact hall [] length between y back rfl
        · rintro front x between y back rfl
          exact hall (length :: front) x between y back rfl

/-- Without negative lengths the counter only goes up. -/
theorem neverReturns_of_nonneg {lengths : List α}
    (h : ∀ length ∈ lengths, 0 ≤ length) : NeverReturns lengths := by
  rintro front x between y back rfl - -
  left
  apply List.sum_nonneg
  intro length hlength
  exact h length (by simp [hlength])

end MyFreeLib
