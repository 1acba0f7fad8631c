/-
A table of processes in which one entry moves.  The lemmas say what a change
at one index does to statements about all entries and to sums over them.
-/
import Mathlib.Algebra.BigOperators.Group.List.Basic
import Mathlib.Algebra.GroupWithZero.Nat
import Mathlib.Algebra.Order.BigOperators.Group.List
import Mathlib.Algebra.Order.Group.Nat
import Mathlib.Data.List.Basic

namespace MyFreeLib

universe u

variable {α : Type u}

theorem forall_mem_set {P : α → Prop} {table : List α} {i : ℕ} {entry : α}
    (htable : ∀ x ∈ table, P x) (hentry : P entry) :
    ∀ x ∈ table.set i entry, P x := by
  intro x hx
  rcases List.mem_or_eq_of_mem_set hx with hold | rfl
  · exact htable x hold
  · exact hentry

/-- What must hold besides for a statement about all entries to survive. -/
theorem forall_mem_set_iff {P : α → Prop} {Q : Prop} {table : List α} {i : ℕ}
    {old new : α} (h : table[i]? = some old) (hP : P new ↔ P old ∧ Q) :
    (∀ x ∈ table.set i new, P x) ↔ (∀ x ∈ table, P x) ∧ Q := by
  constructor
  · intro hall
    have hnew := hP.mp
      (hall new (List.mem_set (List.getElem?_eq_some_iff.mp h).1 new))
    refine ⟨?_, hnew.2⟩
    intro x hx
    obtain ⟨j, hj⟩ := List.mem_iff_getElem?.mp hx
    by_cases hij : i = j
    · obtain rfl : x = old := Option.some.inj (hj.symm.trans (hij ▸ h))
      exact hnew.1
    · apply hall x
      apply List.mem_of_getElem? (i := j)
      rw [List.getElem?_set_ne hij, hj]
  · rintro ⟨hall, hQ⟩
    exact forall_mem_set hall
      (hP.mpr ⟨hall old (List.mem_of_getElem? h), hQ⟩)

/-- An entry of the new table is the new one or an old one elsewhere. -/
theorem getElem?_set_cases {table : List α} {i j : ℕ} {entry x : α}
    (h : (table.set i entry)[j]? = some x) :
    x = entry ∧ j = i ∨ j ≠ i ∧ table[j]? = some x := by
  rw [List.getElem?_set] at h
  by_cases hij : i = j
  · rw [if_pos hij] at h
    split at h
    · exact Or.inl ⟨(Option.some.inj h).symm, hij.symm⟩
    · cases h
  · rw [if_neg hij] at h
    exact Or.inr ⟨Ne.symm hij, h⟩

/-- Entries that are added behind leave the old ones where they are. -/
theorem getElem?_of_front {front table : List α} {i : ℕ} {x : α}
    (hfront : front <+: table) (h : front[i]? = some x) :
    table[i]? = some x := by
  obtain ⟨rest, rfl⟩ := hfront
  rw [List.getElem?_append_left (List.getElem?_eq_some_iff.mp h).1, h]

theorem set_self {table : List α} {i : ℕ} {x : α} (h : table[i]? = some x) :
    table.set i x = table := by
  rw [← (List.getElem?_eq_some_iff.mp h).2, List.set_getElem_self]

/-- Where the entry is known a change to it is a new entry. -/
theorem modify_eq_set {table : List α} {i : ℕ} {x : α}
    (h : table[i]? = some x) (change : α → α) :
    table.modify i change = table.set i (change x) := by
  apply List.ext_getElem?
  intro j
  rw [List.getElem?_modify, List.getElem?_set]
  by_cases hij : i = j
  · have hlt := (List.getElem?_eq_some_iff.mp h).1
    rw [← hij, h, if_pos rfl, if_pos hlt]
    simp
  · simp [hij]

theorem forall_mem_modify {P : α → Prop} {table : List α} {i : ℕ}
    {change : α → α} (htable : ∀ x ∈ table, P x)
    (hentry : ∀ x, table[i]? = some x → P (change x)) :
    ∀ x ∈ table.modify i change, P x := by
  intro x hx
  obtain ⟨j, hj⟩ := List.mem_iff_getElem?.mp hx
  rw [List.getElem?_modify] at hj
  obtain ⟨y, hy, hxy⟩ := Option.map_eq_some_iff.mp hj
  by_cases hij : i = j
  · rw [if_pos hij] at hxy
    exact hxy ▸ hentry y (hij ▸ hy)
  · rw [if_neg hij] at hxy
    exact hxy ▸ htable y (List.mem_of_getElem? hy)

theorem forall_mem_concat {P : α → Prop} {table : List α} {entry : α}
    (htable : ∀ x ∈ table, P x) (hentry : P entry) :
    ∀ x ∈ table ++ [entry], P x := by
  intro x hx
  rcases List.mem_append.mp hx with hold | hnew
  · exact htable x hold
  · rwa [List.mem_singleton.mp hnew]

/-- A key that no two entries share names one index. -/
theorem index_eq_of_nodup {β : Type*} {f : α → β} {table : List α}
    (hkeys : (table.map f).Nodup) {i j : ℕ} {x y : α}
    (hx : table[i]? = some x) (hy : table[j]? = some y) (hkey : f x = f y) :
    i = j := by
  have hi : i < (table.map f).length := by
    rw [List.length_map]
    exact (List.getElem?_eq_some_iff.mp hx).1
  apply (List.getElem?_inj hi hkeys).mp
  rw [List.getElem?_map, List.getElem?_map, hx, hy, Option.map_some,
    Option.map_some, hkey]

/-- What an entry keeps when it moves, the table keeps. -/
theorem map_set_eq {β : Type*} {f : α → β} {table : List α} {i : ℕ}
    {old new : α} (h : table[i]? = some old) (hf : f new = f old) :
    (table.set i new).map f = table.map f := by
  induction table generalizing i with
  | nil => simp at h
  | cons head tail ih =>
      cases i with
      | zero =>
          simp only [List.getElem?_cons_zero, Option.some.injEq] at h
          rw [List.set_cons_zero, List.map_cons, List.map_cons, hf, h]
      | succ n =>
          simp only [List.getElem?_cons_succ] at h
          rw [List.set_cons_succ, List.map_cons, List.map_cons, ih h]

theorem map_modify_eq {β : Type*} {f : α → β} (table : List α) (i : ℕ)
    {change : α → α} (hf : ∀ x, f (change x) = f x) :
    (table.modify i change).map f = table.map f := by
  apply List.ext_getElem?
  intro j
  simp only [List.getElem?_map, List.getElem?_modify]
  cases table[j]? with
  | none => rfl
  | some x =>
      by_cases hij : i = j
      · simp [hij, hf]
      · simp [hij]

/-- A sum over the table, when one entry is replaced. -/
theorem sum_map_set {M : Type*} [AddCommMonoid M] {table : List α} {i : ℕ}
    {old : α} (value : α → M) (h : table[i]? = some old) (new : α) :
    ((table.set i new).map value).sum + value old =
      (table.map value).sum + value new := by
  induction table generalizing i with
  | nil => simp at h
  | cons head tail ih =>
      cases i with
      | zero =>
          simp only [List.getElem?_cons_zero, Option.some.injEq] at h
          subst h
          simp only [List.set_cons_zero, List.map_cons, List.sum_cons]
          ac_rfl
      | succ n =>
          simp only [List.getElem?_cons_succ] at h
          simp only [List.set_cons_succ, List.map_cons, List.sum_cons,
            add_assoc, ih h]

/-- Two different entries together weigh at most as much as the table. -/
theorem add_le_sum_map [DecidableEq α] {table : List α} {x y : α}
    (value : α → ℕ) (hx : x ∈ table) (hy : y ∈ table) (hne : x ≠ y) :
    value x + value y ≤ (table.map value).sum := by
  have hrest : y ∈ table.erase x := (List.mem_erase_of_ne hne.symm).mpr hy
  have hle : value y ≤ ((table.erase x).map value).sum :=
    List.single_le_sum (by simp) _ (List.mem_map_of_mem hrest)
  have hsum := List.sum_map_erase value hx
  omega

end MyFreeLib
