/-
Memory that a program has not initialised.  A byte is known once something has
been stored in it; what is read from unknown bytes is no value at all.
-/
import MyFreeLib.ByteBuffer

namespace MyFreeLib

/-- The bytes of an object; `none` is one that nothing has been stored in. -/
abbrev Memory := List (Option Byte)

namespace Memory

def fresh (size : ℕ) : Memory := List.replicate size none

/-- Store a block at the start of an object; the bytes past it stay. -/
def store (block : List Byte) (memory : Memory) : Memory :=
  block.map some ++ memory.drop block.length

/-- The content, if every byte is known. -/
def bytes (memory : Memory) : Option (List Byte) :=
  if none ∈ memory then none else some (memory.filterMap id)

theorem bytes_map_some (block : List Byte) :
    bytes (block.map some) = some block := by
  simp [bytes]

/-- A new object is known exactly if a whole block has been stored in it. -/
theorem bytes_store_fresh {block : List Byte} {size : ℕ}
    (h : block.length ≤ size) : bytes (store block (fresh size)) =
      if block.length = size then some block else none := by
  rw [store, fresh, List.drop_replicate]
  split
  · next hwhole =>
      rw [hwhole, Nat.sub_self, List.replicate_zero, List.append_nil]
      exact bytes_map_some block
  · next hshort =>
      apply if_pos
      have hpos : size - block.length ≠ 0 := by omega
      simp [hpos]

/-- The string at the start of an object.  There is none if an unknown byte or
the end of the object comes before a zero. -/
def cString : Memory → Option (List Byte)
  | some byte :: rest =>
      if byte = 0 then some [] else (cString rest).map (byte :: ·)
  | _ => none

theorem cString_eq_some {memory : Memory} {bytes : List Byte} :
    cString memory = some bytes ↔
      0 ∉ bytes ∧ (bytes ++ [0]).map some <+: memory := by
  induction memory generalizing bytes with
  | nil => simp [cString]
  | cons cell rest ih =>
      cases cell with
      | none => cases bytes <;> simp [cString]
      | some byte =>
          by_cases hzero : byte = 0
          · cases bytes with
            | nil => simp [cString, hzero]
            | cons first others =>
                simp only [cString, hzero, ↓reduceIte, Option.some.injEq,
                  reduceCtorEq, List.cons_append, List.map_cons,
                  List.cons_prefix_cons, List.mem_cons, not_or, false_iff]
                rintro ⟨⟨hfirst, -⟩, rfl, -⟩
                exact hfirst rfl
          · cases bytes with
            | nil => simp [cString, hzero, Ne.symm hzero]
            | cons first others =>
                simp only [cString, hzero, ↓reduceIte, Option.map_eq_some_iff,
                  ih, List.cons.injEq, List.cons_append, List.map_cons,
                  List.cons_prefix_cons, Option.some.injEq, List.mem_cons,
                  not_or]
                constructor
                · rintro ⟨tail, ⟨hclean, htail⟩, rfl, rfl⟩
                  exact ⟨⟨Ne.symm hzero, hclean⟩, rfl, htail⟩
                · rintro ⟨⟨-, hclean⟩, rfl, htail⟩
                  exact ⟨others, ⟨hclean, htail⟩, rfl, rfl⟩

/-- Where a store puts the first bytes of `content` behind `skip` bytes, the
whole content is there exactly if its rest was there already. -/
theorem prefix_store_drop (memory : Memory) {block content : List Byte}
    {skip : ℕ} (h : block.drop skip = content.take (block.length - skip)) :
    content.map some <+: (store block memory).drop skip ↔
      (content.drop (block.length - skip)).map some <+:
        memory.drop (max skip block.length) := by
  have hsplit : content.map some =
      (content.take (block.length - skip)).map some ++
        (content.drop (block.length - skip)).map some := by
    rw [← List.map_append, List.take_append_drop]
  have hdrop : (store block memory).drop skip =
      (content.take (block.length - skip)).map some ++
        memory.drop (max skip block.length) := by
    rw [store, List.drop_append, ← List.map_drop, h, List.length_map,
      List.drop_drop]
    congr 2
    omega
  rw [hsplit, hdrop, List.prefix_append_right_inj]

end Memory

end MyFreeLib
