/-
A terminal of a given width: rows of cells, a cursor in the last of them, and
control sequences that take no cell.  Rows above the cursor are out of reach.
-/
import MyFreeLib.ByteBuffer
import Mathlib.Data.List.Forall2
import Mathlib.Data.List.Induction

namespace MyFreeLib

/-- Where the terminal stands in a control sequence. -/
inductive Escape
  | ground
  | escape
  | sequence
deriving DecidableEq, Repr

/-- `rows` are the finished rows, `row` the one with the cursor in front of
column `col`.  In column `width` the next character wraps. -/
structure Terminal where
  rows : List (List Byte)
  row : List Byte
  col : ℕ
  escape : Escape
deriving DecidableEq, Repr

namespace Terminal

/-- The cursor is in front of `row`. -/
def lineStart (rows : List (List Byte)) (row : List Byte) : Terminal :=
  ⟨rows, row, 0, .ground⟩

def empty : Terminal := lineStart [] []

/-- Set one cell, at the end of the row at most. -/
def put (row : List Byte) (col : ℕ) (c : Byte) : List Byte :=
  row.take col ++ c :: row.drop (col + 1)

/-- A character that takes a cell. -/
def character (width : ℕ) (t : Terminal) (c : Byte) : Terminal :=
  if t.col < width then { t with row := put t.row t.col c, col := t.col + 1 }
  else { t with rows := t.rows ++ [t.row], row := [c], col := 1 }

/-- One byte.  A line end also ends a control sequence. -/
def byte (width : ℕ) (t : Terminal) (b : Byte) : Terminal :=
  if b = 13 then { t with col := 0, escape := .ground }
  else if b = 10 then
    { rows := t.rows ++ [t.row], row := [], col := 0, escape := .ground }
  else
    match t.escape with
    | .ground =>
        if b = 27 then { t with escape := .escape } else t.character width b
    | .escape =>
        { t with escape := if b = 91 then .sequence else .ground }
    | .sequence =>
        { t with escape := if 64 ≤ b ∧ b ≤ 126 then .ground else .sequence }

theorem put_length {row : List Byte} {col : ℕ} (hcol : col ≤ row.length)
    (c : Byte) : (put row col c).length = max row.length (col + 1) := by
  rw [put, List.length_append, List.length_cons, List.length_take,
    List.length_drop]
  omega

def feed (width : ℕ) (t : Terminal) (bytes : List Byte) : Terminal :=
  bytes.foldl (byte width) t

variable {width : ℕ}

theorem feed_append (t : Terminal) (front back : List Byte) :
    feed width t (front ++ back) = feed width (feed width t front) back :=
  List.foldl_append

/-- What is finished stays. -/
theorem byte_rows (t : Terminal) (b : Byte) :
    t.rows <+: (byte width t b).rows := by
  rw [byte]
  split
  · exact List.prefix_rfl
  split
  · exact List.prefix_append ..
  split
  · split
    · exact List.prefix_rfl
    · rw [character]
      split
      · exact List.prefix_rfl
      · exact List.prefix_append ..
  · exact List.prefix_rfl
  · exact List.prefix_rfl

theorem feed_rows (t : Terminal) (bytes : List Byte) :
    t.rows <+: (feed width t bytes).rows := by
  induction bytes generalizing t with
  | nil => exact List.prefix_rfl
  | cons b rest ih => exact (byte_rows t b).trans (ih (byte width t b))

/-! ### Rows that look alike -/

/-- The same row with blanks behind it. -/
def Padded (blank : Byte) (row shown : List Byte) : Prop :=
  ∃ count, row = shown ++ List.replicate count blank

theorem Padded.put {blank : Byte} {row shown : List Byte}
    (h : Padded blank row shown) {col : ℕ} (hcol : col ≤ shown.length)
    (c : Byte) : Padded blank (put row col c) (put shown col c) := by
  obtain ⟨count, rfl⟩ := h
  rcases Nat.lt_or_ge col shown.length with hlt | hge
  · refine ⟨count, ?_⟩
    rw [Terminal.put, Terminal.put, List.take_append_of_le_length hcol,
      List.drop_append_of_le_length hlt, List.append_assoc, List.cons_append]
  · obtain rfl : col = shown.length := Nat.le_antisymm hcol hge
    refine ⟨count - 1, ?_⟩
    simp [Terminal.put, List.drop_append]

/-- Two terminals that show the same, one with blanks behind its rows. -/
structure Similar (blank : Byte) (t u : Terminal) : Prop where
  rows : List.Forall₂ (Padded blank) t.rows u.rows
  row : Padded blank t.row u.row
  col : t.col = u.col
  escape : t.escape = u.escape
  inside : u.col ≤ u.row.length

theorem Padded.rfl {blank : Byte} {row : List Byte} :
    Padded blank row row := ⟨0, by simp⟩

theorem forall₂_concat {blank : Byte} {rows shown : List (List Byte)}
    {row last : List Byte} (h : List.Forall₂ (Padded blank) rows shown)
    (hlast : Padded blank row last) :
    List.Forall₂ (Padded blank) (rows ++ [row]) (shown ++ [last]) :=
  List.rel_append h (.cons hlast .nil)

theorem Similar.character {blank : Byte} {t u : Terminal}
    (h : Similar blank t u) (c : Byte) :
    Similar blank (t.character width c) (u.character width c) := by
  rw [Terminal.character, Terminal.character, h.col]
  split
  · refine ⟨h.rows, h.row.put h.inside c, rfl, h.escape, ?_⟩
    rw [put_length h.inside]
    exact Nat.le_max_right ..
  · exact ⟨forall₂_concat h.rows h.row, .rfl, rfl, h.escape, by simp⟩

theorem Similar.byte {blank : Byte} {t u : Terminal} (h : Similar blank t u)
    (b : Byte) : Similar blank (t.byte width b) (u.byte width b) := by
  rw [Terminal.byte, Terminal.byte, h.escape]
  split
  · exact ⟨h.rows, h.row, rfl, rfl, Nat.zero_le _⟩
  split
  · exact ⟨forall₂_concat h.rows h.row, .rfl, rfl, rfl, Nat.zero_le _⟩
  split
  · split
    · exact { h with escape := rfl }
    · exact h.character b
  · exact { h with escape := rfl }
  · exact { h with escape := rfl }

theorem Similar.feed {blank : Byte} {t u : Terminal} (h : Similar blank t u)
    (bytes : List Byte) :
    Similar blank (t.feed width bytes) (u.feed width bytes) := by
  induction bytes generalizing t u with
  | nil => exact h
  | cons b rest ih => exact ih (h.byte b)

/-! ### One row over another -/

theorem overlay_put {row below : List Byte} {col : ℕ}
    (hcol : col ≤ row.length) (c : Byte) :
    put (overlay row below) col c = overlay (put row col c) below := by
  rcases Nat.lt_or_ge col row.length with hlt | hge
  · have hlength : (put row col c).length = row.length := by
      rw [put_length hcol]
      omega
    rw [overlay, overlay, hlength, put, put,
      List.take_append_of_le_length hcol,
      List.drop_append_of_le_length hlt, List.append_assoc, List.cons_append]
  · obtain rfl : col = row.length := Nat.le_antisymm hcol hge
    have hlength : (put row row.length c).length = row.length + 1 := by
      rw [put_length hcol]
      omega
    rw [overlay, overlay, hlength, put, put]
    simp [List.drop_append]

/-- The same terminal with other rows above and a longer row below. -/
def onto (t : Terminal) (rows : List (List Byte)) (below : List Byte) :
    Terminal :=
  { t with rows := rows, row := overlay t.row below }

theorem byte_onto (rows : List (List Byte)) (below : List Byte) {t : Terminal}
    {b : Byte} (h : (byte width t b).rows = [])
    (hinside : t.col ≤ t.row.length) :
    byte width (t.onto rows below) b = (byte width t b).onto rows below ∧
      (byte width t b).col ≤ (byte width t b).row.length := by
  by_cases hreturn : b = 13
  · simp [byte, onto, hreturn]
  by_cases hline : b = 10
  · simp [byte, hline] at h
  simp only [byte, hreturn, hline, ↓reduceIte] at h ⊢
  cases hescape : t.escape with
  | ground =>
      by_cases hstart : b = 27
      · simp [onto, hescape, hstart, hinside]
      · simp only [onto, hescape, hstart, ↓reduceIte] at h ⊢
        by_cases hcol : t.col < width
        · simp only [character, if_pos hcol]
          rw [overlay_put hinside, put_length hinside]
          exact ⟨by rw [hescape], Nat.le_max_right ..⟩
        · simp [character, hcol] at h
  | escape | sequence => simp [onto, hescape, hinside]

/-- What fits into one row of an empty terminal covers the start of any other
row in the same way, and touches nothing else. -/
theorem feed_onto (rows : List (List Byte)) (below : List Byte)
    {bytes : List Byte} (h : (feed width empty bytes).rows = []) :
    feed width (lineStart rows below) bytes =
        (feed width empty bytes).onto rows below ∧
      (feed width empty bytes).col ≤ (feed width empty bytes).row.length := by
  induction bytes using List.reverseRecOn with
  | nil => exact ⟨rfl, le_rfl⟩
  | append_singleton front b ih =>
      rw [feed_append] at h
      have hfront : (feed width empty front).rows = [] :=
        List.prefix_nil.mp (h ▸ feed_rows _ [b])
      obtain ⟨hover, hinside⟩ := ih hfront
      rw [feed_append, feed_append, hover]
      exact byte_onto rows below h hinside

/-! ### Whole lines -/

/-- Bytes that take a cell each. -/
def Plain (bytes : List Byte) : Prop :=
  ∀ b ∈ bytes, b ≠ 13 ∧ b ≠ 10 ∧ b ≠ 27

theorem feed_plain {bytes : List Byte} (hplain : Plain bytes)
    (hlength : bytes.length ≤ width) :
    feed width empty bytes = ⟨[], bytes, bytes.length, .ground⟩ := by
  induction bytes using List.reverseRecOn with
  | nil => rfl
  | append_singleton front b ih =>
      rw [List.length_append, List.length_singleton] at hlength
      obtain ⟨hreturn, hline, hstart⟩ := hplain b (by simp)
      have hfront := ih
        (fun c hc => hplain c (List.mem_append_left _ hc)) (by omega)
      have hput : put front front.length b = front ++ [b] := by simp [put]
      rw [feed_append, hfront]
      change byte width _ b = _
      simp only [byte, hreturn, hline, hstart, ↓reduceIte, character,
        if_pos (Nat.lt_of_succ_le hlength), hput, List.length_append,
        List.length_singleton]

theorem feed_return (t : Terminal) (bytes : List Byte) :
    feed width t (bytes ++ [13]) =
      lineStart (feed width t bytes).rows (feed width t bytes).row :=
  feed_append t bytes [13]

theorem feed_line (t : Terminal) (bytes : List Byte) :
    feed width t (bytes ++ [10]) =
      lineStart ((feed width t bytes).rows ++ [(feed width t bytes).row])
        [] :=
  feed_append t bytes [10]

end Terminal

end MyFreeLib
