/-
Bytes as C programs see them: buffers that keep what a shorter store leaves
behind, strings that end at their first zero byte, and input streams that may
never end.
-/
import Mathlib.Data.List.Basic
import Mathlib.Data.List.TakeWhile

namespace MyFreeLib

abbrev Byte := UInt8

/-- The bytes of a message text. -/
def text (message : String) : List Byte :=
  message.toList.map fun c => UInt8.ofNat c.toNat

/-- Store a block at the start of a buffer; the bytes past it stay. -/
def overlay (block buffer : List Byte) : List Byte :=
  block ++ buffer.drop block.length

@[simp] theorem take_overlay (block buffer : List Byte) :
    (overlay block buffer).take block.length = block := by
  simp [overlay]

/-- A block that fits leaves the buffer as long as it was. -/
theorem overlay_length {block buffer : List Byte}
    (h : block.length ≤ buffer.length) :
    (overlay block buffer).length = buffer.length := by
  rw [overlay, List.length_append, List.length_drop]
  omega

/-- Past the block the buffer is as it was. -/
theorem overlay_getElem? {block buffer : List Byte} {i : ℕ}
    (h : block.length ≤ i) : (overlay block buffer)[i]? = buffer[i]? := by
  rw [overlay, List.getElem?_append_right h, List.getElem?_drop,
    Nat.add_sub_cancel' h]

/-- `memset` on the start of a buffer. -/
def memset (buffer : List Byte) (value : Byte) (count : ℕ) : List Byte :=
  overlay (List.replicate count value) buffer

/-- A store through a pointer that may lie outside the buffer; only a store
inside changes it. -/
def store (buffer : List Byte) (pos : ℤ) (value : Byte) : List Byte :=
  if 0 ≤ pos then buffer.set pos.toNat value else buffer

theorem memset_length {buffer : List Byte} {value : Byte} {count : ℕ}
    (h : count ≤ buffer.length) :
    (memset buffer value count).length = buffer.length :=
  overlay_length (by rwa [List.length_replicate])

theorem memset_getElem?_of_le {buffer : List Byte} {value : Byte}
    {count i : ℕ} (h : count ≤ i) :
    (memset buffer value count)[i]? = buffer[i]? :=
  overlay_getElem? (by rwa [List.length_replicate])

theorem memset_getElem?_of_lt {buffer : List Byte} {value : Byte}
    {count i : ℕ} (h : i < count) :
    (memset buffer value count)[i]? = some value := by
  rw [memset, overlay, List.getElem?_append_left (by simpa using h),
    List.getElem?_replicate, if_pos h]

@[simp] theorem store_length (buffer : List Byte) (pos : ℤ) (value : Byte) :
    (store buffer pos value).length = buffer.length := by
  rw [store]
  split <;> simp

@[simp] theorem store_natCast (buffer : List Byte) (pos : ℕ) (value : Byte) :
    store buffer pos value = buffer.set pos value := by
  simp [store]

/-- The string at an address: the bytes before the first zero. -/
def cString (memory : List Byte) : List Byte :=
  memory.takeWhile fun b => b != 0

theorem zero_not_mem_nil : 0 ∉ ([] : List Byte) := List.not_mem_nil

theorem cString_eq_self {memory : List Byte} (h : 0 ∉ memory) :
    cString memory = memory := by
  refine List.takeWhile_eq_self_iff.mpr fun b hb => ?_
  simp only [bne_iff_ne]
  rintro rfl
  exact h hb

/-- A string goes on where a block without zeros ends. -/
theorem cString_append {bytes : List Byte} (h : 0 ∉ bytes)
    (rest : List Byte) : cString (bytes ++ rest) = bytes ++ cString rest := by
  have hall : ∀ b ∈ bytes, (b != 0) = true := by
    intro b hb
    rw [bne_iff_ne]
    rintro rfl
    exact h hb
  rw [cString, List.takeWhile_append_of_pos hall, cString]

/-- A zero ends the string, whatever follows. -/
theorem cString_append_zero {bytes : List Byte} (h : 0 ∉ bytes)
    (rest : List Byte) : cString (bytes ++ 0 :: rest) = bytes := by
  rw [cString_append h]
  simp [cString]

theorem zero_not_mem_cString (memory : List Byte) : 0 ∉ cString memory := by
  intro hzero
  have hne := List.mem_takeWhile_imp hzero
  simp at hne

/-- A string as C passes it: its bytes, and after them a zero. -/
structure CString where
  bytes : List Byte
  noZero : 0 ∉ bytes
deriving DecidableEq, Repr

/-- The bytes at the address of the string. -/
def CString.memory (s : CString) : List Byte := s.bytes ++ [0]

/-- `strlen` -/
def strlen (memory : List Byte) : ℕ := (cString memory).length

@[simp] theorem CString.cString_memory (s : CString) :
    cString s.memory = s.bytes := cString_append_zero s.noZero []

@[simp] theorem CString.strlen_memory (s : CString) :
    strlen s.memory = s.bytes.length := by
  rw [strlen, s.cString_memory]

/-- `strncpy`: the string, cut off after `count` bytes or filled up with
zeros. -/
def strncpy (buffer source : List Byte) (count : ℕ) : List Byte :=
  overlay ((cString source).take count ++
    List.replicate (count - strlen source) 0) buffer

/-- A string that fits is there with the zero that ends it. -/
theorem strncpy_of_fits {buffer source : List Byte} {count : ℕ}
    (h : strlen source < count) :
    cString source ++ [0] <+: strncpy buffer source count := by
  have htake : (cString source).take count = cString source :=
    List.take_of_length_le (Nat.le_of_lt h)
  obtain ⟨n, hn⟩ : ∃ n, count - strlen source = n + 1 :=
    ⟨count - strlen source - 1, by omega⟩
  refine ⟨List.replicate n 0 ++ buffer.drop count, ?_⟩
  have hlength : (cString source ++ List.replicate (n + 1) (0 : Byte)).length =
      count := by
    rw [List.length_append, List.length_replicate, ← hn]
    exact Nat.add_sub_cancel' (Nat.le_of_lt h)
  rw [strncpy, htake, hn, overlay, hlength, List.replicate_succ]
  simp

/-- Copying a string that fits gives the same string. -/
theorem cString_strncpy {buffer source : List Byte} {count : ℕ}
    (h : strlen source < count) :
    cString (strncpy buffer source count) = cString source := by
  obtain ⟨rest, hrest⟩ : cString source ++ [0] <+:
      strncpy buffer source count := strncpy_of_fits h
  rw [← hrest, List.append_assoc, List.singleton_append]
  exact cString_append_zero (zero_not_mem_cString source) rest

/-- `snprintf`: as much of the output as fits in front of a zero. -/
def snprintf (buffer output : List Byte) (size : ℕ) : List Byte :=
  if size = 0 then buffer
  else overlay (output.take (size - 1) ++ [0]) buffer

theorem snprintf_length {buffer output : List Byte} {size : ℕ}
    (h : size ≤ buffer.length) :
    (snprintf buffer output size).length = buffer.length := by
  rw [snprintf]
  split
  case isTrue => rfl
  case isFalse hsize =>
    refine overlay_length ?_
    have htake := List.length_take_le (size - 1) output
    rw [List.length_append, List.length_singleton]
    omega

/-- The string that `snprintf` leaves is what fitted of its output. -/
theorem cString_snprintf {buffer output : List Byte} {size : ℕ}
    (hsize : 0 < size) (h : 0 ∉ output) :
    cString (snprintf buffer output size) = output.take (size - 1) := by
  have hzero : 0 ∉ output.take (size - 1) :=
    fun hmem => h (List.mem_of_mem_take hmem)
  rw [snprintf, if_neg (Nat.ne_of_gt hsize), overlay, List.append_assoc,
    List.singleton_append]
  exact cString_append_zero hzero _

/-- A zero at or after `pos`: a string that starts there ends in the buffer. -/
def ZeroFrom (buffer : List Byte) (pos : ℕ) : Prop := 0 ∈ buffer.drop pos

instance (buffer : List Byte) (pos : ℕ) :
    Decidable (ZeroFrom buffer pos) :=
  inferInstanceAs (Decidable (0 ∈ _))

theorem zeroFrom_iff {buffer : List Byte} {pos : ℕ} :
    ZeroFrom buffer pos ↔ ∃ i, pos ≤ i ∧ buffer[i]? = some 0 := by
  simp only [ZeroFrom, List.mem_iff_getElem?, List.getElem?_drop]
  constructor
  · rintro ⟨i, hi⟩
    exact ⟨pos + i, Nat.le_add_right pos i, hi⟩
  · rintro ⟨i, hle, hi⟩
    exact ⟨i - pos, by rwa [Nat.add_sub_cancel' hle]⟩

theorem ZeroFrom.mono {buffer : List Byte} {pos start : ℕ}
    (h : ZeroFrom buffer pos) (hle : start ≤ pos) :
    ZeroFrom buffer start := by
  obtain ⟨i, hi, hzero⟩ := zeroFrom_iff.mp h
  exact zeroFrom_iff.mpr ⟨i, hle.trans hi, hzero⟩

/-- Overwriting the bytes before `count` keeps strings terminated if it leaves
a zero that is not before the last byte written. -/
theorem ZeroFrom.overwrite {old new : List Byte} {count pos : ℕ}
    (h : ZeroFrom old pos) (hsame : ∀ i, count ≤ i → new[i]? = old[i]?)
    (hzero : ZeroFrom new (count - 1)) : ZeroFrom new pos := by
  obtain ⟨i, hi, hold⟩ := zeroFrom_iff.mp h
  rcases Nat.lt_or_ge i count with hlt | hge
  · exact hzero.mono (by omega)
  · exact zeroFrom_iff.mpr ⟨i, hi, by rw [hsame i hge, hold]⟩

theorem strlen_lt_length_iff {memory : List Byte} :
    strlen memory < memory.length ↔ 0 ∈ memory := by
  induction memory with
  | nil => simp
  | cons byte rest ih =>
      by_cases hzero : byte = 0
      · simp [strlen, cString, hzero]
      · have hstep : strlen (byte :: rest) = strlen rest + 1 := by
          simp [strlen, cString, hzero]
        rw [hstep, List.length_cons, Nat.add_lt_add_iff_right, ih,
          List.mem_cons, or_iff_right (Ne.symm hzero)]

/-- An input that delivers byte `i`, or ends there. -/
abbrev ByteStream := ℕ → Option Byte

/-- The next `count` bytes from `pos` on. -/
def bytesAt (stream : ByteStream) (pos : ℕ) : ℕ → Option (List Byte)
  | 0 => some []
  | count + 1 => do
      let byte ← stream pos
      let rest ← bytesAt stream (pos + 1) count
      return byte :: rest

/-- `read` asked at `pos` and answering `count`: zero only at end of file,
otherwise exactly the bytes that stand there. -/
def readAt (stream : ByteStream) (pos count : ℕ) : Option (List Byte) :=
  if count = 0 then
    if stream pos = none then some [] else none
  else bytesAt stream pos count

theorem bytesAt_length {stream : ByteStream} {pos count : ℕ}
    {block : List Byte} (h : bytesAt stream pos count = some block) :
    block.length = count := by
  induction count generalizing pos block with
  | zero =>
      simp only [bytesAt, Option.some.injEq] at h
      rw [← h, List.length_nil]
  | succ n ih =>
      simp only [bytesAt, Option.bind_eq_bind, Option.pure_def,
        Option.bind_eq_some_iff, Option.some.injEq] at h
      obtain ⟨byte, -, rest, hrest, rfl⟩ := h
      rw [List.length_cons, ih hrest]

theorem bytesAt_append {stream : ByteStream} {pos m n : ℕ}
    {front back : List Byte} (hfront : bytesAt stream pos m = some front)
    (hback : bytesAt stream (pos + m) n = some back) :
    bytesAt stream pos (m + n) = some (front ++ back) := by
  induction m generalizing pos front with
  | zero =>
      simp only [bytesAt, Option.some.injEq] at hfront
      subst hfront
      simpa using hback
  | succ m ih =>
      simp only [bytesAt, Option.bind_eq_bind, Option.pure_def,
        Option.bind_eq_some_iff, Option.some.injEq] at hfront
      obtain ⟨byte, hbyte, rest, hrest, rfl⟩ := hfront
      have htail := ih hrest (by rwa [Nat.add_right_comm, Nat.add_assoc])
      rw [Nat.add_right_comm]
      simp [bytesAt, hbyte, htail]

theorem readAt_length {stream : ByteStream} {pos count : ℕ}
    {block : List Byte} (h : readAt stream pos count = some block) :
    block.length = count := by
  by_cases hzero : count = 0
  · simp only [readAt, hzero, ↓reduceIte, Option.ite_none_right_eq_some,
      Option.some.injEq] at h
    rw [← h.2, hzero, List.length_nil]
  · simp only [readAt, hzero, ↓reduceIte] at h
    exact bytesAt_length h

theorem readAt_bytesAt {stream : ByteStream} {pos count : ℕ}
    {block : List Byte} (h : readAt stream pos count = some block) :
    bytesAt stream pos count = some block := by
  by_cases hzero : count = 0
  · simp only [readAt, hzero, ↓reduceIte, Option.ite_none_right_eq_some] at h
    rw [hzero, bytesAt]
    exact h.2
  · simpa only [readAt, hzero, ↓reduceIte] using h

theorem readAt_nil {stream : ByteStream} {pos count : ℕ}
    (h : readAt stream pos count = some []) : stream pos = none := by
  have hzero : count = 0 := (readAt_length h).symm
  simp only [readAt, hzero, ↓reduceIte, Option.ite_none_right_eq_some] at h
  exact h.1

theorem bytesAt_isSome {stream : ByteStream} {pos count i : ℕ}
    {block : List Byte} (h : bytesAt stream pos count = some block)
    (hle : pos ≤ i) (hlt : i < pos + count) : stream i ≠ none := by
  induction count generalizing pos block with
  | zero => omega
  | succ n ih =>
      obtain ⟨byte, hbyte, h⟩ := Option.bind_eq_some_iff.mp h
      obtain ⟨rest, hrest, -⟩ := Option.bind_eq_some_iff.mp h
      by_cases hi : i = pos
      · simp [hi, hbyte]
      · exact ih hrest (by omega) (by omega)

/-- What has been read does not reach beyond the end. -/
theorem bytesAt_le_of_none {stream : ByteStream} {count size : ℕ}
    {block : List Byte} (h : bytesAt stream 0 count = some block)
    (hend : stream size = none) : count ≤ size := by
  by_contra hlt
  exact bytesAt_isSome h (Nat.zero_le size) (by omega) hend

/-- Some single `read` is always possible. -/
theorem exists_readAt (stream : ByteStream) (pos : ℕ) :
    ∃ count block, count ≤ 1 ∧ readAt stream pos count = some block := by
  cases hbyte : stream pos with
  | none => exact ⟨0, [], Nat.zero_le 1, by simp [readAt, hbyte]⟩
  | some byte =>
      exact ⟨1, [byte], Nat.le_refl 1, by simp [readAt, bytesAt, hbyte]⟩

/-- `out` is everything the stream delivers up to its end. -/
def WholeInput (stream : ByteStream) (out : List Byte) : Prop :=
  bytesAt stream 0 out.length = some out ∧ stream out.length = none

instance (stream : ByteStream) (out : List Byte) :
    Decidable (WholeInput stream out) :=
  inferInstanceAs (Decidable (_ ∧ _))

end MyFreeLib
