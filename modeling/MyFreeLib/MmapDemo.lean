/-
`mmap_demo.c`: `share_demo` prints the string that a shared mapping holds and
then stores its argument there, for the next invocation to print.  Its length
check lets through strings that the store cuts off.
-/
import MyFreeLib.ByteBuffer
import MyFreeLib.LabelledRun

namespace MyFreeLib

namespace MmapDemo

/-- `MMAP_SIZE` -/
def mmapSize : ℕ := 128

/-- `SHARE_MMAP_FILE_PATH`, large enough for the mapping. -/
structure ShareFile where
  bytes : List Byte
  size : mmapSize ≤ bytes.length

/-- What `%.*s` prints of the mapping. -/
def ShareFile.current (file : ShareFile) : List Byte :=
  (cString file.bytes).take mmapSize

/-- The argument and a newline, as `snprintf` is to print them. -/
def line (string : CString) : List Byte := string.bytes ++ text "\n"

/-- `memset` and `snprintf` through the mapping. -/
def ShareFile.store (file : ShareFile) (string : CString) : ShareFile where
  bytes := snprintf (memset file.bytes 0 mmapSize) (line string) (mmapSize - 1)
  size := by
    have hmemset : (memset file.bytes 0 mmapSize).length =
        file.bytes.length := memset_length file.size
    have hfits : mmapSize - 1 ≤ (memset file.bytes 0 mmapSize).length := by
      rw [hmemset]
      exact (Nat.sub_le mmapSize 1).trans file.size
    rw [snprintf_length hfits, hmemset]
    exact file.size

/-- One invocation: `argv[2]`, if there is one, and whether `open`, `mmap`,
`close` and `msync` succeed. -/
structure Call where
  string : Option CString
  opens : Bool
  maps : Bool
  closes : Bool
  syncs : Bool
deriving DecidableEq, Repr

/-- The file afterwards, the output of each `printf` and what is returned. -/
structure Outcome where
  file : ShareFile
  printed : List (List Byte)
  code : ℤ

/-- The line that shows the mapping. -/
def ShareFile.shown (file : ShareFile) : List Byte :=
  text "Current string=" ++ file.current ++ text "\n"

def shareDemo (file : ShareFile) (call : Call) : Outcome :=
  match call.string with
  | none => ⟨file, [text "please input a string\n"], -1⟩
  | some string =>
      if !call.opens then
        ⟨file, [text "open file /tmp/share_mmap fail.\n"], -1⟩
      else if !call.maps then ⟨file, [text "mmap fail.\n"], -1⟩
      else if !call.closes then ⟨file, [text "close fail.\n"], -1⟩
      else if mmapSize < strlen string.memory then
        ⟨file, [file.shown, text "string too long"], -1⟩
      -- other mappings see the store even if `msync` fails
      else if !call.syncs then
        ⟨file.store string, [file.shown, text "msync fail.\n"], -1⟩
      else ⟨file.store string, [file.shown], 0⟩

/-- The file, and the argument of the last invocation that was accepted. -/
structure State where
  file : ShareFile
  accepted : Option CString

def start (file : ShareFile) : State := ⟨file, none⟩

def next (s : State) (call : Call) : Option State :=
  let outcome := shareDemo s.file call
  some {
    file := outcome.file
    accepted := if outcome.code = 0 then call.string else s.accepted }

/-- The invocation has an argument and gets as far as to print the mapping. -/
def Call.Prints (call : Call) : Prop :=
  call.string.isSome ∧ call.opens ∧ call.maps ∧ call.closes

/-- An invocation that is made now shows the string that was accepted last. -/
def Shows (s : State) : Prop :=
  ∀ accepted, s.accepted = some accepted → ∀ call : Call, call.Prints →
    (shareDemo s.file call).printed.head? =
      some (text "Current string=" ++ line accepted ++ text "\n")

/-- The invocation prints the mapping, and its argument does not pass the
check. -/
def Call.TooLong (call : Call) : Prop :=
  call.Prints ∧ ∃ string, call.string = some string ∧
    mmapSize < string.bytes.length

/-- The next invocation shows what was accepted last, and one that was rejected
as too long has changed nothing. -/
def RoundTrip (s : State) (call : Call) (t : State) : Prop :=
  Shows t ∧ (call.TooLong →
    (shareDemo s.file call).code = -1 ∧ t.file.bytes = s.file.bytes)

/-- The invocation gets as far as to store its argument. -/
def Call.Stores (call : Call) (string : CString) : Prop :=
  call.Prints ∧ call.string = some string ∧ string.bytes.length ≤ mmapSize

/-- A string that is accepted leaves room for the newline and the zero in
`MMAP_SIZE - 1` bytes; one whose `msync` fails is, as far as it is stored,
the string that was there before. -/
def Kept (s : State) (call : Call) (_ : State) : Prop :=
  ∀ string, call.Stores string →
    if call.syncs then string.bytes.length + 2 ≤ mmapSize - 1
    else ∀ accepted, s.accepted = some accepted →
      (line string).take (mmapSize - 2) = line accepted

/-! ### One store -/

theorem zero_not_mem_line (string : CString) : 0 ∉ line string := by
  rw [line, List.mem_append]
  rintro (hzero | hzero)
  · exact string.noZero hzero
  · revert hzero
    decide

theorem line_length (string : CString) :
    (line string).length = string.bytes.length + 1 :=
  List.length_append

/-- What is read back is the line, as far as `snprintf` stored it. -/
theorem current_store (file : ShareFile) (string : CString) :
    (file.store string).current = (line string).take (mmapSize - 2) := by
  rw [ShareFile.current, ShareFile.store,
    cString_snprintf (by decide) (zero_not_mem_line string), List.take_take]
  rfl

/-- The store keeps the line if it leaves room for the newline and the
zero. -/
theorem take_line_iff (string : CString) :
    (line string).take (mmapSize - 2) = line string ↔
      string.bytes.length + 2 ≤ mmapSize - 1 := by
  rw [List.take_eq_self_iff, line_length]
  simp only [mmapSize]
  omega

theorem shown_eq_iff (file : ShareFile) (string : CString) :
    file.shown = text "Current string=" ++ line string ++ text "\n" ↔
      file.current = line string := by
  rw [ShareFile.shown, List.append_cancel_right_eq,
    List.append_cancel_left_eq]

/-! ### One invocation -/

theorem shareDemo_printed (file : ShareFile) {call : Call}
    (h : call.Prints) :
    (shareDemo file call).printed.head? = some file.shown := by
  obtain ⟨hstring, hopens, hmaps, hcloses⟩ := h
  obtain ⟨string, hstring⟩ := Option.isSome_iff_exists.mp hstring
  simp only [shareDemo, hstring, hopens, hmaps, hcloses, Bool.not_true,
    Bool.false_eq_true, ↓reduceIte]
  split
  · rfl
  · split <;> rfl

theorem shareDemo_stores (file : ShareFile) {call : Call} {string : CString}
    (h : call.Stores string) :
    (shareDemo file call).file = file.store string ∧
      (shareDemo file call).code = if call.syncs then 0 else -1 := by
  obtain ⟨⟨-, hopens, hmaps, hcloses⟩, hstring, hfits⟩ := h
  simp only [shareDemo, hstring, hopens, hmaps, hcloses, Bool.not_true,
    Bool.false_eq_true, ↓reduceIte, CString.strlen_memory,
    Nat.not_lt.mpr hfits]
  cases call.syncs with
  | false => exact ⟨rfl, rfl⟩
  | true => exact ⟨rfl, rfl⟩

theorem shareDemo_rejects (file : ShareFile) {call : Call}
    (h : ∀ string, ¬ call.Stores string) :
    (shareDemo file call).file = file ∧ (shareDemo file call).code = -1 := by
  rw [shareDemo]
  split
  case h_1 => exact ⟨rfl, rfl⟩
  case h_2 string hstring =>
    split_ifs with hopens hmaps hcloses hlong hsyncs
    · exact ⟨rfl, rfl⟩
    · exact ⟨rfl, rfl⟩
    · exact ⟨rfl, rfl⟩
    · exact ⟨rfl, rfl⟩
    all_goals
      refine absurd ⟨⟨?_, ?_, ?_, ?_⟩, hstring, ?_⟩ (h string)
      · rw [hstring]
        rfl
      · simpa using hopens
      · simpa using hmaps
      · simpa using hcloses
      · simpa using hlong

/-! ### Runs -/

theorem next_stores {s t : State} {call : Call} {string : CString}
    (h : next s call = some t) (hstores : call.Stores string) :
    t.file = s.file.store string ∧
      t.accepted = if call.syncs then some string else s.accepted := by
  obtain ⟨hfile, hcode⟩ := shareDemo_stores s.file hstores
  cases h
  refine ⟨hfile, ?_⟩
  simp only [hcode, hstores.2.1]
  cases call.syncs with
  | false => rfl
  | true => rfl

theorem next_rejects {s t : State} {call : Call}
    (h : next s call = some t) (hrejects : ∀ string, ¬ call.Stores string) :
    t = s := by
  obtain ⟨hfile, hcode⟩ := shareDemo_rejects s.file hrejects
  cases h
  simp only [hfile, hcode]
  rfl

theorem Call.TooLong.not_stores {call : Call} (h : call.TooLong)
    (string : CString) : ¬ call.Stores string := by
  rintro ⟨-, hstring, hfits⟩
  obtain ⟨-, long, hlong, hlt⟩ := h
  rw [hstring, Option.some.injEq] at hlong
  rw [hlong] at hfits
  exact Nat.not_lt.mpr hfits hlt

/-- What an invocation shows depends on the mapping only. -/
theorem shows_iff (s : State) :
    Shows s ↔ ∀ accepted, s.accepted = some accepted →
      s.file.current = line accepted := by
  refine forall_congr' fun accepted => forall_congr' fun _ => ?_
  rw [← shown_eq_iff]
  constructor
  · intro h
    have hprints : Call.Prints ⟨some accepted, true, true, true, true⟩ :=
      ⟨rfl, rfl, rfl, rfl⟩
    exact Option.some.inj ((shareDemo_printed s.file hprints).symm.trans
      (h _ hprints))
  · intro h call hprints
    rw [shareDemo_printed _ hprints, h]

theorem start_shows (file : ShareFile) : Shows (start file) := by
  intro accepted h
  cases h

theorem kept_iff {s t : State} {call : Call} {string : CString}
    (h : call.Stores string) :
    Kept s call t ↔
      if call.syncs then string.bytes.length + 2 ≤ mmapSize - 1
      else ∀ accepted, s.accepted = some accepted →
        (line string).take (mmapSize - 2) = line accepted := by
  constructor
  · intro hkept
    exact hkept string h
  · intro hline other hother
    have hsame : some string = some other := h.2.1.symm.trans hother.2.1
    cases hsame
    exact hline

theorem next_roundTrip_iff (s : State) (call : Call) (t : State)
    (hs : Shows s) (h : next s call = some t) :
    RoundTrip s call t ↔ Kept s call t := by
  have hlong : call.TooLong →
      (shareDemo s.file call).code = -1 ∧ t.file.bytes = s.file.bytes := by
    intro hlong
    have hrejects := hlong.not_stores
    rw [next_rejects h hrejects]
    exact ⟨(shareDemo_rejects s.file hrejects).2, rfl⟩
  rw [RoundTrip, and_iff_left hlong, shows_iff]
  by_cases hstores : ∃ string, call.Stores string
  · obtain ⟨string, hstores⟩ := hstores
    obtain ⟨hfile, haccepted⟩ := next_stores h hstores
    rw [hfile, haccepted, current_store, kept_iff hstores]
    cases call.syncs with
    | false => rfl
    | true =>
        rw [if_pos rfl, if_pos rfl, ← take_line_iff]
        simp
  · push Not at hstores
    rw [next_rejects h hstores, ← shows_iff]
    exact iff_of_true hs fun string hstring => absurd hstring (hstores string)

theorem next_shows (s : State) (call : Call) (t : State) (hs : Shows s)
    (hkept : Kept s call t) (h : next s call = some t) : Shows t :=
  ((next_roundTrip_iff s call t hs h).mpr hkept).1

/-- For every file and every sequence of invocations: each shows what was
accepted last, and too long arguments change nothing, exactly if every store
keeps its line. -/
theorem roundTrip_iff (file : ShareFile) (calls : List Call) :
    EachStep next RoundTrip (start file) calls ↔
      EachStep next Kept (start file) calls :=
  eachStep_congr next_shows next_roundTrip_iff (start_shows file) calls

/-- The file that `dd` makes. -/
def zeroFile : ShareFile := ⟨List.replicate mmapSize 0, by simp⟩

def callWith (string : CString) : Call := ⟨some string, true, true, true, true⟩

/-- The longest argument that passes the check. -/
def longest : CString := ⟨List.replicate mmapSize 97, by simp⟩

/-- Of 128 bytes that are accepted the next invocation shows 126. -/
theorem not_roundTrip_longest : ¬ ∀ file calls,
    EachStep next RoundTrip (start file) calls := by
  intro h
  have hrun := h zeroFile [callWith longest]
  rw [eachStep_cons_iff rfl] at hrun
  obtain ⟨⟨hshows, -⟩, -⟩ := hrun
  have hstores : (callWith longest).Stores longest :=
    ⟨⟨rfl, rfl, rfl, rfl⟩, rfl, by simp [longest]⟩
  obtain ⟨hfile, haccepted⟩ := next_stores rfl hstores
  have hcurrent := (shows_iff _).mp hshows longest haccepted
  rw [hfile, current_store, take_line_iff] at hcurrent
  simp [longest, mmapSize] at hcurrent

end MmapDemo

end MyFreeLib
