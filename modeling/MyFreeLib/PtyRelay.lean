/-
The relay loop of the pty demo: what is typed goes to the master side of the
pty, what the shell prints comes back.  Both directions share one buffer and
one length, and the length is unsigned.
-/
import MyFreeLib.ByteBuffer
import MyFreeLib.LabelledRun
import Mathlib.Logic.Function.Basic

namespace MyFreeLib

namespace PtyRelay

/-- `sizeof(buf)` -/
def bufSize : ℕ := 128

/-- The conversion of a `ssize_t` to the `size_t numRead`. -/
def sizeT (result : Int) : ℕ := (result % 2 ^ 64).toNat

/-- The largest count that `write` accepts. -/
def ssizeMax : ℕ := 2 ^ 63 - 1

/-- Descriptor 0 is relayed to the master, the master to descriptor 1. -/
inductive Direction
  | stdinToPty
  | ptyToStdin
deriving DecidableEq, Repr

/-- What the loop prints before it writes. -/
def Direction.prompt : Direction → String
  | .stdinToPty => "stdin-->pty:"
  | .ptyToStdin => "pty-->stdin:"

/-- The descriptors that `select` has left in `inFfs`. -/
structure FdSet where
  stdin : Bool
  master : Bool
deriving DecidableEq, Repr

inductive Pc
  | select
  | read (dir : Direction)
  | write (dir : Direction)
  | returned
deriving DecidableEq, Repr

/-- `block` is history: the bytes that the last `read` has put into `buf`.  So
are `taken` and `given`, the data read and forwarded in each direction, and
`prompts`. -/
structure State where
  pc : Pc
  inFfs : FdSet
  buf : List Byte
  numRead : ℕ
  block : List Byte
  taken : Direction → List Byte
  given : Direction → List Byte
  prompts : List String

/-- Nothing is known of the locals when the loop is entered. -/
def start (inFfs : FdSet) (buf : List Byte) (numRead : ℕ) : State where
  pc := .select
  inFfs := inFfs
  buf := buf
  numRead := numRead
  block := []
  taken _ := []
  given _ := []
  prompts := []

/-- One call and its outcome; `none` stands for -1, and a `read` of no bytes
for the end of file. -/
inductive Label
  | select (ready : Option FdSet)
  | read (block : Option (List Byte))
  | write (result : Int)
deriving DecidableEq, Repr

/-- Where the loop goes after the first of its two branches. -/
def State.afterStdin (s : State) : Pc :=
  if s.inFfs.master then .read .ptyToStdin else .select

/-- Where it goes after a block has been written. -/
def State.afterWrite (s : State) : Direction → Pc
  | .stdinToPty => s.afterStdin
  | .ptyToStdin => .select

def select (s : State) : Option FdSet → State
  | none => { s with pc := .returned }
  | some ready =>
      let s := { s with inFfs := ready }
      { s with
        pc := if ready.stdin then .read .stdinToPty else s.afterStdin }

/-- The value that `read` returns. -/
def readResult : Option (List Byte) → Int
  | none => -1
  | some block => block.length

/-- `numRead = read(...)` and the test of its result. -/
def read (s : State) (dir : Direction) (block : Option (List Byte)) : State :=
  let bytes := block.getD []
  let s := { s with
    buf := overlay bytes s.buf
    numRead := sizeT (readResult block)
    block := bytes
    taken := Function.update s.taken dir (s.taken dir ++ bytes) }
  if s.numRead ≤ 0 then { s with pc := .returned }
  else { s with pc := .write dir, prompts := s.prompts ++ [dir.prompt] }

/-- A `write` stores what its result says, and cannot succeed with a count
beyond the signed range. -/
def WriteAllows (count : ℕ) (result : Int) : Prop :=
  result = -1 ∨ 0 ≤ result ∧ result ≤ count ∧ count ≤ ssizeMax

instance (count : ℕ) (result : Int) : Decidable (WriteAllows count result) :=
  inferInstanceAs (Decidable (_ ∨ _))

/-- `write(..., buf, numRead) != numRead` compares two `size_t`. -/
def write (s : State) (dir : Direction) (result : Int) : State :=
  { s with
    given := Function.update s.given dir
      (s.given dir ++ s.buf.take result.toNat)
    pc := if sizeT result ≠ s.numRead then .returned else s.afterWrite dir }

def next (s : State) (label : Label) : Option State :=
  match s.pc, label with
  | .select, .select ready => some (select s ready)
  | .read dir, .read block =>
      if (block.getD []).length ≤ bufSize then some (read s dir block)
      else none
  | .write dir, .write result =>
      if WriteAllows s.numRead result then some (write s dir result) else none
  | _, _ => none

theorem sizeT_of_nonneg {result : Int} (hpos : 0 ≤ result)
    (hle : result ≤ ssizeMax) : sizeT result = result.toNat := by
  simp only [sizeT, ssizeMax] at hle ⊢
  omega

/-- The -1 of a failed call is the largest `size_t`. -/
theorem sizeT_error : sizeT (-1) = 18446744073709551615 := rfl

/-- What the two length variables say while a `write` is due: the length of
the block, or the error of a failed `read` as a count. -/
def Due (s : State) (dir : Direction) : Prop :=
  s.taken dir = s.given dir ++ s.block ∧
    (s.numRead = s.block.length ∧ s.buf.take s.block.length = s.block ∧
        0 < s.block.length ∧ s.block.length ≤ bufSize ∨
      s.numRead = sizeT (-1) ∧ s.block = [])

/-- Between a `read` and its `write` the block is under way; everywhere else
in the loop what was read has been forwarded. -/
structure Forwards (s : State) : Prop where
  order : ∀ dir, s.given dir <+: s.taken dir
  settled : ∀ dir, s.pc ≠ .write dir → s.pc ≠ .returned →
    s.given dir = s.taken dir

structure Inv (s : State) : Prop where
  forwards : Forwards s
  due : ∀ dir, s.pc = .write dir → Due s dir

theorem start_inv (inFfs : FdSet) (buf : List Byte) (numRead : ℕ) :
    Inv (start inFfs buf numRead) := by
  refine ⟨⟨?_, ?_⟩, ?_⟩
  · intro dir
    exact List.prefix_rfl
  · intro dir _ _
    rfl
  · intro dir hpc
    cases hpc

theorem select_inv {s : State} (hs : Inv s) (hpc : s.pc = .select)
    (ready : Option FdSet) : Inv (select s ready) := by
  have hequal (dir : Direction) : s.given dir = s.taken dir :=
    hs.forwards.settled dir (by simp [hpc]) (by simp [hpc])
  have hnot (dir : Direction) : (select s ready).pc ≠ .write dir := by
    cases ready with
    | none => simp [select]
    | some ready =>
        simp only [select, State.afterStdin]
        split
        · simp
        · split <;> simp
  have hgiven : (select s ready).given = s.given := by cases ready <;> rfl
  have htaken : (select s ready).taken = s.taken := by cases ready <;> rfl
  refine ⟨⟨?_, ?_⟩, ?_⟩
  · intro dir
    have hsame : (select s ready).given dir = (select s ready).taken dir := by
      rw [hgiven, htaken, hequal]
    exact hsame ▸ List.prefix_rfl
  · intro dir _ _
    rw [hgiven, htaken, hequal]
  · intro dir hdir
    exact absurd hdir (hnot dir)

/-- Only an empty block ends the loop: the error of `read` is a large count. -/
theorem readResult_le_zero {block : Option (List Byte)}
    (hfit : (block.getD []).length ≤ bufSize) :
    sizeT (readResult block) ≤ 0 ↔ block = some [] := by
  cases block with
  | none => simp [readResult, sizeT]
  | some bytes =>
      have hsize : sizeT bytes.length = bytes.length := by
        simp only [sizeT, Option.getD_some, bufSize] at hfit ⊢
        omega
      simp [readResult, hsize]

theorem read_pc {s : State} {dir : Direction} {block : Option (List Byte)}
    (hfit : (block.getD []).length ≤ bufSize) :
    (read s dir block).pc =
      if block = some [] then .returned else .write dir := by
  have hzero := readResult_le_zero hfit
  by_cases hend : block = some []
  · rw [if_pos hend]
    simp only [read, if_pos (hzero.mpr hend)]
  · rw [if_neg hend]
    have hmore : ¬ sizeT (readResult block) ≤ 0 := mt hzero.mp hend
    simp only [read, if_neg hmore]

theorem read_given (s : State) (dir : Direction)
    (block : Option (List Byte)) : (read s dir block).given = s.given := by
  simp only [read]
  split <;> rfl

theorem read_taken (s : State) (dir : Direction)
    (block : Option (List Byte)) :
    (read s dir block).taken =
      Function.update s.taken dir (s.taken dir ++ block.getD []) := by
  simp only [read]
  split <;> rfl

/-- `numRead` is the number of bytes read, unless the `read` fails. -/
theorem read_count (s : State) (dir : Direction) {bytes : List Byte}
    (hfit : bytes.length ≤ bufSize) :
    (read s dir (some bytes)).numRead =
      (read s dir (some bytes)).block.length := by
  have hsize : sizeT bytes.length = bytes.length := by
    apply sizeT_of_nonneg (Int.natCast_nonneg _)
    simp only [ssizeMax, bufSize] at hfit ⊢
    omega
  simp only [read, readResult, Option.getD_some, hsize]
  split <;> rfl

theorem read_due {s : State} {dir : Direction} {block : Option (List Byte)}
    (hequal : s.given dir = s.taken dir) (hmore : block ≠ some [])
    (hfit : (block.getD []).length ≤ bufSize) :
    Due (read s dir block) dir := by
  have hnonzero : ¬ sizeT (readResult block) ≤ 0 :=
    mt (readResult_le_zero hfit).mp hmore
  simp only [Due, read, if_neg hnonzero, Function.update_self, hequal,
    true_and, take_overlay]
  cases block with
  | none => exact Or.inr ⟨rfl, rfl⟩
  | some bytes =>
      left
      simp only [Option.getD_some] at hfit ⊢
      have hlength : 0 < bytes.length := by
        apply List.length_pos_iff.mpr
        rintro rfl
        exact hmore rfl
      refine ⟨?_, hlength, hfit⟩
      apply sizeT_of_nonneg
      · exact Int.natCast_nonneg _
      · simp only [readResult, ssizeMax, bufSize] at hfit ⊢
        omega

theorem read_inv {s : State} {dir : Direction} (hs : Inv s)
    (hpc : s.pc = .read dir) {block : Option (List Byte)}
    (hfit : (block.getD []).length ≤ bufSize) : Inv (read s dir block) := by
  have hequal (d : Direction) : s.given d = s.taken d :=
    hs.forwards.settled d (by simp [hpc]) (by simp [hpc])
  have hother (d : Direction) (hd : d ≠ dir) :
      (read s dir block).given d = (read s dir block).taken d := by
    rw [read_given, read_taken, Function.update_of_ne hd, hequal]
  refine ⟨⟨?_, ?_⟩, ?_⟩
  · intro d
    by_cases hd : d = dir
    · rw [hd, read_given, read_taken, Function.update_self, hequal]
      exact List.prefix_append _ _
    · exact hother d hd ▸ List.prefix_rfl
  · intro d hwrite hleft
    apply hother
    rintro rfl
    rw [read_pc hfit] at hwrite hleft
    split at hwrite <;> simp_all
  · intro d hd
    rw [read_pc hfit] at hd
    split at hd
    · cases hd
    · next hmore =>
        cases hd
        exact read_due (hequal dir) hmore hfit

theorem write_pc_ne_write (s : State) (dir d : Direction) (result : Int) :
    (write s dir result).pc ≠ .write d := by
  simp only [write]
  split
  · simp
  · cases dir with
    | stdinToPty =>
        simp only [State.afterWrite, State.afterStdin]
        split <;> simp
    | ptyToStdin => simp [State.afterWrite]

/-- The loop goes on exactly after a `write` of the whole block, or after the
failing `write` that follows a failed `read`. -/
theorem Due.goes_on {s : State} {dir : Direction} (hdue : Due s dir)
    {result : Int} (hallows : WriteAllows s.numRead result) :
    sizeT result = s.numRead ↔
      s.numRead = s.block.length ∧ result = s.block.length ∨
        s.numRead = sizeT (-1) ∧ result = -1 := by
  have hlarge := sizeT_error
  obtain ⟨-, ⟨hnum, -, hpos, hfit⟩ | ⟨hnum, hblock⟩⟩ := hdue
  · simp only [bufSize] at hfit
    rcases hallows with rfl | ⟨hnonneg, hle, hmax⟩
    · omega
    · rw [sizeT_of_nonneg hnonneg (by omega)]
      omega
  · rw [hblock, List.length_nil]
    rcases hallows with rfl | ⟨hnonneg, hle, hmax⟩
    · omega
    · simp only [ssizeMax] at hmax
      omega

theorem Due.whole {s : State} {dir : Direction} (hdue : Due s dir)
    {result : Int} (hallows : WriteAllows s.numRead result)
    (hgoes : sizeT result = s.numRead) :
    s.buf.take result.toNat = s.block := by
  have hlarge := sizeT_error
  have hcases := (hdue.goes_on hallows).mp hgoes
  obtain ⟨-, ⟨hnum, hbuf, -, hfit⟩ | ⟨hnum, hblock⟩⟩ := hdue
  · simp only [bufSize] at hfit
    have hresult : result.toNat = s.block.length := by omega
    rw [hresult, hbuf]
  · have hresult : result.toNat = 0 := by
      rw [hblock, List.length_nil] at hcases
      omega
    rw [hresult, hblock, List.take_zero]

theorem write_inv {s : State} {dir : Direction} (hs : Inv s)
    (hpc : s.pc = .write dir) {result : Int}
    (hallows : WriteAllows s.numRead result) : Inv (write s dir result) := by
  have hdue := hs.due dir hpc
  have hother (d : Direction) (hd : d ≠ dir) :
      (write s dir result).given d = (write s dir result).taken d := by
    have hequal := hs.forwards.settled d
      (fun h => hd (Pc.write.inj (h.symm.trans hpc))) (by simp [hpc])
    simp only [write, Function.update_of_ne hd, hequal]
  have htake : s.buf.take result.toNat <+: s.block := by
    obtain ⟨-, ⟨hnum, hbuf, -, -⟩ | ⟨hnum, -⟩⟩ := hdue
    · rw [← hbuf]
      apply List.take_prefix_take_left
      simp only [WriteAllows, hnum] at hallows
      omega
    · have hlarge := sizeT_error
      have herror : result.toNat = 0 := by
        simp only [WriteAllows, hnum, hlarge, ssizeMax] at hallows
        omega
      rw [herror, List.take_zero]
      exact List.nil_prefix
  refine ⟨⟨?_, ?_⟩, ?_⟩
  · intro d
    by_cases hd : d = dir
    · rw [hd]
      simp only [write, Function.update_self, hdue.1]
      exact (List.prefix_append_right_inj _).mpr htake
    · exact hother d hd ▸ List.prefix_rfl
  · intro d _ hleft
    by_cases hd : d = dir
    · have hgoes : sizeT result = s.numRead := by
        by_contra hne
        exact hleft (by simp only [write, if_pos hne])
      rw [hd]
      simp only [write, Function.update_self, hdue.1,
        hdue.whole hallows hgoes]
    · exact hother d hd
  · intro d hd
    exact absurd hd (write_pc_ne_write s dir d result)

theorem next_inv (s : State) (label : Label) (t : State) (hs : Inv s)
    (h : next s label = some t) : Inv t := by
  unfold next at h
  split at h
  · next ready hpc =>
      cases h
      exact select_inv hs hpc ready
  · next dir block hpc =>
      obtain ⟨hfit, rfl⟩ := guarded_eq_some.mp h
      exact read_inv hs hpc hfit
  · next dir result hpc =>
      obtain ⟨hallows, rfl⟩ := guarded_eq_some.mp h
      exact write_inv hs hpc hallows
  · cases h

/-- A call after which the loop must be left: a failing `select`, a `read`
that returns 0 or -1, or a `write` that does not write the whole block. -/
def Label.EndsLoop (s : State) : Label → Prop
  | .select ready => ready = none
  | .read block => block = none ∨ block = some []
  | .write result => result ≠ s.block.length

/-- No further call is made. -/
def Left (s : State) : Prop := ∀ label, next s label = none

theorem left_of_returned {s : State} (hpc : s.pc = .returned) : Left s := by
  intro label
  unfold next
  rw [hpc]

theorem not_left_of_write {s : State} {dir : Direction}
    (hpc : s.pc = .write dir) : ¬ Left s := by
  intro hleft
  have hwrite := hleft (.write (-1))
  simp [next, hpc, WriteAllows] at hwrite

/-- What every step of the loop should keep: the data are forwarded in order,
no count exceeds the bytes just read, and the loop is left when it must be. -/
structure StepOk (s : State) (label : Label) (t : State) : Prop where
  forwards : Forwards t
  count : ∀ dir, s.pc = .write dir → s.numRead ≤ s.block.length
  leaves : label.EndsLoop s → Left t

/-- The `read` of the label does not fail. -/
def Label.Reads (label : Label) : Prop := label ≠ .read none

/-- No failed `read` stands for a count. -/
structure Sound (s : State) : Prop where
  inv : Inv s
  count : ∀ dir, s.pc = .write dir → s.numRead = s.block.length

theorem next_sound (s : State) (label : Label) (t : State)
    (hlabel : label.Reads) (hs : Sound s) (h : next s label = some t) :
    Sound t := by
  refine ⟨next_inv s label t hs.inv h, ?_⟩
  intro d hd
  unfold next at h
  split at h
  · next ready hpc =>
      cases h
      cases ready with
      | none => simp [select] at hd
      | some ready =>
          simp only [select, State.afterStdin] at hd
          split at hd
          · cases hd
          · split at hd <;> cases hd
  · next dir block hpc =>
      obtain ⟨hfit, rfl⟩ := guarded_eq_some.mp h
      cases block with
      | none => exact absurd rfl hlabel
      | some bytes => exact read_count s dir hfit
  · next dir result hpc =>
      obtain ⟨hallows, rfl⟩ := guarded_eq_some.mp h
      exact absurd hd (write_pc_ne_write s dir d result)
  · cases h

/-- A step is as it should be exactly when its `read` does not fail. -/
theorem stepOk_iff (s : State) (label : Label) (t : State) (hs : Sound s)
    (h : next s label = some t) : StepOk s label t ↔ label.Reads := by
  have hforwards := (next_inv s label t hs.inv h).forwards
  have hcount (dir : Direction) (hpc : s.pc = .write dir) :
      s.numRead ≤ s.block.length := (hs.count dir hpc).le
  unfold next at h
  split at h
  · next ready hpc =>
      cases h
      refine iff_of_true ⟨hforwards, hcount, ?_⟩ (by simp [Label.Reads])
      rintro rfl
      exact left_of_returned rfl
  · next dir block hpc =>
      obtain ⟨hfit, rfl⟩ := guarded_eq_some.mp h
      have hread : (read s dir block).pc =
          if block = some [] then .returned else .write dir := read_pc hfit
      constructor
      · intro hok hlabel
        cases hlabel
        rw [if_neg (by simp)] at hread
        exact not_left_of_write hread (hok.leaves (Or.inl rfl))
      · intro hlabel
        refine ⟨hforwards, hcount, ?_⟩
        rintro (rfl | rfl)
        · exact absurd rfl hlabel
        · exact left_of_returned (by rw [hread, if_pos rfl])
  · next dir result hpc =>
      obtain ⟨hallows, rfl⟩ := guarded_eq_some.mp h
      refine iff_of_true ⟨hforwards, hcount, ?_⟩ (by simp [Label.Reads])
      intro hshort
      apply left_of_returned
      have hdue := hs.inv.due dir hpc
      have hstops : sizeT result ≠ s.numRead := by
        intro hgoes
        rcases (hdue.goes_on hallows).mp hgoes with ⟨-, hwhole⟩ | ⟨hnum, -⟩
        · exact hshort hwhole
        · have hlarge := sizeT_error
          have hequal := hs.count dir hpc
          rcases hdue.2 with ⟨-, -, -, hfit⟩ | ⟨-, hblock⟩
          · simp only [bufSize] at hfit
            omega
          · rw [hblock, List.length_nil] at hequal
            omega
      simp only [write, if_pos hstops]
  · cases h

/-- In every run of the relay loop all steps are as they should be exactly
when no `read` fails. -/
theorem relay_ok_iff {inFfs : FdSet} {buf : List Byte} {numRead : ℕ}
    {labels : List Label} {s : State}
    (hrun : exec next (start inFfs buf numRead) labels = some s) :
    EachStep next StepOk (start inFfs buf numRead) labels ↔
      ∀ label ∈ labels, label.Reads := by
  have hstart : Sound (start inFfs buf numRead) :=
    ⟨start_inv inFfs buf numRead, fun _ hpc => by cases hpc⟩
  exact eachStep_iff_labels (fun s t label _ => next_sound s label t)
    (fun s t label _ => stepOk_iff s label t) hstart hrun

/-- The loop is entered with a buffer of zeros. -/
def zeroed : State := start ⟨false, false⟩ (List.replicate bufSize 0) 0

/-- The shell exits: `read` on the master fails, and the loop goes on. -/
def shellExits : List Label :=
  [.select (some ⟨false, true⟩), .read none, .write (-1),
    .select (some ⟨false, true⟩)]

theorem relay_ok_shellExits :
    EachStep next StepOk zeroed shellExits ↔
      ∀ label ∈ shellExits, label.Reads := by
  have hrun : exec next zeroed shellExits = some _ := rfl
  exact relay_ok_iff hrun

/-- After the failed `read` a `write` of far more bytes than the buffer holds
is issued, and the loop is not left. -/
theorem not_left_after_failed_read :
    (∃ s, exec next zeroed (shellExits.take 2) = some s ∧
      s.pc = .write .ptyToStdin ∧ s.block = [] ∧ s.numRead = 2 ^ 64 - 1) ∧
    ∃ s, exec next zeroed shellExits = some s ∧ s.pc = .read .ptyToStdin :=
  ⟨⟨_, rfl, rfl, rfl, rfl⟩, ⟨_, rfl, rfl⟩⟩

end PtyRelay

end MyFreeLib
