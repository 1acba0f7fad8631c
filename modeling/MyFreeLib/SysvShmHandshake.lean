/-
Who owns the shared buffer.  The two semaphores are waited for at zero and
raised and lowered by separate calls, so each side passes through a
half-released state; the invariant counts what is still owed in it.
-/
import MyFreeLib.SysvShm
import Mathlib.Data.Bool.Basic

namespace MyFreeLib

namespace SysvShm

@[simp] theorem semApply_wait {value after : ℕ} :
    semApply 0 value = some after ↔ value = 0 ∧ after = 0 := by
  simp only [semApply, ↓reduceIte, Option.ite_none_right_eq_some,
    Option.some.injEq]
  omega

@[simp] theorem semApply_take {value after : ℕ} :
    semApply (-1) value = some after ↔ value = after + 1 := by
  have hne : ¬ (-1 : Int) = 0 := by decide
  simp only [semApply, hne, ↓reduceIte, Option.ite_none_right_eq_some,
    Option.some.injEq]
  omega

@[simp] theorem semApply_give {value after : ℕ} :
    semApply 1 value = some after ↔ after = value + 1 := by
  have hne : ¬ (1 : Int) = 0 := by decide
  simp only [semApply, hne, ↓reduceIte, Option.ite_none_right_eq_some,
    Option.some.injEq]
  omega

/-- A step that waits for a `semop` on `WRITE_SEM`: it needs the set and
leaves `READ_SEM` alone. -/
theorem semop_writeSem {set : SemSet} {op : Int} {step : SemSet → State}
    {t : State} :
    (set.semop .writeSem op).map step = some t ↔
      ∃ write read value, set = .live write read ∧
        semApply op write = some value ∧ step (.live value read) = t := by
  cases set <;> simp [SemSet.semop]

/-- A step that waits for a `semop` on `READ_SEM`: it needs the set and leaves
`WRITE_SEM` alone. -/
theorem semop_readSem {set : SemSet} {op : Int} {step : SemSet → State}
    {t : State} :
    (set.semop .readSem op).map step = some t ↔
      ∃ write read value, set = .live write read ∧
        semApply op read = some value ∧ step (.live write value) = t := by
  cases set <;> simp [SemSet.semop]

/-- The writer has created the segment and is still in its transfer. -/
def WriterPc.running : WriterPc → Bool
  | .semget | .setall | .shmget | .returned _ | .exited _ | .crashed => false
  | _ => true

/-- The writer has not created the segment yet. -/
def WriterPc.early : WriterPc → Bool
  | .semget | .setall | .shmget => true
  | _ => false

/-- The writer has waited for the buffer and not published it. -/
def WriterPc.owns : WriterPc → Bool
  | .read | .checkRead | .releaseRead => true
  | _ => false

/-- What the writer still has to add to `WRITE_SEM`. -/
def WriterPc.debt : WriterPc → ℕ
  | .setWrite => 1
  | _ => 0

/-- The reader still takes part in the exchange. -/
def ReaderPc.running : ReaderPc → Bool
  | .bye | .returned _ | .exited _ | .crashed => false
  | _ => true

/-- The reader has found the segment and still takes part. -/
def ReaderPc.entered : ReaderPc → Bool
  | .semget | .shmget => false
  | pc => pc.running

/-- The reader has waited for the block and not released the buffer. -/
def ReaderPc.owns : ReaderPc → Bool
  | .testEnd | .account | .write | .releaseWrite | .shmdt | .clearShmp
  | .releaseLast => true
  | _ => false

/-- What the reader still has to add to `READ_SEM`. -/
def ReaderPc.debt : ReaderPc → ℕ
  | .setRead => 1
  | _ => 0

theorem ReaderPc.debt_of_not_entered {pc : ReaderPc}
    (h : pc.entered = false) : pc.debt = 0 := by
  cases pc <;> simp_all [entered, running, debt]

/-- With the values `write` and `read`, both semaphores count the published
block: `WRITE_SEM` directly and `READ_SEM` as its complement.  A process that
has stopped leaves its debt unpaid for ever. -/
structure Balanced (s : State) (write read : ℕ) : Prop where
  write_le : write + s.wpc.debt ≤ s.full.toNat
  write_eq : s.wpc.running = true → write + s.wpc.debt = s.full.toNat
  read_le : read + s.full.toNat + s.rpc.debt ≤ 1
  read_eq : s.rpc.running = true → read + s.full.toNat + s.rpc.debt = 1

/-- Ownership of the buffer.  Before the segment exists no reader can get past
its `shmget`, so the values between `semget` and `SETALL` harm nobody. -/
structure Sync (s : State) : Prop where
  early : s.wpc.early = true → s.wShmid = false
  created : s.wpc.running = true → s.wShmid = true
  keyed : s.shmKey = true → s.wShmid = true
  entered : s.rpc.entered = true → s.wShmid = true
  writerOwns : s.wpc.owns = true → s.full = false
  readerOwns : s.rpc.owns = true → s.full = true
  quiet : s.wShmid = false → s.full = false
  unset : s.wShmid = false →
    ∀ write read, s.set = .live write read → write = 0 ∧ read ≤ 1
  initialised : s.wpc = .shmget →
    ∀ write read, s.set = .live write read → read = 1
  balanced : s.wShmid = true →
    ∀ write read, s.set = .live write read → Balanced s write read

theorem start_sync : Sync start := by
  constructor <;> simp [start, WriterPc.running, ReaderPc.entered,
    WriterPc.owns, ReaderPc.owns]

/-- Once the segment exists, only ownership and balance are left to check. -/
theorem Sync.of_created {s : State} (hid : s.wShmid = true)
    (hearly : s.wpc.early = false)
    (hwriter : s.wpc.owns = true → s.full = false)
    (hreader : s.rpc.owns = true → s.full = true)
    (hbalanced : ∀ write read, s.set = .live write read →
      Balanced s write read) : Sync s where
  early h := absurd h (by simp [hearly])
  created _ := hid
  keyed _ := hid
  entered _ := hid
  writerOwns := hwriter
  readerOwns := hreader
  quiet h := absurd hid (by simp [h])
  unset h := absurd hid (by simp [h])
  initialised h := absurd hearly (by simp [h, WriterPc.early])
  balanced _ := hbalanced

/-- The part of the state that ownership speaks about, program counters
apart. -/
def State.ipc (s : State) : SemSet × Bool × Bool × Bool :=
  (s.set, s.shmKey, s.wShmid, s.full)

/-- From `pc` the writer can get to `pc'` without touching the semaphores. -/
def WriterPc.moves (pc pc' : WriterPc) : Bool :=
  (pc'.running → pc.running) ∧ (pc'.owns → pc.owns) ∧ pc'.debt ≤ pc.debt ∧
    (pc'.running → pc'.debt = pc.debt) ∧ pc'.early = false

/-- The writer may move on, or stop, without touching the semaphores. -/
theorem Sync.writer_moves {s t : State} (hs : Sync s)
    (hipc : t.ipc = s.ipc) (hrpc : t.rpc = s.rpc)
    (hmoves : s.wpc.moves t.wpc = true) : Sync t := by
  obtain ⟨hrun, howns, hdebt, hpay, hearly⟩ := of_decide_eq_true hmoves
  simp only [State.ipc, Prod.mk.injEq] at hipc
  obtain ⟨hset, hkey, hid, hfull⟩ := hipc
  refine ⟨?_, ?_, ?_, ?_, ?_, ?_, ?_, ?_, ?_, ?_⟩
  · exact fun h => absurd h (by simp [hearly])
  · exact fun h => hid ▸ hs.created (hrun h)
  · exact fun h => hid ▸ hs.keyed (hkey ▸ h)
  · exact fun h => hid ▸ hs.entered (hrpc ▸ h)
  · exact fun h => hfull ▸ hs.writerOwns (howns h)
  · exact fun h => hfull ▸ hs.readerOwns (hrpc ▸ h)
  · exact fun h => hfull ▸ hs.quiet (hid ▸ h)
  · exact fun h write read hlive => hs.unset (hid ▸ h) write read (hset ▸ hlive)
  · exact fun h => absurd hearly (by simp [h, WriterPc.early])
  · intro h write read hlive
    have hb := hs.balanced (hid ▸ h) write read (hset ▸ hlive)
    refine ⟨?_, ?_, ?_, ?_⟩
    · rw [hfull]
      exact Nat.le_trans (Nat.add_le_add_left hdebt write) hb.write_le
    · intro hr
      rw [hfull, hpay hr]
      exact hb.write_eq (hrun hr)
    · rw [hfull, hrpc]
      exact hb.read_le
    · rw [hfull, hrpc]
      exact hb.read_eq

/-- The reader may move on, or stop, without touching the semaphores. -/
theorem Sync.reader_moves {s t : State} (hs : Sync s)
    (hipc : t.ipc = s.ipc) (hwpc : t.wpc = s.wpc)
    (hrun : t.rpc.running = true → s.rpc.running = true)
    (hentered : t.rpc.entered = true → s.wShmid = true)
    (howns : t.rpc.owns = true → s.full = true)
    (hdebt : t.rpc.debt ≤ s.rpc.debt)
    (hpay : t.rpc.running = true → t.rpc.debt = s.rpc.debt) : Sync t := by
  simp only [State.ipc, Prod.mk.injEq] at hipc
  obtain ⟨hset, hkey, hid, hfull⟩ := hipc
  refine ⟨?_, ?_, ?_, ?_, ?_, ?_, ?_, ?_, ?_, ?_⟩
  · exact fun h => hid ▸ hs.early (hwpc ▸ h)
  · exact fun h => hid ▸ hs.created (hwpc ▸ h)
  · exact fun h => hid ▸ hs.keyed (hkey ▸ h)
  · exact fun h => hid ▸ hentered h
  · exact fun h => hfull ▸ hs.writerOwns (hwpc ▸ h)
  · exact fun h => hfull ▸ howns h
  · exact fun h => hfull ▸ hs.quiet (hid ▸ h)
  · exact fun h write read hlive => hs.unset (hid ▸ h) write read (hset ▸ hlive)
  · exact fun h write read hlive =>
      hs.initialised (hwpc ▸ h) write read (hset ▸ hlive)
  · intro h write read hlive
    have hb := hs.balanced (hid ▸ h) write read (hset ▸ hlive)
    refine ⟨?_, ?_, ?_, ?_⟩
    · rw [hfull, hwpc]
      exact hb.write_le
    · rw [hfull, hwpc]
      exact hb.write_eq
    · rw [hfull]
      exact Nat.le_trans (Nat.add_le_add_left hdebt _) hb.read_le
    · intro hr
      rw [hfull, hpay hr]
      exact hb.read_eq (hrun hr)

theorem Sync.writerFails {s : State} (hs : Sync s) (message : String) :
    Sync (s.writerFails message) :=
  hs.writer_moves rfl rfl (by cases hpc : s.wpc <;> rfl)

/-- From `pc` the reader can get to `pc'` without touching the semaphores,
wherever the writer is. -/
def ReaderPc.moves (pc pc' : ReaderPc) : Bool :=
  (pc'.running → pc.running) ∧ (pc'.entered → pc.entered) ∧
    (pc'.owns → pc.owns) ∧ pc'.debt ≤ pc.debt ∧
    (pc'.running → pc'.debt = pc.debt)

theorem Sync.reader_goes {s t : State} (hs : Sync s)
    (hipc : t.ipc = s.ipc) (hwpc : t.wpc = s.wpc)
    (hmoves : s.rpc.moves t.rpc = true) : Sync t := by
  obtain ⟨hrun, hentered, howns, hdebt, hpay⟩ := of_decide_eq_true hmoves
  exact hs.reader_moves hipc hwpc hrun (fun h => hs.entered (hentered h))
    (fun h => hs.readerOwns (howns h)) hdebt hpay

theorem Sync.readerFails {s : State} (hs : Sync s) (message : String) :
    Sync (s.readerFails message) :=
  hs.reader_goes rfl rfl (by cases hpc : s.rpc <;> rfl)

theorem State.live_of_release {s : State} {write read : ℕ}
    (h : s.release.set = .live write read) : s.set = .live write read := by
  cases hid : s.wSemid with
  | false => simpa [State.release, hid] using h
  | true =>
      cases hset : s.set <;>
        simp [State.release, hid, hset, SemSet.remove] at h

/-- Removing the objects only makes promises about the semaphores void. -/
theorem Sync.release {s : State} (hs : Sync s) : Sync s.release := by
  refine ⟨hs.early, hs.created, ?_, hs.entered, hs.writerOwns, hs.readerOwns,
    hs.quiet, ?_, ?_, ?_⟩
  · intro h
    have hkey : s.shmKey = true := by
      by_contra hno
      simp [State.release, hno] at h
    exact hs.keyed hkey
  · exact fun h write read hlive =>
      hs.unset h write read (State.live_of_release hlive)
  · exact fun h write read hlive =>
      hs.initialised h write read (State.live_of_release hlive)
  · intro h write read hlive
    have hb := hs.balanced h write read (State.live_of_release hlive)
    exact ⟨hb.write_le, hb.write_eq, hb.read_le, hb.read_eq⟩

/-- While the writer runs, a live set is balanced. -/
theorem Sync.balanced_of_writer {s : State} (hs : Sync s) {write read : ℕ}
    (hrun : s.wpc.running = true) (hset : s.set = .live write read) :
    Balanced s write read :=
  hs.balanced (hs.created hrun) write read hset

/-- A writer that owes a `WRITE_SEM` has published its block. -/
theorem Sync.full_of_setWrite {s : State} (hs : Sync s)
    (hpc : s.wpc = .setWrite) {write read : ℕ}
    (hset : s.set = .live write read) : s.full = true := by
  have hrun : s.wpc.running = true := by simp [hpc, WriterPc.running]
  have hcount := (hs.balanced_of_writer hrun hset).write_le
  cases hfull : s.full with
  | false => simp [hfull, hpc, WriterPc.debt] at hcount
  | true => rfl

/-- A reader that owes a `READ_SEM` has released the buffer. -/
theorem Sync.not_full_of_setRead {s : State} (hs : Sync s)
    (hpc : s.rpc = .setRead) {write read : ℕ}
    (hset : s.set = .live write read) : s.full = false := by
  have hid : s.wShmid = true :=
    hs.entered (by simp [hpc, ReaderPc.entered, ReaderPc.running])
  have hcount := (hs.balanced hid write read hset).read_le
  cases hfull : s.full with
  | false => rfl
  | true => simp [hfull, hpc, ReaderPc.debt] at hcount

/-- A failing call ends the writer, or records `-1` as the count read. -/
theorem writerNext_fail {stdin : ByteStream} {s t : State}
    (h : writerNext stdin s .fail = some t) :
    (∃ message, t = s.writerFails message) ∨
      t = { s with wpc := .crashed } ∨
      s.wpc = .read ∧
        t = { s with seg := ⟨-1, s.seg.buf⟩, wpc := .checkRead } := by
  cases hpc : s.wpc
  case read =>
    simp only [writerNext, hpc] at h
    split at h
    · exact Or.inr (Or.inl (Option.some.inj h).symm)
    · exact Or.inr (Or.inr ⟨rfl, (Option.some.inj h).symm⟩)
  all_goals simp only [writerNext, hpc, reduceCtorEq] at h
  all_goals exact Or.inl ⟨_, (Option.some.inj h).symm⟩

theorem Sync.writer_crashes {s : State} (hs : Sync s) :
    Sync { s with wpc := .crashed } :=
  hs.writer_moves rfl rfl (by cases hpc : s.wpc <;> rfl)

/-- Creating the set, and initialising it, happens before any reader can get
to it. -/
theorem Sync.sets_up {s : State} (hs : Sync s) (hearly : s.wpc.early = true)
    {read : ℕ} {semid : Bool} {pc : WriterPc} (hread : read ≤ 1)
    (hpc : pc.early = true) (hinit : pc = .shmget → read = 1) :
    Sync { s with set := .live 0 read, wSemid := semid, wpc := pc } := by
  have hid : s.wShmid = false := hs.early hearly
  have hidle : pc.running = false ∧ pc.owns = false := by
    cases pc <;> first | exact ⟨rfl, rfl⟩ | cases hpc
  refine ⟨fun _ => hid, ?_, hs.keyed, hs.entered, ?_, hs.readerOwns, hs.quiet,
    ?_, ?_, ?_⟩
  · exact fun h => absurd h (by simp [hidle.1])
  · exact fun h => absurd h (by simp [hidle.2])
  · intro _ write' read' hlive
    obtain ⟨rfl, rfl⟩ := SemSet.live.inj hlive
    exact ⟨rfl, hread⟩
  · intro h write' read' hlive
    obtain ⟨rfl, rfl⟩ := SemSet.live.inj hlive
    exact hinit h
  · exact fun h => absurd h (by simp [hid])

/-- With the segment the balance of the two semaphores begins. -/
theorem Sync.creates {s : State} (hs : Sync s) (hpc : s.wpc = .shmget) :
    Sync { s with shmKey := true, wShmid := true, wpc := .shmat } := by
  have hid : s.wShmid = false := hs.early (by simp [hpc, WriterPc.early])
  have hfull : s.full = false := hs.quiet hid
  apply Sync.of_created rfl rfl
  · simp [WriterPc.owns]
  · exact hs.readerOwns
  · intro write read hlive
    have hread := hs.initialised hpc write read hlive
    have hwrite := hs.unset hid write read hlive
    have hrpc : s.rpc.debt = 0 := by
      apply ReaderPc.debt_of_not_entered
      by_contra hin
      simp [hs.entered (by simpa using hin)] at hid
    constructor <;> simp [hfull, hrpc, hread, hwrite.1, WriterPc.debt]

/-- `WRITE_SEM` at zero means that no block is published. -/
theorem Sync.writer_waits {s : State} (hs : Sync s) (hpc : s.wpc = .waitWrite)
    {read : ℕ} (hset : s.set = .live 0 read) :
    Sync { s with set := .live 0 read, wpc := .read } := by
  have hrun : s.wpc.running = true := by simp [hpc, WriterPc.running]
  have hb := hs.balanced_of_writer hrun hset
  have hfull : s.full = false := by
    simpa [hpc, WriterPc.debt] using (hb.write_eq hrun).symm
  refine Sync.of_created (hs.created hrun) rfl (fun _ => hfull)
    hs.readerOwns ?_
  intro write read hlive
  obtain ⟨rfl, rfl⟩ := SemSet.live.inj hlive
  exact ⟨by simp [WriterPc.debt], by simp [WriterPc.debt, hfull],
    hb.read_le, hb.read_eq⟩

/-- Lowering `READ_SEM` publishes the block: from here on `WRITE_SEM` is what
the writer owes. -/
theorem Sync.writer_publishes {s : State} (hs : Sync s)
    (hpc : s.wpc = .releaseRead) {write read : ℕ}
    (hset : s.set = .live write (read + 1)) :
    Sync { s with
      set := .live write read
      full := true
      wpc := .setWrite } := by
  have hrun : s.wpc.running = true := by simp [hpc, WriterPc.running]
  have hb := hs.balanced_of_writer hrun hset
  have hfull : s.full = false :=
    hs.writerOwns (by simp [hpc, WriterPc.owns])
  have hwrite := hb.write_le
  have hread := hb.read_le
  refine Sync.of_created (hs.created hrun) rfl (by simp [WriterPc.owns])
    (fun _ => rfl) ?_
  intro write' read' hlive
  obtain ⟨rfl, rfl⟩ := SemSet.live.inj hlive
  simp only [hfull, Bool.toNat_false] at hwrite hread
  refine ⟨?_, fun _ => ?_, ?_, fun hr => ?_⟩ <;>
    simp only [WriterPc.debt, Bool.toNat_true]
  · omega
  · omega
  · omega
  · have heq := hb.read_eq hr
    simp only [hfull, Bool.toNat_false] at heq
    omega

theorem Sync.writer_pays {s : State} (hs : Sync s) (hpc : s.wpc = .setWrite)
    {write read : ℕ} (hset : s.set = .live write read) :
    Sync { s with set := .live (write + 1) read, wpc := .testEnd } := by
  have hrun : s.wpc.running = true := by simp [hpc, WriterPc.running]
  have hb := hs.balanced_of_writer hrun hset
  have hcount := hb.write_eq hrun
  simp only [hpc, WriterPc.debt] at hcount
  refine Sync.of_created (hs.created hrun) rfl (by simp [WriterPc.owns])
    hs.readerOwns ?_
  intro write' read' hlive
  obtain ⟨rfl, rfl⟩ := SemSet.live.inj hlive
  exact ⟨by simp [WriterPc.debt, hcount], by simp [WriterPc.debt, hcount],
    hb.read_le, hb.read_eq⟩

theorem writerNext_sync {stdin : ByteStream} {s t : State} {reply : Reply}
    (hs : Sync s) (h : writerNext stdin s reply = some t) : Sync t := by
  cases reply
  case fail =>
    obtain ⟨message, rfl⟩ | rfl | ⟨hpc, rfl⟩ := writerNext_fail h
    · exact hs.writerFails message
    · exact hs.writer_crashes
    · exact hs.writer_moves rfl rfl (by rw [hpc]; rfl)
  case count n =>
    cases hpc : s.wpc <;> simp only [writerNext, hpc, reduceCtorEq] at h
    split at h
    · obtain rfl := Option.some.inj h
      exact hs.writer_crashes
    · rw [Option.ite_none_left_eq_some, Option.map_eq_some_iff] at h
      obtain ⟨-, block, -, rfl⟩ := h
      exact hs.writer_moves rfl rfl (by rw [hpc]; rfl)
  case ok =>
    cases hpc : s.wpc <;> simp only [writerNext, hpc, reduceCtorEq] at h
    case semget =>
      obtain rfl := Option.some.inj h
      exact hs.sets_up (by rw [hpc]; rfl) (Nat.zero_le 1) rfl nofun
    case setall =>
      cases hset : s.set <;> simp only [hset, reduceCtorEq] at h
      obtain rfl := Option.some.inj h
      exact hs.sets_up (by rw [hpc]; rfl) (Nat.le_refl 1) rfl fun _ => rfl
    case shmget =>
      obtain rfl := Option.some.inj h
      exact hs.creates hpc
    case shmat =>
      obtain rfl := Option.some.inj h
      exact hs.writer_moves rfl rfl (by rw [hpc]; rfl)
    case waitWrite =>
      obtain ⟨write, read, value, hset, hvalue, rfl⟩ := semop_writeSem.mp h
      obtain ⟨rfl, rfl⟩ := semApply_wait.mp hvalue
      exact hs.writer_waits hpc hset
    case checkRead =>
      split at h
      · obtain rfl := Option.some.inj h
        exact hs.writer_crashes
      · split at h <;> obtain rfl := Option.some.inj h
        · exact hs.writerFails _
        · exact hs.writer_moves rfl rfl (by rw [hpc]; rfl)
    case releaseRead =>
      obtain ⟨write, read, value, hset, hvalue, rfl⟩ := semop_readSem.mp h
      obtain rfl := semApply_take.mp hvalue
      exact hs.writer_publishes hpc hset
    case setWrite =>
      obtain ⟨write, read, value, hset, hvalue, rfl⟩ := semop_writeSem.mp h
      obtain rfl := semApply_give.mp hvalue
      exact hs.writer_pays hpc hset
    case testEnd =>
      split at h
      · obtain rfl := Option.some.inj h
        exact hs.writer_crashes
      · split at h <;> obtain rfl := Option.some.inj h <;>
          exact hs.writer_moves rfl rfl (by rw [hpc]; rfl)
    case account =>
      split at h <;> obtain rfl := Option.some.inj h
      · exact hs.writer_crashes
      · exact hs.writer_moves rfl rfl (by rw [hpc]; rfl)
    case waitFinish =>
      obtain ⟨write, read, value, hset, hvalue, rfl⟩ := semop_writeSem.mp h
      obtain ⟨rfl, rfl⟩ := semApply_wait.mp hvalue
      exact hs.writer_moves (by simp [State.ipc, hset]) rfl (by rw [hpc]; rfl)
    case returned code =>
      obtain rfl := Option.some.inj h
      have hmoves : s.release.wpc.moves (.exited code) = true := by
        rw [State.release, hpc]
        rfl
      exact hs.release.writer_moves rfl rfl hmoves

/-- A failing call ends the reader. -/
theorem readerNext_fail {s t : State} (h : readerNext s .fail = some t) :
    (∃ message, t = s.readerFails message) ∨
      t = { s with rpc := .crashed } := by
  cases hpc : s.rpc
  case write =>
    simp only [readerNext, hpc] at h
    split at h
    · exact Or.inr (Option.some.inj h).symm
    · exact Or.inl ⟨_, (Option.some.inj h).symm⟩
  all_goals simp only [readerNext, hpc, reduceCtorEq] at h
  all_goals exact Or.inl ⟨_, (Option.some.inj h).symm⟩

theorem Sync.reader_crashes {s : State} (hs : Sync s) :
    Sync { s with rpc := .crashed } :=
  hs.reader_goes rfl rfl (by cases hpc : s.rpc <;> rfl)

/-- Lowering `WRITE_SEM` releases the buffer: from here on `READ_SEM` is what
the reader owes, unless it has just taken its leave. -/
theorem Sync.reader_releases {s t : State} (hs : Sync s) {write read : ℕ}
    (hset : s.set = .live (write + 1) read) (hfrom : s.rpc.owns = true)
    (hipc : t.ipc = (.live write read, s.shmKey, s.wShmid, false))
    (hwpc : t.wpc = s.wpc) (howns : t.rpc.owns = false)
    (hdebt : t.rpc.debt ≤ 1)
    (hpay : t.rpc.running = true → t.rpc.debt = 1) : Sync t := by
  simp only [State.ipc, Prod.mk.injEq] at hipc
  obtain ⟨hset', hkey, hid, hfull⟩ := hipc
  have hentered : s.wShmid = true := by
    apply hs.entered
    cases hpc : s.rpc <;> simp_all [ReaderPc.owns, ReaderPc.entered,
      ReaderPc.running]
  have hb := hs.balanced hentered _ _ hset
  have hwrite := hb.write_le
  have hread := hb.read_le
  rw [hs.readerOwns hfrom, Bool.toNat_true] at hwrite hread
  refine Sync.of_created (hid.trans hentered) ?_ (fun _ => hfull) ?_ ?_
  · cases hearly : t.wpc.early with
    | false => rfl
    | true => simp [hs.early (hwpc ▸ hearly)] at hentered
  · exact fun h => absurd h (by simp [howns])
  · intro write' read' hlive
    rw [hset'] at hlive
    obtain ⟨rfl, rfl⟩ := SemSet.live.inj hlive
    refine ⟨?_, fun _ => ?_, ?_, fun hr => ?_⟩ <;>
      rw [hfull, Bool.toNat_false]
    · rw [hwpc]
      omega
    · rw [hwpc]
      omega
    · omega
    · rw [hpay hr]
      omega

/-- `READ_SEM` at zero means that a block is published. -/
theorem Sync.reader_waits {s : State} (hs : Sync s) (hpc : s.rpc = .waitRead)
    {write : ℕ} (hset : s.set = .live write 0) :
    Sync { s with set := .live write 0, rpc := .testEnd } := by
  have hid : s.wShmid = true :=
    hs.entered (by simp [hpc, ReaderPc.entered, ReaderPc.running])
  have hb := hs.balanced hid write 0 hset
  have hfull : s.full = true := by
    have hcount := hb.read_eq (by simp [hpc, ReaderPc.running])
    cases hf : s.full
    · simp [hf, hpc, ReaderPc.debt] at hcount
    · rfl
  refine hs.reader_moves (by simp [State.ipc, hset]) rfl ?_ (fun _ => hid)
    (fun _ => hfull) ?_ ?_ <;>
    simp [hpc, ReaderPc.running, ReaderPc.debt]

theorem Sync.reader_pays {s : State} (hs : Sync s) (hpc : s.rpc = .setRead)
    {write read : ℕ} (hset : s.set = .live write read) :
    Sync { s with set := .live write (read + 1), rpc := .waitRead } := by
  have hid : s.wShmid = true :=
    hs.entered (by simp [hpc, ReaderPc.entered, ReaderPc.running])
  have hb := hs.balanced hid write read hset
  have hearly : s.wpc.early = false := by
    cases hearly : s.wpc.early with
    | false => rfl
    | true => simp [hs.early hearly] at hid
  have hcount := hb.read_eq (by simp [hpc, ReaderPc.running])
  simp only [hpc, ReaderPc.debt] at hcount
  refine Sync.of_created hid hearly hs.writerOwns
    (by simp [ReaderPc.owns]) ?_
  intro write' read' hlive
  obtain ⟨rfl, rfl⟩ := SemSet.live.inj hlive
  refine ⟨hb.write_le, hb.write_eq, ?_, fun _ => ?_⟩ <;>
    simp only [ReaderPc.debt] <;> omega

theorem readerNext_sync {s t : State} {reply : Reply}
    (hs : Sync s) (h : readerNext s reply = some t) : Sync t := by
  cases reply
  case fail =>
    obtain ⟨message, rfl⟩ | rfl := readerNext_fail h
    · exact hs.readerFails message
    · exact hs.reader_crashes
  case count n =>
    cases hpc : s.rpc <;> simp only [readerNext, hpc, reduceCtorEq] at h
    split at h
    · obtain rfl := Option.some.inj h
      exact hs.reader_crashes
    · rw [Option.ite_none_left_eq_some] at h
      obtain ⟨-, h⟩ := h
      split at h <;> obtain rfl := Option.some.inj h <;>
        exact hs.reader_goes rfl rfl (by rw [hpc]; rfl)
  case ok =>
    cases hpc : s.rpc <;> simp only [readerNext, hpc, reduceCtorEq] at h
    case semget =>
      cases hset : s.set <;> simp only [hset, reduceCtorEq] at h
      obtain rfl := Option.some.inj h
      exact hs.reader_goes (by simp [State.ipc, hset]) rfl (by rw [hpc]; rfl)
    case shmget =>
      obtain ⟨hkey, rfl⟩ := guarded_eq_some.mp h
      refine hs.reader_moves rfl rfl ?_ (fun _ => hs.keyed hkey) ?_ ?_ ?_ <;>
        simp [hpc, ReaderPc.running, ReaderPc.owns, ReaderPc.debt]
    case shmat =>
      obtain rfl := Option.some.inj h
      exact hs.reader_goes rfl rfl (by rw [hpc]; rfl)
    case waitRead =>
      obtain ⟨write, read, value, hset, hvalue, rfl⟩ := semop_readSem.mp h
      obtain ⟨rfl, rfl⟩ := semApply_wait.mp hvalue
      exact hs.reader_waits hpc hset
    case testEnd =>
      split at h
      · obtain rfl := Option.some.inj h
        exact hs.reader_crashes
      · split at h <;> obtain rfl := Option.some.inj h <;>
          exact hs.reader_goes rfl rfl (by rw [hpc]; rfl)
    case account =>
      split at h <;> obtain rfl := Option.some.inj h
      · exact hs.reader_crashes
      · exact hs.reader_goes rfl rfl (by rw [hpc]; rfl)
    case releaseWrite =>
      obtain ⟨write, read, value, hset, hvalue, rfl⟩ := semop_writeSem.mp h
      obtain rfl := semApply_take.mp hvalue
      exact hs.reader_releases hset (by simp [hpc, ReaderPc.owns]) rfl rfl
        rfl (Nat.le_refl 1) (fun _ => rfl)
    case setRead =>
      obtain ⟨write, read, value, hset, hvalue, rfl⟩ := semop_readSem.mp h
      obtain rfl := semApply_give.mp hvalue
      exact hs.reader_pays hpc hset
    case shmdt =>
      obtain ⟨-, rfl⟩ := guarded_eq_some.mp h
      exact hs.reader_goes rfl rfl (by rw [hpc]; rfl)
    case clearShmp =>
      obtain rfl := Option.some.inj h
      exact hs.reader_goes rfl rfl (by rw [hpc]; rfl)
    case releaseLast =>
      obtain ⟨write, read, value, hset, hvalue, rfl⟩ := semop_writeSem.mp h
      obtain rfl := semApply_take.mp hvalue
      exact hs.reader_releases hset (by simp [hpc, ReaderPc.owns]) rfl rfl
        rfl (Nat.zero_le 1) (by simp [ReaderPc.running])
    case bye =>
      obtain rfl := Option.some.inj h
      exact hs.reader_goes rfl rfl (by rw [hpc]; rfl)
    case returned code =>
      obtain rfl := Option.some.inj h
      exact hs.reader_goes rfl rfl (by rw [hpc]; rfl)

theorem Sync.detach {s : State} (hs : Sync s) : Sync s.detach := by
  refine ⟨hs.early, hs.created, hs.keyed, hs.entered, hs.writerOwns,
    hs.readerOwns, hs.quiet, hs.unset, hs.initialised, ?_⟩
  intro h write read hlive
  have hb := hs.balanced h write read hlive
  exact ⟨hb.write_le, hb.write_eq, hb.read_le, hb.read_eq⟩

theorem next_writerSignal {stdin : ByteStream} {s t : State}
    (h : next stdin s .writerSignal = some t) : t = s.release := by
  simp only [next] at h
  split at h
  · contradiction
  · contradiction
  · exact (Option.some.inj h).symm

theorem next_readerSignal {stdin : ByteStream} {s t : State}
    (h : next stdin s .readerSignal = some t) : t = s.detach := by
  simp only [next] at h
  split at h
  · contradiction
  · contradiction
  · exact (Option.some.inj h).symm

theorem next_sync (stdin : ByteStream) (s : State) (label : Label) (t : State)
    (hs : Sync s) (h : next stdin s label = some t) : Sync t := by
  cases label with
  | writer reply => exact writerNext_sync hs h
  | reader reply => exact readerNext_sync hs h
  | writerSignal => exact next_writerSignal h ▸ hs.release
  | readerSignal => exact next_readerSignal h ▸ hs.detach

/-- In every run, and whatever fails in it, both semaphores hold 0 or 1. -/
theorem Sync.sem_le_one {s : State} (hs : Sync s) {write read : ℕ}
    (hset : s.set = .live write read) : write ≤ 1 ∧ read ≤ 1 := by
  cases hid : s.wShmid with
  | false =>
      obtain ⟨hwrite, hread⟩ := hs.unset hid write read hset
      omega
  | true =>
      have hb := hs.balanced hid write read hset
      have hwrite := hb.write_le
      have hread := hb.read_le
      have hfull := Bool.toNat_le s.full
      omega

def WriterPc.inSemop : WriterPc → Bool
  | .waitWrite | .releaseRead | .setWrite | .waitFinish => true
  | _ => false

def ReaderPc.inSemop : ReaderPc → Bool
  | .waitRead | .releaseWrite | .setRead | .releaseLast => true
  | _ => false

/-- The writer waits on a semaphore: its `semop` finds the set, has no reason
to fail and can not be performed on the present values. -/
def WriterBlocked (stdin : ByteStream) (s : State) : Prop :=
  s.wpc.inSemop = true ∧ (∃ write read, s.set = .live write read) ∧
    writerNext stdin s .ok = none

/-- The reader waits on a semaphore. -/
def ReaderBlocked (s : State) : Prop :=
  s.rpc.inSemop = true ∧ (∃ write read, s.set = .live write read) ∧
    readerNext s .ok = none

theorem WriterBlocked.value {stdin : ByteStream} {s : State} {write read : ℕ}
    (hblocked : WriterBlocked stdin s) (hset : s.set = .live write read) :
    s.wpc.running = true ∧
      (write ≠ 0 ∧ s.wpc.debt = 0 ∨ s.wpc.owns = true ∧ read = 0) := by
  obtain ⟨hsemop, -, hnone⟩ := hblocked
  cases hpc : s.wpc <;>
    simp only [hpc, WriterPc.inSemop, reduceCtorEq] at hsemop
  case waitWrite =>
    refine ⟨rfl, Or.inl ⟨?_, rfl⟩⟩
    rintro rfl
    simp [writerNext, hpc, hset, SemSet.semop, semApply] at hnone
  case releaseRead =>
    refine ⟨rfl, Or.inr ⟨rfl, ?_⟩⟩
    by_contra hpos
    simp [writerNext, hpc, hset, SemSet.semop, semApply] at hnone
    omega
  case setWrite =>
    simp [writerNext, hpc, hset, SemSet.semop, semApply] at hnone
    omega
  case waitFinish =>
    refine ⟨rfl, Or.inl ⟨?_, rfl⟩⟩
    rintro rfl
    simp [writerNext, hpc, hset, SemSet.semop, semApply] at hnone

theorem ReaderBlocked.value {s : State} {write read : ℕ}
    (hblocked : ReaderBlocked s) (hset : s.set = .live write read) :
    s.rpc.entered = true ∧ (read ≠ 0 ∨ s.rpc.owns = true ∧ write = 0) := by
  obtain ⟨hsemop, -, hnone⟩ := hblocked
  cases hpc : s.rpc <;>
    simp only [hpc, ReaderPc.inSemop, reduceCtorEq] at hsemop
  case waitRead =>
    refine ⟨rfl, Or.inl ?_⟩
    rintro rfl
    simp [readerNext, hpc, hset, SemSet.semop, semApply] at hnone
  case setRead =>
    simp [readerNext, hpc, hset, SemSet.semop, semApply] at hnone
    omega
  all_goals
    refine ⟨rfl, Or.inr ⟨rfl, ?_⟩⟩
    by_contra hpos
    simp [readerNext, hpc, hset, SemSet.semop, semApply] at hnone
    omega

/-- The two sides never wait for each other. -/
theorem Sync.not_both_blocked {stdin : ByteStream} {s : State} (hs : Sync s)
    (hwriter : WriterBlocked stdin s) : ¬ ReaderBlocked s := by
  intro hreader
  obtain ⟨write, read, hset⟩ := hwriter.2.1
  obtain ⟨hrun, hw⟩ := hwriter.value hset
  obtain ⟨-, hr⟩ := hreader.value hset
  have hb := hs.balanced_of_writer hrun hset
  have hwrite := hb.write_eq hrun
  have hread := hb.read_le
  rcases hw with ⟨hpos, hdebt⟩ | ⟨howns, hzero⟩
  · rcases hr with hpos' | ⟨-, hzero'⟩
    · omega
    · exact hpos hzero'
  · rcases hr with hpos' | ⟨howns', -⟩
    · exact hpos' hzero
    · have hfull := hs.writerOwns howns
      rw [hs.readerOwns howns'] at hfull
      contradiction

end SysvShm

end MyFreeLib
