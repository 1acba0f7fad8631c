/-
The signal handlers of the shared-memory transfer.  Neither handler exits or
sets `shmp` back to `-1`, so a process that is interrupted while it has the
segment attached goes on with a dangling `shmp`.
-/
import MyFreeLib.SysvShmHandshake

namespace MyFreeLib

namespace SysvShm

/-- The two processes with a history of their handlers: whether the writer's
has removed or detached anything, and whether each has detached the segment. -/
structure Watched where
  state : State
  wReleased : Bool
  wDetached : Bool
  rDetached : Bool
deriving DecidableEq, Repr

def Watched.start : Watched where
  state := SysvShm.start
  wReleased := false
  wDetached := false
  rDetached := false

def watchedNext (stdin : ByteStream) (w : Watched) (label : Label) :
    Option Watched :=
  (next stdin w.state label).map fun state =>
    match label with
    | .writerSignal =>
        { w with
          state
          wReleased := w.wReleased || w.state.wSemid || w.state.wShmp ||
            w.state.wShmid
          wDetached := w.wDetached || (w.state.wShmp && w.state.wAttached) }
    | .readerSignal =>
        { w with
          state
          rDetached := w.rDetached || (w.state.rShmp && w.state.rAttached) }
    | _ => { w with state }

/-- The step evaluates `shmp->cnt` or passes `shmp->buf` to a call. -/
def State.dereferences (s : State) : Label → Bool
  | .writer _ =>
      match s.wpc with
      | .read | .checkRead | .testEnd | .account => true
      | _ => false
  | .reader _ =>
      match s.rpc with
      | .testEnd | .account | .write => true
      | _ => false
  | _ => false

/-- The step calls `shmdt(shmp)`: in a handler, in an exit handler or at the
end of the reader's `main`. -/
def State.detaches (s : State) : Label → Bool
  | .writer _ =>
      match s.wpc with
      | .returned _ => s.wShmp
      | _ => false
  | .writerSignal => s.wShmp
  | .reader _ =>
      match s.rpc with
      | .shmdt => true
      | .returned _ => s.rShmp
      | _ => false
  | .readerSignal => s.rShmp

/-- The handler of the process that moves has released something. -/
def Watched.released (w : Watched) : Label → Bool
  | .writer _ | .writerSignal => w.wReleased
  | .reader _ | .readerSignal => w.rDetached

/-- The handler of the process that moves has detached the segment. -/
def Watched.detached (w : Watched) : Label → Bool
  | .writer _ | .writerSignal => w.wDetached
  | .reader _ | .readerSignal => w.rDetached

/-- What a handler has released is not used, and what it has detached is not
detached again. -/
def SafeStep (w : Watched) (label : Label) (_ : Watched) : Prop :=
  (w.released label = true → w.state.dereferences label = false) ∧
    (w.detached label = true → w.state.detaches label = false)

instance (w : Watched) (label : Label) (t : Watched) :
    Decidable (SafeStep w label t) := by
  unfold SafeStep
  infer_instance

/-- A signal finds its process without the segment. -/
def QuietStep (w : Watched) (label : Label) (_ : Watched) : Prop :=
  match label with
  | .writerSignal => (w.state.wShmp && w.state.wAttached) = false
  | .readerSignal => (w.state.rShmp && w.state.rAttached) = false
  | _ => True

instance (w : Watched) (label : Label) (t : Watched) :
    Decidable (QuietStep w label t) := by
  cases label <;> unfold QuietStep <;> infer_instance

/-! ### What a step does to the globals -/

@[simp] def SemSet.usable : SemSet → Bool
  | .live _ _ => true
  | _ => false

/-- Between `semget` and the end of `main`: `semid` is set. -/
@[simp] def WriterPc.named : WriterPc → Bool
  | .semget | .returned _ | .exited _ | .crashed => false
  | _ => true

/-- Past the first wait of a round. -/
@[simp] def WriterPc.transferring : WriterPc → Bool
  | .read | .checkRead | .releaseRead | .setWrite | .testEnd | .account
  | .waitFinish => true
  | _ => false

@[simp] def WriterPc.ended : WriterPc → Bool
  | .exited _ | .crashed => true
  | _ => false

@[simp] def ReaderPc.ended : ReaderPc → Bool
  | .exited _ | .crashed => true
  | _ => false

/-- The reader's `main` has detached the segment. -/
@[simp] def ReaderPc.late : ReaderPc → Bool
  | .clearShmp | .releaseLast | .bye => true
  | _ => false

/-- The globals of the writer. -/
@[simp] def State.writerGlobals (s : State) : Bool × Bool × Bool × Bool :=
  (s.wSemid, s.wShmid, s.wShmp, s.wAttached)

/-- The global of the reader, and its mapping. -/
@[simp] def State.readerGlobals (s : State) : Bool × Bool :=
  (s.rShmp, s.rAttached)

/-- A step of the writer's `main` that assigns no global. -/
structure WriterMoves (s t : State) : Prop where
  globals : t.writerGlobals = s.writerGlobals
  reader : t.readerGlobals = s.readerGlobals ∧ t.rpc = s.rpc
  usable : t.set.usable = true → s.set.usable = true
  started : t.wpc ≠ .semget
  named : t.wpc.named = true → s.wpc.named = true
  transferring : t.wpc.transferring = true →
    s.wpc.transferring = true ∨ s.wpc = .waitWrite ∧ s.set.usable = true
  waitWrite : t.wpc = .waitWrite → s.wpc.transferring = true
  ended : t.wpc.ended = true → s.dereferences (.writer .ok) = true

theorem WriterMoves.fails (s : State) (message : String) :
    WriterMoves s (s.writerFails message) := by
  constructor <;> simp [State.writerFails]

theorem WriterMoves.crashes {s : State}
    (haccess : s.dereferences (.writer .ok) = true) :
    WriterMoves s { s with wpc := .crashed } := by
  constructor <;> simp [haccess]

/-- A step of the writer gets a resource, runs the exit handler, or leaves the
globals alone. -/
theorem writerNext_cases {stdin : ByteStream} {s t : State} {reply : Reply}
    (h : writerNext stdin s reply = some t) :
    s.wpc = .semget ∧
        t = { s with set := .live 0 0, wSemid := true, wpc := .setall } ∨
      s.wpc = .shmget ∧
        t = { s with shmKey := true, wShmid := true, wpc := .shmat } ∨
      s.wpc = .shmat ∧
        t = { s with wShmp := true, wAttached := true, wpc := .waitWrite } ∨
      (∃ code, s.wpc = .returned code ∧
        t = { s.release with wpc := .exited code }) ∨
      WriterMoves s t := by
  cases hpc : s.wpc
  case semget =>
    cases reply <;> simp only [writerNext, hpc, reduceCtorEq] at h <;>
      obtain rfl := Option.some.inj h
    · exact .inl ⟨rfl, rfl⟩
    · exact .inr (.inr (.inr (.inr (.fails s _))))
  case shmget =>
    cases reply <;> simp only [writerNext, hpc, reduceCtorEq] at h <;>
      obtain rfl := Option.some.inj h
    · exact .inr (.inl ⟨rfl, rfl⟩)
    · exact .inr (.inr (.inr (.inr (.fails s _))))
  case shmat =>
    cases reply <;> simp only [writerNext, hpc, reduceCtorEq] at h <;>
      obtain rfl := Option.some.inj h
    · exact .inr (.inr (.inl ⟨rfl, rfl⟩))
    · exact .inr (.inr (.inr (.inr (.fails s _))))
  case returned code =>
    cases reply <;> simp only [writerNext, hpc, reduceCtorEq] at h
    exact .inr (.inr (.inr (.inl ⟨code, rfl, (Option.some.inj h).symm⟩)))
  all_goals
    refine .inr (.inr (.inr (.inr ?_)))
    cases reply <;> simp only [writerNext, hpc, reduceCtorEq] at h
  all_goals try
    obtain rfl := Option.some.inj h
    exact .fails s _
  case setall.ok =>
    cases hset : s.set <;> simp only [hset, reduceCtorEq] at h
    obtain rfl := Option.some.inj h
    constructor <;> simp [hpc, hset]
  case waitWrite.ok =>
    obtain ⟨write, read, value, hset, -, rfl⟩ := semop_writeSem.mp h
    constructor <;> simp [hpc, hset]
  case releaseRead.ok =>
    obtain ⟨write, read, value, hset, -, rfl⟩ := semop_readSem.mp h
    constructor <;> simp [hpc, hset]
  case setWrite.ok | waitFinish.ok =>
    obtain ⟨write, read, value, hset, -, rfl⟩ := semop_writeSem.mp h
    constructor <;> simp [hpc, hset]
  all_goals
    have haccess : s.dereferences (.writer .ok) = true := by
      simp [State.dereferences, hpc]
  case read.count n =>
    split at h
    · obtain rfl := Option.some.inj h
      exact .crashes haccess
    · rw [Option.ite_none_left_eq_some, Option.map_eq_some_iff] at h
      obtain ⟨-, block, -, rfl⟩ := h
      constructor <;> simp [hpc]
  case checkRead.ok =>
    split at h
    · obtain rfl := Option.some.inj h
      exact .crashes haccess
    · split at h <;> obtain rfl := Option.some.inj h
      · exact .fails s _
      · constructor <;> simp [hpc]
  case testEnd.ok =>
    split at h
    · obtain rfl := Option.some.inj h
      exact .crashes haccess
    · split at h <;> obtain rfl := Option.some.inj h <;> constructor <;>
        simp [hpc]
  case read.fail | account.ok =>
    split at h <;> obtain rfl := Option.some.inj h
    · exact .crashes haccess
    · constructor <;> simp [hpc]

/-- A step of the reader's `main` that neither assigns `shmp` nor detaches. -/
structure ReaderMoves (s t : State) : Prop where
  globals : t.readerGlobals = s.readerGlobals
  writer : t.writerGlobals = s.writerGlobals ∧ t.wpc = s.wpc
  usable : t.set.usable = true → s.set.usable = true
  late : t.rpc.late = true → s.rpc.late = true
  ended : t.rpc.ended = true → s.dereferences (.reader .ok) = true

theorem ReaderMoves.fails (s : State) (message : String) :
    ReaderMoves s (s.readerFails message) := by
  constructor <;> simp [State.readerFails]

theorem ReaderMoves.crashes {s : State}
    (haccess : s.dereferences (.reader .ok) = true) :
    ReaderMoves s { s with rpc := .crashed } := by
  constructor <;> simp [haccess]

/-- A step of the reader attaches, detaches, forgets `shmp`, runs the exit
handler, or leaves the mapping alone. -/
theorem readerNext_cases {s t : State} {reply : Reply}
    (h : readerNext s reply = some t) :
    s.rpc = .shmat ∧
        t = { s with rShmp := true, rAttached := true, rpc := .waitRead } ∨
      s.rpc = .shmdt ∧ t = { s with rAttached := false, rpc := .clearShmp } ∨
      s.rpc = .clearShmp ∧ t = { s with rShmp := false, rpc := .releaseLast } ∨
      (∃ code, s.rpc = .returned code ∧
        t = { s.detach with rpc := .exited code }) ∨
      ReaderMoves s t := by
  cases hpc : s.rpc
  case shmat =>
    cases reply <;> simp only [readerNext, hpc, reduceCtorEq] at h <;>
      obtain rfl := Option.some.inj h
    · exact .inl ⟨rfl, rfl⟩
    · exact .inr (.inr (.inr (.inr (.fails s _))))
  case shmdt =>
    cases reply <;> simp only [readerNext, hpc, reduceCtorEq] at h
    · exact .inr (.inl ⟨rfl, (guarded_eq_some.mp h).2.symm⟩)
    · obtain rfl := Option.some.inj h
      exact .inr (.inr (.inr (.inr (.fails s _))))
  case clearShmp =>
    cases reply <;> simp only [readerNext, hpc, reduceCtorEq] at h
    exact .inr (.inr (.inl ⟨rfl, (Option.some.inj h).symm⟩))
  case returned code =>
    cases reply <;> simp only [readerNext, hpc, reduceCtorEq] at h
    exact .inr (.inr (.inr (.inl ⟨code, rfl, (Option.some.inj h).symm⟩)))
  all_goals
    refine .inr (.inr (.inr (.inr ?_)))
    cases reply <;> simp only [readerNext, hpc, reduceCtorEq] at h
  all_goals try
    obtain rfl := Option.some.inj h
    exact .fails s _
  case semget.ok =>
    cases hset : s.set <;> simp only [hset, reduceCtorEq] at h
    obtain rfl := Option.some.inj h
    constructor <;> simp [hset]
  case shmget.ok =>
    obtain ⟨-, rfl⟩ := guarded_eq_some.mp h
    constructor <;> simp
  case waitRead.ok | setRead.ok =>
    obtain ⟨write, read, value, hset, -, rfl⟩ := semop_readSem.mp h
    constructor <;> simp [hset]
  case releaseWrite.ok | releaseLast.ok =>
    obtain ⟨write, read, value, hset, -, rfl⟩ := semop_writeSem.mp h
    constructor <;> simp [hpc, hset]
  case bye.ok =>
    obtain rfl := Option.some.inj h
    constructor <;> simp
  all_goals
    have haccess : s.dereferences (.reader .ok) = true := by
      simp [State.dereferences, hpc]
  case write.count n =>
    split at h
    · obtain rfl := Option.some.inj h
      exact .crashes haccess
    · obtain ⟨-, h⟩ := Option.ite_none_left_eq_some.mp h
      split at h <;> obtain rfl := Option.some.inj h
      · constructor <;> simp
      · constructor <;> simp [State.readerFails]
  case write.fail =>
    split at h <;> obtain rfl := Option.some.inj h
    · exact .crashes haccess
    · exact .fails s _
  case testEnd.ok =>
    split at h
    · obtain rfl := Option.some.inj h
      exact .crashes haccess
    · split at h <;> obtain rfl := Option.some.inj h <;> constructor <;> simp
  case account.ok =>
    split at h <;> obtain rfl := Option.some.inj h
    · exact .crashes haccess
    · constructor <;> simp

/-! ### The invariant -/

/-- While nothing has been detached by a handler, a process in its loop has
the segment attached; and without its semaphores the writer gets no further
than to the first wait. -/
structure SignalInv (w : Watched) : Prop where
  fresh : w.state.wpc = .semget → w.state.wSemid = false
  named : w.state.wpc.named = true → w.state.wSemid = true
  ids : w.state.wSemid = false →
    w.state.wShmid = false ∧ w.state.wShmp = false
  mapped : w.state.wpc.transferring = true ∨ w.state.wpc = .waitWrite →
    w.wDetached = false →
      w.state.wShmp = true ∧ w.state.wAttached = true
  released : w.wReleased = true → w.wDetached = false →
    w.state.set.usable = false ∧ w.state.wpc ≠ .semget ∧
      w.state.wpc.transferring = false
  late : w.state.rpc.late = true → w.state.rAttached = false

theorem start_signalInv : SignalInv Watched.start := by
  constructor <;> simp [Watched.start, start]

theorem State.usable_of_release {s : State}
    (h : s.release.set.usable = true) : s.set.usable = true := by
  cases hset : s.release.set with
  | live write read => simp [State.live_of_release hset]
  | _ => simp [hset] at h

/-- A step of the writer takes no notice of what has been recorded. -/
theorem writer_signalInv {stdin : ByteStream} {w : Watched} {reply : Reply}
    {t : State} (hw : SignalInv w)
    (h : writerNext stdin w.state reply = some t) :
    SignalInv { w with state := t } := by
  obtain ⟨hpc, rfl⟩ | ⟨hpc, rfl⟩ | ⟨hpc, rfl⟩ | ⟨code, hpc, rfl⟩ | hmoves :=
    writerNext_cases h
  · -- the set is created while nothing has been released
    refine ⟨by simp, by simp, by simp, by simp, fun hreleased hdetached => ?_,
      hw.late⟩
    exact absurd hpc (hw.released hreleased hdetached).2.1
  · have hnamed := hw.named (by simp [hpc])
    refine ⟨by simp, fun _ => hnamed, fun hno => ?_, by simp,
      fun hreleased hdetached => ?_, hw.late⟩
    · exact absurd (hnamed.symm.trans hno) (by simp)
    · exact ⟨(hw.released hreleased hdetached).1, by simp, by simp⟩
  · have hnamed := hw.named (by simp [hpc])
    refine ⟨by simp, fun _ => hnamed, fun hno => ?_, by simp,
      fun hreleased hdetached => ?_, hw.late⟩
    · exact absurd (hnamed.symm.trans hno) (by simp)
    · exact ⟨(hw.released hreleased hdetached).1, by simp, by simp⟩
  · refine ⟨by simp, by simp, hw.ids, by simp,
      fun hreleased hdetached => ⟨?_, by simp, by simp⟩, hw.late⟩
    have hset := (hw.released hreleased hdetached).1
    rw [Bool.eq_false_iff] at hset ⊢
    exact fun hu => hset (State.usable_of_release hu)
  · obtain ⟨hsemid, hshmid, hshmp, hattached⟩ :
        t.wSemid = w.state.wSemid ∧ t.wShmid = w.state.wShmid ∧
          t.wShmp = w.state.wShmp ∧ t.wAttached = w.state.wAttached := by
      simpa using hmoves.globals
    have hreader := hmoves.reader
    simp only [State.readerGlobals, Prod.mk.injEq] at hreader
    refine ⟨fun hpc => absurd hpc hmoves.started, fun hn => ?_, fun hno => ?_,
      fun hpc hdetached => ?_, fun hreleased hdetached => ?_, fun hlate => ?_⟩
    · exact hsemid ▸ hw.named (hmoves.named hn)
    · exact hshmid ▸ hshmp ▸ hw.ids (hsemid ▸ hno)
    · have hloop : w.state.wpc.transferring = true ∨
          w.state.wpc = .waitWrite := by
        rcases hpc with hpc | hpc
        · exact (hmoves.transferring hpc).imp_right And.left
        · exact Or.inl (hmoves.waitWrite hpc)
      exact hshmp ▸ hattached ▸ hw.mapped hloop hdetached
    · obtain ⟨hset, -, hpc⟩ := hw.released hreleased hdetached
      refine ⟨?_, hmoves.started, ?_⟩
      · rw [Bool.eq_false_iff] at hset ⊢
        exact fun hu => hset (hmoves.usable hu)
      · rw [Bool.eq_false_iff]
        intro ht
        rcases hmoves.transferring ht with hin | ⟨-, hu⟩
        · exact absurd (hin.symm.trans hpc) (by simp)
        · exact absurd (hu.symm.trans hset) (by simp)
    · rw [hreader.2] at hlate
      exact hreader.1.2 ▸ hw.late hlate

theorem writerSignal_eq_some {stdin : ByteStream} {s t : State} :
    next stdin s .writerSignal = some t ↔
      s.wpc.ended = false ∧ t = s.release := by
  cases hpc : s.wpc <;> simp [next, hpc, eq_comm]

theorem readerSignal_eq_some {stdin : ByteStream} {s t : State} :
    next stdin s .readerSignal = some t ↔
      s.rpc.ended = false ∧ t = s.detach := by
  cases hpc : s.rpc <;> simp [next, hpc, eq_comm]

theorem State.not_usable_of_release {s : State} (h : s.wSemid = true) :
    s.release.set.usable = false := by
  cases hset : s.set <;> simp [release, h, hset, SemSet.remove]

/-- What the writer's handler releases it has got, and then the set is among
it. -/
theorem writerSignal_signalInv {w : Watched} (hw : SignalInv w) :
    SignalInv { w with
      state := w.state.release
      wReleased := w.wReleased || w.state.wSemid || w.state.wShmp ||
        w.state.wShmid
      wDetached := w.wDetached || (w.state.wShmp && w.state.wAttached) } := by
  refine ⟨hw.fresh, hw.named, hw.ids, fun hpc hdetached => ?_,
    fun hreleased hdetached => ?_, hw.late⟩
  · simp only [Bool.or_eq_false_iff] at hdetached
    obtain ⟨hshmp, hattached⟩ := hw.mapped hpc hdetached.1
    simp [hshmp, hattached] at hdetached
  · simp only [Bool.or_eq_false_iff] at hdetached
    have hloop : w.state.wpc.transferring = false := by
      rw [Bool.eq_false_iff]
      intro ht
      obtain ⟨hshmp, hattached⟩ := hw.mapped (Or.inl ht) hdetached.1
      simp [hshmp, hattached] at hdetached
    cases hsemid : w.state.wSemid with
    | true =>
        refine ⟨State.not_usable_of_release hsemid, fun hpc => ?_, hloop⟩
        exact absurd (hsemid.symm.trans (hw.fresh hpc)) (by simp)
    | false =>
        obtain ⟨hshmid, hshmp⟩ := hw.ids hsemid
        have hold : w.wReleased = true := by
          simpa [hsemid, hshmid, hshmp] using hreleased
        obtain ⟨hset, hpc, -⟩ := hw.released hold hdetached.1
        refine ⟨?_, hpc, hloop⟩
        rw [Bool.eq_false_iff] at hset ⊢
        exact fun hu => hset (State.usable_of_release hu)

theorem reader_signalInv {w : Watched} {reply : Reply} {t : State}
    (hw : SignalInv w) (h : readerNext w.state reply = some t) :
    SignalInv { w with state := t } := by
  obtain ⟨hpc, rfl⟩ | ⟨hpc, rfl⟩ | ⟨hpc, rfl⟩ | ⟨code, hpc, rfl⟩ | hmoves :=
    readerNext_cases h
  · exact { hw with late := by simp }
  · exact { hw with late := by simp }
  · exact { hw with late := fun _ => hw.late (by simp [hpc]) }
  · exact { hw with late := by simp }
  · obtain ⟨hglobals, hwpc⟩ := hmoves.writer
    have hreader := hmoves.globals
    simp only [State.writerGlobals, Prod.mk.injEq] at hglobals
    simp only [State.readerGlobals, Prod.mk.injEq] at hreader
    obtain ⟨hsemid, hshmid, hshmp, hattached⟩ := hglobals
    refine ⟨fun hpc => ?_, fun hpc => ?_, fun hno => ?_,
      fun hpc hdetached => ?_, fun hreleased hdetached => ?_, fun hlate => ?_⟩
    · exact hsemid ▸ hw.fresh (hwpc ▸ hpc)
    · exact hsemid ▸ hw.named (hwpc ▸ hpc)
    · exact hshmid ▸ hshmp ▸ hw.ids (hsemid ▸ hno)
    · exact hshmp ▸ hattached ▸ hw.mapped (hwpc ▸ hpc) hdetached
    · obtain ⟨hset, hpc⟩ := hw.released hreleased hdetached
      refine ⟨?_, hwpc ▸ hpc⟩
      rw [Bool.eq_false_iff] at hset ⊢
      exact fun hu => hset (hmoves.usable hu)
    · exact hreader.2 ▸ hw.late (hmoves.late hlate)

theorem watchedNext_signalInv {stdin : ByteStream} (w : Watched)
    (label : Label) (t : Watched) (hw : SignalInv w)
    (h : watchedNext stdin w label = some t) : SignalInv t := by
  obtain ⟨state, hnext, rfl⟩ := Option.map_eq_some_iff.mp h
  cases label with
  | writer reply => exact writer_signalInv hw hnext
  | writerSignal =>
      obtain ⟨-, rfl⟩ := writerSignal_eq_some.mp hnext
      exact writerSignal_signalInv hw
  | reader reply => exact reader_signalInv hw hnext
  | readerSignal =>
      obtain ⟨-, rfl⟩ := readerSignal_eq_some.mp hnext
      refine { hw with late := fun hlate => ?_ }
      simp [State.detach, hw.late hlate]

/-! ### Runs -/

/-- No handler has detached the segment. -/
def Watched.Intact (w : Watched) : Prop :=
  w.wDetached = false ∧ w.rDetached = false

theorem watchedNext_intact {stdin : ByteStream} {w t : Watched} {label : Label}
    (h : watchedNext stdin w label = some t) :
    t.Intact ↔ w.Intact ∧ QuietStep w label t := by
  obtain ⟨state, -, rfl⟩ := Option.map_eq_some_iff.mp h
  cases label with
  | writer reply => simp [Watched.Intact, QuietStep]
  | writerSignal =>
      simp only [Watched.Intact, QuietStep, Bool.or_eq_false_iff]
      exact and_right_comm
  | reader reply => simp [Watched.Intact, QuietStep]
  | readerSignal =>
      simp only [Watched.Intact, QuietStep, Bool.or_eq_false_iff]
      exact and_assoc.symm

theorem State.dereferences_of_not_transferring {s : State} {reply : Reply}
    (h : s.wpc.transferring = false) :
    s.dereferences (.writer reply) = false := by
  cases hpc : s.wpc <;> simp [hpc] at h <;> simp [dereferences, hpc]

/-- As long as no handler has detached the segment every step is safe. -/
theorem safeStep_of_intact {w t : Watched} {label : Label} (hw : SignalInv w)
    (hintact : w.Intact) : SafeStep w label t := by
  obtain ⟨hwriter, hreader⟩ := hintact
  cases label with
  | writer reply =>
      refine ⟨fun hreleased => ?_, by simp [Watched.detached, hwriter]⟩
      exact State.dereferences_of_not_transferring
        (hw.released hreleased hwriter).2.2
  | writerSignal => exact ⟨fun _ => rfl, by simp [Watched.detached, hwriter]⟩
  | reader reply | readerSignal =>
      exact ⟨by simp [Watched.released, hreader],
        by simp [Watched.detached, hreader]⟩

/-- A process whose handler has detached the segment keeps the dangling `shmp`,
and cannot end without using it. -/
structure Dangling (w : Watched) : Prop where
  writer : w.wDetached = true → w.wReleased = true ∧ w.state.wShmp = true ∧
    w.state.wpc.ended = false
  reader : w.rDetached = true → w.state.rShmp = true ∧
    w.state.rpc.ended = false ∧ w.state.rpc.late = false

theorem start_dangling : Dangling Watched.start := by
  constructor <;> simp [Watched.start]

theorem writer_dangling {stdin : ByteStream} {w : Watched} {reply : Reply}
    {t : State} (hw : Dangling w)
    (hsafe : SafeStep w (.writer reply) { w with state := t })
    (h : writerNext stdin w.state reply = some t) :
    Dangling { w with state := t } := by
  obtain ⟨hpc, rfl⟩ | ⟨hpc, rfl⟩ | ⟨hpc, rfl⟩ | ⟨code, hpc, rfl⟩ | hmoves :=
    writerNext_cases h
  · refine { hw with writer := fun hd => ?_ }
    exact ⟨(hw.writer hd).1, (hw.writer hd).2.1, by simp⟩
  · refine { hw with writer := fun hd => ?_ }
    exact ⟨(hw.writer hd).1, (hw.writer hd).2.1, by simp⟩
  · refine { hw with writer := fun hd => ?_ }
    exact ⟨(hw.writer hd).1, rfl, by simp⟩
  · -- the exit handler would detach a second time
    refine { hw with writer := fun hd => ?_ }
    have hshmp := hsafe.2 hd
    simp [State.detaches, hpc, (hw.writer hd).2.1] at hshmp
  · have hglobals := hmoves.globals
    have hreader := hmoves.reader
    simp only [State.writerGlobals, Prod.mk.injEq] at hglobals
    simp only [State.readerGlobals, Prod.mk.injEq] at hreader
    constructor
    · intro hd
      obtain ⟨hreleased, hshmp, -⟩ := hw.writer hd
      refine ⟨hreleased, hglobals.2.2.1 ▸ hshmp, ?_⟩
      rw [Bool.eq_false_iff]
      intro hended
      exact absurd ((hmoves.ended hended).symm.trans (hsafe.1 hreleased))
        (by simp)
    · rw [hreader.1.1, hreader.2]
      exact hw.reader

theorem reader_dangling {w : Watched} {reply : Reply} {t : State}
    (hw : Dangling w)
    (hsafe : SafeStep w (.reader reply) { w with state := t })
    (h : readerNext w.state reply = some t) :
    Dangling { w with state := t } := by
  obtain ⟨hpc, rfl⟩ | ⟨hpc, rfl⟩ | ⟨hpc, rfl⟩ | ⟨code, hpc, rfl⟩ | hmoves :=
    readerNext_cases h
  · exact { hw with reader := fun hd => ⟨rfl, by simp, by simp⟩ }
  · refine { hw with reader := fun hd => ?_ }
    have hagain := hsafe.2 hd
    simp [State.detaches, hpc] at hagain
  · refine { hw with reader := fun hd => ?_ }
    have hlate := (hw.reader hd).2.2
    simp [hpc] at hlate
  · refine { hw with reader := fun hd => ?_ }
    have hshmp := hsafe.2 hd
    simp [State.detaches, hpc, (hw.reader hd).1] at hshmp
  · obtain ⟨hglobals, hwpc⟩ := hmoves.writer
    have hreader := hmoves.globals
    simp only [State.writerGlobals, Prod.mk.injEq] at hglobals
    simp only [State.readerGlobals, Prod.mk.injEq] at hreader
    constructor
    · rw [hglobals.2.2.1, hwpc]
      exact hw.writer
    · intro hd
      obtain ⟨hshmp, -, hlate⟩ := hw.reader hd
      refine ⟨hreader.1 ▸ hshmp, ?_, ?_⟩
      · rw [Bool.eq_false_iff]
        intro hended
        exact absurd ((hmoves.ended hended).symm.trans (hsafe.1 hd)) (by simp)
      · rw [Bool.eq_false_iff]
        intro hl
        exact absurd ((hmoves.late hl).symm.trans hlate) (by simp)

theorem watchedNext_dangling {stdin : ByteStream} {w t : Watched}
    {label : Label} (hinv : SignalInv w) (hw : Dangling w)
    (hsafe : SafeStep w label t) (h : watchedNext stdin w label = some t) :
    Dangling t := by
  obtain ⟨state, hnext, rfl⟩ := Option.map_eq_some_iff.mp h
  cases label with
  | writer reply => exact writer_dangling hw hsafe hnext
  | writerSignal =>
      obtain ⟨hended, rfl⟩ := writerSignal_eq_some.mp hnext
      refine { hw with writer := fun hd => ?_ }
      rcases Bool.or_eq_true_iff.mp hd with hold | hnew
      · obtain ⟨hreleased, hshmp, hpc⟩ := hw.writer hold
        exact ⟨by simp [hreleased], hshmp, hpc⟩
      · obtain ⟨hshmp, -⟩ := Bool.and_eq_true_iff.mp hnew
        exact ⟨by simp [hshmp], hshmp, hended⟩
  | reader reply => exact reader_dangling hw hsafe hnext
  | readerSignal =>
      obtain ⟨hended, rfl⟩ := readerSignal_eq_some.mp hnext
      refine { hw with reader := fun hd => ?_ }
      rcases Bool.or_eq_true_iff.mp hd with hold | hnew
      · exact hw.reader hold
      · obtain ⟨hshmp, hattached⟩ := Bool.and_eq_true_iff.mp hnew
        refine ⟨hshmp, hended, ?_⟩
        rw [Bool.eq_false_iff]
        intro hlate
        exact absurd (hattached.symm.trans (hinv.late hlate)) (by simp)

/-- Both processes have come to their end. -/
def State.Ended (s : State) : Prop :=
  s.wpc.ended = true ∧ s.rpc.ended = true

theorem Dangling.intact_of_ended {w : Watched} (hw : Dangling w)
    (hended : w.state.Ended) : w.Intact := by
  constructor
  · rw [Bool.eq_false_iff]
    intro hd
    exact absurd (hended.1.symm.trans (hw.writer hd).2.2) (by simp)
  · rw [Bool.eq_false_iff]
    intro hd
    exact absurd (hended.2.symm.trans (hw.reader hd).2.1) (by simp)

/-- If every signal finds its process without the segment, no handler leaves a
dangling `shmp` behind that is used; and a run in which all steps are safe and
both processes come to their end has no other signals. -/
theorem signals_safe_iff {stdin : ByteStream} {labels : List Label}
    {t : Watched}
    (hrun : exec (watchedNext stdin) Watched.start labels = some t) :
    (EachStep (watchedNext stdin) QuietStep Watched.start labels →
      EachStep (watchedNext stdin) SafeStep Watched.start labels) ∧
    (t.state.Ended →
      EachStep (watchedNext stdin) SafeStep Watched.start labels →
      EachStep (watchedNext stdin) QuietStep Watched.start labels) := by
  constructor
  · refine eachStep_mono
      (fun w label u (hw : SignalInv w ∧ w.Intact) hquiet hnext => ?_)
      (fun w label u hw _ _ => safeStep_of_intact hw.1 hw.2)
      ⟨start_signalInv, rfl, rfl⟩
    exact ⟨watchedNext_signalInv w label u hw.1 hnext,
      (watchedNext_intact hnext).mpr ⟨hw.2, hquiet⟩⟩
  · intro hended hsafe
    have hend : SignalInv t ∧ Dangling t :=
      exec_invariant_of_eachStep
        (fun w label u (hw : SignalInv w ∧ Dangling w) hsafe hnext =>
          ⟨watchedNext_signalInv w label u hw.1 hnext,
            watchedNext_dangling hw.1 hw.2 hsafe hnext⟩)
        hsafe ⟨start_signalInv, start_dangling⟩ hrun
    have hquiet := (exec_iff_eachStep watchedNext_signalInv
      (fun w label u _ hnext => watchedNext_intact hnext)
      start_signalInv hrun).mp (hend.2.intact_of_ended hended)
    exact hquiet.2

/-- The interrupt key while the writer waits for its standard input, and then
a line. -/
def interruptedRead : List Label :=
  [.writer .ok, .writer .ok, .writer .ok, .writer .ok, .writer .ok,
    .writerSignal, .writer (.count 1)]

theorem signals_safe_interruptedRead :
    ¬EachStep (watchedNext fun _ => some 10) SafeStep Watched.start
      interruptedRead := by
  decide +kernel

/-- An empty transfer, with a signal to the reader before it attaches the
segment and another after it has detached it. -/
def quietTransfer : List Label :=
  [.writer .ok, .writer .ok, .writer .ok, .writer .ok, .readerSignal,
    .reader .ok, .reader .ok, .reader .ok, .writer .ok, .writer (.count 0),
    .writer .ok, .writer .ok, .writer .ok, .writer .ok, .reader .ok,
    .reader .ok, .reader .ok, .readerSignal, .reader .ok, .reader .ok,
    .reader .ok, .reader .ok, .writer .ok, .writer .ok]

theorem signals_safe_quietTransfer :
    EachStep (watchedNext fun _ => none) SafeStep Watched.start
        quietTransfer ∧
      EachStep (watchedNext fun _ => none) QuietStep Watched.start
        quietTransfer := by
  have hrun : exec (watchedNext fun _ => none) Watched.start
      quietTransfer = some _ := rfl
  have hquiet : EachStep (watchedNext fun _ => none) QuietStep Watched.start
      quietTransfer := by
    decide +kernel
  obtain ⟨hsafe, hconverse⟩ := signals_safe_iff hrun
  exact ⟨hsafe hquiet, hconverse ⟨rfl, rfl⟩ (hsafe hquiet)⟩

end SysvShm

end MyFreeLib
