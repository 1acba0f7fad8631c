/-
How the transfer ends.  Where no call fails and no signal arrives the end of
file goes through the same exchange as every block: the writer waits for it to
be taken, so it never removes the set and the segment under the reader.
-/
import MyFreeLib.SysvShmTransfer

namespace MyFreeLib

namespace SysvShm

/-- The call succeeds, and the reader's `write` takes the whole block. -/
def Smooth (s : State) : Label → Prop
  | .writer reply => reply ≠ .fail
  | .reader (.count count) => (count : Int) = s.seg.cnt
  | .reader reply => reply ≠ .fail
  | .writerSignal | .readerSignal => False

instance Smooth.decidable (s : State) :
    (label : Label) → Decidable (Smooth s label)
  | .writer reply => inferInstanceAs (Decidable (reply ≠ .fail))
  | .reader (.count count) =>
      inferInstanceAs (Decidable ((count : Int) = s.seg.cnt))
  | .reader .ok => .isTrue (by simp [Smooth])
  | .reader .fail => .isFalse (by simp [Smooth])
  | .writerSignal | .readerSignal => .isFalse (by simp [Smooth])

/-- The writer has not failed. -/
def WriterPc.sound : WriterPc → Bool
  | .returned code | .exited code => code = 0
  | .crashed => false
  | _ => true

/-- The set is the writer's. -/
def WriterPc.holdsSet : WriterPc → Bool
  | .semget | .exited _ | .crashed => false
  | _ => true

/-- The segment is the writer's. -/
def WriterPc.holdsSegment : WriterPc → Bool
  | .setall | .shmget => false
  | pc => pc.holdsSet

/-- The writer may access the segment. -/
def WriterPc.maps : WriterPc → Bool
  | .shmat | .waitFinish | .returned _ => false
  | pc => pc.holdsSegment

/-- The reader may access the segment. -/
def ReaderPc.maps : ReaderPc → Bool
  | .semget | .shmget | .shmat | .clearShmp | .releaseLast => false
  | pc => pc.running

/-- What the two processes rely on. -/
structure Equipped (s : State) : Prop where
  writer : s.wpc.sound = true
  reader : s.rpc.sound = true
  set : s.wpc.holdsSet = true →
    (∃ write read, s.set = .live write read) ∧ s.wSemid = true
  segment : s.wpc.holdsSegment = true → s.shmKey = true ∧ s.wShmid = true
  writerMaps : s.wpc.maps = true → s.wAttached = true
  readerMaps : s.rpc.maps = true → s.rAttached = true
  counted : 0 ≤ s.seg.cnt
  removed : s.wpc = .exited 0 → s.set = .removed ∧ s.shmKey = false

theorem start_equipped : Equipped start := by
  constructor <;> simp [start, WriterPc.sound, ReaderPc.sound,
    WriterPc.holdsSet, WriterPc.holdsSegment, WriterPc.maps, ReaderPc.maps,
    Shmseg.zero]

/-- The steps of a writer that does not fail. -/
inductive WriterMove (stdin : ByteStream) (s : State) : State → Prop
  | creates (hpc : s.wpc = .semget) : WriterMove stdin s
      { s with set := .live 0 0, wSemid := true, wpc := .setall }
  | initialises (hpc : s.wpc = .setall) : WriterMove stdin s
      { s with set := .live 0 1, wpc := .shmget }
  | places (hpc : s.wpc = .shmget) : WriterMove stdin s
      { s with shmKey := true, wShmid := true, wpc := .shmat }
  | attaches (hpc : s.wpc = .shmat) : WriterMove stdin s
      { s with wShmp := true, wAttached := true, wpc := .waitWrite }
  | waits {read : ℕ} (hpc : s.wpc = .waitWrite)
      (hset : s.set = .live 0 read) : WriterMove stdin s
      { s with set := .live 0 read, wpc := .read }
  | fills {count : ℕ} {block : List Byte} (hpc : s.wpc = .read)
      (hread : readAt stdin s.consumed.length count = some block) :
      WriterMove stdin s { s with
        seg := ⟨count, overlay block s.seg.buf⟩
        consumed := s.consumed ++ block
        filled := s.filled ++ [block]
        wpc := .checkRead }
  | checks (hpc : s.wpc = .checkRead) : WriterMove stdin s
      { s with wpc := .releaseRead }
  | publishes {write read : ℕ} (hpc : s.wpc = .releaseRead)
      (hset : s.set = .live write (read + 1)) : WriterMove stdin s
      { s with set := .live write read, full := true, wpc := .setWrite }
  | pays {write read : ℕ} (hpc : s.wpc = .setWrite)
      (hset : s.set = .live write read) : WriterMove stdin s
      { s with set := .live (write + 1) read, wpc := .testEnd }
  | ends (hpc : s.wpc = .testEnd) (hcnt : s.seg.cnt = 0) : WriterMove stdin s
      { s with wpc := .waitFinish }
  | goesOn (hpc : s.wpc = .testEnd) (hcnt : s.seg.cnt ≠ 0) :
      WriterMove stdin s { s with wpc := .account }
  | accounts (hpc : s.wpc = .account) : WriterMove stdin s
      { s with wpc := .waitWrite }
  | finishes {read : ℕ} (hpc : s.wpc = .waitFinish)
      (hset : s.set = .live 0 read) : WriterMove stdin s
      { s with set := .live 0 read, wpc := .returned 0 }
  | exits (hpc : s.wpc = .returned 0) : WriterMove stdin s
      { s.release with wpc := .exited 0 }

/-- The steps of a reader that does not fail. -/
inductive ReaderMove (s : State) : State → Prop
  | finds {write read : ℕ} (hpc : s.rpc = .semget)
      (hset : s.set = .live write read) : ReaderMove s
      { s with set := .live write read, rpc := .shmget }
  | enters (hpc : s.rpc = .shmget) (hkey : s.shmKey = true) :
      ReaderMove s { s with rpc := .shmat }
  | attaches (hpc : s.rpc = .shmat) : ReaderMove s
      { s with rShmp := true, rAttached := true, rpc := .waitRead }
  | waits {write : ℕ} (hpc : s.rpc = .waitRead)
      (hset : s.set = .live write 0) : ReaderMove s
      { s with set := .live write 0, rpc := .testEnd }
  | ends (hpc : s.rpc = .testEnd) (hcnt : s.seg.cnt = 0) :
      ReaderMove s { s with rpc := .shmdt }
  | goesOn (hpc : s.rpc = .testEnd) (hcnt : s.seg.cnt ≠ 0) :
      ReaderMove s { s with rpc := .account }
  | accounts (hpc : s.rpc = .account) : ReaderMove s { s with rpc := .write }
  | drains {count : ℕ} (hpc : s.rpc = .write) (hcount : count = s.seg.cnt) :
      ReaderMove s { s with
        written := s.written ++ s.seg.buf.take count
        drained := s.drained ++ [s.seg.buf.take count]
        rpc := .releaseWrite }
  | releases {write read : ℕ} (hpc : s.rpc = .releaseWrite)
      (hset : s.set = .live (write + 1) read) : ReaderMove s
      { s with set := .live write read, full := false, rpc := .setRead }
  | pays {write read : ℕ} (hpc : s.rpc = .setRead)
      (hset : s.set = .live write read) : ReaderMove s
      { s with set := .live write (read + 1), rpc := .waitRead }
  | detaches (hpc : s.rpc = .shmdt) : ReaderMove s
      { s with rAttached := false, rpc := .clearShmp }
  | clears (hpc : s.rpc = .clearShmp) : ReaderMove s
      { s with rShmp := false, rpc := .releaseLast }
  | leaves {write read : ℕ} (hpc : s.rpc = .releaseLast)
      (hset : s.set = .live (write + 1) read) : ReaderMove s
      { s with set := .live write read, full := false, rpc := .bye }
  | speaks (hpc : s.rpc = .bye) : ReaderMove s { s with
      rText := s.rText ++ text "reader: bye!"
      rpc := .returned 0 }
  | exits (hpc : s.rpc = .returned 0) : ReaderMove s
      { s.detach with rpc := .exited 0 }

variable {stdin : ByteStream} {s t : State}

theorem Equipped.writerMove (hs : Equipped s) {reply : Reply}
    (hreply : reply ≠ .fail) (h : writerNext stdin s reply = some t) :
    WriterMove stdin s t := by
  have hmaps (h : s.wpc.maps = true) : ¬ (!s.wAttached) = true := by
    simp [hs.writerMaps h]
  have hcounted := hs.counted
  have hsound := hs.writer
  cases reply with
  | fail => exact absurd rfl hreply
  | count n =>
      cases hpc : s.wpc <;> simp only [writerNext, hpc, reduceCtorEq] at h
      rw [hpc] at hmaps
      rw [if_neg (hmaps rfl), Option.ite_none_left_eq_some,
        Option.map_eq_some_iff] at h
      obtain ⟨-, block, hread, rfl⟩ := h
      exact .fills hpc hread
  | ok =>
      cases hpc : s.wpc <;>
        simp only [writerNext, hpc, reduceCtorEq] at h <;>
        rw [hpc] at hmaps hsound
      case semget => exact Option.some.inj h ▸ .creates hpc
      case setall =>
        cases hset : s.set <;> simp only [hset, reduceCtorEq] at h
        exact Option.some.inj h ▸ .initialises hpc
      case shmget => exact Option.some.inj h ▸ .places hpc
      case shmat => exact Option.some.inj h ▸ .attaches hpc
      case waitWrite =>
        obtain ⟨write, read, value, hset, hvalue, rfl⟩ := semop_writeSem.mp h
        obtain ⟨rfl, rfl⟩ := semApply_wait.mp hvalue
        exact .waits hpc hset
      case checkRead =>
        have hcnt : s.seg.cnt ≠ -1 := by omega
        rw [if_neg (hmaps rfl), if_neg hcnt] at h
        exact Option.some.inj h ▸ .checks hpc
      case releaseRead =>
        obtain ⟨write, read, value, hset, hvalue, rfl⟩ := semop_readSem.mp h
        obtain rfl := semApply_take.mp hvalue
        exact .publishes hpc hset
      case setWrite =>
        obtain ⟨write, read, value, hset, hvalue, rfl⟩ := semop_writeSem.mp h
        obtain rfl := semApply_give.mp hvalue
        exact .pays hpc hset
      case testEnd =>
        rw [if_neg (hmaps rfl)] at h
        split at h <;> obtain rfl := Option.some.inj h
        · exact .ends hpc (by assumption)
        · exact .goesOn hpc (by assumption)
      case account =>
        rw [if_neg (hmaps rfl)] at h
        exact Option.some.inj h ▸ .accounts hpc
      case waitFinish =>
        obtain ⟨write, read, value, hset, hvalue, rfl⟩ := semop_writeSem.mp h
        obtain ⟨rfl, rfl⟩ := semApply_wait.mp hvalue
        exact .finishes hpc hset
      case returned code =>
        obtain rfl : code = 0 := by simpa [WriterPc.sound] using hsound
        exact Option.some.inj h ▸ .exits hpc

theorem Equipped.readerMove (hs : Equipped s) {reply : Reply}
    (hsmooth : Smooth s (.reader reply))
    (h : readerNext s reply = some t) : ReaderMove s t := by
  have hmaps (h : s.rpc.maps = true) : ¬ (!s.rAttached) = true := by
    simp [hs.readerMaps h]
  have hsound := hs.reader
  cases reply with
  | fail => exact absurd rfl hsmooth
  | count n =>
      cases hpc : s.rpc <;> simp only [readerNext, hpc, reduceCtorEq] at h
      rw [hpc] at hmaps
      have hcount : (n : Int) = s.seg.cnt := hsmooth
      rw [if_neg (hmaps rfl), if_neg (by omega), if_pos hcount] at h
      exact Option.some.inj h ▸ .drains hpc hcount
  | ok =>
      cases hpc : s.rpc <;>
        simp only [readerNext, hpc, reduceCtorEq] at h <;>
        rw [hpc] at hmaps hsound
      case semget =>
        cases hset : s.set <;> simp only [hset, reduceCtorEq] at h
        exact Option.some.inj h ▸ .finds hpc hset
      case shmget =>
        obtain ⟨hkey, rfl⟩ := guarded_eq_some.mp h
        exact .enters hpc hkey
      case shmat => exact Option.some.inj h ▸ .attaches hpc
      case waitRead =>
        obtain ⟨write, read, value, hset, hvalue, rfl⟩ := semop_readSem.mp h
        obtain ⟨rfl, rfl⟩ := semApply_wait.mp hvalue
        exact .waits hpc hset
      case testEnd =>
        rw [if_neg (hmaps rfl)] at h
        split at h <;> obtain rfl := Option.some.inj h
        · exact .ends hpc (by assumption)
        · exact .goesOn hpc (by assumption)
      case account =>
        rw [if_neg (hmaps rfl)] at h
        exact Option.some.inj h ▸ .accounts hpc
      case releaseWrite =>
        obtain ⟨write, read, value, hset, hvalue, rfl⟩ := semop_writeSem.mp h
        obtain rfl := semApply_take.mp hvalue
        exact .releases hpc hset
      case setRead =>
        obtain ⟨write, read, value, hset, hvalue, rfl⟩ := semop_readSem.mp h
        obtain rfl := semApply_give.mp hvalue
        exact .pays hpc hset
      case shmdt =>
        obtain ⟨-, rfl⟩ := guarded_eq_some.mp h
        exact .detaches hpc
      case clearShmp => exact Option.some.inj h ▸ .clears hpc
      case releaseLast =>
        obtain ⟨write, read, value, hset, hvalue, rfl⟩ := semop_writeSem.mp h
        obtain rfl := semApply_take.mp hvalue
        exact .leaves hpc hset
      case bye => exact Option.some.inj h ▸ .speaks hpc
      case returned code =>
        obtain rfl : code = 0 := by simpa [ReaderPc.sound] using hsound
        exact Option.some.inj h ▸ .exits hpc

/-- Where the writer goes on without touching what the two rely on. -/
theorem Equipped.writer_goes {pc : WriterPc} (hs : Equipped s)
    (hpc : s.wpc.holdsSegment = true) (hsound : pc.sound = true)
    (hmaps : pc.maps = true → s.wpc.maps = true) (hexit : pc ≠ .exited 0) :
    Equipped { s with wpc := pc } where
  writer := hsound
  reader := hs.reader
  set _ := hs.set (by cases hs : s.wpc <;> simp_all [WriterPc.holdsSegment])
  segment _ := hs.segment hpc
  writerMaps h := hs.writerMaps (hmaps h)
  readerMaps := hs.readerMaps
  counted := hs.counted
  removed h := absurd h hexit

/-- A `semop` leaves the set where it is. -/
theorem Equipped.semop (hs : Equipped s) {write read write' read' : ℕ}
    {full : Bool} (hset : s.set = .live write read) :
    Equipped { s with set := .live write' read', full } where
  writer := hs.writer
  reader := hs.reader
  set h := ⟨⟨write', read', rfl⟩, (hs.set h).2⟩
  segment := hs.segment
  writerMaps := hs.writerMaps
  readerMaps := hs.readerMaps
  counted := hs.counted
  removed h := absurd (hs.removed h).1 (by simp [hset])

theorem Equipped.reader_goes {pc : ReaderPc} (hs : Equipped s)
    (hsound : pc.sound = true)
    (hmaps : pc.maps = true → s.rpc.maps = true) :
    Equipped { s with rpc := pc } where
  writer := hs.writer
  reader := hsound
  set := hs.set
  segment := hs.segment
  writerMaps := hs.writerMaps
  readerMaps h := hs.readerMaps (hmaps h)
  counted := hs.counted
  removed := hs.removed

theorem WriterMove.equipped (h : WriterMove stdin s t) (hs : Equipped s) :
    Equipped t := by
  have goes {s : State} {pc pc' : WriterPc} (hs : Equipped s)
      (hpc : s.wpc = pc) (hpc' : pc.holdsSegment = true ∧ pc'.sound = true ∧
        (pc'.maps = true → pc.maps = true) ∧ pc' ≠ .exited 0) :
      Equipped { s with wpc := pc' } :=
    hs.writer_goes (hpc ▸ hpc'.1) hpc'.2.1 (hpc ▸ hpc'.2.2.1) hpc'.2.2.2
  cases h with
  | creates hpc =>
      exact { hs with
        writer := rfl
        set := fun _ => ⟨⟨0, 0, rfl⟩, rfl⟩
        segment := by simp [WriterPc.holdsSegment]
        writerMaps := by simp [WriterPc.maps, WriterPc.holdsSegment]
        removed := by simp }
  | initialises hpc =>
      exact { hs with
        writer := rfl
        set := fun _ => ⟨⟨0, 1, rfl⟩, (hs.set (by rw [hpc]; rfl)).2⟩
        segment := by simp [WriterPc.holdsSegment]
        writerMaps := by simp [WriterPc.maps, WriterPc.holdsSegment]
        removed := by simp }
  | places hpc =>
      exact { hs with
        writer := rfl
        set := fun _ => hs.set (by rw [hpc]; rfl)
        segment := fun _ => ⟨rfl, rfl⟩
        writerMaps := by simp [WriterPc.maps]
        removed := by simp }
  | attaches hpc =>
      exact { hs with
        writer := rfl
        set := fun _ => hs.set (by rw [hpc]; rfl)
        segment := fun _ => hs.segment (by rw [hpc]; rfl)
        writerMaps := fun _ => rfl
        removed := by simp }
  | fills hpc hread =>
      have hread : Equipped { s with wpc := .checkRead } :=
        goes hs hpc (by decide)
      exact { hread with counted := Int.natCast_nonneg _ }
  | exits hpc =>
      have hset := hs.set (by rw [hpc]; rfl)
      have hsegment := hs.segment (by rw [hpc]; rfl)
      obtain ⟨⟨write, read, hlive⟩, hsemid⟩ := hset
      exact { hs with
        writer := rfl
        set := by simp [WriterPc.holdsSet]
        segment := by simp [WriterPc.holdsSegment, WriterPc.holdsSet]
        writerMaps := by
          simp [WriterPc.maps, WriterPc.holdsSegment, WriterPc.holdsSet]
        removed := fun _ => by
          simp [State.release, hlive, hsemid, hsegment, SemSet.remove] }
  | waits hpc hset => exact goes (hs.semop hset) hpc (by decide)
  | publishes hpc hset => exact goes (hs.semop hset) hpc (by decide)
  | pays hpc hset => exact goes (hs.semop hset) hpc (by decide)
  | finishes hpc hset => exact goes (hs.semop hset) hpc (by decide)
  | checks hpc | accounts hpc => exact goes hs hpc (by decide)
  | ends hpc hcnt | goesOn hpc hcnt => exact goes hs hpc (by decide)

theorem ReaderMove.equipped (h : ReaderMove s t) (hs : Equipped s) :
    Equipped t := by
  have goes {s : State} {pc pc' : ReaderPc} (hs : Equipped s)
      (hpc : s.rpc = pc) (hpc' : pc'.sound = true ∧
        (pc'.maps = true → pc.maps = true)) :
      Equipped { s with rpc := pc' } :=
    hs.reader_goes hpc'.1 (hpc ▸ hpc'.2)
  cases h with
  | finds hpc hset | pays hpc hset => exact goes (hs.semop hset) hpc (by decide)
  | waits hpc hset => exact goes (hs.semop hset) hpc (by decide)
  | enters hpc hkey => exact goes hs hpc (by decide)
  | attaches hpc =>
      exact { hs with
        reader := rfl
        readerMaps := fun _ => rfl }
  | ends hpc hcnt | goesOn hpc hcnt => exact goes hs hpc (by decide)
  | accounts hpc => exact goes hs hpc (by decide)
  | drains hpc hcount =>
      have hdrained : Equipped { s with rpc := .releaseWrite } :=
        goes hs hpc (by decide)
      exact { hdrained with }
  | releases hpc hset | leaves hpc hset =>
      exact goes (hs.semop hset) hpc (by decide)
  | detaches hpc | clears hpc | speaks hpc | exits hpc =>
      exact { hs with
        reader := rfl
        readerMaps := by simp [ReaderPc.maps, ReaderPc.running] }

/-- The writer has published its last block. -/
def WriterPc.published : WriterPc → Bool
  | .setWrite | .testEnd | .waitFinish | .returned _ | .exited _ => true
  | _ => false

/-- The writer has seen its own end of file. -/
def WriterPc.finishing : WriterPc → Bool
  | .waitFinish | .returned _ | .exited _ => true
  | _ => false

/-- The reader has a block in its hands. -/
def ReaderPc.serves : ReaderPc → Bool
  | .account | .write | .releaseWrite => true
  | _ => false

/-- The reader has given back the buffer for the last time. -/
def ReaderPc.gone : ReaderPc → Bool
  | .bye | .returned _ | .exited _ => true
  | _ => false

/-- The end of file changes hands like a block, and the writer does not return
before it has been taken. -/
structure Parting (s : State) : Prop where
  serves : s.rpc.serves = true → [] ∉ s.filled
  finishing : s.wpc.finishing = true → s.seg.cnt = 0 ∧ [] ∈ s.filled
  gone : s.rpc.gone = true → s.wpc.published = true ∧ s.full = false
  published : [] ∈ s.filled → s.wpc.published = true →
    s.full = true ∨ s.rpc.gone = true
  awaited : s.wpc = .returned 0 ∨ s.wpc = .exited 0 → s.rpc.gone = true

theorem start_parting : Parting start := by
  constructor <;> simp [start, ReaderPc.serves, WriterPc.finishing,
    ReaderPc.gone]

/-- What the parting is about, program counters apart. -/
def State.parting (s : State) : Shmseg × List (List Byte) × Bool :=
  (s.seg, s.filled, s.full)

/-- A writer that stays on its side of the publication. -/
theorem Parting.writer_goes (hs : Parting s)
    (hparting : t.parting = s.parting) (hrpc : t.rpc = s.rpc)
    (hpublished : t.wpc.published = s.wpc.published)
    (hfinishing : t.wpc.finishing = true → s.seg.cnt = 0 ∧ [] ∈ s.filled)
    (hawaited : t.wpc = .returned 0 ∨ t.wpc = .exited 0 →
      s.rpc.gone = true) : Parting t := by
  simp only [State.parting, Prod.mk.injEq] at hparting
  obtain ⟨hseg, hfilled, hfull⟩ := hparting
  constructor
  · rw [hrpc, hfilled]
    exact hs.serves
  · rw [hseg, hfilled]
    exact hfinishing
  · rw [hrpc, hpublished, hfull]
    exact hs.gone
  · rw [hfilled, hpublished, hfull, hrpc]
    exact hs.published
  · rw [hrpc]
    exact hawaited

/-- Before the publication of its last block the writer still has a reader. -/
theorem Parting.of_unpublished (hstays : s.rpc.gone = false)
    (hpublished : s.wpc.published = false)
    (hserves : s.rpc.serves = true → [] ∉ s.filled) : Parting s where
  serves := hserves
  finishing h := by
    cases hpc : s.wpc <;>
      simp_all [WriterPc.published, WriterPc.finishing]
  gone h := absurd h (by simp [hstays])
  published _ h := absurd h (by simp [hpublished])
  awaited h := by
    rcases h with h | h <;> simp [h, WriterPc.published] at hpublished

theorem Parting.stays (hs : Parting s) (h : s.wpc.published = false) :
    s.rpc.gone = false := by
  by_contra hgone
  have hpublished := (hs.gone (Bool.not_eq_false _ ▸ hgone)).1
  simp [h] at hpublished

theorem Parting.reader_goes (hs : Parting s)
    (hparting : t.parting = s.parting) (hwpc : t.wpc = s.wpc)
    (hgone : t.rpc.gone = s.rpc.gone)
    (hserves : t.rpc.serves = true → [] ∉ s.filled) : Parting t := by
  simp only [State.parting, Prod.mk.injEq] at hparting
  obtain ⟨hseg, hfilled, hfull⟩ := hparting
  constructor
  · rw [hfilled]
    exact hserves
  · rw [hwpc, hseg, hfilled]
    exact hs.finishing
  · rw [hgone, hwpc, hfull]
    exact hs.gone
  · rw [hfilled, hwpc, hfull, hgone]
    exact hs.published
  · rw [hwpc, hgone]
    exact hs.awaited

/-- The last block is the end of file exactly if it is empty. -/
theorem LastStored.mem_iff (h : LastStored s) :
    [] ∈ s.filled ↔ s.seg.cnt = 0 := by
  obtain ⟨earlier, block, hfilled, hne, hcnt⟩ := h
  rw [hfilled, hcnt]
  cases block <;> simp [hne]
  omega

theorem ReaderPc.ending_of_gone {pc : ReaderPc} (hsound : pc.sound = true)
    (hgone : pc.gone = true) : pc.ending = true := by
  cases pc <;> simp_all [sound, gone, ending]

theorem WriterMove.parting (h : WriterMove stdin s t) (hs : Inv stdin s)
    (he : Equipped s) (hp : Parting s) : Parting t := by
  have stays {pc : WriterPc} (hpc : s.wpc = pc)
      (hfrom : pc.published = false) : s.rpc.gone = false :=
    hp.stays (hpc ▸ hfrom)
  cases h with
  | creates hpc | initialises hpc | places hpc | attaches hpc =>
      exact .of_unpublished (stays hpc rfl) rfl hp.serves
  | waits hpc hset =>
      exact .of_unpublished (stays hpc rfl) rfl hp.serves
  | checks hpc | accounts hpc =>
      exact .of_unpublished (stays hpc rfl) rfl hp.serves
  | fills hpc hread =>
      refine .of_unpublished (stays hpc rfl) rfl fun hserves => ?_
      have hfull := hs.sync.writerOwns (by rw [hpc]; rfl)
      have howns : s.rpc.owns = true := by
        cases hrpc : s.rpc <;> simp_all [ReaderPc.serves, ReaderPc.owns]
      rw [hs.sync.readerOwns howns] at hfull
      cases hfull
  | publishes hpc hset =>
      have hgone := stays hpc rfl
      exact { hp with
        finishing := by simp [WriterPc.finishing]
        gone := fun h => absurd h (by simp [hgone])
        published := fun _ _ => Or.inl rfl
        awaited := by simp }
  | pays hpc hset =>
      exact hp.writer_goes rfl rfl (by rw [hpc]; rfl)
        (by simp [WriterPc.finishing]) (by simp)
  | ends hpc hcnt =>
      have hlast := hs.transfer.writer.keeps (by rw [hpc]; rfl)
      exact hp.writer_goes rfl rfl (by rw [hpc]; rfl)
        (fun _ => ⟨hcnt, hlast.mem_iff.mpr hcnt⟩) (by simp)
  | goesOn hpc hcnt =>
      have hlast := hs.transfer.writer.keeps (by rw [hpc]; rfl)
      have hstays : s.rpc.gone = false := by
        by_contra hgone
        have hending : s.rpc.ending = true :=
          ReaderPc.ending_of_gone he.reader (Bool.not_eq_false _ ▸ hgone)
        have hfilled := hs.transfer.reader.ending hending
        exact hcnt (hlast.mem_iff.mp (by simp [hfilled]))
      exact .of_unpublished hstays rfl hp.serves
  | finishes hpc hset =>
      have hlast := hp.finishing (by rw [hpc]; rfl)
      refine hp.writer_goes rfl rfl (by rw [hpc]; rfl) (fun _ => hlast)
        fun _ => ?_
      refine (hp.published hlast.2 (by rw [hpc]; rfl)).resolve_left ?_
      have hrun : s.wpc.running = true := by rw [hpc]; rfl
      have hcount := (hs.sync.balanced_of_writer hrun hset).write_eq hrun
      simpa [hpc, WriterPc.debt] using hcount.symm
  | exits hpc =>
      exact hp.writer_goes rfl rfl (by rw [hpc]; rfl)
        (fun _ => hp.finishing (by rw [hpc]; rfl))
        (fun _ => hp.awaited (Or.inl hpc))

/-- A reader that has met the end of file and still holds the buffer knows
where the writer is. -/
theorem Inv.published (hs : Inv stdin s) (he : Equipped s)
    (howns : s.rpc.owns = true) (hend : [] ∈ s.filled) :
    s.wpc.published = true := by
  have hfull := hs.sync.readerOwns howns
  have hasks := mt hs.transfer.writer.asks (not_not_intro hend)
  have howns := mt hs.sync.writerOwns (by simp [hfull])
  have hsound := he.writer
  cases hpc : s.wpc <;>
    simp_all [WriterPc.asks, WriterPc.owns, WriterPc.published,
      WriterPc.sound]

/-- While the reader holds a block, the segment says whether it is the end of
file. -/
theorem Inv.not_mem_of_cnt (hs : Inv stdin s) (he : Equipped s)
    (hp : Parting s) (howns : s.rpc.owns = true) (hcnt : s.seg.cnt ≠ 0) :
    [] ∉ s.filled := by
  intro hend
  have hpublished := hs.published he howns hend
  cases hfinishing : s.wpc.finishing with
  | true => exact hcnt (hp.finishing hfinishing).1
  | false =>
      have hkeeps : s.wpc.keeps = true := by
        cases hpc : s.wpc <;>
          simp_all [WriterPc.published, WriterPc.finishing, WriterPc.keeps]
      exact hcnt ((hs.transfer.writer.keeps hkeeps).mem_iff.mp hend)

theorem ReaderMove.parting (h : ReaderMove s t) (hs : Inv stdin s)
    (he : Equipped s) (hp : Parting s) : Parting t := by
  cases h with
  | finds hpc hset | waits hpc hset | pays hpc hset =>
      exact hp.reader_goes rfl rfl (by rw [hpc]; rfl)
        (by simp [ReaderPc.serves])
  | enters hpc hkey | ends hpc hcnt =>
      exact hp.reader_goes rfl rfl (by rw [hpc]; rfl)
        (by simp [ReaderPc.serves])
  | attaches hpc | detaches hpc | clears hpc | speaks hpc | exits hpc =>
      exact hp.reader_goes rfl rfl (by rw [hpc]; rfl)
        (by simp [ReaderPc.serves])
  | goesOn hpc hcnt =>
      exact hp.reader_goes rfl rfl (by rw [hpc]; rfl)
        fun _ => hs.not_mem_of_cnt he hp (by rw [hpc]; rfl) hcnt
  | accounts hpc | drains hpc hcount =>
      exact hp.reader_goes rfl rfl (by rw [hpc]; rfl)
        fun _ => hp.serves (by rw [hpc]; rfl)
  | releases hpc hset =>
      have hnew := hp.serves (by rw [hpc]; rfl)
      exact { hp with
        serves := by simp [ReaderPc.serves]
        gone := by simp [ReaderPc.gone]
        published := fun h => absurd h hnew
        awaited := fun h => by
          have hgone := hp.awaited h
          rw [hpc] at hgone
          cases hgone }
  | leaves hpc hset =>
      have hfilled := hs.transfer.reader.ending (by rw [hpc]; rfl)
      have hpublished := hs.published he (by rw [hpc]; rfl) (by simp [hfilled])
      exact { hp with
        serves := by simp [ReaderPc.serves]
        gone := fun _ => ⟨hpublished, rfl⟩
        published := fun _ _ => Or.inr rfl
        awaited := fun _ => rfl }

/-- The state of a transfer in which nothing has gone wrong. -/
structure Orderly (stdin : ByteStream) (s : State) : Prop where
  inv : Inv stdin s
  equipped : Equipped s
  parting : Parting s

theorem start_orderly (stdin : ByteStream) : Orderly stdin start :=
  ⟨start_inv stdin, start_equipped, start_parting⟩

/-- A smooth step is a move of the writer or of the reader. -/
theorem Orderly.move {label : Label} (hs : Orderly stdin s)
    (hsmooth : Smooth s label) (h : next stdin s label = some t) :
    WriterMove stdin s t ∨ ReaderMove s t := by
  cases label with
  | writer reply => exact Or.inl (hs.equipped.writerMove hsmooth h)
  | reader reply => exact Or.inr (hs.equipped.readerMove hsmooth h)
  | writerSignal | readerSignal => exact hsmooth.elim

theorem Orderly.step {label : Label} (hs : Orderly stdin s)
    (hsmooth : Smooth s label) (h : next stdin s label = some t) :
    Orderly stdin t := by
  have hinv := next_inv s label t hs.inv h
  rcases hs.move hsmooth h with hmove | hmove
  · exact ⟨hinv, hmove.equipped hs.equipped,
      hmove.parting hs.inv hs.equipped hs.parting⟩
  · exact ⟨hinv, hmove.equipped hs.equipped,
      hmove.parting hs.inv hs.equipped hs.parting⟩

/-! ### How long it takes -/

def WriterPc.work : WriterPc → ℕ
  | .checkRead => 6
  | .releaseRead | .semget => 5
  | .setWrite | .setall => 4
  | .testEnd | .shmget => 3
  | .waitFinish | .account | .shmat => 2
  | .waitWrite | .returned _ => 1
  | .read | .exited _ | .crashed => 0

def ReaderPc.work : ReaderPc → ℕ
  | .semget => 10
  | .releaseWrite | .shmget => 9
  | .setRead | .shmat => 8
  | .waitRead => 7
  | .testEnd => 6
  | .shmdt => 5
  | .clearShmp => 4
  | .releaseLast => 3
  | .bye => 2
  | .account | .returned _ => 1
  | .write | .exited _ | .crashed => 0

/-- The calls that are left with at most `size` bytes of input. -/
def State.work (size : ℕ) (s : State) : ℕ :=
  7 * (size + 1 - s.filled.length) + s.wpc.work +
    10 * (size + 1 - s.drained.length) + s.rpc.work

theorem length_le_flatten {blocks : List (List Byte)} (h : [] ∉ blocks) :
    blocks.length ≤ blocks.flatten.length := by
  rw [List.length_flatten, ← List.length_map List.length]
  apply List.length_le_sum_of_one_le
  intro n hn
  obtain ⟨block, hblock, rfl⟩ := List.mem_map.mp hn
  exact List.length_pos_iff.mpr fun hnil => h (hnil ▸ hblock)

/-- As long as the end of file has not come, no block has been empty. -/
theorem Inv.filled_le {size : ℕ} (hs : Inv stdin s)
    (hend : stdin size = none) (h : [] ∉ s.filled) :
    s.filled.length ≤ size := by
  have hconsumed := bytesAt_le_of_none hs.transfer.history.input hend
  rw [hs.transfer.history.consumed] at hconsumed
  exact (length_le_flatten h).trans hconsumed

theorem WriterMove.work {size : ℕ} (h : WriterMove stdin s t)
    (hs : Inv stdin s) (hend : stdin size = none) :
    t.work size < s.work size := by
  cases h with
  | fills hpc hread =>
      have hnew := hs.transfer.writer.asks (by rw [hpc]; rfl)
      have hle := hs.filled_le hend hnew
      simp only [State.work, WriterPc.work, hpc, List.length_append,
        List.length_singleton]
      omega
  | exits hpc => simp [State.work, WriterPc.work, State.release, hpc]
  | creates hpc | initialises hpc | places hpc | attaches hpc | checks hpc
  | accounts hpc => simp [State.work, WriterPc.work, hpc]
  | waits hpc hset | publishes hpc hset | pays hpc hset | finishes hpc hset =>
      simp [State.work, WriterPc.work, hpc]
  | ends hpc hcnt | goesOn hpc hcnt => simp [State.work, WriterPc.work, hpc]

theorem ReaderMove.work {size : ℕ} (h : ReaderMove s t) (hs : Inv stdin s)
    (hp : Parting s) (hend : stdin size = none) :
    t.work size < s.work size := by
  cases h with
  | drains hpc hcount =>
      obtain ⟨block, hfilled, -⟩ :=
        hs.transfer.take hs.sync hpc (Int.le_of_eq hcount)
      have hle := hs.filled_le hend (hp.serves (by rw [hpc]; rfl))
      rw [hfilled, List.length_append, List.length_singleton] at hle
      simp only [State.work, ReaderPc.work, hpc, List.length_append,
        List.length_singleton]
      omega
  | exits hpc => simp [State.work, ReaderPc.work, State.detach, hpc]
  | finds hpc hset | waits hpc hset | pays hpc hset | releases hpc hset
  | leaves hpc hset => simp [State.work, ReaderPc.work, hpc]
  | enters hpc hkey => simp [State.work, ReaderPc.work, hpc]
  | ends hpc hcnt | goesOn hpc hcnt => simp [State.work, ReaderPc.work, hpc]
  | attaches hpc | accounts hpc | detaches hpc | clears hpc | speaks hpc =>
      simp [State.work, ReaderPc.work, hpc]

/-! ### Until then somebody can go on -/

/-- A writer that can not go on waits for the reader, or has exited. -/
theorem Equipped.writer_can (he : Equipped s) (stdin : ByteStream) :
    WriterBlocked stdin s ∨ s.wpc = .exited 0 ∨
      ∃ reply, reply ≠ .fail ∧ (writerNext stdin s reply).isSome = true := by
  have hmaps := he.writerMaps
  have hset := he.set
  have hsound := he.writer
  cases hpc : s.wpc <;> rw [hpc] at hmaps hset hsound
  case read =>
    obtain ⟨count, block, hcount, hread⟩ :=
      exists_readAt stdin s.consumed.length
    have hsize : ¬ bufSize < count := by
      rw [bufSize]
      omega
    exact Or.inr (Or.inr ⟨.count count, by simp,
      by simp [writerNext, hpc, hmaps rfl, hsize, hread]⟩)
  case exited code =>
    exact Or.inr (Or.inl (by simpa [WriterPc.sound] using hsound))
  case crashed => cases hsound
  case waitWrite | releaseRead | setWrite | waitFinish =>
    cases hnext : writerNext stdin s .ok with
    | none =>
        exact Or.inl ⟨by rw [hpc]; rfl, (hset rfl).1, hnext⟩
    | some t =>
        exact Or.inr (Or.inr ⟨.ok, by simp, by rw [hnext]; rfl⟩)
  case setall =>
    obtain ⟨⟨write, read, hlive⟩, -⟩ := hset rfl
    exact Or.inr (Or.inr ⟨.ok, by simp, by simp [writerNext, hpc, hlive]⟩)
  case checkRead | testEnd | account =>
    refine Or.inr (Or.inr ⟨.ok, by simp, ?_⟩)
    simp only [writerNext, hpc, hmaps rfl]
    simp [apply_ite Option.isSome]
  case semget | shmget | shmat | returned =>
    exact Or.inr (Or.inr ⟨.ok, by simp, by simp [writerNext, hpc]⟩)

/-- A reader that can not go on waits for the writer, or has exited. -/
theorem Equipped.reader_can (he : Equipped s)
    (hlive : s.rpc.gone = false → ∃ write read, s.set = .live write read)
    (hkey : s.rpc.gone = false → s.shmKey = true) :
    ReaderBlocked s ∨ s.rpc = .exited 0 ∨
      ∃ reply, Smooth s (.reader reply) ∧
        (readerNext s reply).isSome = true := by
  have hmaps := he.readerMaps
  have hsound := he.reader
  cases hpc : s.rpc <;> rw [hpc] at hmaps hsound hlive hkey
  case write =>
    have hcounted := he.counted
    have hcount : (s.seg.cnt.toNat : Int) = s.seg.cnt :=
      Int.toNat_of_nonneg hcounted
    exact Or.inr (Or.inr ⟨.count s.seg.cnt.toNat, hcount,
      by simp [readerNext, hpc, hmaps rfl, hcount]⟩)
  case exited code =>
    exact Or.inr (Or.inl (by simpa [ReaderPc.sound] using hsound))
  case crashed => cases hsound
  case waitRead | releaseWrite | setRead | releaseLast =>
    cases hnext : readerNext s .ok with
    | none =>
        exact Or.inl ⟨by rw [hpc]; rfl, hlive rfl, hnext⟩
    | some t =>
        exact Or.inr (Or.inr ⟨.ok, by simp [Smooth], by rw [hnext]; rfl⟩)
  case semget =>
    obtain ⟨write, read, hset⟩ := hlive rfl
    exact Or.inr (Or.inr ⟨.ok, by simp [Smooth],
      by simp [readerNext, hpc, hset]⟩)
  case shmget =>
    exact Or.inr (Or.inr ⟨.ok, by simp [Smooth],
      by simp [readerNext, hpc, hkey rfl]⟩)
  case testEnd | account =>
    refine Or.inr (Or.inr ⟨.ok, by simp [Smooth], ?_⟩)
    simp only [readerNext, hpc, hmaps rfl]
    simp [apply_ite Option.isSome]
  case shmdt =>
    exact Or.inr (Or.inr ⟨.ok, by simp [Smooth],
      by simp [readerNext, hpc, hmaps rfl]⟩)
  case shmat | clearShmp | bye | returned =>
    exact Or.inr (Or.inr ⟨.ok, by simp [Smooth], by simp [readerNext, hpc]⟩)

theorem WriterBlocked.holdsSegment (h : WriterBlocked stdin s) :
    s.wpc.holdsSegment = true := by
  have hsemop := h.1
  cases hpc : s.wpc <;> rw [hpc] at hsemop <;> first | rfl | cases hsemop

/-- The writer never waits for a reader that has gone. -/
theorem Orderly.not_blocked (hs : Orderly stdin s)
    (hblocked : WriterBlocked stdin s) : s.rpc.gone = false := by
  by_contra hgone
  obtain ⟨hpublished, hfull⟩ := hs.parting.gone (Bool.not_eq_false _ ▸ hgone)
  obtain ⟨write, read, hset⟩ := hblocked.2.1
  obtain ⟨hrun, hvalue⟩ := hblocked.value hset
  have hcount := (hs.inv.sync.balanced_of_writer hrun hset).write_eq hrun
  rw [hfull, Bool.toNat_false] at hcount
  rcases hvalue with ⟨hwrite, -⟩ | ⟨howns, -⟩
  · omega
  · cases hpc : s.wpc <;>
      simp [hpc, WriterPc.owns, WriterPc.published] at howns hpublished

/-- Both have exited with 0, the objects are removed, and the reader's standard
output is the whole input with the farewell behind it. -/
structure Ended (stdin : ByteStream) (s : State) : Prop where
  exited : s.wpc = .exited 0 ∧ s.rpc = .exited 0
  removed : s.set = .removed ∧ s.shmKey = false
  whole : WholeInput stdin s.written
  stdout : s.stdout = s.written ++ text "reader: bye!"

theorem Orderly.ended (hs : Orderly stdin s) (hwriter : s.wpc = .exited 0)
    (hreader : s.rpc = .exited 0) : Ended stdin s := by
  have hh := hs.inv.transfer.history
  have hfilled := hs.inv.transfer.reader.ending (by rw [hreader]; rfl)
  have hwritten : s.written = s.consumed := by
    rw [hs.inv.transfer.reader.written (by rw [hreader]; rfl), hh.consumed,
      hfilled]
    simp
  have htext : s.rText = text "reader: bye!" := by
    have hspoken := hs.inv.spoken
    rw [Spoken, hreader] at hspoken
    exact hspoken rfl
  refine ⟨⟨hwriter, hreader⟩, hs.equipped.removed hwriter, ?_, ?_⟩
  · rw [WholeInput, hwritten]
    exact ⟨hh.input, hh.ended (by simp [hfilled])⟩
  · rw [State.stdout, htext]

/-- Somebody can go on until both have exited. -/
theorem Orderly.exists_step (hs : Orderly stdin s) (hgoes : ¬ Ended stdin s) :
    ∃ label, Smooth s label ∧ (next stdin s label).isSome = true := by
  have he := hs.equipped
  rcases he.writer_can stdin with hblocked | hexited | hmove
  · have hstays := hs.not_blocked hblocked
    have hreader := he.reader_can (fun _ => hblocked.2.1)
      fun _ => (he.segment hblocked.holdsSegment).1
    rcases hreader with hreader | hreader | ⟨reply, hsmooth, hnext⟩
    · exact absurd hreader (hs.inv.sync.not_both_blocked hblocked)
    · simp [hreader, ReaderPc.gone] at hstays
    · exact ⟨.reader reply, hsmooth, hnext⟩
  · have hgone := hs.parting.awaited (Or.inr hexited)
    have hreader := he.reader_can (fun h => absurd hgone (by simp [h]))
      fun h => absurd hgone (by simp [h])
    rcases hreader with hreader | hreader | ⟨reply, hsmooth, hnext⟩
    · obtain ⟨write, read, hset⟩ := hreader.2.1
      exact absurd (he.removed hexited).1 (by simp [hset])
    · exact absurd (hs.ended hexited hreader) hgoes
    · exact ⟨.reader reply, hsmooth, hnext⟩
  · obtain ⟨reply, hreply, hnext⟩ := hmove
    exact ⟨.writer reply, hreply, hnext⟩

/-- Where no call fails and no signal arrives, and the input comes to an end,
the transfer ends, however the two processes take turns: after at most
`17 * size + 32` calls both have exited with 0 and the whole input has been
written out, and at no earlier point are both of them stuck. -/
theorem transfer_ends {size : ℕ} {labels : List Label}
    (hend : stdin size = none)
    (hrun : exec (next stdin) start labels = some s)
    (hsmooth : EachStep (next stdin) (fun s label _ => Smooth s label) start
      labels) :
    labels.length ≤ 17 * size + 32 ∧
      (∃ rest t, exec (next stdin) s rest = some t ∧
        EachStep (next stdin) (fun s label _ => Smooth s label) s rest ∧
        Ended stdin t) ∧
      ((∀ label, Smooth s label → next stdin s label = none) →
        Ended stdin s) := by
  have hkeep (s : State) (label : Label) (t : State) (_ : True)
      (hs : Orderly stdin s)
      (h : guardedBy (next stdin) Smooth s label = some t) :
      Orderly stdin t := by
    obtain ⟨hlabel, hnext⟩ := guardedBy_eq_some.mp h
    exact hs.step hlabel hnext
  have hdrop (s : State) (label : Label) (t : State) (_ : True)
      (hs : Orderly stdin s)
      (h : guardedBy (next stdin) Smooth s label = some t) :
      t.work size < s.work size := by
    obtain ⟨hlabel, hnext⟩ := guardedBy_eq_some.mp h
    rcases hs.move hlabel hnext with hmove | hmove
    · exact hmove.work hs.inv hend
    · exact hmove.work hs.inv hs.parting hend
  have hgo (s : State) (hs : Orderly stdin s) (hgoes : ¬ Ended stdin s) :
      ∃ label, True ∧
        (guardedBy (next stdin) Smooth s label).isSome = true := by
    obtain ⟨label, hlabel, hnext⟩ := hs.exists_step hgoes
    exact ⟨label, trivial, by rw [guardedBy, if_pos hlabel, hnext]⟩
  have hguarded := exec_guardedBy_iff.mpr ⟨hrun, hsmooth⟩
  have hall (labels : List Label) : ∀ label ∈ labels, True := fun _ _ => trivial
  have hstart := start_orderly stdin
  have hs := exec_invariant_of_labels hkeep (hall labels) hstart hguarded
  refine ⟨?_, ?_, fun hstuck => ?_⟩
  · have hlength := exec_length_le hkeep hdrop (hall labels) hstart hguarded
    simp only [State.work, start, List.length_nil, WriterPc.work,
      ReaderPc.work] at hlength
    omega
  · obtain ⟨rest, t, -, hrest, -, hended⟩ :=
      exists_completion hkeep hdrop hgo hs
    obtain ⟨hlater, hsteps⟩ := exec_guardedBy_iff.mp hrest
    exact ⟨rest, t, hlater, hsteps, hended⟩
  · by_contra hgoes
    obtain ⟨label, hlabel, hnext⟩ := hs.exists_step hgoes
    rw [hstuck label hlabel] at hnext
    cases hnext

/-- The input `a`. -/
def oneByte : ByteStream := fun i => if i = 0 then some 97 else none

/-- The writer has stored its byte and the reader has found the set. -/
def begun : List Label :=
  [.writer .ok, .writer .ok, .writer .ok, .reader .ok, .writer .ok,
    .writer .ok, .writer (.count 1)]

theorem transfer_ends_begun :
    ∃ rest t, exec (next oneByte)
      ((exec (next oneByte) start begun).get rfl) rest = some t ∧
      Ended oneByte t := by
  have hend : oneByte 1 = none := rfl
  have hrun : exec (next oneByte) start begun = some _ := rfl
  have hsmooth : EachStep (next oneByte)
      (fun s label _ => Smooth s label) start begun := by decide
  obtain ⟨rest, t, hlater, -, hended⟩ := (transfer_ends hend hrun hsmooth).2.1
  exact ⟨rest, t, hlater, hended⟩

end SysvShm

end MyFreeLib
