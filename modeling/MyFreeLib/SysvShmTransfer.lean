/-
What the exchange transfers.  The history invariant says that at most one
stored block is ever waiting, the writer's view says what it has stored, the
reader's view what it will find; ownership makes the two views agree.
-/
import MyFreeLib.Channels
import MyFreeLib.SysvShmHandshake

namespace MyFreeLib

namespace SysvShm

/-- The segment holds the block. -/
def Shmseg.Holds (seg : Shmseg) (block : List Byte) : Prop :=
  seg.cnt = block.length ∧ seg.buf.take block.length = block

/-- One stored block, still in the segment, has not been written out. -/
def Stored (s : State) : Prop :=
  ∃ block, s.filled = s.drained ++ [block] ∧ s.seg.Holds block

/-- `shmp->cnt` is the length of the last block, the only one that may be the
end of file. -/
def LastStored (s : State) : Prop :=
  ∃ earlier block, s.filled = earlier ++ [block] ∧ [] ∉ earlier ∧
    s.seg.cnt = block.length

/-- The writer may still come to another `read`. -/
def WriterPc.asks : WriterPc → Bool
  | .semget | .setall | .shmget | .shmat | .waitWrite | .read | .account => true
  | _ => false

/-- The writer has stored a block and may look at its count again. -/
def WriterPc.keeps : WriterPc → Bool
  | .releaseRead | .setWrite | .testEnd | .account => true
  | _ => false

/-- The reader has not written out the published block, if there is one. -/
def ReaderPc.undrained : ReaderPc → Bool
  | .semget | .shmget | .shmat | .waitRead | .testEnd | .account
  | .write => true
  | _ => false

/-- The reader has seen the end of file and not failed since. -/
def ReaderPc.ending : ReaderPc → Bool
  | .shmdt | .clearShmp | .releaseLast | .bye => true
  | .returned code | .exited code => code = 0
  | _ => false

/-- The reader has not failed. -/
def ReaderPc.sound : ReaderPc → Bool
  | .returned code | .exited code => code = 0
  | .crashed => false
  | _ => true

structure History (stdin : ByteStream) (s : State) : Prop where
  input : bytesAt stdin 0 s.consumed.length = some s.consumed
  consumed : s.consumed = s.filled.flatten
  ended : [] ∈ s.filled → stdin s.consumed.length = none
  lag : ∃ pending, s.filled = s.drained ++ pending ∧ pending.length ≤ 1
  written : s.written <+: s.filled.flatten

structure WriterView (s : State) : Prop where
  asks : s.wpc.asks = true → [] ∉ s.filled
  keeps : s.wpc.keeps = true → LastStored s
  checkRead : s.wpc = .checkRead →
    LastStored s ∧ Stored s ∨ s.seg.cnt = -1
  releaseRead : s.wpc = .releaseRead → Stored s
  released : s.full = false → s.wpc.asks = true ∨ s.wpc = .testEnd →
    s.filled = s.drained ∨ s.filled = s.drained ++ [[]]

structure ReaderView (s : State) : Prop where
  published : s.full = true → s.rpc.undrained = true → Stored s
  drained : s.rpc = .releaseWrite → s.filled = s.drained
  ending : s.rpc.ending = true → s.filled = s.drained ++ [[]]
  written : s.rpc.sound = true → s.written = s.drained.flatten

structure Transfer (stdin : ByteStream) (s : State) : Prop where
  history : History stdin s
  writer : WriterView s
  reader : ReaderView s

theorem start_transfer (stdin : ByteStream) : Transfer stdin start where
  history := by
    constructor <;> simp [start, bytesAt]
  writer := by
    constructor <;> simp [start, WriterPc.keeps]
  reader := by
    constructor <;> simp [start, ReaderPc.ending]

/-- The segment and the histories. -/
def State.data (s : State) :
    Shmseg × List Byte × List Byte × List (List Byte) × List (List Byte) :=
  (s.seg, s.consumed, s.written, s.filled, s.drained)

theorem Stored.congr {s t : State} (hdata : t.data = s.data)
    (h : Stored s) : Stored t := by
  simp only [State.data, Prod.mk.injEq] at hdata
  obtain ⟨hseg, -, -, hfilled, hdrained⟩ := hdata
  obtain ⟨block, heq, hholds⟩ := h
  exact ⟨block, by rw [hfilled, hdrained, heq], hseg ▸ hholds⟩

theorem LastStored.congr {s t : State} (hdata : t.data = s.data)
    (h : LastStored s) : LastStored t := by
  simp only [State.data, Prod.mk.injEq] at hdata
  obtain ⟨hseg, -, -, hfilled, -⟩ := hdata
  obtain ⟨earlier, block, heq, hne, hcnt⟩ := h
  exact ⟨earlier, block, hfilled.trans heq, hne, hseg ▸ hcnt⟩

theorem History.congr {stdin : ByteStream} {s t : State}
    (hdata : t.data = s.data) (h : History stdin s) : History stdin t := by
  simp only [State.data, Prod.mk.injEq] at hdata
  obtain ⟨-, hconsumed, hwritten, hfilled, hdrained⟩ := hdata
  constructor
  · rw [hconsumed]
    exact h.input
  · rw [hconsumed, hfilled]
    exact h.consumed
  · rw [hconsumed, hfilled]
    exact h.ended
  · rw [hfilled, hdrained]
    exact h.lag
  · rw [hwritten, hfilled]
    exact h.written

theorem ReaderView.congr {s t : State} (hdata : t.data = s.data)
    (hfull : t.full = s.full) (hrpc : t.rpc = s.rpc) (h : ReaderView s) :
    ReaderView t := by
  have hdata' := hdata
  simp only [State.data, Prod.mk.injEq] at hdata'
  obtain ⟨-, -, hwritten, hfilled, hdrained⟩ := hdata'
  constructor
  · rw [hfull, hrpc]
    exact fun hf hr => (h.published hf hr).congr hdata
  · rw [hrpc, hfilled, hdrained]
    exact h.drained
  · rw [hrpc, hfilled, hdrained]
    exact h.ending
  · rw [hrpc, hwritten, hdrained]
    exact h.written

theorem WriterView.congr {s t : State} (hdata : t.data = s.data)
    (hfull : t.full = s.full) (hwpc : t.wpc = s.wpc) (h : WriterView s) :
    WriterView t := by
  have hdata' := hdata
  simp only [State.data, Prod.mk.injEq] at hdata'
  obtain ⟨hseg, -, -, hfilled, hdrained⟩ := hdata'
  constructor
  · rw [hwpc, hfilled]
    exact h.asks
  · rw [hwpc]
    exact fun hk => (h.keeps hk).congr hdata
  · rw [hwpc, hseg]
    exact fun hc => (h.checkRead hc).imp
      (fun hs => ⟨hs.1.congr hdata, hs.2.congr hdata⟩) id
  · rw [hwpc]
    exact fun hr => (h.releaseRead hr).congr hdata
  · rw [hwpc, hfull, hfilled, hdrained]
    exact h.released

/-- A writer that will look at the segment no more promises nothing. -/
theorem WriterView.of_done {s : State} (hasks : s.wpc.asks = false)
    (hkeeps : s.wpc.keeps = false) (hcheck : s.wpc ≠ .checkRead) :
    WriterView s where
  asks h := absurd h (by simp [hasks])
  keeps h := absurd h (by simp [hkeeps])
  checkRead h := absurd h hcheck
  releaseRead h := absurd hkeeps (by simp [h, WriterPc.keeps])
  released _ h := by
    rcases h with h | h
    · exact absurd h (by simp [hasks])
    · exact absurd hkeeps (by simp [h, WriterPc.keeps])

/-- On its way to the next `read` the writer keeps what it knows. -/
theorem WriterView.of_asks {s t : State} (hs : WriterView s)
    (hdata : t.data = s.data) (hfull : t.full = s.full)
    (hfrom : s.wpc.asks = true) (hasks : t.wpc.asks = true)
    (hkeeps : t.wpc.keeps = false) : WriterView t := by
  simp only [State.data, Prod.mk.injEq] at hdata
  obtain ⟨-, -, -, hfilled, hdrained⟩ := hdata
  constructor
  · rw [hfilled]
    exact fun _ => hs.asks hfrom
  · exact fun h => absurd h (by simp [hkeeps])
  · exact fun h => absurd hasks (by simp [h, WriterPc.asks])
  · exact fun h => absurd hasks (by simp [h, WriterPc.asks])
  · rw [hfilled, hdrained, hfull]
    exact fun hf _ => hs.released hf (Or.inl hfrom)

/-- A reader that has failed promises nothing. -/
theorem ReaderView.of_failed {s : State} (hsound : s.rpc.sound = false) :
    ReaderView s := by
  have hno : s.rpc.undrained = false ∧ s.rpc ≠ .releaseWrite ∧
      s.rpc.ending = false := by
    cases hpc : s.rpc <;>
      simp_all [ReaderPc.sound, ReaderPc.undrained, ReaderPc.ending]
  exact ⟨fun _ h => absurd h (by simp [hno.1]), fun h => absurd h hno.2.1,
    fun h => absurd h (by simp [hno.2.2]), fun h => absurd h (by simp [hsound])⟩

variable {stdin : ByteStream}

/-- Steps of the writer that touch neither the data nor the reader. -/
theorem Transfer.writer_moves {s t : State} (hs : Transfer stdin s)
    (hdata : t.data = s.data) (hfull : t.full = s.full) (hrpc : t.rpc = s.rpc)
    (hview : WriterView t) : Transfer stdin t :=
  ⟨hs.history.congr hdata, hview, hs.reader.congr hdata hfull hrpc⟩

/-- A step of the writer on its way to the next `read`. -/
theorem Transfer.writer_asks {s t : State} (hs : Transfer stdin s)
    (hdata : t.data = s.data) (hfull : t.full = s.full) (hrpc : t.rpc = s.rpc)
    (hfrom : s.wpc.asks = true) (hasks : t.wpc.asks = true)
    (hkeeps : t.wpc.keeps = false) : Transfer stdin t :=
  hs.writer_moves hdata hfull hrpc
    (hs.writer.of_asks hdata hfull hfrom hasks hkeeps)

/-- Steps of the reader that touch neither the data nor the writer. -/
theorem Transfer.reader_moves {s t : State} (hs : Transfer stdin s)
    (hdata : t.data = s.data) (hfull : t.full = s.full) (hwpc : t.wpc = s.wpc)
    (hview : ReaderView t) : Transfer stdin t :=
  ⟨hs.history.congr hdata, hs.writer.congr hdata hfull hwpc, hview⟩

theorem Transfer.writerFails {s : State} (hs : Transfer stdin s)
    (message : String) : Transfer stdin (s.writerFails message) :=
  hs.writer_moves rfl rfl rfl
    (.of_done rfl rfl (by simp [State.writerFails]))

theorem Transfer.writer_crashes {s : State} (hs : Transfer stdin s) :
    Transfer stdin { s with wpc := .crashed } :=
  hs.writer_moves rfl rfl rfl (.of_done rfl rfl (by simp))

theorem Transfer.readerFails {s : State} (hs : Transfer stdin s)
    (message : String) : Transfer stdin (s.readerFails message) :=
  hs.reader_moves rfl rfl rfl (.of_failed rfl)

theorem Transfer.reader_crashes {s : State} (hs : Transfer stdin s) :
    Transfer stdin { s with rpc := .crashed } :=
  hs.reader_moves rfl rfl rfl (.of_failed rfl)

theorem Transfer.release {s : State} (hs : Transfer stdin s) :
    Transfer stdin s.release :=
  hs.writer_moves rfl rfl rfl (.congr (s := s) rfl rfl rfl hs.writer)

theorem Transfer.detach {s : State} (hs : Transfer stdin s) :
    Transfer stdin s.detach :=
  hs.reader_moves rfl rfl rfl (.congr (s := s) rfl rfl rfl hs.reader)

/-- Reading standard input stores one block that nobody has seen yet: the
buffer was the writer's, so everything stored before is written out. -/
theorem Transfer.fill {s : State} (hs : Transfer stdin s) (hsync : Sync s)
    (hpc : s.wpc = .read) {count : ℕ} {block : List Byte}
    (hread : readAt stdin s.consumed.length count = some block) :
    Transfer stdin { s with
      seg := ⟨count, overlay block s.seg.buf⟩
      consumed := s.consumed ++ block
      filled := s.filled ++ [block]
      wpc := .checkRead } := by
  have hfull : s.full = false := hsync.writerOwns (by simp [hpc, WriterPc.owns])
  have hasks : s.wpc.asks = true := by simp [hpc, WriterPc.asks]
  have hnew : [] ∉ s.filled := hs.writer.asks hasks
  have hdrained : s.filled = s.drained := by
    rcases hs.writer.released hfull (Or.inl hasks) with h | h
    · exact h
    · exact absurd (by simp [h]) hnew
  have hlength : (count : Int) = block.length := by
    rw [readAt_length hread]
  have hreader : s.rpc.owns = false := by
    cases howns : s.rpc.owns with
    | false => rfl
    | true => simp [hsync.readerOwns howns] at hfull
  refine ⟨⟨?_, ?_, ?_, ?_, ?_⟩, ⟨?_, ?_, ?_, ?_, ?_⟩, ⟨?_, ?_, ?_, ?_⟩⟩
  · rw [List.length_append, readAt_length hread]
    exact bytesAt_append hs.history.input (by simpa using readAt_bytesAt hread)
  · simp [hs.history.consumed]
  · intro hend
    have hblock : block = [] := by
      rcases List.mem_append.mp hend with h | h
      · exact absurd h hnew
      · exact (List.mem_singleton.mp h).symm
    subst hblock
    simpa using readAt_nil hread
  · exact ⟨[block], by rw [hdrained], by simp⟩
  · rw [List.flatten_append]
    exact hs.history.written.trans (List.prefix_append _ _)
  · simp [WriterPc.asks]
  · simp [WriterPc.keeps]
  · intro _
    exact Or.inl ⟨⟨s.filled, block, rfl, hnew, hlength⟩,
      ⟨block, by rw [hdrained], hlength, take_overlay block _⟩⟩
  · simp
  · simp [WriterPc.asks]
  · exact fun h => absurd h (by simp [hfull])
  · exact fun h => absurd hreader (by simp only at h; simp [h, ReaderPc.owns])
  · intro hending
    exact absurd (by simp [hs.reader.ending hending]) hnew
  · exact hs.reader.written

/-- Publishing hands the stored block to the reader. -/
theorem Transfer.publish {s : State} (hs : Transfer stdin s) (hsync : Sync s)
    (hpc : s.wpc = .releaseRead) (set : SemSet) :
    Transfer stdin { s with set, full := true, wpc := .setWrite } := by
  have hfull : s.full = false := hsync.writerOwns (by simp [hpc, WriterPc.owns])
  have hstored : Stored s := hs.writer.releaseRead hpc
  have hlast : LastStored s := hs.writer.keeps (by simp [hpc, WriterPc.keeps])
  refine ⟨.congr (s := s) rfl hs.history, ⟨?_, ?_, ?_, ?_, ?_⟩,
    ⟨?_, hs.reader.drained, hs.reader.ending, hs.reader.written⟩⟩
  · simp [WriterPc.asks]
  · exact fun _ => hlast.congr rfl
  · simp
  · simp
  · simp
  · exact fun _ _ => hstored.congr rfl

/-- A failed `read` leaves `-1` where a count should be, while the buffer is
the writer's own. -/
theorem Transfer.fill_fails {s : State} (hs : Transfer stdin s)
    (hsync : Sync s) (hpc : s.wpc = .read) :
    Transfer stdin { s with seg := ⟨-1, s.seg.buf⟩, wpc := .checkRead } := by
  have hfull : s.full = false := hsync.writerOwns (by simp [hpc, WriterPc.owns])
  have hh := hs.history
  refine ⟨⟨hh.input, hh.consumed, hh.ended, hh.lag, hh.written⟩,
    ⟨?_, ?_, ?_, ?_, ?_⟩,
    ⟨?_, hs.reader.drained, hs.reader.ending, hs.reader.written⟩⟩
  · simp [WriterPc.asks]
  · simp [WriterPc.keeps]
  · exact fun _ => Or.inr rfl
  · simp
  · simp [WriterPc.asks]
  · simp [hfull]

theorem Transfer.checked {s : State} (hs : Transfer stdin s)
    (hpc : s.wpc = .checkRead) (hcnt : s.seg.cnt ≠ -1) :
    Transfer stdin { s with wpc := .releaseRead } := by
  obtain ⟨hlast, hstored⟩ := (hs.writer.checkRead hpc).resolve_right hcnt
  exact hs.writer_moves rfl rfl rfl
    ⟨by simp [WriterPc.asks], fun _ => hlast.congr rfl, by simp,
      fun _ => hstored.congr rfl, by simp [WriterPc.asks]⟩

theorem Transfer.writer_pays {s : State} (hs : Transfer stdin s)
    (hpc : s.wpc = .setWrite) (hfull : s.full = true) (set : SemSet) :
    Transfer stdin { s with set, wpc := .testEnd } := by
  have hlast : LastStored s := hs.writer.keeps (by simp [hpc, WriterPc.keeps])
  exact hs.writer_moves rfl rfl rfl
    ⟨by simp [WriterPc.asks], fun _ => hlast.congr rfl, by simp, by simp,
      by simp [hfull]⟩

/-- The block just published was not the end of file. -/
theorem Transfer.goes_on {s : State} (hs : Transfer stdin s)
    (hpc : s.wpc = .testEnd) (hcnt : s.seg.cnt ≠ 0) :
    Transfer stdin { s with wpc := .account } := by
  have hlast : LastStored s := hs.writer.keeps (by simp [hpc, WriterPc.keeps])
  have hnew : [] ∉ s.filled := by
    obtain ⟨earlier, block, heq, hne, hlength⟩ := hlast
    have hblock : block ≠ [] := by
      rintro rfl
      exact hcnt (by simpa using hlength)
    simp [heq, hne, hblock.symm]
  exact hs.writer_moves rfl rfl rfl
    ⟨fun _ => hnew, fun _ => hlast.congr rfl, by simp, by simp,
      fun hf _ => hs.writer.released hf (Or.inr hpc)⟩

theorem writerNext_transfer {s t : State} {reply : Reply} (hsync : Sync s)
    (hs : Transfer stdin s) (h : writerNext stdin s reply = some t) :
    Transfer stdin t := by
  cases reply
  case fail =>
    obtain ⟨message, rfl⟩ | rfl | ⟨hpc, rfl⟩ := writerNext_fail h
    · exact hs.writerFails message
    · exact hs.writer_crashes
    · exact hs.fill_fails hsync hpc
  case count n =>
    cases hpc : s.wpc <;> simp only [writerNext, hpc, reduceCtorEq] at h
    split at h
    · obtain rfl := Option.some.inj h
      exact hs.writer_crashes
    · rw [Option.ite_none_left_eq_some, Option.map_eq_some_iff] at h
      obtain ⟨-, block, hread, rfl⟩ := h
      exact hs.fill hsync hpc hread
  case ok =>
    cases hpc : s.wpc <;> simp only [writerNext, hpc, reduceCtorEq] at h
    case semget =>
      obtain rfl := Option.some.inj h
      exact hs.writer_asks rfl rfl rfl (by simp [hpc, WriterPc.asks]) rfl rfl
    case setall =>
      cases hset : s.set <;> simp only [hset, reduceCtorEq] at h
      obtain rfl := Option.some.inj h
      exact hs.writer_asks rfl rfl rfl (by simp [hpc, WriterPc.asks]) rfl rfl
    case shmget =>
      obtain rfl := Option.some.inj h
      exact hs.writer_asks rfl rfl rfl (by simp [hpc, WriterPc.asks]) rfl rfl
    case shmat =>
      obtain rfl := Option.some.inj h
      exact hs.writer_asks rfl rfl rfl (by simp [hpc, WriterPc.asks]) rfl rfl
    case waitWrite =>
      rw [Option.map_eq_some_iff] at h
      obtain ⟨set, -, rfl⟩ := h
      exact hs.writer_asks rfl rfl rfl (by simp [hpc, WriterPc.asks]) rfl rfl
    case checkRead =>
      split at h
      · obtain rfl := Option.some.inj h
        exact hs.writer_crashes
      · split at h <;> obtain rfl := Option.some.inj h
        · exact hs.writerFails _
        · exact hs.checked hpc (by assumption)
    case releaseRead =>
      rw [Option.map_eq_some_iff] at h
      obtain ⟨set, -, rfl⟩ := h
      exact hs.publish hsync hpc set
    case setWrite =>
      obtain ⟨write, read, value, hset, -, rfl⟩ := semop_writeSem.mp h
      exact hs.writer_pays hpc (hsync.full_of_setWrite hpc hset) _
    case testEnd =>
      split at h
      · obtain rfl := Option.some.inj h
        exact hs.writer_crashes
      · split at h <;> obtain rfl := Option.some.inj h
        · exact hs.writer_moves rfl rfl rfl (.of_done rfl rfl (by simp))
        · exact hs.goes_on hpc (by assumption)
    case account =>
      split at h <;> obtain rfl := Option.some.inj h
      · exact hs.writer_crashes
      · exact hs.writer_asks rfl rfl rfl (by simp [hpc, WriterPc.asks]) rfl rfl
    case waitFinish =>
      rw [Option.map_eq_some_iff] at h
      obtain ⟨set, -, rfl⟩ := h
      exact hs.writer_moves rfl rfl rfl (.of_done rfl rfl (by simp))
    case returned =>
      obtain rfl := Option.some.inj h
      exact hs.release.writer_moves rfl rfl rfl (.of_done rfl rfl (by simp))

/-- What the reader writes out is a part of the one block that is waiting. -/
theorem Transfer.take {s : State} (hs : Transfer stdin s) (hsync : Sync s)
    (hpc : s.rpc = .write) {count : ℕ} (hcount : (count : Int) ≤ s.seg.cnt) :
    ∃ block, s.filled = s.drained ++ [block] ∧
      s.seg.buf.take count = block.take count ∧ s.seg.cnt = block.length := by
  have hfull : s.full = true :=
    hsync.readerOwns (by simp [hpc, ReaderPc.owns])
  obtain ⟨block, heq, hcnt, htake⟩ :=
    hs.reader.published hfull (by simp [hpc, ReaderPc.undrained])
  refine ⟨block, heq, ?_, hcnt⟩
  have hle : count ≤ block.length := by omega
  rw [← htake, List.take_take, Nat.min_eq_left hle]

/-- Writing out the whole block drains it. -/
theorem Transfer.drain {s : State} (hs : Transfer stdin s) (hsync : Sync s)
    (hpc : s.rpc = .write) {count : ℕ} (hcount : (count : Int) = s.seg.cnt) :
    Transfer stdin { s with
      written := s.written ++ s.seg.buf.take count
      drained := s.drained ++ [s.seg.buf.take count]
      rpc := .releaseWrite } := by
  obtain ⟨block, heq, htake, hcnt⟩ := hs.take hsync hpc (Int.le_of_eq hcount)
  have hwhole : s.seg.buf.take count = block := by
    rw [htake, List.take_of_length_le (by omega)]
  have hfull : s.full = true :=
    hsync.readerOwns (by simp [hpc, ReaderPc.owns])
  have hwriter : s.wpc.owns = false := by
    cases howns : s.wpc.owns with
    | false => rfl
    | true => simp [hsync.writerOwns howns] at hfull
  have hwritten : s.written = s.drained.flatten :=
    hs.reader.written (by simp [hpc, ReaderPc.sound])
  have hh := hs.history
  rw [hwhole]
  refine ⟨⟨hh.input, hh.consumed, hh.ended, ⟨[], by simp [heq], by simp⟩, ?_⟩,
    ⟨hs.writer.asks, ?_, ?_, ?_, ?_⟩, ⟨?_, ?_, ?_, ?_⟩⟩
  · simp [heq, hwritten]
  · exact hs.writer.keeps
  · exact fun h => absurd hwriter (by simp only at h; simp [h, WriterPc.owns])
  · exact fun h => absurd hwriter (by simp only at h; simp [h, WriterPc.owns])
  · simp [hfull]
  · simp [ReaderPc.undrained]
  · exact fun _ => heq
  · simp [ReaderPc.ending]
  · simp [hwritten]

/-- A short write keeps the output a part of the input. -/
theorem Transfer.drain_short {s : State} (hs : Transfer stdin s)
    (hsync : Sync s) (hpc : s.rpc = .write) {count : ℕ}
    (hcount : (count : Int) ≤ s.seg.cnt) (message : String) :
    Transfer stdin (State.readerFails
      { s with written := s.written ++ s.seg.buf.take count } message) := by
  obtain ⟨block, heq, htake, -⟩ := hs.take hsync hpc hcount
  have hwritten : s.written = s.drained.flatten :=
    hs.reader.written (by simp [hpc, ReaderPc.sound])
  have hh := hs.history
  refine ⟨⟨hh.input, hh.consumed, hh.ended, hh.lag, ?_⟩,
    ⟨hs.writer.asks, hs.writer.keeps, hs.writer.checkRead,
      hs.writer.releaseRead, hs.writer.released⟩, .of_failed rfl⟩
  simp only [State.readerFails, heq, htake, hwritten, List.flatten_append,
    List.flatten_singleton]
  exact (List.prefix_append_right_inj _).mpr (List.take_prefix _ _)

/-- Before it drains anything, and after the end of file, the reader's steps
leave its view as it is. -/
theorem ReaderView.of_undrained {s t : State} (hs : ReaderView s)
    (hdata : t.data = s.data) (hfull : t.full = s.full)
    (hfrom : s.rpc.undrained = true) (hto : t.rpc.undrained = true) :
    ReaderView t := by
  have hsound : s.rpc.sound = true := by
    cases hpc : s.rpc <;> simp_all [ReaderPc.undrained, ReaderPc.sound]
  have hdata' := hdata
  simp only [State.data, Prod.mk.injEq] at hdata'
  obtain ⟨-, -, hwritten, -, hdrained⟩ := hdata'
  constructor
  · rw [hfull]
    exact fun hf _ => (hs.published hf hfrom).congr hdata
  · exact fun h => absurd hto (by simp [h, ReaderPc.undrained])
  · intro h
    cases hpc : t.rpc <;> simp_all [ReaderPc.undrained, ReaderPc.ending]
  · rw [hwritten, hdrained]
    exact fun _ => hs.written hsound

theorem ReaderView.of_ending {s t : State} (hs : ReaderView s)
    (hdata : t.data = s.data) (hfrom : s.rpc.ending = true)
    (hto : t.rpc.ending = true) : ReaderView t := by
  have hsound : s.rpc.sound = true := by
    cases hpc : s.rpc <;> simp_all [ReaderPc.ending, ReaderPc.sound]
  simp only [State.data, Prod.mk.injEq] at hdata
  obtain ⟨-, -, hwritten, hfilled, hdrained⟩ := hdata
  constructor
  · intro _ h
    cases hpc : t.rpc <;> simp_all [ReaderPc.undrained, ReaderPc.ending]
  · exact fun h => absurd hto (by simp [h, ReaderPc.ending])
  · rw [hfilled, hdrained]
    exact fun _ => hs.ending hfrom
  · rw [hwritten, hdrained]
    exact fun _ => hs.written hsound

/-- A released buffer holds nothing that is not written out, the end of file
apart. -/
theorem Transfer.reader_releases {s : State} (hs : Transfer stdin s)
    {t : State} (hdata : t.data = s.data) (hwpc : t.wpc = s.wpc)
    (hfrom : s.filled = s.drained ∨ s.filled = s.drained ++ [[]])
    (hview : ReaderView t) : Transfer stdin t := by
  have hdata' := hdata
  simp only [State.data, Prod.mk.injEq] at hdata'
  obtain ⟨hseg, -, -, hfilled, hdrained⟩ := hdata'
  refine ⟨hs.history.congr hdata, ⟨?_, ?_, ?_, ?_, ?_⟩, hview⟩
  · rw [hwpc, hfilled]
    exact hs.writer.asks
  · rw [hwpc]
    exact fun h => (hs.writer.keeps h).congr hdata
  · rw [hwpc, hseg]
    exact fun h => (hs.writer.checkRead h).imp
      (fun h => ⟨h.1.congr hdata, h.2.congr hdata⟩) id
  · rw [hwpc]
    exact fun h => (hs.writer.releaseRead h).congr hdata
  · rw [hfilled, hdrained]
    exact fun _ _ => hfrom

/-- A step of the reader that leaves a block it has not written out. -/
theorem Transfer.reader_waits {s t : State} (hs : Transfer stdin s)
    (hdata : t.data = s.data) (hfull : t.full = s.full) (hwpc : t.wpc = s.wpc)
    (hfrom : s.rpc.undrained = true) (hto : t.rpc.undrained = true) :
    Transfer stdin t :=
  hs.reader_moves hdata hfull hwpc
    (hs.reader.of_undrained hdata hfull hfrom hto)

/-- A step of the reader after the empty block. -/
theorem Transfer.reader_ends {s t : State} (hs : Transfer stdin s)
    (hdata : t.data = s.data) (hfull : t.full = s.full) (hwpc : t.wpc = s.wpc)
    (hfrom : s.rpc.ending = true) (hto : t.rpc.ending = true) :
    Transfer stdin t :=
  hs.reader_moves hdata hfull hwpc (hs.reader.of_ending hdata hfrom hto)

/-- An empty block is the end of file. -/
theorem Transfer.meets_end {s : State} (hs : Transfer stdin s)
    (hsync : Sync s) (hpc : s.rpc = .testEnd) (hcnt : s.seg.cnt = 0) :
    Transfer stdin { s with rpc := .shmdt } := by
  have hfull : s.full = true := hsync.readerOwns (by simp [hpc, ReaderPc.owns])
  obtain ⟨block, heq, hlength, -⟩ :=
    hs.reader.published hfull (by simp [hpc, ReaderPc.undrained])
  have hblock : block = [] := by
    apply List.eq_nil_of_length_eq_zero
    omega
  refine hs.reader_moves rfl rfl rfl ⟨?_, by simp, ?_, ?_⟩
  · simp [ReaderPc.undrained]
  · exact fun _ => hblock ▸ heq
  · exact fun _ => hs.reader.written (by simp [hpc, ReaderPc.sound])

theorem Transfer.reader_pays {s : State} (hs : Transfer stdin s)
    (hpc : s.rpc = .setRead) (hfull : s.full = false) (set : SemSet) :
    Transfer stdin { s with set, rpc := .waitRead } := by
  refine hs.reader_moves rfl rfl rfl
    ⟨by simp [hfull], by simp, by simp [ReaderPc.ending], ?_⟩
  exact fun _ => hs.reader.written (by simp [hpc, ReaderPc.sound])

theorem readerNext_transfer {s t : State} {reply : Reply} (hsync : Sync s)
    (hs : Transfer stdin s) (h : readerNext s reply = some t) :
    Transfer stdin t := by
  cases reply
  case fail =>
    obtain ⟨message, rfl⟩ | rfl := readerNext_fail h
    · exact hs.readerFails message
    · exact hs.reader_crashes
  case count n =>
    cases hpc : s.rpc <;> simp only [readerNext, hpc, reduceCtorEq] at h
    split at h
    · obtain rfl := Option.some.inj h
      exact hs.reader_crashes
    · rw [Option.ite_none_left_eq_some] at h
      obtain ⟨hle, h⟩ := h
      split at h <;> obtain rfl := Option.some.inj h
      · exact hs.drain hsync hpc (by assumption)
      · have hshort := hs.drain_short hsync hpc (Int.not_lt.mp hle)
          "write to stdout fail.\n"
        rwa [hpc] at hshort
  case ok =>
    cases hpc : s.rpc <;> simp only [readerNext, hpc, reduceCtorEq] at h
    case semget =>
      cases hset : s.set <;> simp only [hset, reduceCtorEq] at h
      obtain rfl := Option.some.inj h
      exact hs.reader_waits rfl rfl rfl (by simp [hpc, ReaderPc.undrained])
        rfl
    case shmget =>
      obtain ⟨-, rfl⟩ := guarded_eq_some.mp h
      exact hs.reader_waits rfl rfl rfl (by simp [hpc, ReaderPc.undrained])
        rfl
    case shmat =>
      obtain rfl := Option.some.inj h
      exact hs.reader_waits rfl rfl rfl (by simp [hpc, ReaderPc.undrained])
        rfl
    case waitRead =>
      rw [Option.map_eq_some_iff] at h
      obtain ⟨set, -, rfl⟩ := h
      exact hs.reader_waits rfl rfl rfl (by simp [hpc, ReaderPc.undrained])
        rfl
    case testEnd =>
      split at h
      · obtain rfl := Option.some.inj h
        exact hs.reader_crashes
      · split at h <;> obtain rfl := Option.some.inj h
        · exact hs.meets_end hsync hpc (by assumption)
        · exact hs.reader_waits rfl rfl rfl (by simp [hpc, ReaderPc.undrained])
            rfl
    case account =>
      split at h <;> obtain rfl := Option.some.inj h
      · exact hs.reader_crashes
      · exact hs.reader_waits rfl rfl rfl (by simp [hpc, ReaderPc.undrained])
          rfl
    case releaseWrite =>
      rw [Option.map_eq_some_iff] at h
      obtain ⟨set, -, rfl⟩ := h
      refine hs.reader_releases rfl rfl (Or.inl (hs.reader.drained hpc))
        ⟨by simp, by simp, by simp [ReaderPc.ending], ?_⟩
      exact fun _ => hs.reader.written (by simp [hpc, ReaderPc.sound])
    case setRead =>
      obtain ⟨write, read, value, hset, -, rfl⟩ := semop_readSem.mp h
      exact hs.reader_pays hpc (hsync.not_full_of_setRead hpc hset) _
    case shmdt =>
      obtain ⟨-, rfl⟩ := guarded_eq_some.mp h
      exact hs.reader_ends rfl rfl rfl (by simp [hpc, ReaderPc.ending]) rfl
    case clearShmp =>
      obtain rfl := Option.some.inj h
      exact hs.reader_ends rfl rfl rfl (by simp [hpc, ReaderPc.ending]) rfl
    case releaseLast =>
      rw [Option.map_eq_some_iff] at h
      obtain ⟨set, -, rfl⟩ := h
      have hending : s.rpc.ending = true := by simp [hpc, ReaderPc.ending]
      exact hs.reader_releases rfl rfl (Or.inr (hs.reader.ending hending))
        (hs.reader.of_ending rfl hending rfl)
    case bye =>
      obtain rfl := Option.some.inj h
      exact hs.reader_ends rfl rfl rfl (by simp [hpc, ReaderPc.ending]) rfl
    case returned code =>
      obtain rfl := Option.some.inj h
      refine hs.reader_moves rfl rfl rfl
        ⟨by simp [ReaderPc.undrained], by simp, fun hc => ?_, fun hc => ?_⟩
      · exact hs.reader.ending (by simpa [hpc, ReaderPc.ending] using hc)
      · exact hs.reader.written (by simpa [hpc, ReaderPc.sound] using hc)

/-- The reader prints only right before it returns. -/
def Spoken (s : State) : Prop :=
  match s.rpc with
  | .returned code | .exited code =>
      code = 0 → s.rText = text "reader: bye!"
  | .crashed => True
  | _ => s.rText = []

theorem readerNext_spoken {s t : State} {reply : Reply}
    (hs : Spoken s) (h : readerNext s reply = some t) : Spoken t := by
  unfold readerNext at h
  split at h <;>
    grind [State.readerFails, State.detach, Option.map_eq_some_iff, Spoken]

theorem writerNext_spoken {s t : State} {reply : Reply}
    (hs : Spoken s) (h : writerNext stdin s reply = some t) : Spoken t := by
  have hsame : t.rpc = s.rpc ∧ t.rText = s.rText := by
    unfold writerNext at h
    split at h <;>
      grind [State.writerFails, State.release, Option.map_eq_some_iff]
  simpa only [Spoken, hsame.1, hsame.2] using hs

/-- Ownership, data and texts together. -/
structure Inv (stdin : ByteStream) (s : State) : Prop where
  sync : Sync s
  transfer : Transfer stdin s
  spoken : Spoken s

theorem start_inv (stdin : ByteStream) : Inv stdin start :=
  ⟨start_sync, start_transfer stdin, rfl⟩

theorem next_inv (s : State) (label : Label) (t : State)
    (hs : Inv stdin s) (h : next stdin s label = some t) : Inv stdin t := by
  refine ⟨next_sync stdin s label t hs.sync h, ?_, ?_⟩
  · cases label with
    | writer reply => exact writerNext_transfer hs.sync hs.transfer h
    | reader reply => exact readerNext_transfer hs.sync hs.transfer h
    | writerSignal => exact next_writerSignal h ▸ hs.transfer.release
    | readerSignal => exact next_readerSignal h ▸ hs.transfer.detach
  · cases label with
    | writer reply => exact writerNext_spoken hs.spoken h
    | reader reply => exact readerNext_spoken hs.spoken h
    | writerSignal => exact next_writerSignal h ▸ hs.spoken
    | readerSignal => exact next_readerSignal h ▸ hs.spoken

theorem exec_inv {s : State} {labels : List Label}
    (hrun : exec (next stdin) start labels = some s) : Inv stdin s :=
  exec_invariant next_inv (start_inv stdin) hrun

/-- Only the writer's `read` adds to the stored blocks. -/
theorem writerNext_histories {s t : State} {reply : Reply}
    (h : writerNext stdin s reply = some t) :
    t.drained = s.drained ∧
      (t.filled = s.filled ∨
        s.wpc = .read ∧ ∃ block, t.filled = s.filled ++ [block]) := by
  unfold writerNext at h
  split at h <;>
    grind [State.writerFails, State.release, Option.map_eq_some_iff]

/-- Only the reader's `write` adds to the drained blocks. -/
theorem readerNext_histories {s t : State} {reply : Reply}
    (h : readerNext s reply = some t) :
    t.filled = s.filled ∧
      (t.drained = s.drained ∨
        s.rpc = .write ∧ ∃ count : ℕ, (count : Int) = s.seg.cnt ∧
          t.drained = s.drained ++ [s.seg.buf.take count]) := by
  unfold readerNext at h
  split at h <;>
    grind [State.readerFails, State.detach, Option.map_eq_some_iff]

/-- A step stores a block when everything before it is written out, or writes
out the one block that waits, or adds to neither history. -/
theorem Inv.histories {s : State} {label : Label} {t : State}
    (hs : Inv stdin s) (h : next stdin s label = some t) :
    (t.filled = s.filled ∧ t.drained = s.drained) ∨
      (s.filled = s.drained ∧ t.drained = s.drained ∧
        ∃ block, t.filled = s.filled ++ [block]) ∨
      (t.filled = s.filled ∧ t.drained = s.filled ∧
        ∃ block, s.filled = s.drained ++ [block]) := by
  cases label with
  | writerSignal => exact Or.inl (next_writerSignal h ▸ ⟨rfl, rfl⟩)
  | readerSignal => exact Or.inl (next_readerSignal h ▸ ⟨rfl, rfl⟩)
  | writer reply =>
      obtain ⟨hdrained, hfilled | ⟨hpc, hblock⟩⟩ := writerNext_histories h
      · exact Or.inl ⟨hfilled, hdrained⟩
      · refine Or.inr (Or.inl ⟨?_, hdrained, hblock⟩)
        have hfull := hs.sync.writerOwns (by simp [hpc, WriterPc.owns])
        have hasks : s.wpc.asks = true := by simp [hpc, WriterPc.asks]
        rcases hs.transfer.writer.released hfull (Or.inl hasks) with heq | heq
        · exact heq
        · exact absurd (by simp [heq]) (hs.transfer.writer.asks hasks)
  | reader reply =>
      obtain ⟨hfilled, hdrained | ⟨hpc, count, hcount, hdrained⟩⟩ :=
        readerNext_histories h
      · exact Or.inl ⟨hfilled, hdrained⟩
      · obtain ⟨block, heq, htake, hlength⟩ :=
          hs.transfer.take hs.sync hpc (Int.le_of_eq hcount)
        have hwhole : block.take count = block :=
          List.take_of_length_le (by omega)
        exact Or.inr (Or.inr
          ⟨hfilled, by rw [hdrained, htake, hwhole, heq], block, heq⟩)

/-- The shared buffer seen as a slot for one block. -/
def State.slotView (s : State) : OneSlot (List Byte) :=
  ⟨(s.filled.drop s.drained.length).head?, s.filled, s.drained⟩

/-- Storing and draining are visible, everything else is silent. -/
def slotAction (stdin : ByteStream) (s : State) (label : Label) :
    Option (OneSlot.Action (List Byte)) :=
  (next stdin s label).bind fun t =>
    if t.filled ≠ s.filled then t.filled.getLast?.map .store
    else if t.drained ≠ s.drained then some .take
    else none

/-- The exchange is a one-slot buffer: a block is stored only into an empty
slot and taken only from a full one. -/
theorem refines_oneSlot (stdin : ByteStream) :
    Refines (next stdin) OneSlot.next (fun _ => True) (Inv stdin)
      State.slotView (slotAction stdin) where
  step s label t _ := next_inv s label t
  silent s label t _ hs h hact := by
    simp only [slotAction, h, Option.bind_some] at hact
    obtain ⟨hfilled, hdrained⟩ | ⟨-, hdrained, block, hfilled⟩ |
      ⟨hfilled, hdrained, block, heq⟩ := hs.histories h
    · simp only [State.slotView, hfilled, hdrained]
    · simp [hfilled] at hact
    · simp [hfilled, hdrained, heq] at hact
  visible s label t action _ hs h hact := by
    simp only [slotAction, h, Option.bind_some] at hact
    obtain ⟨hfilled, hdrained⟩ | ⟨heq, hdrained, block, hfilled⟩ |
      ⟨hfilled, hdrained, block, heq⟩ := hs.histories h
    · simp [hfilled, hdrained] at hact
    · have hne : t.filled ≠ s.filled := by simp [hfilled]
      rw [if_pos hne, hfilled, List.getLast?_concat, Option.map_some,
        Option.some.injEq] at hact
      simp [← hact, OneSlot.next, State.slotView, hfilled, hdrained, heq]
    · simp [hfilled, hdrained, heq] at hact
      simp [← hact, OneSlot.next, State.slotView, hfilled, hdrained, heq]

/-- No block is overwritten before it is written out and none is written out
twice: a step that stores finds all blocks written out, and a step that writes
out takes the one block that waits. -/
def HandsOver (s : State) (_ : Label) (t : State) : Prop :=
  (t.filled ≠ s.filled → s.filled = s.drained) ∧
    (t.drained ≠ s.drained → ∃ block, s.filled = s.drained ++ [block] ∧
      t.drained = s.drained ++ [block])

theorem Inv.handsOver (s : State) (label : Label) (t : State)
    (hs : Inv stdin s) (h : next stdin s label = some t) :
    HandsOver s label t := by
  obtain ⟨hfilled, hdrained⟩ | ⟨heq, hdrained, -⟩ |
    ⟨hfilled, hdrained, block, heq⟩ := hs.histories h
  · exact ⟨absurd hfilled, absurd hdrained⟩
  · exact ⟨fun _ => heq, absurd hdrained⟩
  · exact ⟨absurd hfilled, fun _ => ⟨block, heq, hdrained.trans heq⟩⟩

/-- For every input, every way `read` cuts it and every schedule of the single
calls, with any call failing and any signal arriving anywhere: what the
transfer loop writes out is a part of what the writer has read, blocks are
handed over one at a time, both semaphores hold 0 or 1, the two processes
never wait for each other, and a reader that returns 0 has put the whole
input and then its farewell on its standard output. -/
theorem transfer_correct {stdin : ByteStream} {s : State}
    {labels : List Label}
    (hrun : exec (next stdin) start labels = some s) :
    (s.written <+: s.consumed ∧
      bytesAt stdin 0 s.consumed.length = some s.consumed ∧
      s.consumed = s.filled.flatten ∧ s.drained <+: s.filled ∧
      s.filled.length ≤ s.drained.length + 1 ∧
      EachStep (next stdin) HandsOver start labels) ∧
    (∀ write read, s.set = .live write read → write ≤ 1 ∧ read ≤ 1) ∧
    ¬ (WriterBlocked stdin s ∧ ReaderBlocked s) ∧
    (s.rpc = .returned 0 ∨ s.rpc = .exited 0 →
      WholeInput stdin s.written ∧ s.written = s.consumed ∧
        s.stdout = s.written ++ text "reader: bye!") := by
  have hs := exec_inv hrun
  have hh := hs.transfer.history
  refine ⟨⟨?_, hh.input, hh.consumed, ?_, ?_, ?_⟩, ?_, ?_, ?_⟩
  · rw [hh.consumed]
    exact hh.written
  · obtain ⟨pending, heq, -⟩ := hh.lag
    exact ⟨pending, heq.symm⟩
  · obtain ⟨pending, heq, hlength⟩ := hh.lag
    rw [heq, List.length_append]
    omega
  · exact eachStep_of_invariant next_inv Inv.handsOver (start_inv stdin) labels
  · exact fun write read hset => hs.sync.sem_le_one hset
  · exact fun ⟨hwriter, hreader⟩ => hs.sync.not_both_blocked hwriter hreader
  · intro hdone
    have hending : s.rpc.ending = true ∧ s.rpc.sound = true := by
      rcases hdone with h | h <;> simp [h, ReaderPc.ending, ReaderPc.sound]
    have hfilled := hs.transfer.reader.ending hending.1
    have hwritten : s.written = s.consumed := by
      rw [hs.transfer.reader.written hending.2, hh.consumed, hfilled]
      simp
    refine ⟨?_, hwritten, ?_⟩
    · rw [WholeInput, hwritten]
      exact ⟨hh.input, hh.ended (by simp [hfilled])⟩
    · have htext : s.rText = text "reader: bye!" := by
        have hspoken := hs.spoken
        rcases hdone with h | h <;> simpa [Spoken, h] using hspoken
      rw [State.stdout, htext]

/-- A transfer of the one byte `a` in which no call fails and the two
processes overlap in both half-released states. -/
def oneByteTransfer : List Label :=
  [.writer .ok, .writer .ok, .writer .ok, .writer .ok, .writer .ok,
    .writer (.count 1), .writer .ok, .writer .ok, .reader .ok, .reader .ok,
    .reader .ok, .reader .ok, .reader .ok, .reader .ok, .reader (.count 1),
    .writer .ok, .writer .ok, .reader .ok, .writer .ok, .writer .ok,
    .writer (.count 0), .writer .ok, .reader .ok, .writer .ok, .writer .ok,
    .reader .ok, .reader .ok, .reader .ok, .reader .ok, .reader .ok,
    .reader .ok, .reader .ok]

theorem transfer_correct_oneByte :
    ∃ s, exec (next fun i => if i = 0 then some 97 else none) start
        oneByteTransfer = some s ∧
      s.rpc = .exited 0 ∧ s.written = [97] ∧
      WholeInput (fun i => if i = 0 then some 97 else none) s.written := by
  have hrun : exec (next fun i => if i = 0 then some 97 else none) start
      oneByteTransfer = some _ := rfl
  exact ⟨_, hrun, rfl, rfl, ((transfer_correct hrun).2.2.2 (Or.inr rfl)).1⟩

/-- A transfer of the empty input in which no call fails. -/
def emptyTransfer : List Label :=
  [.writer .ok, .writer .ok, .writer .ok, .writer .ok, .writer .ok,
    .writer (.count 0), .writer .ok, .writer .ok, .writer .ok,
    .reader .ok, .reader .ok, .reader .ok, .reader .ok, .reader .ok,
    .reader .ok, .reader .ok, .reader .ok, .reader .ok, .reader .ok]

/-- On the empty input the reader returns 0 with its farewell on a standard
output that the input says is empty. -/
theorem farewell_on_stdout :
    ∃ s, exec (next fun _ => none) start emptyTransfer = some s ∧
      s.rpc = .exited 0 ∧ s.consumed = [] ∧
      ¬ s.stdout <+: s.consumed ∧ ¬ WholeInput (fun _ => none) s.stdout := by
  exact ⟨_, rfl, rfl, rfl, by decide, by decide⟩

end SysvShm

end MyFreeLib
