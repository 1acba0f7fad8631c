/-
Whether the server's FIFO keeps its frames when other processes write to it.
A short read discards whatever was there, but a request behind bytes that do
not make up whole requests is read together with them.
-/
import MyFreeLib.PipeDemoWriters

namespace MyFreeLib

namespace PipeDemo

open FrameStream

/-- A step of the server reads the stream, any other may write to it. -/
theorem next_stream {s t : Traffic} {event : Event}
    (h : s.next event = some t) :
    t.stream = s.stream ∨
      s.stream.data ≠ [] ∧ t.stream = s.stream.read requestSize ∨
      ∃ block, t.stream = s.stream.write block := by
  cases event with
  | step label =>
      obtain ⟨u, hu, rfl⟩ := Option.map_eq_some_iff.mp h
      have hmove := next_move hu
      have hfifo : u.serverFifo = u.core.serverFifo := rfl
      have hreads : u.reads = u.core.reads := rfl
      simp only [Traffic.stream, hfifo, hreads]
      generalize u.core = core at hmove
      cases hmove with
      | skip hpc hnonempty | read hpc hnonempty =>
          right
          left
          refine ⟨hnonempty, ?_⟩
          simp [sends, FrameStream.read, State.received, State.core]
      | answer | close =>
          left
          simp [sends, State.core]
      | send i block hsends =>
          right
          right
          exact ⟨block, by simp [hsends, write, State.entry, State.core]⟩
      | other label hsends hgrants =>
          left
          simp [hsends, State.core]
  | write block =>
      simp only [Traffic.next] at h
      split at h
      · cases h
      · cases h
        exact Or.inr (Or.inr ⟨block, rfl⟩)

theorem next_stream_inv (s : Traffic) (event : Event) (t : Traffic)
    (hs : FrameStream.Inv requestSize s.stream) (h : s.next event = some t) :
    FrameStream.Inv requestSize t.stream := by
  rcases next_stream h with hsame | ⟨-, hread⟩ | ⟨block, hwrite⟩
  · exact hsame ▸ hs
  · exact hread ▸ read_inv hs
  · exact hwrite ▸ write_inv hs block

theorem run_stream_inv {req : List Byte} {events : List Event} {s : Traffic}
    (hrun : exec Traffic.next (Traffic.start req) events = some s) :
    FrameStream.Inv requestSize s.stream := by
  have hstart : FrameStream.Inv requestSize (Traffic.start req).stream :=
    empty_inv requestSize
  exact exec_invariant next_stream_inv hstart hrun

/-- For every interleaving of the service with writes of any size: once the
FIFO is read empty, the server has decoded all requests written whole, in
order and each at its own place in the stream, exactly when each of them was
written while the unread bytes made up whole requests. -/
theorem requests_framed_iff {req : List Byte} {events : List Event}
    {s : Traffic}
    (hrun : exec Traffic.next (Traffic.start req) events = some s)
    (hempty : s.state.serverFifo = []) :
    s.requests.Sublist s.decoded ∧ Framed requestSize s.stream ↔
      ∀ w ∈ s.written, w.block.length = requestSize →
        requestSize ∣ w.unread := by
  have hs := run_stream_inv hrun
  have hsize : 0 < requestSize := by decide
  have hframed := hs.framed_iff hsize hempty
  constructor
  · rintro ⟨-, hplaces⟩
    exact hframed.mp hplaces
  · intro haligned
    have hplaces := hframed.mpr haligned
    refine ⟨?_, hplaces⟩
    have hsub := (hplaces.sublist hsize).filter fun bytes =>
      bytes.length = requestSize
    simp only [List.filter_filter, Bool.and_self] at hsub
    exact hsub

/-- Three bytes of another writer are discarded before a client sends its
request. -/
def afterShort : List Event :=
  [.write [1, 2, 3], .step .server, .step (.launch 7 []),
    .step (.client 0), .step (.client 0), .step (.client 0), .step .server]

theorem requests_framed_afterShort :
    ∃ s, exec Traffic.next (Traffic.start []) afterShort = some s ∧
      s.decoded = [requestBytes 7] ∧ s.requests.Sublist s.decoded := by
  have hrun : exec Traffic.next (Traffic.start []) afterShort = some _ := rfl
  exact ⟨_, hrun, rfl, ((requests_framed_iff hrun rfl).mpr (by decide)).1⟩

/-- The client sends while the three bytes are still there. -/
def behindShort : List Event :=
  [.write [1, 2, 3], .step (.launch 7 []), .step (.client 0),
    .step (.client 0), .step (.client 0), .step .server, .step .server,
    .step .server, .step .server, .step .server]

/-- The request is decoded with three foreign bytes before it, its end is
taken for an error request, and it is never seen. -/
theorem request_misframed :
    ∃ s, exec Traffic.next (Traffic.start []) behindShort = some s ∧
      s.state.serverFifo = [] ∧ s.requests = [requestBytes 7] ∧
      s.decoded = [[1, 2, 3, 7, 0, 0, 0, 1]] ∧
      ¬ s.requests.Sublist s.decoded := by
  have hrun : exec Traffic.next (Traffic.start []) behindShort = some _ := rfl
  exact ⟨_, hrun, rfl, rfl, rfl, by decide⟩

end PipeDemo

end MyFreeLib
