/-
The server's FIFO is open to every process.  Beside the steps of the service
other writers may put blocks of any size into it; each block goes in at once.
-/
import MyFreeLib.Allotment
import MyFreeLib.FrameStream
import MyFreeLib.PipeDemo

namespace MyFreeLib

namespace PipeDemo

/-- The numbers granted to a request: `seqLen` of them from `seqNum` on. -/
abbrev Grant := Allotment Int

/-- `written`, the blocks put into the server's FIFO, and `grants` are
history. -/
structure Traffic where
  state : State
  written : List (Written Byte)
  grants : List Grant
deriving DecidableEq, Repr

/-- A step of the service, or any other process writes to the server's
FIFO. -/
inductive Event
  | step (label : Label)
  | write (block : List Byte)
deriving DecidableEq, Repr

def Traffic.start (req : List Byte) : Traffic := ⟨PipeDemo.start req, [], []⟩

/-- The block that a step puts into the server's FIFO. -/
def sends (s : State) : Label → Option (List Byte)
  | .client i => s.clients[i]?.bind fun c =>
      if c.pc = .send then some (requestBytes c.pid) else none
  | _ => none

/-- What the server grants when it comes to `seqNum += req.seqLen`. -/
def grants (s : State) : Label → Option Grant
  | .server =>
      match s.server with
      | .close _ => some ⟨s.seqNum, reqSeqLen s.req⟩
      | _ => none
  | _ => none

/-- The entry of a block that goes into the FIFO now. -/
def State.entry (s : State) (block : List Byte) : Written Byte :=
  ⟨block, s.serverFifo.length⟩

def Traffic.next (s : Traffic) : Event → Option Traffic
  | .step label => (PipeDemo.next s.state label).map fun t =>
      { state := t
        written := s.written ++ ((sends s.state label).map s.state.entry).toList
        grants := s.grants ++ (PipeDemo.grants s.state label).toList }
  | .write block =>
      if block = [] then none
      else some { s with
        state := { s.state with serverFifo := s.state.serverFifo ++ block }
        written := s.written ++ [s.state.entry block] }

/-- The server's FIFO as a stream of requests. -/
def Traffic.stream (s : Traffic) : FrameStream Byte :=
  ⟨s.state.serverFifo, s.written, s.state.reads⟩

/-- The requests that were written whole. -/
def Traffic.requests (s : Traffic) : List (List Byte) :=
  (s.written.map Written.block).filter fun block =>
    block.length = requestSize

/-- The requests that the server has decoded. -/
def Traffic.decoded (s : Traffic) : List (List Byte) :=
  s.state.reads.filter fun bytes => bytes.length = requestSize

/-- What the server keeps, apart from the messages it prints. -/
structure Core where
  serverFifo : List Byte
  server : ServerPc
  req : List Byte
  seqNum : Int
  reads : List (List Byte)

def State.core (s : State) : Core :=
  ⟨s.serverFifo, s.server, s.req, s.seqNum, s.reads⟩

/-- What a `read` leaves behind. -/
def State.received (s : State) : Core :=
  { s.core with
    serverFifo := s.serverFifo.drop requestSize
    req := overlay (s.serverFifo.take requestSize) s.req
    reads := s.reads ++ [s.serverFifo.take requestSize] }

/-- Everything a step of the service can do to the server. -/
inductive Move (s : State) : Label → Core → Prop
  | skip (hpc : s.server = .read) (hfifo : s.serverFifo ≠ [])
      (hshort : (s.serverFifo.take requestSize).length ≠ requestSize) :
      Move s .server s.received
  | read (hpc : s.server = .read) (hfifo : s.serverFifo ≠ [])
      (hfull : (s.serverFifo.take requestSize).length = requestSize) :
      Move s .server { s.received with server := .openClient }
  | answer (pc : ServerPc) (hold : s.server ≠ .read)
      (hopen : ∀ clientFd, s.server ≠ .close clientFd) (hnew : pc ≠ .read) :
      Move s .server { s.core with server := pc }
  | close (clientFd : Option ℕ) (hpc : s.server = .close clientFd) :
      Move s .server { s.core with
        seqNum := int32 (s.seqNum + reqSeqLen s.req)
        server := .read }
  | send (i : ℕ) (block : List Byte)
      (hsends : sends s (.client i) = some block) :
      Move s (.client i) { s.core with
        serverFifo := s.serverFifo ++ block }
  | other (label : Label) (hsends : sends s label = none)
      (hgrants : PipeDemo.grants s label = none) : Move s label s.core

theorem sends_size {s : State} {label : Label} {block : List Byte}
    (h : sends s label = some block) : block.length = requestSize := by
  cases label with
  | client i =>
      obtain ⟨c, -, hsend⟩ := Option.bind_eq_some_iff.mp h
      obtain ⟨-, rfl⟩ := guarded_eq_some.mp hsend
      exact requestBytes_length c.pid
  | launch | server | stop => cases h

theorem serverNext_move {s t : State} (h : serverNext s = some t) :
    Move s .server t.core := by
  unfold serverNext at h
  split at h
  · next hpc =>
      simp only [serverRead] at h
      split at h
      · cases h
      · next hfifo =>
          split at h
          · next hshort =>
              cases h
              exact Move.skip hpc hfifo hshort
          · next hfull =>
              cases h
              exact Move.read hpc hfifo (not_not.mp hfull)
  · next hpc =>
      cases h
      simp only [serverOpen]
      split
      · exact Move.answer _ (by simp [hpc]) (by simp [hpc]) (by simp)
      · exact Move.answer _ (by simp [hpc]) (by simp [hpc]) (by simp)
  · next hpc =>
      obtain ⟨c, -, hwoken⟩ := Option.bind_eq_some_iff.mp h
      obtain ⟨-, rfl⟩ := guarded_eq_some.mp hwoken
      exact Move.answer _ (by simp [hpc]) (by simp [hpc]) (by simp)
  · next clientFd hpc =>
      cases h
      have hmove : Move s .server { s.core with server := .close clientFd } :=
        Move.answer _ (by simp [hpc]) (by simp [hpc]) (by simp)
      unfold serverWrite
      split
      · exact hmove
      · split
        · exact hmove
        · split
          · exact hmove
          · exact hmove
  · next clientFd hpc =>
      cases h
      unfold serverClose
      split
      · exact Move.close _ hpc
      · exact Move.close _ hpc

theorem next_move {s t : State} {label : Label} (h : next s label = some t) :
    Move s label t.core := by
  cases label with
  | launch pid resp =>
      simp only [next] at h
      split at h
      · cases h
      · cases h
        exact Move.other _ rfl rfl
  | server => exact serverNext_move h
  | client i =>
      obtain ⟨c, hc, hmove⟩ := Option.bind_eq_some_iff.mp h
      unfold clientNext at hmove
      split at hmove
      · next hpc =>
          cases hmove
          exact Move.other _ (by simp [sends, hc, hpc]) rfl
      · next hpc =>
          cases hmove
          exact Move.other _ (by simp [sends, hc, hpc]) rfl
      · next hpc =>
          cases hmove
          exact Move.send i _ (by simp [sends, hc, hpc])
      · next hsend =>
          obtain ⟨c', -, rfl⟩ := Option.map_eq_some_iff.mp hmove
          exact Move.other _ (by simpa [sends, hc] using hsend) rfl
  | stop i unlinks =>
      obtain ⟨c, -, hstop⟩ := Option.bind_eq_some_iff.mp h
      obtain ⟨c', -, rfl⟩ := Option.map_eq_some_iff.mp hstop
      exact Move.other _ rfl rfl

end PipeDemo

end MyFreeLib
