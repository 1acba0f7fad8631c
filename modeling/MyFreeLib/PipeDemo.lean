/-
The sequence-number service over FIFOs.  Clients put requests into the
server's FIFO and wait on one of their own, named by their process id; the
server answers one request at a time.  An open of a FIFO waits for its other
end, and a client may vanish at any point.
-/
import MyFreeLib.IntBytes
import MyFreeLib.LabelledRun
import MyFreeLib.ProcessTable

namespace MyFreeLib

namespace PipeDemo

/-- A positive `pid_t`, or 0. -/
abbrev Pid := Fin (2 ^ 31)

/-- `%ld` -/
def decimal (n : Int) : List Byte :=
  let digits := (Nat.toDigits 10 n.natAbs).map fun c => UInt8.ofNat c.toNat
  if n < 0 then 45 :: digits else digits

/-- `CLIENT_FIFO_NAME_LEN` -/
def clientFifoNameLen : ℕ := 19 + 20

/-- `snprintf` of `CLIENT_FIFO_TEMPLATE`, without the terminating zero. -/
def clientFifo (pid : Int) : List Byte :=
  (text "/tmp/seqnum_cl." ++ decimal pid).take (clientFifoNameLen - 1)

/-- `sizeof(request_t)` -/
def requestSize : ℕ := 8

/-- `sizeof(response_t)` -/
def responseSize : ℕ := 4

/-- The `request_t` of a client: its pid, and one number. -/
def requestBytes (pid : Pid) : List Byte := intBytes pid ++ intBytes 1

@[simp] theorem requestBytes_length (pid : Pid) :
    (requestBytes pid).length = requestSize := by
  simp [requestBytes, requestSize]

/-- `req.pid` -/
def reqPid (req : List Byte) : Int := bytesInt req

/-- `req.seqLen` -/
def reqSeqLen (req : List Byte) : Int := bytesInt (req.drop 4)

/-- A client's FIFO: whether its name exists, which ends are open (an opener
counts while it waits for the other end), which opener may go on, and the
bytes in the pipe. -/
structure Fifo where
  linked : Bool
  reader : Bool
  writer : Bool
  readerWoken : Bool
  writerWoken : Bool
  data : List Byte
deriving DecidableEq, Repr

inductive ClientPc
  | mkfifo
  | openServer
  | send
  | openFifo
  | opening
  | read
  | print
  | returned (code : Int)
  | stopped
deriving DecidableEq, Repr

/-- `answer` is history: what the client's `read` has returned. -/
structure Client where
  pid : Pid
  pc : ClientPc
  fifo : Fifo
  resp : List Byte
  answer : List Byte
  printed : List Int
  notices : List (List Byte)
deriving DecidableEq, Repr

/-- Where the server stands in its loop; `client_fd` is the client whose FIFO
it is, or none for -1. -/
inductive ServerPc
  | read
  | openClient
  | opening (client : ℕ)
  | write (clientFd : Option ℕ)
  | close (clientFd : Option ℕ)
deriving DecidableEq, Repr

/-- The server holds both ends of `serverFifo`.  `reads`, what its reads have
returned, and `sent`, the clients in the order of their requests, are
history. -/
structure State where
  serverFifo : List Byte
  server : ServerPc
  req : List Byte
  seqNum : Int
  notices : List (List Byte)
  clients : List Client
  reads : List (List Byte)
  sent : List Pid
deriving DecidableEq, Repr

/-- The server has opened its FIFO for both directions; `req` holds
anything. -/
def start (req : List Byte) : State where
  serverFifo := []
  server := .read
  req := req
  seqNum := 0
  notices := []
  clients := []
  reads := []
  sent := []

/-- A client of the given pid starts, with anything in its `resp`; the server
or a client makes its next call; a client stops, by a signal or by an exit
that removes its FIFO. -/
inductive Label
  | launch (pid : Pid) (resp : List Byte)
  | server
  | client (i : ℕ)
  | stop (i : ℕ) (unlinks : Bool)
deriving DecidableEq, Repr

/-- The client whose FIFO has the name. -/
def findFifo (clients : List Client) (name : List Byte) : Option ℕ :=
  clients.findIdx? fun c => c.fifo.linked && clientFifo c.pid == name

/-- An open for writing waits unless there is a reader, and wakes one that
waits. -/
def Fifo.openWriter (f : Fifo) : Fifo :=
  { f with
    writer := true
    writerWoken := f.reader
    readerWoken := f.readerWoken || f.reader }

/-- An open for reading waits unless there is a writer, and wakes one that
waits. -/
def Fifo.openReader (f : Fifo) : Fifo :=
  { f with
    reader := true
    readerWoken := f.writer
    writerWoken := f.writerWoken || f.writer }

def Fifo.push (bytes : List Byte) (f : Fifo) : Fifo :=
  { f with data := f.data ++ bytes }

def Fifo.closeWriter (f : Fifo) : Fifo := { f with writer := false }

/-- Change the FIFO of a client. -/
def setFifo (clients : List Client) (i : ℕ) (change : Fifo → Fifo) :
    List Client :=
  clients.modify i fun c => { c with fifo := change c.fifo }

def State.notice (s : State) (message : List Byte) : State :=
  { s with notices := s.notices ++ [message] }

/-- `read(server_fd, &req, sizeof(req))`; it waits while the FIFO is empty. -/
def serverRead (s : State) : Option State :=
  if s.serverFifo = [] then none
  else
    let bytes := s.serverFifo.take requestSize
    let s := { s with
      serverFifo := s.serverFifo.drop requestSize
      req := overlay bytes s.req
      reads := s.reads ++ [bytes] }
    if bytes.length ≠ requestSize then
      some (s.notice (text "server get an error request.\n"))
    else some { s with server := .openClient }

/-- `open(client_fifo, O_WRONLY)` -/
def serverOpen (s : State) : State :=
  let name := clientFifo (reqPid s.req)
  match findFifo s.clients name with
  | none => { s.notice (text "server open " ++ name ++ text " failed.\n") with
      server := .write none }
  | some i => { s with
      clients := setFifo s.clients i Fifo.openWriter
      server := .opening i }

/-- The open returns when there is, or has been, a reader. -/
def serverOpening (s : State) (i : ℕ) : Option State :=
  s.clients[i]?.bind fun c =>
    if c.fifo.writerWoken then some { s with server := .write (some i) }
    else none

/-- `write(client_fd, &resp, sizeof(resp))`; without a reader it fails. -/
def serverWrite (s : State) (clientFd : Option ℕ) : State :=
  let failed := { s.notice (text "response client failed.\n") with
    server := .close clientFd }
  match clientFd with
  | none => failed
  | some i =>
      match s.clients[i]? with
      | none => failed
      | some c =>
          if c.fifo.reader then { s with
            clients := setFifo s.clients i (Fifo.push (intBytes s.seqNum))
            server := .close clientFd }
          else failed

/-- `close(client_fd)` and `seqNum += req.seqLen`. -/
def serverClose (s : State) (clientFd : Option ℕ) : State :=
  let s := { s with
    seqNum := int32 (s.seqNum + reqSeqLen s.req)
    server := .read }
  match clientFd with
  | none => s.notice (text "close client_fd failed.\n")
  | some i => { s with clients := setFifo s.clients i Fifo.closeWriter }

def serverNext (s : State) : Option State :=
  match s.server with
  | .read => serverRead s
  | .openClient => some (serverOpen s)
  | .opening i => serverOpening s i
  | .write clientFd => some (serverWrite s clientFd)
  | .close clientFd => some (serverClose s clientFd)

/-- `mkfifo` fails on a name that exists. -/
def clientMkfifo (s : State) (c : Client) : Client :=
  match findFifo s.clients (clientFifo c.pid) with
  | some _ => { c with
      notices := c.notices ++ [text "client make fifo failed.\n"]
      pc := .returned (-1) }
  | none => { c with fifo.linked := true, pc := .openServer }

/-- `read(client_fd, &resp, sizeof(resp))`; it waits while the FIFO is empty
and has a writer. -/
def clientRead (c : Client) : Option Client :=
  let bytes := c.fifo.data.take responseSize
  if bytes = [] && c.fifo.writer then none
  else
    let c := { c with
      fifo.data := c.fifo.data.drop responseSize
      answer := bytes
      resp := overlay bytes c.resp
      pc := .print }
    if bytes.length ≠ responseSize then some { c with
      notices := c.notices ++ [text "read server response failed.\n"] }
    else some c

/-- The calls of a client after its request. -/
def clientReceives (c : Client) : Option Client :=
  match c.pc with
  | .openFifo => some { c with fifo := c.fifo.openReader, pc := .opening }
  | .opening =>
      if c.fifo.readerWoken then some { c with pc := .read } else none
  | .read => clientRead c
  | .print => some { c with
      printed := c.printed ++ [bytesInt c.resp]
      fifo.linked := false
      fifo.reader := false
      pc := .returned 0 }
  | _ => none

def clientNext (s : State) (i : ℕ) (c : Client) : Option State :=
  match c.pc with
  | .mkfifo => some { s with clients := s.clients.set i (clientMkfifo s c) }
  | .openServer => some { s with
      clients := s.clients.set i { c with pc := .send } }
  | .send => some { s with
      serverFifo := s.serverFifo ++ requestBytes c.pid
      sent := s.sent ++ [c.pid]
      clients := s.clients.set i { c with pc := .openFifo } }
  | _ => (clientReceives c).map fun c =>
      { s with clients := s.clients.set i c }

/-- The process is gone, and with it its ends of the pipes. -/
def clientStop (c : Client) (unlinks : Bool) : Option Client :=
  match c.pc with
  | .returned _ | .stopped => none
  | _ => some { c with
      fifo.linked := c.fifo.linked && !unlinks
      fifo.reader := false
      pc := .stopped }

def next (s : State) : Label → Option State
  | .launch pid resp =>
      if pid ∈ s.clients.map Client.pid then none
      else some { s with
        clients := s.clients ++ [⟨pid, .mkfifo,
          ⟨false, false, false, false, false, []⟩, resp, [], [], []⟩] }
  | .server => serverNext s
  | .client i => s.clients[i]?.bind (clientNext s i)
  | .stop i unlinks => s.clients[i]?.bind fun c =>
      (clientStop c unlinks).map fun c =>
        { s with clients := s.clients.set i c }

end PipeDemo

end MyFreeLib
