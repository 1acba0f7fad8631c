/-
The UDP echo demo.  A client sends its arguments one by one and reads the
answer to each before the next; the server sends every datagram back to where
it came from.  The network delivers in any order.
-/
import MyFreeLib.ByteBuffer
import MyFreeLib.LabelledRun

namespace MyFreeLib

namespace InetSocket

/-- `BUF_SIZE` -/
def bufSize : ℕ := 500

/-- A client's address; each has its own. -/
abbrev Addr := ℕ

/-- A datagram, under the address of the client that sent it or is to get
it. -/
abbrev Datagram := Addr × List Byte

inductive ServerPc
  | recvfrom
  | sendto
deriving DecidableEq, Repr

/-- `log` is what the server prints: bytes received, and from whom. -/
structure Server where
  pc : ServerPc
  buf : List Byte
  nread : ℕ
  peerAddr : Addr
  log : List (ℕ × Addr)
deriving DecidableEq, Repr

inductive ClientPc
  | loop
  | read
  | returned (code : Int)
deriving DecidableEq, Repr

/-- What the client prints of a response: `nread`, and the string in `buf`. -/
structure Response where
  nread : ℕ
  buf : List Byte
deriving DecidableEq, Repr

/-- `argv` begins with the first message, `argv[4]` in the source, and `j`
counts from there. -/
structure Client where
  pc : ClientPc
  argv : List CString
  j : ℕ
  buf : List Byte
  responses : List Response
  notices : List String
deriving DecidableEq, Repr

structure State where
  server : Server
  clients : List Client
  toServer : List Datagram
  toClient : List Datagram
deriving DecidableEq, Repr

/-- The server is bound and nothing is known of its buffer. -/
def start (buf : List Byte) : State where
  server := ⟨.recvfrom, buf, 0, 0, []⟩
  clients := []
  toServer := []
  toClient := []

/-- A client is connected; the server or a client makes its next call, where
`n` is the datagram that the network delivers to it. -/
inductive Label
  | launch (argv : List CString) (buf : List Byte)
  | recvfrom (n : ℕ)
  | sendto
  | client (i : ℕ)
  | read (i n : ℕ)
deriving DecidableEq, Repr

/-- `recvfrom(sfd, buf, BUF_SIZE, ...)` and the line printed. -/
def recvfrom (s : State) (n : ℕ) : Option State :=
  match s.server.pc, s.toServer[n]? with
  | .recvfrom, some (addr, bytes) =>
      let received := bytes.take bufSize
      some { s with
        toServer := s.toServer.eraseIdx n
        server := {
          pc := .sendto
          buf := overlay received s.server.buf
          nread := received.length
          peerAddr := addr
          log := s.server.log ++ [(received.length, addr)] } }
  | _, _ => none

/-- `sendto(sfd, buf, nread, 0, (struct sockaddr *) &peer_addr, ...)` -/
def sendto (s : State) : Option State :=
  match s.server.pc with
  | .sendto => some { s with
      toClient := s.toClient ++
        [(s.server.peerAddr, s.server.buf.take s.server.nread)]
      server.pc := .recvfrom }
  | .recvfrom => none

/-- The argument and its zero fit into `buf`. -/
def Fits (arg : CString) : Prop := strlen arg.memory + 1 ≤ bufSize

instance (arg : CString) : Decidable (Fits arg) :=
  inferInstanceAs (Decidable (_ ≤ _))

/-- The head of the loop: the next argument is skipped if it is too long, and
written otherwise. -/
def clientLoop (s : State) (i : ℕ) (c : Client) : State :=
  match c.argv[c.j]? with
  | none => { s with clients := s.clients.set i { c with pc := .returned 0 } }
  | some arg =>
      let len := strlen arg.memory + 1
      if len > bufSize then { s with
        clients := s.clients.set i { c with
          j := c.j + 1
          notices := c.notices ++
            [s!"Ignoring long message in argument {c.j + 4}\n"] } }
      else { s with
        toServer := s.toServer ++ [(i, arg.memory.take len)]
        clients := s.clients.set i { c with pc := .read } }

/-- `read(sfd, buf, BUF_SIZE)` of a datagram, and what is printed of it. -/
def clientRead (c : Client) (bytes : List Byte) : Client :=
  let received := bytes.take bufSize
  let buf := overlay received c.buf
  { c with
    pc := .loop
    j := c.j + 1
    buf := buf
    responses := c.responses ++ [⟨received.length, buf⟩] }

/-- The network delivers a datagram to the client it is for. -/
def deliver (s : State) (i n : ℕ) (c : Client) : Option State :=
  match c.pc, s.toClient[n]? with
  | .read, some (addr, bytes) =>
      if addr = i then some { s with
        toClient := s.toClient.eraseIdx n
        clients := s.clients.set i (clientRead c bytes) }
      else none
  | _, _ => none

def next (s : State) : Label → Option State
  | .launch argv buf => some { s with
      clients := s.clients ++ [⟨.loop, argv, 0, buf, [], []⟩] }
  | .recvfrom n => recvfrom s n
  | .sendto => sendto s
  | .client i => s.clients[i]?.bind fun c =>
      if c.pc = .loop then some (clientLoop s i c) else none
  | .read i n => s.clients[i]?.bind fun c => deliver s i n c

end InetSocket

end MyFreeLib
