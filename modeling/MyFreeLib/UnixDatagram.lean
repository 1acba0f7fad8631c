/-
The datagram server and its clients.  A new server takes the path away from
the one before; a client finds the server anew for each line and does not look
at what `sendto` returns.
-/
import MyFreeLib.Channels
import MyFreeLib.Dispatch
import MyFreeLib.UnixSocket
import MyFreeLib.UnixSocketPeers

namespace MyFreeLib

namespace UnixSocket

namespace Datagram

/-- The message number `number` of a client. -/
structure Message where
  client : ℕ
  number : ℕ
  bytes : List Byte
deriving DecidableEq, Repr

/-- A socket bound to the path.  `owner` and `taken`, what has been received
from it, are history. -/
structure Endpoint where
  owner : ℕ
  isOpen : Bool
  taken : List Message
  queue : List Message
deriving DecidableEq, Repr

inductive ServerPc
  | socket
  | remove
  | bind
  | recvfrom
  | print
  | bye
  | close
  | ended (code : Option ℤ)
deriving DecidableEq, Repr

/-- `peers` holds `csaddr`, `addr_len` and what has been printed of
`csaddr.sun_path`; `texts`, what has been printed of `msg`. -/
structure ServerProcess where
  pc : ServerPc
  msg : List Byte
  peers : UnixSocket.Server
  endpoint : Option ℕ
  texts : List (List Byte)
  notices : List String
deriving DecidableEq, Repr

inductive ClientStatus
  | opening
  | running
  | ended (code : Option ℤ)
deriving DecidableEq, Repr

/-- `fates` is history: for each `sendto`, the socket that has got the packet,
if any. -/
structure ClientProcess where
  status : ClientStatus
  stdin : ByteStream
  client : Client
  fates : List (Option ℕ)

structure State where
  path : NamedObjects Endpoint
  servers : List ServerProcess
  clients : List ClientProcess

def start : State := ⟨.empty, [], []⟩

/-- `msg` of a process holds anything at first. -/
def launchServer (msg : Fin msgSize → Byte) : ServerProcess :=
  ⟨.socket, List.ofFn msg, Server.start, none, [], []⟩

def launchClient (msg : Fin msgSize → Byte) (stdin : ByteStream) :
    ClientProcess :=
  ⟨.opening, stdin, startClient msg, []⟩

def State.putServer (s : State) (i : ℕ) (p : ServerProcess) : State :=
  { s with servers := s.servers.set i p }

def State.putClient (s : State) (i : ℕ) (c : ClientProcess) : State :=
  { s with clients := s.clients.set i c }

/-- `recvfrom(sfd, msg, sizeof(msg), 0, &csaddr, &addr_len)` from a client,
whose socket has no path. -/
def ServerProcess.receive (p : ServerProcess) (message : Message) :
    ServerProcess :=
  { p with
    pc := .print
    msg := overlay (message.bytes.take msgSize) p.msg
    peers := p.peers.receive (Peer.unnamed.address []) }

/-- `printf("recv from %s: %s\n", csaddr.sun_path, msg)` -/
def ServerProcess.print (p : ServerProcess) : ServerProcess :=
  { p with
    pc := .recvfrom
    peers := p.peers.print
    texts := p.texts ++ [cString p.msg] }

/-- The socket of a process is closed with it; what is queued there is lost. -/
def State.shut (s : State) (p : ServerProcess) : State :=
  match p.endpoint with
  | none => s
  | some k =>
      match s.path.objects[k]? with
      | none => s
      | some e => { s with path := s.path.set k { e with isOpen := false } }

/-- The next call of `data_server_demo` succeeds. -/
def dataServer (s : State) (i : ℕ) (p : ServerProcess) : Option State :=
  match p.pc with
  | .socket => some (s.putServer i { p with pc := .remove })
  | .remove => some ({ s with path := s.path.unlink }.putServer i
      { p with pc := .bind })
  | .bind => (s.path.create ⟨i, true, [], []⟩).map fun path =>
      { s with path }.putServer i
        { p with pc := .recvfrom, endpoint := some s.path.objects.length }
  | .recvfrom => p.endpoint.bind fun k => s.path.objects[k]?.bind fun e =>
      match e.queue with
      | [] => none
      | message :: rest => some
          ({ s with path := s.path.set k { e with
              taken := e.taken ++ [message]
              queue := rest } }.putServer i (p.receive message))
  | .print => some (s.putServer i p.print)
  | .bye => some (s.putServer i
      { p with pc := .close, notices := p.notices ++ ["bye...\n"] })
  | .close => some ((s.shut p).putServer i { p with pc := .ended (some 0) })
  | .ended _ => none

/-- `printf(notice); return -1;`, which closes the socket if there is one. -/
def State.leave (s : State) (i : ℕ) (p : ServerProcess) (notice : String) :
    State :=
  s.putServer i { p with
    pc := .ended (some (-1))
    notices := p.notices ++ [notice] }

/-- The call fails; nobody looks at what `remove` returns. -/
def dataServerFails (s : State) (i : ℕ) (p : ServerProcess) : Option State :=
  match p.pc with
  | .socket => some (s.leave i p "socket failed.\n")
  | .remove => some (s.putServer i { p with pc := .bind })
  | .bind => some (s.leave i p "bind failed.\n")
  | .recvfrom => some (s.putServer i { p with pc := .bye })
  | .print | .bye | .close | .ended _ => none

def killServer (s : State) (i : ℕ) (p : ServerProcess) : Option State :=
  match p.pc with
  | .ended _ => none
  | _ => some ((s.shut p).putServer i { p with pc := .ended none })

/-- The socket that a packet sent to the path gets to. -/
def State.listener (s : State) : Option (ℕ × Endpoint) :=
  s.path.named.bind fun k => s.path.objects[k]?.bind fun e =>
    if e.isOpen then some (k, e) else none

/-- Packet number `number` of client `i` has been handed to `sendto`.  Queues
have no bound here: a full one makes a client wait, which it can do anyway. -/
def State.post (s : State) (i number : ℕ) (bytes : List Byte) : State :=
  match s.listener with
  | none => s
  | some (k, e) => { s with path := s.path.set k { e with
      queue := e.queue ++ [⟨i, number, bytes⟩] } }

/-- The next call of `data_client_demo`. -/
def dataClient (s : State) (i : ℕ) (c : ClientProcess) : Option State :=
  match c.status with
  | .opening => some (s.putClient i { c with status := .running })
  | .running =>
      match dataClientDemo c.stdin c.client with
      | none => some (s.putClient i { c with status := .ended (some 0) })
      | some client =>
          if c.client.pc = .send then
            let t := s.post i c.fates.length (c.client.msg.take msgSize)
            some (t.putClient i { c with
              client
              fates := c.fates ++ [s.listener.map Prod.fst] })
          else some (s.putClient i { c with client })
  | .ended _ => none

/-- `socket` fails, or `sendto`, which nobody looks at. -/
def dataClientFails (s : State) (i : ℕ) (c : ClientProcess) : Option State :=
  match c.status with
  | .opening => some (s.putClient i { c with status := .ended (some (-1)) })
  | .running =>
      if c.client.pc = .send then
        (dataClientDemo c.stdin c.client).map fun client =>
          s.putClient i { c with client, fates := c.fates ++ [none] }
      else none
  | .ended _ => none

def killClient (s : State) (i : ℕ) (c : ClientProcess) : Option State :=
  match c.status with
  | .ended _ => none
  | _ => some (s.putClient i { c with status := .ended none })

inductive Label
  | launchServer (msg : Fin msgSize → Byte)
  | launchClient (msg : Fin msgSize → Byte) (stdin : ByteStream)
  | server (i : ℕ)
  | serverFails (i : ℕ)
  | killServer (i : ℕ)
  | client (i : ℕ)
  | clientFails (i : ℕ)
  | killClient (i : ℕ)

def next (s : State) : Label → Option State
  | .launchServer msg => some { s with
      servers := s.servers ++ [launchServer msg] }
  | .launchClient msg stdin => some { s with
      clients := s.clients ++ [launchClient msg stdin] }
  | .server i => s.servers[i]?.bind (dataServer s i)
  | .serverFails i => s.servers[i]?.bind (dataServerFails s i)
  | .killServer i => s.servers[i]?.bind (killServer s i)
  | .client i => s.clients[i]?.bind (dataClient s i)
  | .clientFails i => s.clients[i]?.bind (dataClientFails s i)
  | .killClient i => s.clients[i]?.bind (killClient s i)

end Datagram

end UnixSocket

end MyFreeLib
