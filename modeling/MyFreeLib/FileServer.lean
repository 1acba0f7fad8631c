/-
The message-queue file server as a whole: clients with a private queue each,
the parent that forks a child for every request, and the children that send
the file in blocks.  All clients write the same file, which a child may have to
send as well.  Queues are bounded and every call may fail; a label says which
process makes its next call and what the call answers.
-/
import MyFreeLib.SysvMsgServer

namespace MyFreeLib

namespace FileServer

/-- `RESP_MSG_SIZE` -/
def respMsgSize : ℕ := 8192

/-- `RESP_MT_FAILURE`, `RESP_MT_DATA` and `RESP_MT_END` -/
inductive RespType
  | failure
  | data
  | fin
deriving DecidableEq, Repr

/-- A message on a private queue. -/
structure Response where
  mtype : RespType
  data : List Byte
  fits : data.length ≤ respMsgSize
deriving DecidableEq, Repr

/-- The content of a regular file; its size is an `off_t`. -/
structure Content where
  bytes : List Byte
  fits : bytes.length < 2 ^ 63
deriving DecidableEq, Repr

/-- What `write` at a position makes of a file: it fills a gap with zeros, but
not for nothing. -/
def writeAt (bytes : List Byte) (offset : ℕ) (data : List Byte) : List Byte :=
  if data = [] then bytes
  else bytes.take offset ++ List.replicate (offset - bytes.length) 0 ++
    overlay data (bytes.drop offset)

def Content.empty : Content := ⟨[], by decide⟩

/-- `none` where the file would get too large. -/
def Content.write (content : Content) (offset : ℕ) (data : List Byte) :
    Option Content :=
  if h : (writeAt content.bytes offset data).length < 2 ^ 63 then
    some ⟨writeAt content.bytes offset data, h⟩
  else none

/-- What a path leads to; `output` is the file that the clients write, by
whatever path. -/
inductive File
  | regular (content : Content)
  | directory
  | output
deriving DecidableEq, Repr

/-- The file of the clients has to be made by one of them first. -/
def File.Exists (output : Option Content) (file : File) : Prop :=
  file = .output → output.isSome

instance (output : Option Content) (file : File) :
    Decidable (file.Exists output) :=
  inferInstanceAs (Decidable (_ → _))

/-- The bytes that stand in a file when the one of the clients holds
`output`. -/
def File.bytes (output : Option Content) : File → List Byte
  | .regular content => content.bytes
  | .directory => []
  | .output => (output.map Content.bytes).getD []

/-- The path that the client opens. -/
def outputPath : List Byte := text "/tmp/sysv_msg_recive"

/-- Where the paths lead.  Only the file of the clients changes in a run. -/
structure FileTree where
  lookup : List Byte → Option File
  output : lookup outputPath = some .output

instance : CoeFun FileTree fun _ => List Byte → Option File :=
  ⟨FileTree.lookup⟩

/-- An argument that the client accepts: no option and not too long.  As every
C string it contains no zero byte. -/
@[ext] structure Pathname where
  bytes : List Byte
  noZero : 0 ∉ bytes
  notHelp : bytes ≠ text "--help" ∧ bytes ≠ text "-h"
  fits : bytes.length ≤ SysvMsg.pathMax - 1
deriving Repr

instance : DecidableEq Pathname := fun _ _ =>
  decidable_of_iff _ Pathname.ext_iff.symm

/-- The identifier of a private queue, a nonnegative `int`. -/
abbrev QueueId := Fin (2 ^ 31)

/-- `msgsnd` does not block: the queue has room for the size, and counts no
more messages than bytes. -/
def HasRoom (qbytes : ℕ) (sizes : List ℕ) (size : ℕ) : Prop :=
  sizes.sum + size ≤ qbytes ∧ sizes.length + 1 ≤ qbytes

instance (qbytes : ℕ) (sizes : List ℕ) (size : ℕ) :
    Decidable (HasRoom qbytes sizes size) :=
  inferInstanceAs (Decidable (_ ∧ _))

/-- The `msg_qbytes` of the queue of the server and of the private queues. -/
structure Capacity where
  server : ℕ
  client : QueueId → ℕ

/-- Every queue can hold a message. -/
def Capacity.Ample (qbytes : Capacity) : Prop :=
  SysvMsg.reqMsgSize ≤ qbytes.server ∧
    ∀ clientId, respMsgSize ≤ qbytes.client clientId

/-- All queues are of the same size. -/
def Capacity.uniform (size : ℕ) : Capacity := ⟨size, fun _ => size⟩

/-- The call of `serverRequest` that comes next. -/
inductive ChildPc
  | open
  | sendFailure (resp : Response)
  | read
  | sendData (resp : Response)
  | sendEnd
  | exit (code : Int)
  | exited
deriving DecidableEq, Repr

/-- A forked child.  `memory` is its copy of `req`, `offset` the position of
`fd`.  `found`, what stood in the file when it was opened, `sent` and `cut`,
whether what was sent is not what was found, are history. -/
structure Child where
  memory : List Byte
  pc : ChildPc
  fd : Option File
  offset : ℕ
  found : List Byte
  sent : List Response
  cut : Bool
deriving DecidableEq, Repr

/-- A child right after `fork`. -/
def Child.start (memory : List Byte) : Child where
  memory := memory
  pc := .open
  fd := none
  offset := 0
  found := []
  sent := []
  cut := false

/-- `req->clientId` -/
def Child.clientId (p : Child) : Int := SysvMsg.clientId p.memory

/-- `req->pathname` -/
def Child.pathname (p : Child) : List Byte := SysvMsg.pathname p.memory

/-- A call of a child and its outcome; `read` answers -1 or a count. -/
inductive ChildCall
  | open (ok : Bool)
  | read (numRead : Option ℕ)
  | msgsnd (ok : Bool)
  | exit
deriving DecidableEq, Repr

/-- What `snprintf` leaves in `resp.data`. -/
def couldntOpen (pathname : List Byte) : List Byte :=
  (text "Couldn't open " ++ pathname ++ text ".\n").take (respMsgSize - 1)

theorem couldntOpen_fits (pathname : List Byte) :
    (cString (couldntOpen pathname) ++ [0]).length ≤ respMsgSize := by
  have hstring : (cString (couldntOpen pathname)).length ≤
      (couldntOpen pathname).length := (List.takeWhile_prefix _).length_le
  have hbuffer : (couldntOpen pathname).length ≤ respMsgSize - 1 :=
    List.length_take_le _ _
  rw [List.length_append, List.length_singleton]
  simp only [respMsgSize] at hbuffer ⊢
  omega

/-- `strlen(resp.data) + 1` bytes of the text are sent. -/
def failureResp (pathname : List Byte) : Response where
  mtype := .failure
  data := cString (couldntOpen pathname) ++ [0]
  fits := couldntOpen_fits pathname

/-- The last message carries no bytes. -/
def endResp : Response where
  mtype := .fin
  data := []
  fits := Nat.zero_le _

/-- The message that `msgsnd` is called with. -/
def ChildPc.resp : ChildPc → Option Response
  | .sendFailure resp => some resp
  | .sendData resp => some resp
  | .sendEnd => some endResp
  | _ => none

/-- `msgsnd` returns; its result decides where the child goes on. -/
def Child.sends (p : Child) (ok : Bool) (resp : Response) (pc : ChildPc) :
    Child :=
  { p with pc := pc, sent := if ok then p.sent ++ [resp] else p.sent }

/-- The bytes that the messages carry. -/
def payload (responses : List Response) : List Byte :=
  (responses.map Response.data).flatten

/-- Something that was found in the file has not been sent, or it is no file
that could be read. -/
def Child.Short (p : Child) : Prop :=
  payload p.sent ≠ p.found ∨ p.fd = some .directory

instance (p : Child) : Decidable p.Short :=
  inferInstanceAs (Decidable (_ ∨ _))

/-- The loop ends, for whatever reason. -/
def Child.finish (p : Child) : Child :=
  { p with pc := .sendEnd, cut := p.cut || decide p.Short }

/-- A block has been sent. -/
def Child.sendsData (p : Child) (resp : Response) : Child :=
  { p.sends true resp .read with
    cut := p.cut || !decide (payload p.sent ++ resp.data <+: p.found) }

/-- `read` answers a count for a file with these bytes: 0 only at its end. -/
def Child.readCount (p : Child) (bytes : List Byte) (count : ℕ) :
    Option Child :=
  if hfits : ((bytes.drop p.offset).take count).length ≤ respMsgSize then
    if count = 0 then
      if bytes.length ≤ p.offset then some p.finish else none
    else if p.offset + count ≤ bytes.length then some { p with
      offset := p.offset + count
      pc := .sendData ⟨.data, (bytes.drop p.offset).take count, hfits⟩ }
    else none
  else none

/-- One call of `serverRequest` and of the exit that follows, when the file of
the clients holds `output`. -/
def serverRequest (fs : FileTree) (output : Option Content) (p : Child)
    (call : ChildCall) : Option Child :=
  match p.pc, call with
  | .open, .open true => (fs p.pathname).bind fun file =>
      if file.Exists output then some { p with
        fd := some file
        offset := 0
        found := file.bytes output
        pc := .read }
      else none
  | .open, .open false =>
      some { p with pc := .sendFailure (failureResp p.pathname) }
  | .sendFailure resp, .msgsnd ok => some (p.sends ok resp (.exit 1))
  | .read, .read (some count) => p.fd.bind fun file =>
      if file = .directory then none
      else p.readCount (file.bytes output) count
  | .read, .read none => some p.finish
  | .sendData resp, .msgsnd true => some (p.sendsData resp)
  | .sendData _, .msgsnd false => some p.finish
  | .sendEnd, .msgsnd ok => some (p.sends ok endResp (.exit 0))
  | .exit _, .exit => some { p with pc := .exited }
  | _, _ => none

/-- The call of the client that comes next. -/
inductive ClientPc
  | send
  | first
  | open
  | ftruncate
  | lseek
  | firstWrite
  | receive
  | write
  | close
  | returned (code : Int)
deriving DecidableEq, Repr

/-- A client whose argument is accepted and whose queue exists.  When the
queue is `removed`, `queue` shows what was left on it.  `mtype` and `data` are
the fields of `resp`, `fd` is the position in the file.  `stored`, the bytes
that its `write` calls have taken, `received`, `lost`, the bytes received and
not stored, and `misses`, the failed receives of the loop, are history. -/
structure Client where
  pathname : Pathname
  clientId : QueueId
  pc : ClientPc
  queue : List Response
  removed : Bool
  mtype : RespType
  data : List Byte
  msglen : Int
  totBytes : Int
  numMsgs : Int
  fd : Option ℕ
  stored : List Byte
  printed : List (List Byte)
  received : List Response
  lost : ℕ
  misses : ℕ
deriving DecidableEq, Repr

/-- A client before its first `msgsnd`; what the locals hold is never read. -/
def Client.start (pathname : Pathname) (clientId : QueueId) : Client where
  pathname := pathname
  clientId := clientId
  pc := .send
  queue := []
  removed := false
  mtype := .failure
  data := []
  msglen := 0
  totBytes := 0
  numMsgs := 0
  fd := none
  stored := []
  printed := []
  received := []
  lost := 0
  misses := 0

/-- The identifier as it stands in a request. -/
def Client.key (c : Client) : Int := c.clientId.val

def Client.request (c : Client) : SysvMsg.Message :=
  SysvMsg.requestMsg c.key c.pathname.bytes

/-- A `write` stores all the bytes, or fewer, or fails. -/
inductive Written
  | whole
  | short (count : ℕ)
  | fails
deriving DecidableEq, Repr

/-- How many bytes a `write` of `msglen` bytes stores.  Without a file it
fails, and the -1 of a failed `msgrcv` is a count that `write` refuses. -/
def Written.stored (fd : Option ℕ) (msglen : Int) : Written → Option ℕ
  | .whole => if fd.isSome ∧ 0 ≤ msglen then some msglen.toNat else none
  | .short count => if fd.isSome ∧ count < msglen then some count else none
  | .fails => some 0

/-- A call of a client and its outcome. -/
inductive ClientCall
  | msgsnd (ok : Bool)
  | msgrcv (ok : Bool)
  | open (ok : Bool)
  | ftruncate (ok : Bool)
  | lseek
  | write (result : Written)
  | close
deriving DecidableEq, Repr

def Client.printf (c : Client) (line : List Byte) : Client :=
  { c with printed := c.printed ++ [line] }

/-- The return from `main`, after which `removeQueue` runs. -/
def Client.leave (c : Client) (code : Int) : Client :=
  { c with pc := .returned code, removed := true }

/-- `msgrcv` takes the oldest message of the private queue. -/
def Client.take (c : Client) (message : Response) (rest : List Response) :
    Client :=
  { c with
    queue := rest
    mtype := message.mtype
    data := overlay message.data c.data
    msglen := message.data.length
    received := c.received ++ [message] }

/-- The first message decides whether the client goes on. -/
def Client.takeFirst (c : Client) (message : Response)
    (rest : List Response) : Client :=
  let c := c.take message rest
  if c.mtype = .failure then
    (c.printf (cString c.data ++ text "\n")).leave (-1)
  else { c with totBytes := c.msglen, pc := .open }

/-- `totBytes += msglen`, also for the -1 of a failed `msgrcv`. -/
def Client.count (c : Client) : Client :=
  { c with totBytes := int64 (c.totBytes + c.msglen), pc := .write }

/-- A failed `msgrcv` in the loop is reported and otherwise ignored. -/
def Client.miss (c : Client) : Client :=
  { c.printf (text "msgrcv fail.\n") with
    msglen := -1
    misses := c.misses + 1 }

/-- `write(fd, resp.data, msglen)` has stored `count` bytes. -/
def Client.store (c : Client) (result : Written) (count : ℕ) : Client :=
  let c := { c with
    fd := c.fd.map (· + count)
    stored := c.stored ++ c.data.take count
    lost := c.lost + (c.msglen.toNat - count) }
  if result = .fails then c.printf (text "write fail.\n") else c

/-- The condition of the loop, with the number of messages so far. -/
def Client.loop (c : Client) (numMsgs : Int) : Client :=
  { c with
    numMsgs := numMsgs
    pc := if c.mtype = .data then .receive else .close }

def Client.summary (c : Client) : List Byte :=
  text s!"received {c.totBytes} bytes ({c.numMsgs} messgae)\n"

/-- One call of the client's `main`, from its `msgsnd` on. -/
def clientMain (c : Client) (call : ClientCall) : Option Client :=
  match c.pc, call with
  | .send, .msgsnd true => some { c with pc := .first }
  | .send, .msgsnd false =>
      some ((c.printf (text "send messgae to server fail.\n")).leave (-1))
  | .first, .msgrcv true =>
      match c.queue with
      | message :: rest => some (c.takeFirst message rest)
      | [] => none
  | .first, .msgrcv false => some ((c.printf
      (text "fail to get messgae from client queue.\n")).leave (-1))
  | .open, .open ok =>
      some { c with fd := if ok then some 0 else none, pc := .ftruncate }
  | .ftruncate, .ftruncate ok =>
      if ok → c.fd.isSome then some { c with pc := .lseek } else none
  | .lseek, .lseek =>
      some { c with fd := c.fd.map fun _ => 0, pc := .firstWrite }
  | .firstWrite, .write result => (result.stored c.fd c.msglen).map fun count =>
      (c.store result count).loop 1
  | .receive, .msgrcv true =>
      match c.queue with
      | message :: rest => some (c.take message rest).count
      | [] => none
  | .receive, .msgrcv false => some c.miss.count
  | .write, .write result => (result.stored c.fd c.msglen).map fun count =>
      (c.store result count).loop (int32 (c.numMsgs + 1))
  | .close, .close => some ((c.printf c.summary).leave 0)
  | _, _ => none

/-- What a call does to the file of the clients, which `open` makes if there
is none. -/
def Client.outputNext (c : Client) (output : Option Content) :
    ClientCall → Option (Option Content)
  | .open true => some (some (output.getD .empty))
  | .ftruncate true => some (some .empty)
  | .write result =>
      match c.fd, result.stored c.fd c.msglen with
      | some offset, some count =>
          ((output.getD .empty).write offset (c.data.take count)).map some
      | _, _ => some output
  | _ => some output

/-- `children` has one entry for each child in the table of `server`; `output`
is the file of the clients, once there is one. -/
structure State where
  server : SysvMsg.State
  children : List Child
  clients : List Client
  output : Option Content
deriving DecidableEq, Repr

/-- The server has been started, on a stack with the given contents, where the
clients' file may have been left by others. -/
def start (memory : List Byte) (output : Option Content) : State where
  server := { SysvMsg.initial with
    queue := some []
    parent := some ⟨.receive, memory⟩ }
  children := []
  clients := []
  output := output

/-- One step: a client is launched with a queue of its own, the parent makes a
call, or a child or a client does. -/
inductive Label
  | launch (pathname : Pathname) (clientId : QueueId)
  | receive
  | interrupted
  | fork
  | child (j : ℕ) (call : ChildCall)
  | client (k : ℕ) (call : ClientCall)
deriving DecidableEq, Repr

def Response.size (resp : Response) : ℕ := resp.data.length

def Client.enqueue (c : Client) (resp : Response) : Client :=
  { c with queue := c.queue ++ [resp] }

/-- A response is put on the queue with the given identifier. -/
def deliver (qbytes : Capacity) (clients : List Client) (key : Int)
    (resp : Response) : Option (List Client) :=
  (clients.findIdx? fun c => c.key == key).bind fun k =>
    clients[k]?.bind fun c =>
      if c.removed = false ∧
          HasRoom (qbytes.client c.clientId)
            (c.queue.map Response.size) resp.size then
        some (clients.set k (c.enqueue resp))
      else none

/-- A request is put on the queue of the server. -/
def post (qbytes : ℕ) (server : SysvMsg.State) (message : SysvMsg.Message) :
    Option SysvMsg.State :=
  server.queue.bind fun queue =>
    if HasRoom qbytes (queue.map List.length) message.length then
      SysvMsg.next server (.post message)
    else none

/-- The call of a child, with what it does to the others. -/
def childNext (fs : FileTree) (qbytes : Capacity) (s : State)
    (j : ℕ) (p : Child) (call : ChildCall) : Option State :=
  (serverRequest fs s.output p call).bind fun moved =>
    match call with
    | .msgsnd true => p.pc.resp.bind fun resp =>
        (deliver qbytes s.clients p.clientId resp).map fun clients =>
          { s with children := s.children.set j moved, clients := clients }
    | .exit => (SysvMsg.next s.server (.childExits j)).map fun server =>
        { s with children := s.children.set j moved, server := server }
    | _ => some { s with children := s.children.set j moved }

/-- The call of a client, with what it does to the others. -/
def clientNext (qbytes : Capacity) (s : State) (k : ℕ) (c : Client)
    (call : ClientCall) : Option State :=
  (clientMain c call).bind fun moved =>
    match call with
    | .msgsnd true => (post qbytes.server s.server c.request).map fun server =>
        { s with clients := s.clients.set k moved, server := server }
    | _ => (c.outputNext s.output call).map fun output =>
        { s with clients := s.clients.set k moved, output := output }

def next (fs : FileTree) (qbytes : Capacity) (s : State) :
    Label → Option State
  | .launch pathname clientId =>
      if clientId ∈ s.clients.map Client.clientId then none
      else some { s with
        clients := s.clients ++ [Client.start pathname clientId] }
  | .receive => (SysvMsg.next s.server .receive).map fun server =>
      { s with server := server }
  | .interrupted => (SysvMsg.next s.server .interrupted).map fun server =>
      { s with server := server }
  | .fork => s.server.parent.bind fun parent =>
      (SysvMsg.next s.server .fork).map fun server => { s with
        server := server
        children := s.children ++ [Child.start parent.memory] }
  | .child j call => s.children[j]?.bind fun p =>
      childNext fs qbytes s j p call
  | .client k call => s.clients[k]?.bind fun c =>
      clientNext qbytes s k c call

end FileServer

end MyFreeLib
