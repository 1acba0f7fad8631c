/-
`posix_mq_demo.c` as a channel: processes that create, unlink, send to, receive
from and look at the queue of one name.  A process that has a queue open keeps
it when the name is gone, and a new queue may then have the name.
-/
import MyFreeLib.AttributedLog
import MyFreeLib.Channels
import MyFreeLib.LabelledRun
import MyFreeLib.PosixMq
import MyFreeLib.Script

namespace MyFreeLib

namespace PosixMq

namespace Channel

/-- The calls of the demos.  `mqOpenNew` has the flags `O_CREAT | O_EXCL`, as
has `mqOpenTest`, which names `"/test"`; `printf` of a line is one call with
the `mq_getattr` or `mq_timedreceive` that its values come from. -/
inductive Stmt
  | mqOpenNew
  | mqOpen
  | mqUnlink
  | mqTimedsend
  | malloc
  | mqTimedreceive
  | printMessage
  | mqOpenTest
  | printDefaults
  | mqUnlinkTest
  | printAttributes
  | mqClose
deriving DecidableEq, Repr

def createStmts : List Stmt := [.mqOpenNew, .mqClose]

def unlinkStmts : List Stmt := [.mqUnlink]

/-- With `USE_TIMED` set. -/
def sendStmts : List Stmt := [.mqOpen, .mqTimedsend, .mqClose]

def receiveStmts : List Stmt :=
  [.malloc, .mqOpen, .mqTimedreceive, .printMessage, .mqClose]

def getattrStmts : List Stmt :=
  [.mqOpenTest, .printDefaults, .mqClose, .mqUnlinkTest, .mqOpen, .mqClose,
    .printAttributes]

/-- `argv[1]`, the two notification demos apart. -/
inductive Demo
  | create
  | unlink
  | send
  | receive
  | getattr
deriving DecidableEq, Repr

def Demo.program : Demo → List Stmt
  | .create => createStmts
  | .unlink => unlinkStmts
  | .send => sendStmts
  | .receive => receiveStmts
  | .getattr => getattrStmts

/-- What is printed before `return -1` when the call fails; `none` where the
demo goes on, and for `mq_timedreceive`. -/
def Stmt.failure : Stmt → Option String
  | .mqOpenNew | .mqOpen | .mqOpenTest => some "create posix mq fail.\n"
  | .mqTimedsend => some "mq_send fail.\n"
  | _ => none

def receiveFailure (errno : ℕ) : String :=
  "receive_demo fail, errno=" ++ toString errno ++ ".\n"

/-- `data` is what `msg.data` holds before `snprintf` and `memory` what `malloc`
finds; `mq` is the queue that is open and `msg` what the pointer points to.
`got` is history: the message that the process has taken. -/
structure Process where
  demo : Demo
  pc : ℕ
  data : Fin 128 → Byte
  memory : List Byte
  mq : Option ℕ
  msg : Option (List Byte)
  got : Option Message
  status : Status

/-- A queue with who has sent what to it and who has received what from it. -/
structure Queue where
  mq : Mq
  sent : List (ℕ × Message)
  taken : List (ℕ × Message)

def Queue.new : Queue := ⟨createDemo, [], []⟩

/-- The message arrives, if `mq_send` takes it. -/
def Queue.send (queue : Queue) (i : ℕ) (message : Message) : Option Queue :=
  if queue.mq.Accepts message then
    some { queue with
      mq := queue.mq.arrive message
      sent := queue.sent ++ [(i, message)] }
  else none

/-- The oldest message, if there is one, with the queue that is left. -/
def Queue.receive (queue : Queue) (i : ℕ) : Option (Message × Queue) :=
  match queue.mq.receive msgSize with
  | .message bytes rest => some (bytes, { queue with
      mq := rest
      taken := queue.taken ++ [(i, bytes)] })
  | .tooSmall | .empty => none

/-- `test` says that the name `"/test"` is taken, `defaults` are the system's
`mq_maxmsg` and `mq_msgsize`. -/
structure State where
  queues : NamedObjects Queue
  test : Bool
  defaults : ℕ × ℕ
  processes : List Process
  output : List (ℕ × List Byte)

def start (defaults : ℕ × ℕ) : State := ⟨.empty, false, defaults, [], []⟩

/-- `printf("type=%d, data=%s\n", msg->type, msg->data)` -/
def messageLine (msg : List Byte) : List Byte :=
  text "type=" ++ text (toString (bytesInt msg)) ++ text ", data=" ++
    cString (msg.drop 4) ++ text "\n"

def defaultsLine (attributes : ℕ × ℕ) : List Byte :=
  text ("default mq_maxmsg = " ++ toString attributes.1 ++
    "\ndefault mq_msgsize = " ++ toString attributes.2 ++ "\n")

def attributesLine (mq : Mq) : List Byte :=
  text ("mq_maxmsg = " ++ toString mq.maxmsg ++ "\nmq_msgsize = " ++
    toString mq.msgsize ++ "\n")

/-- Process `i` becomes `p`. -/
def State.put (s : State) (i : ℕ) (p : Process) : State :=
  { s with processes := s.processes.set i p }

def State.print (s : State) (i : ℕ) (line : List Byte) : State :=
  { s with output := s.output ++ [(i, line)] }

/-- The queue that the process has open. -/
def State.queue (s : State) (p : Process) : Option (ℕ × Queue) :=
  p.mq.bind fun k => s.queues.objects[k]?.map fun queue => (k, queue)

/-- The call succeeds. -/
def execute (s : State) (i : ℕ) (p : Process) (stmt : Stmt) : Option State :=
  let q : Process := { p with pc := p.pc + 1 }
  match stmt with
  | .mqOpenNew => (s.queues.create Queue.new).map fun queues =>
      { s with queues }.put i { q with mq := queues.named }
  | .mqOpen => s.queues.named.map fun k => s.put i { q with mq := some k }
  | .mqUnlink => s.queues.named.map fun _ =>
      { s with queues := s.queues.unlink }.put i q
  | .mqTimedsend => (s.queue p).bind fun (k, queue) =>
      (queue.send i (sendDemo p.data)).map fun queue =>
        { s with queues := s.queues.set k queue }.put i q
  | .malloc => some (s.put i { q with msg := some p.memory })
  | .mqTimedreceive => (s.queue p).bind fun (k, queue) =>
      p.msg.bind fun memory =>
        (queue.receive i).map fun (bytes, queue) =>
          { s with queues := s.queues.set k queue }.put i
            { q with msg := some (overlay bytes memory), got := some bytes }
  | .printMessage => p.msg.map fun msg =>
      (s.put i q).print i (messageLine msg)
  | .mqOpenTest =>
      if s.test then none else some ({ s with test := true }.put i q)
  | .printDefaults => some ((s.put i q).print i (defaultsLine s.defaults))
  | .mqUnlinkTest => some ({ s with test := false }.put i q)
  | .printAttributes => (s.queue p).map fun (_, queue) =>
      (s.put i q).print i (attributesLine queue.mq)
  | .mqClose => some (s.put i q)

def step (s : State) (i : ℕ) (p : Process) : Option State :=
  p.status.turn p.demo.program p.pc (execute s i p)
    (some (s.put i { p with status := .ended (some 0) }))

/-- `printf(message); return -1;` -/
def leave (s : State) (i : ℕ) (p : Process) (message : String) : State :=
  (s.put i { p with status := .ended (some (-1)) }).print i (text message)

/-- The call fails.  `mq_timedreceive` gives up only on an empty queue; where
the message can not be copied to memory that is not there, it is lost. -/
def refuse (s : State) (i errno : ℕ) (p : Process) (stmt : Stmt) :
    Option State :=
  let q : Process := { p with pc := p.pc + 1 }
  match stmt with
  | .malloc => some ((s.put i q).print i (text "malloc fail.\n"))
  | .mqUnlink | .mqUnlinkTest => some (s.put i q)
  | .mqTimedreceive => (s.queue p).bind fun (k, queue) =>
      match queue.receive i, p.msg with
      | none, _ => some (leave s i p (receiveFailure errno))
      | some (bytes, queue), none =>
          some (leave { s with queues := s.queues.set k queue } i
            { p with got := some bytes } (receiveFailure errno))
      | some _, some _ => none
  | stmt => stmt.failure.map (leave s i p)

def fails (s : State) (i errno : ℕ) (p : Process) : Option State :=
  p.status.turn p.demo.program p.pc (refuse s i errno p) none

def kill (s : State) (i : ℕ) (p : Process) : Option State :=
  p.status.signal (s.put i { p with status := .ended none })

/-- The next call of a process succeeds, or fails, or a signal kills it. -/
inductive Label
  | launch (demo : Demo) (data : Fin 128 → Byte) (memory : List Byte)
  | step (i : ℕ)
  | fails (i errno : ℕ)
  | kill (i : ℕ)

def next (s : State) : Label → Option State
  | .launch demo data memory => some { s with
      processes := s.processes ++
        [⟨demo, 0, data, memory, none, none, none, .running⟩] }
  | .step i => s.processes[i]?.bind (step s i)
  | .fails i errno => s.processes[i]?.bind (fails s i errno)
  | .kill i => s.processes[i]?.bind (kill s i)

end Channel

end PosixMq

end MyFreeLib
