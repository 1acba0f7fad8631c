/-
The parent of the message-queue file server: it takes one request at a time
into one structure and forks a child for each.  The structure is used again
and again, the handlers are inherited, and the queue is shared with any other
writer.
-/
import MyFreeLib.IntBytes
import MyFreeLib.LabelledRun
import MyFreeLib.ProcessTable

namespace MyFreeLib

namespace SysvMsg

/-- `PATH_MAX` -/
def pathMax : ℕ := 300

/-- `REQ_MSG_SIZE`, from `clientId` to the end of `pathname`. -/
def reqMsgSize : ℕ := 4 + pathMax

def serverKey : ℕ := 0x1aaaaaa1

def ipcRmid : ℕ := 0

/-- The bytes of a message after its type. -/
abbrev Message := List Byte

/-- `req.clientId`, in the memory that begins there. -/
def clientId (memory : List Byte) : Int := bytesInt memory

/-- `req.pathname` -/
def pathname (memory : List Byte) : List Byte := cString (memory.drop 4)

/-- Whom a child answers and what it opens. -/
def served (memory : List Byte) : Int × List Byte :=
  (clientId memory, pathname memory)

/-- The request as the client writes it.  `strncpy` fills all of `pathname` but
the last byte, which the client sets itself. -/
def requestMsg (clientId : Int) (arg : List Byte) : Message :=
  intBytes clientId ++ (strncpy [] arg (pathMax - 1) ++ [0])

/-- `msgctl` on a queue; only `IPC_RMID` removes it. -/
def msgctl (cmd : ℕ) (queue : Option (List Message)) :
    Option (List Message) :=
  if cmd = ipcRmid then none else queue

/-- Where `main` stands in its loop; `fork` remembers the message received. -/
inductive ParentPc
  | receive
  | fork (message : Message)
deriving DecidableEq, Repr

/-- `memory` begins at `req.clientId` and goes on with the rest of the stack. -/
structure Parent where
  pc : ParentPc
  memory : List Byte
deriving DecidableEq, Repr

/-- A forked child with its copy of `req`; `message` is history, the message
it was forked for. -/
structure Child where
  message : Message
  memory : List Byte
  running : Bool
deriving DecidableEq, Repr

/-- `queue` is the queue with key `SERVER_KEY`, `parent` the serving process.
`sent`, every message put on the queue, and `ended`, the exit codes of the
servers that have ended, are history. -/
structure State where
  queue : Option (List Message)
  parent : Option Parent
  children : List Child
  sent : List Message
  ended : List Int
  notices : List String
deriving DecidableEq, Repr

/-- Nothing has been started. -/
def initial : State := ⟨none, none, [], [], [], []⟩

/-- One step: a server is started on a stack with the given contents, any
process puts a message on the queue, `msgrcv` of the parent answers (with a
message, `EINTR`, `E2BIG` or another error), `fork` answers, a signal reaches
the parent, a child ends or is ended by a signal. -/
inductive Label
  | start (memory : List Byte)
  | post (message : Message)
  | receive
  | interrupted
  | tooLong
  | receiveFails
  | fork
  | forkFails
  | signal (sig : ℕ)
  | childExits (i : ℕ)
  | childSignal (i : ℕ) (sig : ℕ)
deriving DecidableEq, Repr

/-- `clean`, run by `exit` and by the return from `main`. -/
def clean (s : State) : State :=
  { s with
    notices := s.notices ++ ["Remove message queue.\n"]
    queue := msgctl serverKey s.queue }

/-- The first lines of `sig_handler`. -/
def sigHandler (s : State) (sig : ℕ) : State :=
  { s with
    notices := s.notices ++ [s!"Receive signal({sig}).\n"]
    queue := msgctl serverKey s.queue }

/-- The parent leaves `main` or calls `exit`. -/
def leave (s : State) (code : Int) : State :=
  { clean s with parent := none, ended := s.ended ++ [code] }

def printf (s : State) (message : String) : State :=
  { s with notices := s.notices ++ [message] }

/-- `main` up to its loop.  `IPC_EXCL` refuses a queue that exists. -/
def main (s : State) (memory : List Byte) : Option State :=
  match s.queue, s.parent with
  | some _, _ => some { printf s "Create server message queue fail.\n" with
      ended := s.ended ++ [-1] }
  | none, none => some { s with
      queue := some []
      parent := some ⟨.receive, memory⟩ }
  | none, some _ => none

/-- `msgrcv(serverId, &req, REQ_MSG_SIZE, 0, 0)` -/
def receive (s : State) (p : Parent) : Option State :=
  match s.queue with
  | some (message :: rest) =>
      if message.length ≤ reqMsgSize then some { s with
        queue := some rest
        parent := some ⟨.fork message, overlay message p.memory⟩ }
      else none
  | _ => none

/-- The oldest message does not fit and stays where it is. -/
def tooLong (s : State) : Option State :=
  match s.queue with
  | some (message :: _) =>
      if reqMsgSize < message.length then
        some (leave (printf s "msgrcv fail.\n") (-1))
      else none
  | _ => none

/-- A step of the serving parent, if there is one. -/
def parentNext (s : State) (p : Parent) (label : Label) : Option State :=
  match p.pc, label with
  | .receive, .receive => receive s p
  | .receive, .interrupted => some s
  | .receive, .tooLong => tooLong s
  | .receive, .receiveFails =>
      some (leave (printf s "msgrcv fail.\n") (-1))
  | .fork message, .fork => some { s with
      children := s.children ++ [⟨message, p.memory, true⟩]
      parent := some { p with pc := .receive } }
  | .fork _, .forkFails => some (leave (printf s "fork fail.\n") 0)
  | _, .signal sig => some (leave (sigHandler s sig) (-1))
  | _, _ => none

/-- A running child ends; it has inherited the handlers. -/
def childEnds (s : State) (i : ℕ) : Option State :=
  s.children[i]?.bind fun c =>
    if c.running then some { clean s with
      children := s.children.set i { c with running := false } }
    else none

def next (s : State) : Label → Option State
  | .start memory => main s memory
  | .post message => s.queue.map fun queue => { s with
      queue := some (queue ++ [message])
      sent := s.sent ++ [message] }
  | .childExits i => childEnds s i
  | .childSignal i sig => childEnds (sigHandler s sig) i
  | label => s.parent.bind fun p => parentNext s p label

/-- The command that the handlers pass is not `IPC_RMID`. -/
@[simp] theorem msgctl_serverKey (queue : Option (List Message)) :
    msgctl serverKey queue = queue := rfl

/-- The server parent terminates: by a signal, a fatal error of `msgrcv` or a
failed `fork`. -/
def Label.EndsParent : Label → Prop
  | .tooLong | .receiveFails | .forkFails | .signal _ => True
  | _ => False

/-- Everything a step of the parent can do. -/
theorem parentNext_cases {s t : State} {p : Parent} {label : Label}
    (h : parentNext s p label = some t) :
    (label = .interrupted ∧ t = s) ∨
    (∃ message rest, label = .receive ∧ p.pc = .receive ∧
      s.queue = some (message :: rest) ∧ message.length ≤ reqMsgSize ∧
      t = { s with
        queue := some rest
        parent := some ⟨.fork message, overlay message p.memory⟩ }) ∨
    (∃ message, label = .fork ∧ p.pc = .fork message ∧
      t = { s with
        children := s.children ++ [⟨message, p.memory, true⟩]
        parent := some ⟨.receive, p.memory⟩ }) ∨
    (label.EndsParent ∧
      (label = .tooLong → ∃ message rest, s.queue = some (message :: rest) ∧
        reqMsgSize < message.length) ∧
      ∃ notices code, t = leave { s with notices } code) := by
  unfold parentNext at h
  split at h
  · next hpc =>
      unfold receive at h
      split at h
      · next message rest hqueue =>
          obtain ⟨hsize, rfl⟩ := guarded_eq_some.mp h
          exact Or.inr (Or.inl ⟨message, rest, rfl, hpc, hqueue, hsize, rfl⟩)
      · cases h
  · cases h
    exact Or.inl ⟨rfl, rfl⟩
  · unfold tooLong at h
    split at h
    · next message rest hqueue =>
        obtain ⟨hlong, rfl⟩ := guarded_eq_some.mp h
        exact Or.inr (Or.inr (Or.inr
          ⟨trivial, fun _ => ⟨message, rest, hqueue, hlong⟩, _, _, rfl⟩))
    · cases h
  · cases h
    exact Or.inr (Or.inr (Or.inr ⟨trivial, by simp, _, _, rfl⟩))
  · next message hpc =>
      cases h
      exact Or.inr (Or.inr (Or.inl ⟨message, rfl, hpc, rfl⟩))
  · cases h
    exact Or.inr (Or.inr (Or.inr ⟨trivial, by simp, _, _, rfl⟩))
  · cases h
    exact Or.inr (Or.inr (Or.inr ⟨trivial, by simp, _, _, rfl⟩))
  · cases h

/-- The end of a child leaves the queue and the parent alone. -/
theorem childEnds_cases {s t : State} {i : ℕ} (h : childEnds s i = some t) :
    ∃ c notices, s.children[i]? = some c ∧
      t = { s with
        notices := notices
        children := s.children.set i { c with running := false } } := by
  obtain ⟨c, hc, hend⟩ := Option.bind_eq_some_iff.mp h
  obtain ⟨-, rfl⟩ := guarded_eq_some.mp hend
  exact ⟨c, _, hc, rfl⟩

end SysvMsg

end MyFreeLib
