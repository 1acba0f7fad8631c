/-
`pipe_demo.c`: a parent and its children at the two ends of a pipe.  A fork
copies the descriptors, the buffer `buf` and what `printf` has not written yet.
-/
import MyFreeLib.LabelledRun
import MyFreeLib.Memory
import MyFreeLib.Script
import MyFreeLib.SharedOutput

namespace MyFreeLib

namespace PipeFork

/-- `SIZE_OF_READ_BUF` -/
def sizeOfReadBuf : ℕ := 100

/-- What a `printf` shows; none if that depends on bytes nobody has stored. -/
abbrev Line := Option (List Byte)

/-- The argument on the command line. -/
inductive Demo
  | demo
  | sync
  | redirect
deriving DecidableEq, Repr

/-- A `notice` is printed where the call fails; without one nobody looks. -/
inductive Stmt
  | print (line : String)
  | pipe
  | fork
  | closeRead (notice : Option String)
  | closeWrite (notice : Option String)
  | sleep
  | dup2
  | write (block : List Byte)
  | read
  | printBuf
  | printPid
  | readEof
  | readLoop
  | echo
deriving DecidableEq, Repr

/-- The process that `main` runs in; `for` loops are written out. -/
def parentProgram : Demo → List Stmt
  | .demo => [.print "pipe_demo start\n", .pipe, .fork,
      .closeRead (some "Child close read pipefd failed.\n"),
      .print "Parent write pipe.\n", .write (text "123456789" ++ [0])]
  | .sync => [.print "pipe_sync start\n", .pipe, .fork, .fork,
      .closeWrite (some "parent close write end failed.\n"),
      .print "Waiting for child close write\n", .readEof,
      .print "all child close write end, parent ready to go.\n"]
  | .redirect => [.print "pipe_redirect start\n", .pipe, .fork,
      .closeRead none, .dup2, .write ((text "abc===\n").take 4), .sleep]

/-- From `case 0` on. -/
def childProgram : Demo → List Stmt
  | .demo => [.closeWrite (some "Child close write pipefd failed.\n"), .read,
      .printBuf]
  | .sync => [.closeRead (some "close read end failed.\n"), .sleep, .printPid,
      .closeWrite none]
  | .redirect => [.closeWrite none, .readLoop, .echo]

def forkNotice : Demo → String
  | .demo => "Fork failed.\n"
  | .sync | .redirect => "fork failed.\n"

/-- `writeEnds` counts the descriptors for the write end.  `got`, what has been
read, and `sawEof`, that the `read` of `readEof` has returned zero, are
history. -/
structure Process where
  child : Bool
  pc : ℕ
  readEnd : Bool
  writeEnds : ℕ
  buf : Memory
  got : List Byte
  sawEof : Bool
  status : Status
deriving DecidableEq, Repr

structure State where
  demo : Demo
  content : List Byte
  processes : List Process
  out : SharedOutput Line
deriving Repr

def start (which : Demo) (terminal : Bool) : State where
  demo := which
  content := []
  processes := [⟨false, 0, false, 0, Memory.fresh sizeOfReadBuf, [], false,
    .running⟩]
  out := .start terminal

def Process.program (which : Demo) (p : Process) : List Stmt :=
  if p.child then childProgram which else parentProgram which

def State.put (s : State) (i : ℕ) (p : Process) : State :=
  { s with processes := s.processes.set i p }

def State.print (s : State) (i : ℕ) (line : Line) : State :=
  { s with out := s.out.print i line }

def Process.gone (p : Process) (code : Option ℤ) : Process :=
  { p with readEnd := false, writeEnds := 0, status := .ended code }

/-- `main` returns, which flushes the buffer of `printf`. -/
def State.exit (s : State) (i : ℕ) (p : Process) (code : ℤ) : State :=
  { s.put i (p.gone (some code)) with out := s.out.flush i }

/-- A signal ends the process. -/
def State.die (s : State) (i : ℕ) (p : Process) : State :=
  { s.put i (p.gone none) with out := s.out.kill i }

def State.hasReader (s : State) : Prop := ∃ p ∈ s.processes, p.readEnd = true

def State.hasWriter (s : State) : Prop := ∃ p ∈ s.processes, 0 < p.writeEnds

instance (s : State) : Decidable s.hasReader :=
  inferInstanceAs (Decidable (∃ p ∈ s.processes, p.readEnd = true))

instance (s : State) : Decidable s.hasWriter :=
  inferInstanceAs (Decidable (∃ p ∈ s.processes, 0 < p.writeEnds))

/-- `read(pipefd[0], buf, SIZE_OF_READ_BUF)`: what is there, nothing at the end
of the file, and no answer while somebody could still write. -/
def State.read (s : State) : Option (List Byte) :=
  if s.content ≠ [] then some (s.content.take sizeOfReadBuf)
  else if s.hasWriter then none
  else some []

def State.taken (s : State) : State :=
  { s with content := s.content.drop sizeOfReadBuf }

/-- The process has read a block into `buf`. -/
def Process.receive (p : Process) (block : List Byte) : Process :=
  { p with buf := Memory.store block p.buf, got := p.got ++ block }

def notEof : String := "parent didn't get EOF\n"

def closing (pid : ℕ) : Line :=
  some (text ("Child [PID=" ++ toString pid ++ "] closing pipe write end.\n"))

def Process.shown (p : Process) : Line :=
  (Memory.cString p.buf).map fun bytes => text "Child read: " ++ bytes ++ [10]

/-- The call succeeds. -/
def execute (s : State) (i : ℕ) (p : Process) (stmt : Stmt) : Option State :=
  let q : Process := { p with pc := p.pc + 1 }
  match stmt with
  | .print line => some ((s.put i q).print i (some (text line)))
  | .pipe => some (s.put i { q with readEnd := true, writeEnds := 1 })
  | .fork => some
      { s with
        processes := s.processes.set i q ++
          [⟨true, 0, p.readEnd, p.writeEnds, p.buf, [], false, .running⟩]
        out := s.out.fork i }
  | .closeRead _ => some (s.put i { q with readEnd := false })
  | .closeWrite _ => some (s.put i { q with writeEnds := q.writeEnds - 1 })
  | .sleep => some (s.put i q)
  | .dup2 => some (s.put i { q with writeEnds := q.writeEnds + 1 })
  | .write block =>
      -- without a reader the signal `SIGPIPE` arrives
      if s.hasReader then
        some ({ s with content := s.content ++ block }.put i q)
      else some (s.die i p)
  | .read => s.read.map fun block => s.taken.put i (q.receive block)
  | .printBuf => some ((s.put i q).print i p.shown)
  | .printPid => some ((s.put i q).print i (closing i))
  | .readEof => s.read.map fun block =>
      if block = [] then s.taken.put i { q with sawEof := true }
      else (s.taken.put i (q.receive block)).print i (some (text notEof))
  | .readLoop => s.read.map fun block =>
      if block = [] then s.taken.put i { p with pc := p.pc + 2 }
      else s.taken.put i (q.receive block)
  | .echo =>
      -- `printf` and the `fflush` after it are one step
      let t := (s.put i { p with pc := p.pc - 1 }).print i
        (Memory.cString p.buf)
      some { t with out := t.out.flush i }

def step (s : State) (i : ℕ) (p : Process) : Option State :=
  p.status.turn (p.program s.demo) p.pc (execute s i p) (some (s.exit i p 0))

/-- `printf(notice); return -1;` -/
def State.leave (s : State) (i : ℕ) (p : Process) (notice : String) : State :=
  (s.print i (some (text notice))).exit i p (-1)

/-- The call fails. -/
def refuse (s : State) (i : ℕ) (p : Process) (stmt : Stmt) : Option State :=
  let q : Process := { p with pc := p.pc + 1 }
  match stmt with
  | .pipe => some (s.leave i p "Creating pipe failed.\n")
  | .fork => some (s.leave i p (forkNotice s.demo))
  | .closeRead (some notice) | .closeWrite (some notice) =>
      some (s.leave i p notice)
  | .dup2 | .write _ | .read | .readLoop => some (s.put i q)
  | .readEof => some ((s.put i q).print i (some (text notEof)))
  | _ => none

def fails (s : State) (i : ℕ) (p : Process) : Option State :=
  p.status.turn (p.program s.demo) p.pc (refuse s i p) none

def kill (s : State) (i : ℕ) (p : Process) : Option State :=
  p.status.signal (s.die i p)

/-- The next call of a process succeeds or fails, or a signal ends it. -/
inductive Label
  | step (i : ℕ)
  | fails (i : ℕ)
  | kill (i : ℕ)
deriving DecidableEq, Repr

def next (s : State) : Label → Option State
  | .step i => s.processes[i]?.bind (step s i)
  | .fails i => s.processes[i]?.bind (fails s i)
  | .kill i => s.processes[i]?.bind (kill s i)

end PipeFork

end MyFreeLib
