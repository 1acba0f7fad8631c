/-
`sysv_sem_demo.c`: runs that make a private semaphore and give it a value, and
runs that operate on one by its id.  The id is printed only after `SETVAL`, but
nothing keeps another process from using it before.
-/
import MyFreeLib.Decimal
import MyFreeLib.LabelledRun
import MyFreeLib.Script
import MyFreeLib.Semaphore

namespace MyFreeLib

namespace SysvSem

/-- `SEMVMX` -/
def semvmx : ℕ := 32767

inductive Stmt
  | semget
  | setval
  | printId
  | printAbout
  | semop
  | printCompleted
deriving DecidableEq, Repr

/-- What follows `simple` on the command line. -/
inductive Args
  | create (val : List Byte)
  | operate (id op : List Byte)
deriving DecidableEq, Repr

/-- `sysv_sem_simple` with three arguments, and with four. -/
def Args.program : Args → List Stmt
  | .create _ => [.semget, .setval, .printId]
  | .operate _ _ => [.printAbout, .semop, .printCompleted]

/-- `sop.sem_op = atoi(argv[3])`, where `sem_op` is a `short`. -/
def Args.semOp : Args → ℤ
  | .create _ => 0
  | .operate _ op => int16 (atoi op)

/-- `set` is the set that the process has made or operated on; `late` is
history: that set had its value by then. -/
structure Process where
  args : Args
  pc : ℕ
  set : Option ℕ
  late : Bool
  status : Status
deriving DecidableEq, Repr

/-- A set of one semaphore.  `owner` and `base` are history: who has made it,
and what `SETVAL` has put there. -/
structure SemSet where
  id : ℤ
  owner : ℕ
  sem : Semaphore semvmx
  base : Option ℤ

structure State where
  sets : List SemSet
  processes : List Process
  output : List (ℕ × String)

def start : State := ⟨[], [], []⟩

/-- Process `i` becomes `p`. -/
def State.put (s : State) (i : ℕ) (p : Process) : State :=
  { s with processes := s.processes.set i p }

def State.print (s : State) (i : ℕ) (line : String) : State :=
  { s with output := s.output ++ [(i, line)] }

/-- The set with the id. -/
def State.lookup (s : State) (id : ℤ) : Option (ℕ × SemSet) :=
  (s.sets.findIdx? fun set => set.id = id).bind fun k =>
    s.sets[k]?.map fun set => (k, set)

/-- A new semaphore has the value zero. -/
def SemSet.new (id : ℤ) (owner : ℕ) : SemSet :=
  ⟨id, owner, ⟨0, Nat.zero_le _⟩, none⟩

/-- `semctl(semid, 0, SETVAL, arg)` -/
def SemSet.setval (set : SemSet) (val : ℤ) : Option SemSet :=
  if h : 0 ≤ val ∧ val ≤ semvmx then
    some { set with
      sem := ⟨val.toNat, Int.toNat_le.mpr h.2⟩
      base := some val }
  else none

/-- The call succeeds.  The kernel gives a new set an id that no other has. -/
def execute (s : State) (i : ℕ) (id : ℤ) (p : Process) (stmt : Stmt) :
    Option State :=
  let q : Process := { p with pc := p.pc + 1 }
  match stmt, p.args with
  | .semget, _ =>
      if 0 ≤ id ∧ ∀ set ∈ s.sets, set.id ≠ id then
        some ({ s with sets := s.sets ++ [SemSet.new id i] }.put i
          { q with set := some s.sets.length })
      else none
  | .setval, .create val => p.set.bind fun k => s.sets[k]?.bind fun set =>
      (set.setval (atoi val)).map fun set =>
        { s with sets := s.sets.set k set }.put i q
  | .printId, _ => p.set.bind fun k => s.sets[k]?.map fun set =>
      (s.put i q).print i ("Semaphore ID = " ++ toString set.id ++ "\n")
  | .printAbout, _ => some
      ((s.put i q).print i (toString i ++ ": about to semop\n"))
  | .semop, .operate setid _ => (s.lookup (atoi setid)).bind fun (k, set) =>
      (set.sem.op p.args.semOp).map fun sem =>
        { s with sets := s.sets.set k { set with sem } }.put i
          { q with set := some k, late := set.base.isSome }
  | .printCompleted, _ => some
      ((s.put i q).print i (toString i ++ ": semop completed\n"))
  | _, _ => none

def step (s : State) (i : ℕ) (id : ℤ) (p : Process) : Option State :=
  p.status.turn p.args.program p.pc (execute s i id p)
    (some (s.put i { p with status := .ended (some 0) }))

/-- `errno` after a call that has failed. -/
inductive Errno
  | enospc
  | erange
  | einval
  | eacces
  | eintr
deriving DecidableEq, Repr

/-- What is printed when `semop` fails on what the id leads to: nothing, a set
that the process may not change, one with a value that would get too large, or
one to wait for, while a signal comes in. -/
def semopFailure (found : Option (ℕ × SemSet)) (amount : ℤ) :
    Errno → Option String
  | .einval => if found.isNone then some "semop fail.\n" else none
  | .eacces => found.map fun _ => "semop fail.\n"
  | .erange => found.bind fun (_, set) =>
      if set.sem.Ready amount ∧ semvmx < set.sem.value + amount then
        some "semop fail.\n"
      else none
  | .eintr => found.bind fun (_, set) =>
      if set.sem.Ready amount then none else some "semop fail.\n"
  | .enospc => none

/-- What is printed when the call fails with this error; `none` where it
cannot. -/
def failure (s : State) (p : Process) (errno : Errno) : Stmt → Option String
  | .semget => if errno = .enospc then some "create sem fail.\n" else none
  | .setval =>
      match p.args, errno with
      | .create val, .erange =>
          if 0 ≤ atoi val ∧ atoi val ≤ semvmx then none
          else some "SETVAL fail.\n"
      | _, _ => none
  | .semop =>
      match p.args with
      | .operate setid _ =>
          semopFailure (s.lookup (atoi setid)) p.args.semOp errno
      | .create _ => none
  | .printId | .printAbout | .printCompleted => none

/-- `printf(message); return -1;` -/
def fails (s : State) (i : ℕ) (errno : Errno) (p : Process) : Option State :=
  p.status.turn p.args.program p.pc (fun stmt =>
    (failure s p errno stmt).map fun message =>
      (s.put i { p with status := .ended (some (-1)) }).print i message) none

def kill (s : State) (i : ℕ) (p : Process) : Option State :=
  p.status.signal (s.put i { p with status := .ended none })

/-- The next call of a process succeeds, with the id that a new set gets, or
fails, or a signal kills it. -/
inductive Label
  | launch (args : Args)
  | step (i : ℕ) (id : ℤ)
  | fails (i : ℕ) (errno : Errno)
  | kill (i : ℕ)
deriving DecidableEq, Repr

def next (s : State) : Label → Option State
  | .launch args => some { s with
      processes := s.processes ++ [⟨args, 0, none, false, .running⟩] }
  | .step i id => s.processes[i]?.bind (step s i id)
  | .fails i errno => s.processes[i]?.bind (fails s i errno)
  | .kill i => s.processes[i]?.bind (kill s i)

end SysvSem

end MyFreeLib
