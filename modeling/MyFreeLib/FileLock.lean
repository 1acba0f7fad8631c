/-
`file_lock_demo.c`: processes that take a lock on one file, hold it for a
while and give it back, with `flock` or with `fcntl`.  The kernel keeps the two
kinds of locks apart, and drops the locks of a process that ends.
-/
import MyFreeLib.LabelledRun
import MyFreeLib.LockTable
import MyFreeLib.ProcessTable
import MyFreeLib.Script

namespace MyFreeLib

namespace FileLock

/-- `flock` locks belong to the open file, `fcntl` locks to the process; as
each process opens the file once, both have the process for an owner. -/
inductive Kind
  | flock
  | fcntl
deriving DecidableEq, Repr

/-- The statements of the demos.  `lock` is `flock` or `fcntl(fd, F_SETLKW, ..)`
on the whole file, where no mode is `LOCK_UN` or `F_UNLCK`; with it go the
message and the value returned on failure.  The lines printed name the process
between the two texts. -/
inductive Stmt
  | openFile
  | lock (kind : Kind) (mode : Option LockMode) (message : String) (code : ℤ)
  | printf (before after : String)
  | sleep
  | close
deriving DecidableEq, Repr

/-- `share_lc_demo` and `mutex_lc_demo` -/
def flockDemo (mode : LockMode) (name : String) : List Stmt :=
  [.openFile,
    .lock .flock (some mode) s!"add {name} failed.\n" (-1),
    .printf "process " s!" add {name}.\n",
    .sleep,
    .lock .flock none s!"delete {name} failed.\n" (-1),
    .printf "process " s!" delete {name}.\n",
    .close]

/-- `fcntl_re_demo`, `fcntl_wr_demo` and `fcntl_un_demo`; they fail with 0 and
leave the lock to the end of the process. -/
def fcntlDemo (mode : Option LockMode) (action : String) : List Stmt :=
  [.openFile,
    .lock .fcntl mode "fcntl failed.\n" 0,
    .printf "pid(" s!") {action}.\n",
    .sleep,
    .printf "pid(" ") exit.\n"]

def shareLcDemo : List Stmt := flockDemo .shared "LOCK_SH"

def mutexLcDemo : List Stmt := flockDemo .exclusive "LOCK_EX"

def fcntlReDemo : List Stmt := fcntlDemo (some .shared) "add read lock"

def fcntlWrDemo : List Stmt := fcntlDemo (some .exclusive) "add write lock"

def fcntlUnDemo : List Stmt := fcntlDemo none "delete a write lock"

/-- `argv[1]` -/
inductive Demo
  | shareLc
  | mutexLc
  | fcntlRe
  | fcntlWr
  | fcntlUn
deriving DecidableEq, Repr

def Demo.program : Demo → List Stmt
  | .shareLc => shareLcDemo
  | .mutexLc => mutexLcDemo
  | .fcntlRe => fcntlReDemo
  | .fcntlWr => fcntlWrDemo
  | .fcntlUn => fcntlUnDemo

/-- A process runs, is on its way out of `main`, or has ended with a status,
unless a signal killed it. -/
inductive Status
  | running
  | returning (code : ℤ)
  | ended (code : Option ℤ)
deriving DecidableEq, Repr

def Status.hasEnded : Status → Bool
  | .ended _ => true
  | _ => false

/-- What has been executed of the program, and what is to come. -/
structure Process where
  demo : Demo
  done : List Stmt
  rest : List Stmt
  status : Status
deriving DecidableEq, Repr

/-- A process is named by its index; `output` has the lines that were printed,
each with its process. -/
structure State where
  processes : List Process
  locks : Kind → LockTable ℕ
  output : List (ℕ × String)

def start : State := ⟨[], fun _ => .empty, []⟩

inductive Label
  | launch (demo : Demo)
  | step (i : ℕ)
  | fails (i : ℕ)
  | kill (i : ℕ)
deriving DecidableEq, Repr

/-- All locks of one process are dropped: it closes the file, or ends. -/
def State.dropLocks (s : State) (i : ℕ) : Kind → LockTable ℕ :=
  fun kind => (s.locks kind).release i

/-- `flock` or `fcntl`; a lock that another process excludes is waited for. -/
def State.lock (s : State) (i : ℕ) (kind : Kind) :
    Option LockMode → Option (Kind → LockTable ℕ)
  | none => some (Function.update s.locks kind ((s.locks kind).release i))
  | some mode =>
      if h : (s.locks kind).Admits i mode then
        some (Function.update s.locks kind ((s.locks kind).acquire i mode h))
      else none

/-- The line of process `i`. -/
def line (i : ℕ) (before after : String) : ℕ × String :=
  (i, before ++ toString i ++ after)

/-- One statement succeeds, or the process returns or ends. -/
def step (s : State) (i : ℕ) (p : Process) : Option State :=
  match p.status, p.rest with
  | .running, [] => some { s with
      processes := s.processes.set i { p with status := .returning 0 } }
  | .running, stmt :: rest =>
      let q : Process := { p with done := p.done ++ [stmt], rest := rest }
      let processes := s.processes.set i q
      match stmt with
      | .openFile | .sleep => some { s with processes }
      | .lock kind mode _ _ =>
          (s.lock i kind mode).map fun locks => { s with processes, locks }
      | .printf before after => some { s with
          processes
          output := s.output ++ [line i before after] }
      | .close => some { s with processes, locks := s.dropLocks i }
  | .returning code, _ => some { s with
      processes := s.processes.set i { p with status := .ended (some code) }
      locks := s.dropLocks i }
  | .ended _, _ => none

/-- The call that is next fails, and the demo returns. -/
def fails (s : State) (i : ℕ) (p : Process) : Option State :=
  let leave (message : String) (code : ℤ) : State := { s with
    processes := s.processes.set i { p with status := .returning code }
    output := s.output ++ [(i, message)] }
  match p.status, p.rest with
  | .running, .openFile :: _ =>
      some (leave "open file /tmp/file_lock_test failed.\n" (-1))
  | .running, .lock _ _ message code :: _ => some (leave message code)
  | _, _ => none

/-- A signal ends the process wherever it is. -/
def kill (s : State) (i : ℕ) (p : Process) : Option State :=
  if p.status.hasEnded then none
  else some { s with
    processes := s.processes.set i { p with status := .ended none }
    locks := s.dropLocks i }

def next (s : State) : Label → Option State
  | .launch demo => some { s with
      processes := s.processes ++ [⟨demo, [], demo.program, .running⟩] }
  | .step i => s.processes[i]?.bind (step s i)
  | .fails i => s.processes[i]?.bind (fails s i)
  | .kill i => s.processes[i]?.bind (kill s i)

/-! ### Who holds what -/

/-- The lock of one kind that the statements leave a process with. -/
def heldAfter (kind : Kind) (done : List Stmt) : Option LockMode :=
  done.foldl (fun held stmt =>
    match stmt with
    | .lock k mode _ _ => if k = kind then mode else held
    | .close => none
    | _ => held) none

/-- The process is between its lock and its unlock, or its end. -/
def Process.holding (p : Process) (kind : Kind) : Option LockMode :=
  if p.status.hasEnded then none else heldAfter kind p.done

/-- The lock that a demo takes. -/
def Demo.lock : Demo → Option (Kind × LockMode)
  | .shareLc => some (.flock, .shared)
  | .mutexLc => some (.flock, .exclusive)
  | .fcntlRe => some (.fcntl, .shared)
  | .fcntlWr => some (.fcntl, .exclusive)
  | .fcntlUn => none

/-- The process executes its demo. -/
def Process.Executes (p : Process) : Prop := p.done ++ p.rest = p.demo.program

theorem heldAfter_concat (kind : Kind) (done : List Stmt) (stmt : Stmt) :
    heldAfter kind (done ++ [stmt]) =
      match stmt with
      | .lock k mode _ _ => if k = kind then mode else heldAfter kind done
      | .close => none
      | _ => heldAfter kind done := by
  rw [heldAfter, List.foldl_append]
  rfl

theorem heldAfter_inits (demo : Demo) (kind : Kind) (m : LockMode) :
    ∀ done ∈ demo.program.inits, heldAfter kind done = some m →
      demo.lock = some (kind, m) := by
  cases demo <;> cases kind <;> cases m <;> decide

/-- A process holds no other lock than that of its demo. -/
theorem Process.Executes.lock_eq {p : Process} (h : p.Executes) {kind : Kind}
    {m : LockMode} (hholding : p.holding kind = some m) :
    p.demo.lock = some (kind, m) := by
  rw [holding] at hholding
  split at hholding
  · cases hholding
  · refine forall_split (P := fun done _ => heldAfter kind done = some m →
      p.demo.lock = some (kind, m)) ?_ h hholding
    exact heldAfter_inits p.demo kind m

/-- The kernel's locks are those that the processes have taken. -/
structure Inv (s : State) : Prop where
  executes : ∀ p ∈ s.processes, p.Executes
  locks : ∀ kind i m, (s.locks kind).Holds i m ↔
    ∃ p, s.processes[i]? = some p ∧ p.holding kind = some m

theorem start_inv : Inv start where
  executes := by simp [start]
  locks := by simp [start]

/-! ### One step -/

/-- How many steps a process has to go. -/
def Process.work (p : Process) : ℕ :=
  match p.status with
  | .running => p.rest.length + 2
  | .returning _ => 1
  | .ended _ => 0

/-- Process `i` becomes `q`, and its locks with it. -/
structure Moves (s : State) (i : ℕ) (q : Process) (t : State) : Prop where
  processes : t.processes = s.processes.set i q
  own : ∀ kind m, (t.locks kind).Holds i m ↔ q.holding kind = some m
  others : ∀ kind j m, j ≠ i →
    ((t.locks kind).Holds j m ↔ (s.locks kind).Holds j m)

theorem Moves.inv {s t : State} {i : ℕ} {p q : Process} (h : Moves s i q t)
    (hs : Inv s) (hp : s.processes[i]? = some p) (hq : q.Executes) :
    Inv t := by
  have hi : i < s.processes.length := (List.getElem?_eq_some_iff.mp hp).1
  constructor
  · rw [h.processes]
    exact forall_mem_set hs.executes hq
  · intro kind j m
    rw [h.processes]
    by_cases hj : j = i
    · subst hj
      rw [h.own, List.getElem?_set_self hi]
      simp
    · rw [h.others kind j m hj, List.getElem?_set_ne (Ne.symm hj)]
      exact hs.locks kind j m

theorem Inv.own {s : State} {i : ℕ} {p : Process} (hs : Inv s)
    (hp : s.processes[i]? = some p) (kind : Kind) (m : LockMode) :
    (s.locks kind).Holds i m ↔ p.holding kind = some m := by
  rw [hs.locks, hp]
  simp

/-- A statement, or a return, that is nothing to the locks. -/
theorem Inv.keeps {s : State} {i : ℕ} {p q : Process} (hs : Inv s)
    (hp : s.processes[i]? = some p)
    (hholding : ∀ kind, q.holding kind = p.holding kind)
    (output : List (ℕ × String)) :
    Moves s i q ⟨s.processes.set i q, s.locks, output⟩ where
  processes := rfl
  own kind m := by rw [hs.own hp, hholding]
  others _ _ _ _ := Iff.rfl

/-- The file is closed, or the process ends. -/
theorem drops (s : State) {i : ℕ} {q : Process}
    (hholding : ∀ kind, q.holding kind = none) (output : List (ℕ × String)) :
    Moves s i q ⟨s.processes.set i q, s.dropLocks i, output⟩ where
  processes := rfl
  own kind m := by simp [State.dropLocks, hholding]
  others kind j m hj := by simp [State.dropLocks, hj]

theorem Inv.lock {s : State} {i : ℕ} {p q : Process} {kind : Kind}
    {mode : Option LockMode} {locks : Kind → LockTable ℕ} (hs : Inv s)
    (hp : s.processes[i]? = some p) (h : s.lock i kind mode = some locks)
    (hholding : ∀ k, q.holding k = if kind = k then mode else p.holding k)
    (output : List (ℕ × String)) :
    Moves s i q ⟨s.processes.set i q, locks, output⟩ := by
  -- a new table for one kind, in which only the entry of `i` has changed
  obtain ⟨table, rfl, hown, hothers⟩ : ∃ table,
      locks = Function.update s.locks kind table ∧
      (∀ m, table.Holds i m ↔ mode = some m) ∧
      ∀ j m, j ≠ i → (table.Holds j m ↔ (s.locks kind).Holds j m) := by
    cases mode with
    | none =>
        cases h
        refine ⟨_, rfl, fun m => ?_, fun j m hj => ?_⟩
        · simp
        · simp [hj]
    | some mode =>
        obtain ⟨hadmits, hlocks⟩ := Option.dite_none_right_eq_some.mp h
        cases hlocks
        refine ⟨_, rfl, fun m => ?_, fun j m hj => ?_⟩
        · simp [eq_comm]
        · simp [hj]
  refine ⟨rfl, fun k m => ?_, fun k j m hj => ?_⟩
  · simp only [hholding, Function.update_apply]
    by_cases hk : kind = k
    · subst hk
      rw [if_pos rfl, if_pos rfl]
      exact hown m
    · rw [if_neg hk, if_neg (Ne.symm hk)]
      exact hs.own hp k m
  · simp only [Function.update_apply]
    split
    case isTrue hk => rw [hothers j m hj, hk]
    case isFalse => rfl

/-- Every step of a process is of this kind; it gets along by one. -/
theorem step_moves {s t : State} {i : ℕ} {p : Process} (hs : Inv s)
    (hp : s.processes[i]? = some p) (h : step s i p = some t) :
    ∃ q : Process, Moves s i q t ∧ q.Executes ∧ q.work + 1 = p.work := by
  have hexecutes := hs.executes p (List.mem_of_getElem? hp)
  obtain ⟨demo, done, rest, status⟩ := p
  cases status with
  | ended code => cases h
  | returning code =>
      cases h
      exact ⟨_, drops s (fun _ => rfl) _, hexecutes, rfl⟩
  | running =>
      cases rest with
      | nil =>
          cases h
          refine ⟨_, hs.keeps hp ?_ _, hexecutes, rfl⟩
          exact fun _ => rfl
      | cons stmt rest =>
          have hnew : Process.Executes
              ⟨demo, done ++ [stmt], rest, .running⟩ := by
            rw [Process.Executes, List.append_assoc]
            exact hexecutes
          have hholding (kind : Kind) :
              Process.holding ⟨demo, done ++ [stmt], rest, .running⟩ kind =
                heldAfter kind (done ++ [stmt]) := rfl
          simp only [heldAfter_concat] at hholding
          refine ⟨_, ?_, hnew, rfl⟩
          cases stmt with
          | openFile | sleep | printf before after =>
              cases h
              exact hs.keeps hp hholding _
          | close =>
              cases h
              exact drops s hholding _
          | lock kind mode message code =>
              obtain ⟨locks, hlocks, rfl⟩ := Option.map_eq_some_iff.mp h
              refine hs.lock hp hlocks (fun k => (hholding k).trans ?_) _
              rfl

theorem fails_moves {s t : State} {i : ℕ} {p : Process} (hs : Inv s)
    (hp : s.processes[i]? = some p) (h : fails s i p = some t) :
    ∃ q : Process, Moves s i q t ∧ q.Executes := by
  have hexecutes := hs.executes p (List.mem_of_getElem? hp)
  obtain ⟨demo, done, rest, status⟩ := p
  unfold fails at h
  split at h
  case h_3 => cases h
  all_goals
    next hstatus hrest =>
      cases hstatus
      cases hrest
      cases h
      refine ⟨_, hs.keeps hp ?_ _, hexecutes⟩
      exact fun _ => rfl

theorem kill_moves {s t : State} {i : ℕ} {p : Process} (hs : Inv s)
    (hp : s.processes[i]? = some p) (h : kill s i p = some t) :
    ∃ q : Process, Moves s i q t ∧ q.Executes := by
  have hexecutes := hs.executes p (List.mem_of_getElem? hp)
  obtain ⟨-, h⟩ := Option.ite_none_left_eq_some.mp h
  cases h
  exact ⟨_, drops s (fun _ => rfl) _, hexecutes⟩

/-! ### Runs -/

theorem next_inv {s t : State} {label : Label} (hs : Inv s)
    (h : next s label = some t) : Inv t := by
  cases label with
  | launch demo =>
      cases h
      refine ⟨forall_mem_concat hs.executes rfl, fun kind i m => ?_⟩
      rw [hs.locks]
      constructor
      · rintro ⟨p, hp, hholding⟩
        exact ⟨p, getElem?_of_front (List.prefix_append _ _) hp, hholding⟩
      · rintro ⟨p, hp, hholding⟩
        rw [List.getElem?_append] at hp
        split at hp
        case isTrue => exact ⟨p, hp, hholding⟩
        case isFalse =>
          -- the new process has done nothing yet
          obtain rfl := List.mem_singleton.mp (List.mem_of_getElem? hp)
          cases hholding
  | step i =>
      obtain ⟨p, hp, hstep⟩ := Option.bind_eq_some_iff.mp h
      obtain ⟨q, hmoves, hq, -⟩ := step_moves hs hp hstep
      exact hmoves.inv hs hp hq
  | fails i =>
      obtain ⟨p, hp, hfails⟩ := Option.bind_eq_some_iff.mp h
      obtain ⟨q, hmoves, hq⟩ := fails_moves hs hp hfails
      exact hmoves.inv hs hp hq
  | kill i =>
      obtain ⟨p, hp, hkill⟩ := Option.bind_eq_some_iff.mp h
      obtain ⟨q, hmoves, hq⟩ := kill_moves hs hp hkill
      exact hmoves.inv hs hp hq

theorem exec_inv {s : State} {labels : List Label}
    (hrun : exec next start labels = some s) : Inv s :=
  exec_invariant (fun _ _ _ => next_inv) start_inv hrun

/-- Only a shared lock goes along with another process's lock of its kind. -/
theorem shared_of_lock_eq {d e : Demo} {kind : Kind} {m n : LockMode}
    (hd : d.lock = some (kind, m)) (he : e.lock = some (kind, n))
    (hshared : m.Compatible n) : d = e ∧ (d = .shareLc ∨ d = .fcntlRe) := by
  obtain ⟨rfl, rfl⟩ := hshared
  cases d <;> cases kind <;> simp only [Demo.lock, Option.some.injEq,
    Prod.mk.injEq, reduceCtorEq, and_false, false_and] at hd <;>
    cases e <;> simp [Demo.lock] at he ⊢

/-- In every state the file is locked for the processes that are between lock
and unlock, or the end, of their demo.  Two of these at a time that use the
same kind of locks both have a shared one, and `fcntl_un` never has any. -/
theorem locks_exclusive {s : State} {labels : List Label}
    (hrun : exec next start labels = some s) :
    (∀ kind i m, (s.locks kind).Holds i m ↔
      ∃ p, s.processes[i]? = some p ∧ p.holding kind = some m) ∧
    (∀ kind (i j : ℕ) (p q : Process), i ≠ j → s.processes[i]? = some p →
      s.processes[j]? = some q → (p.holding kind).isSome →
      (q.holding kind).isSome →
      p.demo = q.demo ∧ (p.demo = .shareLc ∨ p.demo = .fcntlRe)) ∧
    ∀ p ∈ s.processes, p.demo = .fcntlUn → ∀ kind, p.holding kind = none := by
  have hs := exec_inv hrun
  refine ⟨hs.locks, fun kind i j p q hij hp hq hheldp hheldq => ?_,
    fun p hp hdemo kind => ?_⟩
  · obtain ⟨m, hm⟩ := Option.isSome_iff_exists.mp hheldp
    obtain ⟨n, hn⟩ := Option.isSome_iff_exists.mp hheldq
    have hlockp := (hs.locks kind i m).mpr ⟨p, hp, hm⟩
    have hlockq := (hs.locks kind j n).mpr ⟨q, hq, hn⟩
    exact shared_of_lock_eq
      ((hs.executes p (List.mem_of_getElem? hp)).lock_eq hm)
      ((hs.executes q (List.mem_of_getElem? hq)).lock_eq hn)
      (hlockp.compatible hlockq hij)
  · cases hholding : p.holding kind with
    | none => rfl
    | some m =>
        have hlock := (hs.executes p hp).lock_eq hholding
        rw [hdemo] at hlock
        cases hlock

/-- Two shared `flock` locks, and an exclusive `fcntl` lock beside them. -/
def threeLocks : List Label :=
  [.launch .shareLc, .launch .fcntlWr, .launch .shareLc, .step 0, .step 1,
    .step 2, .step 2, .step 0, .step 1]

theorem locks_exclusive_threeLocks :
    ∃ s, exec next start threeLocks = some s ∧
      (s.locks .flock).Holds 0 .shared ∧ (s.locks .flock).Holds 2 .shared ∧
      (s.locks .fcntl).Holds 1 .exclusive := by
  have hrun : exec next start threeLocks = some _ := rfl
  have hlocks := (locks_exclusive hrun).1
  refine ⟨_, hrun, ?_, ?_, ?_⟩ <;> exact (hlocks _ _ _).mpr ⟨_, rfl, rfl⟩

/-! ### Nobody waits for ever -/

def Stmt.takesLock : Stmt → Bool
  | .lock _ mode _ _ => mode.isSome
  | _ => false

/-- A process that has its lock asks for no other one. -/
theorem not_takesLock_of_heldAfter (demo : Demo) (kind : Kind)
    (m : LockMode) :
    ∀ done ∈ demo.program.inits, heldAfter kind done = some m →
      ∀ stmt ∈ demo.program.drop done.length, ¬ stmt.takesLock := by
  cases demo <;> cases kind <;> cases m <;> decide

theorem Process.Executes.not_takesLock {p : Process} (h : p.Executes)
    {kind : Kind} {m : LockMode} (hholding : p.holding kind = some m) :
    ∀ stmt ∈ p.rest, ¬ stmt.takesLock := by
  rw [holding] at hholding
  split at hholding
  · cases hholding
  · refine forall_split (P := fun done rest => heldAfter kind done = some m →
      ∀ stmt ∈ rest, ¬ stmt.takesLock) ?_ h hholding
    exact not_takesLock_of_heldAfter p.demo kind m

/-- A step waits for nothing but a lock. -/
theorem step_isSome {s : State} {i : ℕ} {p : Process}
    (hp : ¬ p.status.hasEnded)
    (hlock : ∀ kind mode message code rest, p.status = .running →
      p.rest = .lock kind (some mode) message code :: rest →
        (s.locks kind).Admits i mode) :
    (step s i p).isSome := by
  obtain ⟨demo, done, rest, status⟩ := p
  cases status with
  | ended code => exact absurd rfl hp
  | returning code => rfl
  | running =>
      cases rest with
      | nil => rfl
      | cons stmt rest =>
          cases stmt with
          | openFile | sleep | close | printf before after => rfl
          | lock kind mode message code =>
              cases mode with
              | none => rfl
              | some mode =>
                  have hadmits := hlock kind mode message code rest rfl rfl
                  simp [step, State.lock, hadmits]

/-- Whoever waits waits for a process that can go on, so there is one as long
as not all have ended. -/
theorem exists_step {s : State} (hs : Inv s)
    (h : ¬ ∀ p ∈ s.processes, p.status.hasEnded) :
    ∃ i, (next s (.step i)).isSome := by
  push Not at h
  obtain ⟨p, hmem, hp⟩ := h
  obtain ⟨i, hi⟩ := List.mem_iff_getElem?.mp hmem
  by_cases hfree : (step s i p).isSome
  · exact ⟨i, by simpa [next, hi] using hfree⟩
  · -- `i` waits for `j`, which has its lock
    have hwait : ∃ kind mode, ¬ (s.locks kind).Admits i mode := by
      by_contra hnone
      push Not at hnone
      exact hfree (step_isSome hp fun kind mode _ _ _ _ _ => hnone kind mode)
    obtain ⟨kind, mode, hexcluded⟩ := hwait
    obtain ⟨j, m, -, hholds, -⟩ :=
      LockTable.exists_holds_of_not_admits hexcluded
    obtain ⟨q, hj, hholding⟩ := (hs.locks kind j m).mp hholds
    have hq : ¬ q.status.hasEnded := by
      intro hended
      rw [Process.holding, if_pos hended] at hholding
      cases hholding
    refine ⟨j, ?_⟩
    rw [next, hj, Option.bind_some]
    refine step_isSome hq fun k n message code rest _ hrest => ?_
    have hexecutes := hs.executes q (List.mem_of_getElem? hj)
    have hlater := hexecutes.not_takesLock hholding
      (.lock k (some n) message code)
    rw [hrest] at hlater
    exact absurd rfl (hlater List.mem_cons_self)

/-! ### What a process prints and returns when it is left alone -/

/-- The lines still to come. -/
def Process.toPrint (p : Process) (i : ℕ) : List (ℕ × String) :=
  match p.status with
  | .running => p.rest.filterMap fun stmt =>
      match stmt with
      | .printf before after => some (line i before after)
      | _ => none
  | _ => []

/-- The lines of process `i`. -/
def State.printed (s : State) (i : ℕ) : List (ℕ × String) :=
  s.output.filter (·.1 = i)

/-- What `main` will return; none if a signal has killed the process. -/
def Process.outcome (p : Process) : Option ℤ :=
  match p.status with
  | .running => some 0
  | .returning code => some code
  | .ended code => code

def State.work (s : State) : ℕ := (s.processes.map Process.work).sum

/-- The state after a step of process `i`, for which `p` becomes `q`. -/
structure Goes (s : State) (i : ℕ) (p q : Process) (t : State) : Prop where
  processes : t.processes = s.processes.set i q
  work : q.work + 1 = p.work
  outcome : q.outcome = p.outcome
  printed : t.printed i ++ q.toPrint i = s.printed i ++ p.toPrint i
  others : ∀ j, j ≠ i → t.printed j = s.printed j

theorem step_goes {s t : State} {i : ℕ} {p : Process}
    (h : step s i p = some t) : ∃ q, Goes s i p q t := by
  obtain ⟨demo, done, rest, status⟩ := p
  cases status with
  | ended code => cases h
  | returning code =>
      cases h
      exact ⟨_, rfl, rfl, rfl, rfl, fun _ _ => rfl⟩
  | running =>
      cases rest with
      | nil =>
          cases h
          exact ⟨_, rfl, rfl, rfl, rfl, fun _ _ => rfl⟩
      | cons stmt rest =>
          cases stmt with
          | openFile | sleep | close =>
              cases h
              exact ⟨_, rfl, rfl, rfl, rfl, fun _ _ => rfl⟩
          | lock kind mode message code =>
              obtain ⟨locks, -, rfl⟩ := Option.map_eq_some_iff.mp h
              exact ⟨_, rfl, rfl, rfl, rfl, fun _ _ => rfl⟩
          | printf before after =>
              cases h
              refine ⟨_, rfl, rfl, rfl, ?_, fun j hj => ?_⟩
              · simp [State.printed, Process.toPrint, line]
              · simp [State.printed, line, Ne.symm hj]

/-- From `s` on only steps have been taken, and `t` is reached. -/
structure Follows (s t : State) : Prop where
  inv : Inv t
  outcome : t.processes.map Process.outcome =
    s.processes.map Process.outcome
  printed : ∀ i p q, s.processes[i]? = some p → t.processes[i]? = some q →
    t.printed i ++ q.toPrint i = s.printed i ++ p.toPrint i

theorem Goes.follows {s t u : State} {i : ℕ} {p q : Process}
    (h : Goes t i p q u) (hs : Follows s t) (hp : t.processes[i]? = some p)
    (hu : Inv u) : Follows s u where
  inv := hu
  outcome := by rw [h.processes, map_set_eq hp h.outcome, hs.outcome]
  printed j old new hold hnew := by
    rw [h.processes] at hnew
    rcases getElem?_set_cases hnew with ⟨rfl, rfl⟩ | ⟨hne, hsame⟩
    · rw [h.printed, hs.printed _ old p hold hp]
    · rw [h.others j hne, hs.printed j old new hold hsame]

def Label.IsStep (label : Label) : Prop := ∃ i, label = .step i

theorem step_follows {s t u : State} {label : Label} (hlabel : label.IsStep)
    (hs : Follows s t) (h : next t label = some u) : Follows s u := by
  obtain ⟨i, rfl⟩ := hlabel
  have hu := next_inv hs.inv h
  obtain ⟨p, hp, hstep⟩ := Option.bind_eq_some_iff.mp h
  obtain ⟨q, hgoes⟩ := step_goes hstep
  exact hgoes.follows hs hp hu

theorem step_work {s t : State} {label : Label} (hlabel : label.IsStep)
    (h : next s label = some t) : t.work + 1 = s.work := by
  obtain ⟨i, rfl⟩ := hlabel
  obtain ⟨p, hp, hstep⟩ := Option.bind_eq_some_iff.mp h
  obtain ⟨q, hgoes⟩ := step_goes hstep
  have hsum := sum_map_set Process.work hp q
  have hwork := hgoes.work
  rw [State.work, State.work, hgoes.processes]
  omega

theorem exec_work {s t : State} {steps : List Label}
    (hsteps : ∀ label ∈ steps, label.IsStep)
    (hrun : exec next s steps = some t) : steps.length + t.work = s.work := by
  induction steps generalizing s with
  | nil =>
      rw [exec_nil, Option.some.injEq] at hrun
      simp [hrun]
  | cons label rest ih =>
      obtain ⟨u, hfirst, hrest⟩ := exec_cons_eq_some.mp hrun
      obtain ⟨hlabel, hlabels⟩ := List.forall_mem_cons.mp hsteps
      have hwork := step_work hlabel hfirst
      have htail := ih hlabels hrest
      rw [List.length_cons]
      omega

theorem next_step_eq_none_iff {s : State} (hs : Inv s) :
    (∀ i, next s (.step i) = none) ↔
      ∀ p ∈ s.processes, p.status.hasEnded := by
  constructor
  · intro hnone
    by_contra hrunning
    obtain ⟨i, hi⟩ := exists_step hs hrunning
    rw [hnone i] at hi
    cases hi
  · intro hended i
    cases hp : s.processes[i]? with
    | none => rw [next, hp, Option.bind_none]
    | some p =>
        have h := hended p (List.mem_of_getElem? hp)
        obtain ⟨demo, done, rest, status⟩ := p
        cases status with
        | ended code => rw [next, hp]; rfl
        | running | returning => cases h

theorem Process.status_of_hasEnded {p : Process} (h : p.status.hasEnded) :
    p.status = .ended p.outcome ∧ p.work = 0 ∧
      (∀ kind, p.holding kind = none) ∧ ∀ i, p.toPrint i = [] := by
  obtain ⟨demo, done, rest, status⟩ := p
  cases status with
  | ended code => exact ⟨rfl, rfl, fun _ => rfl, fun _ => rfl⟩
  | running | returning => cases h

theorem Inv.not_holds {s : State} (hs : Inv s)
    (hended : ∀ p ∈ s.processes, p.status.hasEnded) (kind : Kind) (i : ℕ)
    (m : LockMode) : ¬ (s.locks kind).Holds i m := by
  intro hholds
  obtain ⟨p, hp, hholding⟩ := (hs.locks kind i m).mp hholds
  have hall := hended p (List.mem_of_getElem? hp)
  rw [(Process.status_of_hasEnded hall).2.2.1 kind] at hholding
  cases hholding

theorem Follows.status_eq {s t : State} (h : Follows s t)
    (hended : ∀ p ∈ t.processes, p.status.hasEnded) :
    t.processes.map Process.status =
      s.processes.map fun p => .ended p.outcome := by
  calc t.processes.map Process.status
      = t.processes.map fun p => .ended p.outcome :=
        List.map_congr_left fun p hp =>
          (Process.status_of_hasEnded (hended p hp)).1
    _ = (t.processes.map Process.outcome).map .ended := by
        rw [List.map_map]; rfl
    _ = s.processes.map fun p => .ended p.outcome := by
        rw [h.outcome, List.map_map]; rfl

theorem Follows.printed_eq {s t : State} (h : Follows s t)
    (hended : ∀ p ∈ t.processes, p.status.hasEnded) {i : ℕ} {p : Process}
    (hp : s.processes[i]? = some p) :
    t.printed i = s.printed i ++ p.toPrint i := by
  have hlength : t.processes.length = s.processes.length := by
    simpa using congrArg List.length h.outcome
  have hi : i < t.processes.length :=
    hlength ▸ (List.getElem?_eq_some_iff.mp hp).1
  have hq := List.getElem?_eq_getElem hi
  have hlast := hended _ (List.getElem_mem hi)
  rw [← h.printed i p _ hp hq, (Process.status_of_hasEnded hlast).2.2.2 i,
    List.append_nil]

/-- Whatever has happened before, processes that are left alone all end, in
whatever order they take their steps: there is one to take until the last has
ended, and their number is known.  No lock remains then, and each process has
printed all its lines and returned what it had to. -/
theorem all_end {s : State} {labels : List Label}
    (hrun : exec next start labels = some s) :
    (∃ steps t, (∀ label ∈ steps, label.IsStep) ∧
      exec next s steps = some t ∧ ∀ p ∈ t.processes, p.status.hasEnded) ∧
    ∀ steps t, (∀ label ∈ steps, label.IsStep) →
      exec next s steps = some t →
      steps.length ≤ s.work ∧
      ((∀ i, next t (.step i) = none) ↔
        ∀ p ∈ t.processes, p.status.hasEnded) ∧
      ((∀ p ∈ t.processes, p.status.hasEnded) →
        steps.length = s.work ∧
        (∀ kind i m, ¬ (t.locks kind).Holds i m) ∧
        t.processes.map Process.status =
          s.processes.map (fun p => .ended p.outcome) ∧
        ∀ i p, s.processes[i]? = some p →
          t.printed i = s.printed i ++ p.toPrint i) := by
  have hs := exec_inv hrun
  refine ⟨?_, fun steps t hsteps hlater => ?_⟩
  · have hdrop (s : State) (label : Label) (t : State)
        (hlabel : label.IsStep) (_ : Inv s) (hnext : next s label = some t) :
        t.work < s.work := by
      have hwork := step_work hlabel hnext
      omega
    have hmove (s : State) (hs : Inv s)
        (hrunning : ¬ ∀ p ∈ s.processes, p.status.hasEnded) :
        ∃ label : Label, label.IsStep ∧ (next s label).isSome := by
      obtain ⟨i, hi⟩ := exists_step hs hrunning
      exact ⟨.step i, ⟨i, rfl⟩, hi⟩
    obtain ⟨steps, t, hsteps, hlater, -, hended⟩ :=
      exists_completion (fun _ _ _ _ => next_inv) hdrop hmove hs
    exact ⟨steps, t, hsteps, hlater, hended⟩
  · have hwork := exec_work hsteps hlater
    have hfollows : Follows s t :=
      exec_invariant_of_labels (fun _ _ _ => step_follows) hsteps
        ⟨hs, rfl, fun i p q hp hq => by
          rw [Option.some.inj (hp.symm.trans hq)]⟩ hlater
    refine ⟨by omega, next_step_eq_none_iff hfollows.inv, fun hended => ?_⟩
    have hnothing : t.work = 0 := by
      rw [State.work, List.sum_eq_zero_iff]
      simp only [List.mem_map, forall_exists_index, and_imp]
      rintro _ p hp rfl
      exact (Process.status_of_hasEnded (hended p hp)).2.1
    exact ⟨by omega, hfollows.inv.not_holds hended,
      hfollows.status_eq hended, fun i p hp => hfollows.printed_eq hended hp⟩

/-- A writer that waits for a reader, which has its lock. -/
def waiting : List Label :=
  [.launch .fcntlRe, .launch .fcntlWr, .step 0, .step 1, .step 0]

theorem all_end_waiting :
    ∃ s steps t, exec next start waiting = some s ∧
      exec next s steps = some t ∧ ∀ p ∈ t.processes, p.status.hasEnded := by
  have hrun : exec next start waiting = some _ := rfl
  obtain ⟨steps, t, -, hsteps, hended⟩ := (all_end hrun).1
  exact ⟨_, steps, t, hrun, hsteps, hended⟩

end FileLock

end MyFreeLib
