/-
`posix_sem_demo.c`: processes that create, unlink, wait for, post and read the
semaphore of one name.  A process that has it open keeps it when the name is
gone, and a new one may then have the name.
-/
import MyFreeLib.LabelledRun
import MyFreeLib.Script
import MyFreeLib.Semaphore

namespace MyFreeLib

namespace PosixSem

/-- `SEM_VALUE_MAX` -/
def semValueMax : ℕ := 2 ^ 31 - 1

/-- The calls of the demos.  `semOpenNew` has the flags `O_CREAT | O_EXCL` and
`POSIX_SEM_INIT`, which is 0; the value printed is the one that was read. -/
inductive Stmt
  | semOpenNew
  | semUnlink
  | clockGettime
  | semOpen
  | semTimedwait
  | semPost
  | semGetvalue
  | printf (text : String)
  | printValue
  | semClose
deriving DecidableEq, Repr

/-- What is printed before `return -1` when the call fails; `none` where the
demo does not look. -/
def Stmt.failure : Stmt → Option String
  | .semOpenNew | .semOpen => some "sem_open failed.\n"
  | .semUnlink => some "sem_unlink failed.\n"
  | .clockGettime => some "clock_gettime failed.\n"
  | .semTimedwait => some "timeout.\n"
  | .semPost => some "sem_post failed.\n"
  | .semGetvalue => some "sem_getvalue failed.\n"
  | .printf _ | .printValue | .semClose => none

def createDemo : List Stmt := [.semOpenNew, .semClose]

def unlinkDemo : List Stmt := [.semUnlink]

/-- With `POSIX_SEM_TIMED` set. -/
def waitDemo : List Stmt :=
  [.clockGettime, .semOpen, .printf "waitting sem...\n", .semTimedwait,
    .printf "finshed.\n", .semClose]

def postDemo : List Stmt := [.semOpen, .semPost, .semClose]

def getDemo : List Stmt := [.semOpen, .semGetvalue, .printValue, .semClose]

/-- `argv[1]` -/
inductive Demo
  | create
  | unlink
  | wait
  | post
  | get
deriving DecidableEq, Repr

def Demo.program : Demo → List Stmt
  | .create => createDemo
  | .unlink => unlinkDemo
  | .wait => waitDemo
  | .post => postDemo
  | .get => getDemo

/-- What has been executed of the demo and what is to come, the semaphore that
is open, and the value read from it. -/
structure Process where
  demo : Demo
  done : List Stmt
  rest : List Stmt
  sem : Option ℕ
  value : Option ℕ
  status : Status
deriving DecidableEq, Repr

/-- Semaphores are named by their index in the order of their creation;
`named` is the one that has the name. -/
structure State where
  named : Option ℕ
  sems : List (Semaphore semValueMax)
  processes : List Process
  output : List (ℕ × String)

def start : State := ⟨none, [], [], []⟩

/-- The next call of a process succeeds, or fails, or a signal kills it. -/
inductive Label
  | launch (demo : Demo)
  | step (i : ℕ)
  | fails (i : ℕ)
  | kill (i : ℕ)
deriving DecidableEq, Repr

def zero : Semaphore semValueMax := ⟨0, Nat.zero_le _⟩

/-- `sem_post` and `sem_timedwait`, on the semaphore that is open. -/
def State.semop (s : State) (sem : Option ℕ) (amount : ℤ) :
    Option (List (Semaphore semValueMax)) :=
  sem.bind fun k => s.sems[k]?.bind fun old =>
    (old.op amount).map (s.sems.set k)

def step (s : State) (i : ℕ) (p : Process) : Option State :=
  match p.status, p.rest with
  | .running, [] => some { s with
      processes := s.processes.set i { p with status := .ended (some 0) } }
  | .running, stmt :: rest =>
      let q : Process := { p with done := p.done ++ [stmt], rest := rest }
      let processes := s.processes.set i q
      match stmt with
      | .semOpenNew =>
          match s.named with
          | none => some { s with
              named := some s.sems.length
              sems := s.sems ++ [zero]
              processes :=
                s.processes.set i { q with sem := some s.sems.length } }
          | some _ => none
      | .semOpen => s.named.map fun k =>
          { s with processes := s.processes.set i { q with sem := some k } }
      | .semUnlink => s.named.map fun _ => { s with named := none, processes }
      | .semTimedwait =>
          (s.semop p.sem (-1)).map fun sems => { s with sems, processes }
      | .semPost => (s.semop p.sem 1).map fun sems => { s with sems, processes }
      | .semGetvalue => p.sem.bind fun k => s.sems[k]?.map fun sem =>
          { s with
            processes := s.processes.set i { q with value := some sem.value } }
      | .printf text => some { s with
          processes
          output := s.output ++ [(i, text)] }
      | .printValue => p.value.map fun value =>
          { s with
            processes
            output := s.output ++
              [(i, "posix sem value is: " ++ toString value ++ "\n")] }
      | .clockGettime | .semClose => some { s with processes }
  | .ended _, _ => none

/-- `sem_timedwait` does not give up while it need not wait. -/
def mayFail (s : State) (p : Process) : Stmt → Bool
  | .semTimedwait => (s.semop p.sem (-1)).isNone
  | _ => true

def fails (s : State) (i : ℕ) (p : Process) : Option State :=
  match p.status, p.rest with
  | .running, stmt :: _ =>
      if mayFail s p stmt then
        stmt.failure.map fun message => { s with
          processes := s.processes.set i { p with status := .ended (some (-1)) }
          output := s.output ++ [(i, message)] }
      else none
  | _, _ => none

def kill (s : State) (i : ℕ) (p : Process) : Option State :=
  p.status.signal { s with
    processes := s.processes.set i { p with status := .ended none } }

def next (s : State) : Label → Option State
  | .launch demo => some { s with
      processes :=
        s.processes ++ [⟨demo, [], demo.program, none, none, .running⟩] }
  | .step i => s.processes[i]?.bind (step s i)
  | .fails i => s.processes[i]?.bind (fails s i)
  | .kill i => s.processes[i]?.bind (kill s i)

/-! ### What the processes have done to a semaphore -/

/-- How often the process has called `stmt` on semaphore `k`. -/
def Process.calls (stmt : Stmt) (k : ℕ) (p : Process) : ℕ :=
  if p.sem = some k then p.done.count stmt else 0

/-- How often it still has to. -/
def Process.pending (stmt : Stmt) (k : ℕ) (p : Process) : ℕ :=
  if p.sem = some k ∧ p.status = .running then p.rest.count stmt else 0

def State.calls (s : State) (stmt : Stmt) (k : ℕ) : ℕ :=
  (s.processes.map (Process.calls stmt k)).sum

def State.pending (s : State) (stmt : Stmt) (k : ℕ) : ℕ :=
  (s.processes.map (Process.pending stmt k)).sum

/-- What a process has added to semaphore `k`, less what it has taken. -/
def amount (p : Process) (k : ℕ) : ℤ :=
  p.calls .semPost k - p.calls .semTimedwait k

def Process.Executes (p : Process) : Prop := p.done ++ p.rest = p.demo.program

/-- Semaphores are opened before they are used. -/
def Stmt.opens : Stmt → Bool
  | .semOpenNew | .semOpen => true
  | _ => false

def Stmt.uses : Stmt → Bool
  | .semTimedwait | .semPost | .semGetvalue => true
  | _ => false

structure Inv (s : State) : Prop where
  executes : ∀ p ∈ s.processes, p.Executes
  opened : ∀ p ∈ s.processes, p.sem.isSome = p.done.any Stmt.opens
  exists_sem : ∀ p ∈ s.processes, ∀ k, p.sem = some k → k < s.sems.length
  -- a semaphore that has lost its name never gets one again
  newest : ∀ k, s.named = some k → k + 1 = s.sems.length
  balanced : Semaphore.Balanced s.sems (fun _ => 0) amount s.processes

theorem start_inv : Inv start where
  executes := by simp [start]
  opened := by simp [start]
  exists_sem := by simp [start]
  newest := by simp [start]
  balanced := by simp [start, Semaphore.Balanced]

/-! ### Places in the demos -/

theorem not_uses_of_inits (demo : Demo) :
    ∀ done ∈ demo.program.inits, ¬ done.any Stmt.opens →
      ∀ stmt ∈ done, ¬ stmt.uses := by
  cases demo <;> decide

theorem not_opens_of_inits (demo : Demo) :
    ∀ done ∈ demo.program.inits, done.any Stmt.opens →
      ∀ stmt ∈ demo.program.drop done.length, ¬ stmt.opens := by
  cases demo <;> decide

/-- Nothing is used before a semaphore is open. -/
theorem Process.Executes.not_uses {p : Process} (h : p.Executes)
    (hclosed : ¬ p.done.any Stmt.opens) : ∀ stmt ∈ p.done, ¬ stmt.uses := by
  refine forall_split (P := fun done _ => ¬ done.any Stmt.opens →
    ∀ stmt ∈ done, ¬ stmt.uses) ?_ h hclosed
  exact not_uses_of_inits p.demo

/-- A semaphore is opened once at most. -/
theorem Process.Executes.not_opens {p : Process} (h : p.Executes)
    (hopen : p.done.any Stmt.opens) : ∀ stmt ∈ p.rest, ¬ stmt.opens := by
  refine forall_split (P := fun done rest => done.any Stmt.opens →
    ∀ stmt ∈ rest, ¬ stmt.opens) ?_ h hopen
  exact not_opens_of_inits p.demo

/-! ### One step -/

/-- Process `p` executes `stmt` and becomes `q`. -/
structure Process.Advances (p : Process) (stmt : Stmt) (q : Process) :
    Prop where
  demo : q.demo = p.demo
  done : q.done = p.done ++ [stmt]
  rest : p.rest = stmt :: q.rest
  before : p.status = .running
  after : q.status = .running

/-- What the call does to the semaphores. -/
inductive Effect (s : State) (p q : Process) (t : State) : Stmt → Prop
  | none {stmt : Stmt} (hstmt : ¬ stmt.opens)
      (hpost : stmt ≠ .semPost) (hwait : stmt ≠ .semTimedwait)
      (hsem : q.sem = p.sem) (hsems : t.sems = s.sems)
      (hnamed : t.named = s.named ∨ t.named = .none) : Effect s p q t stmt
  | creates (hsem : q.sem = some s.sems.length)
      (hsems : t.sems = s.sems ++ [zero])
      (hnamed : t.named = some s.sems.length) : Effect s p q t .semOpenNew
  | opens {k : ℕ} (hk : s.named = some k) (hsem : q.sem = some k)
      (hsems : t.sems = s.sems) (hnamed : t.named = s.named) :
      Effect s p q t .semOpen
  | waits {k : ℕ} {old new : Semaphore semValueMax} (hk : p.sem = some k)
      (hsem : q.sem = p.sem) (hold : s.sems[k]? = some old)
      (hop : old.op (-1) = some new) (hsems : t.sems = s.sems.set k new)
      (hnamed : t.named = s.named) : Effect s p q t .semTimedwait
  | posts {k : ℕ} {old new : Semaphore semValueMax} (hk : p.sem = some k)
      (hsem : q.sem = p.sem) (hold : s.sems[k]? = some old)
      (hop : old.op 1 = some new) (hsems : t.sems = s.sems.set k new)
      (hnamed : t.named = s.named) : Effect s p q t .semPost

theorem semop_eq_some {s : State} {sem : Option ℕ} {a : ℤ}
    {sems : List (Semaphore semValueMax)} (h : s.semop sem a = some sems) :
    ∃ k old new, sem = some k ∧ s.sems[k]? = some old ∧
      old.op a = some new ∧ sems = s.sems.set k new := by
  obtain ⟨k, hk, hbind⟩ := Option.bind_eq_some_iff.mp h
  obtain ⟨old, hold, hmap⟩ := Option.bind_eq_some_iff.mp hbind
  obtain ⟨new, hnew, hsems⟩ := Option.map_eq_some_iff.mp hmap
  exact ⟨k, old, new, hk, hold, hnew, hsems.symm⟩

/-- All that a step can do. -/
theorem step_cases {s t : State} {i : ℕ} {p : Process}
    (h : step s i p = some t) :
    (p.status = .running ∧ p.rest = [] ∧ t = { s with
      processes := s.processes.set i { p with status := .ended (some 0) } }) ∨
    ∃ stmt q, t.processes = s.processes.set i q ∧ p.Advances stmt q ∧
      Effect s p q t stmt := by
  obtain ⟨demo, done, rest, sem, value, status⟩ := p
  cases status with
  | ended code => cases h
  | running =>
      cases rest with
      | nil => exact Or.inl ⟨rfl, rfl, (Option.some.inj h).symm⟩
      | cons stmt rest =>
          refine Or.inr ⟨stmt, ?_⟩
          cases stmt with
          | clockGettime | semClose | printf text =>
              cases h
              exact ⟨_, rfl, ⟨rfl, rfl, rfl, rfl, rfl⟩, .none
                Bool.false_ne_true nofun nofun rfl rfl (Or.inl rfl)⟩
          | printValue =>
              obtain ⟨v, -, rfl⟩ := Option.map_eq_some_iff.mp h
              exact ⟨_, rfl, ⟨rfl, rfl, rfl, rfl, rfl⟩, .none
                Bool.false_ne_true nofun nofun rfl rfl (Or.inl rfl)⟩
          | semGetvalue =>
              obtain ⟨k, -, hread⟩ := Option.bind_eq_some_iff.mp h
              obtain ⟨old, -, rfl⟩ := Option.map_eq_some_iff.mp hread
              exact ⟨_, rfl, ⟨rfl, rfl, rfl, rfl, rfl⟩, .none
                Bool.false_ne_true nofun nofun rfl rfl (Or.inl rfl)⟩
          | semUnlink =>
              obtain ⟨k, -, rfl⟩ := Option.map_eq_some_iff.mp h
              exact ⟨_, rfl, ⟨rfl, rfl, rfl, rfl, rfl⟩, .none
                Bool.false_ne_true nofun nofun rfl rfl (Or.inr rfl)⟩
          | semOpen =>
              obtain ⟨k, hk, rfl⟩ := Option.map_eq_some_iff.mp h
              exact ⟨_, rfl, ⟨rfl, rfl, rfl, rfl, rfl⟩, .opens hk rfl rfl rfl⟩
          | semTimedwait =>
              obtain ⟨sems, hop, rfl⟩ := Option.map_eq_some_iff.mp h
              obtain ⟨k, old, new, hk, hold, hnew, hsems⟩ := semop_eq_some hop
              exact ⟨_, rfl, ⟨rfl, rfl, rfl, rfl, rfl⟩,
                .waits hk rfl hold hnew hsems rfl⟩
          | semPost =>
              obtain ⟨sems, hop, rfl⟩ := Option.map_eq_some_iff.mp h
              obtain ⟨k, old, new, hk, hold, hnew, hsems⟩ := semop_eq_some hop
              exact ⟨_, rfl, ⟨rfl, rfl, rfl, rfl, rfl⟩,
                .posts hk rfl hold hnew hsems rfl⟩
          | semOpenNew =>
              simp only [step] at h
              split at h
              case h_1 =>
                cases h
                exact ⟨_, rfl, ⟨rfl, rfl, rfl, rfl, rfl⟩, .creates rfl rfl rfl⟩
              case h_2 => cases h

/-! ### The invariant -/

theorem Inv.not_opens_done {s : State} {i : ℕ} {p q : Process} {stmt : Stmt}
    (hs : Inv s) (hp : s.processes[i]? = some p) (h : p.Advances stmt q)
    (hstmt : stmt.opens) : ¬ p.done.any Stmt.opens := by
  intro hopen
  have hexecutes := hs.executes p (List.mem_of_getElem? hp)
  refine hexecutes.not_opens hopen stmt ?_ hstmt
  rw [h.rest]
  exact List.mem_cons_self

theorem Process.Advances.calls_of_ne {p q : Process} {stmt other : Stmt}
    (h : p.Advances stmt q) (hsem : q.sem = p.sem) (hne : stmt ≠ other)
    (k : ℕ) : q.calls other k = p.calls other k := by
  have hcount : (p.done ++ [stmt]).count other = p.done.count other := by
    simp [hne]
  rw [calls, calls, hsem, h.done, hcount]

theorem Process.Advances.calls_self {p q : Process} {stmt : Stmt} {k : ℕ}
    (h : p.Advances stmt q) (hsem : q.sem = p.sem) (hk : p.sem = some k) :
    q.calls stmt k = p.calls stmt k + 1 := by
  simp [calls, hsem, h.done, hk]

theorem Process.calls_of_ne {p : Process} {stmt : Stmt} {j k : ℕ}
    (hk : p.sem = some k) (hj : j ≠ k) : p.calls stmt j = 0 := by
  rw [calls, if_neg]
  rw [hk, Option.some.injEq]
  exact Ne.symm hj

/-- A process that opens a semaphore has not done anything to any. -/
theorem Process.Advances.calls_of_opens {p q : Process} {stmt other : Stmt}
    (h : p.Advances stmt q) (hexecutes : p.Executes)
    (hclosed : ¬ p.done.any Stmt.opens) (hstmt : stmt.opens)
    (hother : other.uses) (k : ℕ) :
    p.calls other k = 0 ∧ q.calls other k = 0 := by
  have hnone : p.done.count other = 0 := by
    rw [List.count_eq_zero]
    intro hmem
    exact hexecutes.not_uses hclosed other hmem hother
  have hne : stmt ≠ other := by
    rintro rfl
    cases stmt <;> simp [Stmt.opens, Stmt.uses] at hstmt hother
  simp [calls, h.done, hnone, hne]

theorem Inv.amount_of_opens {s : State} {i : ℕ} {p q : Process} {stmt : Stmt}
    (hs : Inv s) (hp : s.processes[i]? = some p) (h : p.Advances stmt q)
    (hstmt : stmt.opens) (k : ℕ) : amount q k = amount p k := by
  have hexecutes := hs.executes p (List.mem_of_getElem? hp)
  have hclosed := hs.not_opens_done hp h hstmt
  have hpost : p.calls .semPost k = 0 ∧ q.calls .semPost k = 0 :=
    h.calls_of_opens hexecutes hclosed hstmt rfl k
  have hwait : p.calls .semTimedwait k = 0 ∧ q.calls .semTimedwait k = 0 :=
    h.calls_of_opens hexecutes hclosed hstmt rfl k
  rw [amount, amount, hpost.1, hpost.2, hwait.1, hwait.2]

theorem Process.Advances.executes {p q : Process} {stmt : Stmt}
    (h : p.Advances stmt q) (hp : p.Executes) : q.Executes := by
  rw [Executes, h.done, h.demo, ← hp, h.rest, List.append_assoc,
    List.singleton_append]

theorem Process.Advances.opened {p q : Process} {stmt : Stmt}
    (h : p.Advances stmt q) (hp : p.sem.isSome = p.done.any Stmt.opens)
    (hsem : q.sem.isSome = (p.sem.isSome || stmt.opens)) :
    q.sem.isSome = q.done.any Stmt.opens := by
  rw [hsem, hp, h.done, List.any_append]
  simp

theorem effect_balanced {s t : State} {i : ℕ} {p q : Process} {stmt : Stmt}
    (hs : Inv s) (hp : s.processes[i]? = some p) (h : p.Advances stmt q)
    (heffect : Effect s p q t stmt) :
    Semaphore.Balanced t.sems (fun _ => 0) amount (s.processes.set i q) := by
  cases heffect with
  | none hstmt hpost hwait hsem hsems hnamed =>
      rw [hsems]
      refine hs.balanced.keep hp fun k => ?_
      rw [amount, amount, h.calls_of_ne hsem hpost, h.calls_of_ne hsem hwait]
  | creates hsem hsems hnamed =>
      rw [hsems]
      refine (hs.balanced.create rfl fun r hr => ?_).keep hp
        (hs.amount_of_opens hp h rfl)
      have hsem : r.sem ≠ some s.sems.length := fun hlength =>
        absurd (hs.exists_sem r hr _ hlength) (lt_irrefl _)
      simp [amount, Process.calls, hsem]
  | opens hk hsem hsems hnamed =>
      rw [hsems]
      exact hs.balanced.keep hp (hs.amount_of_opens hp h rfl)
  | waits hk hsem hold hop hsems hnamed =>
      rw [hsems]
      refine hs.balanced.op hp hold hop ?_ fun j hj => ?_
      · rw [amount, amount, h.calls_self hsem hk,
          h.calls_of_ne hsem (by decide)]
        omega
      · rw [amount, amount, Process.calls_of_ne (hsem.trans hk) hj,
          Process.calls_of_ne (hsem.trans hk) hj, Process.calls_of_ne hk hj,
          Process.calls_of_ne hk hj]
  | posts hk hsem hold hop hsems hnamed =>
      rw [hsems]
      refine hs.balanced.op hp hold hop ?_ fun j hj => ?_
      · rw [amount, amount, h.calls_self hsem hk,
          h.calls_of_ne hsem (by decide)]
        omega
      · rw [amount, amount, Process.calls_of_ne (hsem.trans hk) hj,
          Process.calls_of_ne (hsem.trans hk) hj, Process.calls_of_ne hk hj,
          Process.calls_of_ne hk hj]

theorem effect_inv {s t : State} {i : ℕ} {p q : Process} {stmt : Stmt}
    (hs : Inv s) (hp : s.processes[i]? = some p)
    (ht : t.processes = s.processes.set i q) (h : p.Advances stmt q)
    (heffect : Effect s p q t stmt) : Inv t := by
  have hmem := List.mem_of_getElem? hp
  have hbalanced := effect_balanced hs hp h heffect
  have hlength : s.sems.length ≤ t.sems.length := by
    cases heffect <;> simp_all
  have hold : ∀ r ∈ s.processes, ∀ k, r.sem = some k → k < t.sems.length :=
    fun r hr k hk => lt_of_lt_of_le (hs.exists_sem r hr k hk) hlength
  have hq : (∀ k, q.sem = some k → k < t.sems.length) ∧
      q.sem.isSome = (p.sem.isSome || stmt.opens) ∧
      ∀ k, t.named = some k → k + 1 = t.sems.length := by
    cases heffect with
    | none hstmt hpost hwait hsem hsems hnamed =>
        refine ⟨fun k hk => hold p hmem k (hsem ▸ hk), ?_, fun k hk => ?_⟩
        · rw [hsem, eq_false_of_ne_true hstmt, Bool.or_false]
        · rcases hnamed with hsame | hgone
          · rw [hsems]
            exact hs.newest k (hsame ▸ hk)
          · rw [hgone] at hk
            cases hk
    | creates hsem hsems hnamed =>
        refine ⟨fun k hk => ?_, ?_, fun k hk => ?_⟩
        · obtain rfl := Option.some.inj (hsem.symm.trans hk)
          simp [hsems]
        · simp [hsem, Stmt.opens]
        · obtain rfl := Option.some.inj (hnamed.symm.trans hk)
          simp [hsems]
    | opens hk hsem hsems hnamed =>
        have hlast := hs.newest _ hk
        refine ⟨fun j hj => ?_, ?_, fun j hj => ?_⟩
        · obtain rfl := Option.some.inj (hsem.symm.trans hj)
          rw [hsems]
          omega
        · simp [hsem, Stmt.opens]
        · rw [hsems]
          exact hs.newest j (hnamed ▸ hj)
    | waits hk hsem hold' hop hsems hnamed
    | posts hk hsem hold' hop hsems hnamed =>
        refine ⟨fun j hj => hold p hmem j (hsem ▸ hj), ?_, fun j hj => ?_⟩
        · simp [hsem, Stmt.opens]
        · rw [hsems, List.length_set]
          exact hs.newest j (hnamed ▸ hj)
  obtain ⟨hsem, hopened, hnewest⟩ := hq
  refine ⟨?_, ?_, ?_, hnewest, ?_⟩
  · rw [ht]
    exact forall_mem_set hs.executes (h.executes (hs.executes p hmem))
  · rw [ht]
    exact forall_mem_set hs.opened (h.opened (hs.opened p hmem) hopened)
  · rw [ht]
    exact forall_mem_set hold hsem
  · rw [ht]
    exact hbalanced

/-- A process ends, in whatever way. -/
theorem Inv.ends {s t : State} {i : ℕ} {p : Process} {status : Status}
    (hs : Inv s) (hp : s.processes[i]? = some p) (hnamed : t.named = s.named)
    (hsems : t.sems = s.sems)
    (ht : t.processes = s.processes.set i { p with status }) : Inv t := by
  have hmem := List.mem_of_getElem? hp
  constructor
  · rw [ht]
    exact forall_mem_set hs.executes (hs.executes p hmem)
  · rw [ht]
    exact forall_mem_set hs.opened (hs.opened p hmem)
  · rw [ht, hsems]
    exact forall_mem_set hs.exists_sem (hs.exists_sem p hmem)
  · rw [hnamed, hsems]
    exact hs.newest
  · rw [ht, hsems]
    exact hs.balanced.keep hp fun _ => rfl

theorem fails_eq_some {s t : State} {i : ℕ} {p : Process}
    (h : fails s i p = some t) :
    ∃ stmt rest message, p.status = .running ∧ p.rest = stmt :: rest ∧
      mayFail s p stmt ∧ stmt.failure = some message ∧ t = { s with
        processes := s.processes.set i { p with status := .ended (some (-1)) }
        output := s.output ++ [(i, message)] } := by
  unfold fails at h
  split at h
  case h_2 => cases h
  case h_1 stmt rest hstatus hrest =>
    obtain ⟨hmay, hmap⟩ := Option.ite_none_right_eq_some.mp h
    obtain ⟨message, hmessage, rfl⟩ := Option.map_eq_some_iff.mp hmap
    exact ⟨stmt, rest, message, hstatus, hrest, hmay, hmessage, rfl⟩

theorem next_inv {s t : State} {label : Label} (hs : Inv s)
    (h : next s label = some t) : Inv t := by
  cases label with
  | launch demo =>
      cases h
      exact ⟨forall_mem_concat hs.executes rfl,
        forall_mem_concat hs.opened rfl,
        forall_mem_concat hs.exists_sem nofun, hs.newest,
        hs.balanced.launch fun _ => rfl⟩
  | step i =>
      obtain ⟨p, hp, hstep⟩ := Option.bind_eq_some_iff.mp h
      rcases step_cases hstep with ⟨-, -, rfl⟩ | ⟨stmt, q, ht, hq, heffect⟩
      · exact hs.ends hp rfl rfl rfl
      · exact effect_inv hs hp ht hq heffect
  | fails i =>
      obtain ⟨p, hp, hfails⟩ := Option.bind_eq_some_iff.mp h
      obtain ⟨_, _, _, -, -, -, -, rfl⟩ := fails_eq_some hfails
      exact hs.ends hp rfl rfl rfl
  | kill i =>
      obtain ⟨p, hp, hkill⟩ := Option.bind_eq_some_iff.mp h
      obtain ⟨-, rfl⟩ := Status.signal_eq_some hkill
      exact hs.ends hp rfl rfl rfl

theorem exec_inv {s : State} {labels : List Label}
    (hrun : exec next start labels = some s) : Inv s :=
  exec_invariant (fun _ _ _ => next_inv) start_inv hrun

/-! ### The value of a semaphore -/

theorem State.sum_amount (s : State) (k : ℕ) :
    (s.processes.map fun p => amount p k).sum =
      s.calls .semPost k - s.calls .semTimedwait k := by
  rw [calls, calls]
  simp only [amount]
  induction s.processes with
  | nil => rfl
  | cons p rest ih =>
      simp only [List.map_cons, List.sum_cons, ih]
      omega

theorem Inv.value_add {s : State} (hs : Inv s) {k : ℕ}
    {sem : Semaphore semValueMax} (hsem : s.sems[k]? = some sem) :
    sem.value + s.calls .semTimedwait k = s.calls .semPost k := by
  have hbalance := hs.balanced k sem hsem
  rw [s.sum_amount, zero_add] at hbalance
  omega

end PosixSem

end MyFreeLib
