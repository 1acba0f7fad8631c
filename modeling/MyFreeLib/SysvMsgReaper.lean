/-
The parent of the message-queue file server and its children: `grimReaper`
runs on `SIGCHLD` between any two steps of the main loop.  Signals that are
pending are one, so one run of the handler has to see to every child that
ended before its last `waitpid`.  The requests themselves are in
`SysvMsgServer`.
-/
import MyFreeLib.LabelledRun

namespace MyFreeLib

namespace Reaper

def eintr : ℤ := 4

def echild : ℤ := 10

/-- A child; one that outlives the server is inherited by another process. -/
inductive ChildStatus
  | running
  | zombie
  | reaped
  | inherited
deriving DecidableEq, Repr

/-- The next statement of `grimReaper`.  `SIGCHLD` is blocked from its start
to its return; `abandoned` if `sig_handler` has interrupted it, which calls
`exit`. -/
inductive Handler
  | idle
  | save
  | waitpid (savedError : ℤ)
  | restore (savedError : ℤ)
  | leave
  | abandoned
deriving DecidableEq, Repr

/-- Where the main loop stands.  At `test` the last `msgrcv` has failed and
set `errno` to `set`; at `exit` what is left is to run `clean` and to end. -/
inductive MainPc
  | msgrcv
  | test (set : ℤ)
  | fork
  | exit (code : ℤ)
  | gone
deriving DecidableEq, Repr

/-- `reaped`, the answers of `waitpid` in their order, is history. -/
structure State where
  pc : MainPc
  handler : Handler
  errno : ℤ
  pending : Bool
  children : List ChildStatus
  reaped : List ℕ
deriving DecidableEq, Repr

/-- The loop is about to begin. -/
def start (errno : ℤ) : State :=
  { pc := .msgrcv
    handler := .idle
    errno := errno
    pending := false
    children := []
    reaped := [] }

/-- One step: a call of the main loop answers, its test is made, the process
ends, a child ends, `SIGCHLD` is delivered, `grimReaper` makes its next
statement (with the child that `waitpid` finds), `SIGINT` or `SIGTERM` is
delivered. -/
inductive Label
  | msgrcv
  | msgrcvFails (errno : ℤ)
  | test
  | fork
  | forkFails (errno : ℤ)
  | exit
  | childExits (i : ℕ)
  | deliver
  | grimReaper (found : Option ℕ)
  | signal
deriving DecidableEq, Repr

def mainNext (s : State) : Label → Option State
  | .msgrcv =>
      if s.pc = .msgrcv then some { s with pc := .fork } else none
  | .msgrcvFails errno =>
      if s.pc = .msgrcv then some { s with pc := .test errno, errno := errno }
      else none
  | .test =>
      match s.pc with
      | .test _ =>
          if s.errno = eintr then some { s with pc := .msgrcv }
          else some { s with pc := .exit (-1) }
      | _ => none
  | .fork =>
      if s.pc = .fork then some { s with
        pc := .msgrcv
        children := s.children ++ [.running] }
      else none
  | .forkFails errno =>
      -- `break` leads to the end of `main`
      if s.pc = .fork then some { s with pc := .exit 0, errno := errno }
      else none
  | _ => none

/-- `waitpid(-1, NULL, WNOHANG)` takes an ended child if there is one; without
any child it fails. -/
def waitpidNext (s : State) (savedError : ℤ) : Option ℕ → Option State
  | some i =>
      if s.children[i]? = some .zombie then some { s with
        children := s.children.set i .reaped
        reaped := s.reaped ++ [i] }
      else none
  | none =>
      if .zombie ∉ s.children then some { s with
        errno := if .running ∈ s.children then s.errno else echild
        handler := .restore savedError }
      else none

/-- The next statement of `grimReaper`. -/
def handlerNext (s : State) (found : Option ℕ) : Option State :=
  match s.handler with
  | .save => some { s with handler := .waitpid s.errno }
  | .waitpid savedError => waitpidNext s savedError found
  | .restore savedError =>
      some { s with errno := savedError, handler := .leave }
  | .leave => some { s with handler := .idle }
  | _ => none

/-- What becomes of a child when its parent ends. -/
def ChildStatus.orphan : ChildStatus → ChildStatus
  | .reaped => .reaped
  | _ => .inherited

def next (s : State) (label : Label) : Option State :=
  if s.pc = .gone then none
  else match label with
  | .childExits i =>
      -- the child becomes a zombie and the parent is notified at once
      if s.children[i]? = some .running then some { s with
        children := s.children.set i .zombie
        pending := true }
      else none
  | .deliver =>
      if s.pending ∧ s.handler = .idle then
        some { s with pending := false, handler := .save }
      else none
  | .grimReaper found => handlerNext s found
  | .signal => some { s with
      pc := .exit (-1)
      handler := if s.handler = .idle then .idle else .abandoned }
  | .exit =>
      match s.pc with
      | .exit _ =>
          if s.handler = .idle ∨ s.handler = .abandoned then some { s with
            pc := .gone
            children := s.children.map ChildStatus.orphan }
          else none
      | _ => none
  | label => if s.handler = .idle then mainNext s label else none

/-! ### The invariant -/

/-- A `waitpid` of this run of the handler is still to come, or the process
ends inside it. -/
def Handler.Reaping : Handler → Prop
  | .save | .waitpid _ | .abandoned => True
  | _ => False

/-- The value of `errno` that the main loop goes on with. -/
def Handler.errnoAfter (errno : ℤ) : Handler → ℤ
  | .waitpid savedError | .restore savedError => savedError
  | _ => errno

structure Inv (s : State) : Prop where
  /-- A child that has ended is announced or about to be found. -/
  zombie : .zombie ∈ s.children → s.pending = true ∨ s.handler.Reaping
  reaped : ∀ i ∈ s.reaped, s.children[i]? = some .reaped
  nodup : s.reaped.Nodup
  errno : ∀ set, s.pc = .test set → s.handler.errnoAfter s.errno = set

theorem start_inv (errno : ℤ) : Inv (start errno) :=
  ⟨by simp [start], by simp [start], List.nodup_nil, by simp [start]⟩

/-- A move of the handler that keeps the `errno` the main loop goes on with. -/
theorem Inv.handler_moves {s : State} (hs : Inv s) {handler : Handler}
    {errno : ℤ} {pending : Bool}
    (hzombie : .zombie ∈ s.children → pending = true ∨ handler.Reaping)
    (herrno : handler.errnoAfter errno = s.handler.errnoAfter s.errno) :
    Inv { s with handler := handler, errno := errno, pending := pending } :=
  { hs with
    zombie := hzombie
    errno := fun set hset => herrno.trans (hs.errno set hset) }

/-- Past its last `waitpid` the handler is no longer responsible for anyone. -/
theorem Inv.pending_of_zombie {s : State} (hs : Inv s)
    (hpast : ¬s.handler.Reaping) (hz : .zombie ∈ s.children) :
    s.pending = true :=
  (hs.zombie hz).resolve_right hpast

/-- A step of the main loop makes no zombie and leaves the reaped alone. -/
theorem mainNext_inv {s t : State} {label : Label} (hs : Inv s)
    (hidle : s.handler = .idle) (h : mainNext s label = some t) : Inv t := by
  cases label with
  | msgrcv =>
      obtain ⟨-, rfl⟩ := guarded_eq_some.mp h
      exact { hs with errno := by simp }
  | msgrcvFails errno =>
      obtain ⟨-, rfl⟩ := guarded_eq_some.mp h
      refine { hs with errno := fun set hset => ?_ }
      rw [hidle]
      exact MainPc.test.inj hset
  | test =>
      cases hpc : s.pc with
      | test set =>
          simp only [mainNext, hpc] at h
          split at h <;> obtain rfl := Option.some.inj h <;>
            exact { hs with errno := by simp }
      | _ => simp [mainNext, hpc] at h
  | fork =>
      obtain ⟨-, rfl⟩ := guarded_eq_some.mp h
      refine { hs with zombie := fun hz => ?_, reaped := ?_, errno := by simp }
      · rcases List.mem_append.mp hz with hold | hnew
        · exact hs.zombie hold
        · simp at hnew
      · intro i hi
        have hold := hs.reaped i hi
        have hlt := (List.getElem?_eq_some_iff.mp hold).1
        rw [List.getElem?_append_left hlt, hold]
  | forkFails errno =>
      obtain ⟨-, rfl⟩ := guarded_eq_some.mp h
      exact { hs with errno := by simp }
  | _ => cases h

/-- A child that `waitpid` finds had not been found before. -/
theorem waitpidNext_inv {s t : State} {savedError : ℤ} {found : Option ℕ}
    (hs : Inv s) (hhandler : s.handler = .waitpid savedError)
    (h : waitpidNext s savedError found = some t) : Inv t := by
  cases found with
  | some i =>
      obtain ⟨hzombie, rfl⟩ := guarded_eq_some.mp h
      have hnew : i ∉ s.reaped := by
        intro hi
        rw [hs.reaped i hi] at hzombie
        cases hzombie
      constructor
      · intro _
        exact Or.inr (hhandler ▸ trivial)
      · intro j hj
        rcases List.mem_append.mp hj with hold | hlast
        · have hne : i ≠ j := by
            rintro rfl
            exact hnew hold
          rw [List.getElem?_set_ne hne, hs.reaped j hold]
        · rw [List.mem_singleton.mp hlast]
          exact List.getElem?_set_self (List.getElem?_eq_some_iff.mp hzombie).1
      · refine List.nodup_append.mpr
          ⟨hs.nodup, List.nodup_cons.mpr ⟨List.not_mem_nil, List.nodup_nil⟩,
            fun j hj k hk => ?_⟩
        rw [List.mem_singleton.mp hk]
        rintro rfl
        exact hnew hj
      · exact hs.errno
  | none =>
      obtain ⟨hnone, rfl⟩ := guarded_eq_some.mp h
      exact hs.handler_moves (fun hz => absurd hz hnone)
        (by rw [hhandler]; rfl)

/-- `errno` is what it was when the handler is left, whatever `waitpid` has
made of it. -/
theorem handlerNext_inv {s t : State} {found : Option ℕ} (hs : Inv s)
    (h : handlerNext s found = some t) : Inv t := by
  cases hhandler : s.handler with
  | waitpid savedError =>
      simp only [handlerNext, hhandler] at h
      exact waitpidNext_inv hs hhandler h
  | save =>
      simp only [handlerNext, hhandler] at h
      obtain rfl := Option.some.inj h
      exact hs.handler_moves (fun _ => Or.inr trivial) (by rw [hhandler]; rfl)
  | restore savedError =>
      simp only [handlerNext, hhandler] at h
      obtain rfl := Option.some.inj h
      have hpast : ¬s.handler.Reaping := hhandler ▸ not_false
      exact hs.handler_moves (fun hz => Or.inl (hs.pending_of_zombie hpast hz))
        (by rw [hhandler]; rfl)
  | leave =>
      simp only [handlerNext, hhandler] at h
      obtain rfl := Option.some.inj h
      have hpast : ¬s.handler.Reaping := hhandler ▸ not_false
      exact hs.handler_moves (fun hz => Or.inl (hs.pending_of_zombie hpast hz))
        (by rw [hhandler]; rfl)
  | _ => simp [handlerNext, hhandler] at h

theorem ChildStatus.orphan_ne_zombie (c : ChildStatus) :
    c.orphan ≠ .zombie := by
  cases c <;> simp [orphan]

theorem next_inv (s : State) (label : Label) (t : State) (hs : Inv s)
    (h : next s label = some t) : Inv t := by
  obtain ⟨-, h⟩ := Option.ite_none_left_eq_some.mp h
  cases label with
  | childExits i =>
      obtain ⟨hrunning, rfl⟩ := guarded_eq_some.mp h
      refine { hs with zombie := fun _ => Or.inl rfl, reaped := ?_ }
      intro j hj
      have hold := hs.reaped j hj
      have hne : i ≠ j := by
        rintro rfl
        rw [hold] at hrunning
        cases hrunning
      rw [List.getElem?_set_ne hne, hold]
  | deliver =>
      obtain ⟨⟨-, hidle⟩, rfl⟩ := guarded_eq_some.mp h
      exact hs.handler_moves (fun _ => Or.inr trivial) (by rw [hidle]; rfl)
  | grimReaper found => exact handlerNext_inv hs h
  | signal =>
      obtain rfl := Option.some.inj h
      refine { hs with zombie := fun hz => ?_, errno := by simp }
      by_cases hidle : s.handler = .idle
      · simpa [hidle] using hs.zombie hz
      · simp [hidle, Handler.Reaping]
  | exit =>
      cases hpc : s.pc with
      | exit code =>
          simp only [hpc] at h
          obtain ⟨-, rfl⟩ := guarded_eq_some.mp h
          refine { hs with
            zombie := fun hz => ?_, reaped := fun i hi => ?_, errno := by simp }
          · obtain ⟨c, -, hc⟩ := List.mem_map.mp hz
            exact absurd hc c.orphan_ne_zombie
          · rw [List.getElem?_map, hs.reaped i hi]
            rfl
      | _ => simp [hpc] at h
  | _ =>
      obtain ⟨hidle, h⟩ := Option.ite_none_right_eq_some.mp h
      exact mainNext_inv hs hidle h

/-! ### Runs -/

/-- With no `SIGCHLD` pending and `grimReaper` not running there is no zombie,
no child is reaped twice, and a test of the main loop sees the `errno` that
`msgrcv` has set. -/
theorem reaping_correct {errno : ℤ} {labels : List Label} {s : State}
    (hrun : exec next (start errno) labels = some s) :
    (s.pending = false → s.handler = .idle → .zombie ∉ s.children) ∧
      s.reaped.Nodup ∧
      ∀ set, s.pc = .test set → s.handler = .idle → s.errno = set := by
  have hs : Inv s := exec_invariant next_inv (start_inv errno) hrun
  refine ⟨fun hpending hidle hz => ?_, hs.nodup, fun set hpc hidle => ?_⟩
  · have hpast : ¬s.handler.Reaping := hidle ▸ not_false
    have hp := hs.pending_of_zombie hpast hz
    rw [hpending] at hp
    cases hp
  · have hseen := hs.errno set hpc
    rwa [hidle] at hseen

/-- From its first `waitpid` on, `grimReaper` gets to its end by itself, and
at the end every child that has ended is reaped and `errno` is restored. -/
theorem grimReaper_completes {s : State} {savedError : ℤ}
    (hpc : s.pc ≠ .gone) (hhandler : s.handler = .waitpid savedError) :
    ∃ (founds : List (Option ℕ)) (t : State),
      exec next s (founds.map Label.grimReaper) = some t ∧
      t.handler = .idle ∧ .zombie ∉ t.children ∧ t.errno = savedError ∧
      t.pending = s.pending ∧ t.pc = s.pc := by
  induction hzombies : s.children.count .zombie generalizing s with
  | zero =>
      have hnone : ChildStatus.zombie ∉ s.children :=
        List.count_eq_zero.mp hzombies
      refine ⟨[none, none, none], ?_⟩
      simp [exec, next, handlerNext, waitpidNext, hpc, hhandler, hnone]
  | succ n ih =>
      have hmem : ChildStatus.zombie ∈ s.children :=
        List.count_pos_iff.mp (by omega)
      obtain ⟨i, hi⟩ := List.mem_iff_getElem?.mp hmem
      obtain ⟨hlt, hget⟩ := List.getElem?_eq_some_iff.mp hi
      have hstep : next s (.grimReaper (some i)) = some { s with
          children := s.children.set i .reaped
          reaped := s.reaped ++ [i] } := by
        simp [next, handlerNext, waitpidNext, hpc, hhandler, hi]
      have hfewer : (s.children.set i .reaped).count .zombie = n := by
        rw [List.count_set hlt, hget, hzombies]
        simp
      obtain ⟨founds, t, hrun, hend⟩ := ih (s := { s with
        children := s.children.set i .reaped
        reaped := s.reaped ++ [i] }) hpc hhandler hfewer
      exact ⟨some i :: founds, t,
        exec_cons_eq_some.mpr ⟨_, hstep, hrun⟩, hend⟩

/-- Two children end before the one signal for both is delivered, and a third
after the last `waitpid`. -/
def twoSignals : List Label :=
  [.msgrcv, .fork, .msgrcv, .fork, .msgrcv, .fork, .childExits 0,
    .childExits 1, .msgrcvFails eintr, .deliver, .grimReaper none,
    .grimReaper (some 1), .grimReaper (some 0), .grimReaper none,
    .childExits 2, .grimReaper none, .grimReaper none, .deliver,
    .grimReaper none, .grimReaper (some 2), .grimReaper none,
    .grimReaper none, .grimReaper none]

theorem reaping_correct_twoSignals :
    ∃ s, exec next (start 0) twoSignals = some s ∧ s.reaped = [1, 0, 2] ∧
      .zombie ∉ s.children ∧ s.errno = eintr := by
  have hrun : exec next (start 0) twoSignals = some _ := rfl
  obtain ⟨hzombie, -, herrno⟩ := reaping_correct hrun
  exact ⟨_, hrun, rfl, hzombie rfl rfl, herrno eintr rfl rfl⟩

end Reaper

end MyFreeLib
