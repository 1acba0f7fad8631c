/-
The three demos come to their end: whatever has failed and whoever has been
killed, the processes that are left alone never wait for each other in vain.
-/
import MyFreeLib.PipeForkBarrier

namespace MyFreeLib

namespace PipeFork

/-- The process goes on with a call that succeeds. -/
def Label.calm : Label → Bool
  | .step _ => true
  | .fails _ | .kill _ => false

/-! ### What is left to do -/

def Stmt.cost : Stmt → ℕ
  | .write block => 1 + 3 * block.length
  | .fork => 6
  | _ => 1

/-- From the given place on.  An `echo` goes back, so that it counts for more
than the way out of its loop. -/
def left (which : Demo) (child : Bool) (pc : ℕ) : ℕ :=
  let rest := (programOf which child).drop pc
  1 + (rest.map Stmt.cost).sum + if rest.head? = some .echo then 2 else 0

/-- A statement leaves less to do, with what it puts into the pipe, the child
that it makes and the way that it takes. -/
def Falls (which : Demo) (child : Bool) (pc : ℕ) : Stmt → Prop
  | .write block =>
      left which child (pc + 1) + 3 * block.length < left which child pc
  | .fork =>
      left which child (pc + 1) + left which true 0 < left which child pc
  | .readLoop => left which child (pc + 1) < left which child pc + 3 ∧
      left which child (pc + 2) < left which child pc
  | .echo => left which child (pc - 1) < left which child pc
  | _ => left which child (pc + 1) < left which child pc

instance (which : Demo) (child : Bool) (pc : ℕ) (stmt : Stmt) :
    Decidable (Falls which child pc stmt) := by
  cases stmt <;> unfold Falls <;> infer_instance

theorem falls_of_lt (which : Demo) : ∀ child : Bool,
    ∀ pc < (programOf which child).length,
      ∀ stmt ∈ (programOf which child)[pc]?, Falls which child pc stmt := by
  cases which <;> decide

theorem Process.at.falls {which : Demo} {p : Process} {stmt : Stmt}
    (h : p.at which stmt) : Falls which p.child p.pc stmt :=
  falls_of_lt which p.child p.pc (List.getElem?_eq_some_iff.mp h.2).1 stmt h.2

def Process.work (which : Demo) (p : Process) : ℕ :=
  match p.status with
  | .running => left which p.child p.pc
  | .ended _ => 0

def State.work (s : State) : ℕ :=
  (s.processes.map (Process.work s.demo)).sum + 3 * s.content.length

theorem Process.work_of_running {which : Demo} {p : Process}
    (h : p.status = .running) : p.work which = left which p.child p.pc := by
  rw [Process.work, h]

theorem Process.work_gone (which : Demo) (p : Process) (code : Option ℤ) :
    (p.gone code).work which = 0 := rfl

theorem left_pos (which : Demo) (child : Bool) (pc : ℕ) :
    0 < left which child pc := by
  simp only [left]
  omega

/-- What a process has more to do now it has taken out of the pipe. -/
theorem work_lt {s t : State} {i : ℕ} {p q : Process}
    (hp : s.processes[i]? = some p) (hdemo : t.demo = s.demo)
    (ht : t.processes = s.processes.set i q)
    (hless : q.work s.demo + 3 * t.content.length <
      p.work s.demo + 3 * s.content.length) : t.work < s.work := by
  have hsum := sum_map_set (Process.work s.demo) hp q
  rw [State.work, State.work, ht, hdemo]
  omega

/-- A process that ends has nothing left to do. -/
theorem gone_work {s t : State} {i : ℕ} {p : Process} {code : Option ℤ}
    (hp : s.processes[i]? = some p) (hrun : p.status = .running)
    (hdemo : t.demo = s.demo) (hcontent : t.content = s.content)
    (ht : t.processes = s.processes.set i (p.gone code)) : t.work < s.work := by
  have hpos := left_pos s.demo p.child p.pc
  refine work_lt hp hdemo ht ?_
  rw [Process.work_gone, Process.work_of_running hrun, hcontent]
  omega

theorem length_taken_lt {s : State} (h : s.content ≠ []) :
    s.taken.content.length < s.content.length := by
  have hpos := List.length_pos_iff.mpr h
  rw [State.taken, List.length_drop]
  exact Nat.sub_lt hpos (by decide)

/-- A fork counts for the child that it makes. -/
theorem fork_work {s t : State} {i : ℕ} {p : Process}
    (hp : s.processes[i]? = some p) (hat : p.at s.demo .fork)
    (hdemo : t.demo = s.demo) (hcontent : t.content = s.content)
    (ht : t.processes =
      s.processes.set i { p with pc := p.pc + 1 } ++ [p.copy]) :
    t.work < s.work := by
  have hfalls := hat.falls
  have hsum := sum_map_set (Process.work s.demo) hp { p with pc := p.pc + 1 }
  have hmoved : Process.work s.demo { p with pc := p.pc + 1 } =
      left s.demo p.child (p.pc + 1) := Process.work_of_running hat.1
  have hchild : Process.work s.demo p.copy = left s.demo true 0 :=
    Process.work_of_running rfl
  rw [Process.work_of_running hat.1, hmoved] at hsum
  rw [State.work, State.work, ht, hdemo, hcontent, List.map_append,
    List.sum_append, List.map_singleton, List.sum_singleton, hchild]
  simp only [Falls] at hfalls
  omega

theorem execute_work {s t : State} {i : ℕ} {p : Process} {stmt : Stmt}
    (hp : s.processes[i]? = some p) (hat : p.at s.demo stmt)
    (h : execute s i p stmt = some t) : t.work < s.work := by
  have hfalls := hat.falls
  have hrun := hat.1
  have hmoves {t : State} {q : Process} {pc : ℕ}
      (ht : t.processes = s.processes.set i q) (hdemo : t.demo = s.demo)
      (hchild : q.child = p.child) (hpc : q.pc = pc)
      (hstatus : q.status = .running)
      (hless : left s.demo p.child pc + 3 * t.content.length <
        left s.demo p.child p.pc + 3 * s.content.length) : t.work < s.work := by
    refine work_lt hp hdemo ht ?_
    rw [Process.work_of_running hstatus, Process.work_of_running hrun, hchild,
      hpc]
    exact hless
  have hplain {t : State} {q : Process}
      (ht : t.processes = s.processes.set i q) (hdemo : t.demo = s.demo)
      (hchild : q.child = p.child) (hpc : q.pc = p.pc + 1)
      (hstatus : q.status = .running)
      (hcontent : t.content.length ≤ s.content.length)
      (hless : left s.demo p.child (p.pc + 1) < left s.demo p.child p.pc) :
      t.work < s.work :=
    hmoves ht hdemo hchild hpc hstatus (by omega)
  have htaken : s.taken.content.length ≤ s.content.length :=
    (List.drop_suffix _ _).length_le
  cases stmt with
  | print | pipe | closeRead | closeWrite | sleep | dup2 | printBuf
  | printPid =>
      cases h
      exact hplain rfl rfl rfl rfl hrun (Nat.le_refl _) hfalls
  | fork =>
      cases h
      exact fork_work hp hat rfl rfl rfl
  | write block =>
      rw [execute] at h
      split at h
      case isTrue =>
        cases h
        have hlength : (s.content ++ block).length =
            s.content.length + block.length := List.length_append
        simp only [Falls] at hfalls
        exact hmoves rfl rfl rfl rfl hrun (by simp only [State.put]; omega)
      case isFalse =>
        cases h
        exact gone_work hp hrun rfl rfl rfl
  | read =>
      obtain ⟨block, -, rfl⟩ := Option.map_eq_some_iff.mp h
      exact hplain rfl rfl rfl rfl hrun htaken hfalls
  | readEof =>
      obtain ⟨block, -, ht⟩ := Option.map_eq_some_iff.mp h
      split at ht
      case isTrue =>
        subst ht
        exact hplain rfl rfl rfl rfl hrun htaken hfalls
      case isFalse =>
        subst ht
        exact hplain rfl rfl rfl rfl hrun htaken hfalls
  | readLoop =>
      obtain ⟨block, hread, ht⟩ := Option.map_eq_some_iff.mp h
      simp only [Falls] at hfalls
      split at ht
      case isTrue =>
        subst ht
        exact hmoves rfl rfl rfl rfl hrun (by simp only [State.put]; omega)
      case isFalse hsome =>
        subst ht
        -- the turn of the `echo` is paid for by what has been read
        have hcontent : s.content ≠ [] := by
          rcases read_eq_some hread with ⟨-, h⟩ | ⟨hnil, -⟩
          · exact h
          · exact absurd hnil hsome
        have hless := length_taken_lt hcontent
        exact hmoves rfl rfl rfl (show _ = p.pc + 1 from rfl) hrun
          (by simp only [State.put]; omega)
  | echo =>
      cases h
      exact hmoves rfl rfl rfl rfl hrun (Nat.add_lt_add_right hfalls _)

theorem step_work {s t : State} {i : ℕ} (h : next s (.step i) = some t) :
    t.work < s.work := by
  obtain ⟨p, hp, hstep⟩ := Option.bind_eq_some_iff.mp h
  rcases Status.turn_eq_some hstep with ⟨stmt, hat, hcall⟩ |
    ⟨hrun, -, hexit⟩
  · exact execute_work hp hat hcall
  · cases hexit
    exact gone_work hp hrun rfl rfl rfl

/-! ### Who waits -/

def Stmt.isRead : Stmt → Bool
  | .read | .readEof | .readLoop => true
  | _ => false

/-- A call that does not come back waits for somebody who could write. -/
theorem execute_isSome (s : State) (i : ℕ) (p : Process) (stmt : Stmt)
    (h : stmt.isRead = true → ¬ s.hasWriter) :
    (execute s i p stmt).isSome := by
  have hread (hstmt : stmt.isRead = true) : s.read.isSome := by
    unfold State.read
    split
    · rfl
    · rw [if_neg (h hstmt)]
      rfl
  cases stmt with
  | read | readEof | readLoop =>
      rw [execute, Option.isSome_map]
      exact hread rfl
  | write block =>
      rw [execute]
      split <;> rfl
  | _ => rfl

/-- How the write ends of a process stand, unless `dup2` has added one. -/
def Process.EndsKnown (which : Demo) (p : Process) : Prop :=
  (p.status = .running → .dup2 ∉ p.done which →
    p.writeEnds = ends p.child (p.done which)) ∧
  (p.status ≠ .running → p.writeEnds = 0)

/-- Nobody reads who could write. -/
def EndsPlace (which : Demo) (child : Bool) (pc : ℕ) (stmt : Stmt) : Prop :=
  let done := (programOf which child).take pc
  (stmt.isRead = true → .dup2 ∉ done ∧ ends child done = 0) ∧
  (stmt = .fork → .dup2 ∉ done ∧ ends child done = 1) ∧
  (stmt = .pipe → ends child (done ++ [stmt]) = 1) ∧
  (stmt.isCloseWrite = true → .dup2 ∉ done ∧
    ends child (done ++ [stmt]) = ends child done - 1) ∧
  (stmt ≠ .pipe → stmt.isCloseWrite = false →
    ends child (done ++ [stmt]) = ends child done) ∧
  (stmt = .readLoop →
    .dup2 ∉ (programOf which child).take (pc + 2) ∧
    ends child ((programOf which child).take (pc + 2)) = ends child done) ∧
  (stmt = .echo → .dup2 ∉ done ∧
    ends child ((programOf which child).take (pc - 1)) = ends child done)

instance (which : Demo) (child : Bool) (pc : ℕ) (stmt : Stmt) :
    Decidable (EndsPlace which child pc stmt) :=
  inferInstanceAs (Decidable (_ ∧ _))

theorem endsPlace_of_lt (which : Demo) : ∀ child : Bool,
    ∀ pc < (programOf which child).length,
      ∀ stmt ∈ (programOf which child)[pc]?,
        EndsPlace which child pc stmt := by
  cases which <;> decide

theorem Process.at.endsPlace {which : Demo} {p : Process} {stmt : Stmt}
    (h : p.at which stmt) : EndsPlace which p.child p.pc stmt :=
  endsPlace_of_lt which p.child p.pc (List.getElem?_eq_some_iff.mp h.2).1 stmt
    h.2

theorem Acts.endsKnown {s : State} {p q : Process} {more : List Process}
    (h : Acts s p q more) (hrun : p.status = .running)
    (hp : p.EndsKnown s.demo) :
    q.EndsKnown s.demo ∧ ∀ r ∈ more, r.EndsKnown s.demo := by
  have hknown := hp.1 hrun
  have hforth {q : Process} {stmt : Stmt} (hat : p.at s.demo stmt)
      (hpc : q.pc = p.pc + 1) (hchild : q.child = p.child)
      (hstatus : q.status = .running)
      (hends : .dup2 ∉ p.done s.demo → stmt ≠ .dup2 →
        q.writeEnds = PipeFork.ends p.child (p.done s.demo ++ [stmt])) :
      q.EndsKnown s.demo := by
    have hdone := hat.done_forth hpc hchild
    refine ⟨fun _ hdup => ?_, fun hnot => absurd hstatus hnot⟩
    rw [hdone, List.mem_append, not_or, List.mem_singleton] at hdup
    rw [hdone, hchild]
    exact hends hdup.1 (Ne.symm hdup.2)
  cases h with
  | ends => exact ⟨⟨fun h => (by cases h), fun _ => rfl⟩, by simp⟩
  | @passes stmt pc buf got hat hpc hstmt =>
      have hplace := hat.endsPlace
      refine ⟨?_, by simp⟩
      cases hpc with
      | forth =>
          refine hforth hat rfl rfl hrun fun hdup _ => ?_
          have hclose : stmt.isCloseWrite = false := by
            cases stmt with
            | closeWrite notice => exact absurd rfl (hstmt.2.2 notice)
            | _ => rfl
          exact (hknown hdup).trans
            (hplace.2.2.2.2.1 hstmt.1 hclose).symm
      | out hloop =>
          obtain ⟨-, hends⟩ := hplace.2.2.2.2.2.1 hloop
          have hread := hplace.1 (by rw [hloop]; rfl)
          exact ⟨fun _ _ => (hknown hread.1).trans hends.symm,
            fun hnot => absurd hrun hnot⟩
      | back hecho =>
          obtain ⟨hdup, hends⟩ := hplace.2.2.2.2.2.2 hecho
          exact ⟨fun _ _ => (hknown hdup).trans hends.symm,
            fun hnot => absurd hrun hnot⟩
  | opens hat =>
      have hplace := hat.endsPlace
      exact ⟨hforth hat rfl rfl hrun fun _ _ => (hplace.2.2.1 rfl).symm,
        by simp⟩
  | forks hat =>
      have hplace := hat.endsPlace
      obtain ⟨hdup, hone⟩ := hplace.2.1 rfl
      have hends := hknown hdup
      refine ⟨hforth hat rfl rfl hrun fun _ _ =>
        hends.trans (hplace.2.2.2.2.1 (by simp) rfl).symm, fun r hr => ?_⟩
      obtain rfl := List.mem_singleton.mp hr
      exact ⟨fun _ _ => hends.trans hone, fun hnot => absurd rfl hnot⟩
  | closesRead hat =>
      have hplace := hat.endsPlace
      exact ⟨hforth hat rfl rfl hrun fun hdup _ => (hknown hdup).trans
        (hplace.2.2.2.2.1 (by simp) rfl).symm, by simp⟩
  | closesWrite hat =>
      obtain ⟨hdup, hends⟩ := hat.endsPlace.2.2.2.1 rfl
      refine ⟨hforth hat rfl rfl hrun fun _ _ => ?_, by simp⟩
      have hbefore := hknown hdup
      exact (congrArg (· - 1) hbefore).trans hends.symm
  | dups hat =>
      exact ⟨hforth hat rfl rfl hrun fun _ hne => absurd rfl hne, by simp⟩
  | sees hat hwriter =>
      have hplace := hat.endsPlace
      exact ⟨hforth hat rfl rfl hrun fun hdup _ => (hknown hdup).trans
        (hplace.2.2.2.2.1 (by simp) rfl).symm, by simp⟩

/-- The write ends of all the processes are known. -/
def EndsInv (s : State) : Prop := ∀ p ∈ s.processes, p.EndsKnown s.demo

theorem next_endsInv {s t : State} {label : Label} (hs : EndsInv s)
    (h : next s label = some t) : EndsInv t := by
  obtain ⟨i, p, hp, hturn⟩ := next_turn h
  obtain ⟨q, more, ht, hacts, -⟩ := hturn.moves
  obtain ⟨hq, hmore⟩ := hacts.endsKnown hturn.running
    (hs p (List.mem_of_getElem? hp))
  intro r hr
  rw [ht] at hr
  rw [hturn.demo]
  rcases mem_turn hp hr with rfl | hold | hnew
  · exact hq
  · exact hs r hold
  · exact hmore r hnew

theorem start_endsInv (which : Demo) (terminal : Bool) :
    EndsInv (start which terminal) := by
  intro p hp
  obtain rfl := List.mem_singleton.mp hp
  exact ⟨fun _ _ => rfl, fun hnot => absurd rfl hnot⟩

def State.ended (s : State) : Prop := ∀ p ∈ s.processes, p.status ≠ .running

instance (s : State) : Decidable s.ended :=
  inferInstanceAs (Decidable (∀ p ∈ s.processes, p.status ≠ .running))

/-- While a process has not ended, one can go on: who could write does not
read. -/
theorem exists_step {s : State} (hs : EndsInv s) (hrunning : ¬ s.ended) :
    ∃ i, (next s (.step i)).isSome := by
  have hgoes {p : Process} (hp : p ∈ s.processes) (hrun : p.status = .running)
      (hread : ∀ stmt, p.at s.demo stmt → stmt.isRead = true →
        ¬ s.hasWriter) : ∃ i, (next s (.step i)).isSome := by
    obtain ⟨i, hi⟩ := List.mem_iff_getElem?.mp hp
    refine ⟨i, ?_⟩
    rw [next, hi, Option.bind_some]
    cases hstmt : (p.program s.demo)[p.pc]? with
    | none => simp [step, Status.turn, hrun, hstmt]
    | some stmt =>
        have hat : p.at s.demo stmt := ⟨hrun, hstmt⟩
        rw [step, hat.turn_eq]
        exact execute_isSome s i p stmt (hread stmt hat)
  by_cases hwriter : s.hasWriter
  · obtain ⟨p, hp, hpos⟩ := hwriter
    obtain ⟨hknown, hgone⟩ := hs p hp
    have hrun : p.status = .running := by
      by_contra hnot
      have hnone := hgone hnot
      omega
    refine hgoes hp hrun fun stmt hat hread => ?_
    obtain ⟨hdup, hnone⟩ := hat.endsPlace.1 hread
    have hends := (hknown hrun hdup).trans hnone
    omega
  · rw [State.ended] at hrunning
    push Not at hrunning
    obtain ⟨p, hp, hrun⟩ := hrunning
    exact hgoes hp hrun fun _ _ _ => hwriter

/-- Whatever has failed and whoever has been killed until now, from here on the
processes that are left alone all end, in however many ways they take turns. -/
theorem processes_end {which : Demo} {terminal : Bool} {s : State}
    {labels : List Label}
    (hrun : exec next (start which terminal) labels = some s) :
    (∃ later t, (∀ label ∈ later, label.calm = true) ∧
      exec next s later = some t ∧ t.ended) ∧
    (∀ later t, (∀ label ∈ later, label.calm = true) →
      exec next s later = some t → later.length ≤ s.work ∧
        ((∀ label, label.calm = true → next t label = none) → t.ended)) := by
  have hkeep (s : State) (label : Label) (t : State)
      (_ : label.calm = true) (hs : EndsInv s) (h : next s label = some t) :
      EndsInv t :=
    next_endsInv hs h
  have hdrop (s : State) (label : Label) (t : State)
      (hcalm : label.calm = true) (_ : EndsInv s)
      (h : next s label = some t) : t.work < s.work := by
    cases label with
    | step i => exact step_work h
    | fails | kill => cases hcalm
  have hmove (s : State) (hs : EndsInv s) (hleft : ¬ s.ended) :
      ∃ label : Label, label.calm = true ∧ (next s label).isSome := by
    obtain ⟨i, hi⟩ := exists_step hs hleft
    exact ⟨.step i, rfl, hi⟩
  have hs := exec_invariant (fun s label t hs h => next_endsInv hs h)
    (start_endsInv which terminal) hrun
  constructor
  · obtain ⟨later, t, hcalm, hlater, -, hended⟩ :=
      exists_completion hkeep hdrop hmove hs
    exact ⟨later, t, hcalm, hlater, hended⟩
  · intro later t hcalm hlater
    refine ⟨?_, fun hstuck => ?_⟩
    · have hlength := exec_length_le hkeep hdrop hcalm hs hlater
      omega
    · have ht := exec_invariant (fun s label t hs h => next_endsInv hs h) hs
        hlater
      by_contra hleft
      obtain ⟨label, hlabel, hsome⟩ := hmove t ht hleft
      rw [hstuck label hlabel] at hsome
      cases hsome

/-- The reading child of `pipe_demo` loses its parent before the `write`. -/
def orphaned : List Label :=
  List.replicate 3 (.step 0) ++ [.step 1, .kill 0]

theorem processes_end_orphaned :
    ∃ s, exec next (start .demo true) orphaned = some s ∧ ¬ s.ended ∧
      ∃ later t, (∀ label ∈ later, label.calm = true) ∧
        exec next s later = some t ∧ t.ended := by
  have hrun : exec next (start .demo true) orphaned = some _ := rfl
  refine ⟨_, hrun, fun h => ?_, (processes_end hrun).1⟩
  exact h _ (List.mem_cons_of_mem _ List.mem_cons_self) rfl

end PipeFork

end MyFreeLib
