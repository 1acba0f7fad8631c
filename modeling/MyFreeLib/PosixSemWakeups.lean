/-
The processes that wait on a semaphore are released by the posts on it and by
nothing else.  On a semaphore that has lost its name the processes that have it
open are all there will ever be, so how many of them get through is decided.
-/
import MyFreeLib.PosixSem

namespace MyFreeLib

namespace PosixSem

/-- No call fails and no process is killed. -/
def Label.Works : Label → Prop
  | .launch _ | .step _ => True
  | .fails _ | .kill _ => False

def Label.IsStep (label : Label) : Prop := ∃ i, label = .step i

theorem Label.IsStep.works {label : Label} (h : label.IsStep) :
    label.Works := by
  obtain ⟨i, rfl⟩ := h
  exact trivial

/-- No process can go on. -/
def Quiet (s : State) : Prop := ∀ i, next s (.step i) = none

/-! ### Calls made and calls to make -/

/-- How often the process will have called `stmt` on semaphore `k`. -/
def Process.total (stmt : Stmt) (k : ℕ) (p : Process) : ℕ :=
  p.calls stmt k + p.pending stmt k

theorem State.sum_total (s : State) (stmt : Stmt) (k : ℕ) :
    (s.processes.map (Process.total stmt k)).sum =
      s.calls stmt k + s.pending stmt k :=
  List.sum_map_add

theorem Process.Advances.total_eq {p q : Process} {stmt : Stmt}
    (h : p.Advances stmt q) (hsem : q.sem = p.sem) (other : Stmt) (k : ℕ) :
    q.total other k = p.total other k := by
  simp only [total, calls, pending, hsem, h.done, h.rest, h.before, h.after,
    and_true, List.count_append, List.count_cons, List.count_nil]
  split <;> omega

theorem Process.total_of_ne {p : Process} {stmt : Stmt} {k : ℕ}
    (hk : p.sem ≠ some k) : p.total stmt k = 0 := by
  simp [total, calls, pending, hk]

/-- A process that opens another semaphore. -/
theorem Inv.total_of_opens {s : State} {i : ℕ} {p q : Process}
    {stmt other : Stmt} {j k : ℕ} (hs : Inv s)
    (hp : s.processes[i]? = some p) (h : p.Advances stmt q)
    (hstmt : stmt.opens) (hsem : q.sem = some j) (hj : j ≠ k) :
    q.total other k = p.total other k := by
  have hclosed := hs.not_opens_done hp h hstmt
  have hnone : p.sem = none := by
    have hopened := hs.opened p (List.mem_of_getElem? hp)
    rw [eq_false_of_ne_true hclosed] at hopened
    exact Option.isNone_iff_eq_none.mp (by simpa using hopened)
  rw [Process.total_of_ne (hsem ▸ fun hjk => hj (Option.some.inj hjk)),
    Process.total_of_ne (hnone ▸ nofun)]

/-- Semaphore `k` has had no name since `s`. -/
structure Follows (s : State) (k : ℕ) (t : State) : Prop where
  inv : Inv t
  exists_sem : k < t.sems.length
  unnamed : t.named ≠ some k
  total : ∀ stmt, t.calls stmt k + t.pending stmt k =
    s.calls stmt k + s.pending stmt k

theorem next_follows {s t u : State} {k : ℕ} {label : Label}
    (hlabel : label.Works) (hs : Follows s k t)
    (h : next t label = some u) : Follows s k u := by
  have hinv := next_inv hs.inv h
  cases label with
  | fails i | kill i => exact absurd hlabel not_false
  | launch demo =>
      cases h
      refine ⟨hinv, hs.exists_sem, hs.unnamed, fun stmt => ?_⟩
      rw [← hs.total stmt, ← State.sum_total, ← State.sum_total,
        List.map_append, List.sum_append]
      simp [Process.total_of_ne]
  | step i =>
      obtain ⟨p, hp, hstep⟩ := Option.bind_eq_some_iff.mp h
      rcases step_cases hstep with
        ⟨hrunning, hrest, rfl⟩ | ⟨stmt, q, hu, hq, heffect⟩
      · refine ⟨hinv, hs.exists_sem, hs.unnamed, fun stmt => ?_⟩
        rw [← hs.total stmt, ← State.sum_total, ← State.sum_total]
        rw [map_set_eq hp]
        simp [Process.total, Process.calls, Process.pending, hrest]
      · have htotal (other : Stmt) (hsame : q.total other k = p.total other k) :
            u.calls other k + u.pending other k =
              s.calls other k + s.pending other k := by
          rw [← hs.total other, ← State.sum_total, ← State.sum_total, hu,
            map_set_eq hp hsame]
        cases heffect with
        | none hstmt hpost hwait hsem hsems hnamed =>
            refine ⟨hinv, hsems ▸ hs.exists_sem, ?_, fun other =>
              htotal other (hq.total_eq hsem other k)⟩
            rcases hnamed with hsame | hgone
            · exact hsame ▸ hs.unnamed
            · simp [hgone]
        | creates hsem hsems hnamed =>
            have hne : t.sems.length ≠ k := (Nat.ne_of_lt hs.exists_sem).symm
            refine ⟨hinv, ?_, ?_, fun other =>
              htotal other (hs.inv.total_of_opens hp hq rfl hsem hne)⟩
            · rw [hsems, List.length_append]
              exact Nat.lt_add_right _ hs.exists_sem
            · rw [hnamed, ne_eq, Option.some.injEq]
              exact hne
        | opens hj hsem hsems hnamed =>
            refine ⟨hinv, hsems ▸ hs.exists_sem, hnamed ▸ hs.unnamed,
              fun other => htotal other ?_⟩
            refine hs.inv.total_of_opens hp hq rfl hsem ?_
            rintro rfl
            exact hs.unnamed hj
        | waits hk hsem hold hop hsems hnamed
        | posts hk hsem hold hop hsems hnamed =>
            refine ⟨hinv, ?_, hnamed ▸ hs.unnamed, fun other =>
              htotal other (hq.total_eq hsem other k)⟩
            rw [hsems, List.length_set]
            exact hs.exists_sem

/-! ### Where a process can stand still -/

theorem post_next (demo : Demo) :
    ∀ done ∈ demo.program.inits, done.any Stmt.opens →
      .semPost ∈ demo.program.drop done.length →
      (demo.program.drop done.length).head? = some .semPost := by
  cases demo <;> decide

theorem wait_next (demo : Demo) :
    ∀ done ∈ demo.program.inits, done.any Stmt.opens →
      .semTimedwait ∈ demo.program.drop done.length →
      (demo.program.drop done.length).head? = some .semTimedwait ∨
      (demo.program.drop done.length).head? =
        some (.printf "waitting sem...\n") := by
  cases demo <;> decide

theorem Inv.exists_rest {s : State} {i k : ℕ} {p : Process} (hs : Inv s)
    (hp : s.processes[i]? = some p) (hk : p.sem = some k) :
    p.done.any Stmt.opens ∧ ∃ sem, s.sems[k]? = some sem := by
  have hmem := List.mem_of_getElem? hp
  refine ⟨?_, _, List.getElem?_eq_getElem (hs.exists_sem p hmem k hk)⟩
  rw [← hs.opened p hmem, hk]
  rfl

/-- A call on a semaphore that has to wait, or fails. -/
theorem semop_eq_none {s : State} {k : ℕ} {sem : Semaphore semValueMax} {a : ℤ}
    (hsem : s.sems[k]? = some sem) (h : s.semop (some k) a = none) :
    ¬ (sem.Ready a ∧ sem.value + a ≤ semValueMax) := by
  rw [← Semaphore.op_isSome_iff]
  simpa [State.semop, hsem] using h

/-- A post waits for nothing, and fails at the greatest value only. -/
theorem Quiet.value_of_post {s : State} {i k : ℕ} {p : Process}
    {sem : Semaphore semValueMax} (h : Quiet s) (hs : Inv s)
    (hp : s.processes[i]? = some p) (hrunning : p.status = .running)
    (hk : p.sem = some k) (hsem : s.sems[k]? = some sem)
    (hpost : .semPost ∈ p.rest) : sem.value = semValueMax := by
  have hexecutes := hs.executes p (List.mem_of_getElem? hp)
  have hhead : p.rest.head? = some .semPost := by
    refine forall_split (P := fun done rest => done.any Stmt.opens →
      .semPost ∈ rest → rest.head? = some .semPost) ?_ hexecutes
      (hs.exists_rest hp hk).1 hpost
    exact post_next p.demo
  obtain ⟨rest, hrest⟩ := List.head?_eq_some_iff.mp hhead
  have hstep := h i
  simp only [next, hp, Option.bind_some, step, hrunning, hrest,
    Option.map_eq_none_iff, hk] at hstep
  have hblocked := semop_eq_none hsem hstep
  have hmax := sem.le_max
  rw [Semaphore.Ready] at hblocked
  omega

/-- A waiting process finds the value zero. -/
theorem Quiet.value_of_wait {s : State} {i k : ℕ} {p : Process}
    {sem : Semaphore semValueMax} (h : Quiet s) (hs : Inv s)
    (hp : s.processes[i]? = some p) (hrunning : p.status = .running)
    (hk : p.sem = some k) (hsem : s.sems[k]? = some sem)
    (hwait : .semTimedwait ∈ p.rest) : sem.value = 0 := by
  have hexecutes := hs.executes p (List.mem_of_getElem? hp)
  have hhead : p.rest.head? = some .semTimedwait ∨
      p.rest.head? = some (.printf "waitting sem...\n") := by
    refine forall_split (P := fun done rest => done.any Stmt.opens →
      .semTimedwait ∈ rest → rest.head? = some .semTimedwait ∨
      rest.head? = some (.printf "waitting sem...\n")) ?_ hexecutes
      (hs.exists_rest hp hk).1 hwait
    exact wait_next p.demo
  have hstep := h i
  rcases hhead with hhead | hhead
  · obtain ⟨rest, hrest⟩ := List.head?_eq_some_iff.mp hhead
    simp only [next, hp, Option.bind_some, step, hrunning, hrest,
      Option.map_eq_none_iff, hk] at hstep
    have hblocked := semop_eq_none hsem hstep
    have hmax := sem.le_max
    rw [Semaphore.Ready] at hblocked
    omega
  · obtain ⟨rest, hrest⟩ := List.head?_eq_some_iff.mp hhead
    simp [next, hp, step, hrunning, hrest] at hstep

theorem exists_of_pending {s : State} {stmt : Stmt} {k : ℕ}
    (h : s.pending stmt k ≠ 0) :
    ∃ (i : ℕ) (p : Process), s.processes[i]? = some p ∧
      p.status = .running ∧ p.sem = some k ∧ stmt ∈ p.rest := by
  rw [State.pending, ne_eq, List.sum_eq_zero_iff] at h
  push Not at h
  obtain ⟨x, hx, hne⟩ := h
  obtain ⟨p, hmem, rfl⟩ := List.mem_map.mp hx
  obtain ⟨i, hp⟩ := List.mem_iff_getElem?.mp hmem
  rw [Process.pending] at hne
  split at hne
  case isTrue hcond =>
    have hcount : 0 < p.rest.count stmt := Nat.pos_of_ne_zero hne
    exact ⟨i, p, hp, hcond.2, hcond.1, List.count_pos_iff.mp hcount⟩
  case isFalse => exact absurd rfl hne

/-! ### Who gets through -/

def Process.work (p : Process) : ℕ :=
  match p.status with
  | .running => p.rest.length + 1
  | .ended _ => 0

def State.work (s : State) : ℕ := (s.processes.map Process.work).sum

theorem step_work {s t : State} {label : Label} (hlabel : label.IsStep)
    (h : next s label = some t) : t.work < s.work := by
  obtain ⟨i, rfl⟩ := hlabel
  obtain ⟨p, hp, hstep⟩ := Option.bind_eq_some_iff.mp h
  have hless : ∃ q, t.processes = s.processes.set i q ∧ q.work < p.work := by
    rcases step_cases hstep with ⟨hrunning, -, rfl⟩ | ⟨stmt, q, ht, hq, -⟩
    · exact ⟨_, rfl, by simp [Process.work, hrunning]⟩
    · exact ⟨q, ht, by simp [Process.work, hq.before, hq.after, hq.rest]⟩
  obtain ⟨q, ht, hwork⟩ := hless
  have hsum := sum_map_set Process.work hp q
  rw [State.work, State.work, ht]
  omega

theorem Follows.released {s t : State} {k : ℕ} (h : Follows s k t)
    (hquiet : Quiet t)
    (hfits : s.calls .semPost k + s.pending .semPost k ≤ semValueMax) :
    t.calls .semPost k = s.calls .semPost k + s.pending .semPost k ∧
    t.calls .semTimedwait k =
      min (s.calls .semPost k + s.pending .semPost k)
        (s.calls .semTimedwait k + s.pending .semTimedwait k) := by
  obtain ⟨sem, hsem⟩ : ∃ sem, t.sems[k]? = some sem :=
    ⟨_, List.getElem?_eq_getElem h.exists_sem⟩
  have hvalue := h.inv.value_add hsem
  have hposts := h.total .semPost
  have hwaits := h.total .semTimedwait
  -- a post that is left finds the greatest value, so there is none
  have hposted : t.pending .semPost k = 0 := by
    by_contra hleft
    obtain ⟨i, p, hp, hrunning, hk, hmem⟩ := exists_of_pending hleft
    have hmax := hquiet.value_of_post h.inv hp hrunning hk hsem hmem
    omega
  -- and a process that is left finds nothing to take
  have hwaiting : t.pending .semTimedwait k = 0 ∨ sem.value = 0 := by
    by_cases hleft : t.pending .semTimedwait k = 0
    · exact Or.inl hleft
    · obtain ⟨i, p, hp, hrunning, hk, hmem⟩ := exists_of_pending hleft
      exact Or.inr (hquiet.value_of_wait h.inv hp hrunning hk hsem hmem)
  omega

/-- Left to themselves the processes come to rest, and then all posts on a
semaphore that has lost its name are made, and of those that wait on it as many
are through as there are posts for, whatever the order: no post is lost, and
none releases two processes or one that waits on another semaphore. -/
theorem posts_release_waiters {s : State} {labels : List Label}
    (hrun : exec next start labels = some s) :
    (∃ steps t, (∀ label ∈ steps, label.IsStep) ∧
      exec next s steps = some t ∧ Quiet t) ∧
    (∀ steps t, (∀ label ∈ steps, label.IsStep) →
      exec next s steps = some t → steps.length ≤ s.work) ∧
    ∀ k, k < s.sems.length → s.named ≠ some k →
      s.calls .semPost k + s.pending .semPost k ≤ semValueMax →
      ∀ later t, (∀ label ∈ later, label.Works) →
        exec next s later = some t → Quiet t →
        t.calls .semPost k = s.calls .semPost k + s.pending .semPost k ∧
        t.calls .semTimedwait k =
          min (s.calls .semPost k + s.pending .semPost k)
            (s.calls .semTimedwait k + s.pending .semTimedwait k) := by
  have hs := exec_inv hrun
  have hdrop (s : State) (label : Label) (t : State)
      (hlabel : label.IsStep) (_ : Inv s) (hnext : next s label = some t) :
      t.work < s.work :=
    step_work hlabel hnext
  refine ⟨?_, fun steps t hsteps hlater => ?_,
    fun k hk hunnamed hfits later t hworks hlater hquiet => ?_⟩
  · have hmove (s : State) (_ : Inv s) (hmoves : ¬ Quiet s) :
        ∃ label : Label, label.IsStep ∧ (next s label).isSome := by
      rw [Quiet] at hmoves
      push Not at hmoves
      obtain ⟨i, hi⟩ := hmoves
      exact ⟨.step i, ⟨i, rfl⟩, Option.isSome_iff_ne_none.mpr hi⟩
    obtain ⟨steps, t, hsteps, hlater, -, hquiet⟩ :=
      exists_completion (fun _ _ _ _ => next_inv) hdrop hmove hs
    exact ⟨steps, t, hsteps, hlater, hquiet⟩
  · have hlength := exec_length_le (fun _ _ _ _ => next_inv) hdrop hsteps hs
      hlater
    omega
  · have hfollows : Follows s k t :=
      exec_invariant_of_labels (fun _ _ _ => next_follows) hworks
        ⟨hs, hk, hunnamed, fun _ => rfl⟩ hlater
    exact hfollows.released hquiet hfits

/-- Two processes wait on a semaphore that a third has open to post it; then
the name is removed. -/
def twoWait : List Label :=
  [.launch .create, .step 0, .launch .wait, .step 1, .step 1, .launch .wait,
    .step 2, .step 2, .launch .post, .step 3, .launch .unlink, .step 4]

theorem posts_release_waiters_twoWait :
    ∃ s steps t, exec next start twoWait = some s ∧
      exec next s steps = some t ∧ Quiet t ∧
      t.calls .semTimedwait 0 = 1 := by
  have hrun : exec next start twoWait = some _ := rfl
  obtain ⟨⟨steps, t, hsteps, hlater, hquiet⟩, -, hreleased⟩ :=
    posts_release_waiters hrun
  refine ⟨_, steps, t, hrun, hlater, hquiet, ?_⟩
  exact (hreleased 0 (by decide) (by decide) (by decide) steps t
    (fun label hlabel => (hsteps label hlabel).works) hlater hquiet).2

end PosixSem

end MyFreeLib
