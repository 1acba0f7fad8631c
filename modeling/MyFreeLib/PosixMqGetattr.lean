/-
`getattr_demo` and the name `"/test"`.  The queue it makes to see the defaults
is a lock: while one run has it the others fail, and a run that is killed with
it leaves it locked.
-/
import MyFreeLib.PosixMqMessages

namespace MyFreeLib

namespace PosixMq

namespace Channel

/-- The process has made the queue `"/test"` and not come past its
`mq_unlink`. -/
def Process.inTest (p : Process) : Bool :=
  p.done.contains .mqOpenTest && !p.done.contains .mqUnlinkTest

/-- How many have. -/
def State.inTest (s : State) : ℕ :=
  (s.processes.map fun p => p.inTest.toNat).sum

theorem test_of_inits (demo : Demo) :
    ∀ done ∈ demo.program.inits,
      ((demo.program.drop done.length).head? = some .mqOpenTest →
        done.contains Stmt.mqOpenTest = false ∧
          done.contains Stmt.mqUnlinkTest = false) ∧
      ((demo.program.drop done.length).head? = some .mqUnlinkTest →
        done.contains Stmt.mqOpenTest = true ∧
          done.contains Stmt.mqUnlinkTest = false) := by
  cases demo <;> decide

theorem Process.at.test {p : Process} {stmt : Stmt} (h : p.at stmt) :
    (stmt = .mqOpenTest → p.done.contains .mqOpenTest = false ∧
      p.done.contains .mqUnlinkTest = false) ∧
    (stmt = .mqUnlinkTest → p.done.contains .mqOpenTest = true ∧
      p.done.contains .mqUnlinkTest = false) := by
  have hplace := forall_take_drop (P := fun done (rest : List Stmt) =>
    (rest.head? = some .mqOpenTest →
      done.contains Stmt.mqOpenTest = false ∧
        done.contains Stmt.mqUnlinkTest = false) ∧
    (rest.head? = some .mqUnlinkTest →
      done.contains Stmt.mqOpenTest = true ∧
        done.contains Stmt.mqUnlinkTest = false))
    (test_of_inits p.demo) p.pc
  rw [drop_of_getElem? h.2, List.head?_cons] at hplace
  refine ⟨?_, ?_⟩
  · rintro rfl
    exact hplace.1 rfl
  · rintro rfl
    exact hplace.2 rfl

/-- A turn executes a call, or none. -/
theorem Move.done {s : State} {i : ℕ} {p q : Process} {objects : List Queue}
    (h : Move s i p q objects) :
    p.status = .running ∧ (q.pc = p.pc ∧ q.done = p.done ∨
      ∃ stmt, p.at stmt ∧ q.pc = p.pc + 1 ∧ q.done = p.done ++ [stmt]) := by
  cases h with
  | ends hrun hends => exact ⟨hrun, Or.inl ⟨rfl, rfl⟩⟩
  | loses hat hk hqueue hreceive => exact ⟨hat.1, Or.inl ⟨rfl, rfl⟩⟩
  | advances hat hstmt | opens hat hstmt =>
      exact ⟨hat.1, Or.inr ⟨_, hat, rfl, hat.take_succ⟩⟩
  | creates hat | allocates hat =>
      exact ⟨hat.1, Or.inr ⟨_, hat, rfl, hat.take_succ⟩⟩
  | sends hat hk hqueue hsend =>
      exact ⟨hat.1, Or.inr ⟨_, hat, rfl, hat.take_succ⟩⟩
  | receives hat hk hqueue hreceive hmemory =>
      exact ⟨hat.1, Or.inr ⟨_, hat, rfl, hat.take_succ⟩⟩

theorem Move.done_of_pc {s : State} {i : ℕ} {p q : Process}
    {objects : List Queue} {stmt : Stmt} (h : Move s i p q objects)
    (hat : p.at stmt) (hpc : q.pc = p.pc + 1) : q.done = p.done ++ [stmt] := by
  rcases h.done.2 with ⟨hstays, -⟩ | ⟨other, hother, -, hq⟩
  · omega
  · rw [hq, hother.eq hat]

/-- Who enters has found the name free; who leaves may have given it back. -/
theorem Turn.test {s t : State} {i : ℕ} {p q : Process}
    (h : Turn s i p q t) :
    (q.inTest.toNat ≤ p.inTest.toNat ∧ t.test = s.test) ∨
      (p.inTest = false ∧ q.inTest = true ∧ s.test = false ∧
        t.test = true) ∨
      (p.inTest = true ∧ q.inTest = false ∧ t.test = false) := by
  cases h.names with
  | keeps htest hat =>
      refine Or.inl ⟨?_, htest⟩
      rcases h.move.done.2 with ⟨-, hsame⟩ | ⟨stmt, hstmt, hpc, hq⟩
      · rw [Process.inTest, hsame, Process.inTest]
      · have hopen : stmt ≠ .mqOpenTest := by
          rintro rfl
          have hstays := hat hstmt
          omega
        simp only [Process.inTest, hq, List.contains_append]
        cases stmt <;> simp_all
  | takes hat hpc hfree htest =>
      obtain ⟨hopen, hunlink⟩ := hat.test.1 rfl
      refine Or.inr (Or.inl ⟨?_, ?_, hfree, htest⟩)
      · rw [Process.inTest, hopen, Bool.false_and]
      · rw [Process.inTest, h.move.done_of_pc hat hpc, List.contains_append,
          List.contains_append, hopen, hunlink]
        rfl
  | gives hat hpc htest =>
      obtain ⟨hopen, hunlink⟩ := hat.test.2 rfl
      refine Or.inr (Or.inr ⟨?_, ?_, htest⟩)
      · rw [Process.inTest, hopen, hunlink]
        rfl
      · rw [Process.inTest, h.move.done_of_pc hat hpc, List.contains_append,
          List.contains_append, hopen, hunlink]
        rfl

/-- The name is taken as long as somebody is inside, and there is one at
most. -/
def Alone (s : State) : Prop := s.inTest ≤ s.test.toNat

theorem next_alone {s t : State} {label : Label} (hs : Alone s)
    (h : next s label = some t) : Alone t := by
  rcases next_cases h with ⟨demo, data, memory, rfl⟩ | ⟨i, p, q, hp, hturn⟩
  · simpa [Alone, State.inTest, Process.inTest, Process.done] using hs
  · have hsum := sum_map_set (fun p => p.inTest.toNat) hp q
    simp only [Alone, State.inTest] at hs ⊢
    rw [hturn.processes]
    rcases hturn.test with ⟨hle, htest⟩ | ⟨hp, hq, hfree, htest⟩ |
      ⟨hp, hq, htest⟩
    · rw [htest]
      omega
    · simp only [hp, hq, hfree, htest, Bool.toNat_true, Bool.toNat_false]
        at hsum hs ⊢
      omega
    · have hone := Bool.toNat_le s.test
      simp only [hp, hq, htest, Bool.toNat_true, Bool.toNat_false] at hsum ⊢
      omega

theorem exec_alone {s : State} {defaults : ℕ × ℕ} {labels : List Label}
    (hrun : exec next (start defaults) labels = some s) : Alone s := by
  refine exec_invariant (fun _ _ _ => next_alone) ?_ hrun
  simp [Alone, State.inTest, start]

theorem Alone.test {s : State} (h : Alone s) {i : ℕ} {p : Process}
    (hp : s.processes[i]? = some p) (hin : p.inTest = true) :
    s.test = true := by
  have hle : p.inTest.toNat ≤ s.inTest :=
    List.single_le_sum (by simp) _
      (List.mem_map_of_mem (List.mem_of_getElem? hp))
  rw [hin, Bool.toNat_true] at hle
  cases htest : s.test with
  | true => rfl
  | false =>
      rw [Alone, htest, Bool.toNat_false] at h
      omega

theorem Alone.eq {s : State} (h : Alone s) {i j : ℕ} {p q : Process}
    (hp : s.processes[i]? = some p) (hq : s.processes[j]? = some q)
    (hpin : p.inTest = true) (hqin : q.inTest = true) : i = j := by
  by_contra hij
  -- without `i` there is still `j`
  have hsum := sum_map_set (fun p => p.inTest.toNat) hp
    { p with pc := 0 }
  have hout : ({ p with pc := 0 } : Process).inTest = false := by
    simp [Process.inTest, Process.done]
  have hstill : (s.processes.set i { p with pc := 0 })[j]? = some q := by
    rw [List.getElem?_set_ne hij, hq]
  have hle : q.inTest.toNat ≤ ((s.processes.set i { p with pc := 0 }).map
      fun p => p.inTest.toNat).sum :=
    List.single_le_sum (by simp) _
      (List.mem_map_of_mem (List.mem_of_getElem? hstill))
  have hone := Bool.toNat_le s.test
  simp only [Alone, State.inTest] at h
  simp only [hpin, hqin, hout, Bool.toNat_true, Bool.toNat_false] at hsum hle
  omega

theorem exec_defaults {s : State} {defaults : ℕ × ℕ} {labels : List Label}
    (hrun : exec next (start defaults) labels = some s) :
    s.defaults = defaults := by
  have hkeep (s : State) (label : Label) (t : State)
      (hs : s.defaults = defaults) (h : next s label = some t) :
      t.defaults = defaults := by
    rcases next_cases h with ⟨demo, data, memory, rfl⟩ | ⟨i, p, q, hp, hturn⟩
    · exact hs
    · exact hturn.defaults.trans hs
  exact exec_invariant hkeep rfl hrun

/-- A run that was stopped inside is still there, and of the processes from `n`
on none has got in. -/
structure Locked (i : ℕ) (p : Process) (n : ℕ) (s : State) : Prop where
  alone : Alone s
  stopped : s.processes[i]? = some p
  later : ∀ j q, n ≤ j → s.processes[j]? = some q →
    .mqOpenTest ∉ q.done

theorem Locked.next {i n : ℕ} {p : Process} {s t : State} {label : Label}
    (hin : p.inTest = true) (hends : p.status ≠ .running)
    (hs : Locked i p n s) (h : next s label = some t) : Locked i p n t := by
  have hkeep := next_alone hs.alone h
  rcases next_cases h with ⟨demo, data, memory, rfl⟩ | ⟨j, r, q, hr, hturn⟩
  · refine ⟨hkeep, getElem?_of_front (List.prefix_append _ _) hs.stopped,
      fun k q hk hq => ?_⟩
    rw [List.getElem?_append] at hq
    split at hq
    case isTrue => exact hs.later k q hk hq
    case isFalse =>
      obtain rfl := List.mem_singleton.mp (List.mem_of_getElem? hq)
      simp [Process.done]
  · have hne : j ≠ i := by
      rintro rfl
      obtain rfl := Option.some.inj (hs.stopped.symm.trans hr)
      exact hends hturn.move.done.1
    refine ⟨hkeep, ?_, fun k x hk hx => ?_⟩
    · rw [hturn.processes, List.getElem?_set_ne hne, hs.stopped]
    · rw [hturn.processes] at hx
      rcases getElem?_set_cases hx with ⟨rfl, rfl⟩ | ⟨-, hold⟩
      · have hout := hs.later k r hk hr
        rcases hturn.move.done.2 with ⟨-, hsame⟩ | ⟨stmt, hstmt, hpc, hq⟩
        · rw [hsame]
          exact hout
        · rw [hq, List.mem_append, List.mem_singleton]
          rintro (hmem | rfl)
          · exact hout hmem
          · cases hturn.names with
            | keeps htest hat =>
                have hstays := hat hstmt
                omega
            | takes hat hpc hfree htest =>
                rw [hs.alone.test hs.stopped hin] at hfree
                cases hfree
            | gives hat hpc htest => cases hat.eq hstmt
      · exact hs.later k x hk hold

/-- However the demos are run, fail and are killed beside each other, no two
runs of `getattr_demo` have `"/test"` at a time, and the name is taken while
one has it; a run that is stopped with it shuts out all that are launched
later.  What the others print is the system's defaults and the attributes that
`create_demo` asks for, whichever queue has the name by then. -/
theorem getattr_alone {s : State} {defaults : ℕ × ℕ} {labels : List Label}
    (hrun : exec next (start defaults) labels = some s) :
    (∀ (i j : ℕ) (p q : Process), s.processes[i]? = some p →
      s.processes[j]? = some q → p.inTest = true → q.inTest = true →
        i = j ∧ s.test = true) ∧
    (∀ (i : ℕ) (p : Process), s.processes[i]? = some p → p.inTest = true →
      p.status ≠ .running → ∀ more t, exec next s more = some t →
        t.test = true ∧ ∀ (j : ℕ) (q : Process), s.processes.length ≤ j →
          t.processes[j]? = some q → .mqOpenTest ∉ q.done) ∧
    ∀ i line, (i, line) ∈ s.output → ∃ p, s.processes[i]? = some p ∧
      (p.demo = .getattr → IsNotice line ∨ line = defaultsLine defaults ∨
        line = text "mq_maxmsg = 5\nmq_msgsize = 2048\n") := by
  have halone := exec_alone hrun
  refine ⟨fun i j p q hp hq hpin hqin => ?_,
    fun i p hp hin hends more t hmore => ?_, fun i line hline => ?_⟩
  · exact ⟨halone.eq hp hq hpin hqin, halone.test hp hpin⟩
  · have hlocked : Locked i p s.processes.length s := by
      refine ⟨halone, hp, fun j q hj hq => ?_⟩
      have hlt := (List.getElem?_eq_some_iff.mp hq).1
      omega
    have ht := exec_invariant
      (fun _ _ _ hs h => Locked.next hin hends hs h) hlocked hmore
    exact ⟨ht.alone.test ht.stopped hin, ht.later⟩
  · obtain ⟨p, hp, hmay⟩ := exec_printed hrun i line hline
    exact ⟨p, hp, exec_defaults hrun ▸ hmay.getattr⟩

/-- A run of `getattr_demo` is killed with the name. -/
def killedInside : List Label :=
  [.launch .getattr (fun _ => 0) [], .step 0, .step 0, .kill 0]

/-- A later run, which gets as far as the `mq_open` for `"/test"`. -/
def shutOut : List Label :=
  [.launch .getattr (fun _ => 0) [], .fails 1 17]

theorem getattr_alone_killedInside :
    ∃ s t q, exec next (start (10, 8192)) killedInside = some s ∧
      exec next s shutOut = some t ∧ t.test = true ∧
      t.processes[1]? = some q ∧ .mqOpenTest ∉ q.done := by
  let s := (exec next (start (10, 8192)) killedInside).get rfl
  have hrun : exec next (start (10, 8192)) killedInside = some s := rfl
  have hmore : exec next s shutOut = some _ := rfl
  have hlocked := (getattr_alone hrun).2.1 0 _ rfl rfl (by simp) _ _ hmore
  exact ⟨_, _, _, hrun, hmore, hlocked.1, rfl,
    hlocked.2 1 _ (by decide) rfl⟩

end Channel

end PosixMq

end MyFreeLib
