/-
What the demos of the POSIX semaphore tell.  `get` prints the value it has
read, which was right at its `sem_getvalue`; and no process can open a
semaphore again that has lost its name.
-/
import MyFreeLib.AttributedLog
import MyFreeLib.PosixSem

namespace MyFreeLib

namespace PosixSem

/-! ### What is read is right -/

/-- A value has been read from the semaphore that is open. -/
def Valued (s : State) : Prop :=
  ∀ p ∈ s.processes, p.value.isSome → p.sem.isSome

/-- A process has kept its value, or has just read it. -/
theorem step_value {s t : State} {i : ℕ} {p : Process} (hs : Inv s)
    (hvalued : Valued s) (hp : s.processes[i]? = some p)
    (h : step s i p = some t) :
    ∃ q, t.processes = s.processes.set i q ∧ (q.value.isSome → q.sem.isSome) ∧
      ∀ v, q.value = some v →
        p.value = some v ∧ q.sem = p.sem ∨
        p.rest.head? = some .semGetvalue ∧ ∃ k sem, p.sem = some k ∧
          q.sem = some k ∧ s.sems[k]? = some sem ∧ sem.value = v := by
  have hmem := List.mem_of_getElem? hp
  have hopened := hs.opened p hmem
  have hexecutes := hs.executes p hmem
  have hold := hvalued p hmem
  obtain ⟨demo, done, rest, sem, value, status⟩ := p
  -- nothing has been read before the semaphore is opened
  have hunread (stmt : Stmt) (hrest : rest.head? = some stmt)
      (hstmt : stmt.opens) : value = none := by
    by_contra hread
    have hsome := hold (Option.isSome_iff_ne_none.mpr hread)
    refine hexecutes.not_opens (hopened ▸ hsome) stmt ?_ hstmt
    exact List.mem_of_mem_head? hrest
  cases status with
  | ended code => cases h
  | running =>
      cases rest with
      | nil =>
          cases h
          exact ⟨_, rfl, hold, fun v hv => Or.inl ⟨hv, rfl⟩⟩
      | cons stmt rest =>
          cases stmt with
          | clockGettime | semClose | printf text =>
              cases h
              exact ⟨_, rfl, hold, fun v hv => Or.inl ⟨hv, rfl⟩⟩
          | printValue | semUnlink | semTimedwait | semPost =>
              obtain ⟨_, -, rfl⟩ := Option.map_eq_some_iff.mp h
              exact ⟨_, rfl, hold, fun v hv => Or.inl ⟨hv, rfl⟩⟩
          | semGetvalue =>
              obtain ⟨k, hk, hread⟩ := Option.bind_eq_some_iff.mp h
              obtain ⟨sem, hsem, rfl⟩ := Option.map_eq_some_iff.mp hread
              refine ⟨_, rfl, fun _ => Option.isSome_of_mem hk, fun v hv => ?_⟩
              exact Or.inr ⟨rfl, k, sem, hk, hk, hsem, Option.some.inj hv⟩
          | semOpen =>
              obtain ⟨k, -, rfl⟩ := Option.map_eq_some_iff.mp h
              refine ⟨_, rfl, fun _ => rfl, fun v hv => ?_⟩
              have hnone := hunread .semOpen rfl rfl
              cases hnone.symm.trans hv
          | semOpenNew =>
              have hnone := hunread .semOpenNew rfl rfl
              simp only [step] at h
              split at h
              case h_1 =>
                cases h
                refine ⟨_, rfl, fun _ => rfl, fun v hv => ?_⟩
                cases hnone.symm.trans hv
              case h_2 => cases h

/-- With its next call, `sem_getvalue`, the process reads this value. -/
def ReadsNext (u : State) (i k v : ℕ) : Prop :=
  ∃ r, u.processes[i]? = some r ∧ r.sem = some k ∧
    r.rest.head? = some .semGetvalue ∧
    v + u.calls .semTimedwait k = u.calls .semPost k

/-- Every value that has been read was right when it was read. -/
structure Reads (labels : List Label) (s : State) : Prop where
  valued : Valued s
  past : ∀ i p v, s.processes[i]? = some p → p.value = some v →
    ∃ k front back u, p.sem = some k ∧ labels = front ++ .step i :: back ∧
      exec next start front = some u ∧ ReadsNext u i k v

theorem Reads.later {labels : List Label} {s : State} (h : Reads labels s)
    (label : Label) : Reads (labels ++ [label]) s := by
  refine ⟨h.valued, fun i p v hp hv => ?_⟩
  obtain ⟨k, front, back, u, hk, hlabels, hfront, hvalue⟩ := h.past i p v hp hv
  refine ⟨k, front, back ++ [label], u, hk, ?_, hfront, hvalue⟩
  rw [hlabels, List.append_assoc, List.cons_append]

/-- Nothing is read when a process ends. -/
theorem Reads.ends {labels : List Label} {s t : State} {i : ℕ} {p : Process}
    {status : Status} (h : Reads labels s) (hp : s.processes[i]? = some p)
    (ht : t.processes = s.processes.set i { p with status }) :
    Reads labels t := by
  constructor
  · rw [Valued, ht]
    exact forall_mem_set h.valued (h.valued p (List.mem_of_getElem? hp))
  · intro j q v hq hv
    rw [ht] at hq
    rcases getElem?_set_cases hq with ⟨rfl, rfl⟩ | ⟨-, hold⟩
    · exact h.past j p v hp hv
    · exact h.past j q v hold hv

theorem exec_reads {labels : List Label} :
    ∀ {s : State}, exec next start labels = some s → Reads labels s := by
  induction labels using List.reverseRecOn with
  | nil =>
      intro s hrun
      obtain rfl := Option.some.inj hrun
      constructor <;> simp [Valued, start]
  | append_singleton front label ih =>
      intro t hrun
      obtain ⟨s, hfront, hlast⟩ := exec_snoc_eq_some.mp hrun
      have hreads := (ih hfront).later label
      have hs := exec_inv hfront
      cases label with
      | launch demo =>
          cases hlast
          refine ⟨forall_mem_concat hreads.valued (by simp),
            fun i p v hp hv => ?_⟩
          rw [List.getElem?_append] at hp
          split at hp
          case isTrue => exact hreads.past i p v hp hv
          case isFalse =>
            obtain rfl := List.mem_singleton.mp (List.mem_of_getElem? hp)
            cases hv
      | fails i =>
          obtain ⟨p, hp, hfails⟩ := Option.bind_eq_some_iff.mp hlast
          obtain ⟨_, _, _, -, -, -, -, rfl⟩ := fails_eq_some hfails
          exact hreads.ends hp rfl
      | kill i =>
          obtain ⟨p, hp, hkill⟩ := Option.bind_eq_some_iff.mp hlast
          obtain ⟨-, rfl⟩ := Status.signal_eq_some hkill
          exact hreads.ends hp rfl
      | step i =>
          obtain ⟨p, hp, hstep⟩ := Option.bind_eq_some_iff.mp hlast
          obtain ⟨q, ht, hq, hread⟩ := step_value hs (ih hfront).valued hp hstep
          constructor
          · rw [Valued, ht]
            exact forall_mem_set hreads.valued hq
          · intro j r v hr hv
            rw [ht] at hr
            rcases getElem?_set_cases hr with ⟨rfl, rfl⟩ | ⟨-, hold⟩
            · rcases hread v hv with
                ⟨hsame, hsem⟩ | ⟨hcall, k, sem, hold, hk, hsem, rfl⟩
              · rw [hsem]
                exact hreads.past j p v hp hsame
              · exact ⟨k, front, [], s, hk, rfl, hfront, p, hp, hold, hcall,
                  hs.value_add hsem⟩
            · exact hreads.past j r v hold hv

/-! ### What is printed -/

/-- The line of a statement, with the value that has been read. -/
def Stmt.line (value : Option ℕ) : Stmt → List String
  | .printf text => [text]
  | .printValue => (value.map fun v =>
      "posix sem value is: " ++ toString v ++ "\n").toList
  | _ => []

/-- The notice of the call that has ended the process. -/
def Process.notice (p : Process) : List String :=
  if p.status = .ended (some (-1)) then
    (p.rest.head?.bind Stmt.failure).toList
  else []

/-- What the process has printed: the lines of its statements, and the notice
of a failure. -/
def Process.printed (p : Process) : List String :=
  p.done.flatMap (Stmt.line p.value) ++ p.notice

theorem not_printValue_of_inits (demo : Demo) :
    ∀ done ∈ demo.program.inits,
      (demo.program.drop done.length).head? = some .semGetvalue →
        .printValue ∉ done := by
  cases demo <;> decide

/-- The value is read before it is printed. -/
theorem Process.Executes.not_printValue {p : Process} (h : p.Executes)
    (hnext : p.rest.head? = some .semGetvalue) : .printValue ∉ p.done := by
  refine forall_split (P := fun done rest =>
    rest.head? = some .semGetvalue → .printValue ∉ done) ?_ h hnext
  exact not_printValue_of_inits p.demo

theorem lines_of_unread {done : List Stmt} (h : .printValue ∉ done)
    (value other : Option ℕ) :
    done.flatMap (Stmt.line value) = done.flatMap (Stmt.line other) := by
  apply List.flatMap_congr
  intro stmt hstmt
  cases stmt with
  | printValue => exact absurd hstmt h
  | _ => rfl

/-- A step prints the line of its statement. -/
theorem step_prints {s t : State} {i : ℕ} {p : Process}
    (hexecutes : p.Executes) (h : step s i p = some t) :
    ∃ q lines, t.processes = s.processes.set i q ∧
      q.printed = p.printed ++ lines ∧
      t.output = s.output ++ lines.map fun line => (i, line) := by
  obtain ⟨demo, done, rest, sem, value, status⟩ := p
  cases status with
  | ended code => cases h
  | running =>
      cases rest with
      | nil =>
          cases h
          exact ⟨_, [], rfl, by simp [Process.printed, Process.notice],
            by simp⟩
      | cons stmt rest =>
          cases stmt with
          | clockGettime | semClose =>
              cases h
              exact ⟨_, [], rfl,
                by simp [Process.printed, Process.notice, Stmt.line], by simp⟩
          | printf text =>
              cases h
              exact ⟨_, [text], rfl,
                by simp [Process.printed, Process.notice, Stmt.line], by simp⟩
          | printValue =>
              obtain ⟨v, rfl, rfl⟩ := Option.map_eq_some_iff.mp h
              exact ⟨_, ["posix sem value is: " ++ toString v ++ "\n"], rfl,
                by simp [Process.printed, Process.notice, Stmt.line], by simp⟩
          | semUnlink | semTimedwait | semPost | semOpen =>
              obtain ⟨_, -, rfl⟩ := Option.map_eq_some_iff.mp h
              exact ⟨_, [], rfl,
                by simp [Process.printed, Process.notice, Stmt.line], by simp⟩
          | semGetvalue =>
              obtain ⟨k, -, hread⟩ := Option.bind_eq_some_iff.mp h
              obtain ⟨old, -, rfl⟩ := Option.map_eq_some_iff.mp hread
              have hunread := hexecutes.not_printValue rfl
              refine ⟨_, [], rfl, ?_, by simp⟩
              simp [Process.printed, Process.notice, Stmt.line,
                lines_of_unread hunread (some old.value) value]
          | semOpenNew =>
              simp only [step] at h
              split at h
              case h_1 =>
                cases h
                exact ⟨_, [], rfl,
                  by simp [Process.printed, Process.notice, Stmt.line],
                  by simp⟩
              case h_2 => cases h

/-- Every process has printed its lines and nobody anything else. -/
def Prints (s : State) : Prop :=
  Told Process.printed s.output s.processes

theorem next_prints {s t : State} {label : Label} (hinv : Inv s)
    (hs : Prints s) (h : next s label = some t) : Prints t := by
  cases label with
  | launch demo =>
      cases h
      exact Told.launch hs rfl
  | step i =>
      obtain ⟨p, hp, hstep⟩ := Option.bind_eq_some_iff.mp h
      have hexecutes := hinv.executes p (List.mem_of_getElem? hp)
      obtain ⟨q, lines, ht, hq, houtput⟩ := step_prints hexecutes hstep
      rw [Prints, ht, houtput]
      exact Told.advance hs hp hq
  | fails i =>
      obtain ⟨p, hp, hfails⟩ := Option.bind_eq_some_iff.mp h
      obtain ⟨stmt, rest, message, hstatus, hrest, -, hmessage, rfl⟩ :=
        fails_eq_some hfails
      refine Told.advance hs hp (?_ : _ = _ ++ [message])
      simp [Process.printed, Process.notice, hstatus, hrest, hmessage]
  | kill i =>
      obtain ⟨p, hp, hkill⟩ := Option.bind_eq_some_iff.mp h
      obtain ⟨hrunning, rfl⟩ := Status.signal_eq_some hkill
      refine Told.keep hs hp ?_
      simp [Process.printed, Process.notice, hrunning]

theorem exec_prints {s : State} {labels : List Label}
    (hrun : exec next start labels = some s) : Prints s := by
  have hkeep (s : State) (label : Label) (t : State)
      (hs : Inv s ∧ Prints s) (h : next s label = some t) :
      Inv t ∧ Prints t := ⟨next_inv hs.1 h, next_prints hs.1 hs.2 h⟩
  have hstart : Prints start := by constructor <;> simp [start]
  exact (exec_invariant hkeep ⟨start_inv, hstart⟩ hrun).2

/-! ### An unlinked semaphore -/

/-- Semaphore `k` exists and has no name. -/
def Unnamed (k : ℕ) (s : State) : Prop :=
  k < s.sems.length ∧ s.named ≠ some k

/-- The name only goes to a new semaphore. -/
theorem next_unnamed {s t : State} {label : Label} {k : ℕ}
    (hs : Unnamed k s) (h : next s label = some t) : Unnamed k t := by
  cases label with
  | launch demo =>
      cases h
      exact hs
  | fails i =>
      obtain ⟨p, hp, hfails⟩ := Option.bind_eq_some_iff.mp h
      obtain ⟨_, _, _, -, -, -, -, rfl⟩ := fails_eq_some hfails
      exact hs
  | kill i =>
      obtain ⟨p, hp, hkill⟩ := Option.bind_eq_some_iff.mp h
      obtain ⟨-, rfl⟩ := Status.signal_eq_some hkill
      exact hs
  | step i =>
      obtain ⟨p, hp, hstep⟩ := Option.bind_eq_some_iff.mp h
      rcases step_cases hstep with ⟨-, -, rfl⟩ | ⟨stmt, q, ht, hq, heffect⟩
      · exact hs
      · obtain ⟨hk, hname⟩ := hs
        cases heffect with
        | none _ _ _ _ hsems hnamed =>
            refine ⟨hsems ▸ hk, ?_⟩
            rcases hnamed with hsame | hgone
            · rwa [hsame]
            · rw [hgone]
              exact nofun
        | creates _ hsems hnamed =>
            refine ⟨?_, ?_⟩
            · rw [hsems, List.length_append]
              omega
            · rw [hnamed, ne_eq, Option.some.injEq]
              omega
        | opens _ _ hsems hnamed => exact ⟨hsems ▸ hk, hnamed ▸ hname⟩
        | waits _ _ _ _ hsems hnamed | posts _ _ _ _ hsems hnamed =>
            refine ⟨?_, hnamed ▸ hname⟩
            rw [hsems, List.length_set]
            exact hk

/-- The value of each semaphore, named or not, is the number of posts on it less
the number of waits, whoever has created, unlinked or failed in between.  The
name belongs to the newest semaphore if to any, and one that has lost it never
gets it back.  Every process has printed its lines, `get` among them the value
it has read, and that was right when it made the call. -/
theorem conserved {s : State} {labels : List Label}
    (hrun : exec next start labels = some s) :
    (∀ k sem, s.sems[k]? = some sem →
      sem.value + s.calls .semTimedwait k = s.calls .semPost k) ∧
    (∀ k, s.named = some k → k + 1 = s.sems.length) ∧
    (∀ front back u k, labels = front ++ back →
      exec next start front = some u → Unnamed k u → Unnamed k s) ∧
    (∀ i p, s.processes[i]? = some p → entriesOf s.output i = p.printed) ∧
    ∀ i p v, s.processes[i]? = some p → p.value = some v →
      ∃ k front back u, p.sem = some k ∧ labels = front ++ .step i :: back ∧
        exec next start front = some u ∧ ReadsNext u i k v := by
  refine ⟨fun _ _ => (exec_inv hrun).value_add, (exec_inv hrun).newest, ?_,
    (exec_prints hrun).entries, (exec_reads hrun).past⟩
  rintro front back u k rfl hfront hunnamed
  obtain ⟨middle, hmiddle, hback⟩ := exec_append_eq_some.mp hrun
  obtain rfl := Option.some.inj (hmiddle.symm.trans hfront)
  exact exec_invariant (fun _ _ _ => next_unnamed) hunnamed hback

/-- The first semaphore has lost its name, and the one that has it now has been
posted. -/
def renamed : List Label :=
  [.launch .create, .step 0, .launch .get, .step 1, .launch .unlink, .step 2,
    .launch .create, .step 3, .launch .post, .step 4, .step 4, .step 1]

theorem conserved_renamed :
    ∃ s first second, exec next start renamed = some s ∧
      s.sems = [first, second] ∧
      first.value + s.calls .semTimedwait 0 = s.calls .semPost 0 ∧
      second.value + s.calls .semTimedwait 1 = s.calls .semPost 1 := by
  have hrun : exec next start renamed = some _ := rfl
  have hvalue := (conserved hrun).1
  exact ⟨_, _, _, hrun, rfl, hvalue 0 _ rfl, hvalue 1 _ rfl⟩

end PosixSem

end MyFreeLib
