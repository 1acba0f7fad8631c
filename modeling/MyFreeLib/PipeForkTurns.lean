/-
What one turn of a process of `pipe_demo.c` can do: to its own descriptors, to
the processes there are, and to the output.
-/
import MyFreeLib.PipeFork

namespace MyFreeLib

namespace PipeFork

/-- The process is about to execute the statement. -/
def Process.at (which : Demo) (p : Process) (stmt : Stmt) : Prop :=
  StandsAt (p.program which) p.pc p.status stmt

def Process.done (which : Demo) (p : Process) : List Stmt :=
  (p.program which).take p.pc

def programOf (which : Demo) (child : Bool) : List Stmt :=
  if child then childProgram which else parentProgram which

theorem Process.program_eq (which : Demo) (p : Process) :
    p.program which = programOf which p.child := rfl

/-- What holds in all the places of a program holds where a process stands. -/
theorem Process.at.place {which : Demo} {p : Process} {stmt : Stmt}
    {P : List Stmt → Stmt → List Stmt → Prop}
    (hall : ∀ done ∈ (programOf which p.child).inits,
      ∀ stmt ∈ ((programOf which p.child).drop done.length).head?,
        P done stmt ((programOf which p.child).drop done.length).tail)
    (h : p.at which stmt) :
    P (p.done which) stmt ((p.program which).drop (p.pc + 1)) := by
  have hplace := forall_take_drop
    (P := fun done rest => ∀ stmt ∈ rest.head?, P done stmt rest.tail)
    hall p.pc
  have hrest := drop_of_getElem? h.2
  rw [Process.program_eq] at hrest
  rw [hrest] at hplace
  exact hplace stmt (by simp)

/-- A process that goes on to the next place has executed the statement. -/
theorem Process.at.done_forth {which : Demo} {p q : Process} {stmt : Stmt}
    (h : p.at which stmt) (hpc : q.pc = p.pc + 1)
    (hchild : q.child = p.child) :
    q.done which = p.done which ++ [stmt] := by
  rw [Process.done, Process.program_eq, hpc, hchild]
  exact h.take_succ

/-- A child, at its start. -/
def Process.copy (p : Process) : Process :=
  ⟨true, 0, p.readEnd, p.writeEnds, p.buf, [], false, .running⟩

/-- The place where a process goes on. -/
inductive GoesOn (stmt : Stmt) (pc : ℕ) : ℕ → Prop
  | forth : GoesOn stmt pc (pc + 1)
  | out (hstmt : stmt = .readLoop) : GoesOn stmt pc (pc + 2)
  | back (hstmt : stmt = .echo) : GoesOn stmt pc (pc - 1)

/-- What a process becomes, and the processes that it adds. -/
inductive Acts (s : State) (p : Process) : Process → List Process → Prop
  | ends {code : Option ℤ} : Acts s p (p.gone code) []
  | passes {stmt : Stmt} {pc : ℕ} {buf : Memory} {got : List Byte}
      (hat : p.at s.demo stmt)
      (hpc : GoesOn stmt p.pc pc)
      (hstmt : stmt ≠ .pipe ∧ stmt ≠ .fork ∧ ∀ notice,
        stmt ≠ .closeWrite notice) :
      Acts s p { p with pc, buf, got } []
  | opens (hat : p.at s.demo .pipe) : Acts s p
      { p with pc := p.pc + 1, readEnd := true, writeEnds := 1 } []
  | forks (hat : p.at s.demo .fork) :
      Acts s p { p with pc := p.pc + 1 } [p.copy]
  | closesRead {notice : Option String}
      (hat : p.at s.demo (.closeRead notice)) :
      Acts s p { p with pc := p.pc + 1, readEnd := false } []
  | closesWrite {notice : Option String}
      (hat : p.at s.demo (.closeWrite notice)) :
      Acts s p { p with pc := p.pc + 1, writeEnds := p.writeEnds - 1 } []
  | dups (hat : p.at s.demo .dup2) :
      Acts s p { p with pc := p.pc + 1, writeEnds := p.writeEnds + 1 } []
  | sees (hat : p.at s.demo .readEof) (hwriter : ¬ s.hasWriter) :
      Acts s p { p with pc := p.pc + 1, sawEof := true } []

/-- The line that a statement prints where it succeeds. -/
def Stmt.shows (i : ℕ) (p : Process) : Stmt → Option Line
  | .print line => some (some (text line))
  | .printBuf => some p.shown
  | .printPid => some (closing i)
  | .echo => some (Memory.cString p.buf)
  | _ => none

/-- What becomes of the output. -/
inductive Speaks (s : State) (i : ℕ) (p : Process) :
    Process → List Process → SharedOutput Line → Prop
  | silent {q : Process} {stmt : Stmt} (hstatus : q.status = .running)
      (hat : p.at s.demo stmt) (hshows : stmt.shows i p = none)
      (hfork : stmt ≠ .fork) : Speaks s i p q [] s.out
  | prints {q : Process} {stmt : Stmt} {line : Line}
      (hstatus : q.status = .running) (hat : p.at s.demo stmt)
      (hshows : stmt.shows i p = some line) (hecho : stmt ≠ .echo) :
      Speaks s i p q [] (s.out.print i line)
  | complains {q : Process} (hstatus : q.status = .running)
      (hat : p.at s.demo .readEof) :
      Speaks s i p q [] (s.out.print i (some (text notEof)))
  | echoes {q : Process} (hstatus : q.status = .running)
      (hat : p.at s.demo .echo) :
      Speaks s i p q [] ((s.out.print i (Memory.cString p.buf)).flush i)
  | leaves {code : ℤ} {line : Line} (hat : ∃ stmt, p.at s.demo stmt) :
      Speaks s i p (p.gone (some code)) [] ((s.out.print i line).flush i)
  | exits {code : ℤ} : Speaks s i p (p.gone (some code)) [] (s.out.flush i)
  | dies : Speaks s i p (p.gone none) [] (s.out.kill i)
  | forks {q c : Process} (hstatus : q.status = .running)
      (hat : p.at s.demo .fork) : Speaks s i p q [c] (s.out.fork i)

/-- What becomes of the stream of the process, which prints `lines`. -/
structure Effect (s : State) (i : ℕ) (p q : Process)
    (stream after : OutputStream Line) (lines : List Line) : Prop where
  inherited : after.inherited = stream.inherited
  own : after.own = stream.own ++ lines
  shows : q.status = .running → ∃ stmt, p.at s.demo stmt ∧
    (lines = (stmt.shows i p).toList ∨ stmt = .readEof)
  spoke : lines ≠ [] → ∃ stmt, p.at s.demo stmt
  lost : q.status ≠ .ended none → after.lost = stream.lost
  flushed : ∀ code, q.status = .ended (some code) → after.buffered = []
  buffered : q.status = .running → ¬ p.at s.demo .echo →
    s.out.terminal = false → after.buffered = stream.buffered ++ lines

theorem Speaks.effect {s : State} {i : ℕ} {p q : Process}
    {more : List Process} {out : SharedOutput Line}
    {stream : OutputStream Line} (h : Speaks s i p q more out)
    (hi : s.out.streams[i]? = some stream) :
    (more = [] ∧ ∃ lines written after, out = s.out.write i written after ∧
      Effect s i p q stream after lines) ∨
    q.status = .running ∧ p.at s.demo .fork ∧ (∃ c, more = [c]) ∧
      out = { s.out with streams := s.out.streams ++ [stream.copy] } := by
  have hsilent (hstatus : q.status = .running) {stmt : Stmt}
      (hat : p.at s.demo stmt) (hshows : stmt.shows i p = none) :
      Effect s i p q stream stream [] :=
    ⟨rfl, (List.append_nil _).symm,
      fun _ => ⟨stmt, hat, Or.inl (by rw [hshows]; rfl)⟩,
      fun h => absurd rfl h, fun _ => rfl,
      fun code h => (by rw [hstatus] at h; cases h),
      fun _ _ _ => (List.append_nil _).symm⟩
  have hprints (hstatus : q.status = .running) {stmt : Stmt} {line : Line}
      (hat : p.at s.demo stmt)
      (hshows : stmt.shows i p = some line ∨ stmt = .readEof) :
      Effect s i p q stream (stream.print s.out.terminal line) [line] :=
    ⟨rfl, rfl, fun _ => ⟨stmt, hat, hshows.imp (fun h => by rw [h]; rfl) id⟩,
      fun _ => ⟨stmt, hat⟩, fun _ => rfl,
      fun code h => (by rw [hstatus] at h; cases h),
      fun _ _ hterminal => by simp [OutputStream.print, hterminal]⟩
  have hflush (line : Line) : (s.out.print i line).flush i =
      s.out.write i ((if s.out.terminal then [line] else []) ++
        (stream.print s.out.terminal line).buffered)
        (stream.print s.out.terminal line).flush := by
    rw [SharedOutput.print_eq hi, SharedOutput.flush_eq
      (SharedOutput.streams_write_self hi _ _), SharedOutput.write_write]
  cases h with
  | silent hstatus hat hshows hfork =>
      refine Or.inl ⟨rfl, [], [], stream, ?_, hsilent hstatus hat hshows⟩
      simp [SharedOutput.write, set_self hi]
  | @prints _ stmt line hstatus hat hshows hecho =>
      exact Or.inl ⟨rfl, [line], _, _, SharedOutput.print_eq hi line,
        hprints hstatus hat (Or.inl hshows)⟩
  | complains hstatus hat =>
      exact Or.inl ⟨rfl, _, _, _, SharedOutput.print_eq hi _,
        hprints hstatus hat (Or.inr rfl)⟩
  | echoes hstatus hat =>
      exact Or.inl ⟨rfl, [Memory.cString p.buf], _, _, hflush _, rfl, rfl,
        fun _ => ⟨_, hat, Or.inl rfl⟩, fun _ => ⟨_, hat⟩, fun _ => rfl,
        fun _ _ => rfl, fun _ h => absurd hat h⟩
  | @leaves code line hat =>
      exact Or.inl ⟨rfl, [line], _, _, hflush _, rfl, rfl,
        fun h => (by cases h), fun _ => hat, fun _ => rfl, fun _ _ => rfl,
        fun h => (by cases h)⟩
  | exits =>
      exact Or.inl ⟨rfl, [], _, _, SharedOutput.flush_eq hi, rfl,
        (List.append_nil _).symm, fun h => (by cases h),
        fun h => absurd rfl h, fun _ => rfl, fun _ _ => rfl,
        fun h => (by cases h)⟩
  | dies =>
      exact Or.inl ⟨rfl, [], _, _, SharedOutput.kill_eq hi, rfl,
        (List.append_nil _).symm, fun h => (by cases h),
        fun h => absurd rfl h, fun h => absurd rfl h, fun _ h => (by cases h),
        fun h => (by cases h)⟩
  | @forks _ c hstatus hat =>
      exact Or.inr ⟨hstatus, hat, ⟨c, rfl⟩, SharedOutput.fork_eq hi⟩

/-- The turn of process `i`. -/
structure Turn (s : State) (i : ℕ) (p : Process) (t : State) : Prop where
  running : p.status = .running
  demo : t.demo = s.demo
  content : (∃ block, p.at s.demo (.write block)) ∨ t.content <:+ s.content
  moves : ∃ q more, t.processes = s.processes.set i q ++ more ∧
    Acts s p q more ∧ Speaks s i p q more t.out

theorem read_eq_some {s : State} {block : List Byte}
    (h : s.read = some block) :
    block ≠ [] ∧ s.content ≠ [] ∨
      block = [] ∧ s.content = [] ∧ ¬ s.hasWriter := by
  unfold State.read at h
  split at h
  case isTrue hcontent =>
    cases h
    refine Or.inl ⟨fun hnil => ?_, hcontent⟩
    rw [List.take_eq_nil_iff] at hnil
    exact hnil.elim (by decide) hcontent
  case isFalse hcontent =>
    split at h
    case isTrue => cases h
    case isFalse hwriter =>
      cases h
      exact Or.inr ⟨rfl, by simpa using hcontent, hwriter⟩

section Turns

variable {s t : State} {i : ℕ} {p : Process}

/-- A turn that adds no process and puts nothing into the pipe. -/
theorem turn_of_put {q : Process} (hrun : p.status = .running)
    (hdemo : t.demo = s.demo) (hcontent : t.content <:+ s.content)
    (ht : t.processes = s.processes.set i q) (hacts : Acts s p q [])
    (hspeaks : Speaks s i p q [] t.out) : Turn s i p t :=
  ⟨hrun, hdemo, Or.inr hcontent,
    q, [], by rw [ht, List.append_nil], hacts, hspeaks⟩

theorem leave_turn {stmt : Stmt} (notice : String) (hat : p.at s.demo stmt) :
    Turn s i p (s.leave i p notice) := by
  have hset : (s.leave i p notice).processes =
      s.processes.set i (p.gone (some (-1))) := rfl
  exact turn_of_put hat.1 rfl (List.suffix_refl _) hset .ends
    (.leaves ⟨stmt, hat⟩)

theorem die_turn (hrun : p.status = .running) : Turn s i p (s.die i p) := by
  have hset : (s.die i p).processes = s.processes.set i (p.gone none) := rfl
  exact turn_of_put hrun rfl (List.suffix_refl _) hset .ends .dies

theorem execute_turn {stmt : Stmt} (hat : p.at s.demo stmt)
    (h : execute s i p stmt = some t) : Turn s i p t := by
  have hrun := hat.1
  unfold execute at h
  split at h
  case h_1 line =>
    cases h
    exact turn_of_put hrun rfl (List.suffix_refl _) rfl
      (.passes hat .forth (by simp))
      (.prints hrun hat rfl (by simp))
  case h_2 =>
    cases h
    exact turn_of_put hrun rfl (List.suffix_refl _) rfl (.opens hat)
      (.silent hrun hat rfl (by simp))
  case h_3 =>
    cases h
    exact ⟨hrun, rfl, Or.inr (List.suffix_refl _), _, _, rfl, .forks hat,
      .forks hrun hat⟩
  case h_4 notice =>
    cases h
    exact turn_of_put hrun rfl (List.suffix_refl _) rfl (.closesRead hat)
      (.silent hrun hat rfl (by simp))
  case h_5 notice =>
    cases h
    exact turn_of_put hrun rfl (List.suffix_refl _) rfl (.closesWrite hat)
      (.silent hrun hat rfl (by simp))
  case h_6 =>
    cases h
    exact turn_of_put hrun rfl (List.suffix_refl _) rfl
      (.passes hat .forth (by simp))
      (.silent hrun hat rfl (by simp))
  case h_7 =>
    cases h
    exact turn_of_put hrun rfl (List.suffix_refl _) rfl (.dups hat)
      (.silent hrun hat rfl (by simp))
  case h_8 block =>
    split at h
    case isTrue =>
      cases h
      exact ⟨hrun, rfl, Or.inl ⟨block, hat⟩, _, [],
        (List.append_nil _).symm, .passes hat .forth (by simp),
        .silent hrun hat rfl (by simp)⟩
    case isFalse =>
      cases h
      exact die_turn hrun
  case h_9 =>
    obtain ⟨block, -, rfl⟩ := Option.map_eq_some_iff.mp h
    exact turn_of_put hrun rfl (List.drop_suffix _ _) rfl
      (.passes hat .forth (by simp))
      (.silent hrun hat rfl (by simp))
  case h_10 | h_11 =>
    cases h
    exact turn_of_put hrun rfl (List.suffix_refl _) rfl
      (.passes hat .forth (by simp))
      (.prints hrun hat rfl (by simp))
  case h_12 =>
    obtain ⟨block, hread, ht⟩ := Option.map_eq_some_iff.mp h
    split at ht
    case isTrue hnil =>
      subst ht
      have hwriter : ¬ s.hasWriter := by
        rcases read_eq_some hread with ⟨hsome, -⟩ | ⟨-, -, hnone⟩
        · exact absurd hnil hsome
        · exact hnone
      exact turn_of_put hrun rfl (List.drop_suffix _ _) rfl (.sees hat hwriter)
        (.silent hrun hat rfl (by simp))
    case isFalse =>
      subst ht
      exact turn_of_put hrun rfl (List.drop_suffix _ _) rfl
        (.passes hat .forth (by simp))
        (.complains hrun hat)
  case h_13 =>
    obtain ⟨block, -, ht⟩ := Option.map_eq_some_iff.mp h
    split at ht
    case isTrue =>
      subst ht
      exact turn_of_put hrun rfl (List.drop_suffix _ _) rfl
        (.passes hat (.out rfl) (by simp))
        (.silent hrun hat rfl (by simp))
    case isFalse =>
      subst ht
      exact turn_of_put hrun rfl (List.drop_suffix _ _) rfl
        (.passes hat .forth (by simp))
        (.silent hrun hat rfl (by simp))
  case h_14 =>
    cases h
    exact turn_of_put hrun rfl (List.suffix_refl _) rfl
      (.passes hat (.back rfl) (by simp))
      (.echoes hrun hat)

theorem refuse_turn {stmt : Stmt} (hat : p.at s.demo stmt)
    (h : refuse s i p stmt = some t) : Turn s i p t := by
  have hrun := hat.1
  unfold refuse at h
  split at h
  case h_1 | h_2 | h_3 | h_4 =>
    cases h
    exact leave_turn _ hat
  case h_5 | h_6 | h_7 | h_8 =>
    cases h
    exact turn_of_put hrun rfl (List.suffix_refl _) rfl
      (.passes hat .forth (by simp))
      (.silent hrun hat rfl (by simp))
  case h_9 =>
    cases h
    exact turn_of_put hrun rfl (List.suffix_refl _) rfl
      (.passes hat .forth (by simp))
      (.complains hrun hat)
  case h_10 => cases h

/-- All that can happen in one step. -/
theorem next_turn {label : Label} (h : next s label = some t) :
    ∃ i p, s.processes[i]? = some p ∧ Turn s i p t := by
  cases label with
  | step i =>
      obtain ⟨p, hp, hstep⟩ := Option.bind_eq_some_iff.mp h
      refine ⟨i, p, hp, ?_⟩
      rcases Status.turn_eq_some hstep with ⟨stmt, hat, hcall⟩ |
        ⟨hrun, -, hexit⟩
      · exact execute_turn hat hcall
      · cases hexit
        have hset : (s.exit i p 0).processes =
            s.processes.set i (p.gone (some 0)) := rfl
        exact turn_of_put hrun rfl (List.suffix_refl _) hset .ends .exits
  | fails i =>
      obtain ⟨p, hp, hfails⟩ := Option.bind_eq_some_iff.mp h
      refine ⟨i, p, hp, ?_⟩
      rcases Status.turn_eq_some hfails with ⟨stmt, hat, hcall⟩ |
        ⟨-, -, hnone⟩
      · exact refuse_turn hat hcall
      · cases hnone
  | kill i =>
      obtain ⟨p, hp, hkill⟩ := Option.bind_eq_some_iff.mp h
      refine ⟨i, p, hp, ?_⟩
      obtain ⟨hrun, rfl⟩ := Status.signal_eq_some hkill
      exact die_turn hrun

end Turns

/-- An entry of the table after a turn. -/
theorem getElem?_turn {table : List Process} {i j : ℕ} {p q r : Process}
    {more : List Process} (hp : table[i]? = some p)
    (hr : (table.set i q ++ more)[j]? = some r) :
    j = i ∧ r = q ∨ j ≠ i ∧ table[j]? = some r ∨
      table.length ≤ j ∧ more[j - table.length]? = some r := by
  rw [List.getElem?_append, List.length_set] at hr
  split at hr
  case isTrue =>
    rcases getElem?_set_cases hr with ⟨rfl, rfl⟩ | ⟨hne, hold⟩
    · exact Or.inl ⟨rfl, rfl⟩
    · exact Or.inr (Or.inl ⟨hne, hold⟩)
  case isFalse hlt => exact Or.inr (Or.inr ⟨Nat.le_of_not_lt hlt, hr⟩)

theorem mem_turn {table : List Process} {i : ℕ} {p q r : Process}
    {more : List Process} (hp : table[i]? = some p)
    (hr : r ∈ table.set i q ++ more) : r = q ∨ r ∈ table ∨ r ∈ more := by
  obtain ⟨j, hj⟩ := List.mem_iff_getElem?.mp hr
  rcases getElem?_turn hp hj with ⟨-, rfl⟩ | ⟨-, hold⟩ | ⟨-, hnew⟩
  · exact Or.inl rfl
  · exact Or.inr (Or.inl (List.mem_of_getElem? hold))
  · exact Or.inr (Or.inr (List.mem_of_getElem? hnew))

/-- New processes come from a fork only. -/
theorem Acts.more {s : State} {p q : Process} {more : List Process}
    (h : Acts s p q more) : q.child = p.child ∧ (more = [] ∨
      p.at s.demo .fork ∧ q = { p with pc := p.pc + 1 } ∧
        more = [p.copy]) := by
  cases h with
  | forks hat => exact ⟨rfl, Or.inr ⟨hat, rfl, rfl⟩⟩
  | ends | passes | opens | closesRead | closesWrite | dups | sees =>
      exact ⟨rfl, Or.inl rfl⟩

end PipeFork

end MyFreeLib
