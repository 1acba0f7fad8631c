/-
The three demos left alone.  Where no call fails and nobody is killed, a process
is where the number of its own turns puts it, whatever the others have done in
between, and in the end every process has printed what it always prints.
-/
import MyFreeLib.PipeForkEnd
import MyFreeLib.PipeForkOutput

namespace MyFreeLib

namespace PipeFork

/-! ### One process by itself -/

/-- What the parent puts into the pipe. -/
def block : Demo → List Byte
  | .demo => text "123456789" ++ [0]
  | .sync => []
  | .redirect => (text "abc===\n").take 4

/-- A process after its next call.  The first `read` of a child brings the
block, every other `read` the end of the file. -/
def Process.goes (which : Demo) (p : Process) : Process :=
  let q : Process := { p with pc := p.pc + 1 }
  match (p.program which)[p.pc]? with
  | none => p.gone (some 0)
  | some .pipe => { q with readEnd := true, writeEnds := 1 }
  | some (.closeRead _) => { q with readEnd := false }
  | some (.closeWrite _) => { q with writeEnds := q.writeEnds - 1 }
  | some .dup2 => { q with writeEnds := q.writeEnds + 1 }
  | some .read => q.receive (block which)
  | some .readEof => { q with sawEof := true }
  | some .readLoop =>
      if p.got = [] then q.receive (block which)
      else { p with pc := p.pc + 2 }
  | some .echo => { p with pc := p.pc - 1 }
  | some _ => q

/-- A process at its start: a child has both ends of the pipe. -/
def Process.begin (child : Bool) : Process :=
  ⟨child, 0, child, child.toNat, Memory.fresh sizeOfReadBuf, [], false,
    .running⟩

/-- A process after some turns. -/
def stage (which : Demo) (child : Bool) : ℕ → Process
  | 0 => .begin child
  | turns + 1 => (stage which child turns).goes which

/-- How many turns a process takes, its end included. -/
def turnsOf : Demo → Bool → ℕ
  | .demo, child => if child then 4 else 7
  | .sync, child => if child then 5 else 9
  | .redirect, child => if child then 5 else 8

/-- What it prints in its next turn. -/
def Process.shows (which : Demo) (i : ℕ) (p : Process) : List Line :=
  ((p.program which)[p.pc]?.bind (Stmt.shows i p)).toList

/-- What it has printed after some turns. -/
def lines (which : Demo) (child : Bool) (i : ℕ) : ℕ → List Line
  | 0 => []
  | turns + 1 =>
      lines which child i turns ++ (stage which child turns).shows which i

def forks (which : Demo) (p : Process) : ℕ := (p.done which).count .fork

/-- What a parent has put into the pipe. -/
def sent (which : Demo) (p : Process) : List Byte :=
  if (p.done which).any Stmt.isWrite then block which else []

/-- What each process prints; `none` is a line that depends on bytes that
nobody has stored. -/
def outcome : Demo → List (List Line)
  | .demo => [[startLine .demo, some (text "Parent write pipe.\n")],
      [some (text "Child read: 123456789\n")]]
  | .sync => [[startLine .sync,
        some (text "Waiting for child close write\n"),
        some (text "all child close write end, parent ready to go.\n")],
      [closing 1], [closing 2]]
  | .redirect => [[startLine .redirect], [none]]

theorem running_iff (which : Demo) : ∀ child : Bool,
    ∀ turns ≤ turnsOf which child,
      (stage which child turns).child = child ∧
      ((stage which child turns).status = .running ↔
        turns < turnsOf which child) := by
  cases which <;> decide

theorem lines_outcome (which : Demo) (i : ℕ)
    (hi : i < (outcome which).length) :
    (outcome which)[i]? =
      some (lines which (i != 0) i (turnsOf which (i != 0))) := by
  cases which with
  | demo | redirect =>
      match i with
      | 0 => decide
      | 1 => decide
  | sync =>
      match i with
      | 0 => decide
      | 1 => decide
      | 2 => decide

/-! ### What holds of a process after its turns -/

/-- Until it has sent the block, a parent keeps the write end; and there is one
child where there is a block. -/
def ParentPlace (which : Demo) (p : Process) : Prop :=
  (0 < forks which p → sent which p = [] → block which ≠ [] →
    0 < p.writeEnds) ∧
  ((outcome which).length = 2 → forks which p ≤ 1)

instance (which : Demo) (p : Process) : Decidable (ParentPlace which p) :=
  inferInstanceAs (Decidable (_ ∧ _))

theorem parentPlace (which : Demo) : ∀ turns ≤ turnsOf which false,
    ParentPlace which (stage which false turns) := by
  cases which <;> decide

/-- A child that has not read yet is there to read. -/
theorem child_reads (which : Demo) (hblock : block which ≠ []) :
    ∀ turns ≤ turnsOf which true, (stage which true turns).got = [] →
      (stage which true turns).readEnd = true := by
  cases which with
  | sync => exact absurd rfl hblock
  | demo | redirect => decide

/-- What the turn from `p` to `q` does to the table, and puts into the pipe. -/
def ParentTurn (which : Demo) (child : Bool) (p q : Process)
    (stmt : Option Stmt) : Prop :=
  (stmt = some .fork → child = false ∧ p.copy = .begin true ∧
    forks which q = forks which p + 1) ∧
  (stmt ≠ some .fork → child = false → forks which q = forks which p) ∧
  (stmt.any Stmt.isWrite = true → child = false ∧
    stmt = some (.write (block which)) ∧ block which ≠ [] ∧
    forks which p = 1 ∧ sent which p = [] ∧ sent which q = block which) ∧
  (stmt.any Stmt.isWrite = false → child = false →
    sent which q = sent which p)

instance (which : Demo) (child : Bool) (p q : Process) (stmt : Option Stmt) :
    Decidable (ParentTurn which child p q stmt) :=
  inferInstanceAs (Decidable (_ ∧ _))

/-- What it takes out of the pipe. -/
def ReaderTurn (which : Demo) (child : Bool) (p q : Process)
    (stmt : Option Stmt) : Prop :=
  (stmt = some .read ∨ stmt = some .readLoop → child = true ∧
    block which ≠ [] ∧ (p.got = [] ∨ p.got = block which) ∧
    q.got = block which) ∧
  (stmt = some .read → p.got = []) ∧
  (stmt = some .readEof → child = false ∧ block which = []) ∧
  (stmt ≠ some .read ∧ stmt ≠ some .readLoop → q.got = p.got)

instance (which : Demo) (child : Bool) (p q : Process) (stmt : Option Stmt) :
    Decidable (ReaderTurn which child p q stmt) :=
  inferInstanceAs (Decidable (_ ∧ _))

theorem turn_of_lt (which : Demo) : ∀ child : Bool,
    ∀ turns < turnsOf which child,
      let p := stage which child turns
      let stmt := (p.program which)[p.pc]?
      ParentTurn which child p (p.goes which) stmt ∧
        ReaderTurn which child p (p.goes which) stmt := by
  cases which <;> decide

/-! ### One turn -/

/-- Process `i` goes on as it does by itself. -/
structure Goes (s : State) (i : ℕ) (p : Process) (t : State)
    (more : List Process) : Prop where
  demo : t.demo = s.demo
  processes : t.processes = s.processes.set i (p.goes s.demo) ++ more
  streams : t.out.streams.length = s.out.streams.length + more.length
  own : ∀ j, t.out.ownOf j =
    s.out.ownOf j ++ if i = j then p.shows s.demo i else []

/-- The pipe is as a statement needs it. -/
def Ready (s : State) (p : Process) : Stmt → Prop
  | .write _ => s.hasReader
  | .read => s.content = block s.demo ∧ block s.demo ≠ []
  | .readEof => s.content = []
  | .readLoop => if p.got = [] then
      s.content = block s.demo ∧ block s.demo ≠ [] else s.content = []
  | _ => True

/-- The pipe after a statement. -/
def carried (s : State) : Stmt → List Byte
  | .write bytes => s.content ++ bytes
  | .read | .readLoop => []
  | _ => s.content

theorem length_block (which : Demo) :
    (block which).length ≤ sizeOfReadBuf := by
  cases which <;> decide

/-- All of the block is read at once. -/
theorem read_block {s : State} (h : s.content = block s.demo)
    (hblock : block s.demo ≠ []) :
    s.read = some (block s.demo) ∧ s.taken.content = [] := by
  rw [State.read, State.taken, if_pos (h ▸ hblock), h]
  exact ⟨congrArg some (List.take_of_length_le (length_block s.demo)),
    List.drop_of_length_le (length_block s.demo)⟩

theorem Process.at.shows_eq {which : Demo} {i : ℕ} {p : Process} {stmt : Stmt}
    (h : p.at which stmt) : p.shows which i = (stmt.shows i p).toList := by
  rw [Process.shows, h.2, Option.bind_some]

section Goes

variable {s t : State} {i : ℕ} {p : Process}

theorem goes_silent {stmt : Stmt} (hat : p.at s.demo stmt)
    (hshows : stmt.shows i p = none) (hdemo : t.demo = s.demo)
    (ht : t.processes = s.processes.set i (p.goes s.demo))
    (hout : t.out = s.out) : Goes s i p t [] := by
  refine ⟨hdemo, by rw [ht, List.append_nil], by rw [hout]; rfl, fun j => ?_⟩
  rw [hout, hat.shows_eq, hshows, Option.toList_none, ite_self,
    List.append_nil]

theorem goes_prints {stmt : Stmt} {line : Line} (hat : p.at s.demo stmt)
    (hi : i < s.out.streams.length) (hshows : stmt.shows i p = some line)
    (hdemo : t.demo = s.demo)
    (ht : t.processes = s.processes.set i (p.goes s.demo))
    (hout : t.out = s.out.print i line ∨
      t.out = (s.out.print i line).flush i) : Goes s i p t [] := by
  refine ⟨hdemo, by rw [ht, List.append_nil], ?_, fun j => ?_⟩
  · rcases hout with hout | hout <;> simp [hout]
  · rw [hat.shows_eq, hshows, Option.toList_some]
    rcases hout with hout | hout
    · rw [hout, SharedOutput.ownOf_print hi]
    · rw [hout, SharedOutput.ownOf_flush, SharedOutput.ownOf_print hi]

theorem exit_goes (hend : (p.program s.demo)[p.pc]? = none) :
    Goes s i p (s.exit i p 0) [] := by
  refine ⟨rfl, ?_, ?_, fun j => ?_⟩
  · rw [Process.goes, hend, List.append_nil]
    rfl
  · exact SharedOutput.length_flush _ _
  · have hown := SharedOutput.ownOf_flush s.out i j
    rw [Process.shows, hend, Option.bind_none, Option.toList_none, ite_self,
      List.append_nil]
    exact hown

theorem execute_goes {stmt : Stmt} (hat : p.at s.demo stmt)
    (hi : i < s.out.streams.length) (hready : Ready s p stmt)
    (h : execute s i p stmt = some t) :
    Goes s i p t (if stmt = .fork then [p.copy] else []) ∧
      t.content = carried s stmt := by
  have hgoes := hat.2
  cases stmt with
  | print | printBuf | printPid =>
      cases h
      refine ⟨goes_prints hat hi rfl rfl ?_ (Or.inl rfl), rfl⟩
      rw [Process.goes, hgoes]
      rfl
  | pipe | closeRead | closeWrite | sleep | dup2 =>
      cases h
      refine ⟨goes_silent hat rfl rfl ?_ rfl, rfl⟩
      rw [Process.goes, hgoes]
      rfl
  | fork =>
      cases h
      refine ⟨⟨rfl, ?_, SharedOutput.length_fork hi, fun j => ?_⟩, rfl⟩
      · rw [Process.goes, hgoes]
        rfl
      · rw [hat.shows_eq]
        simp [Stmt.shows]
  | write bytes =>
      have hreader : s.hasReader := hready
      rw [execute, if_pos hreader] at h
      cases h
      refine ⟨goes_silent hat rfl rfl ?_ rfl, rfl⟩
      rw [Process.goes, hgoes]
      rfl
  | read =>
      obtain ⟨hread, htaken⟩ := read_block hready.1 hready.2
      rw [execute, hread] at h
      cases h
      refine ⟨goes_silent hat rfl rfl ?_ rfl, htaken⟩
      rw [Process.goes, hgoes]
      rfl
  | readEof =>
      obtain ⟨bytes, hread, ht⟩ := Option.map_eq_some_iff.mp h
      rcases read_eq_some hread with ⟨-, hsome⟩ | ⟨rfl, -⟩
      · exact absurd hready hsome
      · rw [if_pos rfl] at ht
        subst ht
        refine ⟨goes_silent hat rfl rfl ?_ rfl, ?_⟩
        · rw [Process.goes, hgoes]
          rfl
        · have hempty : s.content = [] := hready
          change s.content.drop sizeOfReadBuf = s.content
          rw [hempty, List.drop_nil]
  | readLoop =>
      obtain ⟨bytes, hread, ht⟩ := Option.map_eq_some_iff.mp h
      by_cases hgot : p.got = []
      · rw [Ready, if_pos hgot] at hready
        obtain ⟨hall, htaken⟩ := read_block hready.1 hready.2
        obtain rfl := Option.some.inj (hall.symm.trans hread)
        rw [if_neg hready.2] at ht
        subst ht
        refine ⟨goes_silent hat rfl rfl ?_ rfl, htaken⟩
        rw [Process.goes, hgoes]
        simp only [hgot, if_true]
        rfl
      · rw [Ready, if_neg hgot] at hready
        rcases read_eq_some hread with ⟨-, hsome⟩ | ⟨rfl, -⟩
        · exact absurd hready hsome
        · rw [if_pos rfl] at ht
          subst ht
          refine ⟨goes_silent hat rfl rfl ?_ rfl, ?_⟩
          · rw [Process.goes, hgoes]
            simp only [hgot, if_false]
            rfl
          · change s.content.drop sizeOfReadBuf = []
            rw [hready, List.drop_nil]
  | echo =>
      cases h
      refine ⟨goes_prints hat hi rfl rfl ?_ (Or.inr rfl), rfl⟩
      rw [Process.goes, hgoes]
      rfl

end Goes

/-! ### All the processes -/

/-- Each process is where the number of its turns puts it. -/
structure Follows (which : Demo) (turns : ℕ → ℕ) (s : State) : Prop where
  demo : s.demo = which
  short : ∀ i, turns i ≤ turnsOf which (i != 0)
  stages : ∀ (i : ℕ) (p : Process), s.processes[i]? = some p →
    p = stage which (i != 0) (turns i)
  later : ∀ i, s.processes.length ≤ i → turns i = 0
  length : s.processes.length = 1 + forks which (stage which false (turns 0))
  pipe : (stage which true (turns 1)).got ++ s.content =
    sent which (stage which false (turns 0))
  streams : s.out.streams.length = s.processes.length
  own : ∀ i, s.out.ownOf i = lines which (i != 0) i (turns i)

theorem start_follows (which : Demo) (terminal : Bool) :
    Follows which (fun _ => 0) (start which terminal) := by
  refine ⟨rfl, fun i => Nat.zero_le _, fun i p hp => ?_, fun _ _ => rfl, ?_,
    ?_, rfl, fun i => ?_⟩
  · obtain ⟨hi, rfl⟩ := List.getElem?_eq_some_iff.mp hp
    have hzero : i = 0 := Nat.lt_one_iff.mp hi
    subst hzero
    rfl
  · cases which <;> rfl
  · cases which <;> rfl
  · cases i with
    | zero => rfl
    | succ i => rfl

theorem sent_eq (which : Demo) (p : Process) :
    sent which p = [] ∨ sent which p = block which := by
  unfold sent
  split
  · exact Or.inr rfl
  · exact Or.inl rfl

theorem two_processes {which : Demo} (h : block which ≠ []) :
    (outcome which).length = 2 := by
  cases which with
  | sync => exact absurd rfl h
  | demo | redirect => rfl

section Follows

variable {which : Demo} {turns : ℕ → ℕ} {s t : State} {i : ℕ} {p : Process}

theorem Follows.parent (hs : Follows which turns s) :
    s.processes[0]? = some (stage which false (turns 0)) := by
  have hpos : 0 < s.processes.length := by
    rw [hs.length]
    omega
  have hfirst := List.getElem?_eq_getElem hpos
  rw [hfirst]
  exact congrArg some (hs.stages 0 _ hfirst)

/-- Where there is a block for a child to read, there is one child. -/
theorem Follows.reader (hs : Follows which turns s)
    (hp : s.processes[i]? = some p) (hi : i ≠ 0) (hblock : block which ≠ []) :
    i = 1 ∧ s.processes.length = 2 := by
  have hlt := (List.getElem?_eq_some_iff.mp hp).1
  have hforks := (parentPlace which (turns 0) (hs.short 0)).2
    (two_processes hblock)
  have hlength := hs.length
  omega

/-- A child whose first `read` comes back has the whole block before it. -/
theorem Follows.waits (hs : Follows which turns s)
    (hp : s.processes[i]? = some p) (hi : i ≠ 0) (hblock : block which ≠ [])
    (hgot : p.got = []) (hread : s.read.isSome) :
    s.content = block which := by
  obtain ⟨rfl, hlength⟩ := hs.reader hp hi hblock
  have hpipe := hs.pipe
  have hstage : p = stage which true (turns 1) := hs.stages 1 p hp
  rw [← hstage, hgot, List.nil_append] at hpipe
  rcases sent_eq which (stage which false (turns 0)) with hnone | hall
  · -- the parent has the write end until it has written
    obtain ⟨bytes, hbytes⟩ := Option.isSome_iff_exists.mp hread
    have hforks := hs.length
    have hpos := (parentPlace which (turns 0) (hs.short 0)).1
      (by omega) hnone hblock
    rcases read_eq_some hbytes with ⟨-, hsome⟩ | ⟨-, -, hwriter⟩
    · exact absurd (hpipe.trans hnone) hsome
    · exact absurd ⟨_, List.mem_of_getElem? hs.parent, hpos⟩ hwriter
  · exact hpipe.trans hall

/-- A process that has not ended is at the turn that its number says. -/
theorem Follows.turn (hs : Follows which turns s)
    (hp : s.processes[i]? = some p) (hrun : p.status = .running) :
    turns i < turnsOf which (i != 0) ∧
      p.goes which = stage which (i != 0) (turns i + 1) ∧
      ParentTurn which (i != 0) p (p.goes which)
        (p.program which)[p.pc]? ∧
      ReaderTurn which (i != 0) p (p.goes which)
        (p.program which)[p.pc]? := by
  have hstage := hs.stages i p hp
  have hlt : turns i < turnsOf which (i != 0) := by
    rw [← (running_iff which (i != 0) (turns i) (hs.short i)).2, ← hstage]
    exact hrun
  have hturn := turn_of_lt which (i != 0) (turns i) hlt
  simp only [← hstage] at hturn
  refine ⟨hlt, ?_, hturn⟩
  rw [hstage]
  rfl

/-- Before the parent writes, its child has not read. -/
theorem Follows.hasReader (hs : Follows which turns s)
    (hp : s.processes[0]? = some p) (hblock : block which ≠ [])
    (hforks : forks which p = 1) (hnone : sent which p = []) :
    s.hasReader := by
  have hstage : p = stage which false (turns 0) := hs.stages 0 p hp
  have hpipe := hs.pipe
  rw [← hstage, hnone] at hpipe
  have hlength := hs.length
  rw [← hstage, hforks] at hlength
  have hone : 1 < s.processes.length := by omega
  have hchild := List.getElem?_eq_getElem hone
  have hreads := child_reads which hblock (turns 1) (hs.short 1)
    (List.append_eq_nil_iff.mp hpipe).1
  refine ⟨_, List.mem_of_getElem? hchild, ?_⟩
  rw [hs.stages 1 _ hchild]
  exact hreads

/-- A statement that is executed finds the pipe as it needs it. -/
theorem Follows.ready (hs : Follows which turns s)
    (hp : s.processes[i]? = some p) {stmt : Stmt} (hat : p.at which stmt)
    (h : execute s i p stmt = some t) : Ready s p stmt := by
  obtain ⟨-, -, hparent, hreader⟩ := hs.turn hp hat.1
  rw [hat.2] at hparent hreader
  have hdemo := hs.demo
  have hpipe := hs.pipe
  cases stmt with
  | write bytes =>
      obtain ⟨hchild, -, hblock, hforks, hnone, -⟩ := hparent.2.2.1 rfl
      have hi : i = 0 := by simpa using hchild
      subst hi
      exact hs.hasReader hp hblock hforks hnone
  | read =>
      obtain ⟨hchild, hblock, -, -⟩ := hreader.1 (Or.inl rfl)
      rw [execute, Option.map_eq_some_iff] at h
      obtain ⟨bytes, hread, -⟩ := h
      rw [Ready, hdemo]
      refine ⟨hs.waits hp (by simpa using hchild) hblock (hreader.2.1 rfl) ?_,
        hblock⟩
      exact Option.isSome_iff_exists.mpr ⟨bytes, hread⟩
  | readEof =>
      obtain ⟨-, hblock⟩ := hreader.2.2.1 rfl
      have hnone : sent which (stage which false (turns 0)) = [] := by
        rcases sent_eq which (stage which false (turns 0)) with h | h
        · exact h
        · exact h.trans hblock
      rw [hnone] at hpipe
      exact (List.append_eq_nil_iff.mp hpipe).2
  | readLoop =>
      obtain ⟨hchild, hblock, hgot, -⟩ := hreader.1 (Or.inr rfl)
      have hi : i ≠ 0 := by simpa using hchild
      rw [execute, Option.map_eq_some_iff] at h
      obtain ⟨bytes, hread, -⟩ := h
      rw [Ready, hdemo]
      split
      case isTrue hfirst =>
        refine ⟨hs.waits hp hi hblock hfirst ?_, hblock⟩
        exact Option.isSome_iff_exists.mpr ⟨bytes, hread⟩
      case isFalse hsome =>
        have hall := hgot.resolve_left hsome
        obtain ⟨rfl, -⟩ := hs.reader hp hi hblock
        have hstage : p = stage which true (turns 1) := hs.stages 1 p hp
        rw [hstage] at hall
        rw [hall] at hpipe
        rcases sent_eq which (stage which false (turns 0)) with h | h
        · rw [h] at hpipe
          exact (List.append_eq_nil_iff.mp hpipe).2
        · rw [h] at hpipe
          exact List.append_right_eq_self.mp hpipe
  | _ => trivial

theorem carried_eq (s : State) {stmt : Stmt} (hwrite : stmt.isWrite = false)
    (hread : stmt ≠ .read ∧ stmt ≠ .readLoop) :
    carried s stmt = s.content := by
  cases stmt with
  | write bytes => cases hwrite
  | read => exact absurd rfl hread.1
  | readLoop => exact absurd rfl hread.2
  | _ => rfl

theorem elim_carried {s : State} {call : Option Stmt}
    (hwrite : call.any Stmt.isWrite = false)
    (hread : ¬ (call = some .read ∨ call = some .readLoop)) :
    call.elim s.content (carried s) = s.content := by
  cases call with
  | none => rfl
  | some stmt =>
      rw [Option.some.injEq, Option.some.injEq, not_or] at hread
      exact carried_eq s hwrite hread

/-- Only the parent writes. -/
theorem ParentTurn.not_write {q : Process} {call : Option Stmt}
    (h : ParentTurn which true p q call) : call.any Stmt.isWrite = false := by
  by_contra hwrite
  cases (h.2.2.1 (by simpa using hwrite)).1

/-- Whatever the parent does, the pipe holds what it has sent and its child has
not read. -/
theorem Follows.pipe_parent (hs : Follows which turns s)
    (hp : s.processes[0]? = some p) (hrun : p.status = .running) :
    (stage which true (turns 1)).got ++
        (p.program which)[p.pc]?.elim s.content (carried s) =
      sent which (p.goes which) := by
  obtain ⟨-, -, hparent, hreader⟩ := hs.turn hp hrun
  have hstage : p = stage which false (turns 0) := hs.stages 0 p hp
  have hpipe := hs.pipe
  rw [← hstage] at hpipe
  cases hwrite : (p.program which)[p.pc]?.any Stmt.isWrite with
  | true =>
      obtain ⟨-, hcall, -, -, hnone, hsent⟩ := hparent.2.2.1 hwrite
      rw [hnone] at hpipe
      obtain ⟨hgot, hempty⟩ := List.append_eq_nil_iff.mp hpipe
      rw [hcall, Option.elim_some, carried, hsent, hgot, hempty]
      rfl
  | false =>
      have hnoread : ¬ ((p.program which)[p.pc]? = some .read ∨
          (p.program which)[p.pc]? = some .readLoop) := fun hread => by
        cases (hreader.1 hread).1
      rw [elim_carried hwrite hnoread, hparent.2.2.2 hwrite rfl]
      exact hpipe

/-- What a child has read when its `read` comes back has been sent. -/
theorem Follows.sent_of_read (hs : Follows which turns s)
    (hp : s.processes[1]? = some p) {call : Stmt} (hready : Ready s p call)
    (hread : call = .read ∨ call = .readLoop) (hblock : block which ≠ [])
    (hgot : p.got = [] ∨ p.got = block which) :
    sent which (stage which false (turns 0)) = block which := by
  have hstage : p = stage which true (turns 1) := hs.stages 1 p hp
  have hpipe := hs.pipe
  rw [← hstage] at hpipe
  rcases hgot with hgot | hgot
  · have hcontent : s.content = block which := by
      rcases hread with rfl | rfl
      · exact hs.demo ▸ hready.1
      · rw [Ready, if_pos hgot, hs.demo] at hready
        exact hready.1
    rw [← hpipe, hgot, hcontent, List.nil_append]
  · rcases sent_eq which (stage which false (turns 0)) with hnone | hall
    · rw [hnone, hgot] at hpipe
      exact absurd (List.append_eq_nil_iff.mp hpipe).1 hblock
    · exact hall

theorem Follows.pipe_reader (hs : Follows which turns s)
    (hp : s.processes[1]? = some p) (hrun : p.status = .running)
    (hready : ∀ stmt, (p.program which)[p.pc]? = some stmt → Ready s p stmt) :
    (p.goes which).got ++
        (p.program which)[p.pc]?.elim s.content (carried s) =
      sent which (stage which false (turns 0)) := by
  obtain ⟨-, -, hparent, hreader⟩ := hs.turn hp hrun
  by_cases hread : (p.program which)[p.pc]? = some .read ∨
      (p.program which)[p.pc]? = some .readLoop
  · obtain ⟨-, hblock, hgot, hnew⟩ := hreader.1 hread
    obtain ⟨call, hcall, hkind⟩ : ∃ call, (p.program which)[p.pc]? =
        some call ∧ (call = .read ∨ call = .readLoop) := by
      rcases hread with h | h
      · exact ⟨_, h, Or.inl rfl⟩
      · exact ⟨_, h, Or.inr rfl⟩
    have hempty : carried s call = [] := by
      rcases hkind with rfl | rfl <;> rfl
    rw [hcall, Option.elim_some, hempty, hnew, List.append_nil,
      hs.sent_of_read hp (hready call hcall) hkind hblock hgot]
  · have hstage : p = stage which true (turns 1) := hs.stages 1 p hp
    have hpipe := hs.pipe
    rw [← hstage] at hpipe
    rw [elim_carried hparent.not_write hread,
      hreader.2.2.2 (not_or.mp hread)]
    exact hpipe

/-- A write puts the block into the pipe, and a `read` takes it out. -/
theorem Follows.pipe_next (hs : Follows which turns s)
    (hp : s.processes[i]? = some p) (hrun : p.status = .running)
    (hready : ∀ stmt, (p.program which)[p.pc]? = some stmt → Ready s p stmt) :
    let after := Function.update turns i (turns i + 1)
    (stage which true (after 1)).got ++
        (p.program which)[p.pc]?.elim s.content (carried s) =
      sent which (stage which false (after 0)) := by
  obtain ⟨-, hgoes, hparent, hreader⟩ := hs.turn hp hrun
  intro after
  obtain rfl | rfl | ⟨hzero, hone⟩ : i = 0 ∨ i = 1 ∨ i ≠ 0 ∧ i ≠ 1 := by omega
  · have hchild : after 1 = turns 1 := Function.update_of_ne (by simp) _ _
    have hnext : after 0 = turns 0 + 1 := Function.update_self _ _ _
    have hthen : p.goes which = stage which false (turns 0 + 1) := hgoes
    rw [hchild, hnext, ← hthen]
    exact hs.pipe_parent hp hrun
  · have hparents : after 0 = turns 0 := Function.update_of_ne (by simp) _ _
    have hnext : after 1 = turns 1 + 1 := Function.update_self _ _ _
    have hthen : p.goes which = stage which true (turns 1 + 1) := hgoes
    rw [hparents, hnext, ← hthen]
    exact hs.pipe_reader hp hrun hready
  · have hparents : after 0 = turns 0 :=
      Function.update_of_ne (Ne.symm hzero) _ _
    have hchild : after 1 = turns 1 := Function.update_of_ne (Ne.symm hone) _ _
    have htrue : (i != 0) = true := by simpa using hzero
    rw [htrue] at hparent
    have hnoread : ¬ ((p.program which)[p.pc]? = some .read ∨
        (p.program which)[p.pc]? = some .readLoop) := fun hread =>
      hone (hs.reader hp hzero (hreader.1 hread).2.1).1
    rw [hparents, hchild, elim_carried hparent.not_write hnoread]
    exact hs.pipe

theorem Follows.goes (hs : Follows which turns s)
    (hp : s.processes[i]? = some p) (hrun : p.status = .running)
    {more : List Process} (hgoes : Goes s i p t more)
    (hmore : more = if (p.program which)[p.pc]? = some .fork then [p.copy]
      else [])
    (hcontent : t.content =
      (p.program which)[p.pc]?.elim s.content (carried s))
    (hready : ∀ stmt, (p.program which)[p.pc]? = some stmt →
      Ready s p stmt) :
    Follows which (Function.update turns i (turns i + 1)) t := by
  obtain ⟨hlt, hnext, hparent, hreader⟩ := hs.turn hp hrun
  have hi := (List.getElem?_eq_some_iff.mp hp).1
  have hlength : t.processes.length = s.processes.length + more.length := by
    rw [hgoes.processes, List.length_append, List.length_set]
  have hcopy : more = [] ∨ i = 0 ∧ more = [.begin true] := by
    rw [hmore]
    split
    case isTrue h =>
      obtain ⟨hchild, hbegin, -⟩ := hparent.1 h
      exact Or.inr ⟨by simpa using hchild, by rw [hbegin]⟩
    case isFalse => exact Or.inl rfl
  refine ⟨hgoes.demo.trans hs.demo, fun j => ?_, fun j r hr => ?_,
    fun j hj => ?_, ?_, ?_, ?_, fun j => ?_⟩
  · by_cases hj : j = i
    · subst hj
      rw [Function.update_self]
      exact hlt
    · rw [Function.update_of_ne hj]
      exact hs.short j
  · rw [hgoes.processes, hs.demo] at hr
    rcases getElem?_turn hp hr with ⟨rfl, rfl⟩ | ⟨hne, hold⟩ | ⟨hj, hnew⟩
    · rw [Function.update_self]
      exact hnext
    · rw [Function.update_of_ne hne]
      exact hs.stages j r hold
    · have hne : j ≠ i := by omega
      have hzero : (j != 0) = true := by
        have hpos : j ≠ 0 := by omega
        simpa using hpos
      rw [Function.update_of_ne hne, hs.later j hj, hzero]
      rcases hcopy with rfl | ⟨-, rfl⟩
      · cases hnew
      · exact List.mem_singleton.mp (List.mem_of_getElem? hnew)
  · have hne : j ≠ i := by omega
    rw [Function.update_of_ne hne]
    exact hs.later j (by omega)
  · rw [hlength, hs.length, hmore]
    by_cases hzero : i = 0
    · subst hzero
      have hstage : p = stage which false (turns 0) := hs.stages 0 p hp
      have hthen : p.goes which = stage which false (turns 0 + 1) := hnext
      rw [Function.update_self, ← hthen, ← hstage]
      split
      case isTrue h =>
        rw [(hparent.1 h).2.2]
        rfl
      case isFalse h => rw [hparent.2.1 h rfl, List.length_nil, Nat.add_zero]
    · rw [Function.update_of_ne (Ne.symm hzero)]
      rcases hcopy with hnil | ⟨h, -⟩
      · rw [← hmore, hnil, List.length_nil, Nat.add_zero]
      · exact absurd h hzero
  · rw [hcontent]
    exact hs.pipe_next hp hrun hready
  · rw [hgoes.streams, hlength, hs.streams]
  · rw [hgoes.own j, hs.own j, hs.demo]
    by_cases hj : i = j
    · subst hj
      rw [if_pos rfl, Function.update_self, hs.stages i p hp]
      rfl
    · rw [if_neg hj, Function.update_of_ne (Ne.symm hj), List.append_nil]

theorem Follows.next (hs : Follows which turns s)
    (h : PipeFork.next s (.step i) = some t) :
    Follows which (Function.update turns i (turns i + 1)) t := by
  obtain ⟨p, hp, hstep⟩ := Option.bind_eq_some_iff.mp h
  have hi : i < s.out.streams.length := by
    rw [hs.streams]
    exact (List.getElem?_eq_some_iff.mp hp).1
  rcases Status.turn_eq_some hstep with ⟨stmt, hat, hexecute⟩ |
    ⟨hrun, hend, hexit⟩
  · have hcall : (p.program which)[p.pc]? = some stmt := hs.demo ▸ hat.getElem
    have hready := hs.ready hp (hs.demo ▸ hat) hexecute
    obtain ⟨hgoes, hcontent⟩ := execute_goes hat hi hready hexecute
    refine hs.goes hp hat.running hgoes ?_ ?_ fun other hother => ?_
    · simp only [hcall, Option.some.injEq]
    · rw [hcontent, hcall, Option.elim_some]
    · obtain rfl := Option.some.inj (hcall.symm.trans hother)
      exact hready
  · cases hexit
    have hcall : (p.program which)[p.pc]? = none := hs.demo ▸ hend
    refine hs.goes hp hrun (exit_goes hend) ?_ ?_ fun other hother => ?_
    · rw [hcall]
      rfl
    · rw [hcall]
      rfl
    · rw [hcall] at hother
      cases hother

end Follows

/-- The number of turns is in the schedule. -/
theorem exec_follows {which : Demo} {labels : List Label} {s t : State}
    {turns : ℕ → ℕ} (hcalm : ∀ label ∈ labels, label.calm = true)
    (hs : Follows which turns s) (hrun : exec next s labels = some t) :
    Follows which (fun i => turns i + labels.count (.step i)) t := by
  induction labels generalizing s turns with
  | nil =>
      rw [exec_nil, Option.some.injEq] at hrun
      subst hrun
      exact hs
  | cons label rest ih =>
      obtain ⟨u, hfirst, hrest⟩ := exec_cons_eq_some.mp hrun
      obtain ⟨hlabel, hlater⟩ := List.forall_mem_cons.mp hcalm
      cases label with
      | step i =>
          have ht := ih hlater (hs.next hfirst) hrest
          have hturns : (fun j => Function.update turns i (turns i + 1) j +
              rest.count (.step j)) =
              fun j => turns j + (Label.step i :: rest).count (.step j) := by
            funext j
            by_cases hj : j = i
            · subst hj
              rw [Function.update_self, List.count_cons_self]
              omega
            · have hne : Label.step i ≠ .step j := by
                simpa using Ne.symm hj
              rw [Function.update_of_ne hj, List.count_cons_of_ne hne]
          exact hturns ▸ ht
      | fails | kill => cases hlabel

/-- How a process ends. -/
theorem stage_last (which : Demo) : ∀ child : Bool,
    (stage which child (turnsOf which child)).status = .ended (some 0) ∧
    (child = true →
      (stage which child (turnsOf which child)).got = block which) ∧
    (child = false →
      sent which (stage which child (turnsOf which child)) = block which ∧
      1 + forks which (stage which child (turnsOf which child)) =
        (outcome which).length) := by
  cases which <;> decide

/-- A process that has ended has taken all its turns. -/
theorem Follows.all_turns {which : Demo} {turns : ℕ → ℕ} {s : State} {i : ℕ}
    (hs : Follows which turns s) (hended : s.ended)
    (hi : i < s.processes.length) : turns i = turnsOf which (i != 0) := by
  have hp := List.getElem?_eq_getElem hi
  have hnot := hended _ (List.mem_of_getElem? hp)
  rw [hs.stages i _ hp, ne_eq,
    (running_iff which (i != 0) (turns i) (hs.short i)).2] at hnot
  exact Nat.le_antisymm (hs.short i) (Nat.le_of_not_lt hnot)

/-- Left alone, the processes of a demo are each where the number of its own
turns puts it and have printed what it prints until there, whatever the order
of the turns.  When all have ended, all have returned 0, nothing is left in the
pipe, every process has printed what it always prints, and has written it once,
behind a copy of its parent's line if it is a child and does not write to a
terminal. -/
theorem outcome_of_turns {which : Demo} {terminal : Bool} {s : State}
    {labels : List Label} (hcalm : ∀ label ∈ labels, label.calm = true)
    (hrun : exec next (start which terminal) labels = some s) :
    (∀ (i : ℕ) (p : Process), s.processes[i]? = some p →
      p = stage which (i != 0) (labels.count (.step i)) ∧
      s.out.ownOf i = lines which (i != 0) i (labels.count (.step i))) ∧
    (s.ended → s.content = [] ∧
      s.processes.length = (outcome which).length ∧
      ∀ (i : ℕ) (p : Process), s.processes[i]? = some p →
        p.status = .ended (some 0) ∧
        (outcome which)[i]? = some (s.out.ownOf i) ∧
        s.out.writtenBy i = copied which terminal i ++ s.out.ownOf i) := by
  have hs := exec_follows hcalm (start_follows which terminal) hrun
  simp only [Nat.zero_add] at hs
  refine ⟨fun i p hp => ⟨hs.stages i p hp, hs.own i⟩, fun hended => ?_⟩
  have hlast := stage_last which
  have hpos : 0 < s.processes.length := by
    rw [hs.length]
    omega
  have hparent : labels.count (.step 0) = turnsOf which false :=
    hs.all_turns hended hpos
  obtain ⟨hsent, hforks⟩ := (hlast false).2.2 rfl
  have hlength := hs.length
  rw [hparent, hforks] at hlength
  refine ⟨?_, hlength, fun i p hp => ?_⟩
  · have hone : 1 < s.processes.length := by
      rw [hlength]
      cases which <;> decide
    have hchild : labels.count (.step 1) = turnsOf which true :=
      hs.all_turns hended hone
    have hpipe := hs.pipe
    rw [hparent, hchild, hsent, (hlast true).2.1 rfl] at hpipe
    exact List.append_right_eq_self.mp hpipe
  · have hi := (List.getElem?_eq_some_iff.mp hp).1
    have hturns := hs.all_turns hended hi
    have hstatus : p.status = .ended (some 0) := by
      rw [hs.stages i p hp, hturns]
      exact (hlast (i != 0)).1
    refine ⟨hstatus, ?_, (exec_outputInv hrun).writtenBy_eq hp hstatus⟩
    rw [hs.own i, hturns]
    exact lines_outcome which i (hlength ▸ hi)

/-- `pipe_redirect`, where the child reads before it is written to. -/
def leftAlone : List Label :=
  List.replicate 3 (.step 0) ++ [.step 1] ++ List.replicate 3 (.step 0) ++
    [.step 1, .step 1] ++ List.replicate 2 (.step 0) ++ [.step 1, .step 1]

theorem outcome_of_turns_leftAlone :
    ∃ s, exec next (start .redirect true) leftAlone = some s ∧
      s.content = [] ∧ s.processes.length = 2 := by
  let s := (exec next (start .redirect true) leftAlone).get rfl
  have hrun : exec next (start .redirect true) leftAlone = some s := rfl
  have hended : s.ended := by decide
  obtain ⟨hcontent, hlength, -⟩ := (outcome_of_turns (by decide) hrun).2 hended
  exact ⟨s, hrun, hcontent, hlength⟩

end PipeFork

end MyFreeLib
