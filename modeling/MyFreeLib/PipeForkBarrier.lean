/-
`pipe_sync` as a barrier: the `read` of the parent comes back when every child
has closed its write end or has ended, and not before, and no child prints
anything afterwards.
-/
import MyFreeLib.PipeForkTurns

namespace MyFreeLib

namespace PipeFork

def Stmt.isCloseWrite : Stmt → Bool
  | .closeWrite _ => true
  | _ => false

/-- The child has closed its write end. -/
def Process.HasClosed (p : Process) : Prop :=
  (p.done .sync).any Stmt.isCloseWrite = true

/-! ### The two programs -/

/-- How many write ends there are after these statements. -/
def ends (child : Bool) (done : List Stmt) : ℕ :=
  if done.any Stmt.isCloseWrite then 0
  else if child || done.contains .pipe then 1
  else 0

def Stmt.isWrite : Stmt → Bool
  | .write _ => true
  | _ => false

/-- What holds before a statement of the two programs. -/
def Place (child : Bool) (done : List Stmt) (stmt : Stmt) : Prop :=
  (stmt = .pipe ∨ stmt = .fork → child = false ∧
    ends child (done ++ [stmt]) = 1 ∧ .readEof ∉ done) ∧
  (stmt = .fork → ends child done = 1) ∧
  (stmt = .readEof → child = false ∧ ends child done = 0 ∧
    done.count .fork = 2) ∧
  (stmt.isCloseWrite = true →
    ends child (done ++ [stmt]) = ends child done - 1 ∧
    (child = true → .printPid ∈ done)) ∧
  (stmt ≠ .pipe → stmt.isCloseWrite = false →
    ends child (done ++ [stmt]) = ends child done) ∧
  (child = true → done.any Stmt.isCloseWrite = false) ∧
  stmt ≠ .readLoop ∧ stmt ≠ .echo ∧ stmt ≠ .dup2 ∧ stmt.isWrite = false

instance (child : Bool) (done : List Stmt) (stmt : Stmt) :
    Decidable (Place child done stmt) :=
  inferInstanceAs (Decidable (_ ∧ _))

theorem place_of_inits : ∀ child : Bool,
    ∀ done ∈ (programOf .sync child).inits,
      ∀ stmt ∈ ((programOf .sync child).drop done.length).head?,
        Place child done stmt := by
  decide

theorem place {p : Process} {stmt : Stmt} (h : p.at .sync stmt) :
    Place p.child (p.done .sync) stmt :=
  h.place (P := fun done stmt _ => Place p.child done stmt)
    (place_of_inits p.child)

/-! ### One turn -/

/-- What holds of the descriptors of a process. -/
def Process.EndsOk (p : Process) : Prop :=
  p.writeEnds =
    if p.status = .running then ends p.child (p.done .sync) else 0

/-- A process executes a statement. -/
structure Advances (s : State) (p : Process) (stmt : Stmt) (q : Process)
    (more : List Process) : Prop where
  before : p.at .sync stmt
  pc : q.pc = p.pc + 1
  child : q.child = p.child
  running : q.status = .running
  ends : q.writeEnds = PipeFork.ends p.child (p.done .sync ++ [stmt])
  fewer : stmt ≠ .pipe → q.writeEnds ≤ p.writeEnds
  seen : q.sawEof = p.sawEof ∨
    q.sawEof = true ∧ stmt = .readEof ∧ ¬ s.hasWriter
  more : more = if stmt = .fork then [p.copy] else []

theorem Advances.done {s : State} {p q : Process} {stmt : Stmt}
    {more : List Process} (h : Advances s p stmt q more) :
    q.done .sync = p.done .sync ++ [stmt] :=
  h.before.done_forth h.pc h.child

theorem Acts.sync {s : State} {p q : Process} {more : List Process}
    (hacts : Acts s p q more) (hs : s.demo = .sync)
    (hrun : p.status = .running) (hp : p.EndsOk) :
    (∃ code, q = p.gone code ∧ more = []) ∨
      ∃ stmt, Advances s p stmt q more := by
  rw [Process.EndsOk, if_pos hrun] at hp
  cases hacts with
  | @ends code => exact Or.inl ⟨code, rfl, rfl⟩
  | @passes stmt pc buf got hat hpc hstmt =>
      rw [hs] at hat
      obtain ⟨-, -, -, -, hsame, -, hloop, hecho, -⟩ := place hat
      have hforth : pc = p.pc + 1 := by
        cases hpc with
        | forth => rfl
        | out h => exact absurd h hloop
        | back h => exact absurd h hecho
      have hclose : stmt.isCloseWrite = false := by
        cases stmt with
        | closeWrite notice => exact absurd rfl (hstmt.2.2 notice)
        | _ => rfl
      exact Or.inr ⟨stmt, hat, hforth, rfl, hrun,
        hp.trans (hsame hstmt.1 hclose).symm, fun _ => Nat.le_refl _,
        Or.inl rfl, (if_neg hstmt.2.1).symm⟩
  | opens hat =>
      rw [hs] at hat
      obtain ⟨hopens, -⟩ := place hat
      exact Or.inr ⟨.pipe, hat, rfl, rfl, hrun, (hopens (Or.inl rfl)).2.1.symm,
        fun h => absurd rfl h, Or.inl rfl, rfl⟩
  | forks hat =>
      rw [hs] at hat
      obtain ⟨-, -, -, -, hsame, -⟩ := place hat
      exact Or.inr ⟨.fork, hat, rfl, rfl, hrun,
        hp.trans (hsame (by simp) rfl).symm, fun _ => Nat.le_refl _, Or.inl rfl,
        rfl⟩
  | closesRead hat =>
      rw [hs] at hat
      obtain ⟨-, -, -, -, hsame, -⟩ := place hat
      exact Or.inr ⟨_, hat, rfl, rfl, hrun,
        hp.trans (hsame (by simp) rfl).symm, fun _ => Nat.le_refl _, Or.inl rfl,
        rfl⟩
  | closesWrite hat =>
      rw [hs] at hat
      obtain ⟨-, -, -, hclose, -⟩ := place hat
      refine Or.inr ⟨_, hat, rfl, rfl, hrun, ?_, fun _ => Nat.sub_le _ _,
        Or.inl rfl, rfl⟩
      rw [(hclose rfl).1]
      exact congrArg (· - 1) hp
  | dups hat =>
      rw [hs] at hat
      obtain ⟨-, -, -, -, -, -, -, -, hdup, -⟩ := place hat
      exact absurd rfl hdup
  | sees hat hwriter =>
      rw [hs] at hat
      obtain ⟨-, -, -, -, hsame, -⟩ := place hat
      exact Or.inr ⟨.readEof, hat, rfl, rfl, hrun,
        hp.trans (hsame (by simp) rfl).symm, fun _ => Nat.le_refl _,
        Or.inr ⟨rfl, rfl, hwriter⟩, rfl⟩

/-- What becomes of the lines that the processes have printed themselves. -/
theorem Speaks.own {s : State} {i : ℕ} {p q : Process}
    {more : List Process} {out : SharedOutput Line}
    (h : Speaks s i p q more out) (hi : i < s.out.streams.length) :
    ∃ lines, (∀ j < s.out.streams.length,
        out.ownOf j = s.out.ownOf j ++ if i = j then lines else []) ∧
      (lines ≠ [] → ∃ stmt, p.at s.demo stmt) ∧
      (p.at s.demo .printPid → q.status = .running → lines = [closing i]) ∧
      out.streams.length = s.out.streams.length + more.length := by
  have hstream := List.getElem?_eq_getElem hi
  rcases h.effect hstream with ⟨rfl, lines, written, after, rfl, heffect⟩ |
      ⟨hstatus, hat, ⟨c, rfl⟩, rfl⟩
  · refine ⟨lines,
      fun j _ => SharedOutput.ownOf_write hstream _ _ heffect.own j,
      heffect.spoke, fun hpid hrun => ?_, by simp⟩
    obtain ⟨stmt, hat, hshows⟩ := heffect.shows hrun
    obtain rfl := hat.eq hpid
    rcases hshows with hshows | hread
    · exact hshows
    · cases hread
  · refine ⟨[], fun j hj => ?_, fun h => absurd rfl h,
      fun hpid _ => absurd (hat.eq hpid) (by simp), by simp⟩
    rw [SharedOutput.ownOf, List.getElem?_append_left hj]
    simp [SharedOutput.ownOf]

/-! ### All the processes -/

structure Inv (s : State) : Prop where
  which : s.demo = .sync
  empty : s.content = []
  child : ∀ (i : ℕ) (p : Process), s.processes[i]? = some p →
    (p.child = false ↔ i = 0)
  ends : ∀ p ∈ s.processes, p.EndsOk
  seen : ∀ p ∈ s.processes, p.sawEof = true →
    p.child = false ∧ .readEof ∈ p.done .sync ∧ ¬ s.hasWriter
  forks : ∀ p, s.processes[0]? = some p →
    s.processes.length = 1 + (p.done .sync).count .fork
  streams : s.out.streams.length = s.processes.length
  told : ∀ (i : ℕ) (p : Process), s.processes[i]? = some p →
    .printPid ∈ p.done .sync → closing i ∈ s.out.ownOf i

theorem start_inv (terminal : Bool) : Inv (start .sync terminal) := by
  have honly (i : ℕ) (p : Process)
      (hp : (start .sync terminal).processes[i]? = some p) :
      i = 0 ∧ p = ⟨false, 0, false, 0, Memory.fresh sizeOfReadBuf, [], false,
        .running⟩ := by
    obtain ⟨hi, rfl⟩ := List.getElem?_eq_some_iff.mp hp
    have hzero : i = 0 := Nat.lt_one_iff.mp hi
    subst hzero
    exact ⟨rfl, rfl⟩
  refine ⟨rfl, rfl, fun i p hp => ?_, fun p hp => ?_, fun p hp hsaw => ?_,
    fun p hp => ?_, rfl, fun i p hp hdone => ?_⟩
  · obtain ⟨rfl, rfl⟩ := honly i p hp
    simp
  · obtain ⟨i, hi⟩ := List.mem_iff_getElem?.mp hp
    obtain ⟨rfl, rfl⟩ := honly i p hi
    rfl
  · obtain ⟨i, hi⟩ := List.mem_iff_getElem?.mp hp
    obtain ⟨rfl, rfl⟩ := honly i p hi
    cases hsaw
  · obtain ⟨-, rfl⟩ := honly 0 p hp
    rfl
  · obtain ⟨rfl, rfl⟩ := honly i p hp
    simp [Process.done] at hdone

theorem Inv.parent {s : State} (hs : Inv s) {i : ℕ} {p r : Process}
    (hp : s.processes[i]? = some p) (hchild : p.child = false)
    (hr : r ∈ s.processes) (hrchild : r.child = false) : r = p := by
  obtain ⟨j, hj⟩ := List.mem_iff_getElem?.mp hr
  obtain rfl := (hs.child i p hp).mp hchild
  obtain rfl := (hs.child j r hj).mp hrchild
  exact Option.some.inj (hj.symm.trans hp)

/-- What has to be seen to after a turn. -/
theorem Inv.after {s t : State} {i : ℕ} {p q : Process}
    {more : List Process} (hs : Inv s) (hp : s.processes[i]? = some p)
    (hturn : Turn s i p t) (ht : t.processes = s.processes.set i q ++ more)
    (hspeaks : Speaks s i p q more t.out) (hempty : t.content = [])
    (hmore : more = [] ∨ p.child = false ∧ more = [p.copy])
    (hchild : q.child = p.child) (hends : q.EndsOk)
    (hcopy : ∀ r ∈ more, r.EndsOk)
    (hdone : p.done .sync <+: q.done .sync)
    (hforks : (q.done .sync).count .fork =
      (p.done .sync).count .fork + more.length)
    (hseen : q.sawEof = true → p.sawEof = true ∨
      q.child = false ∧ .readEof ∈ q.done .sync ∧ ¬ s.hasWriter)
    (hwriter : t.hasWriter →
      s.hasWriter ∨ p.child = false ∧ .readEof ∉ q.done .sync)
    (htold : .printPid ∈ q.done .sync → .printPid ∈ p.done .sync ∨
      p.at .sync .printPid ∧ q.status = .running) : Inv t := by
  have hi := (List.getElem?_eq_some_iff.mp hp).1
  have hmem := List.mem_of_getElem? hp
  obtain ⟨lines, hown, -, hpid, hlength⟩ :=
    hspeaks.own (by rw [hs.streams]; exact hi)
  have hnew {j : ℕ} {r : Process} (hr : more[j]? = some r) :
      r = p.copy ∧ j = 0 := by
    rcases hmore with rfl | ⟨-, rfl⟩
    · simp at hr
    · obtain ⟨hj, rfl⟩ := List.getElem?_eq_some_iff.mp hr
      have hzero : j = 0 := Nat.lt_one_iff.mp hj
      subst hzero
      exact ⟨rfl, rfl⟩
  have hquiet {r : Process} (hr : r ∈ s.processes) (hsaw : r.sawEof = true) :
      ¬ t.hasWriter := by
    obtain ⟨hrchild, hread, hnone⟩ := hs.seen r hr hsaw
    intro h
    rcases hwriter h with h | ⟨hpchild, hunread⟩
    · exact hnone h
    · have hsame := hs.parent hp hpchild hr hrchild
      exact hunread (hdone.subset (hsame ▸ hread))
  refine ⟨hturn.demo.trans hs.which, hempty, fun j r hr => ?_,
    fun r hr => ?_, fun r hr hsaw => ?_, fun r hr => ?_, ?_,
    fun j r hr htell => ?_⟩
  · rw [ht] at hr
    rcases getElem?_turn hp hr with ⟨rfl, rfl⟩ | ⟨-, hold⟩ | ⟨hj, hr⟩
    · rw [hchild]
      exact hs.child j p hp
    · exact hs.child j r hold
    · obtain ⟨rfl, -⟩ := hnew hr
      simp only [Process.copy, Bool.true_eq_false, false_iff]
      omega
  · rw [ht] at hr
    rcases mem_turn hp hr with rfl | hold | hr
    · exact hends
    · exact hs.ends r hold
    · exact hcopy r hr
  · rw [ht] at hr
    rcases mem_turn hp hr with rfl | hold | hr
    · rcases hseen hsaw with hsaw | ⟨hrchild, hread, hnone⟩
      · obtain ⟨hpchild, hread, -⟩ := hs.seen p hmem hsaw
        exact ⟨hchild.trans hpchild, hdone.subset hread, hquiet hmem hsaw⟩
      · refine ⟨hrchild, hread, fun h => ?_⟩
        rcases hwriter h with h | ⟨-, hunread⟩
        · exact hnone h
        · exact hunread hread
    · obtain ⟨hrchild, hread, -⟩ := hs.seen r hold hsaw
      exact ⟨hrchild, hread, hquiet hold hsaw⟩
    · obtain ⟨j, hj⟩ := List.mem_iff_getElem?.mp hr
      obtain ⟨rfl, -⟩ := hnew hj
      cases hsaw
  · rw [ht] at hr ⊢
    rw [List.length_append, List.length_set]
    rcases getElem?_turn hp hr with ⟨rfl, rfl⟩ | ⟨hne, hold⟩ | ⟨hj, -⟩
    · have hcount := hs.forks p hp
      omega
    · have hnone : more = [] := by
        rcases hmore with h | ⟨hpchild, -⟩
        · exact h
        · exact absurd ((hs.child i p hp).mp hpchild).symm hne
      have hcount := hs.forks r hold
      rw [hnone, List.length_nil]
      exact hcount
    · omega
  · rw [hlength, ht, List.length_append, List.length_set, hs.streams]
  · rw [ht] at hr
    rcases getElem?_turn hp hr with ⟨rfl, rfl⟩ | ⟨hne, hold⟩ | ⟨-, hr⟩
    · rw [hown j (by rw [hs.streams]; exact hi), if_pos rfl, List.mem_append]
      rcases htold htell with hold | ⟨hat, hrun⟩
      · exact Or.inl (hs.told j p hp hold)
      · rw [hpid (by rw [hs.which]; exact hat) hrun]
        exact Or.inr (List.mem_singleton.mpr rfl)
    · have hj := (List.getElem?_eq_some_iff.mp hold).1
      rw [hown j (by rw [hs.streams]; exact hj), List.mem_append]
      exact Or.inl (hs.told j r hold htell)
    · obtain ⟨rfl, -⟩ := hnew hr
      simp [Process.done, Process.copy] at htell

theorem Inv.turn {s t : State} {i : ℕ} {p : Process} (hs : Inv s)
    (hp : s.processes[i]? = some p) (hturn : Turn s i p t) : Inv t := by
  have hmem := List.mem_of_getElem? hp
  obtain ⟨q, more, ht, hacts, hspeaks⟩ := hturn.moves
  have hempty : t.content = [] := by
    rcases hturn.content with ⟨block, hat⟩ | hsuffix
    · rw [hs.which] at hat
      obtain ⟨-, -, -, -, -, -, -, -, -, hwrite⟩ := place hat
      cases hwrite
    · rw [hs.empty] at hsuffix
      exact List.suffix_nil.mp hsuffix
  have hwriter (hfewer : q.writeEnds ≤ p.writeEnds)
      (hmore : ∀ r ∈ more, r.writeEnds ≤ p.writeEnds) (h : t.hasWriter) :
      s.hasWriter := by
    obtain ⟨r, hr, hpos⟩ := h
    rw [ht] at hr
    rcases mem_turn hp hr with rfl | hold | hr
    · exact ⟨p, hmem, by omega⟩
    · exact ⟨r, hold, hpos⟩
    · have hle := hmore r hr
      exact ⟨p, hmem, by omega⟩
  rcases hacts.sync hs.which hturn.running (hs.ends p hmem) with
      ⟨code, rfl, rfl⟩ | ⟨stmt, hadv⟩
  · exact hs.after hp hturn ht hspeaks hempty (Or.inl rfl) rfl rfl (by simp)
      (List.prefix_refl _) rfl Or.inl
      (fun h => Or.inl (hwriter (Nat.zero_le _) (by simp) h)) Or.inl
  · obtain ⟨hopens, hfork, heof, -, -, -, -⟩ := place hadv.before
    have hends := hs.ends p hmem
    rw [Process.EndsOk, if_pos hturn.running] at hends
    have hmore := hadv.more
    refine hs.after hp hturn ht hspeaks hempty ?_ hadv.child ?_ ?_ ?_ ?_ ?_ ?_
      ?_
    · rw [hmore]
      split
      case isTrue h => exact Or.inr ⟨(hopens (Or.inr h)).1, rfl⟩
      case isFalse => exact Or.inl rfl
    · rw [Process.EndsOk, if_pos hadv.running, hadv.done, hadv.child]
      exact hadv.ends
    · rw [hmore]
      split
      case isTrue h =>
        intro r hr
        obtain rfl := List.mem_singleton.mp hr
        exact hends.trans (hfork h)
      case isFalse => simp
    · rw [hadv.done]
      exact List.prefix_append _ _
    · rw [hadv.done, List.count_append, hmore]
      split
      case isTrue h => simp [h]
      case isFalse h => simp [h]
    · intro hsaw
      rcases hadv.seen with hsame | ⟨-, rfl, hnone⟩
      · exact Or.inl (hsame.symm.trans hsaw)
      · rw [hadv.child, hadv.done]
        exact Or.inr ⟨(heof rfl).1, by simp, hnone⟩
    · intro h
      by_cases hpipe : stmt = .pipe
      · subst hpipe
        obtain ⟨hchild, -, hunread⟩ := hopens (Or.inl rfl)
        rw [hadv.done]
        exact Or.inr ⟨hchild, by simp [hunread]⟩
      · refine Or.inl (hwriter (hadv.fewer hpipe) ?_ h)
        rw [hmore]
        split
        case isTrue =>
          intro r hr
          obtain rfl := List.mem_singleton.mp hr
          exact Nat.le_refl _
        case isFalse => simp
    · intro htell
      rw [hadv.done, List.mem_append, List.mem_singleton] at htell
      rcases htell with hold | rfl
      · exact Or.inl hold
      · exact Or.inr ⟨hadv.before, hadv.running⟩

theorem exec_inv {terminal : Bool} {s : State} {labels : List Label}
    (hrun : exec next (start .sync terminal) labels = some s) : Inv s := by
  refine exec_invariant (fun s label t hs h => ?_) (start_inv terminal) hrun
  obtain ⟨i, p, hp, hturn⟩ := next_turn h
  exact hs.turn hp hturn

/-! ### The barrier -/

/-- A child that has closed its end has nothing left to do. -/
theorem closed_of_inits : ∀ done ∈ (childProgram .sync).inits,
    done.any Stmt.isCloseWrite = true →
      .printPid ∈ done ∧ (childProgram .sync).drop done.length = [] := by
  decide

theorem Process.HasClosed.finished {p : Process} (h : p.HasClosed)
    (hchild : p.child = true) :
    .printPid ∈ p.done .sync ∧ (p.program .sync).drop p.pc = [] := by
  have hprogram : p.program .sync = childProgram .sync := by
    rw [Process.program, if_pos hchild]
  rw [Process.HasClosed, Process.done, hprogram] at h
  rw [Process.done, hprogram]
  exact forall_take_drop
    (P := fun done rest => done.any Stmt.isCloseWrite = true →
      .printPid ∈ done ∧ rest = []) closed_of_inits p.pc h

theorem ends_eq_zero {p : Process} (hchild : p.child = true) :
    ends p.child (p.done .sync) = 0 ↔ p.HasClosed := by
  rw [ends, Process.HasClosed, hchild]
  split
  case isTrue h => simp [h]
  case isFalse h => simp [h]

theorem Inv.hasWriter_iff {s : State} (hs : Inv s) {p : Process}
    (hp : s.processes[0]? = some p) (hown : p.writeEnds = 0) :
    s.hasWriter ↔ ∃ q ∈ s.processes, q.child = true ∧ q.status = .running ∧
      ¬ q.HasClosed := by
  constructor
  · rintro ⟨q, hq, hpos⟩
    obtain ⟨j, hj⟩ := List.mem_iff_getElem?.mp hq
    have hchild : q.child = true := by
      by_contra hparent
      rw [Bool.not_eq_true, hs.child j q hj] at hparent
      subst hparent
      obtain rfl := Option.some.inj (hp.symm.trans hj)
      omega
    have hends := hs.ends q hq
    rw [Process.EndsOk] at hends
    split at hends
    case isTrue hrun =>
      refine ⟨q, hq, hchild, hrun, fun hclosed => ?_⟩
      rw [(ends_eq_zero hchild).mpr hclosed] at hends
      omega
    case isFalse => omega
  · rintro ⟨q, hq, hchild, hrun, hopen⟩
    have hends := hs.ends q hq
    rw [Process.EndsOk, if_pos hrun] at hends
    refine ⟨q, hq, Nat.pos_of_ne_zero fun hzero => hopen ?_⟩
    exact (ends_eq_zero hchild).mp (hends.symm.trans hzero)

theorem Inv.passed {s : State} (hs : Inv s) {p : Process}
    (hp : s.processes[0]? = some p) (hsaw : p.sawEof = true) {q : Process}
    (hq : q ∈ s.processes) (hchild : q.child = true) :
    q.status ≠ .running ∨ q.HasClosed := by
  have hnone := (hs.seen p (List.mem_of_getElem? hp) hsaw).2.2
  have hzero : q.writeEnds = 0 := by
    by_contra hpos
    exact hnone ⟨q, hq, Nat.pos_of_ne_zero hpos⟩
  have hends := hs.ends q hq
  rw [Process.EndsOk, hzero] at hends
  split at hends
  case isTrue => exact Or.inr ((ends_eq_zero hchild).mp hends.symm)
  case isFalse hrun => exact Or.inl hrun

/-- Nothing has come from the children since. -/
structure Quiet (s t : State) : Prop where
  inv : Inv t
  saw : ∃ p, t.processes[0]? = some p ∧ p.sawEof = true
  length : t.processes.length = s.processes.length
  own : ∀ j, 0 < j → t.out.ownOf j = s.out.ownOf j

theorem Quiet.next {s t u : State} {label : Label} (ht : Quiet s t)
    (h : next t label = some u) : Quiet s u := by
  obtain ⟨i, p, hp, hturn⟩ := next_turn h
  obtain ⟨parent, hparent, hsaw⟩ := ht.saw
  have hmem := List.mem_of_getElem? hp
  obtain ⟨hparentchild, hread, -⟩ :=
    ht.inv.seen parent (List.mem_of_getElem? hparent) hsaw
  have hinv := ht.inv.turn hp hturn
  obtain ⟨q, more, hu, hacts, hspeaks⟩ := hturn.moves
  have hmore : more = [] ∧ (p.sawEof = true → q.sawEof = true) := by
    rcases hacts.sync ht.inv.which hturn.running (ht.inv.ends p hmem) with
        ⟨code, rfl, rfl⟩ | ⟨stmt, hadv⟩
    · exact ⟨rfl, fun h => h⟩
    · have hfork : stmt ≠ .fork := by
        rintro rfl
        obtain ⟨hopens, -⟩ := place hadv.before
        obtain ⟨hchild, -, hunread⟩ := hopens (Or.inr rfl)
        obtain rfl := ht.inv.parent hparent hparentchild hmem hchild
        exact hunread hread
      rw [hadv.more, if_neg hfork]
      refine ⟨rfl, fun h => ?_⟩
      rcases hadv.seen with hsame | ⟨hsees, -⟩
      · exact hsame.trans h
      · exact hsees
  obtain ⟨rfl, hkeeps⟩ := hmore
  rw [List.append_nil] at hu
  have hi := (List.getElem?_eq_some_iff.mp hp).1
  obtain ⟨lines, hown, hspoke, -, hlength⟩ :=
    hspeaks.own (by rw [ht.inv.streams]; exact hi)
  refine ⟨hinv, ?_, by rw [hu, List.length_set, ht.length], fun j hj => ?_⟩
  · rw [hu]
    by_cases hzero : i = 0
    · subst hzero
      obtain rfl := Option.some.inj (hparent.symm.trans hp)
      exact ⟨q, List.getElem?_set_self hi, hkeeps hsaw⟩
    · exact ⟨parent, by rw [List.getElem?_set_ne hzero, hparent], hsaw⟩
  · rw [← ht.own j hj]
    by_cases hlt : j < t.out.streams.length
    · rw [hown j hlt]
      split
      case isTrue heq =>
        subst heq
        -- a child that still runs has nothing to print any more
        have hnil : lines = [] := by
          by_contra hsome
          obtain ⟨stmt, hat⟩ := hspoke hsome
          have hchild : p.child = true := by
            by_contra hno
            rw [Bool.not_eq_true, ht.inv.child i p hp] at hno
            omega
          rcases ht.inv.passed hparent hsaw hmem hchild with hrun | hclosed
          · exact hrun hat.1
          · rw [ht.inv.which] at hat
            have hrest := (hclosed.finished hchild).2
            rw [drop_of_getElem? hat.2] at hrest
            cases hrest
        rw [hnil, List.append_nil]
      case isFalse => rw [List.append_nil]
    · rw [SharedOutput.ownOf_of_le (by simp [hlength]; omega),
        SharedOutput.ownOf_of_le (Nat.le_of_not_lt hlt)]

/-- However parent and children are interleaved, fail and are killed: when the
parent comes to its `read` there are two children, and the `read` comes back
exactly when each of them has ended or has closed its write end.  Once it has
come back with nothing, every child that still runs has printed its line, and
nothing is ever printed by a child, or a child made, after that. -/
theorem barrier {terminal : Bool} {s : State} {labels : List Label}
    (hrun : exec next (start .sync terminal) labels = some s) {p : Process}
    (hp : s.processes[0]? = some p) :
    (p.at .sync .readEof → s.processes.length = 3 ∧
      ((next s (.step 0)).isSome ↔ ∀ q ∈ s.processes, q.child = true →
        q.status ≠ .running ∨ q.HasClosed)) ∧
    (p.sawEof = true →
      (∀ (j : ℕ) (q : Process), 0 < j → s.processes[j]? = some q →
        q.status ≠ .running ∨
          q.HasClosed ∧ closing j ∈ s.out.ownOf j) ∧
      ∀ more t, exec next s more = some t →
        t.processes.length = s.processes.length ∧
          ∀ j, 0 < j → t.out.ownOf j = s.out.ownOf j) := by
  have hs := exec_inv hrun
  have hmem := List.mem_of_getElem? hp
  refine ⟨fun hat => ?_, fun hsaw => ⟨fun j q hj hq => ?_, ?_⟩⟩
  · obtain ⟨-, -, heof, -⟩ := place hat
    obtain ⟨hchild, hzero, hcount⟩ := heof rfl
    have hends := hs.ends p hmem
    rw [Process.EndsOk, if_pos hat.1, hzero] at hends
    have hread : (next s (.step 0)).isSome ↔ ¬ s.hasWriter := by
      rw [next, hp, Option.bind_some, step, hs.which, hat.turn_eq]
      simp only [execute, Option.isSome_map, State.read, hs.empty, ne_eq,
        not_true_eq_false, if_false]
      split
      case isTrue h => simp [h]
      case isFalse h => simp [h]
    refine ⟨by rw [hs.forks p hp, hcount], ?_⟩
    rw [hread, hs.hasWriter_iff hp hends]
    constructor
    · intro hnone q hq hchild
      by_contra hboth
      rw [not_or, not_not] at hboth
      exact hnone ⟨q, hq, hchild, hboth.1, hboth.2⟩
    · rintro hall ⟨q, hq, hchild, hrunning, hopen⟩
      rcases hall q hq hchild with h | h
      · exact h hrunning
      · exact hopen h
  · have hchild : q.child = true := by
      by_contra hno
      rw [Bool.not_eq_true, hs.child j q hq] at hno
      omega
    rcases hs.passed hp hsaw (List.mem_of_getElem? hq) hchild with h | h
    · exact Or.inl h
    · exact Or.inr ⟨h, hs.told j q hq (h.finished hchild).1⟩
  · intro more t hlater
    have hquiet : Quiet s t := exec_invariant
      (fun _ _ _ => Quiet.next) ⟨hs, ⟨p, hp, hsaw⟩, rfl, fun _ _ => rfl⟩ hlater
    exact ⟨hquiet.length, hquiet.own⟩

/-- The children close their ends while the parent waits. -/
def bothClosed : List Label :=
  List.replicate 6 (.step 0) ++ List.replicate 4 (.step 1) ++
    List.replicate 4 (.step 2) ++ [.step 0]

theorem barrier_bothClosed :
    ∃ s, exec next (start .sync true) bothClosed = some s ∧
      ∀ more t, exec next s more = some t →
        t.processes.length = s.processes.length ∧
          ∀ j, 0 < j → t.out.ownOf j = s.out.ownOf j := by
  have hrun : exec next (start .sync true) bothClosed = some _ := rfl
  exact ⟨_, hrun, ((barrier hrun rfl).2 rfl).2⟩

end PipeFork

end MyFreeLib
