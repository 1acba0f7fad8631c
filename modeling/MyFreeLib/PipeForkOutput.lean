/-
What the three demos write.  Nothing is lost but by a signal; on a terminal
nothing is written twice, and elsewhere exactly the line that the parent has
printed before its forks, once more by each child.
-/
import MyFreeLib.PipeForkTurns

namespace MyFreeLib

namespace PipeFork

def startLine : Demo → Line
  | .demo => some (text "pipe_demo start\n")
  | .sync => some (text "pipe_sync start\n")
  | .redirect => some (text "pipe_redirect start\n")

/-- What a process has from its parent's buffer. -/
def copied (which : Demo) (terminal : Bool) (i : ℕ) : List Line :=
  if terminal = true ∨ i = 0 then [] else [startLine which]

def Stmt.printed : Stmt → Option Line
  | .print line => some (some (text line))
  | _ => none

/-- While forks are ahead there are lines to print and nothing to read. -/
def BeforeForks (which : Demo) (child : Bool) (done : List Stmt) (stmt : Stmt)
    (rest : List Stmt) : Prop :=
  (stmt = .fork → child = false ∧
    done.filterMap Stmt.printed = [startLine which]) ∧
  (.fork ∈ rest → child = false ∧
    (stmt.printed.isSome ∨ stmt = .pipe ∨ stmt = .fork)) ∧
  (stmt = .readLoop ∨ stmt = .echo → child = true)

instance (which : Demo) (child : Bool) (done : List Stmt) (stmt : Stmt)
    (rest : List Stmt) :
    Decidable (BeforeForks which child done stmt rest) :=
  inferInstanceAs (Decidable (_ ∧ _))

theorem beforeForks_of_inits (which : Demo) : ∀ child : Bool,
    ∀ done ∈ (programOf which child).inits,
      ∀ stmt ∈ ((programOf which child).drop done.length).head?,
        BeforeForks which child done stmt
          ((programOf which child).drop done.length).tail := by
  cases which <;> decide

theorem beforeForks {which : Demo} {p : Process} {stmt : Stmt}
    (h : p.at which stmt) : BeforeForks which p.child (p.done which) stmt
      ((p.program which).drop (p.pc + 1)) :=
  h.place (P := fun done stmt rest => BeforeForks which p.child done stmt rest)
    (beforeForks_of_inits which p.child)

theorem Speaks.accounted {s : State} {i : ℕ} {p q : Process}
    {more : List Process} {out : SharedOutput Line}
    {stream : OutputStream Line} (h : Speaks s i p q more out)
    (hs : s.out.Accounted) (hi : s.out.streams[i]? = some stream)
    (hlost : stream.lost = false) : out.Accounted := by
  have hflush (line : Line) :
      ((s.out.print i line).flush i).Accounted := by
    have hprinted : (s.out.print i line).streams[i]? =
        some (stream.print s.out.terminal line) := by
      rw [SharedOutput.print_eq hi, SharedOutput.streams_write_self hi]
    exact (hs.print hi hlost line).flush hprinted hlost
  cases h with
  | silent => exact hs
  | prints | complains => exact hs.print hi hlost _
  | echoes | leaves => exact hflush _
  | exits => exact hs.flush hi hlost
  | dies => exact hs.kill hi
  | forks => exact hs.fork hi

/-- How the stream of a process stands. -/
structure StreamOk (which : Demo) (terminal : Bool) (i : ℕ) (p : Process)
    (stream : OutputStream Line) : Prop where
  inherited : stream.inherited = copied which terminal i
  lost : p.status ≠ .ended none → stream.lost = false
  flushed : ∀ code, p.status = .ended (some code) → stream.buffered = []

/-- Before its last fork a process has printed its first line at most. -/
def Early (which : Demo) (terminal : Bool) (p : Process)
    (stream : OutputStream Line) : Prop :=
  p.status = .running → .fork ∈ (p.program which).drop p.pc →
    stream.own = (p.done which).filterMap Stmt.printed ∧
      (terminal = false → stream.buffered = stream.own)

structure OutputInv (which : Demo) (terminal : Bool) (s : State) : Prop where
  demo : s.demo = which
  mode : s.out.terminal = terminal
  accounted : s.out.Accounted
  lengths : s.out.streams.length = s.processes.length
  parent : ∀ (i : ℕ) (p : Process), s.processes[i]? = some p →
    (p.child = false ↔ i = 0)
  streams : ∀ (i : ℕ) (p : Process) (stream : OutputStream Line),
    s.processes[i]? = some p → s.out.streams[i]? = some stream →
      StreamOk which terminal i p stream ∧ Early which terminal p stream

theorem start_outputInv (which : Demo) (terminal : Bool) :
    OutputInv which terminal (start which terminal) := by
  have honly {α : Type} {x y : α} {i : ℕ} (h : [x][i]? = some y) :
      i = 0 ∧ y = x := by
    obtain ⟨hi, rfl⟩ := List.getElem?_eq_some_iff.mp h
    have hzero : i = 0 := Nat.lt_one_iff.mp hi
    subst hzero
    exact ⟨rfl, rfl⟩
  refine ⟨rfl, rfl, SharedOutput.start_accounted terminal, rfl,
    fun i p hp => ?_, fun i p stream hp hstream => ?_⟩
  · obtain ⟨rfl, rfl⟩ := honly hp
    simp
  · obtain ⟨rfl, rfl⟩ := honly hp
    obtain ⟨-, rfl⟩ := honly hstream
    refine ⟨⟨by simp [copied], fun _ => rfl, fun _ _ => rfl⟩, fun _ _ => ?_⟩
    exact ⟨rfl, fun _ => rfl⟩

theorem parent_of_fork_mem {which : Demo} {child : Bool}
    (h : .fork ∈ programOf which child) : child = false := by
  revert h
  cases which <;> cases child <;> decide

/-- Where forks are still ahead a process has gone on by one statement. -/
theorem Acts.forth {s : State} {p q : Process} {more : List Process}
    (h : Acts s p q more) (hrun : q.status = .running)
    (hfork : .fork ∈ (q.program s.demo).drop q.pc) :
    q.pc = p.pc + 1 ∧ q.child = p.child := by
  have hparent := parent_of_fork_mem (List.mem_of_mem_drop hfork)
  cases h with
  | ends => cases hrun
  | passes hat hpc hstmt =>
      have hloop := (beforeForks hat).2.2
      cases hpc with
      | forth => exact ⟨rfl, rfl⟩
      | out h => exact absurd ((hloop (Or.inl h)).symm.trans hparent) (by simp)
      | back h => exact absurd ((hloop (Or.inr h)).symm.trans hparent) (by simp)
  | opens | forks | closesRead | closesWrite | dups | sees => exact ⟨rfl, rfl⟩

theorem Effect.early {which : Demo} {terminal : Bool} {s : State} {i : ℕ}
    {p q : Process} {stream after : OutputStream Line} {lines : List Line}
    {more : List Process} (hs : OutputInv which terminal s)
    (hearly : Early which terminal p stream) (hp : p.status = .running)
    (hacts : Acts s p q more) (h : Effect s i p q stream after lines) :
    Early which terminal q after := by
  intro hrun hfork
  rw [← hs.demo] at hfork
  obtain ⟨hpc, hchild⟩ := hacts.forth hrun hfork
  obtain ⟨stmt, hat, hshows⟩ := h.shows hrun
  rw [Process.program_eq, hpc, hchild, ← Process.program_eq] at hfork
  rw [hs.demo] at hat hfork
  obtain ⟨-, hahead, -⟩ := beforeForks hat
  have hkind := (hahead hfork).2
  have hbefore : .fork ∈ (p.program which).drop p.pc := by
    rw [drop_of_getElem? hat.2]
    exact List.mem_cons_of_mem _ hfork
  obtain ⟨hown, hbuffered⟩ := hearly hp hbefore
  have hdone := hat.done_forth hpc hchild
  have hlines : lines = [stmt].filterMap Stmt.printed ∧ stmt ≠ .echo := by
    cases stmt with
    | print | pipe | fork =>
        rcases hshows with hshows | hread
        · exact ⟨hshows, by simp⟩
        · cases hread
    | _ => simp [Stmt.printed] at hkind
  constructor
  · rw [h.own, hown, hdone, List.filterMap_append, hlines.1]
  · intro hfile
    have hecho : ¬ p.at s.demo .echo := fun hecho => by
      rw [hs.demo] at hecho
      exact hlines.2 (hat.eq hecho)
    rw [h.buffered hrun hecho (hs.mode.trans hfile), hbuffered hfile, h.own]

/-- The stream of a new child holds the line that its parent has printed. -/
theorem OutputInv.copy {which : Demo} {terminal : Bool} {s : State} {i j : ℕ}
    {p : Process} {stream : OutputStream Line}
    (hs : OutputInv which terminal s)
    (hstream : s.out.streams[i]? = some stream)
    (hearly : Early which terminal p stream) (hat : p.at which .fork)
    (hj : j ≠ 0) : StreamOk which terminal j p.copy stream.copy ∧
      Early which terminal p.copy stream.copy := by
  have hfork : .fork ∈ (p.program which).drop p.pc := by
    rw [drop_of_getElem? hat.2]
    exact List.mem_cons_self
  obtain ⟨hown, hbuffered⟩ := hearly hat.1 hfork
  rw [((beforeForks hat).1 rfl).2] at hown
  refine ⟨⟨?_, fun _ => rfl, fun code h => by cases h⟩, fun _ h => ?_⟩
  · rw [OutputStream.copy, copied]
    cases terminal with
    | true =>
        have hdirect := hs.accounted.direct hs.mode stream
          (List.mem_of_getElem? hstream)
        simp [hdirect.1]
    | false => simp [hj, hbuffered rfl, hown]
  · have hparent := parent_of_fork_mem (List.mem_of_mem_drop h)
    cases hparent

theorem OutputInv.turn {which : Demo} {terminal : Bool} {s t : State} {i : ℕ}
    {p : Process} (hs : OutputInv which terminal s)
    (hp : s.processes[i]? = some p) (hturn : Turn s i p t) :
    OutputInv which terminal t := by
  obtain ⟨q, more, ht, hacts, hspeaks⟩ := hturn.moves
  have hi := (List.getElem?_eq_some_iff.mp hp).1
  obtain ⟨stream, hstream⟩ : ∃ stream, s.out.streams[i]? = some stream :=
    ⟨_, List.getElem?_eq_getElem (hs.lengths ▸ hi)⟩
  obtain ⟨hok, hearly⟩ := hs.streams i p stream hp hstream
  have hlost := hok.lost (by simp [hturn.running])
  have haccounted := hspeaks.accounted hs.accounted hstream hlost
  obtain ⟨hchild, hmore⟩ := hacts.more
  rcases hspeaks.effect hstream with
      ⟨rfl, lines, written, after, hout, heffect⟩ |
      ⟨hrun, hat, ⟨c, rfl⟩, hout⟩
  · rw [List.append_nil] at ht
    refine ⟨hturn.demo.trans hs.demo, ?_, haccounted, ?_, fun j r hr => ?_,
      fun j r other hr hother => ?_⟩
    · rw [hout]
      exact hs.mode
    · rw [hout, ht, SharedOutput.length_write, List.length_set, hs.lengths]
    · rw [ht] at hr
      rcases getElem?_set_cases hr with ⟨rfl, rfl⟩ | ⟨-, hold⟩
      · rw [hchild]
        exact hs.parent j p hp
      · exact hs.parent j r hold
    · rw [ht] at hr
      rcases getElem?_set_cases hr with ⟨rfl, rfl⟩ | ⟨hne, hold⟩
      · rw [hout, SharedOutput.streams_write_self hstream] at hother
        obtain rfl := Option.some.inj hother
        refine ⟨⟨heffect.inherited.trans hok.inherited, fun h => ?_,
          heffect.flushed⟩, heffect.early hs hearly hturn.running hacts⟩
        exact (heffect.lost h).trans hlost
      · rw [hout, SharedOutput.streams_write_ne (Ne.symm hne)] at hother
        exact hs.streams j r other hold hother
  · rcases hmore with hnil | ⟨-, rfl, hcopy⟩
    · cases hnil
    · rw [hs.demo] at hat
      have hzero := (hs.parent i p hp).mp ((beforeForks hat).1 rfl).1
      refine ⟨hturn.demo.trans hs.demo, ?_, haccounted, ?_, fun j r hr => ?_,
        fun j r other hr hother => ?_⟩
      · rw [hout]
        exact hs.mode
      · rw [hout, ht, List.length_append, List.length_append, List.length_set,
          hs.lengths]
        rfl
      · rw [ht] at hr
        rcases getElem?_turn hp hr with ⟨rfl, rfl⟩ | ⟨-, hold⟩ | ⟨hj, hr⟩
        · exact hs.parent j p hp
        · exact hs.parent j r hold
        · rw [hcopy] at hr
          obtain rfl := List.mem_singleton.mp (List.mem_of_getElem? hr)
          simp only [Process.copy, Bool.true_eq_false, false_iff]
          omega
      · rw [ht, hcopy] at hr
        rw [hout] at hother
        rcases getElem?_turn hp hr with ⟨rfl, rfl⟩ | ⟨-, hold⟩ | ⟨hj, hr⟩
        · have hlt := (List.getElem?_eq_some_iff.mp hstream).1
          rw [List.getElem?_append_left hlt, hstream] at hother
          obtain rfl := Option.some.inj hother
          refine ⟨⟨hok.inherited, hok.lost, hok.flushed⟩, fun _ hfork => ?_⟩
          have hdone : Process.done which { p with pc := p.pc + 1 } =
              p.done which ++ [.fork] := hat.take_succ
          have hbefore : .fork ∈ (p.program which).drop p.pc := by
            rw [drop_of_getElem? hat.2]
            exact List.mem_cons_self
          obtain ⟨hown, hbuffered⟩ := hearly hat.1 hbefore
          rw [hdone, List.filterMap_append]
          exact ⟨by simp [hown, Stmt.printed], hbuffered⟩
        · have hlt := (List.getElem?_eq_some_iff.mp hold).1
          rw [List.getElem?_append_left (hs.lengths ▸ hlt)] at hother
          exact hs.streams j r other hold hother
        · obtain rfl := List.mem_singleton.mp (List.mem_of_getElem? hr)
          rw [List.getElem?_append_right (hs.lengths ▸ hj)] at hother
          obtain rfl := List.mem_singleton.mp (List.mem_of_getElem? hother)
          exact hs.copy hstream hearly hat (by omega)

theorem exec_outputInv {which : Demo} {terminal : Bool} {s : State}
    {labels : List Label}
    (hrun : exec next (start which terminal) labels = some s) :
    OutputInv which terminal s := by
  refine exec_invariant (fun s label t hs h => ?_)
    (start_outputInv which terminal) hrun
  obtain ⟨i, p, hp, hturn⟩ := next_turn h
  exact hs.turn hp hturn

/-- A process that has returned has written all that it has. -/
theorem OutputInv.writtenBy_eq {which : Demo} {terminal : Bool} {s : State}
    {i : ℕ} {p : Process} {code : ℤ} (hs : OutputInv which terminal s)
    (hp : s.processes[i]? = some p) (hcode : p.status = .ended (some code)) :
    s.out.writtenBy i = copied which terminal i ++ s.out.ownOf i := by
  have hi := (List.getElem?_eq_some_iff.mp hp).1
  obtain ⟨stream, hstream⟩ : ∃ stream, s.out.streams[i]? = some stream :=
    ⟨_, List.getElem?_eq_getElem (hs.lengths ▸ hi)⟩
  obtain ⟨⟨hinherited, hlost, hflushed⟩, -⟩ := hs.streams i p stream hp hstream
  have hall := (hs.accounted.accounts i stream hstream).kept
    (hlost (by simp [hcode]))
  rw [SharedOutput.ownOf_eq hstream, ← hinherited]
  rwa [hflushed code hcode, List.append_nil] at hall

/-- However the processes of a demo are interleaved, fail and are killed: one
that returns has written exactly what it has printed, once and in order, and
before it, unless it writes to a terminal or is the parent, a copy of the line
that the parent has printed before its forks; a signal cuts that off somewhere.
On a terminal all is written at once. -/
theorem written_once {which : Demo} {terminal : Bool} {s : State}
    {labels : List Label}
    (hrun : exec next (start which terminal) labels = some s) :
    (∀ entry ∈ s.out.written, entry.1 < s.processes.length) ∧
    ∀ (i : ℕ) (p : Process), s.processes[i]? = some p →
      s.out.writtenBy i <+: copied which terminal i ++ s.out.ownOf i ∧
      (∀ code, p.status = .ended (some code) →
        s.out.writtenBy i = copied which terminal i ++ s.out.ownOf i) ∧
      (p.status = .running → terminal = true →
        s.out.writtenBy i = s.out.ownOf i) := by
  have hs := exec_outputInv hrun
  refine ⟨fun entry hentry => ?_, fun i p hp => ?_⟩
  · rw [← hs.lengths]
    exact hs.accounted.known entry hentry
  · have hi := (List.getElem?_eq_some_iff.mp hp).1
    obtain ⟨stream, hstream⟩ : ∃ stream, s.out.streams[i]? = some stream :=
      ⟨_, List.getElem?_eq_getElem (hs.lengths ▸ hi)⟩
    obtain ⟨⟨hinherited, hlost, -⟩, -⟩ := hs.streams i p stream hp hstream
    obtain ⟨hfront, hkept⟩ := hs.accounted.accounts i stream hstream
    refine ⟨?_, fun code hcode => hs.writtenBy_eq hp hcode,
      fun hrunning hterminal => ?_⟩
    · rw [SharedOutput.ownOf_eq hstream, ← hinherited]
      exact hfront
    · rw [SharedOutput.ownOf_eq hstream]
      have hall := hkept (hlost (by simp [hrunning]))
      obtain ⟨hbuffered, hnone⟩ := hs.accounted.direct
        (hs.mode.trans hterminal) stream (List.mem_of_getElem? hstream)
      rwa [hbuffered, hnone, List.append_nil, List.nil_append] at hall

/-- Into a file, a child writes the parent's line too. -/
def intoFile : List Label :=
  List.replicate 3 (.step 0) ++ List.replicate 5 (.step 1)

theorem written_once_intoFile :
    ∃ s, exec next (start .sync false) intoFile = some s ∧
      s.out.writtenBy 1 = startLine .sync :: s.out.ownOf 1 := by
  have hrun : exec next (start .sync false) intoFile = some _ := rfl
  exact ⟨_, hrun, ((written_once hrun).2 1 _ rfl).2.1 0 rfl⟩

end PipeFork

end MyFreeLib
