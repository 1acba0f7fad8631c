/-
Processes that run straight-line programs.  A program is split into what has
been executed and what is to come, and what holds at all its finitely many
places holds wherever a process stands in it.
-/
import Mathlib.Data.List.Infix

namespace MyFreeLib

universe u v

variable {Stmt : Type u}

theorem forall_split {program : List Stmt} {P : List Stmt → List Stmt → Prop}
    (h : ∀ done ∈ program.inits, P done (program.drop done.length))
    {done rest : List Stmt} (hsplit : done ++ rest = program) :
    P done rest := by
  have hrest : program.drop done.length = rest := by
    rw [← hsplit, List.drop_left]
  rw [← hrest]
  apply h
  rw [List.mem_inits, ← hsplit]
  exact List.prefix_append _ _

/-- The same with a program counter. -/
theorem forall_take_drop {program : List Stmt}
    {P : List Stmt → List Stmt → Prop}
    (h : ∀ done ∈ program.inits, P done (program.drop done.length)) (pc : ℕ) :
    P (program.take pc) (program.drop pc) :=
  forall_split h (List.take_append_drop pc program)

theorem take_succ_of_getElem? {program : List Stmt} {pc : ℕ} {stmt : Stmt}
    (h : program[pc]? = some stmt) :
    program.take (pc + 1) = program.take pc ++ [stmt] := by
  rw [List.take_add_one, h, Option.toList_some]

theorem drop_of_getElem? {program : List Stmt} {pc : ℕ} {stmt : Stmt}
    (h : program[pc]? = some stmt) :
    program.drop pc = stmt :: program.drop (pc + 1) := by
  obtain ⟨hlt, rfl⟩ := List.getElem?_eq_some_iff.mp h
  exact List.drop_eq_getElem_cons hlt

/-- A process that has ended has returned a code, unless a signal ended it. -/
inductive Status
  | running
  | ended (code : Option ℤ)
deriving DecidableEq, Repr

section Turns

variable {S : Type v} {program : List Stmt} {pc : ℕ} {status : Status}

/-- The process is about to execute the statement. -/
structure StandsAt (program : List Stmt) (pc : ℕ) (status : Status)
    (stmt : Stmt) : Prop where
  running : status = .running
  getElem : program[pc]? = some stmt

theorem StandsAt.eq {a b : Stmt} (ha : StandsAt program pc status a)
    (hb : StandsAt program pc status b) : a = b :=
  Option.some.inj (ha.getElem.symm.trans hb.getElem)

theorem StandsAt.take_succ {stmt : Stmt}
    (h : StandsAt program pc status stmt) :
    program.take (pc + 1) = program.take pc ++ [stmt] :=
  take_succ_of_getElem? h.getElem

/-- A process that runs makes the call that comes next, or `atEnd` follows the
last one. -/
def Status.turn (status : Status) (program : List Stmt) (pc : ℕ)
    (call : Stmt → Option S) (atEnd : Option S) : Option S :=
  match status, program[pc]? with
  | .running, some stmt => call stmt
  | .running, none => atEnd
  | .ended _, _ => none

/-- A signal ends a process that runs. -/
def Status.signal (status : Status) (died : S) : Option S :=
  match status with
  | .running => some died
  | .ended _ => none

theorem StandsAt.turn_eq {stmt : Stmt} (h : StandsAt program pc status stmt)
    (call : Stmt → Option S) (atEnd : Option S) :
    status.turn program pc call atEnd = call stmt := by
  simp only [Status.turn, h.running, h.getElem]

theorem Status.turn_eq_some {call : Stmt → Option S} {atEnd : Option S}
    {t : S} (h : status.turn program pc call atEnd = some t) :
    (∃ stmt, StandsAt program pc status stmt ∧ call stmt = some t) ∨
      status = .running ∧ program[pc]? = none ∧ atEnd = some t := by
  unfold turn at h
  split at h
  case h_1 stmt hstmt => exact Or.inl ⟨stmt, ⟨rfl, hstmt⟩, h⟩
  case h_2 hend => exact Or.inr ⟨rfl, hend, h⟩
  case h_3 => cases h

theorem Status.signal_eq_some {died t : S}
    (h : status.signal died = some t) : status = .running ∧ died = t := by
  cases status with
  | running => exact ⟨rfl, Option.some.inj h⟩
  | ended code => cases h

end Turns

end MyFreeLib
