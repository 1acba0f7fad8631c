/-
Standard output of a family of processes.  On a terminal every line is written
at once; elsewhere it stays in a buffer of the process, which a fork copies, an
exit or a flush writes, and a signal loses.
-/
import MyFreeLib.AttributedLog

namespace MyFreeLib

universe u

/-- `inherited`, `own` and `lost` are history: what was in the buffer when the
process came into being, what it has printed itself, and whether its buffer was
lost. -/
structure OutputStream (α : Type u) where
  buffered : List α
  inherited : List α
  own : List α
  lost : Bool
deriving DecidableEq, Repr

namespace OutputStream

variable {α : Type u}

def print (terminal : Bool) (line : α) (stream : OutputStream α) :
    OutputStream α :=
  { stream with
    buffered :=
      if terminal then stream.buffered else stream.buffered ++ [line]
    own := stream.own ++ [line] }

def flush (stream : OutputStream α) : OutputStream α :=
  { stream with buffered := [] }

def kill (stream : OutputStream α) : OutputStream α :=
  { stream with buffered := [], lost := true }

/-- The stream of a new process. -/
def copy (stream : OutputStream α) : OutputStream α :=
  ⟨stream.buffered, stream.buffered, [], false⟩

/-- What is written and what is buffered are what was inherited and what has
been printed; after a signal only a part of it is written. -/
structure Accounts (stream : OutputStream α) (lines : List α) : Prop where
  front : lines <+: stream.inherited ++ stream.own
  kept : stream.lost = false →
    lines ++ stream.buffered = stream.inherited ++ stream.own

end OutputStream

/-- `written` tells who has written a line. -/
structure SharedOutput (α : Type u) where
  terminal : Bool
  written : List (ℕ × α)
  streams : List (OutputStream α)
deriving DecidableEq, Repr

namespace SharedOutput

variable {α : Type u}

/-- One process, which has not printed anything. -/
def start (terminal : Bool) : SharedOutput α :=
  ⟨terminal, [], [⟨[], [], [], false⟩]⟩

def print (out : SharedOutput α) (i : ℕ) (line : α) : SharedOutput α :=
  { out with
    written := out.written ++ if out.terminal then [(i, line)] else []
    streams := out.streams.modify i (·.print out.terminal line) }

def flush (out : SharedOutput α) (i : ℕ) : SharedOutput α :=
  match out.streams[i]? with
  | none => out
  | some stream => { out with
      written := out.written ++ stream.buffered.map fun line => (i, line)
      streams := out.streams.set i stream.flush }

def fork (out : SharedOutput α) (i : ℕ) : SharedOutput α :=
  match out.streams[i]? with
  | none => out
  | some stream => { out with streams := out.streams ++ [stream.copy] }

def kill (out : SharedOutput α) (i : ℕ) : SharedOutput α :=
  { out with streams := out.streams.modify i OutputStream.kill }

def writtenBy (out : SharedOutput α) (i : ℕ) : List α :=
  (out.written.filter fun entry => entry.1 = i).map Prod.snd

/-- What process `i` has printed itself. -/
def ownOf (out : SharedOutput α) (i : ℕ) : List α :=
  (out.streams[i]?.map OutputStream.own).getD []

/-- Process `i` writes some lines, and its stream becomes another. -/
def write (out : SharedOutput α) (i : ℕ) (lines : List α)
    (stream : OutputStream α) : SharedOutput α :=
  { out with
    written := out.written ++ lines.map fun line => (i, line)
    streams := out.streams.set i stream }

section Known

variable {out : SharedOutput α} {i : ℕ} {stream : OutputStream α}

/-! Where the stream is known the operations write. -/

theorem print_eq (hi : out.streams[i]? = some stream) (line : α) :
    out.print i line = out.write i (if out.terminal then [line] else [])
      (stream.print out.terminal line) := by
  rw [print, write, modify_eq_set hi]
  cases out.terminal <;> rfl

theorem flush_eq (hi : out.streams[i]? = some stream) :
    out.flush i = out.write i stream.buffered stream.flush := by
  rw [flush, hi, write]

theorem kill_eq (hi : out.streams[i]? = some stream) :
    out.kill i = out.write i [] stream.kill := by
  rw [kill, write, modify_eq_set hi, List.map_nil, List.append_nil]

theorem fork_eq (hi : out.streams[i]? = some stream) :
    out.fork i = { out with streams := out.streams ++ [stream.copy] } := by
  rw [fork, hi]

theorem streams_write_self (hi : out.streams[i]? = some stream)
    (lines : List α) (after : OutputStream α) :
    (out.write i lines after).streams[i]? = some after :=
  List.getElem?_set_self (List.getElem?_eq_some_iff.mp hi).1

theorem streams_write_ne {j : ℕ} (hj : i ≠ j) (lines : List α)
    (after : OutputStream α) :
    (out.write i lines after).streams[j]? = out.streams[j]? :=
  List.getElem?_set_ne hj

theorem ownOf_eq (hi : out.streams[i]? = some stream) :
    out.ownOf i = stream.own := by
  rw [ownOf, hi]
  rfl

theorem ownOf_of_le {j : ℕ} (hj : out.streams.length ≤ j) :
    out.ownOf j = [] := by
  rw [ownOf, List.getElem?_eq_none hj]
  rfl

end Known

@[simp] theorem length_write (out : SharedOutput α) (i : ℕ) (lines : List α)
    (stream : OutputStream α) :
    (out.write i lines stream).streams.length = out.streams.length :=
  List.length_set

theorem write_write (out : SharedOutput α) (i : ℕ) (lines more : List α)
    (stream after : OutputStream α) :
    (out.write i lines stream).write i more after =
      out.write i (lines ++ more) after := by
  simp [write]

theorem ownOf_write {out : SharedOutput α} {i : ℕ} {stream : OutputStream α}
    (hi : out.streams[i]? = some stream) (lines own : List α)
    {after : OutputStream α} (hown : after.own = stream.own ++ own) (j : ℕ) :
    (out.write i lines after).ownOf j =
      out.ownOf j ++ if i = j then own else [] := by
  by_cases hj : i = j
  · subst hj
    rw [ownOf_eq (streams_write_self hi lines after), ownOf_eq hi, hown,
      if_pos rfl]
  · rw [ownOf, streams_write_ne hj, ← ownOf, if_neg hj, List.append_nil]

@[simp] theorem length_print (out : SharedOutput α) (i : ℕ) (line : α) :
    (out.print i line).streams.length = out.streams.length :=
  List.length_modify _ _ _

@[simp] theorem length_flush (out : SharedOutput α) (i : ℕ) :
    (out.flush i).streams.length = out.streams.length := by
  unfold flush
  split
  · rfl
  · exact List.length_set

theorem length_fork {out : SharedOutput α} {i : ℕ}
    (hi : i < out.streams.length) :
    (out.fork i).streams.length = out.streams.length + 1 := by
  rw [fork_eq (List.getElem?_eq_getElem hi)]
  exact List.length_append

theorem ownOf_print {out : SharedOutput α} {i : ℕ}
    (hi : i < out.streams.length) (line : α) (j : ℕ) :
    (out.print i line).ownOf j =
      out.ownOf j ++ if i = j then [line] else [] := by
  have hstream := List.getElem?_eq_getElem hi
  rw [print_eq hstream]
  exact ownOf_write hstream _ _ rfl j

@[simp] theorem ownOf_flush (out : SharedOutput α) (i j : ℕ) :
    (out.flush i).ownOf j = out.ownOf j := by
  cases hi : out.streams[i]? with
  | none => rw [flush, hi]
  | some stream =>
      have hown : stream.flush.own = stream.own ++ [] :=
        (List.append_nil _).symm
      rw [flush_eq hi, ownOf_write hi _ _ hown, ite_self, List.append_nil]

/-- A new process has not printed anything itself. -/
@[simp] theorem ownOf_fork (out : SharedOutput α) (i j : ℕ) :
    (out.fork i).ownOf j = out.ownOf j := by
  cases hi : out.streams[i]? with
  | none => rw [fork, hi]
  | some stream =>
      rw [fork_eq hi, ownOf, ownOf]
      rcases Nat.lt_trichotomy j out.streams.length with hlt | rfl | hgt
      · rw [List.getElem?_append_left hlt]
      · simp [OutputStream.copy]
      · rw [List.getElem?_eq_none (by simp; omega),
          List.getElem?_eq_none (by omega)]

theorem writtenBy_write (out : SharedOutput α) (i j : ℕ) (lines : List α)
    (stream : OutputStream α) : (out.write i lines stream).writtenBy j =
      out.writtenBy j ++ if i = j then lines else [] := by
  change entriesOf _ j = entriesOf _ j ++ _
  rw [write, entriesOf_append, entriesOf_map]

/-- Nothing is written twice but what a fork has copied, and nothing gets lost
but by a signal. -/
structure Accounted (out : SharedOutput α) : Prop where
  known : ∀ entry ∈ out.written, entry.1 < out.streams.length
  accounts : ∀ (i : ℕ) (stream : OutputStream α),
    out.streams[i]? = some stream → stream.Accounts (out.writtenBy i)
  direct : out.terminal = true → ∀ stream ∈ out.streams,
    stream.buffered = [] ∧ stream.inherited = []

theorem start_accounted (terminal : Bool) :
    Accounted (start terminal : SharedOutput α) := by
  refine ⟨by simp [start], fun i stream h => ?_, fun _ => by simp [start]⟩
  obtain rfl := List.mem_singleton.mp (List.mem_of_getElem? h)
  exact ⟨List.prefix_refl _, fun _ => rfl⟩

namespace Accounted

variable {out : SharedOutput α} {i : ℕ} {stream : OutputStream α}

theorem write (h : Accounted out) (hi : out.streams[i]? = some stream)
    (lines : List α) (after : OutputStream α)
    (hafter : after.Accounts (out.writtenBy i ++ lines))
    (hdirect : out.terminal = true →
      after.buffered = [] ∧ after.inherited = []) :
    Accounted (out.write i lines after) := by
  have hlt := (List.getElem?_eq_some_iff.mp hi).1
  refine ⟨?_, fun j other hj => ?_, fun hterminal => ?_⟩
  · intro entry hentry
    rw [length_write]
    rcases List.mem_append.mp hentry with hold | hnew
    · exact h.known entry hold
    · obtain ⟨line, -, rfl⟩ := List.mem_map.mp hnew
      exact hlt
  · rw [writtenBy_write]
    rcases getElem?_set_cases hj with ⟨rfl, rfl⟩ | ⟨hne, hold⟩
    · rw [if_pos rfl]
      exact hafter
    · rw [if_neg (Ne.symm hne), List.append_nil]
      exact h.accounts j other hold
  · exact forall_mem_set (h.direct hterminal) (hdirect hterminal)

theorem print (h : Accounted out) (hi : out.streams[i]? = some stream)
    (hlost : stream.lost = false) (line : α) :
    Accounted (out.print i line) := by
  have hall := (h.accounts i stream hi).kept hlost
  rw [print_eq hi]
  cases hterminal : out.terminal with
  | true =>
      obtain ⟨hbuffered, hinherited⟩ :=
        h.direct hterminal stream (List.mem_of_getElem? hi)
      rw [hbuffered, List.append_nil] at hall
      have hmore : out.writtenBy i ++ [line] =
          stream.inherited ++ (stream.own ++ [line]) := by
        rw [hall, List.append_assoc]
      refine h.write hi _ _ ⟨?_, fun _ => ?_⟩ fun _ => ⟨hbuffered, hinherited⟩
      · rw [if_pos rfl, hmore]
        exact List.prefix_refl _
      · simp only [OutputStream.print, if_true, hbuffered, List.append_nil,
          hmore]
  | false =>
      have hmore : out.writtenBy i ++ (stream.buffered ++ [line]) =
          stream.inherited ++ (stream.own ++ [line]) := by
        rw [← List.append_assoc, hall, List.append_assoc]
      refine h.write hi _ _ ⟨?_, fun _ => ?_⟩
        fun hyes => absurd (hterminal.symm.trans hyes) (by simp)
      · simp only [OutputStream.print, Bool.false_eq_true, if_false,
          List.append_nil, ← hmore]
        exact List.prefix_append _ _
      · simp only [OutputStream.print, Bool.false_eq_true, if_false,
          List.append_nil, hmore]

theorem flush (h : Accounted out) (hi : out.streams[i]? = some stream)
    (hlost : stream.lost = false) : Accounted (out.flush i) := by
  have hall := (h.accounts i stream hi).kept hlost
  rw [flush_eq hi]
  refine h.write hi _ _ ⟨?_, fun _ => ?_⟩ fun hterminal => ?_
  · rw [hall]
    exact List.prefix_refl _
  · rw [hall]
    exact List.append_nil _
  · exact ⟨rfl, (h.direct hterminal stream (List.mem_of_getElem? hi)).2⟩

theorem kill (h : Accounted out) (hi : out.streams[i]? = some stream) :
    Accounted (out.kill i) := by
  rw [kill_eq hi]
  refine h.write hi _ _ ⟨?_, fun hlost => ?_⟩ fun hterminal => ?_
  · rw [List.append_nil]
    exact (h.accounts i stream hi).front
  · cases hlost
  · exact ⟨rfl, (h.direct hterminal stream (List.mem_of_getElem? hi)).2⟩

theorem fork (h : Accounted out) (hi : out.streams[i]? = some stream) :
    Accounted (out.fork i) := by
  rw [fork_eq hi]
  refine ⟨fun entry hentry => ?_, fun j other hj => ?_, fun hterminal => ?_⟩
  · rw [List.length_append]
    exact Nat.lt_add_right _ (h.known entry hentry)
  · by_cases hlt : j < out.streams.length
    · rw [List.getElem?_append_left hlt] at hj
      exact h.accounts j other hj
    · -- the new process has written nothing
      have hnone : out.writtenBy j = [] := by
        rw [writtenBy, List.map_eq_nil_iff, List.filter_eq_nil_iff]
        intro entry hentry
        have hknown := h.known entry hentry
        have hne : entry.1 ≠ j := by omega
        simpa using hne
      rw [List.getElem?_append_right (Nat.le_of_not_lt hlt)] at hj
      obtain rfl := List.mem_singleton.mp (List.mem_of_getElem? hj)
      have hsame : SharedOutput.writtenBy
          { out with streams := out.streams ++ [stream.copy] } j = [] := hnone
      rw [hsame]
      exact ⟨List.nil_prefix, fun _ => by simp [OutputStream.copy]⟩
  · have hbuffered :=
      (h.direct hterminal stream (List.mem_of_getElem? hi)).1
    exact forall_mem_concat (h.direct hterminal) ⟨hbuffered, hbuffered⟩

end Accounted

end SharedOutput

end MyFreeLib
