/-
Logs whose entries name the process that made them.  A bank of logs is
attributed to a table of processes when the entries of each log are exactly
what the processes have done to it, each process at most once.  A single log is
told by a table when the entries of each process, in their order, are those
that its state gives.
-/
import MyFreeLib.ProcessTable
import Mathlib.Data.List.Nodup

namespace MyFreeLib

universe u v

variable {P : Type u} {M : Type v}

/-- `did p k m` says that process `p` has put the entry `m` into log `k`. -/
def Attributed (did : P → ℕ → M → Prop) (logs : List (List (ℕ × M)))
    (processes : List P) : Prop :=
  ∀ k log, logs[k]? = some log → (log.map Prod.fst).Nodup ∧
    ∀ i m, (i, m) ∈ log ↔ ∃ p, processes[i]? = some p ∧ did p k m

namespace Attributed

variable {did : P → ℕ → M → Prop} {logs : List (List (ℕ × M))}
  {processes : List P} {i : ℕ} {p q : P}

/-- A process moves without an entry. -/
theorem keep (h : Attributed did logs processes)
    (hp : processes[i]? = some p) (hq : ∀ k m, did q k m ↔ did p k m) :
    Attributed did logs (processes.set i q) := by
  intro k log hlog
  obtain ⟨hnodup, hmem⟩ := h k log hlog
  refine ⟨hnodup, fun j m => (hmem j m).trans ?_⟩
  by_cases hj : i = j
  · subst hj
    have hlt := (List.getElem?_eq_some_iff.mp hp).1
    rw [List.getElem?_set_self hlt, hp]
    simp [hq]
  · rw [List.getElem?_set_ne hj]

/-- A process moves and makes its entry. -/
theorem record (h : Attributed did logs processes)
    (hp : processes[i]? = some p) {k : ℕ} {log : List (ℕ × M)}
    (hlog : logs[k]? = some log) (hnew : ∀ j m, ¬ did p j m) {entry : M}
    (hq : ∀ j m, did q j m ↔ j = k ∧ m = entry) :
    Attributed did (logs.set k (log ++ [(i, entry)])) (processes.set i q) := by
  intro j other hother
  have hlt := (List.getElem?_eq_some_iff.mp hp).1
  -- the process is in no log yet
  have hout (j : ℕ) (other : List (ℕ × M)) (hother : logs[j]? = some other)
      (m : M) : (i, m) ∉ other := by
    intro hmem
    obtain ⟨r, hr, hdid⟩ := ((h j other hother).2 i m).mp hmem
    obtain rfl := Option.some.inj (hp.symm.trans hr)
    exact hnew j m hdid
  have hothers (j n : ℕ) (m : M) (hn : n ≠ i) :
      (∃ r, (processes.set i q)[n]? = some r ∧ did r j m) ↔
        ∃ r, processes[n]? = some r ∧ did r j m := by
    rw [List.getElem?_set_ne (Ne.symm hn)]
  rcases getElem?_set_cases hother with ⟨rfl, rfl⟩ | ⟨hj, hold⟩
  · obtain ⟨hnodup, hmem⟩ := h j log hlog
    constructor
    · rw [List.map_append]
      apply hnodup.append (List.nodup_singleton _)
      intro n hn hni
      obtain ⟨⟨n', m⟩, hentry, rfl⟩ := List.mem_map.mp hn
      obtain rfl := List.mem_singleton.mp hni
      exact hout j log hlog m hentry
    · intro n m
      by_cases hn : n = i
      · subst hn
        simp [hlt, hq, hout j log hlog m]
      · rw [hothers j n m hn, ← hmem n m, List.mem_append]
        simp [hn]
  · obtain ⟨hnodup, hmem⟩ := h j other hold
    refine ⟨hnodup, fun n m => ?_⟩
    by_cases hn : n = i
    · subst hn
      simp [hlt, hq, hj, hout j other hold m]
    · rw [hothers j n m hn]
      exact hmem n m

/-- A new process has made no entry. -/
theorem launch (h : Attributed did logs processes)
    (hp : ∀ k m, ¬ did p k m) : Attributed did logs (processes ++ [p]) := by
  intro k log hlog
  obtain ⟨hnodup, hmem⟩ := h k log hlog
  refine ⟨hnodup, fun j m => (hmem j m).trans ⟨?_, ?_⟩⟩
  · rintro ⟨r, hr, hdid⟩
    exact ⟨r, getElem?_of_front (List.prefix_append _ _) hr, hdid⟩
  · rintro ⟨r, hr, hdid⟩
    rw [List.getElem?_append] at hr
    split at hr
    case isTrue => exact ⟨r, hr, hdid⟩
    case isFalse =>
      obtain rfl := List.mem_singleton.mp (List.mem_of_getElem? hr)
      exact absurd hdid (hp k m)

/-- Nobody has made an entry in a new log. -/
theorem create (h : Attributed did logs processes)
    (hnew : ∀ r ∈ processes, ∀ m, ¬ did r logs.length m) :
    Attributed did (logs ++ [[]]) processes := by
  intro k log hlog
  rw [List.getElem?_append] at hlog
  split at hlog
  case isTrue => exact h k log hlog
  case isFalse hge =>
    have hk : k = logs.length := by
      have hlt := (List.getElem?_eq_some_iff.mp hlog).1
      rw [List.length_singleton] at hlt
      omega
    obtain rfl := List.mem_singleton.mp (List.mem_of_getElem? hlog)
    subst hk
    refine ⟨List.nodup_nil, fun i m => ?_⟩
    simp only [List.not_mem_nil, false_iff, not_exists, not_and]
    exact fun r hr => hnew r (List.mem_of_getElem? hr) m

end Attributed

/-- The entries of process `i`. -/
def entriesOf (log : List (ℕ × M)) (i : ℕ) : List M :=
  (log.filter fun entry => entry.1 = i).map Prod.snd

theorem entriesOf_append (log more : List (ℕ × M)) (i : ℕ) :
    entriesOf (log ++ more) i = entriesOf log i ++ entriesOf more i := by
  rw [entriesOf, List.filter_append, List.map_append, entriesOf, entriesOf]

/-- All these entries are made by process `i`. -/
theorem entriesOf_map (entries : List M) (i j : ℕ) :
    entriesOf (entries.map fun entry => (i, entry)) j =
      if i = j then entries else [] := by
  rw [entriesOf, List.filter_map, List.map_map]
  by_cases hj : i = j
  · subst hj
    simp [Function.comp_def]
  · simp [Function.comp_def, hj]

/-- The entries of a process are those that `told` gives of its state. -/
structure Told (told : P → List M) (log : List (ℕ × M))
    (processes : List P) : Prop where
  inside : ∀ entry ∈ log, entry.1 < processes.length
  entries : ∀ i p, processes[i]? = some p → entriesOf log i = told p

namespace Told

variable {told : P → List M} {log : List (ℕ × M)} {processes : List P}
  {i : ℕ} {p q : P}

/-- A process moves, and makes the entries that it has to tell. -/
theorem advance (h : Told told log processes) (hp : processes[i]? = some p)
    {more : List M} (hq : told q = told p ++ more) :
    Told told (log ++ more.map fun entry => (i, entry))
      (processes.set i q) := by
  have hlt := (List.getElem?_eq_some_iff.mp hp).1
  constructor
  · intro entry hentry
    rw [List.length_set]
    rcases List.mem_append.mp hentry with hold | hnew
    · exact h.inside entry hold
    · obtain ⟨_, -, rfl⟩ := List.mem_map.mp hnew
      exact hlt
  · intro j r hr
    rw [entriesOf_append, entriesOf_map]
    rcases getElem?_set_cases hr with ⟨rfl, rfl⟩ | ⟨hj, hold⟩
    · rw [if_pos rfl, h.entries j p hp, hq]
    · rw [if_neg (Ne.symm hj), List.append_nil, h.entries j r hold]

/-- A process moves and makes no entry. -/
theorem keep (h : Told told log processes) (hp : processes[i]? = some p)
    (hq : told q = told p) : Told told log (processes.set i q) := by
  have hnone : told q = told p ++ [] := by rw [hq, List.append_nil]
  simpa using h.advance hp hnone

/-- A new process has nothing to tell. -/
theorem launch (h : Told told log processes) (hp : told p = []) :
    Told told log (processes ++ [p]) := by
  constructor
  · intro entry hentry
    have hlt := h.inside entry hentry
    rw [List.length_append]
    omega
  · intro i r hr
    rw [List.getElem?_append] at hr
    split at hr
    case isTrue => exact h.entries i r hr
    case isFalse hge =>
      obtain rfl := List.mem_singleton.mp (List.mem_of_getElem? hr)
      rw [hp, entriesOf, List.map_eq_nil_iff, List.filter_eq_nil_iff]
      intro entry hentry
      have hlt := h.inside entry hentry
      simp only [decide_eq_true_eq]
      omega

end Told

end MyFreeLib
