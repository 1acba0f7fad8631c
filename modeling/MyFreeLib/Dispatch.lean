/-
Messages that senders hand to numbered boxes.  Each sender has the fates of its
messages, in order: the box that one went to, or none for one that was lost.
The boxes log the messages by sender and number.
-/
import MyFreeLib.ProcessTable

namespace MyFreeLib

universe u

variable {P : Type u}

/-- The boxes hold exactly the messages with that fate, each once, and those of
one sender in order. -/
def Dispatched (fates : P → List (Option ℕ)) (logs : List (List (ℕ × ℕ)))
    (senders : List P) : Prop :=
  ∀ (k : ℕ) (log : List (ℕ × ℕ)), logs[k]? = some log →
    (log.Pairwise fun a b => a.1 = b.1 → a.2 < b.2) ∧
    ∀ i n : ℕ, (i, n) ∈ log ↔
      ∃ p, senders[i]? = some p ∧ (fates p)[n]? = some (some k)

/-- One after another to boxes among the first `boxes`, never back to an
earlier one. -/
def Onward (boxes : ℕ) (fates : List (Option ℕ)) : Prop :=
  (fates.filterMap id).Pairwise (· ≤ ·) ∧ ∀ k, some k ∈ fates → k < boxes

namespace Onward

variable {boxes more : ℕ} {fates : List (Option ℕ)}

theorem nil (boxes : ℕ) : Onward boxes [] := ⟨.nil, by simp⟩

theorem mono (h : Onward boxes fates) (hle : boxes ≤ more) :
    Onward more fates :=
  ⟨h.1, fun k hk => (h.2 k hk).trans_le hle⟩

theorem lost (h : Onward boxes fates) : Onward boxes (fates ++ [none]) := by
  refine ⟨?_, fun k hk => ?_⟩
  · rw [List.filterMap_append]
    simpa using h.1
  · rw [List.mem_append] at hk
    exact h.2 k (hk.resolve_right (by simp))

/-- The last box is not an earlier one. -/
theorem deliver {k : ℕ} (h : Onward boxes fates) (hk : k + 1 = boxes) :
    Onward boxes (fates ++ [some k]) := by
  refine ⟨?_, fun j hj => ?_⟩
  · rw [List.filterMap_append, List.pairwise_append]
    refine ⟨h.1, by simp, fun j hj l hl => ?_⟩
    obtain ⟨fate, hfate, hj⟩ := List.mem_filterMap.mp hj
    rw [id_eq] at hj
    subst hj
    have hlt := h.2 j hfate
    obtain rfl : l = k := by simpa using hl
    omega
  · rw [List.mem_append, List.mem_singleton] at hj
    rcases hj with hj | hj
    · exact h.2 j hj
    · rw [Option.some.injEq] at hj
      omega

end Onward

namespace Dispatched

variable {fates : P → List (Option ℕ)} {logs : List (List (ℕ × ℕ))}
  {senders : List P} {i : ℕ} {p q : P}

theorem start : Dispatched fates [] senders := by
  intro k log hlog
  simp at hlog

/-- What the fates of a sender say of one message. -/
theorem fate_set (hp : senders[i]? = some p) {k j n : ℕ} :
    (∃ r, (senders.set i q)[j]? = some r ∧ (fates r)[n]? = some (some k)) ↔
      if j = i then (fates q)[n]? = some (some k)
      else ∃ r, senders[j]? = some r ∧ (fates r)[n]? = some (some k) := by
  by_cases hj : j = i
  · subst hj
    have hlt := (List.getElem?_eq_some_iff.mp hp).1
    simp [hlt]
  · rw [if_neg hj, List.getElem?_set_ne (Ne.symm hj)]

theorem keep (h : Dispatched fates logs senders)
    (hp : senders[i]? = some p)
    (hq : ∀ n k : ℕ,
      (fates q)[n]? = some (some k) ↔ (fates p)[n]? = some (some k)) :
    Dispatched fates logs (senders.set i q) := by
  intro k log hlog
  obtain ⟨hordered, hmem⟩ := h k log hlog
  refine ⟨hordered, fun j n => ?_⟩
  rw [hmem j n, fate_set hp]
  split
  case isTrue hj =>
    subst hj
    simp [hp, hq]
  case isFalse => rfl

/-- One message more, and it is lost. -/
theorem lost (h : Dispatched fates logs senders) (hp : senders[i]? = some p)
    (hq : fates q = fates p ++ [none]) :
    Dispatched fates logs (senders.set i q) := by
  refine h.keep hp fun n k => ?_
  rw [hq, List.getElem?_append]
  split
  case isTrue => rfl
  case isFalse hn =>
    rw [List.getElem?_eq_none (Nat.le_of_not_lt hn)]
    cases hrest : n - (fates p).length <;> simp

/-- One message more, and box `k` has it. -/
theorem deliver (h : Dispatched fates logs senders)
    (hp : senders[i]? = some p) {k : ℕ} {log : List (ℕ × ℕ)}
    (hlog : logs[k]? = some log) (hq : fates q = fates p ++ [some k]) :
    Dispatched fates (logs.set k (log ++ [(i, (fates p).length)]))
      (senders.set i q) := by
  intro j other hother
  have hfate (n l : ℕ) : (fates q)[n]? = some (some l) ↔
      (fates p)[n]? = some (some l) ∨ n = (fates p).length ∧ l = k := by
    rw [hq, List.getElem?_append]
    split
    case isTrue hn => simp [hn.ne]
    case isFalse hn =>
      rw [List.getElem?_eq_none (Nat.le_of_not_lt hn)]
      cases hrest : n - (fates p).length with
      | zero =>
          have heq : n = (fates p).length := by omega
          simp [heq, eq_comm]
      | succ m =>
          have hne : n ≠ (fates p).length := by omega
          simp [hne]
  have hhad (j n : ℕ) : (∃ r, senders[j]? = some r ∧
      (fates r)[n]? = some (some k)) → j = i → n < (fates p).length := by
    rintro ⟨r, hr, hn⟩ rfl
    obtain rfl := Option.some.inj (hp.symm.trans hr)
    exact (List.getElem?_eq_some_iff.mp hn).1
  rcases getElem?_set_cases hother with ⟨rfl, rfl⟩ | ⟨hj, hold⟩
  · obtain ⟨hordered, hmem⟩ := h j log hlog
    refine ⟨?_, fun l n => ?_⟩
    · rw [List.pairwise_append]
      refine ⟨hordered, by simp, ?_⟩
      rintro ⟨l, n⟩ hentry b hb heq
      obtain rfl := List.mem_singleton.mp hb
      exact hhad l n ((hmem l n).mp hentry) heq
    · rw [List.mem_append, List.mem_singleton, hmem l n, fate_set hp,
        Prod.mk.injEq]
      split
      case isTrue hl =>
        subst hl
        simp [hp, hfate]
      case isFalse hl => simp [hl]
  · obtain ⟨hordered, hmem⟩ := h j other hold
    refine ⟨hordered, fun l n => ?_⟩
    rw [hmem l n, fate_set hp]
    split
    case isTrue hl =>
      subst hl
      simp [hp, hfate, hj]
    case isFalse => rfl

/-- A new sender has sent nothing. -/
theorem launch (h : Dispatched fates logs senders) (hp : fates p = []) :
    Dispatched fates logs (senders ++ [p]) := by
  intro k log hlog
  obtain ⟨hordered, hmem⟩ := h k log hlog
  refine ⟨hordered, fun i n => (hmem i n).trans ⟨?_, ?_⟩⟩
  · rintro ⟨r, hr, hn⟩
    exact ⟨r, getElem?_of_front (List.prefix_append _ _) hr, hn⟩
  · rintro ⟨r, hr, hn⟩
    rw [List.getElem?_append] at hr
    split at hr
    case isTrue => exact ⟨r, hr, hn⟩
    case isFalse =>
      obtain rfl := List.mem_singleton.mp (List.mem_of_getElem? hr)
      simp [hp] at hn

/-- Nobody has sent anything to a new box. -/
theorem create (h : Dispatched fates logs senders)
    (hknown : ∀ r ∈ senders, Onward logs.length (fates r)) :
    Dispatched fates (logs ++ [[]]) senders := by
  intro k log hlog
  rw [List.getElem?_append] at hlog
  split at hlog
  case isTrue => exact h k log hlog
  case isFalse hge =>
    obtain rfl := List.mem_singleton.mp (List.mem_of_getElem? hlog)
    refine ⟨.nil, fun i n => iff_of_false (by simp) ?_⟩
    rintro ⟨r, hr, hn⟩
    have hlt := (hknown r (List.mem_of_getElem? hr)).2 k
      (List.mem_of_getElem? hn)
    omega

end Dispatched

end MyFreeLib
