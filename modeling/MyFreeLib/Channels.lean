/-
What processes hand things over by: objects under one name, a buffer with room
for one item, messages under way in a network, and mailboxes with one sender
each.
-/
import MyFreeLib.LabelledRun
import MyFreeLib.ProcessTable
import Mathlib.Data.List.Nodup
import Mathlib.Logic.Function.Basic

namespace MyFreeLib

universe u v

/-! ### Objects under a name -/

/-- Objects under one name, numbered in the order of their creation.  The name
can be taken away and given to a new object; whoever has an old one open keeps
it. -/
structure NamedObjects (α : Type u) where
  objects : List α
  named : Option ℕ
  newest : ∀ k, named = some k → k + 1 = objects.length

namespace NamedObjects

variable {α : Type u}

def empty : NamedObjects α := ⟨[], none, by simp⟩

/-- A new object takes the name, which must be free. -/
def create (store : NamedObjects α) (x : α) : Option (NamedObjects α) :=
  if store.named = none then
    some ⟨store.objects ++ [x], some store.objects.length,
      fun _ h => by rw [← Option.some.inj h, List.length_append,
        List.length_singleton]⟩
  else none

def unlink (store : NamedObjects α) : NamedObjects α :=
  ⟨store.objects, none, by simp⟩

def set (store : NamedObjects α) (k : ℕ) (x : α) : NamedObjects α :=
  ⟨store.objects.set k x, store.named, fun j h => by
    rw [List.length_set]
    exact store.newest j h⟩

@[simp] theorem empty_objects : (empty : NamedObjects α).objects = [] := rfl

@[simp] theorem set_objects (store : NamedObjects α) (k : ℕ) (x : α) :
    (store.set k x).objects = store.objects.set k x := rfl

theorem create_eq_some {store after : NamedObjects α} {x : α}
    (h : store.create x = some after) :
    after.objects = store.objects ++ [x] ∧
      after.named = some store.objects.length := by
  obtain ⟨-, hafter⟩ := Option.ite_none_right_eq_some.mp h
  rw [← Option.some.inj hafter]
  exact ⟨rfl, rfl⟩

end NamedObjects

/-! ### One slot -/

/-- A buffer with room for one item, as a machine of its own: storing needs an
empty slot, taking a full one.  `stored` and `taken` are everything that went
in and came out so far. -/
structure OneSlot (α : Type u) where
  slot : Option α
  stored : List α
  taken : List α

namespace OneSlot

variable {α : Type u}

inductive Action (α : Type u)
  | store (item : α)
  | take

def empty : OneSlot α := ⟨none, [], []⟩

def next (s : OneSlot α) : Action α → Option (OneSlot α)
  | .store item =>
      match s.slot with
      | none => some { s with slot := some item, stored := s.stored ++ [item] }
      | some _ => none
  | .take =>
      match s.slot with
      | none => none
      | some item => some { s with slot := none, taken := s.taken ++ [item] }

/-- What went in is what came out and then what is still in the slot. -/
def Conserves (s : OneSlot α) : Prop :=
  s.stored = s.taken ++ s.slot.toList

theorem next_conserves (s : OneSlot α) (action : Action α) (t : OneSlot α)
    (hs : s.Conserves) (h : s.next action = some t) : t.Conserves := by
  simp only [Conserves] at hs ⊢
  cases action with
  | store item =>
      cases hslot : s.slot with
      | none =>
          simp only [next, hslot, Option.some.injEq] at h
          simp [← h, hs, hslot]
      | some old => simp [next, hslot] at h
  | take =>
      cases hslot : s.slot with
      | none => simp [next, hslot] at h
      | some item =>
          simp only [next, hslot, Option.some.injEq] at h
          simp [← h, hs, hslot]

theorem exec_conserves {s : OneSlot α} {actions : List (Action α)}
    (hrun : exec next empty actions = some s) : s.Conserves :=
  exec_invariant next_conserves (by simp [Conserves, empty]) hrun

end OneSlot

/-! ### Messages under way -/

/-- Messages under way in a network that keeps no order: everyone who waits has
exactly one message under way, and nobody else has any.  `waits` tells what
each party waits for. -/
structure InFlight {K : Type u} {M : Type v} (waits : K → Option M)
    (flights : List (K × M)) : Prop where
  once : (flights.map Prod.fst).Nodup
  owed : ∀ key message, (key, message) ∈ flights ↔ waits key = some message

namespace InFlight

variable {K : Type u} {M : Type v} {waits : K → Option M}
  {flights : List (K × M)}

/-- Where a message is does not matter. -/
theorem perm (h : InFlight waits flights) {others : List (K × M)}
    (hperm : flights.Perm others) : InFlight waits others := by
  refine ⟨(hperm.map Prod.fst).nodup_iff.mp h.once, ?_⟩
  intro key message
  rw [← hperm.mem_iff]
  exact h.owed key message

/-- Someone who waited for nothing sends a message to get it back. -/
theorem send [DecidableEq K] (h : InFlight waits flights) {key : K}
    (hidle : waits key = none) (message : M) :
    InFlight (Function.update waits key (some message))
      ((key, message) :: flights) := by
  have hfresh : key ∉ flights.map Prod.fst := by
    intro hmem
    obtain ⟨⟨k, m⟩, hm, rfl⟩ := List.mem_map.mp hmem
    rw [(h.owed k m).mp hm] at hidle
    cases hidle
  refine ⟨List.nodup_cons.mpr ⟨hfresh, h.once⟩, ?_⟩
  intro k m
  by_cases hkey : k = key
  · subst hkey
    rw [Function.update_self, List.mem_cons, Prod.mk.injEq]
    constructor
    · rintro (⟨-, rfl⟩ | hmem)
      · rfl
      · exact absurd (List.mem_map_of_mem hmem) hfresh
    · intro hm
      exact Or.inl ⟨rfl, (Option.some.inj hm).symm⟩
  · rw [Function.update_of_ne hkey, ← h.owed k m, List.mem_cons]
    simp [hkey]

/-- A message arrives where it is waited for. -/
theorem arrive [DecidableEq K] {key : K} {message : M}
    (h : InFlight waits ((key, message) :: flights)) :
    InFlight (Function.update waits key none) flights := by
  obtain ⟨hfresh, honce⟩ := List.nodup_cons.mp h.once
  refine ⟨honce, ?_⟩
  intro k m
  by_cases hkey : k = key
  · subst hkey
    rw [Function.update_self]
    constructor
    · intro hmem
      exact absurd (List.mem_map_of_mem hmem) hfresh
    · intro hm
      cases hm
  · rw [Function.update_of_ne hkey, ← h.owed k m, List.mem_cons]
    simp [hkey]

end InFlight

/-! ### Mailboxes -/

/-- Elements that announce more, and one last that does not. -/
inductive Terminated {M : Type u} (more : M → Prop) : List M → Prop
  | last {x : M} (hlast : ¬ more x) : Terminated more [x]
  | cons {x : M} {rest : List M} (hmore : more x)
      (hrest : Terminated more rest) : Terminated more (x :: rest)

namespace Terminated

variable {M : Type u} {more : M → Prop}

theorem concat {front : List M} {x : M} (hfront : ∀ y ∈ front, more y)
    (hlast : ¬ more x) : Terminated more (front ++ [x]) := by
  induction front with
  | nil => exact .last hlast
  | cons y rest ih =>
      rw [List.forall_mem_cons] at hfront
      exact .cons hfront.1 (ih hfront.2)

/-- A terminated stream is not one of elements that all announce more. -/
theorem exists_last {stream : List M} (h : Terminated more stream) :
    ∃ x ∈ stream, ¬ more x := by
  induction h with
  | last hlast => exact ⟨_, List.mem_singleton_self _, hlast⟩
  | cons hmore _ ih =>
      obtain ⟨x, hx, hlast⟩ := ih
      exact ⟨x, List.mem_cons_of_mem _ hx, hlast⟩

/-- Nothing follows the end of a stream. -/
theorem eq_nil_of_append {stream rest : List M}
    (h : Terminated more stream) (hlonger : Terminated more (stream ++ rest)) :
    rest = [] := by
  induction h with
  | last hlast =>
      generalize hwhole : [_] ++ rest = whole at hlonger
      cases hlonger with
      | last => exact (List.cons.inj hwhole).2
      | cons hmore => exact absurd ((List.cons.inj hwhole).1 ▸ hmore) hlast
  | cons hmore _ ih =>
      generalize hwhole : (_ :: _) ++ rest = whole at hlonger
      cases hlonger with
      | last hlast => exact absurd hmore ((List.cons.inj hwhole).1 ▸ hlast)
      | cons _ hlater =>
          obtain ⟨-, rfl⟩ := List.cons.inj hwhole
          exact ih hlater

end Terminated

/-- Every mailbox has one owner and at most one sender; what has arrived in it
is what its sender has sent, and without a sender nothing has arrived. -/
structure Matched {K : Type u} {M : Type v}
    (senders receivers : List (K × List M)) : Prop where
  oneSender : (senders.map Prod.fst).Nodup
  oneOwner : (receivers.map Prod.fst).Nodup
  same : ∀ o ∈ senders, ∀ i ∈ receivers, o.1 = i.1 → o.2 = i.2
  idle : ∀ i ∈ receivers, i.1 ∉ senders.map Prod.fst → i.2 = []

namespace Matched

variable {K : Type u} {M : Type v} {senders receivers : List (K × List M)}

theorem nil : Matched ([] : List (K × List M)) [] := by
  constructor <;> simp

theorem addReceiver (h : Matched senders receivers) {key : K}
    (hsender : key ∉ senders.map Prod.fst)
    (hfresh : key ∉ receivers.map Prod.fst) :
    Matched senders (receivers ++ [(key, [])]) := by
  refine ⟨h.oneSender, ?_, ?_, ?_⟩
  · rw [List.map_append]
    apply h.oneOwner.append (List.nodup_singleton key)
    simpa using hfresh
  · intro o ho
    apply forall_mem_concat (h.same o ho)
    rintro rfl
    exact absurd (List.mem_map_of_mem ho) hsender
  · exact forall_mem_concat h.idle fun _ => rfl

theorem addSender (h : Matched senders receivers) {key : K}
    (hfresh : key ∉ senders.map Prod.fst) :
    Matched (senders ++ [(key, [])]) receivers := by
  refine ⟨?_, h.oneOwner, ?_, ?_⟩
  · rw [List.map_append]
    apply h.oneSender.append (List.nodup_singleton key)
    simpa using hfresh
  · apply forall_mem_concat h.same
    intro i hi hkey
    exact (h.idle i hi (hkey ▸ hfresh)).symm
  · intro i hi hkey
    apply h.idle i hi
    intro hmem
    exact hkey (by simp [hmem])

/-- The sender of a mailbox puts a message into it. -/
theorem deliver (h : Matched senders receivers) {j k : ℕ} {key : K}
    {sent arrived : List M} (hj : senders[j]? = some (key, sent))
    (hk : receivers[k]? = some (key, arrived)) (message : M) :
    Matched (senders.set j (key, sent ++ [message]))
      (receivers.set k (key, arrived ++ [message])) := by
  have hsenders : (senders.set j (key, sent ++ [message])).map Prod.fst =
      senders.map Prod.fst := map_set_eq hj rfl
  have hreceivers :
      (receivers.set k (key, arrived ++ [message])).map Prod.fst =
        receivers.map Prod.fst := map_set_eq hk rfl
  have halone (n : ℕ) (o : K × List M) (hne : n ≠ j)
      (hn : senders[n]? = some o) : o.1 ≠ key := by
    intro hkey
    exact hne (index_eq_of_nodup h.oneSender hn hj hkey)
  have hown (n : ℕ) (i : K × List M) (hne : n ≠ k)
      (hn : receivers[n]? = some i) : i.1 ≠ key := by
    intro hkey
    exact hne (index_eq_of_nodup h.oneOwner hn hk hkey)
  refine ⟨hsenders ▸ h.oneSender, hreceivers ▸ h.oneOwner, ?_, ?_⟩
  · intro o ho i hi hkey
    obtain ⟨m, hm⟩ := List.mem_iff_getElem?.mp ho
    obtain ⟨n, hn⟩ := List.mem_iff_getElem?.mp hi
    rcases getElem?_set_cases hm with ⟨rfl, -⟩ | ⟨hmj, hmold⟩
    · rcases getElem?_set_cases hn with ⟨rfl, -⟩ | ⟨hnk, hnold⟩
      · have hequal := h.same _ (List.mem_of_getElem? hj) _
          (List.mem_of_getElem? hk) rfl
        exact congrArg (· ++ [message]) hequal
      · exact absurd hkey.symm (hown n i hnk hnold)
    · rcases getElem?_set_cases hn with ⟨rfl, -⟩ | ⟨hnk, hnold⟩
      · exact absurd hkey (halone m o hmj hmold)
      · exact h.same o (List.mem_of_getElem? hmold) i
          (List.mem_of_getElem? hnold) hkey
  · rw [hsenders]
    intro i hi hkey
    obtain ⟨n, hn⟩ := List.mem_iff_getElem?.mp hi
    rcases getElem?_set_cases hn with ⟨rfl, -⟩ | ⟨hnk, hnold⟩
    · exact absurd (List.mem_map_of_mem (List.mem_of_getElem? hj)) hkey
    · exact h.idle i (List.mem_of_getElem? hnold) hkey

end Matched

end MyFreeLib
