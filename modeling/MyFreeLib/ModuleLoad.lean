/-
Loads of a kernel module.  Its init function makes fallible calls that register
something, its error paths and its exit function make calls that give it back,
and other modules register and release resources between any two of them.
-/
import MyFreeLib.KernelRegistry
import MyFreeLib.LabelledRun

namespace MyFreeLib

universe u

/-! ### Other modules -/

/-- Whose registration it is: that of one load of the driver at hand, or of
some other module. -/
inductive Module
  | driver (load : ℕ)
  | other (id : ℕ)
deriving DecidableEq, Repr

def Module.IsDriver : Module → Bool
  | .driver _ => true
  | .other _ => false

/-- What another module does in between. -/
inductive Change
  | register (id : ℕ) (resource : Resource)
  | release (id : ℕ) (resource : Resource)
deriving DecidableEq, Repr

/-- The kernel refuses a region that overlaps one it has. -/
def Change.Allowed (registry : Registry Module) : Change → Prop
  | .register _ resource => Free resource registry
  | .release _ _ => True

instance (registry : Registry Module) :
    ∀ change : Change, Decidable (change.Allowed registry)
  | .register _ resource => inferInstanceAs (Decidable (Free resource _))
  | .release _ _ => isTrue trivial

def Change.apply (registry : Registry Module) : Change → Registry Module
  | .register id resource => ⟨.other id, resource⟩ :: registry
  | .release id resource =>
      MyFreeLib.release (.other id) (fun r => r = resource) registry

theorem Change.held_apply (load : ℕ) (registry : Registry Module)
    (change : Change) :
    held (.driver load) (change.apply registry) =
      held (.driver load) registry := by
  have hne (id : ℕ) : Module.other id ≠ .driver load := Module.noConfusion
  cases change with
  | register id resource => exact held_cons_of_ne (hne id) resource registry
  | release id resource =>
      simp only [apply]
      exact held_release_of_ne (hne id) _ registry

theorem Change.others_apply (load : ℕ) (registry : Registry Module)
    (change : Change) :
    others (.driver load) (change.apply registry) =
      change.apply (others (.driver load) registry) := by
  have hne (id : ℕ) : Module.other id ≠ .driver load := Module.noConfusion
  cases change with
  | register id resource => exact others_cons_of_ne (hne id) resource registry
  | release id resource =>
      simp only [apply]
      exact others_release_comm (.driver load) (.other id) _ registry

theorem Change.apart_apply {registry : Registry Module} {change : Change}
    (h : Apart registry) (hallowed : change.Allowed registry) :
    Apart (change.apply registry) := by
  cases change with
  | register id resource => exact h.cons hallowed
  | release id resource => exact h.filter _

theorem Change.mem_apply {registry : Registry Module} {change : Change}
    {load : ℕ} {resource : Resource}
    (h : ⟨.driver load, resource⟩ ∈ change.apply registry) :
    ⟨.driver load, resource⟩ ∈ registry := by
  rw [← mem_held, change.held_apply, mem_held] at h
  exact h

/-! ### Loads -/

/-- The registry is the one without the current load and, besides, what this
load holds. -/
structure Tracks (registry before : Registry Module) (load : ℕ)
    (holding : List Resource) : Prop where
  apart : Apart registry
  others : others (.driver load) registry = before
  fresh : ∀ resource load', ⟨.driver load', resource⟩ ∈ registry →
    load' ≤ load
  held : held (.driver load) registry = holding

namespace Tracks

variable {registry before : Registry Module} {load : ℕ}
  {holding : List Resource}

theorem mem_iff (h : Tracks registry before load holding)
    {resource : Resource} :
    ⟨.driver load, resource⟩ ∈ registry ↔ resource ∈ holding := by
  rw [← mem_held, h.held]

theorem eq_before_iff (h : Tracks registry before load holding) :
    registry = before ↔ holding = [] := by
  rw [← h.others, eq_others_iff, h.held]

theorem register (h : Tracks registry before load holding)
    {resource : Resource} (hfree : Free resource registry) :
    Tracks (⟨.driver load, resource⟩ :: registry) before load
      (resource :: holding) := by
  constructor
  · exact h.apart.cons hfree
  · rw [others_cons_self, h.others]
  · intro resource load' hmem
    rcases List.mem_cons.mp hmem with heq | hmem
    · simp only [Entry.mk.injEq, Module.driver.injEq] at heq
      exact Nat.le_of_eq heq.1
    · exact h.fresh resource load' hmem
  · rw [held_cons_self, h.held]

theorem release (h : Tracks registry before load holding)
    (gone : Resource → Bool) :
    Tracks (release (.driver load) gone registry) before load
      (holding.filter fun resource => !gone resource) := by
  constructor
  · exact h.apart.filter _
  · rw [others_release_self, h.others]
  · intro resource load' hmem
    exact h.fresh resource load' (List.mem_filter.mp hmem).1
  · rw [held_release_self, h.held]

/-- A release that takes off the resource of one call and nothing else of the
load. -/
theorem undo {Call : Type u} [DecidableEq Call] {resource : Call → Resource}
    {calls : List Call}
    (h : Tracks registry before load (calls.map resource))
    {gone : Resource → Bool} {call : Call}
    (hgone : ∀ call', gone (resource call') = decide (call' = call)) :
    Tracks (MyFreeLib.release (.driver load) gone registry) before load
      ((calls.filter (· ≠ call)).map resource) := by
  have hleft : (calls.map resource).filter (fun r => !gone r) =
      (calls.filter (· ≠ call)).map resource := by
    rw [List.filter_map]
    congr 1
    refine List.filter_congr fun call' _ => ?_
    simp [hgone]
  rw [← hleft]
  exact h.release gone

theorem change (h : Tracks registry before load holding) {change : Change}
    (hallowed : change.Allowed registry) :
    Tracks (change.apply registry) (change.apply before) load holding := by
  constructor
  · exact change.apart_apply h.apart hallowed
  · rw [change.others_apply, h.others]
  · intro resource load' hmem
    exact h.fresh resource load' (change.mem_apply hmem)
  · rw [change.held_apply, h.held]

/-- A load that begins holds nothing yet, whatever earlier loads have left. -/
theorem begin (h : Tracks registry before load holding) :
    Tracks registry registry (load + 1) [] := by
  have hnone : MyFreeLib.held (.driver (load + 1)) registry = [] := by
    refine List.eq_nil_iff_forall_not_mem.mpr fun resource hmem => ?_
    have hle := h.fresh resource (load + 1) (mem_held.mp hmem)
    omega
  refine ⟨h.apart, (eq_others_iff.mpr hnone).symm, ?_, hnone⟩
  intro resource load' hmem
  exact Nat.le_succ_of_le (h.fresh resource load' hmem)

end Tracks

/-! ### The calls of a module -/

/-- What the fallible calls register when the module has the major number, and
what of the module's own resources the releasing calls take off. -/
structure Calls (Acquire Release : Type) [DecidableEq Acquire] where
  resource : ℕ → Acquire → Resource
  gone : ℕ → Release → Resource → Bool
  /-- The call whose resource is released. -/
  undoes : Release → Acquire
  gone_resource : ∀ major r a,
    gone major r (resource major a) = decide (a = undoes r)
  undone : Function.Surjective undoes
  count_pos : ∀ major a first count,
    resource major a = .region first count → 0 < count

variable {Acquire Release Step : Type} [DecidableEq Acquire]

namespace Calls

variable (calls : Calls Acquire Release)

/-- No two calls register the same, since another call undoes each. -/
theorem resource_injective (major : ℕ) :
    Function.Injective (calls.resource major) := by
  intro a b h
  obtain ⟨r, rfl⟩ := calls.undone a
  have hsame := calls.gone_resource major r (calls.undoes r)
  rw [h, calls.gone_resource] at hsame
  simpa [eq_comm] using hsame

/-- A region is unregistered by its number, whoever has it. -/
def run (owner : Module) (major : ℕ) (registry : Registry Module)
    (r : Release) : Registry Module :=
  match calls.resource major (calls.undoes r) with
  | .region first count => unregisterRegion first count registry
  | _ => release owner (calls.gone major r) registry

end Calls

/-- Where a module stands: before a fallible call, on an error path or in its
exit function with the releasing calls that are left, or between two loads. -/
inductive LoadPc (Step Release : Type)
  | unloaded
  | init (step : Step)
  | failing (todo : List Release) (ret : ℤ)
  | loadFailed (ret : ℤ)
  | loaded
  | exiting (todo : List Release)
deriving DecidableEq, Repr

/-- No load is under way and none succeeded last. -/
def LoadPc.Idle : LoadPc Step Release → Bool
  | .unloaded | .loadFailed _ => true
  | _ => false

/-- `before` is the registry without the current load: what it was when the
load began, and since then every change by another module. -/
structure LoadState (Step Release : Type) where
  registry : Registry Module
  before : Registry Module
  load : ℕ
  major : ℕ
  pc : LoadPc Step Release
deriving DecidableEq, Repr

namespace LoadState

def start : LoadState Step Release :=
  { registry := []
    before := []
    load := 0
    major := 0
    pc := .unloaded }

/-- A load begins with the fallible call `first`. -/
def begin (s : LoadState Step Release) (first : Step) :
    Option (LoadState Step Release) :=
  if s.pc.Idle then
    some { s with
      before := s.registry
      load := s.load + 1
      pc := .init first }
  else none

/-- The resource is registered and the load goes on at `pc`. -/
def register (s : LoadState Step Release) (resource : Resource)
    (pc : LoadPc Step Release) : LoadState Step Release :=
  { s with
    registry := ⟨.driver s.load, resource⟩ :: s.registry
    pc := pc }

/-- The registry after a releasing call of the current load. -/
def released (calls : Calls Acquire Release) (s : LoadState Step Release)
    (r : Release) : Registry Module :=
  calls.run (.driver s.load) s.major s.registry r

/-- The next call of an error path or of the exit function, or its return. -/
def release (calls : Calls Acquire Release) (s : LoadState Step Release) :
    Option (LoadState Step Release) :=
  match s.pc with
  | .failing (r :: todo) ret =>
      some { s with registry := s.released calls r, pc := .failing todo ret }
  | .failing [] ret => some { s with pc := .loadFailed ret }
  | .exiting (r :: todo) =>
      some { s with registry := s.released calls r, pc := .exiting todo }
  | .exiting [] => some { s with pc := .unloaded }
  | _ => none

/-- The exit function of a module that is loaded is called. -/
def unload (s : LoadState Step Release) (exitCalls : List Release) :
    Option (LoadState Step Release) :=
  match s.pc with
  | .loaded => some { s with pc := .exiting exitCalls }
  | _ => none

def change (s : LoadState Step Release) (change : Change) :
    Option (LoadState Step Release) :=
  if change.Allowed s.registry then
    some { s with
      registry := change.apply s.registry
      before := change.apply s.before }
  else none

/-- The current load holds what these calls have registered. -/
def Holds (calls : Calls Acquire Release) (s : LoadState Step Release)
    (holding : List Acquire) : Prop :=
  Tracks s.registry s.before s.load (holding.map (calls.resource s.major))

variable {calls : Calls Acquire Release} {s t : LoadState Step Release}
  {holding : List Acquire}

theorem start_holds (calls : Calls Acquire Release) :
    (start : LoadState Step Release).Holds calls [] :=
  ⟨List.Pairwise.nil, rfl, by simp [start], rfl⟩

/-- A load that begins holds nothing yet, whatever earlier loads have left. -/
theorem Holds.begin (h : s.Holds calls holding) {first : Step}
    (hbegin : s.begin first = some t) : t.Holds calls [] := by
  obtain ⟨-, rfl⟩ := guarded_eq_some.mp hbegin
  exact Tracks.begin h

theorem Holds.change (h : s.Holds calls holding) {change : Change}
    (hchange : s.change change = some t) : t.Holds calls holding := by
  obtain ⟨hallowed, rfl⟩ := guarded_eq_some.mp hchange
  exact Tracks.change h hallowed

theorem Holds.register (h : s.Holds calls holding) {a : Acquire}
    (hfree : Free (calls.resource s.major a) s.registry)
    (pc : LoadPc Step Release) :
    (s.register (calls.resource s.major a) pc).Holds calls (a :: holding) :=
  Tracks.register h hfree

/-- A call that releases what its counterpart has registered: a region only if
the load still has it. -/
theorem Holds.released (h : s.Holds calls holding) {r : Release}
    (hregion : (calls.resource s.major (calls.undoes r)).regionMajor.isSome →
      calls.undoes r ∈ holding) (pc : LoadPc Step Release) :
    Holds calls { s with registry := s.released calls r, pc := pc }
      (holding.filter (· ≠ calls.undoes r)) := by
  have hgone := calls.gone_resource s.major r
  unfold LoadState.released Calls.run
  split
  case h_1 first count hresource =>
    rw [hresource] at hregion
    have hmem : ⟨.driver s.load, .region first count⟩ ∈ s.registry := by
      rw [h.mem_iff, ← hresource]
      exact List.mem_map_of_mem (hregion rfl)
    rw [unregisterRegion_eq_release h.apart
      (calls.count_pos _ _ _ _ hresource) hmem]
    have hsame (a : Acquire) : decide (calls.resource s.major a =
        .region first count) = decide (a = calls.undoes r) := by
      rw [← hresource]
      simp only [(calls.resource_injective s.major).eq_iff]
    have hundo : Tracks (MyFreeLib.release (.driver s.load)
        (fun r => r = .region first count) s.registry) s.before s.load
          ((holding.filter (· ≠ calls.undoes r)).map
            (calls.resource s.major)) := Tracks.undo h hsame
    exact hundo
  case h_2 => exact Tracks.undo h hgone

/-- The calls that are left are made one by one. -/
theorem release_cases (h : s.release calls = some t) :
    (∃ r todo ret, s.pc = .failing (r :: todo) ret ∧ t = { s with
      registry := s.released calls r
      pc := .failing todo ret }) ∨
    (∃ ret, s.pc = .failing [] ret ∧ t = { s with pc := .loadFailed ret }) ∨
    (∃ r todo, s.pc = .exiting (r :: todo) ∧ t = { s with
      registry := s.released calls r
      pc := .exiting todo }) ∨
    s.pc = .exiting [] ∧ t = { s with pc := .unloaded } := by
  unfold release at h
  split at h
  case h_1 r todo ret hpc =>
    exact Or.inl ⟨r, todo, ret, hpc, (Option.some.inj h).symm⟩
  case h_2 ret hpc =>
    exact Or.inr (Or.inl ⟨ret, hpc, (Option.some.inj h).symm⟩)
  case h_3 r todo hpc =>
    exact Or.inr (Or.inr (Or.inl ⟨r, todo, hpc, (Option.some.inj h).symm⟩))
  case h_4 hpc =>
    exact Or.inr (Or.inr (Or.inr ⟨hpc, (Option.some.inj h).symm⟩))
  case h_5 => cases h

theorem unload_eq_some {exitCalls : List Release}
    (h : s.unload exitCalls = some t) :
    s.pc = .loaded ∧ t = { s with pc := .exiting exitCalls } := by
  unfold unload at h
  split at h
  case h_1 hpc => exact ⟨hpc, (Option.some.inj h).symm⟩
  case h_2 => cases h

end LoadState

end MyFreeLib
