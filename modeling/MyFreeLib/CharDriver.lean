/-
`first_cdev.c` and `helloworld_char_driver.c`: two character drivers with fixed
major numbers, which are loaded and unloaded beside each other and beside other
modules.  They make the same calls, and differ in their number and their
messages.
-/
import MyFreeLib.KernelRegistry
import MyFreeLib.LabelledRun

namespace MyFreeLib

namespace CharDriver

inductive Driver
  | firstCdev
  | helloworldCharDriver
deriving DecidableEq, Repr

/-- `MY_MAJOR_NUM` -/
def myMajorNum : Driver → ℕ
  | .firstCdev => 202
  | .helloworldCharDriver => 222

/-- What is printed when the init function begins and where one of its calls
fails, and when the exit function begins. -/
structure Messages where
  init : String
  regionFails : String
  addFails : String
  exit : String

def Driver.messages : Driver → Messages
  | .firstCdev =>
      { init := "my driver init.\n"
        regionFails := "Unable to allocate mayor number 202\n"
        addFails := "Unable to add cdev\n"
        exit := "my driver exit.\n" }
  | .helloworldCharDriver =>
      { init := "helloworld init.\n"
        regionFails := "register_chrdev_region failed.\n"
        addFails := "cdev_add failed.\n"
        exit := "helloworld exit\n" }

/-- The number `dev` that the driver asks for. -/
def Driver.region (d : Driver) : Resource := .region ⟨myMajorNum d, 0⟩ 1

/-- `my_dev`, which is to serve it. -/
def Driver.cdev (d : Driver) : Resource := .cdev 0 ⟨myMajorNum d, 0⟩ 1

inductive Owner
  | driver (d : Driver)
  | other (id : ℕ)
deriving DecidableEq, Repr

/-- The call that is due; `undo` is the one on the error path. -/
inductive Pc
  | unloaded
  | registerChrdevRegion
  | cdevAdd
  | undo (ret : ℤ)
  | failed (ret : ℤ)
  | loaded
  | cdevDel
  | unregisterChrdevRegion
deriving DecidableEq, Repr

structure State where
  registry : Registry Owner
  pc : Driver → Pc
  log : List (Driver × String)

def start : State := ⟨[], fun _ => .unloaded, []⟩

/-- A driver is loaded, makes its next fallible call or its next releasing
call, or is unloaded; or another module registers or releases a resource. -/
inductive Label
  | load (d : Driver)
  | call (d : Driver) (ret : ℤ)
  | release (d : Driver)
  | unload (d : Driver)
  | otherRegisters (id : ℕ) (resource : Resource)
  | otherReleases (id : ℕ) (resource : Resource)
deriving DecidableEq, Repr

def Pc.Idle : Pc → Bool
  | .unloaded | .failed _ => true
  | _ => false

/-- The driver goes on at `pc`. -/
def State.go (s : State) (d : Driver) (pc : Pc) : State :=
  { s with pc := Function.update s.pc d pc }

def State.prInfo (s : State) (d : Driver) (message : String) : State :=
  { s with log := s.log ++ [(d, message)] }

def State.register (s : State) (owner : Owner) (resource : Resource) : State :=
  { s with registry := ⟨owner, resource⟩ :: s.registry }

/-- `unregister_chrdev_region(dev, 1)` -/
def State.unregister (s : State) (d : Driver) : State :=
  { s with registry := unregisterRegion ⟨myMajorNum d, 0⟩ 1 s.registry }

/-- The init function after its first line; a region that overlaps one that is
registered is refused. -/
def call (s : State) (d : Driver) (ret : ℤ) : Option State :=
  match s.pc d with
  | .registerChrdevRegion =>
      if ret < 0 then
        some ((s.go d (.failed ret)).prInfo d d.messages.regionFails)
      else if Free d.region s.registry then
        some ((s.register (.driver d) d.region).go d .cdevAdd)
      else none
  | .cdevAdd =>
      if ret < 0 then some (s.go d (.undo ret))
      else some ((s.register (.driver d) d.cdev).go d .loaded)
  | _ => none

/-- The error path of `cdev_add`, and the exit function after its first
line. -/
def release (s : State) (d : Driver) : Option State :=
  match s.pc d with
  | .undo ret =>
      some (((s.unregister d).go d (.failed ret)).prInfo d d.messages.addFails)
  | .cdevDel => some ({ s with
      registry := MyFreeLib.release (.driver d) (Resource.IsCdev 0)
        s.registry }.go d .unregisterChrdevRegion)
  | .unregisterChrdevRegion => some ((s.unregister d).go d .unloaded)
  | _ => none

def next (s : State) : Label → Option State
  | .load d =>
      if (s.pc d).Idle then
        some ((s.go d .registerChrdevRegion).prInfo d d.messages.init)
      else none
  | .call d ret => call s d ret
  | .release d => release s d
  | .unload d =>
      if s.pc d = .loaded then
        some ((s.go d .cdevDel).prInfo d d.messages.exit)
      else none
  | .otherRegisters id resource =>
      if Free resource s.registry then
        some (s.register (.other id) resource)
      else none
  | .otherReleases id resource => some { s with
      registry := MyFreeLib.release (.other id) (fun r => r = resource)
        s.registry }

/-- Whose step it is. -/
def Label.driver : Label → Option Driver
  | .load d | .call d _ | .release d | .unload d => some d
  | .otherRegisters _ _ | .otherReleases _ _ => none

/-! ### What a driver holds -/

def Pc.holding (d : Driver) : Pc → List Resource
  | .cdevAdd | .undo _ | .unregisterChrdevRegion => [d.region]
  | .loaded | .cdevDel => [d.cdev, d.region]
  | _ => []

theorem Pc.Idle.holding {pc : Pc} (h : pc.Idle) (d : Driver) :
    pc.holding d = [] := by
  cases pc with
  | unloaded | failed => rfl
  | _ => cases h

structure Inv (s : State) : Prop where
  apart : Apart s.registry
  held : ∀ d, held (.driver d) s.registry = (s.pc d).holding d

/-- The state without one driver: as if it had never been loaded. -/
def State.without (s : State) (d : Driver) : State where
  registry := others (.driver d) s.registry
  pc := Function.update s.pc d .unloaded
  log := s.log.filter fun line => line.1 ≠ d

/-- The step of a driver, which is at `pc` afterwards.  It leaves everybody
else alone. -/
structure Turn (s : State) (d : Driver) (t : State) (pc : Pc) : Prop where
  moved : t.pc = Function.update s.pc d pc
  apart : Apart t.registry
  held : held (.driver d) t.registry = pc.holding d
  others : others (.driver d) t.registry = others (.driver d) s.registry
  log : t.log = s.log ∨ ∃ message, t.log = s.log ++ [(d, message)]

section Turns

variable {s t : State} {d : Driver}

/-- Nothing is registered or released. -/
theorem Inv.stays (hs : Inv s) {pc : Pc} (hpc : t.pc = Function.update s.pc d pc)
    (hregistry : t.registry = s.registry)
    (hholding : pc.holding d = (s.pc d).holding d)
    (hlog : t.log = s.log ∨ ∃ message, t.log = s.log ++ [(d, message)]) :
    Turn s d t pc := by
  refine ⟨hpc, ?_, ?_, ?_, hlog⟩
  · rw [hregistry]
    exact hs.apart
  · rw [hregistry, hholding]
    exact hs.held d
  · rw [hregistry]

theorem Inv.registers (hs : Inv s) {pc : Pc} {resource : Resource}
    (hfree : Free resource s.registry)
    (hholding : pc.holding d = resource :: (s.pc d).holding d) :
    Turn s d ((s.register (.driver d) resource).go d pc) pc := by
  refine ⟨rfl, hs.apart.cons hfree, ?_, others_cons_self _ _ _, Or.inl rfl⟩
  have hheld := held_cons_self (Owner.driver d) resource s.registry
  rw [hs.held d, ← hholding] at hheld
  exact hheld

/-- The driver takes its region off the registry, and nobody else's. -/
theorem Inv.unregisters (hs : Inv s) {pc : Pc}
    (hpc : t.pc = Function.update s.pc d pc)
    (hregistry : t.registry = (s.unregister d).registry)
    (hbefore : (s.pc d).holding d = [d.region]) (hafter : pc.holding d = [])
    (hlog : t.log = s.log ∨ ∃ message, t.log = s.log ++ [(d, message)]) :
    Turn s d t pc := by
  have hheld := hs.held d
  rw [hbefore] at hheld
  have hmem : ⟨.driver d, d.region⟩ ∈ s.registry := by
    rw [← mem_held, hheld]
    exact List.mem_singleton_self _
  rw [State.unregister, unregisterRegion_eq_release hs.apart Nat.one_pos hmem]
    at hregistry
  refine ⟨hpc, ?_, ?_, ?_, hlog⟩
  · rw [hregistry]
    exact hs.apart.filter _
  · rw [hregistry, held_release_self, hheld, hafter]
    simp [Driver.region]
  · rw [hregistry, others_release_self]

theorem call_turn {ret : ℤ} (hs : Inv s) (h : call s d ret = some t) :
    ∃ pc, Turn s d t pc := by
  unfold call at h
  split at h
  case h_1 hpc =>
    split at h
    case isTrue =>
      cases h
      exact ⟨_, hs.stays rfl rfl (by rw [hpc]; rfl) (Or.inr ⟨_, rfl⟩)⟩
    case isFalse =>
      obtain ⟨hfree, rfl⟩ := guarded_eq_some.mp h
      exact ⟨_, hs.registers hfree (by rw [hpc]; rfl)⟩
  case h_2 hpc =>
    split at h
    case isTrue =>
      cases h
      exact ⟨_, hs.stays rfl rfl (by rw [hpc]; rfl) (Or.inl rfl)⟩
    case isFalse =>
      cases h
      exact ⟨_, hs.registers (free_of_regionMajor rfl) (by rw [hpc]; rfl)⟩
  case h_3 => cases h

theorem release_turn (hs : Inv s) (h : release s d = some t) :
    ∃ pc, Turn s d t pc := by
  unfold release at h
  split at h
  case h_1 hpc =>
    cases h
    exact ⟨_, hs.unregisters rfl rfl (by rw [hpc]; rfl) rfl
      (Or.inr ⟨_, rfl⟩)⟩
  case h_2 hpc =>
    cases h
    refine ⟨_, rfl, hs.apart.filter _, ?_, others_release_self _ _ _,
      Or.inl rfl⟩
    have hheld := held_release_self (.driver d) (Resource.IsCdev 0) s.registry
    rw [hs.held d, hpc] at hheld
    exact hheld
  case h_3 hpc =>
    cases h
    exact ⟨_, hs.unregisters rfl rfl (by rw [hpc]; rfl) rfl (Or.inl rfl)⟩
  case h_4 => cases h

theorem driver_turn {label : Label} (hs : Inv s)
    (hdriver : label.driver = some d) (h : next s label = some t) :
    ∃ pc, Turn s d t pc := by
  cases label with
  | load =>
      cases hdriver
      obtain ⟨hidle, rfl⟩ := guarded_eq_some.mp h
      exact ⟨_, hs.stays rfl rfl (Pc.Idle.holding hidle d).symm
        (Or.inr ⟨_, rfl⟩)⟩
  | call =>
      cases hdriver
      exact call_turn hs h
  | release =>
      cases hdriver
      exact release_turn hs h
  | unload =>
      cases hdriver
      obtain ⟨hpc, rfl⟩ := guarded_eq_some.mp h
      exact ⟨_, hs.stays rfl rfl (by rw [hpc]; rfl) (Or.inr ⟨_, rfl⟩)⟩
  | otherRegisters | otherReleases => cases hdriver

theorem Turn.inv {pc : Pc} (hs : Inv s) (h : Turn s d t pc) : Inv t := by
  refine ⟨h.apart, fun other => ?_⟩
  rw [h.moved]
  by_cases hother : other = d
  · subst hother
    rw [Function.update_self]
    exact h.held
  · have hne : Owner.driver other ≠ .driver d := by simpa using hother
    rw [Function.update_of_ne hother, ← hs.held other,
      ← held_others_of_ne hne t.registry, h.others, held_others_of_ne hne]

end Turns

theorem next_inv {s t : State} {label : Label} (hs : Inv s)
    (h : next s label = some t) : Inv t := by
  cases hdriver : label.driver with
  | some d =>
      obtain ⟨pc, hturn⟩ := driver_turn hs hdriver h
      exact hturn.inv hs
  | none =>
      have hne (id : ℕ) (d : Driver) : Owner.other id ≠ .driver d :=
        Owner.noConfusion
      cases label with
      | otherRegisters id resource =>
          obtain ⟨hfree, rfl⟩ := guarded_eq_some.mp h
          refine ⟨hs.apart.cons hfree, fun d => ?_⟩
          exact (held_cons_of_ne (hne id d) _ _).trans (hs.held d)
      | otherReleases id resource =>
          cases h
          refine ⟨hs.apart.filter _, fun d => ?_⟩
          have hheld := held_release_of_ne (hne id d)
            (fun r => r = resource) s.registry
          exact hheld.trans (hs.held d)
      | _ => cases hdriver

theorem start_inv : Inv start :=
  ⟨List.Pairwise.nil, fun _ => rfl⟩

/-- What the two drivers hold never overlaps. -/
theorem Pc.not_overlaps_holding {d other : Driver} (h : other ≠ d) (pc : Pc)
    {resource : Resource} (hmem : resource ∈ pc.holding other) :
    ¬ d.region.Overlaps resource := by
  have hmajor : myMajorNum d ≠ myMajorNum other := by
    revert h
    cases d <;> cases other <;> decide
  cases pc <;> simp only [Pc.holding, List.mem_cons, List.not_mem_nil,
    or_false] at hmem
  case cdevAdd | undo | unregisterChrdevRegion =>
    subst hmem
    exact fun hover => hmajor hover.1
  case loaded | cdevDel =>
    rcases hmem with rfl | rfl
    · exact fun hover => hover
    · exact fun hover => hmajor hover.1

/-- Only other modules can keep a driver from its number. -/
theorem Inv.free_iff {s : State} {d : Driver} (hs : Inv s)
    (hnone : (s.pc d).holding d = []) : Free d.region s.registry ↔
      ∀ id resource, ⟨.other id, resource⟩ ∈ s.registry →
        ¬ d.region.Overlaps resource := by
  constructor
  · intro hfree id resource hmem
    exact hfree _ hmem
  · rintro hfree ⟨owner, resource⟩ hmem
    cases owner with
    | other id => exact hfree id resource hmem
    | driver other =>
        have hheld := mem_held.mpr hmem
        rw [hs.held other] at hheld
        by_cases hother : other = d
        · subst hother
          rw [hnone] at hheld
          cases hheld
        · exact Pc.not_overlaps_holding hother _ hheld

/-! ### Without one driver -/

section Without

variable {d other : Driver}

theorem State.without_go (s : State) (hne : other ≠ d) (pc : Pc) :
    (s.go other pc).without d = (s.without d).go other pc := by
  simp only [go, without, Function.update_comm hne]

theorem State.without_prInfo (s : State) (hne : other ≠ d)
    (message : String) :
    (s.prInfo other message).without d =
      (s.without d).prInfo other message := by
  simp [prInfo, without, hne]

theorem State.without_register (s : State) {owner : Owner}
    (hne : owner ≠ .driver d) (resource : Resource) :
    (s.register owner resource).without d =
      (s.without d).register owner resource := by
  simp only [register, without, others_cons_of_ne hne]

theorem State.without_unregister (s : State) (d other : Driver) :
    (s.unregister other).without d = (s.without d).unregister other := by
  simp only [unregister, without, others_unregisterRegion]

theorem State.without_pc (s : State) (hne : other ≠ d) :
    (s.without d).pc other = s.pc other :=
  Function.update_of_ne hne _ _

/-- A driver's own step does not show. -/
theorem Turn.without_eq {s t : State} {pc : Pc} (h : Turn s d t pc) :
    t.without d = s.without d := by
  have hlog : (t.log.filter fun line => line.1 ≠ d) =
      s.log.filter fun line => line.1 ≠ d := by
    rcases h.log with hlog | ⟨message, hlog⟩ <;> simp [hlog]
  simp only [State.without, h.others, h.moved, Function.update_idem, hlog]

theorem call_without {s t : State} {ret : ℤ} (hne : other ≠ d)
    (h : call s other ret = some t) :
    call (s.without d) other ret = some (t.without d) := by
  have hdriver : Owner.driver other ≠ .driver d := by simpa using hne
  unfold call at h ⊢
  rw [s.without_pc hne]
  split at h
  case h_1 hpc =>
    split at h
    case isTrue hret =>
      cases h
      simp only [hret, if_true, State.without_prInfo _ hne,
        State.without_go _ hne]
    case isFalse hret =>
      obtain ⟨hfree, rfl⟩ := guarded_eq_some.mp h
      have hstill : Free other.region (s.without d).registry :=
        hfree.others _
      simp only [hret, if_false, hstill, if_true, State.without_go _ hne,
        State.without_register _ hdriver]
  case h_2 hpc =>
    split at h
    case isTrue hret =>
      cases h
      simp only [hret, if_true, State.without_go _ hne]
    case isFalse hret =>
      cases h
      simp only [hret, if_false, State.without_go _ hne,
        State.without_register _ hdriver]
  case h_3 => cases h

theorem release_without {s t : State} (hne : other ≠ d)
    (h : release s other = some t) :
    release (s.without d) other = some (t.without d) := by
  unfold release at h ⊢
  rw [s.without_pc hne]
  split at h
  case h_1 hpc =>
    cases h
    simp only [State.without_prInfo _ hne, State.without_go _ hne,
      State.without_unregister]
  case h_2 hpc =>
    cases h
    simp only [State.without_go _ hne]
    simp only [State.without, others_release_comm]
  case h_3 hpc =>
    cases h
    simp only [State.without_go _ hne, State.without_unregister]
  case h_4 => cases h

/-- Whatever the others can do they could do without the driver. -/
theorem next_without {s t : State} {label : Label}
    (hlabel : label.driver ≠ some d) (h : next s label = some t) :
    next (s.without d) label = some (t.without d) := by
  cases label with
  | load other =>
      have hne : other ≠ d := by simpa [Label.driver] using hlabel
      obtain ⟨hidle, rfl⟩ := guarded_eq_some.mp h
      simp only [next, s.without_pc hne, hidle, if_true,
        State.without_prInfo _ hne, State.without_go _ hne]
  | call other ret =>
      have hne : other ≠ d := by simpa [Label.driver] using hlabel
      exact call_without hne h
  | release other =>
      have hne : other ≠ d := by simpa [Label.driver] using hlabel
      exact release_without hne h
  | unload other =>
      have hne : other ≠ d := by simpa [Label.driver] using hlabel
      obtain ⟨hpc, rfl⟩ := guarded_eq_some.mp h
      simp only [next, s.without_pc hne, hpc, if_true,
        State.without_prInfo _ hne, State.without_go _ hne]
  | otherRegisters id resource =>
      obtain ⟨hfree, rfl⟩ := guarded_eq_some.mp h
      have hstill : Free resource (s.without d).registry := hfree.others _
      simp only [next, hstill, if_true,
        State.without_register _ (Owner.noConfusion : Owner.other id ≠ _)]
  | otherReleases id resource =>
      cases h
      simp only [next, State.without, others_release_comm]

/-- The steps of one driver can be left out of a run. -/
theorem exec_without {s t : State} {labels : List Label} (hs : Inv s)
    (hrun : exec next s labels = some t) :
    exec next (s.without d) (labels.filter fun l => l.driver ≠ some d) =
      some (t.without d) := by
  refine exec_filter (State.without · d) (fun l => l.driver ≠ some d)
    (fun _ _ _ hs h => next_inv hs h) (fun s label t _ hshown h => ?_)
    (fun s label t hs hhidden h => ?_) hs hrun
  · exact next_without (by simpa using hshown) h
  · obtain ⟨pc, hturn⟩ := driver_turn hs (by simpa using hhidden) h
    exact hturn.without_eq

theorem Inv.without_registry {s : State} (hs : Inv s) (hidle : (s.pc d).Idle) :
    (s.without d).registry = s.registry :=
  (eq_others_iff.mpr ((hs.held d).trans (Pc.Idle.holding hidle d))).symm

end Without

/-- However the two drivers are loaded and unloaded beside each other and beside
other modules, and whichever of their calls fail: a driver that is not loaded
and not about to be has nothing registered; a character device of theirs
serves only numbers of a region that its driver holds at that moment, and is
there once the driver is loaded; neither is refused its number because of the
other; whatever the steps of one driver come between, all others have what they
would have without these steps; and where it is loaded, in vain or until it is
unloaded, without any step in between, the registry is as it was. -/
theorem loads_confined {labels : List Label} {s : State}
    (hrun : exec next start labels = some s) :
    (∀ d, (s.pc d).Idle → ∀ e ∈ s.registry, e.owner ≠ .driver d) ∧
    (∀ d object first count,
      ⟨.driver d, .cdev object first count⟩ ∈ s.registry →
        ⟨.driver d, .region first count⟩ ∈ s.registry) ∧
    (∀ d, s.pc d = .loaded → ⟨.driver d, d.cdev⟩ ∈ s.registry) ∧
    (∀ d, s.pc d = .registerChrdevRegion → (Free d.region s.registry ↔
      ∀ id resource, ⟨.other id, resource⟩ ∈ s.registry →
        ¬ d.region.Overlaps resource)) ∧
    (∀ d more t, exec next s more = some t →
      exec next (s.without d) (more.filter fun l => l.driver ≠ some d) =
        some (t.without d) ∧
      ((t.pc d).Idle → (t.without d).registry = t.registry)) ∧
    ∀ d more t, (∀ label ∈ more, label.driver = some d) →
      exec next s more = some t → (s.pc d).Idle → (t.pc d).Idle →
        t.registry = s.registry := by
  have hs := exec_invariant (fun _ _ _ hs h => next_inv hs h) start_inv hrun
  have hlater {more : List Label} {t : State}
      (hmore : exec next s more = some t) : Inv t :=
    exec_invariant (fun _ _ _ hs h => next_inv hs h) hs hmore
  refine ⟨fun d hidle e he howner => ?_, fun d object first count hmem => ?_,
    fun d hpc => ?_, fun d hpc => ?_, fun d more t hmore => ?_,
    fun d more t hdriver hmore hbefore hafter => ?_⟩
  · have hheld : e.resource ∈ held (.driver d) s.registry :=
      mem_held.mpr (howner ▸ he)
    rw [hs.held d, Pc.Idle.holding hidle] at hheld
    cases hheld
  · rw [← mem_held, hs.held d] at hmem ⊢
    cases hpc : s.pc d <;> rw [hpc] at hmem <;>
      simp [Pc.holding, Driver.region, Driver.cdev] at hmem ⊢
    case loaded | cdevDel => exact hmem.2
  · rw [← mem_held, hs.held d, hpc]
    exact List.mem_cons_self
  · exact hs.free_iff (by rw [hpc]; rfl)
  · exact ⟨exec_without hs hmore, (hlater hmore).without_registry⟩
  · -- no step is left over
    have hnone : more.filter (fun l => l.driver ≠ some d) = [] := by
      rw [List.filter_eq_nil_iff]
      intro label hlabel
      simp [hdriver label hlabel]
    have hsame := exec_without (d := d) hs hmore
    rw [hnone, exec_nil, Option.some.injEq] at hsame
    rw [← (hlater hmore).without_registry hafter, ← hsame,
      hs.without_registry hbefore]

/-- Another module takes 202 while `first_cdev` is being loaded, which fails
then; the other driver is loaded in between. -/
def beside : List Label :=
  [.load .firstCdev, .load .helloworldCharDriver,
    .otherRegisters 0 (.region ⟨202, 0⟩ 8), .call .helloworldCharDriver 0,
    .call .firstCdev (-16), .call .helloworldCharDriver 0]

theorem loads_confined_beside :
    ∃ s, exec next start beside = some s ∧
      ∀ e ∈ s.registry, e.owner ≠ .driver .firstCdev := by
  have hrun : exec next start beside = some _ := rfl
  exact ⟨_, hrun, (loads_confined hrun).1 .firstCdev rfl⟩

end CharDriver

end MyFreeLib
