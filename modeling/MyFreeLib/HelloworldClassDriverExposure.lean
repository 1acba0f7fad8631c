/-
Which character devices of the driver are live outside a region.  The error
paths after `class_create` and `device_create` give the region back before
`cdev_del`, `hello_exit` after it: exactly the loads in which neither of the
two calls fails keep `my_dev` inside its region throughout.
-/
import MyFreeLib.HelloworldClassDriver
import Mathlib.Data.List.Infix

namespace MyFreeLib

namespace HelloworldClassDriver

/-! ### What the module holds -/

/-- The fallible calls, the latest first. -/
def allCalls : List Acquire :=
  [.deviceCreate, .classCreate, .cdevAdd, .allocChrdevRegion]

/-- What the current load holds.  On every path down, this is what the calls
still to come release. -/
def holdingAt : Pc → List Acquire
  | .init .cdevAdd => [.allocChrdevRegion]
  | .init .classCreate => [.cdevAdd, .allocChrdevRegion]
  | .init .deviceCreate => [.classCreate, .cdevAdd, .allocChrdevRegion]
  | .loaded => allCalls
  | .failing todo _ | .exiting todo =>
      allCalls.filter (· ∈ todo.map Release.undoes)
  | _ => []

/-- The error paths of `hello_init`. -/
def errorPaths : List (List Release) :=
  [[.unregisterChrdevRegion], [.unregisterChrdevRegion, .cdevDel],
    [.classDestroy, .unregisterChrdevRegion, .cdevDel]]

/-- What is left to do is the end of an error path or of `hello_exit`. -/
def OnPath : Pc → Prop
  | .failing todo _ => ∃ path ∈ errorPaths, todo <:+ path
  | .exiting todo => todo <:+ exitCalls
  | _ => True

theorem undoes_injective : Function.Injective Release.undoes := by
  intro r r' h
  cases r <;> cases r' <;> first | rfl | simp [Release.undoes] at h

theorem mem_allCalls (a : Acquire) : a ∈ allCalls := by
  cases a <;> decide

theorem mem_holding_iff {r : Release} {todo : List Release} :
    r.undoes ∈ allCalls.filter (· ∈ todo.map Release.undoes) ↔ r ∈ todo := by
  rw [List.mem_filter, decide_eq_true_eq,
    List.mem_map_of_injective undoes_injective]
  exact and_iff_right (mem_allCalls r.undoes)

/-- A path makes no call twice. -/
theorem nodup_of_suffix {todo path : List Release}
    (hpath : path ∈ exitCalls :: errorPaths) (h : todo <:+ path) :
    todo.Nodup := by
  have hnodup : ∀ path ∈ exitCalls :: errorPaths, path.Nodup := by decide
  exact (hnodup path hpath).sublist h.sublist

theorem holding_tail {r : Release} {todo : List Release}
    (h : (r :: todo).Nodup) :
    (allCalls.filter (· ∈ (r :: todo).map Release.undoes)).filter
        (· ≠ r.undoes) =
      allCalls.filter (· ∈ todo.map Release.undoes) := by
  rw [List.filter_filter]
  refine List.filter_congr fun a _ => ?_
  have hnew : r.undoes ∉ todo.map Release.undoes := by
    rw [List.mem_map_of_injective undoes_injective]
    exact (List.nodup_cons.mp h).1
  by_cases ha : a = r.undoes
  · simpa [ha] using hnew
  · simp [ha]

/-! ### The registry -/

/-- Between two loads nothing of the driver is registered, and during a load
only what that load holds. -/
structure Inv (s : State) : Prop where
  holds : s.Holds calls (holdingAt s.pc)
  foreign : ∀ e ∈ s.before, ¬e.owner.IsDriver
  path : OnPath s.pc

theorem start_inv : Inv start :=
  ⟨LoadState.start_holds calls, by simp [start, LoadState.start], trivial⟩

/-- What the driver has registered is what its current load holds. -/
theorem Inv.exists_iff {s : State} (hs : Inv s) {resource : Resource} :
    (∃ e ∈ s.registry, e.owner.IsDriver ∧ e.resource = resource) ↔
      ∃ a ∈ holdingAt s.pc, a.resource s.major = resource := by
  have hholds : ⟨.driver s.load, resource⟩ ∈ s.registry ↔
      resource ∈ (holdingAt s.pc).map (Acquire.resource s.major) :=
    hs.holds.mem_iff
  rw [← List.mem_map, ← hholds]
  constructor
  · rintro ⟨⟨owner, resource⟩, hmem, hdriver, rfl⟩
    by_cases howner : owner = .driver s.load
    · exact howner ▸ hmem
    · have hbefore : ⟨owner, resource⟩ ∈ s.before := by
        rw [← hs.holds.others]
        exact List.mem_filter.mpr ⟨hmem, by simpa using howner⟩
      exact absurd hdriver (hs.foreign _ hbefore)
  · intro hheld
    exact ⟨_, hheld, rfl, rfl⟩

theorem Inv.cleared {s : State} (hs : Inv s) : Cleared s := by
  intro hidle e he hdriver
  obtain ⟨a, ha, -⟩ := hs.exists_iff.mp ⟨e, he, hdriver, rfl⟩
  cases hpc : s.pc with
  | unloaded => simp [hpc, holdingAt] at ha
  | loadFailed ret => simp [hpc, holdingAt] at ha
  | _ => simp [hpc, LoadPc.Idle] at hidle

/-- `my_dev` is live only while the region is held. -/
theorem Inv.confined_iff {s : State} (hs : Inv s) :
    Confined s ↔
      (.cdevAdd ∈ holdingAt s.pc → .allocChrdevRegion ∈ holdingAt s.pc) := by
  constructor
  · intro h hlive
    obtain ⟨e, he, hdriver, hcdev⟩ := hs.exists_iff.mpr ⟨_, hlive, rfl⟩
    have hcovered := h e he hdriver
    rw [hcdev] at hcovered
    obtain ⟨e', he', hdriver', hspans⟩ := hcovered
    obtain ⟨a, ha, hregion⟩ := hs.exists_iff.mp ⟨e', he', hdriver', rfl⟩
    rw [← hregion] at hspans
    cases a with
    | allocChrdevRegion => exact ha
    | _ => simp [Acquire.resource, Resource.Spans] at hspans
  · intro h e he hdriver
    obtain ⟨a, ha, hresource⟩ := hs.exists_iff.mp ⟨e, he, hdriver, rfl⟩
    rw [← hresource]
    cases a with
    | cdevAdd =>
        obtain ⟨e', he', hdriver', hregion⟩ :=
          hs.exists_iff.mpr ⟨_, h ha, rfl⟩
        refine ⟨e', he', hdriver', ?_⟩
        simp [hregion, Acquire.resource, Resource.Spans]
    | _ => trivial

/-! ### Steps -/

theorem Inv.moves {s : State} (hs : Inv s) {pc : Pc}
    (hpc : holdingAt pc = holdingAt s.pc) (hpath : OnPath pc) :
    Inv { s with pc := pc } := by
  refine ⟨?_, hs.foreign, hpath⟩
  simp only [hpc]
  exact hs.holds

theorem Inv.register {s : State} (hs : Inv s) {a : Acquire} {pc : Pc}
    (hfree : Free (a.resource s.major) s.registry)
    (hpc : holdingAt pc = a :: holdingAt s.pc) (hpath : OnPath pc) :
    Inv (s.register (a.resource s.major) pc) := by
  refine ⟨?_, hs.foreign, hpath⟩
  simp only [LoadState.register, hpc]
  exact LoadState.Holds.register hs.holds hfree pc

/-- A releasing call of a load that still has what it is to give back. -/
theorem Inv.released {s : State} (hs : Inv s) {r : Release} {pc : Pc}
    (hr : r.undoes ∈ holdingAt s.pc)
    (hpc : holdingAt pc = (holdingAt s.pc).filter (· ≠ r.undoes))
    (hpath : OnPath pc) :
    Inv { s with registry := s.released calls r, pc := pc } := by
  refine ⟨?_, hs.foreign, hpath⟩
  simp only [hpc]
  exact hs.holds.released (fun _ => hr) pc

theorem Inv.acquire {s : State} (hs : Inv s) {a : Acquire} {ret : ℤ} {pc : Pc}
    {undo : List Release} (ha : a ≠ .allocChrdevRegion)
    (hpc : holdingAt pc = a :: holdingAt s.pc) (hpath : OnPath pc)
    (hundo : holdingAt (.failing undo ret) = holdingAt s.pc)
    (herror : undo ∈ errorPaths) : Inv (acquire s a ret pc undo) := by
  rw [HelloworldClassDriver.acquire]
  split
  · exact hs.moves hundo ⟨undo, herror, List.suffix_refl undo⟩
  · refine hs.register (free_of_regionMajor ?_) hpc hpath
    cases a <;> first | rfl | exact absurd rfl ha

theorem helloInit_inv {s t : State} {ret : ℤ} (hs : Inv s)
    (h : helloInit s ret = some t) : Inv t := by
  unfold helloInit at h
  split at h
  case h_1 hpc | h_2 hpc | h_3 hpc =>
    cases h
    exact hs.acquire (by decide) (by rw [hpc]; rfl) trivial
      (by rw [hpc]; rfl) (by decide)
  case h_4 => cases h

/-- The next call of a path gives back what that call is for. -/
theorem Inv.undo {s : State} (hs : Inv s) {r : Release}
    {todo path : List Release} {pc : Pc}
    (hpath : path ∈ exitCalls :: errorPaths) (htodo : r :: todo <:+ path)
    (hbefore : holdingAt s.pc =
      allCalls.filter (· ∈ (r :: todo).map Release.undoes))
    (hafter : holdingAt pc = allCalls.filter (· ∈ todo.map Release.undoes))
    (honPath : OnPath pc) :
    Inv { s with registry := s.released calls r, pc := pc } := by
  refine hs.released ?_ ?_ honPath
  · rw [hbefore]
    exact mem_holding_iff.mpr List.mem_cons_self
  · rw [hafter, hbefore]
    exact (holding_tail (nodup_of_suffix hpath htodo)).symm

theorem release_inv {s t : State} (hs : Inv s)
    (h : s.release calls = some t) : Inv t := by
  have honPath := hs.path
  rcases LoadState.release_cases h with ⟨r, todo, ret, hpc, rfl⟩ |
    ⟨ret, hpc, rfl⟩ | ⟨r, todo, hpc, rfl⟩ | ⟨hpc, rfl⟩ <;> rw [hpc] at honPath
  · obtain ⟨path, herror, htodo⟩ := honPath
    exact hs.undo (List.mem_cons_of_mem _ herror) htodo (by rw [hpc]; rfl)
      rfl ⟨path, herror, (List.suffix_cons r todo).trans htodo⟩
  · exact hs.moves (by rw [hpc]; rfl) trivial
  · exact hs.undo List.mem_cons_self honPath (by rw [hpc]; rfl) rfl
      ((List.suffix_cons r todo).trans honPath)
  · exact hs.moves (by rw [hpc]; rfl) trivial

/-- What other modules register is not the driver's. -/
theorem foreign_change {registry : Registry Module}
    (h : ∀ e ∈ registry, ¬e.owner.IsDriver) (change : Change) :
    ∀ e ∈ change.apply registry, ¬e.owner.IsDriver := by
  intro e he
  cases change with
  | register id resource =>
      rcases List.mem_cons.mp he with rfl | he
      · simp [Module.IsDriver]
      · exact h e he
  | release id resource => exact h e (List.mem_filter.mp he).1

theorem next_inv (s : State) (label : Label) (t : State) (hs : Inv s)
    (h : next s label = some t) : Inv t := by
  cases label with
  | call ret => exact helloInit_inv hs h
  | release => exact release_inv hs h
  | load =>
      have hbegun := hs.holds.begin h
      obtain ⟨hidle, rfl⟩ := guarded_eq_some.mp h
      exact ⟨hbegun, hs.cleared hidle, trivial⟩
  | unload =>
      obtain ⟨hpc, rfl⟩ := LoadState.unload_eq_some h
      exact hs.moves (by rw [hpc]; rfl) (List.suffix_refl exitCalls)
  | other change =>
      have hchanged := hs.holds.change h
      obtain ⟨-, rfl⟩ := guarded_eq_some.mp h
      exact ⟨hchanged, foreign_change hs.foreign change, hs.path⟩
  | allocChrdevRegion major ret =>
      obtain ⟨hpc, h⟩ := Option.ite_none_left_eq_some.mp h
      have hnone := congrArg holdingAt (not_not.mp hpc)
      by_cases hret : ret < 0
      · rw [if_pos hret] at h
        obtain rfl := Option.some.inj h
        exact hs.moves hnone.symm trivial
      · rw [if_neg hret] at h
        obtain ⟨hmajor, h⟩ := Option.ite_none_right_eq_some.mp h
        obtain rfl := Option.some.inj h
        have hnew : Inv { s with major := major } := by
          refine ⟨?_, hs.foreign, hs.path⟩
          have hholds := hs.holds
          simp only [hnone] at hholds ⊢
          exact hholds
        exact hnew.register (free_of_major hmajor)
          (congrArg (Acquire.allocChrdevRegion :: ·) hnone.symm) trivial

/-! ### Error paths -/

/-- The load is on an error path that is still to delete `my_dev`. -/
def Stranding : Pc → Bool
  | .failing todo _ => .cdevDel ∈ todo
  | _ => false

theorem exists_failing {pc : Pc} (h : Stranding pc) :
    ∃ todo ret, pc = .failing todo ret := by
  cases pc with
  | failing todo ret => exact ⟨todo, ret, rfl⟩
  | _ => cases h

/-- Only an error path can leave `my_dev` live without its region. -/
theorem Inv.confined {s : State} (hs : Inv s) (h : Stranding s.pc = false) :
    Confined s := by
  have honPath := hs.path
  rw [hs.confined_iff]
  cases hpc : s.pc with
  | failing todo ret =>
      simp only [hpc, Stranding, decide_eq_false_iff_not] at h
      intro hlive
      exact absurd (mem_holding_iff (r := .cdevDel).mp hlive) h
  | exiting todo =>
      rw [hpc] at honPath
      have hlast : ∀ todo ∈ exitCalls.tails, .cdevDel ∈ todo →
          .unregisterChrdevRegion ∈ todo := by decide
      have htodo := (List.mem_tails todo _).mpr honPath
      intro hlive
      exact mem_holding_iff.mpr (hlast todo htodo
        (mem_holding_iff (r := .cdevDel).mp hlive))
  | init step => cases step <;> simp [holdingAt]
  | _ => simp [holdingAt, allCalls]

/-- `cdev_del` is the last call of the error paths that have it. -/
theorem cdevDel_last {r : Release} {todo path : List Release}
    (hpath : path ∈ errorPaths) (htodo : r :: todo <:+ path)
    (hdel : .cdevDel ∈ r :: todo)
    (hregion : .unregisterChrdevRegion ∈ r :: todo) : .cdevDel ∈ todo := by
  have hlast : ∀ path ∈ errorPaths, ∀ todo ∈ path.tails, .cdevDel ∈ todo →
      .unregisterChrdevRegion ∈ todo → .cdevDel ∈ todo.tail := by decide
  exact hlast path hpath (r :: todo) ((List.mem_tails _ path).mpr htodo) hdel
    hregion

theorem acquire_stranding {s : State} {a : Acquire} {ret : ℤ} (pc : Pc)
    (undo : List Release) (hpc : Stranding pc = false)
    (hregion : .allocChrdevRegion ∈ holdingAt pc)
    (hundo : .unregisterChrdevRegion ∈ undo) :
    (Stranding (acquire s a ret pc undo).pc ↔ .cdevDel ∈ undo ∧ ret < 0) ∧
      .allocChrdevRegion ∈ holdingAt (acquire s a ret pc undo).pc := by
  by_cases hret : ret < 0
  · rw [acquire, if_pos hret]
    refine ⟨?_, mem_holding_iff.mpr hundo⟩
    simp [Stranding, hret]
  · rw [acquire, if_neg hret]
    refine ⟨?_, hregion⟩
    simp [LoadState.register, hpc, hret]

/-- A fallible call leads onto such a path exactly if it is one of the last two
and fails, and it leaves the region held. -/
theorem call_stranding {s t : State} {ret : ℤ}
    (h : helloInit s ret = some t) :
    (Stranding t.pc ↔ (s.pc = .init .classCreate ∨
      s.pc = .init .deviceCreate) ∧ ret < 0) ∧
    .allocChrdevRegion ∈ holdingAt t.pc := by
  unfold helloInit at h
  split at h
  case h_1 hpc =>
    cases h
    simpa [hpc] using acquire_stranding (.init .classCreate)
      [.unregisterChrdevRegion] rfl (by decide) (by decide)
  case h_2 hpc =>
    cases h
    simpa [hpc] using acquire_stranding (.init .deviceCreate)
      [.unregisterChrdevRegion, .cdevDel] rfl (by decide) (by decide)
  case h_3 hpc =>
    cases h
    simpa [hpc] using acquire_stranding .loaded
      [.classDestroy, .unregisterChrdevRegion, .cdevDel] rfl (by decide)
      (by decide)
  case h_4 => cases h

/-! ### Runs -/

/-- `class_create` and `device_create` succeed. -/
def LateCallsSucceed (s : State) (label : Label) (_ : State) : Prop :=
  match label with
  | .call ret =>
      s.pc = .init .classCreate ∨ s.pc = .init .deviceCreate → 0 ≤ ret
  | _ => True

instance (s : State) (label : Label) (t : State) :
    Decidable (LateCallsSucceed s label t) := by
  unfold LateCallsSucceed
  split <;> infer_instance

/-- The driver is inside its region and leaves nothing behind. -/
def Sound (s : State) : Prop :=
  Confined s ∧ Cleared s

instance (s : State) : Decidable (Sound s) :=
  inferInstanceAs (Decidable (_ ∧ _))

theorem release_unstranded {s t : State} (hsafe : Stranding s.pc = false)
    (h : s.release calls = some t) : Stranding t.pc = false := by
  rcases LoadState.release_cases h with ⟨r, todo, ret, hpc, rfl⟩ |
    ⟨ret, hpc, rfl⟩ | ⟨r, todo, hpc, rfl⟩ | ⟨hpc, rfl⟩
  · simp only [hpc, Stranding, decide_eq_false_iff_not] at hsafe ⊢
    exact fun hdel => hsafe (List.mem_cons_of_mem r hdel)
  · rfl
  · rfl
  · rfl

/-- The load has not gone down an error path that deletes `my_dev`. -/
theorem next_unstranded {s t : State} {label : Label}
    (hsafe : Stranding s.pc = false) (hlate : LateCallsSucceed s label t)
    (h : next s label = some t) : Stranding t.pc = false := by
  cases label with
  | call ret =>
      rw [← Bool.not_eq_true, (call_stranding h).1]
      rintro ⟨hpc, hret⟩
      exact Int.not_lt.mpr (hlate hpc) hret
  | release => exact release_unstranded hsafe h
  | load =>
      obtain ⟨-, rfl⟩ := guarded_eq_some.mp h
      rfl
  | unload =>
      obtain ⟨-, rfl⟩ := LoadState.unload_eq_some h
      rfl
  | other change =>
      obtain ⟨-, rfl⟩ := guarded_eq_some.mp h
      exact hsafe
  | allocChrdevRegion major ret =>
      obtain ⟨-, h⟩ := Option.ite_none_left_eq_some.mp h
      by_cases hret : ret < 0
      · rw [if_pos hret] at h
        obtain rfl := Option.some.inj h
        rfl
      · rw [if_neg hret] at h
        obtain ⟨-, h⟩ := Option.ite_none_right_eq_some.mp h
        obtain rfl := Option.some.inj h
        rfl

/-- One of the last two calls has failed, and `my_dev` is still inside its
region. -/
structure Doomed (s : State) : Prop where
  inv : Inv s
  confined : Confined s
  stranding : Stranding s.pc

theorem call_doomed (s : State) (label : Label) (t : State) (hs : Inv s)
    (h : next s label = some t) (hlate : ¬LateCallsSucceed s label t) :
    Doomed t := by
  have ht := next_inv s label t hs h
  cases label with
  | call ret =>
      simp only [LateCallsSucceed, Classical.not_imp, Int.not_le] at hlate
      obtain ⟨hstranding, hregion⟩ := call_stranding h
      exact ⟨ht, ht.confined_iff.mpr fun _ => hregion, hstranding.mpr hlate⟩
  | _ => exact absurd trivial hlate

/-- As long as `my_dev` stays inside its region, an error path that deletes it
does not get to that call. -/
theorem Doomed.stranding_next {s t : State} {label : Label} (hs : Doomed s)
    (h : next s label = some t) : Stranding t.pc := by
  have hstranding := hs.stranding
  obtain ⟨todo, ret, hpc⟩ := exists_failing hstranding
  cases label with
  | call ret => simp [next, helloInit, hpc] at h
  | load => simp [next, LoadState.begin, LoadPc.Idle, hpc] at h
  | unload => simp [next, LoadState.unload, hpc] at h
  | allocChrdevRegion major ret => simp [next, hpc] at h
  | other change =>
      obtain ⟨-, rfl⟩ := guarded_eq_some.mp h
      exact hstranding
  | release =>
      cases todo with
      | nil => simp [hpc, Stranding] at hstranding
      | cons r todo =>
          have honPath := hs.inv.path
          rw [hpc] at honPath
          obtain ⟨path, herror, htodo⟩ := honPath
          have hdel : .cdevDel ∈ r :: todo := by
            simpa only [hpc, Stranding, decide_eq_true_eq] using hstranding
          have hregion : .unregisterChrdevRegion ∈ r :: todo := by
            refine mem_holding_iff.mp ?_
            have hheld := hs.inv.confined_iff.mp hs.confined
            rw [hpc] at hheld
            exact hheld (mem_holding_iff (r := .cdevDel).mpr hdel)
          simp only [next, LoadState.release, hpc, Option.some.injEq] at h
          subst h
          exact decide_eq_true (cdevDel_last herror htodo hdel hregion)

/-- Whatever fails, a failed load and an unload leave nothing behind. -/
theorem each_cleared (labels : List Label) :
    EachStep next (fun _ _ t => Cleared t) start labels :=
  eachStep_of_invariant next_inv
    (fun s label t hs h => (next_inv s label t hs h).cleared) start_inv labels

theorem sound_of_lateCallsSucceed {labels : List Label}
    (h : EachStep next LateCallsSucceed start labels) :
    EachStep next (fun _ _ t => Sound t) start labels := by
  have hkeep : ∀ s label t, Inv s ∧ Stranding s.pc = false →
      LateCallsSucceed s label t → next s label = some t →
      Inv t ∧ Stranding t.pc = false := by
    rintro s label t ⟨hs, hsafe⟩ hlate hnext
    exact ⟨next_inv s label t hs hnext, next_unstranded hsafe hlate hnext⟩
  refine eachStep_mono hkeep ?_ ⟨start_inv, rfl⟩ h
  intro s label t hs hlate hnext
  obtain ⟨ht, hsafe⟩ := hkeep s label t hs hlate hnext
  exact ⟨ht.confined hsafe, ht.cleared⟩

/-- A run in which one of the two calls fails and `my_dev` stays inside its
region is still on the way down. -/
theorem lateCallsSucceed_or_doomed {labels : List Label} {s : State}
    (hsound : EachStep next (fun _ _ t => Sound t) start labels)
    (hrun : exec next start labels = some s) :
    EachStep next LateCallsSucceed start labels ∨ Doomed s := by
  refine eachStep_or_bad (fun s label t hs _ h => next_inv s label t hs h)
    call_doomed (fun s label t hs hsound h => ?_) start_inv hsound hrun
  exact ⟨next_inv s label t hs.inv h, hsound.1, hs.stranding_next h⟩

/-- The driver stays inside its region and leaves nothing behind in every run
in which `class_create` and `device_create` succeed, and in no run besides,
unless it ends on an error path. -/
theorem sound_iff (labels : List Label) :
    (EachStep next LateCallsSucceed start labels →
      EachStep next (fun _ _ t => Sound t) start labels) ∧
    ∀ s, exec next start labels = some s →
      (∀ todo ret, s.pc ≠ .failing todo ret) →
      EachStep next (fun _ _ t => Sound t) start labels →
      EachStep next LateCallsSucceed start labels := by
  refine ⟨sound_of_lateCallsSucceed, fun s hrun hpc hsound => ?_⟩
  refine (lateCallsSucceed_or_doomed hsound hrun).resolve_right fun hs => ?_
  obtain ⟨todo, ret, hfailing⟩ := exists_failing hs.stranding
  exact hpc todo ret hfailing

/-- The driver is loaded, another one takes the next number, and it is unloaded
again. -/
theorem sound_unloaded :
    EachStep next (fun _ _ t => Sound t) start
      [.load, .allocChrdevRegion 240 0, .call 0,
        .other (.register 1 (.region ⟨241, 0⟩ 1)), .call 0, .call 0, .unload,
        .release, .release, .release, .release, .release] :=
  (sound_iff _).1 (by decide)

/-- `class_create` finds its name taken: after `unregister_chrdev_region` and
before `cdev_del` another driver gets the number that `my_dev` still serves. -/
theorem not_sound : ¬ ∀ labels,
    EachStep next (fun _ _ t => Sound t) start labels := by
  intro h
  have hrun := h [.load, .allocChrdevRegion 240 0, .call 0, .call (-17),
    .release, .other (.register 1 (.region ⟨240, 0⟩ 1))]
  revert hrun
  decide

end HelloworldClassDriver

end MyFreeLib
