/-
What `my_driver_init` and `my_driver_exit` leave behind.  The error paths undo
less than was done: exactly the loads in which no call fails, or
`alloc_chrdev_region` does, or both `cdev_add` do, are atomic.
-/
import MyFreeLib.CharClassDriver

namespace MyFreeLib

namespace CharClassDriver

/-! ### What the module holds -/

/-- The calls made before `pc`, the latest first. -/
def callsBefore : Pc → List Acquire
  | .init .cdevAdd => [.allocChrdevRegion]
  | .init .cdevAdd2 => [.cdevAdd, .allocChrdevRegion]
  | .init .classCreate => [.cdevAdd2, .cdevAdd, .allocChrdevRegion]
  | .init .deviceCreate =>
      [.classCreate, .cdevAdd2, .cdevAdd, .allocChrdevRegion]
  | .init (.deviceCreate2 _) =>
      [.deviceCreate, .classCreate, .cdevAdd2, .cdevAdd, .allocChrdevRegion]
  | .loaded => [.deviceCreate2, .deviceCreate, .classCreate, .cdevAdd2,
      .cdevAdd, .allocChrdevRegion]
  | _ => []

/-- The failures with which a load can get to `pc`.  The first `cdev_add` is
free to fail, and so is the second `device_create`. -/
def failuresAt : Pc → List (List Acquire)
  | .init .cdevAdd2 | .init .classCreate | .init .deviceCreate =>
      [[], [.cdevAdd]]
  | .init (.deviceCreate2 helloDevice) =>
      if helloDevice < 0 then [[.deviceCreate], [.cdevAdd, .deviceCreate]]
      else [[], [.cdevAdd]]
  | .loaded =>
      [[], [.cdevAdd], [.deviceCreate2], [.cdevAdd, .deviceCreate2]]
  | _ => [[]]

theorem failures_of_neg {helloDevice : ℤ} (h : helloDevice < 0) :
    failuresAt (.init (.deviceCreate2 helloDevice)) =
      [[.deviceCreate], [.cdevAdd, .deviceCreate]] := if_pos h

theorem failures_of_not_neg {helloDevice : ℤ} (h : ¬helloDevice < 0) :
    failuresAt (.init (.deviceCreate2 helloDevice)) = [[], [.cdevAdd]] :=
  if_neg h

/-- The failures with which a load can return an error. -/
def loadFailures : List (List Acquire) :=
  [[.allocChrdevRegion], [.cdevAdd2], [.cdevAdd, .cdevAdd2], [.classCreate],
    [.cdevAdd, .classCreate], [.deviceCreate], [.cdevAdd, .deviceCreate],
    [.deviceCreate, .deviceCreate2], [.cdevAdd, .deviceCreate, .deviceCreate2]]

/-- What the error paths leave registered. -/
def leftover (failed : List Acquire) : List Acquire :=
  if .allocChrdevRegion ∈ failed then []
  else if .cdevAdd2 ∈ failed then [.cdevAdd].filter (· ∉ failed)
  else if .classCreate ∈ failed then [.cdevAdd2]
  else [.deviceCreate2, .cdevAdd2].filter (· ∉ failed)

/-- The releasing calls still to come take what is held down to `rest`, and
the region is not unregistered before then. -/
structure Releasing (todo : List Release) (holding rest : List Acquire) :
    Prop where
  nodup : todo.Nodup
  region : .unregisterChrdevRegion ∈ todo → .allocChrdevRegion ∈ holding
  left : holding.filter (· ∉ todo.map Release.undoes) = rest

instance (todo : List Release) (holding rest : List Acquire) :
    Decidable (Releasing todo holding rest) :=
  decidable_of_iff (todo.Nodup ∧
      (.unregisterChrdevRegion ∈ todo → .allocChrdevRegion ∈ holding) ∧
      holding.filter (· ∉ todo.map Release.undoes) = rest)
    ⟨fun h => ⟨h.1, h.2.1, h.2.2⟩, fun h => ⟨h.nodup, h.region, h.left⟩⟩

/-- The load is on its way: it holds what its calls have registered. -/
def Going (pc : Pc) (failed holding : List Acquire) : Prop :=
  failed ∈ failuresAt pc ∧ holding = (callsBefore pc).filter (· ∉ failed)

/-- The load is on an error path. -/
def Fails (todo : List Release) (failed holding : List Acquire) : Prop :=
  failed ∈ loadFailures ∧ Releasing todo holding (leftover failed)

instance (todo : List Release) (failed holding : List Acquire) :
    Decidable (Fails todo failed holding) :=
  inferInstanceAs (Decidable (_ ∧ _))

/-- What the current load holds at each point. -/
def Holds (failed holding : List Acquire) : Pc → Prop
  | .unloaded => holding = []
  | .failing todo _ => Fails todo failed holding
  | .loadFailed _ => failed ∈ loadFailures ∧ holding = leftover failed
  | .exiting todo => Releasing todo holding []
  | pc => Going pc failed holding

/-- What is held after a fallible call. -/
def afterCall (a : Acquire) (ret : ℤ) (holding : List Acquire) :
    List Acquire :=
  if ret < 0 then holding else a :: holding

/-- What has failed after a fallible call. -/
def failedAfter (a : Acquire) (ret : ℤ) (failed : List Acquire) :
    List Acquire :=
  if ret < 0 then failed ++ [a] else failed

/-- A fallible call after which the load goes on. -/
theorem Going.call {failed holding : List Acquire} {a : Acquire} {pc pc' : Pc}
    {ret : ℤ} (h : Going pc failed holding)
    (hcalls : callsBefore pc' = a :: callsBefore pc)
    (hnew : a ∉ callsBefore pc) (hfresh : ∀ f ∈ failuresAt pc, a ∉ f)
    (hok : ¬ret < 0 → ∀ f ∈ failuresAt pc, f ∈ failuresAt pc')
    (hfail : ret < 0 → ∀ f ∈ failuresAt pc, f ++ [a] ∈ failuresAt pc') :
    Going pc' (failedAfter a ret failed) (afterCall a ret holding) := by
  obtain ⟨hfailed, rfl⟩ := h
  rw [Going, hcalls]
  by_cases hret : ret < 0
  · simp only [afterCall, failedAfter, if_pos hret]
    refine ⟨hfail hret failed hfailed, ?_⟩
    rw [List.filter_cons_of_neg (by simp)]
    refine List.filter_congr fun b hb => ?_
    have hne : b ≠ a := by
      rintro rfl
      exact hnew hb
    simp [hne]
  · simp only [afterCall, failedAfter, if_neg hret]
    refine ⟨hok hret failed hfailed, ?_⟩
    rw [List.filter_cons_of_pos (by simpa using hfresh failed hfailed)]

/-- The error path after the second `cdev_add`, whatever became of the
first. -/
theorem fails_cdevAdd2 : ∀ failed ∈ failuresAt (.init .cdevAdd2),
    Fails [.unregisterChrdevRegion] (failed ++ [.cdevAdd2])
      ((callsBefore (.init .cdevAdd2)).filter (· ∉ failed)) := by
  decide

theorem fails_classCreate : ∀ failed ∈ failuresAt (.init .classCreate),
    Fails [.cdevDel, .unregisterChrdevRegion] (failed ++ [.classCreate])
      ((callsBefore (.init .classCreate)).filter (· ∉ failed)) := by
  decide

/-- The error path after the second `device_create`, whatever became of it. -/
theorem fails_deviceCreate {ret : ℤ} :
    ∀ failed ∈ failuresAt (.init (.deviceCreate2 (-1))),
      Fails [.classDestroy, .cdevDel, .unregisterChrdevRegion]
        (failedAfter .deviceCreate2 ret failed)
        (afterCall .deviceCreate2 ret
          ((callsBefore (.init (.deviceCreate2 (-1)))).filter
            (· ∉ failed))) := by
  by_cases hret : ret < 0
  · simp only [failedAfter, afterCall, if_pos hret]
    decide
  · simp only [failedAfter, afterCall, if_neg hret]
    decide

/-- `my_driver_exit` releases all that a load that returned 0 can hold. -/
theorem releasing_exitCalls : ∀ failed ∈ failuresAt .loaded,
    Releasing exitCalls ((callsBefore .loaded).filter (· ∉ failed)) [] := by
  decide

theorem Releasing.tail {r : Release} {todo : List Release}
    {holding rest : List Acquire} (h : Releasing (r :: todo) holding rest) :
    Releasing todo (holding.filter (· ≠ r.undoes)) rest := by
  have hnodup := List.nodup_cons.mp h.nodup
  refine ⟨hnodup.2, fun hregion => ?_, ?_⟩
  · refine List.mem_filter.mpr
      ⟨h.region (List.mem_cons_of_mem r hregion), ?_⟩
    have hother : r ≠ .unregisterChrdevRegion := by
      rintro rfl
      exact hnodup.1 hregion
    cases r <;> first | rfl | exact absurd rfl hother
  · rw [← h.left, List.filter_filter]
    refine List.filter_congr fun a _ => ?_
    simp [Bool.and_comm]

theorem Releasing.nil {holding rest : List Acquire}
    (h : Releasing [] holding rest) : holding = rest := by
  rw [← h.left, eq_comm, List.filter_eq_self]
  simp

/-! ### The registry -/

/-- The current load holds what these calls have registered. -/
abbrev Core (s : State) (holding : List Acquire) : Prop :=
  s.toLoadState.Holds calls holding

theorem Core.has_iff {s : State} {holding : List Acquire}
    (h : Core s holding) {a : Acquire} : s.Has a ↔ a ∈ holding := by
  have hmem : s.Has a ↔ a.resource s.major ∈
      holding.map (calls.resource s.major) := h.mem_iff
  rw [hmem]
  exact List.mem_map_of_injective (calls.resource_injective s.major)

theorem Core.eq_before_iff {s : State} {holding : List Acquire}
    (h : Core s holding) : s.registry = s.before ↔ holding = [] := by
  rw [Tracks.eq_before_iff h, List.map_eq_nil_iff]

/-- A releasing call of a module that still has its region if it is to give it
back. -/
theorem Core.released {s : State} {holding : List Acquire}
    (h : Core s holding) {r : Release} {pc : Pc}
    (hregion : r = .unregisterChrdevRegion → .allocChrdevRegion ∈ holding) :
    LoadState.Holds calls { s.toLoadState with
      registry := s.released calls r
      pc := pc } (holding.filter (· ≠ r.undoes)) := by
  refine LoadState.Holds.released h (fun hmajor => ?_) pc
  cases r with
  | unregisterChrdevRegion => exact hregion rfl
  | _ => cases hmajor

theorem acquire_failed (s : State) (a : Acquire) (ret : ℤ) (pc : Pc) :
    (s.acquire a ret pc).failed = failedAfter a ret s.failed := by
  rw [State.acquire, failedAfter]
  split <;> rfl

theorem acquire_pc (s : State) (a : Acquire) (ret : ℤ) (pc : Pc) :
    (s.acquire a ret pc).pc = pc := by
  rw [State.acquire]
  split <;> rfl

theorem Core.acquire {s : State} {holding : List Acquire}
    (h : Core s holding) {a : Acquire} {ret : ℤ} (pc : Pc)
    (hfree : Free (a.resource s.major) s.registry) :
    Core (s.acquire a ret pc) (afterCall a ret holding) := by
  by_cases hret : ret < 0
  · simp only [State.acquire, afterCall, if_pos hret]
    exact h
  · simp only [State.acquire, afterCall, if_neg hret]
    exact LoadState.Holds.register h hfree pc

/-! ### Steps -/

def Inv (s : State) : Prop :=
  ∃ holding, Core s holding ∧ Holds s.failed holding s.pc

theorem start_inv : Inv start := ⟨[], LoadState.start_holds calls, rfl⟩

theorem free_resource (s : State) {a : Acquire}
    (h : a ≠ .allocChrdevRegion) : Free (a.resource s.major) s.registry := by
  refine free_of_regionMajor ?_
  cases a <;> first | rfl | exact absurd rfl h

theorem Inv.call {s t : State} {a : Acquire} {ret : ℤ} {pc : Pc}
    {holding : List Acquire} (hcore : Core s holding)
    (ha : a ≠ .allocChrdevRegion) (h : s.acquire a ret pc = t)
    (hholds : Holds (failedAfter a ret s.failed) (afterCall a ret holding)
      pc) : Inv t := by
  subst h
  refine ⟨_, hcore.acquire pc (free_resource s ha), ?_⟩
  rwa [acquire_failed, acquire_pc]

theorem call_inv {s t : State} {ret : ℤ} (hs : Inv s)
    (h : s.call ret = some t) : Inv t := by
  obtain ⟨holding, hcore, hholds⟩ := hs
  unfold State.call at h
  split at h
  case h_1 hpc =>
    rw [hpc] at hholds
    exact Inv.call hcore (by decide) (Option.some.inj h)
      (Going.call hholds rfl (by decide) (by decide) (fun _ => by decide)
        (fun _ => by decide))
  case h_2 hpc =>
    rw [hpc] at hholds
    refine Inv.call hcore (by decide) (Option.some.inj h) ?_
    by_cases hret : ret < 0
    · obtain ⟨hfailed, rfl⟩ := hholds
      simp only [failedAfter, afterCall, if_pos hret]
      exact fails_cdevAdd2 s.failed hfailed
    · rw [if_neg hret]
      exact Going.call hholds rfl (by decide) (by decide) (fun _ => by decide)
        (fun hneg => absurd hneg hret)
  case h_3 hpc =>
    rw [hpc] at hholds
    refine Inv.call hcore (by decide) (Option.some.inj h) ?_
    by_cases hret : ret < 0
    · obtain ⟨hfailed, rfl⟩ := hholds
      simp only [failedAfter, afterCall, if_pos hret]
      exact fails_classCreate s.failed hfailed
    · rw [if_neg hret]
      exact Going.call hholds rfl (by decide) (by decide) (fun _ => by decide)
        (fun hneg => absurd hneg hret)
  case h_4 hpc =>
    rw [hpc] at hholds
    refine Inv.call hcore (by decide) (Option.some.inj h)
      (Going.call hholds rfl (by decide) (by decide) (fun hret => ?_)
        (fun hret => ?_))
    · rw [failures_of_not_neg hret]
      decide
    · rw [failures_of_neg hret]
      decide
  case h_5 helloDevice hpc =>
    rw [hpc] at hholds
    refine Inv.call hcore (by decide) (Option.some.inj h) ?_
    by_cases hdevice : helloDevice < 0
    · obtain ⟨hfailed, rfl⟩ := hholds
      rw [failures_of_neg hdevice] at hfailed
      rw [if_pos hdevice]
      exact fails_deviceCreate s.failed hfailed
    · rw [if_neg hdevice]
      refine Going.call hholds rfl (by simp [callsBefore]) ?_ (fun _ => ?_)
        (fun _ => ?_) <;>
      · rw [failures_of_not_neg hdevice]
        decide
  case h_6 => cases h

theorem release_inv {s t : State} (hs : Inv s)
    (h : s.goes (s.release calls) = some t) : Inv t := by
  obtain ⟨holding, hcore, hholds⟩ := hs
  obtain ⟨after, hafter, rfl⟩ := Option.map_eq_some_iff.mp h
  rcases LoadState.release_cases hafter with ⟨r, todo, ret, hpc, rfl⟩ |
    ⟨ret, hpc, rfl⟩ | ⟨r, todo, hpc, rfl⟩ | ⟨hpc, rfl⟩ <;> rw [hpc] at hholds
  · obtain ⟨hfailed, hleft⟩ := hholds
    exact ⟨_, hcore.released fun heq =>
      hleft.region (heq ▸ List.mem_cons_self), hfailed, hleft.tail⟩
  · obtain ⟨hfailed, hleft⟩ := hholds
    exact ⟨holding, hcore, hfailed, hleft.nil⟩
  · exact ⟨_, hcore.released fun heq =>
      hholds.region (heq ▸ List.mem_cons_self), hholds.tail⟩
  · exact ⟨holding, hcore, Releasing.nil hholds⟩

theorem next_inv (s : State) (label : Label) (t : State) (hs : Inv s)
    (h : next s label = some t) : Inv t := by
  cases label with
  | call ret => exact call_inv hs h
  | release => exact release_inv hs h
  | load =>
      obtain ⟨holding, hcore, -⟩ := hs
      obtain ⟨after, hafter, rfl⟩ := Option.map_eq_some_iff.mp h
      have hbegun := LoadState.Holds.begin hcore hafter
      obtain ⟨-, rfl⟩ := guarded_eq_some.mp hafter
      exact ⟨[], hbegun, List.mem_singleton_self _, rfl⟩
  | unload =>
      obtain ⟨holding, hcore, hholds⟩ := hs
      obtain ⟨after, hafter, rfl⟩ := Option.map_eq_some_iff.mp h
      obtain ⟨hpc, rfl⟩ := LoadState.unload_eq_some hafter
      rw [hpc] at hholds
      obtain ⟨hfailed, rfl⟩ := hholds
      exact ⟨_, hcore, releasing_exitCalls s.failed hfailed⟩
  | other change =>
      obtain ⟨holding, hcore, hholds⟩ := hs
      obtain ⟨after, hafter, rfl⟩ := Option.map_eq_some_iff.mp h
      have hchanged := LoadState.Holds.change hcore hafter
      obtain ⟨-, rfl⟩ := guarded_eq_some.mp hafter
      exact ⟨holding, hchanged, hholds⟩
  | allocChrdevRegion major ret =>
      obtain ⟨holding, hcore, hholds⟩ := hs
      obtain ⟨hpc, h⟩ := Option.ite_none_left_eq_some.mp h
      rw [not_not.mp hpc] at hholds
      obtain ⟨hfailed, rfl⟩ := hholds
      by_cases hret : ret < 0
      · rw [if_pos hret] at h
        obtain rfl := Option.some.inj h
        have halone : [Acquire.allocChrdevRegion] ∈ loadFailures := by decide
        exact ⟨[], hcore, halone, rfl⟩
      · rw [if_neg hret] at h
        obtain ⟨hmajor, h⟩ := Option.ite_none_right_eq_some.mp h
        have hnew : Core { s with major := major } [] := hcore
        obtain rfl := Option.some.inj h
        refine ⟨_, hnew.acquire _ (free_of_major hmajor), ?_⟩
        have hnone : s.failed = [] := List.mem_singleton.mp hfailed
        rw [acquire_failed, acquire_pc]
        simp only [failedAfter, afterCall, if_neg hret, hnone]
        exact ⟨by decide, by decide⟩

/-! ### Runs -/

/-- A load returns with one of these failures: none, `alloc_chrdev_region`,
or both `cdev_add`. -/
def AllOrNothing (s : State) : Prop :=
  match s.pc with
  | .loadFailed _ | .loaded => s.failed = [] ∨
      s.failed = [.allocChrdevRegion] ∨ s.failed = [.cdevAdd, .cdevAdd2]
  | _ => True

theorem leftover_eq_nil_iff : ∀ failed ∈ loadFailures,
    leftover failed = [] ↔ failed = [] ∨ failed = [.allocChrdevRegion] ∨
      failed = [.cdevAdd, .cdevAdd2] := by
  decide

theorem loaded_iff : ∀ failed ∈ failuresAt .loaded,
    (let holding := (callsBefore .loaded).filter (· ∉ failed)
     .cdevAdd ∈ holding ∧ .cdevAdd2 ∈ holding ∧ .deviceCreate ∈ holding ∧
      .deviceCreate2 ∈ holding) ↔ failed = [] ∨
      failed = [.allocChrdevRegion] ∨ failed = [.cdevAdd, .cdevAdd2] := by
  decide

theorem atomic_iff_allOrNothing {s : State} (hs : Inv s) :
    Atomic s ↔ AllOrNothing s := by
  obtain ⟨holding, hcore, hholds⟩ := hs
  cases hpc : s.pc with
  | loadFailed ret =>
      simp only [Holds, hpc] at hholds
      obtain ⟨hfailed, rfl⟩ := hholds
      simp only [Atomic, AllOrNothing, hpc]
      rw [hcore.eq_before_iff, leftover_eq_nil_iff s.failed hfailed]
  | loaded =>
      simp only [Holds, hpc] at hholds
      obtain ⟨hfailed, rfl⟩ := hholds
      simp only [Atomic, AllOrNothing, hpc]
      rw [hcore.has_iff, hcore.has_iff, hcore.has_iff, hcore.has_iff]
      exact loaded_iff s.failed hfailed
  | unloaded =>
      simp only [Holds, hpc] at hholds
      simp only [Atomic, AllOrNothing, hpc, hcore.eq_before_iff, hholds]
  | _ => simp only [Atomic, AllOrNothing, hpc]

/-- Unloading takes back all that a successful load has registered, even
where that was not everything. -/
theorem unload_restores {s : State} {labels : List Label}
    (hrun : exec next start labels = some s) (hpc : s.pc = .unloaded) :
    s.registry = s.before := by
  obtain ⟨holding, hcore, hholds⟩ := exec_invariant next_inv start_inv hrun
  simp only [Holds, hpc] at hholds
  exact hcore.eq_before_iff.mpr hholds

/-- Loading and unloading is atomic along a run exactly when in every load no
call fails, or `alloc_chrdev_region` does, or both `cdev_add` do. -/
theorem atomic_iff (labels : List Label) :
    EachStep next (fun _ _ t => Atomic t) start labels ↔
      EachStep next (fun _ _ t => AllOrNothing t) start labels := by
  refine eachStep_congr (fun s label t hs _ h => next_inv s label t hs h)
    (fun s label t hs h => ?_) start_inv labels
  exact atomic_iff_allOrNothing (next_inv s label t hs h)

/-- `class_create` finds its name taken: the load returns an error and leaves
`my_dev2` in the kernel. -/
theorem not_atomic : ¬ ∀ labels,
    EachStep next (fun _ _ t => Atomic t) start labels := by
  intro h
  have hrun := h [.load, .allocChrdevRegion 240 0, .call 0, .call 0,
    .call (-17), .release, .release, .release]
  revert hrun
  decide

end CharClassDriver

end MyFreeLib
