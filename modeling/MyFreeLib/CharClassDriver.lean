/-
`char_class_driver.c`: one run of `my_driver_init` or `my_driver_exit` is a
sequence of kernel calls, and other modules register and release resources
between any two of them.
-/
import MyFreeLib.ModuleLoad

namespace MyFreeLib

namespace CharClassDriver

/-- The fallible calls of `my_driver_init`, in their order. -/
inductive Acquire
  | allocChrdevRegion
  | cdevAdd
  | cdevAdd2
  | classCreate
  | deviceCreate
  | deviceCreate2
deriving DecidableEq, Repr

/-- The calls of the error paths and of `my_driver_exit`. -/
inductive Release
  | deviceDestroy
  | deviceDestroy2
  | classDestroy
  | cdevDel
  | cdevDel2
  | unregisterChrdevRegion
deriving DecidableEq, Repr

/-- What a successful call registers.  `my_dev` is object 0, `my_dev2` object
1 and `helloClass` class 0; the region is one number long. -/
def Acquire.resource (major : ℕ) : Acquire → Resource
  | .allocChrdevRegion => .region ⟨major, 0⟩ 1
  | .cdevAdd => .cdev 0 ⟨major, 0⟩ 1
  | .cdevAdd2 => .cdev 1 ⟨major, 1⟩ 1
  | .classCreate => .devClass 0
  | .deviceCreate => .device 0 ⟨major, 0⟩
  | .deviceCreate2 => .device 0 ⟨major, 1⟩

/-- Which resources of the module the call releases. -/
def Release.gone (major : ℕ) : Release → Resource → Bool
  | .deviceDestroy => fun r => r = .device 0 ⟨major, 0⟩
  | .deviceDestroy2 => fun r => r = .device 0 ⟨major, 1⟩
  | .classDestroy => fun r => r = .devClass 0
  | .cdevDel => Resource.IsCdev 0
  | .cdevDel2 => Resource.IsCdev 1
  | .unregisterChrdevRegion => fun r => r = .region ⟨major, 0⟩ 1

/-- The call whose resource is released. -/
def Release.undoes : Release → Acquire
  | .deviceDestroy => .deviceCreate
  | .deviceDestroy2 => .deviceCreate2
  | .classDestroy => .classCreate
  | .cdevDel => .cdevAdd
  | .cdevDel2 => .cdevAdd2
  | .unregisterChrdevRegion => .allocChrdevRegion

def calls : Calls Acquire Release where
  resource := Acquire.resource
  gone := Release.gone
  undoes := Release.undoes
  gone_resource major r a := by
    cases r <;> cases a <;>
      simp [Release.gone, Acquire.resource, Release.undoes, Resource.IsCdev]
  undone a := by
    cases a
    · exact ⟨.unregisterChrdevRegion, rfl⟩
    · exact ⟨.cdevDel, rfl⟩
    · exact ⟨.cdevDel2, rfl⟩
    · exact ⟨.classDestroy, rfl⟩
    · exact ⟨.deviceDestroy, rfl⟩
    · exact ⟨.deviceDestroy2, rfl⟩
  count_pos major a first count h := by
    cases a <;> simp [Acquire.resource] at h
    omega

/-- Before which call the module stands.  `helloDevice` is the result of the
first `device_create`, looked at only after the second. -/
inductive Step
  | allocChrdevRegion
  | cdevAdd
  | cdevAdd2
  | classCreate
  | deviceCreate
  | deviceCreate2 (helloDevice : ℤ)
deriving DecidableEq, Repr

abbrev Pc := LoadPc Step Release

/-- `failed` lists the calls of the current load that have failed. -/
structure State extends LoadState Step Release where
  failed : List Acquire
deriving DecidableEq, Repr

def start : State := ⟨.start, []⟩

/-- `call` makes the fallible call that is due, `release` the next call of an
error path or of the exit function, or its return.  The kernel answers a
negative number for an error. -/
inductive Label
  | load
  | allocChrdevRegion (major : ℕ) (ret : ℤ)
  | call (ret : ℤ)
  | release
  | unload
  | other (change : Change)
deriving DecidableEq, Repr

/-- A fallible call registers its resource or fails; the load goes on at
`pc`. -/
def State.acquire (s : State) (a : Acquire) (ret : ℤ) (pc : Pc) : State :=
  if ret < 0 then { s with pc := pc, failed := s.failed ++ [a] }
  else { s with toLoadState := s.register (a.resource s.major) pc }

/-- `my_driver_init` after `alloc_chrdev_region`, up to its next call. -/
def State.call (s : State) (ret : ℤ) : Option State :=
  match s.pc with
  | .init .cdevAdd =>
      -- `ret` is overwritten by the next call before anything reads it
      some (s.acquire .cdevAdd ret (.init .cdevAdd2))
  | .init .cdevAdd2 => some (s.acquire .cdevAdd2 ret
      (if ret < 0 then .failing [.unregisterChrdevRegion] ret
        else .init .classCreate))
  | .init .classCreate => some (s.acquire .classCreate ret
      (if ret < 0 then .failing [.cdevDel, .unregisterChrdevRegion] ret
        else .init .deviceCreate))
  | .init .deviceCreate =>
      some (s.acquire .deviceCreate ret (.init (.deviceCreate2 ret)))
  | .init (.deviceCreate2 helloDevice) => some (s.acquire .deviceCreate2 ret
      (if helloDevice < 0 then
          .failing [.classDestroy, .cdevDel, .unregisterChrdevRegion]
            helloDevice
        else .loaded))
  | _ => none

/-- `my_driver_exit` -/
def exitCalls : List Release :=
  [.deviceDestroy, .deviceDestroy2, .classDestroy, .cdevDel, .cdevDel2,
    .unregisterChrdevRegion]

/-- The common part of the state changes, and nothing else. -/
def State.goes (s : State) (t : Option (LoadState Step Release)) :
    Option State :=
  t.map fun t => { s with toLoadState := t }

def next (s : State) : Label → Option State
  | .load => ({ s with failed := [] } : State).goes
      (s.begin .allocChrdevRegion)
  | .allocChrdevRegion major ret =>
      if s.pc ≠ .init .allocChrdevRegion then none
      else if ret < 0 then
        some { s with failed := [.allocChrdevRegion], pc := .loadFailed ret }
      else if ∀ e ∈ s.registry, e.resource.regionMajor ≠ some major then
        some (({ s with major := major } : State).acquire .allocChrdevRegion
          ret (.init .cdevAdd))
      else none
  | .call ret => s.call ret
  | .release => s.goes (s.release calls)
  | .unload => s.goes (s.unload exitCalls)
  | .other change => s.goes (s.change change)

/-- The resource of the call is registered by the current load. -/
def State.Has (s : State) (a : Acquire) : Prop :=
  ⟨.driver s.load, a.resource s.major⟩ ∈ s.registry

instance (s : State) (a : Acquire) : Decidable (s.Has a) :=
  inferInstanceAs (Decidable (_ ∈ _))

/-- A load that returned an error and a load that has been undone leave no
trace, and a load that returned 0 has both devices up. -/
def Atomic (s : State) : Prop :=
  match s.pc with
  | .loadFailed _ | .unloaded => s.registry = s.before
  | .loaded => s.Has .cdevAdd ∧ s.Has .cdevAdd2 ∧ s.Has .deviceCreate ∧
      s.Has .deviceCreate2
  | _ => True

instance (s : State) : Decidable (Atomic s) := by
  unfold Atomic
  split <;> infer_instance

end CharClassDriver

end MyFreeLib
