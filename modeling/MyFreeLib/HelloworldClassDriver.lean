/-
`helloworld_class_driver.c`: the kernel calls of `hello_init` and
`hello_exit`, with other modules registering and releasing resources between
any two of them.
-/
import MyFreeLib.ModuleLoad

namespace MyFreeLib

namespace HelloworldClassDriver

/-- The fallible calls of `hello_init`, in their order. -/
inductive Acquire
  | allocChrdevRegion
  | cdevAdd
  | classCreate
  | deviceCreate
deriving DecidableEq, Repr

/-- The calls of the error paths and of `hello_exit`. -/
inductive Release
  | deviceDestroy
  | classDestroy
  | cdevDel
  | unregisterChrdevRegion
deriving DecidableEq, Repr

/-- What a successful call registers.  `my_dev` is object 0 and `helloClass`
class 0; all of `dev` is one number. -/
def Acquire.resource (major : ℕ) : Acquire → Resource
  | .allocChrdevRegion => .region ⟨major, 0⟩ 1
  | .cdevAdd => .cdev 0 ⟨major, 0⟩ 1
  | .classCreate => .devClass 0
  | .deviceCreate => .device 0 ⟨major, 0⟩

/-- Which resources of the module the call releases. -/
def Release.gone (major : ℕ) : Release → Resource → Bool
  | .deviceDestroy => fun r => r = .device 0 ⟨major, 0⟩
  | .classDestroy => fun r => r = .devClass 0
  | .cdevDel => Resource.IsCdev 0
  | .unregisterChrdevRegion => fun r => r = .region ⟨major, 0⟩ 1

/-- The call whose resource is released. -/
def Release.undoes : Release → Acquire
  | .deviceDestroy => .deviceCreate
  | .classDestroy => .classCreate
  | .cdevDel => .cdevAdd
  | .unregisterChrdevRegion => .allocChrdevRegion

def calls : Calls Acquire Release where
  resource := Acquire.resource
  gone := Release.gone
  undoes := Release.undoes
  gone_resource major r a := by
    cases r <;> cases a <;>
      simp [Release.gone, Acquire.resource, Release.undoes, Resource.IsCdev]
  undone a := by
    cases a
    · exact ⟨.unregisterChrdevRegion, rfl⟩
    · exact ⟨.cdevDel, rfl⟩
    · exact ⟨.classDestroy, rfl⟩
    · exact ⟨.deviceDestroy, rfl⟩
  count_pos major a first count h := by
    cases a <;> simp [Acquire.resource] at h
    omega

/-- The module stands before one of its fallible calls. -/
abbrev Pc := LoadPc Acquire Release

abbrev State := LoadState Acquire Release

def start : State := .start

/-- `call` makes the fallible call that is due, `release` the next call of an
error path or of `hello_exit`, or its return.  A negative answer is an error,
also where the call returns a pointer. -/
inductive Label
  | load
  | allocChrdevRegion (major : ℕ) (ret : ℤ)
  | call (ret : ℤ)
  | release
  | unload
  | other (change : Change)
deriving DecidableEq, Repr

/-- A fallible call registers its resource and the load goes on at `pc`, or it
fails and the load goes down an error path. -/
def acquire (s : State) (a : Acquire) (ret : ℤ) (pc : Pc)
    (undo : List Release) : State :=
  if ret < 0 then { s with pc := .failing undo ret }
  else s.register (a.resource s.major) pc

/-- `hello_init` after `alloc_chrdev_region`, up to its next call. -/
def helloInit (s : State) (ret : ℤ) : Option State :=
  match s.pc with
  | .init .cdevAdd => some
      (acquire s .cdevAdd ret (.init .classCreate) [.unregisterChrdevRegion])
  | .init .classCreate => some
      (acquire s .classCreate ret (.init .deviceCreate)
        [.unregisterChrdevRegion, .cdevDel])
  | .init .deviceCreate => some
      (acquire s .deviceCreate ret .loaded
        [.classDestroy, .unregisterChrdevRegion, .cdevDel])
  | _ => none

/-- `hello_exit` -/
def exitCalls : List Release :=
  [.deviceDestroy, .classDestroy, .cdevDel, .unregisterChrdevRegion]

def next (s : State) : Label → Option State
  | .load => s.begin .allocChrdevRegion
  | .allocChrdevRegion major ret =>
      if s.pc ≠ .init .allocChrdevRegion then none
      else if ret < 0 then some { s with pc := .loadFailed ret }
      else if ∀ e ∈ s.registry, e.resource.regionMajor ≠ some major then
        some (({ s with major := major } : State).register
          (Acquire.resource major .allocChrdevRegion) (.init .cdevAdd))
      else none
  | .call ret => helloInit s ret
  | .release => s.release calls
  | .unload => s.unload exitCalls
  | .other change => s.change change

/-! ### What is exposed -/

/-- A character device of the driver serves only numbers of a region that the
driver holds. -/
def Covered (registry : Registry Module) (resource : Resource) : Prop :=
  match resource with
  | .cdev _ first count =>
      ∃ e ∈ registry, e.owner.IsDriver ∧ e.resource.Spans first count
  | _ => True

instance (registry : Registry Module) (resource : Resource) :
    Decidable (Covered registry resource) := by
  unfold Covered
  split <;> infer_instance

/-- No character device of the driver is live outside its region. -/
def Confined (s : State) : Prop :=
  ∀ e ∈ s.registry, e.owner.IsDriver → Covered s.registry e.resource

instance (s : State) : Decidable (Confined s) :=
  inferInstanceAs (Decidable (∀ e ∈ s.registry, _))

/-- After a failed load or an unload nothing of the driver remains. -/
def Cleared (s : State) : Prop :=
  s.pc.Idle → ∀ e ∈ s.registry, ¬e.owner.IsDriver

instance (s : State) : Decidable (Cleared s) :=
  inferInstanceAs (Decidable (_ → _))

end HelloworldClassDriver

end MyFreeLib
