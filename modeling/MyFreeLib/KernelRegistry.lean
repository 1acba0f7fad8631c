/-
The registries of a kernel as one list of resources, each under the owner that
registered it.  For one owner the registry falls apart into what it holds and
what all others hold; registering and releasing act on one of the two parts.
-/
import Mathlib.Data.List.Pairwise

namespace MyFreeLib

universe u

/-- A device number. -/
structure Dev where
  major : ℕ
  minor : ℕ
deriving DecidableEq, Repr

/-- What a driver registers: a range of device numbers, a character device
that serves a range of them, a device class, a device node of a class.
`object` tells apart the objects of one owner. -/
inductive Resource
  | region (first : Dev) (count : ℕ)
  | cdev (object : ℕ) (first : Dev) (count : ℕ)
  | devClass (object : ℕ)
  | device (devClass : ℕ) (dev : Dev)
deriving DecidableEq, Repr

/-- Two regions with a number in common. -/
def Resource.Overlaps : Resource → Resource → Prop
  | .region a m, .region b n =>
      a.major = b.major ∧ a.minor < b.minor + n ∧ b.minor < a.minor + m
  | _, _ => False

instance (r r' : Resource) : Decidable (r.Overlaps r') := by
  unfold Resource.Overlaps
  split <;> infer_instance

theorem Resource.Overlaps.symm {r r' : Resource} (h : r.Overlaps r') :
    r'.Overlaps r := by
  cases r <;> cases r' <;> simp only [Resource.Overlaps] at h ⊢
  exact ⟨h.1.symm, h.2.2, h.2.1⟩

/-- The major number of a region. -/
def Resource.regionMajor : Resource → Option ℕ
  | .region first _ => some first.major
  | _ => none

/-- The character device `object`. -/
def Resource.IsCdev (object : ℕ) : Resource → Bool
  | .cdev o _ _ => o = object
  | _ => false

/-- A region that has all the numbers from `first` on. -/
def Resource.Spans (first : Dev) (count : ℕ) : Resource → Bool
  | .region a m => a.major = first.major ∧ a.minor ≤ first.minor ∧
      first.minor + count ≤ a.minor + m
  | _ => false

structure Entry (Owner : Type u) where
  owner : Owner
  resource : Resource
deriving DecidableEq, Repr

abbrev Registry (Owner : Type u) := List (Entry Owner)

section Regions

variable {Owner : Type u}

/-- No two regions share a number. -/
def Apart (registry : Registry Owner) : Prop :=
  registry.Pairwise fun e e' => ¬e.resource.Overlaps e'.resource

/-- No region of the registry shares a number with the resource. -/
def Free (resource : Resource) (registry : Registry Owner) : Prop :=
  ∀ e ∈ registry, ¬resource.Overlaps e.resource

instance (resource : Resource) (registry : Registry Owner) :
    Decidable (Free resource registry) :=
  inferInstanceAs (Decidable (∀ e ∈ registry, _))

/-- `unregister_chrdev_region`: whose region it is is not asked. -/
def unregisterRegion (first : Dev) (count : ℕ) (registry : Registry Owner) :
    Registry Owner :=
  registry.filter fun e => e.resource ≠ .region first count

theorem Apart.filter {registry : Registry Owner} (h : Apart registry)
    (keep : Entry Owner → Bool) : Apart (registry.filter keep) :=
  List.Pairwise.filter keep h

theorem Apart.not_overlaps {registry : Registry Owner} (h : Apart registry)
    {e e' : Entry Owner} (he : e ∈ registry) (he' : e' ∈ registry)
    (hne : e ≠ e') : ¬e.resource.Overlaps e'.resource := by
  have hsymm : Std.Symm fun e e' : Entry Owner =>
      ¬e.resource.Overlaps e'.resource :=
    ⟨fun a b hab hba => hab hba.symm⟩
  exact List.Pairwise.forall h he he' hne

theorem Apart.cons {registry : Registry Owner} (h : Apart registry)
    {owner : Owner} {resource : Resource} (hfree : Free resource registry) :
    Apart (⟨owner, resource⟩ :: registry) :=
  List.Pairwise.cons hfree h

/-- A resource that is not a region is always free. -/
theorem free_of_regionMajor {resource : Resource} {registry : Registry Owner}
    (h : resource.regionMajor = none) : Free resource registry := by
  intro e _
  cases resource <;> simp_all [Resource.Overlaps, Resource.regionMajor]

/-- A region with a major number that no region has is free. -/
theorem free_of_major {major minor count : ℕ} {registry : Registry Owner}
    (h : ∀ e ∈ registry, e.resource.regionMajor ≠ some major) :
    Free (.region ⟨major, minor⟩ count) registry := by
  rintro ⟨owner, resource⟩ he hover
  have hmajor := h _ he
  cases resource <;> simp_all [Resource.Overlaps, Resource.regionMajor]

end Regions

section Owners

variable {Owner : Type u} [DecidableEq Owner]

/-- The resources of one owner, the latest first. -/
def held (owner : Owner) (registry : Registry Owner) : List Resource :=
  (registry.filter fun e => e.owner = owner).map Entry.resource

/-- The registry as it would be without one owner. -/
def others (owner : Owner) (registry : Registry Owner) : Registry Owner :=
  registry.filter fun e => e.owner ≠ owner

/-- Take those resources of one owner that `gone` selects off the registry. -/
def release (owner : Owner) (gone : Resource → Bool)
    (registry : Registry Owner) : Registry Owner :=
  registry.filter fun e => ¬(e.owner = owner ∧ gone e.resource)

/-! ### What one owner holds -/

theorem mem_held {owner : Owner} {registry : Registry Owner}
    {resource : Resource} :
    resource ∈ held owner registry ↔ ⟨owner, resource⟩ ∈ registry := by
  simp only [held, List.mem_map, List.mem_filter, decide_eq_true_eq]
  constructor
  · rintro ⟨⟨_, _⟩, ⟨hmem, rfl⟩, rfl⟩
    exact hmem
  · intro hmem
    exact ⟨_, ⟨hmem, rfl⟩, rfl⟩

/-- Without one owner's resources the registry is what it is, exactly when the
owner holds none. -/
theorem eq_others_iff {owner : Owner} {registry : Registry Owner} :
    registry = others owner registry ↔ held owner registry = [] := by
  rw [eq_comm, others, List.filter_eq_self, held, List.map_eq_nil_iff,
    List.filter_eq_nil_iff]
  simp

@[simp] theorem held_cons_self (owner : Owner) (resource : Resource)
    (registry : Registry Owner) :
    held owner (⟨owner, resource⟩ :: registry) =
      resource :: held owner registry := by
  simp [held]

@[simp] theorem others_cons_self (owner : Owner) (resource : Resource)
    (registry : Registry Owner) :
    others owner (⟨owner, resource⟩ :: registry) =
      others owner registry := by
  simp [others]

theorem held_cons_of_ne {owner other : Owner} (h : other ≠ owner)
    (resource : Resource) (registry : Registry Owner) :
    held owner (⟨other, resource⟩ :: registry) = held owner registry := by
  simp [held, h]

theorem others_cons_of_ne {owner other : Owner} (h : other ≠ owner)
    (resource : Resource) (registry : Registry Owner) :
    others owner (⟨other, resource⟩ :: registry) =
      ⟨other, resource⟩ :: others owner registry := by
  simp [others, h]

/-- What another owner holds is there without this one too. -/
theorem held_others_of_ne {owner other : Owner} (h : other ≠ owner)
    (registry : Registry Owner) :
    held other (others owner registry) = held other registry := by
  rw [held, others, held, List.filter_filter]
  congr 2
  funext e
  by_cases howner : e.owner = other
  · simp [howner, h]
  · simp [howner]

theorem Free.others {resource : Resource} {registry : Registry Owner}
    (h : Free resource registry) (owner : Owner) :
    Free resource (others owner registry) :=
  fun e he => h e (List.mem_filter.mp he).1

/-! ### Releasing -/

theorem others_unregisterRegion (owner : Owner) (first : Dev) (count : ℕ)
    (registry : Registry Owner) :
    others owner (unregisterRegion first count registry) =
      unregisterRegion first count (others owner registry) := by
  rw [others, unregisterRegion, unregisterRegion, others, List.filter_filter,
    List.filter_filter]
  congr 1
  funext e
  rw [Bool.and_comm]

theorem held_release_self (owner : Owner) (gone : Resource → Bool)
    (registry : Registry Owner) :
    held owner (release owner gone registry) =
      (held owner registry).filter fun r => !gone r := by
  rw [held, release, held, List.filter_filter, List.filter_map,
    List.filter_filter]
  congr 2
  funext e
  by_cases howner : e.owner = owner <;> simp [howner]

theorem others_release_self (owner : Owner) (gone : Resource → Bool)
    (registry : Registry Owner) :
    others owner (release owner gone registry) = others owner registry := by
  rw [others, release, List.filter_filter]
  congr 1
  funext e
  by_cases howner : e.owner = owner <;> simp [howner]

theorem held_release_of_ne {owner other : Owner} (h : other ≠ owner)
    (gone : Resource → Bool) (registry : Registry Owner) :
    held owner (release other gone registry) = held owner registry := by
  rw [held, release, held, List.filter_filter]
  congr 2
  funext e
  by_cases howner : e.owner = owner
  · simp [howner, h.symm]
  · simp [howner]

theorem others_release_comm (owner other : Owner) (gone : Resource → Bool)
    (registry : Registry Owner) :
    others owner (release other gone registry) =
      release other gone (others owner registry) := by
  rw [others, release, release, others, List.filter_filter,
    List.filter_filter]
  congr 1
  funext e
  rw [Bool.and_comm]

/-- The owner of a region can unregister it without touching the others. -/
theorem unregisterRegion_eq_release {owner : Owner} {first : Dev} {count : ℕ}
    {registry : Registry Owner} (hapart : Apart registry) (hpos : 0 < count)
    (hmem : ⟨owner, .region first count⟩ ∈ registry) :
    unregisterRegion first count registry =
      release owner (fun r => r = .region first count) registry := by
  refine List.filter_congr fun e he => ?_
  by_cases hres : e.resource = .region first count
  · have heq : e = ⟨owner, .region first count⟩ := by
      by_contra hne
      have hover := hapart.not_overlaps he hmem hne
      rw [hres] at hover
      exact hover ⟨rfl, by omega, by omega⟩
    simp [heq]
  · simp [hres]

end Owners

end MyFreeLib
