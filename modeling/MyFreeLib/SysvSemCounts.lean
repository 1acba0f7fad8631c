/-
What the values of the semaphores count.  From `SETVAL` on a semaphore has the
value given and what has been done to it since; what was done before is lost.
-/
import MyFreeLib.SysvSem
import Mathlib.Data.List.Nodup

namespace MyFreeLib

namespace SysvSem

def Process.done (p : Process) : List Stmt := p.args.program.take p.pc

def Process.at (p : Process) (stmt : Stmt) : Prop :=
  StandsAt p.args.program p.pc p.status stmt

theorem Process.at.done_succ {p : Process} {stmt : Stmt} (h : p.at stmt) :
    p.args.program.take (p.pc + 1) = p.done ++ [stmt] := h.take_succ

/-- The calls that concern the set. -/
def Stmt.calls : Stmt → Bool
  | .semget | .setval | .semop => true
  | _ => false

/-- What holds before a call. -/
def Before (done rest : List Stmt) : Prop :=
  (rest.head? = some .semget ∨ rest.head? = some .semop →
    ∀ stmt ∈ done, stmt.calls = false) ∧
  (rest.head? = some .setval →
    .semget ∈ done ∧ .setval ∉ done ∧ .semop ∉ done)

instance (done rest : List Stmt) : Decidable (Before done rest) :=
  inferInstanceAs (Decidable (_ ∧ _))

theorem before_of_inits (args : Args) :
    ∀ done ∈ args.program.inits,
      Before done (args.program.drop done.length) := by
  have hcreate : ∀ done ∈ [Stmt.semget, .setval, .printId].inits,
      Before done ([Stmt.semget, .setval, .printId].drop done.length) := by
    decide
  have hoperate : ∀ done ∈ [Stmt.printAbout, .semop, .printCompleted].inits,
      Before done
        ([Stmt.printAbout, .semop, .printCompleted].drop done.length) := by
    decide
  cases args with
  | create val => exact hcreate
  | operate id op => exact hoperate

theorem Process.at.before {p : Process} {stmt : Stmt} (h : p.at stmt) :
    Before p.done (stmt :: p.args.program.drop (p.pc + 1)) := by
  rw [← drop_of_getElem? h.2]
  exact forall_take_drop (before_of_inits p.args) p.pc

/-- The first call of a process finds it with nothing done. -/
theorem Process.at.untouched {p : Process} {stmt : Stmt} (h : p.at stmt)
    (hstmt : stmt = .semget ∨ stmt = .semop) :
    .semget ∉ p.done ∧ .setval ∉ p.done ∧ .semop ∉ p.done := by
  have hnone := h.before.1 (by simpa using hstmt)
  refine ⟨?_, ?_, ?_⟩ <;> intro hmem <;> cases hnone _ hmem

/-- What a process becomes by its next call, and the sets. -/
inductive Move (s : State) (i : ℕ) (p : Process) :
    Process → List SemSet → Prop
  | ends {status : Status} (hrun : p.status = .running)
      (hends : status ≠ .running) : Move s i p { p with status } s.sets
  | passes {stmt : Stmt} (hat : p.at stmt) (hstmt : stmt.calls = false) :
      Move s i p { p with pc := p.pc + 1 } s.sets
  | makes {id : ℤ} (hat : p.at .semget)
      (hfresh : ∀ set ∈ s.sets, set.id ≠ id) : Move s i p
      { p with pc := p.pc + 1, set := some s.sets.length }
      (s.sets ++ [SemSet.new id i])
  | initialises {val : List Byte} {k : ℕ} {set after : SemSet}
      (hat : p.at .setval) (hargs : p.args = .create val)
      (hk : p.set = some k) (hset : s.sets[k]? = some set)
      (hafter : set.setval (atoi val) = some after) :
      Move s i p { p with pc := p.pc + 1 } (s.sets.set k after)
  | operates {setid op : List Byte} {k : ℕ} {set : SemSet}
      {sem : Semaphore semvmx} (hat : p.at .semop)
      (hargs : p.args = .operate setid op) (hset : s.sets[k]? = some set)
      (hid : set.id = atoi setid) (hsem : set.sem.op p.args.semOp = some sem) :
      Move s i p
      { p with pc := p.pc + 1, set := some k, late := set.base.isSome }
      (s.sets.set k { set with sem })

theorem lookup_eq_some {s : State} {id : ℤ} {k : ℕ} {set : SemSet}
    (h : s.lookup id = some (k, set)) :
    s.sets[k]? = some set ∧ set.id = id := by
  obtain ⟨j, hj, hmap⟩ := Option.bind_eq_some_iff.mp h
  obtain ⟨other, hother, heq⟩ := Option.map_eq_some_iff.mp hmap
  obtain ⟨rfl, rfl⟩ := Prod.mk.inj heq
  obtain ⟨hlt, hid, -⟩ := List.findIdx?_eq_some_iff_getElem.mp hj
  rw [List.getElem?_eq_getElem hlt, Option.some.injEq] at hother
  refine ⟨by rw [List.getElem?_eq_getElem hlt, hother], ?_⟩
  simpa [hother] using hid

/-- All that a successful call can do. -/
theorem execute_move {s t : State} {i : ℕ} {id : ℤ} {p : Process}
    {stmt : Stmt} (hat : p.at stmt) (h : execute s i id p stmt = some t) :
    ∃ q, t.processes = s.processes.set i q ∧ Move s i p q t.sets := by
  unfold execute at h
  split at h
  case h_1 =>
    obtain ⟨⟨-, hfresh⟩, ht⟩ := Option.ite_none_right_eq_some.mp h
    cases ht
    exact ⟨_, rfl, .makes hat hfresh⟩
  case h_2 val hargs =>
    obtain ⟨k, hk, hbind⟩ := Option.bind_eq_some_iff.mp h
    obtain ⟨set, hset, hmap⟩ := Option.bind_eq_some_iff.mp hbind
    obtain ⟨after, hafter, rfl⟩ := Option.map_eq_some_iff.mp hmap
    exact ⟨_, rfl, .initialises hat hargs hk hset hafter⟩
  case h_3 =>
    obtain ⟨k, -, hmap⟩ := Option.bind_eq_some_iff.mp h
    obtain ⟨set, -, rfl⟩ := Option.map_eq_some_iff.mp hmap
    exact ⟨_, rfl, .passes hat rfl⟩
  case h_4 | h_6 =>
    cases h
    exact ⟨_, rfl, .passes hat rfl⟩
  case h_5 setid op hargs =>
    obtain ⟨⟨k, set⟩, hlookup, hmap⟩ := Option.bind_eq_some_iff.mp h
    obtain ⟨sem, hsem, rfl⟩ := Option.map_eq_some_iff.mp hmap
    obtain ⟨hset, hid⟩ := lookup_eq_some hlookup
    exact ⟨_, rfl, .operates hat hargs hset hid hsem⟩
  case h_7 => cases h

theorem step_move {s t : State} {i : ℕ} {id : ℤ} {p : Process}
    (h : step s i id p = some t) :
    ∃ q, t.processes = s.processes.set i q ∧ Move s i p q t.sets := by
  rcases Status.turn_eq_some h with ⟨stmt, hat, hcall⟩ | ⟨hrun, -, hend⟩
  · exact execute_move hat hcall
  · cases hend
    exact ⟨_, rfl, .ends hrun (by simp)⟩

theorem fails_move {s t : State} {i : ℕ} {errno : Errno} {p : Process}
    (h : fails s i errno p = some t) :
    ∃ q, t.processes = s.processes.set i q ∧ Move s i p q t.sets := by
  rcases Status.turn_eq_some h with ⟨stmt, hat, hcall⟩ | ⟨-, -, hnone⟩
  · obtain ⟨message, -, rfl⟩ := Option.map_eq_some_iff.mp hcall
    exact ⟨_, rfl, .ends hat.running (by simp)⟩
  · cases hnone

theorem kill_move {s t : State} {i : ℕ} {p : Process}
    (h : kill s i p = some t) :
    ∃ q, t.processes = s.processes.set i q ∧ Move s i p q t.sets := by
  obtain ⟨hrun, rfl⟩ := Status.signal_eq_some h
  exact ⟨_, rfl, .ends hrun (by simp)⟩

/-- A process is launched or makes its next call. -/
theorem next_cases {s t : State} {label : Label}
    (h : next s label = some t) :
    (∃ args, t = { s with
      processes := s.processes ++ [⟨args, 0, none, false, .running⟩] }) ∨
    ∃ i p q, s.processes[i]? = some p ∧ t.processes = s.processes.set i q ∧
      Move s i p q t.sets := by
  cases label with
  | launch args =>
      cases h
      exact Or.inl ⟨args, rfl⟩
  | step i id =>
      obtain ⟨p, hp, hstep⟩ := Option.bind_eq_some_iff.mp h
      obtain ⟨q, ht, hmove⟩ := step_move hstep
      exact Or.inr ⟨i, p, q, hp, ht, hmove⟩
  | fails i errno =>
      obtain ⟨p, hp, hfails⟩ := Option.bind_eq_some_iff.mp h
      obtain ⟨q, ht, hmove⟩ := fails_move hfails
      exact Or.inr ⟨i, p, q, hp, ht, hmove⟩
  | kill i =>
      obtain ⟨p, hp, hkill⟩ := Option.bind_eq_some_iff.mp h
      obtain ⟨q, ht, hmove⟩ := kill_move hkill
      exact Or.inr ⟨i, p, q, hp, ht, hmove⟩

/-! ### The amounts -/

/-- What the process has done to semaphore `k`, before it had its value or
after. -/
def Process.amount (late : Bool) (k : ℕ) (p : Process) : ℤ :=
  if p.set = some k ∧ .semop ∈ p.done ∧ p.late = late then p.args.semOp else 0

def State.total (s : State) (late : Bool) (k : ℕ) : ℤ :=
  (s.processes.map (Process.amount late k)).sum

/-- The value of a semaphore is its base with what has been added since. -/
structure Counted (s : State) (k : ℕ) (set : SemSet) : Prop where
  early : set.base = none →
    (set.sem.value : ℤ) = s.total false k ∧ s.total true k = 0
  late : ∀ v, set.base = some v → (set.sem.value : ℤ) = v + s.total true k

/-- Process `i` has made the set that it works with. -/
def State.Made (s : State) (i : ℕ) (p : Process) : Prop :=
  ∃ k set, p.set = some k ∧ s.sets[k]? = some set ∧ set.owner = i

/-- The process has given its set the value `v`. -/
def Process.Gave (p : Process) (v : ℤ) : Prop :=
  ∃ val, p.args = .create val ∧ .setval ∈ p.done ∧ v = atoi val

/-- The process has operated on the set with the id that it was given. -/
def State.Operated (s : State) (p : Process) : Prop :=
  ∃ k set id op, p.set = some k ∧ s.sets[k]? = some set ∧
    p.args = .operate id op ∧ set.id = atoi id

structure Inv (s : State) : Prop where
  known : ∀ p ∈ s.processes, ∀ k, p.set = some k → k < s.sets.length
  distinct : (s.sets.map SemSet.id).Nodup
  made : ∀ (i : ℕ) (p : Process), s.processes[i]? = some p →
    .semget ∈ p.done → s.Made i p
  base : ∀ (k : ℕ) (set : SemSet) (v : ℤ), s.sets[k]? = some set →
    set.base = some v → ∃ p, s.processes[set.owner]? = some p ∧ p.Gave v
  operated : ∀ p ∈ s.processes, .semop ∈ p.done → s.Operated p
  counted : ∀ k set, s.sets[k]? = some set → Counted s k set

theorem start_inv : Inv start := by
  constructor <;> simp [start]

/-- A process moves without an operation. -/
theorem total_keep {s t : State} {i : ℕ} {p q : Process}
    (hp : s.processes[i]? = some p) (ht : t.processes = s.processes.set i q)
    {late : Bool} {k : ℕ} (hq : q.amount late k = p.amount late k) :
    t.total late k = s.total late k := by
  rw [State.total, State.total, ht, map_set_eq hp hq]

theorem total_add {s t : State} {i : ℕ} {p q : Process}
    (hp : s.processes[i]? = some p) (ht : t.processes = s.processes.set i q)
    (late : Bool) (k : ℕ) :
    t.total late k + p.amount late k = s.total late k + q.amount late k := by
  rw [State.total, State.total, ht]
  exact sum_map_set (Process.amount late k) hp q

theorem Counted.congr {s t : State} {k : ℕ} {set : SemSet}
    (h : Counted s k set) (htotal : ∀ late, t.total late k = s.total late k) :
    Counted t k set := by
  constructor
  · rw [htotal, htotal]
    exact h.early
  · rw [htotal]
    exact h.late

/-- No set changes its id or its owner. -/
def Kept (s t : State) : Prop :=
  ∀ (k : ℕ) (set : SemSet), s.sets[k]? = some set →
    ∃ after, t.sets[k]? = some after ∧ after.id = set.id ∧
      after.owner = set.owner

theorem kept_of_prefix {s t : State} (h : s.sets <+: t.sets) : Kept s t :=
  fun _ set hset => ⟨set, getElem?_of_front h hset, rfl, rfl⟩

theorem Kept.length_le {s t : State} (h : Kept s t) :
    s.sets.length ≤ t.sets.length := by
  by_contra hlt
  have hk : t.sets.length < s.sets.length := by omega
  obtain ⟨after, hafter, -⟩ := h t.sets.length _ (List.getElem?_eq_getElem hk)
  exact absurd (List.getElem?_eq_some_iff.mp hafter).1 (lt_irrefl _)

theorem Kept.made {s t : State} (h : Kept s t) {i : ℕ} {p : Process}
    (hp : s.Made i p) : t.Made i p := by
  obtain ⟨k, set, hk, hset, howner⟩ := hp
  obtain ⟨after, hafter, -, hsame⟩ := h k set hset
  exact ⟨k, after, hk, hafter, hsame.trans howner⟩

theorem Kept.operated {s t : State} (h : Kept s t) {p : Process}
    (hp : s.Operated p) : t.Operated p := by
  obtain ⟨k, set, id, op, hk, hset, hargs, hid⟩ := hp
  obtain ⟨after, hafter, hsame, -⟩ := h k set hset
  exact ⟨k, after, id, op, hk, hafter, hargs, hsame.trans hid⟩

/-- What has to be seen to after the turn of a process. -/
theorem Inv.turn {s t : State} {i : ℕ} {p q : Process} (hs : Inv s)
    (hp : s.processes[i]? = some p) (ht : t.processes = s.processes.set i q)
    (hkept : Kept s t) (hdistinct : (t.sets.map SemSet.id).Nodup)
    (hknown : ∀ k, q.set = some k → k < t.sets.length)
    (hmade : .semget ∈ q.done → t.Made i q)
    (hgave : ∀ v, p.Gave v → q.Gave v)
    (hbase : ∀ (k : ℕ) (set : SemSet) (v : ℤ), t.sets[k]? = some set →
      set.base = some v →
        (∃ old, s.sets[k]? = some old ∧ old.base = some v) ∨
          set.owner = i ∧ q.Gave v)
    (hoperated : .semop ∈ q.done → t.Operated q)
    (hcounted : ∀ k set, t.sets[k]? = some set → Counted t k set) :
    Inv t := by
  refine ⟨?_, hdistinct, fun j r hr hdone => ?_, fun k set v hset hv => ?_,
    ?_, hcounted⟩
  · rw [ht]
    refine forall_mem_set (fun r hr k hk => ?_) hknown
    exact (hs.known r hr k hk).trans_le hkept.length_le
  · rw [ht] at hr
    rcases getElem?_set_cases hr with ⟨rfl, rfl⟩ | ⟨-, hold⟩
    · exact hmade hdone
    · exact hkept.made (hs.made j r hold hdone)
  · have hlt := (List.getElem?_eq_some_iff.mp hp).1
    rcases hbase k set v hset hv with ⟨old, hold, hbase⟩ | ⟨rfl, hq⟩
    · obtain ⟨after, hafter, -, howner⟩ := hkept k old hold
      obtain rfl := Option.some.inj (hset.symm.trans hafter)
      obtain ⟨r, hr, hrgave⟩ := hs.base k old v hold hbase
      rw [howner, ht]
      by_cases hi : i = old.owner
      · subst hi
        obtain rfl := Option.some.inj (hp.symm.trans hr)
        exact ⟨q, List.getElem?_set_self hlt, hgave v hrgave⟩
      · exact ⟨r, by rw [List.getElem?_set_ne hi, hr], hrgave⟩
    · exact ⟨q, by rw [ht, List.getElem?_set_self hlt], hq⟩
  · rw [ht]
    exact forall_mem_set
      (fun r hr hdone => hkept.operated (hs.operated r hr hdone)) hoperated

/-- A turn that leaves the sets alone. -/
theorem Inv.quiet {s t : State} {i : ℕ} {p q : Process} (hs : Inv s)
    (hp : s.processes[i]? = some p) (ht : t.processes = s.processes.set i q)
    (hsets : t.sets = s.sets) (hargs : q.args = p.args)
    (hset : q.set = p.set) (hlate : q.late = p.late)
    (hdone : ∀ stmt, stmt.calls = true → (stmt ∈ q.done ↔ stmt ∈ p.done)) :
    Inv t := by
  have hmem := List.mem_of_getElem? hp
  have hamount (late : Bool) (k : ℕ) : q.amount late k = p.amount late k := by
    simp only [Process.amount, hargs, hset, hlate, hdone .semop rfl]
  have hkept : Kept s t := kept_of_prefix (by rw [hsets])
  refine hs.turn hp ht hkept ?_ ?_ ?_ ?_ ?_ ?_ ?_
  · rw [hsets]
    exact hs.distinct
  · rw [hset, hsets]
    exact hs.known p hmem
  · rw [hdone .semget rfl, State.Made, hset]
    exact fun h => hkept.made (hs.made i p hp h)
  · intro v hv
    rwa [Process.Gave, hargs, hdone .setval rfl]
  · rw [hsets]
    exact fun k set v hset hv => Or.inl ⟨set, hset, hv⟩
  · rw [hdone .semop rfl, State.Operated, hset, hargs]
    exact fun h => hkept.operated (hs.operated p hmem h)
  · rw [hsets]
    exact fun k set hset => (hs.counted k set hset).congr
      fun late => total_keep hp ht (hamount late k)

theorem kept_set {s t : State} {k : ℕ} {set after : SemSet}
    (hset : s.sets[k]? = some set) (hsets : t.sets = s.sets.set k after)
    (hid : after.id = set.id) (howner : after.owner = set.owner) :
    Kept s t := by
  intro j other hother
  rw [hsets]
  by_cases hj : k = j
  · subst hj
    obtain rfl := Option.some.inj (hset.symm.trans hother)
    have hlt := (List.getElem?_eq_some_iff.mp hset).1
    exact ⟨after, List.getElem?_set_self hlt, hid, howner⟩
  · exact ⟨other, by rw [List.getElem?_set_ne hj, hother], rfl, rfl⟩

theorem Process.amount_of_not_mem {p : Process} (h : .semop ∉ p.done)
    (late : Bool) (k : ℕ) : p.amount late k = 0 :=
  if_neg fun hmem => h hmem.2.1

theorem Inv.makes {s t : State} {i : ℕ} {p : Process} {id : ℤ} (hs : Inv s)
    (hp : s.processes[i]? = some p) (hat : p.at .semget)
    (hfresh : ∀ set ∈ s.sets, set.id ≠ id)
    (hsets : t.sets = s.sets ++ [SemSet.new id i])
    (ht : t.processes = s.processes.set i
      { p with pc := p.pc + 1, set := some s.sets.length }) : Inv t := by
  obtain ⟨-, hsetval, hsemop⟩ := hat.untouched (Or.inl rfl)
  have hsemop' : Stmt.semop ∉ p.args.program.take (p.pc + 1) := by
    rw [hat.done_succ, List.mem_append, List.mem_singleton]
    simp [hsemop]
  have htotal (late : Bool) (k : ℕ) : t.total late k = s.total late k := by
    have hafter : Process.amount late k
        { p with pc := p.pc + 1, set := some s.sets.length } = 0 :=
      if_neg fun hmem => hsemop' hmem.2.1
    refine total_keep hp ht ?_
    rw [hafter, Process.amount_of_not_mem hsemop]
  have hlast : t.sets[s.sets.length]? = some (SemSet.new id i) := by
    rw [hsets, List.getElem?_concat_length]
  have hcases (k : ℕ) (set : SemSet) (hset : t.sets[k]? = some set) :
      s.sets[k]? = some set ∨ k = s.sets.length ∧ set = SemSet.new id i := by
    by_cases hk : k < s.sets.length
    · rw [hsets, List.getElem?_append_left hk] at hset
      exact Or.inl hset
    · have hlt := (List.getElem?_eq_some_iff.mp hset).1
      rw [hsets, List.length_append, List.length_singleton] at hlt
      obtain rfl : k = s.sets.length := by omega
      exact Or.inr ⟨rfl, Option.some.inj (hset.symm.trans hlast)⟩
  refine hs.turn hp ht ?_ ?_ ?_ ?_ ?_ ?_ ?_ ?_
  · exact kept_of_prefix (hsets ▸ List.prefix_append _ _)
  · rw [hsets, List.map_append]
    apply List.Nodup.append hs.distinct (List.nodup_singleton _)
    simpa [SemSet.new] using hfresh
  · rintro k ⟨⟩
    simp [hsets]
  · exact fun _ => ⟨s.sets.length, _, rfl, hlast, rfl⟩
  · rintro v ⟨val, -, hdone, -⟩
    exact absurd hdone hsetval
  · intro k set v hset hv
    rcases hcases k set hset with hold | ⟨-, rfl⟩
    · exact Or.inl ⟨set, hold, hv⟩
    · cases hv
  · exact fun hdone => absurd hdone hsemop'
  · intro k set hset
    rcases hcases k set hset with hold | ⟨rfl, rfl⟩
    · exact (hs.counted k set hold).congr fun late => htotal late k
    · -- nobody has operated on the new set
      have hzero (late : Bool) : t.total late s.sets.length = 0 := by
        rw [htotal]
        apply List.sum_eq_zero
        intro amount hamount
        obtain ⟨r, hr, rfl⟩ := List.mem_map.mp hamount
        refine if_neg fun hmine => ?_
        exact absurd (hs.known r hr _ hmine.1) (lt_irrefl _)
      exact ⟨fun _ => ⟨by rw [hzero]; rfl, hzero true⟩, fun v hv => by cases hv⟩

theorem setval_eq_some {set after : SemSet} {val : ℤ}
    (h : set.setval val = some after) :
    after.id = set.id ∧ after.owner = set.owner ∧
      (after.sem.value : ℤ) = val ∧ after.base = some val := by
  rw [SemSet.setval, Option.dite_none_right_eq_some] at h
  obtain ⟨⟨hlow, _⟩, hafter⟩ := h
  cases hafter
  exact ⟨rfl, rfl, Int.toNat_of_nonneg hlow, rfl⟩

theorem Inv.initialises {s t : State} {i k : ℕ} {p : Process}
    {set after : SemSet} {val : List Byte} (hs : Inv s)
    (hp : s.processes[i]? = some p) (hat : p.at .setval)
    (hargs : p.args = .create val) (hk : p.set = some k)
    (hset : s.sets[k]? = some set)
    (hafter : set.setval (atoi val) = some after)
    (hsets : t.sets = s.sets.set k after)
    (ht : t.processes = s.processes.set i { p with pc := p.pc + 1 }) :
    Inv t := by
  obtain ⟨hsemget, hsetval, hsemop⟩ := hat.before.2 rfl
  obtain ⟨hid, howner, hvalue, hbase⟩ := setval_eq_some hafter
  have hkept := kept_set hset hsets hid howner
  have hmine : set.owner = i := by
    obtain ⟨j, own, hj, hown, howns⟩ := hs.made i p hp hsemget
    obtain rfl := Option.some.inj (hk.symm.trans hj)
    obtain rfl := Option.some.inj (hset.symm.trans hown)
    exact howns
  -- nobody else gives it a value
  have hnone : set.base = none := by
    cases hv : set.base with
    | none => rfl
    | some v =>
        obtain ⟨r, hr, -, -, hdone, -⟩ := hs.base k set v hset hv
        rw [hmine, hp, Option.some.injEq] at hr
        exact absurd (hr ▸ hdone) hsetval
  have hdone : (p.args.program.take (p.pc + 1)) = p.done ++ [.setval] :=
    hat.done_succ
  have hsemop' : Stmt.semop ∉ p.args.program.take (p.pc + 1) := by
    rw [hdone, List.mem_append, List.mem_singleton]
    simp [hsemop]
  have htotal (late : Bool) (j : ℕ) : t.total late j = s.total late j := by
    have hsame : Process.amount late j { p with pc := p.pc + 1 } = 0 :=
      if_neg fun hmem => hsemop' hmem.2.1
    refine total_keep hp ht ?_
    rw [hsame, Process.amount_of_not_mem hsemop]
  refine hs.turn hp ht hkept ?_ ?_ ?_ ?_ ?_ ?_ ?_
  · rw [hsets, map_set_eq hset hid]
    exact hs.distinct
  · rw [hsets, List.length_set]
    exact hs.known p (List.mem_of_getElem? hp)
  · exact fun _ => hkept.made (hs.made i p hp hsemget)
  · rintro v ⟨_, -, hmem, -⟩
    exact absurd hmem hsetval
  · intro j other v hother hv
    rw [hsets] at hother
    rcases getElem?_set_cases hother with ⟨rfl, rfl⟩ | ⟨-, hold⟩
    · refine Or.inr ⟨howner.trans hmine, val, hargs, ?_, ?_⟩
      · simp [Process.done, hdone]
      · rw [hbase, Option.some.injEq] at hv
        exact hv.symm
    · exact Or.inl ⟨other, hold, hv⟩
  · exact fun hmem => absurd hmem hsemop'
  · intro j other hother
    rw [hsets] at hother
    rcases getElem?_set_cases hother with ⟨rfl, rfl⟩ | ⟨-, hold⟩
    · have hearly := ((hs.counted j set hset).early hnone).2
      refine ⟨fun hno => ?_, fun v hv => ?_⟩
      · rw [hbase] at hno
        cases hno
      · rw [hbase, Option.some.injEq] at hv
        rw [hvalue, hv, htotal, hearly, add_zero]
    · exact (hs.counted j other hold).congr fun late => htotal late j

theorem Inv.operates {s t : State} {i k : ℕ} {p : Process} {set : SemSet}
    {setid op : List Byte} {sem : Semaphore semvmx} (hs : Inv s)
    (hp : s.processes[i]? = some p) (hat : p.at .semop)
    (hargs : p.args = .operate setid op) (hset : s.sets[k]? = some set)
    (hid : set.id = atoi setid) (hsem : set.sem.op p.args.semOp = some sem)
    (hsets : t.sets = s.sets.set k { set with sem })
    (ht : t.processes = s.processes.set i
      { p with pc := p.pc + 1, set := some k, late := set.base.isSome }) :
    Inv t := by
  obtain ⟨hsemget, hsetval, hsemop⟩ := hat.untouched (Or.inr rfl)
  have hlt := (List.getElem?_eq_some_iff.mp hset).1
  have hkept := kept_set hset hsets rfl rfl
  have hvalue := (Semaphore.op_eq_some_iff.mp hsem).2
  have hmem : Stmt.semop ∈ p.args.program.take (p.pc + 1) := by
    simp [hat.done_succ]
  have htotal (late : Bool) (j : ℕ) : t.total late j = s.total late j +
      if k = j ∧ set.base.isSome = late then p.args.semOp else 0 := by
    have hadd := total_add hp ht late j
    rw [Process.amount_of_not_mem hsemop, add_zero] at hadd
    rw [hadd]
    simp [Process.amount, Process.done, hmem]
  refine hs.turn hp ht hkept ?_ ?_ ?_ ?_ ?_ ?_ ?_
  · have hmap : ({ set with sem } : SemSet).id = set.id := rfl
    rw [hsets, map_set_eq hset hmap]
    exact hs.distinct
  · rintro j ⟨⟩
    rw [hsets, List.length_set]
    exact hlt
  · intro hmade
    rw [Process.done, hat.done_succ, List.mem_append, List.mem_singleton]
      at hmade
    simp [hsemget] at hmade
  · rintro v ⟨_, -, hdone, -⟩
    exact absurd hdone hsetval
  · intro j other v hother hv
    rw [hsets] at hother
    rcases getElem?_set_cases hother with ⟨rfl, rfl⟩ | ⟨-, hold⟩
    · exact Or.inl ⟨set, hset, hv⟩
    · exact Or.inl ⟨other, hold, hv⟩
  · intro _
    refine ⟨k, { set with sem }, setid, op, rfl, ?_, hargs, hid⟩
    rw [hsets, List.getElem?_set_self hlt]
  · intro j other hother
    rw [hsets] at hother
    rcases getElem?_set_cases hother with ⟨rfl, rfl⟩ | ⟨hj, hold⟩
    · have hcount := hs.counted j set hset
      refine ⟨fun hno => ?_, fun v hv => ?_⟩
      · simp only at hno
        obtain ⟨hearly, hlate⟩ := hcount.early hno
        rw [htotal, htotal, hlate]
        simp only [hno, Option.isSome_none, and_self, if_true]
        refine ⟨by omega, by simp⟩
      · simp only at hv
        have hlate := hcount.late v hv
        rw [htotal]
        simp only [hv, Option.isSome_some, and_self, if_true]
        omega
    · refine (hs.counted j other hold).congr fun late => ?_
      rw [htotal, if_neg fun hk => hj hk.1.symm, add_zero]

theorem Move.inv {s t : State} {i : ℕ} {p q : Process}
    (hmove : Move s i p q t.sets) (hs : Inv s)
    (hp : s.processes[i]? = some p)
    (ht : t.processes = s.processes.set i q) : Inv t := by
  have hmem := List.mem_of_getElem? hp
  generalize hsets : t.sets = sets at hmove
  cases hmove with
  | ends hrun hends =>
      exact hs.quiet hp ht hsets rfl rfl rfl fun _ _ => Iff.rfl
  | @passes stmt hat hstmt =>
      refine hs.quiet hp ht hsets rfl rfl rfl fun other hother => ?_
      have hne : other ≠ stmt := by
        rintro rfl
        rw [hstmt] at hother
        cases hother
      rw [Process.done, hat.done_succ, List.mem_append, List.mem_singleton]
      simp [hne]
  | makes hat hfresh => exact hs.makes hp hat hfresh hsets ht
  | initialises hat hargs hk hset hafter =>
      exact hs.initialises hp hat hargs hk hset hafter hsets ht
  | operates hat hargs hset hid hsem =>
      exact hs.operates hp hat hargs hset hid hsem hsets ht

theorem next_inv {s t : State} {label : Label} (hs : Inv s)
    (h : next s label = some t) : Inv t := by
  rcases next_cases h with ⟨args, rfl⟩ | ⟨i, p, q, hp, ht, hmove⟩
  · have hnew (late : Bool) (k : ℕ) : ({ s with processes :=
        s.processes ++ [⟨args, 0, none, false, .running⟩] } : State).total
          late k = s.total late k := by
      simp [State.total, Process.amount]
    refine ⟨forall_mem_concat hs.known (by simp), hs.distinct,
      fun i p hp hdone => ?_, fun k set v hset hv => ?_,
      forall_mem_concat hs.operated (by simp [Process.done]), ?_⟩
    · rw [List.getElem?_append] at hp
      split at hp
      case isTrue => exact hs.made i p hp hdone
      case isFalse =>
        obtain rfl := List.mem_singleton.mp (List.mem_of_getElem? hp)
        simp [Process.done] at hdone
    · obtain ⟨p, hp, hgave⟩ := hs.base k set v hset hv
      exact ⟨p, getElem?_of_front (List.prefix_append _ _) hp, hgave⟩
    · exact fun k set hset => (hs.counted k set hset).congr
        fun late => hnew late k
  · exact hmove.inv hs hp ht

theorem exec_inv {s : State} {labels : List Label}
    (hrun : exec next start labels = some s) : Inv s :=
  exec_invariant (fun _ _ _ => next_inv) start_inv hrun

/-- However the runs are interleaved, fail and are killed: a semaphore that has
been given its value has this value and all that has been done to it since, one
that has not has what has been done to it so far, and `SETVAL` puts an end to
that.  No two sets have one id, and every operation was on the set with the id
on its command line. -/
theorem counted {s : State} {labels : List Label}
    (hrun : exec next start labels = some s) :
    (∀ (k : ℕ) (set : SemSet), s.sets[k]? = some set →
      (set.base = none → (set.sem.value : ℤ) = s.total false k ∧
        s.total true k = 0) ∧
      ∀ v, set.base = some v →
        (set.sem.value : ℤ) = v + s.total true k ∧
          ∃ p, s.processes[set.owner]? = some p ∧ p.Gave v) ∧
    (s.sets.map SemSet.id).Nodup ∧
    ∀ (i : ℕ) (p : Process), s.processes[i]? = some p → .semop ∈ p.done →
      s.Operated p := by
  have hs := exec_inv hrun
  refine ⟨fun k set hset => ⟨(hs.counted k set hset).early, fun v hv => ?_⟩,
    hs.distinct, fun i p hp => hs.operated p (List.mem_of_getElem? hp)⟩
  exact ⟨(hs.counted k set hset).late v hv, hs.base k set v hset hv⟩

/-- A set with the id 7 is used before it has its value, and after. -/
def guessed : List Label :=
  [.launch (.create (text "5")), .step 0 7,
    .launch (.operate (text "7") (text "3")), .step 1 0, .step 1 0,
    .step 0 0, .launch (.operate (text "7") (text "65534")), .step 2 0,
    .step 2 0]

theorem counted_guessed :
    ∃ s set, exec next start guessed = some s ∧ s.sets = [set] ∧
      set.sem.value = 3 ∧ (set.sem.value : ℤ) = 5 + s.total true 0 := by
  have hrun : exec next start guessed = some _ := rfl
  have hbase : some (atoi (text "5")) = some 5 := by decide
  exact ⟨_, _, hrun, rfl, by decide, (((counted hrun).1 0 _ rfl).2 5 hbase).1⟩

end SysvSem

end MyFreeLib
