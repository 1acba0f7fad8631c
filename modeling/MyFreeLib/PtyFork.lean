/-
`ptyMasterOpen` and `ptyFork` of the pseudoterminal demo: which descriptors
are open, what `errno` is and what the caller's variables hold at each of
their exits, in the parent and in the child.
-/
import MyFreeLib.ByteBuffer
import MyFreeLib.Descriptors

namespace MyFreeLib

namespace PtyFork

def eoverflow : ℤ := 75

/-- `sizeof(slname)` -/
def slnameSize : ℕ := 128

/-- What a descriptor refers to: a file that was open before, the new master
or its slave. -/
inductive File
  | inherited (file : ℕ)
  | master
  | slave
deriving DecidableEq, Repr

/-- What the calls answer; `error` with the `errno` they set.  A `close` that
fails sets `errno` too, and the number is free all the same. -/
structure Calls where
  posixOpenpt : Except ℤ Unit
  grantpt : Except ℤ Unit
  unlockpt : Except ℤ Unit
  ptsname : Except ℤ CString
  fork : Except ℤ {pid : ℤ // 0 < pid}
  setsid : Except ℤ Unit
  openSlave : Except ℤ Unit
  tiocsctty : Except ℤ Unit
  tcsetattr : Except ℤ Unit
  tiocswinsz : Except ℤ Unit
  dup2 : ℕ → Except ℤ Unit
  closeError : Option ℤ

/-- A process, with the caller's `*masterFd` and the memory that its
`slaveName` points to, if it is not `NULL`. -/
structure Process where
  table : Descriptors File
  errno : ℤ
  masterFd : ℤ
  slaveName : Option (List Byte)
deriving DecidableEq, Repr

namespace Process

/-- A call fails. -/
def fails (p : Process) (errno : ℤ) : Process := { p with errno }

def closeFd (p : Process) (calls : Calls) (fd : ℤ) : Process :=
  { p with
    table := p.table.close fd.toNat
    errno := calls.closeError.getD p.errno }

/-- `savedErrno = errno; close(fd); errno = savedErrno;` -/
def closeSaved (p : Process) (calls : Calls) (fd : ℤ) : Process :=
  { p.closeFd calls fd with errno := p.errno }

end Process

/-- `ptyMasterOpen`, with the memory at its `slaveName`. -/
def ptyMasterOpen (calls : Calls) (p : Process) (slaveName : List Byte)
    (snLen : ℕ) : Process × List Byte × ℤ :=
  match calls.posixOpenpt with
  | .error errno => (p.fails errno, slaveName, -1)
  | .ok () =>
    let masterFd : ℤ := p.table.lowestFree
    let p := { p with table := p.table.openFile .master }
    match calls.grantpt with
    | .error errno =>
        ((p.fails errno).closeSaved calls masterFd, slaveName, -1)
    | .ok () =>
      match calls.unlockpt with
      | .error errno =>
          ((p.fails errno).closeSaved calls masterFd, slaveName, -1)
      | .ok () =>
        match calls.ptsname with
        | .error errno =>
            ((p.fails errno).closeSaved calls masterFd, slaveName, -1)
        | .ok name =>
            if strlen name.memory < snLen then
              (p, strncpy slaveName name.memory snLen, masterFd)
            else
              ((p.closeFd calls masterFd).fails eoverflow, slaveName, -1)

/-- What `ptyFork` does in the child. -/
def ptyForkChild (calls : Calls) (p : Process) (mfd : ℤ)
    (slaveTermios slaveWS : Bool) : Process × ℤ :=
  match calls.setsid with
  | .error errno => (p.fails errno, -1)
  | .ok () =>
    let p := p.closeFd calls mfd
    match calls.openSlave with
    | .error errno => (p.fails errno, -1)
    | .ok () =>
      let slaveFd := p.table.lowestFree
      let p := { p with table := p.table.openFile .slave }
      match calls.tiocsctty with
      | .error errno => (p.fails errno, -1)
      | .ok () =>
        match (if slaveTermios then calls.tcsetattr else .ok ()) with
        | .error errno => (p.fails errno, -1)
        | .ok () =>
          match (if slaveWS then calls.tiocswinsz else .ok ()) with
          | .error errno => (p.fails errno, -1)
          | .ok () =>
            match calls.dup2 0 with
            | .error errno => (p.fails errno, -1)
            | .ok () =>
              let p := { p with table := p.table.dup2 slaveFd 0 }
              match calls.dup2 1 with
              | .error errno => (p.fails errno, -1)
              | .ok () =>
                let p := { p with table := p.table.dup2 slaveFd 1 }
                match calls.dup2 2 with
                | .error errno => (p.fails errno, -1)
                | .ok () =>
                  let p := { p with table := p.table.dup2 slaveFd 2 }
                  if 2 < slaveFd then (p.closeFd calls slaveFd, 0)
                  else (p, 0)

/-- From the return of `fork` on, in either process. -/
def afterFork (calls : Calls) (p : Process) (mfd : ℤ)
    (slaveTermios slaveWS : Bool) (childPid : ℤ) : Process × ℤ :=
  if childPid ≠ 0 then ({ p with masterFd := mfd }, childPid)
  else ptyForkChild calls p mfd slaveTermios slaveWS

/-- The caller of `ptyFork` and the child, if there is one, each with the
value returned to it. -/
structure Forked where
  parent : Process × ℤ
  child : Option (Process × ℤ)

/-- `ptyFork` from its `fork` on. -/
def forkWith (calls : Calls) (p : Process) (mfd : ℤ)
    (slaveTermios slaveWS : Bool) : Forked :=
  match calls.fork with
  | .error errno => ⟨((p.fails errno).closeSaved calls mfd, -1), none⟩
  | .ok pid =>
    { parent := afterFork calls p mfd slaveTermios slaveWS pid
      child := some (afterFork calls p mfd slaveTermios slaveWS 0) }

/-- `ptyFork`; `slname` is what its local array holds at first. -/
def ptyFork (calls : Calls) (p : Process) (slname : List Byte) (snLen : ℕ)
    (slaveTermios slaveWS : Bool) : Forked :=
  let (p, slname, mfd) := ptyMasterOpen calls p slname slnameSize
  if mfd = -1 then ⟨(p, -1), none⟩
  else
    match p.slaveName with
    | none => forkWith calls p mfd slaveTermios slaveWS
    | some memory =>
        if strlen slname < snLen then
          let p := { p with slaveName := some (strncpy memory slname snLen) }
          forkWith calls p mfd slaveTermios slaveWS
        else ⟨((p.closeFd calls mfd).fails eoverflow, -1), none⟩

/-! ### The parent -/

/-- What the calls let `ptyMasterOpen` come to: the name of the slave, or the
error of the first call that fails, a name that does not fit being one. -/
def Calls.masterOutcome (calls : Calls) (snLen : ℕ) : Except ℤ CString := do
  calls.posixOpenpt
  calls.grantpt
  calls.unlockpt
  let name ← calls.ptsname
  if name.bytes.length < snLen then return name else throw eoverflow

/-- What the calls let `ptyFork` come to: the name of the slave and the child,
or the first error.  `snLen` is the size of the caller's array, if there is
one. -/
def Calls.outcome (calls : Calls) (snLen : Option ℕ) :
    Except ℤ (CString × {pid : ℤ // 0 < pid}) := do
  let name ← calls.masterOutcome slnameSize
  if ∀ size ∈ snLen, name.bytes.length < size then
    return (name, ← calls.fork)
  else throw eoverflow

/-- A failure leaves no trace but `errno`. -/
structure Failed (before : Process) (errno : ℤ) (after : Process) : Prop where
  errno : after.errno = errno
  table : ∀ fd, after.table.get fd = before.table.get fd
  masterFd : after.masterFd = before.masterFd

/-- One descriptor is new, and the caller's variables tell which master and
which slave it has got. -/
structure Succeeded (before : Process) (name : CString) (after : Process) :
    Prop where
  table : ∃ mfd : ℕ, after.masterFd = mfd ∧ before.table.get mfd = none ∧
    ∀ fd, after.table.get fd =
      if fd = mfd then some .master else before.table.get fd
  slaveName : ∀ memory, before.slaveName = some memory →
    ∃ filled, after.slaveName = some filled ∧ name.memory <+: filled

/-- The process after `posix_openpt`. -/
def Process.withMaster (p : Process) : Process :=
  { p with table := p.table.openFile .master }

theorem failed_closeFd (calls : Calls) (p : Process) (errno : ℤ)
    (slaveName : Option (List Byte)) :
    Failed p errno (({ p.withMaster with slaveName }.closeFd calls
      p.table.lowestFree).fails errno) where
  errno := rfl
  table fd := p.table.get_openFile_close .master fd
  masterFd := rfl

theorem failed_closeSaved (calls : Calls) (p : Process) (errno : ℤ)
    (slaveName : Option (List Byte)) :
    Failed p errno (({ p.withMaster with slaveName }.fails errno).closeSaved
      calls p.table.lowestFree) where
  errno := rfl
  table fd := p.table.get_openFile_close .master fd
  masterFd := rfl

/-- The caller of `ptyMasterOpen` gets what the calls let it come to. -/
def MasterOk (calls : Calls) (snLen : ℕ) (before : Process)
    (result : Process × List Byte × ℤ) : Prop :=
  match calls.masterOutcome snLen with
  | .error errno => result.2.2 = -1 ∧ Failed before errno result.1
  | .ok name =>
      result.2.2 = before.table.lowestFree ∧ result.1 = before.withMaster ∧
        cString result.2.1 = name.bytes

/-- The caller of `ptyFork` gets what `outcome` says. -/
def Reports (outcome : Except ℤ (CString × {pid : ℤ // 0 < pid}))
    (before : Process) (result : Process × ℤ) : Prop :=
  match outcome with
  | .error errno => result.2 = -1 ∧ Failed before errno result.1
  | .ok (name, pid) => result.2 = pid ∧ Succeeded before name result.1

theorem ptyMasterOpen_ok (calls : Calls) (p : Process)
    (slaveName : List Byte) (snLen : ℕ) :
    MasterOk calls snLen p (ptyMasterOpen calls p slaveName snLen) := by
  unfold MasterOk Calls.masterOutcome ptyMasterOpen
  cases calls.posixOpenpt with
  | error e => exact ⟨rfl, rfl, fun _ => rfl, rfl⟩
  | ok _ =>
    cases calls.grantpt with
    | error e => exact ⟨rfl, failed_closeSaved calls p e _⟩
    | ok _ =>
      cases calls.unlockpt with
      | error e => exact ⟨rfl, failed_closeSaved calls p e _⟩
      | ok _ =>
        cases calls.ptsname with
        | error e => exact ⟨rfl, failed_closeSaved calls p e _⟩
        | ok name =>
          by_cases hfits : name.bytes.length < snLen
          · simp only [bind, Except.bind, CString.strlen_memory, hfits,
              ↓reduceIte]
            refine ⟨trivial, rfl, ?_⟩
            rw [cString_strncpy (by rwa [name.strlen_memory]),
              name.cString_memory]
          · simp only [bind, Except.bind, CString.strlen_memory, hfits,
              ↓reduceIte]
            exact ⟨trivial, failed_closeFd calls p eoverflow _⟩

/-- With the name in the caller's array, all depends on `fork`. -/
theorem forkWith_parent (calls : Calls) (p : Process) (name : CString)
    (slaveName : Option (List Byte)) (slaveTermios slaveWS : Bool)
    (hname : ∀ memory, p.slaveName = some memory →
      ∃ filled, slaveName = some filled ∧ name.memory <+: filled) :
    Reports (do return (name, ← calls.fork)) p
      (forkWith calls { p.withMaster with slaveName } p.table.lowestFree
        slaveTermios slaveWS).parent := by
  unfold forkWith
  cases calls.fork with
  | error e => exact ⟨rfl, failed_closeSaved calls p e slaveName⟩
  | ok pid =>
      have hpid : (pid : ℤ) ≠ 0 := Int.ne_of_gt pid.property
      simp only [afterFork, if_pos hpid]
      refine ⟨rfl, ⟨p.table.lowestFree, rfl, p.table.get_lowestFree, ?_⟩,
        hname⟩
      exact p.table.get_openFile .master

theorem ptyFork_parent (calls : Calls) (p : Process) (slname : List Byte)
    (snLen : ℕ) (slaveTermios slaveWS : Bool) :
    Reports (calls.outcome (p.slaveName.map fun _ => snLen)) p
      (ptyFork calls p slname snLen slaveTermios slaveWS).parent := by
  have hmaster := ptyMasterOpen_ok calls p slname slnameSize
  unfold Calls.outcome ptyFork
  generalize ptyMasterOpen calls p slname slnameSize = opened at hmaster ⊢
  obtain ⟨q, filled, mfd⟩ := opened
  unfold MasterOk at hmaster
  cases hname : calls.masterOutcome slnameSize with
  | error e =>
      rw [hname] at hmaster
      obtain ⟨rfl, hfailed⟩ := hmaster
      exact ⟨rfl, hfailed⟩
  | ok name =>
      rw [hname] at hmaster
      obtain ⟨rfl, rfl, hstring⟩ := hmaster
      have hmfd : ¬(p.table.lowestFree : ℤ) = -1 := by omega
      change Reports (if _ then _ else _) p _
      simp only [if_neg hmfd]
      cases hslave : p.slaveName with
      | none =>
          rw [if_pos (by simp)]
          simp only [Process.withMaster, hslave]
          exact forkWith_parent calls p name none slaveTermios slaveWS
            (by simp [hslave])
      | some memory =>
          have hlength : strlen filled = name.bytes.length := by
            rw [strlen, ← hstring]
          simp only [Process.withMaster, hslave]
          by_cases hfits : strlen filled < snLen
          · rw [if_pos (by simpa [← hlength] using hfits), if_pos hfits]
            apply forkWith_parent
            refine fun _ _ => ⟨_, rfl, ?_⟩
            rw [CString.memory, ← hstring]
            exact strncpy_of_fits hfits
          · rw [if_neg (by simpa [← hlength] using hfits), if_neg hfits]
            exact ⟨rfl, failed_closeFd calls p eoverflow (some memory)⟩

/-! ### The child -/

/-- The child's standard descriptors are the slave, and nothing else is left
of what `ptyFork` has opened. -/
structure Connected (before after : Process) : Prop where
  standard : ∀ fd, fd ≤ 2 → after.table.get fd = some .slave
  others : ∀ fd, 2 < fd → after.table.get fd = before.table.get fd

/-- The three `dup2` and the `close` behind them, on a table in which the
slave has the lowest free number: up to 2 it is one of the three itself. -/
theorem connected_of_dup2 (calls : Calls) {before p : Process}
    (hp : ∀ fd, p.table.get fd = before.table.get fd) :
    let slaveFd := p.table.lowestFree
    let table := (((p.table.openFile .slave).dup2 slaveFd 0).dup2
      slaveFd 1).dup2 slaveFd 2
    Connected before (if 2 < slaveFd then
      { p with table }.closeFd calls slaveFd else { p with table }) := by
  intro slaveFd table
  have hstandard : ∀ fd, fd ≤ 2 → table.get fd = some .slave := by
    intro fd hfd
    have hcases : fd = 0 ∨ fd = 1 ∨ fd = 2 := by omega
    rcases hcases with rfl | rfl | rfl <;> simp [table, slaveFd]
  have hothers : ∀ fd, 2 < fd → fd ≠ slaveFd →
      table.get fd = before.table.get fd := by
    intro fd hfd hne
    have h0 : fd ≠ 0 := by omega
    have h1 : fd ≠ 1 := by omega
    have h2 : fd ≠ 2 := by omega
    simp only [table, Descriptors.get_dup2, h0, h1, h2, ↓reduceIte]
    rw [Descriptors.get_openFile, if_neg hne, hp]
  by_cases hslave : 2 < slaveFd
  · rw [if_pos hslave]
    constructor
    · intro fd hfd
      have hne : fd ≠ slaveFd := by omega
      simp [Process.closeFd, hne, hstandard fd hfd]
    · intro fd hfd
      by_cases hne : fd = slaveFd
      · rw [hne, ← hp, p.table.get_lowestFree]
        simp [Process.closeFd]
      · simp [Process.closeFd, hne, hothers fd hfd hne]
  · rw [if_neg hslave]
    exact ⟨hstandard, fun fd hfd => hothers fd hfd (by omega)⟩

theorem ptyForkChild_connected {calls : Calls} {before p after : Process}
    {mfd : ℤ} {slaveTermios slaveWS : Bool}
    (hp : ∀ fd, (p.table.close mfd.toNat).get fd = before.table.get fd)
    (h : ptyForkChild calls p mfd slaveTermios slaveWS = (after, 0)) :
    Connected before after := by
  unfold ptyForkChild at h
  -- a call that fails makes the child return -1
  iterate 8
    split at h
    · exact absurd (Prod.mk.inj h).2 (by decide)
  have hconnected := connected_of_dup2 calls (p := p.closeFd calls mfd) hp
  dsimp only at h hconnected
  split at h
  case isTrue hslave =>
    rw [if_pos hslave] at hconnected
    exact (Prod.mk.inj h).1 ▸ hconnected
  case isFalse hslave =>
    rw [if_neg hslave] at hconnected
    exact (Prod.mk.inj h).1 ▸ hconnected

/-- The child starts with the master open besides what its parent had. -/
theorem forkWith_child {calls : Calls} {p after : Process}
    {slaveName : Option (List Byte)} {slaveTermios slaveWS : Bool}
    (h : (forkWith calls { p.withMaster with slaveName } p.table.lowestFree
      slaveTermios slaveWS).child = some (after, 0)) :
    Connected p after := by
  unfold forkWith at h
  split at h
  · cases h
  · simp only [afterFork, ne_eq, not_true_eq_false, ↓reduceIte,
      Option.some.injEq] at h
    exact ptyForkChild_connected (p.table.get_openFile_close .master) h

theorem ptyFork_child {calls : Calls} {p after : Process}
    {slname : List Byte} {snLen : ℕ} {slaveTermios slaveWS : Bool}
    (h : (ptyFork calls p slname snLen slaveTermios slaveWS).child =
      some (after, 0)) : Connected p after := by
  have hmaster := ptyMasterOpen_ok calls p slname slnameSize
  unfold ptyFork at h
  generalize ptyMasterOpen calls p slname slnameSize = opened at hmaster h
  obtain ⟨q, filled, mfd⟩ := opened
  unfold MasterOk at hmaster
  cases hname : calls.masterOutcome slnameSize with
  | error e =>
      rw [hname] at hmaster
      obtain ⟨rfl, -⟩ := hmaster
      cases h
  | ok name =>
      rw [hname] at hmaster
      obtain ⟨rfl, rfl, -⟩ := hmaster
      have hmfd : ¬(p.table.lowestFree : ℤ) = -1 := by omega
      simp only [if_neg hmfd] at h
      split at h
      · exact forkWith_child h
      · split at h
        · exact forkWith_child h
        · cases h

/-- The master that `ptyFork` has opened is closed in the child. -/
theorem Connected.master {before after : Process}
    (h : Connected before after) {fd : ℕ}
    (hfd : after.table.get fd = some .master) :
    before.table.get fd = some .master := by
  rcases Nat.lt_or_ge 2 fd with hlarge | hsmall
  · rwa [h.others fd hlarge] at hfd
  · rw [h.standard fd hsmall] at hfd
    cases hfd

/-- Whatever is open at first and whatever the calls answer: the parent gets
the first error, and nothing else has changed, or the child and one new
descriptor; and a child to which `ptyFork` returns 0 has the slave on its
standard descriptors and nothing else that is new. -/
theorem ptyFork_correct (calls : Calls) (p : Process) (slname : List Byte)
    (snLen : ℕ) (slaveTermios slaveWS : Bool) :
    let forked := ptyFork calls p slname snLen slaveTermios slaveWS
    Reports (calls.outcome (p.slaveName.map fun _ => snLen)) p
      forked.parent ∧
    ∀ after, forked.child = some (after, 0) →
      Connected p after ∧ ∀ fd, after.table.get fd = some .master →
        p.table.get fd = some .master := by
  refine ⟨ptyFork_parent calls p slname snLen slaveTermios slaveWS,
    fun after h => ?_⟩
  have hconnected := ptyFork_child h
  exact ⟨hconnected, fun fd hfd => hconnected.master hfd⟩

/-- Every call succeeds, and the slave is called `p`. -/
def allSucceed : Calls where
  posixOpenpt := .ok ()
  grantpt := .ok ()
  unlockpt := .ok ()
  ptsname := .ok ⟨[112], by decide⟩
  fork := .ok ⟨7, by decide⟩
  setsid := .ok ()
  openSlave := .ok ()
  tiocsctty := .ok ()
  tcsetattr := .ok ()
  tiocswinsz := .ok ()
  dup2 _ := .ok ()
  closeError := none

/-- Standard input and standard error are closed. -/
def halfClosed : Process where
  table := ⟨[none, some (.inherited 1), none, some (.inherited 2)]⟩
  errno := 0
  masterFd := -1
  slaveName := some [9, 9]

theorem ptyFork_correct_halfClosed :
    ∃ parent child, ptyFork allSucceed halfClosed [] 2 true true =
        ⟨(parent, 7), some (child, 0)⟩ ∧
      Succeeded halfClosed ⟨[112], by decide⟩ parent ∧
      Connected halfClosed child := by
  obtain ⟨hparent, hchild⟩ :=
    ptyFork_correct allSucceed halfClosed [] 2 true true
  exact ⟨_, _, rfl, hparent.2, (hchild _ rfl).1⟩

end PtyFork

end MyFreeLib
