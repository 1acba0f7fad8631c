/-
The threads of the stream server.  The accept loop puts each new descriptor
into a block of its own and hands the block to a detached thread, which closes
the one and frees the other; where no thread comes into being the loop does
both.  A `malloc` that fails is noticed only where the block is filled.
-/
import MyFreeLib.Descriptors
import MyFreeLib.LabelledRun
import MyFreeLib.ProcessTable

namespace MyFreeLib

namespace StrServerDemo

/-- What a descriptor refers to: the connection accepted as number `n`, or
another file. -/
inductive File
  | connection (n : ℕ)
  | other
deriving DecidableEq, Repr

/-- A block with the descriptor stored in it, allocated for connection `n`. -/
structure Block where
  cfd : ℕ
  n : ℕ
deriving DecidableEq, Repr

/-- The accept loop, or the thread created for connection `n`. -/
inductive Actor
  | loop
  | thread (n : ℕ)
deriving DecidableEq, Repr

/-- The call of the accept loop that comes next, with `cfd` and `pcfd`, which
is none for `NULL`. -/
inductive LoopPc
  | accept
  | malloc (cfd : ℕ)
  | create (cfd : ℕ) (pcfd : Option ℕ)
  | close (cfd : ℕ) (pcfd : Option ℕ)
  | free (pcfd : Option ℕ)
  | returned
deriving DecidableEq, Repr

inductive ThreadPc
  | recv
  | close
  | free
  | returned
deriving DecidableEq, Repr

/-- A thread with its argument; `started`, whether it has made a step, is
history. -/
structure Thread where
  pcfd : Option ℕ
  pc : ThreadPc
  started : Bool
deriving DecidableEq, Repr

/-- An accepted connection, with the thread created for it.  The rest is
history: who has received from it and who has closed it, whether it has had a
block, and who has freed that. -/
structure Connection where
  thread : Option Thread
  users : List Actor
  closes : List Actor
  allocated : Bool
  frees : List Actor
deriving DecidableEq, Repr

def Connection.accepted : Connection where
  thread := none
  users := []
  closes := []
  allocated := false
  frees := []

/-- An access through a pointer that is null, or to a block that has been
freed. -/
inductive Fault
  | null
  | dangling
deriving DecidableEq, Repr

/-- The heap is a table as well, from addresses to blocks.  `strays`, who has
used a descriptor that is no connection, is history. -/
structure State where
  loop : LoopPc
  table : Descriptors File
  heap : Descriptors Block
  conns : List Connection
  strays : List Actor
  fault : Option Fault
deriving DecidableEq, Repr

/-- The socket listens; the first `others` descriptors are open. -/
def start (others : ℕ) : State where
  loop := .accept
  table := ⟨List.replicate others (some .other)⟩
  heap := ⟨[]⟩
  conns := []
  strays := []
  fault := none

/-- The call of the accept loop and what it comes to, or the next call of the
thread created for connection `n`; `more` says whether a `recv` returns any
bytes. -/
inductive Label
  | accept (ok : Bool)
  | malloc (pcfd : Option ℕ)
  | create (ok : Bool)
  | close
  | free
  | thread (n : ℕ) (more : Bool)
deriving DecidableEq, Repr

def State.modifyConn (s : State) (n : ℕ) (change : Connection → Connection) :
    State :=
  { s with conns := s.conns.modify n change }

def State.setThread (s : State) (n : ℕ) (thread : Thread) : State :=
  s.modifyConn n fun c => { c with thread := some thread }

/-- `*pcfd` -/
def State.deref (s : State) : Option ℕ → Except Fault ℕ
  | none => .error .null
  | some addr =>
      match s.heap.get addr with
      | none => .error .dangling
      | some block => .ok block.cfd

/-- `recv(cfd, ...)` -/
def State.recv (s : State) (actor : Actor) (cfd : ℕ) : State :=
  match s.table.get cfd with
  | some (.connection n) =>
      s.modifyConn n fun c => { c with users := c.users ++ [actor] }
  | _ => { s with strays := s.strays ++ [actor] }

/-- `close(cfd)` -/
def State.close (s : State) (actor : Actor) (cfd : ℕ) : State :=
  match s.table.get cfd with
  | some (.connection n) =>
      { s.modifyConn n fun c => { c with closes := c.closes ++ [actor] } with
        table := s.table.close cfd }
  | _ => { s with
      table := s.table.close cfd
      strays := s.strays ++ [actor] }

/-- `free(pcfd)`, which does nothing to `NULL`. -/
def State.free (s : State) (actor : Actor) : Option ℕ → State
  | none => s
  | some addr =>
      match s.heap.get addr with
      | none => { s with fault := some .dangling }
      | some block =>
          { s.modifyConn block.n fun c =>
              { c with frees := c.frees ++ [actor] } with
            heap := s.heap.update addr none }

/-- The thread of connection `n`, with its `pcfd` as argument. -/
def strServer (s : State) (n : ℕ) (thread : Thread) (more : Bool) :
    Option State :=
  match thread.pc with
  | .recv =>
      match s.deref thread.pcfd with
      | .error fault => some
          { s.setThread n { thread with started := true } with
            fault := some fault }
      | .ok cfd => some ((s.recv (.thread n) cfd).setThread n
          ⟨thread.pcfd, if more then .recv else .close, true⟩)
  | .close =>
      match s.deref thread.pcfd with
      | .error fault => some { s with fault := some fault }
      | .ok cfd => some ((s.close (.thread n) cfd).setThread n
          ⟨thread.pcfd, .free, true⟩)
  | .free => some ((s.free (.thread n) thread.pcfd).setThread n
      ⟨thread.pcfd, .returned, true⟩)
  | .returned => none

/-- The connection that the accept loop works on. -/
def State.last (s : State) : ℕ := s.conns.length - 1

/-- The accept loop.  Its store to `*pcfd` is left out if `malloc` returns
`NULL`, and the thread is created all the same. -/
def strServerDemo (s : State) (label : Label) : Option State :=
  match s.loop, label with
  | .accept, .accept true => some { s with
      table := s.table.openFile (.connection s.conns.length)
      conns := s.conns ++ [Connection.accepted]
      loop := .malloc s.table.lowestFree }
  | .accept, .accept false => some { s with loop := .returned }
  | .malloc cfd, .malloc none => some { s with loop := .create cfd none }
  | .malloc cfd, .malloc (some addr) =>
      if s.heap.get addr = none then some
        { s.modifyConn s.last fun c => { c with allocated := true } with
          heap := s.heap.update addr (some ⟨cfd, s.last⟩)
          loop := .create cfd (some addr) }
      else none
  | .create _ pcfd, .create true => some
      { s.setThread s.last ⟨pcfd, .recv, false⟩ with loop := .accept }
  | .create cfd pcfd, .create false =>
      some { s with loop := .close cfd pcfd }
  | .close cfd pcfd, .close =>
      some { s.close .loop cfd with loop := .free pcfd }
  | .free pcfd, .free => some { s.free .loop pcfd with loop := .accept }
  | _, _ => none

/-- The thread created for connection `n`. -/
def State.threadOf (s : State) (n : ℕ) : Option Thread :=
  s.conns[n]?.bind Connection.thread

/-- A fault ends the process. -/
def next (s : State) (label : Label) : Option State :=
  if s.fault ≠ none then none
  else
    match label with
    | .thread n more =>
        (s.threadOf n).bind fun thread => strServer s n thread more
    | _ => strServerDemo s label

/-- The loop has a descriptor that nobody else will close. -/
def LoopPc.holdsFd : LoopPc → Bool
  | .malloc _ | .create _ _ | .close _ _ => true
  | _ => false

def LoopPc.busy : LoopPc → Bool
  | .malloc _ | .create _ _ | .close _ _ | .free _ => true
  | .accept | .returned => false

/-- The accept loop as seen from connection `n`: once it has gone on it has
nothing more to do with it. -/
def State.loopFor (s : State) (n : ℕ) : LoopPc :=
  if n + 1 = s.conns.length then s.loop else .accept

/-- Who has closed connection `n` by now, if everything is right: its thread,
or the loop when it has gone on without a thread. -/
def Connection.closer (c : Connection) (n : ℕ) (pc : LoopPc) :
    Option Actor :=
  match c.thread with
  | some thread =>
      if thread.pc = .free ∨ thread.pc = .returned then some (.thread n)
      else none
  | none => if pc.holdsFd then none else some .loop

/-- Who has freed the block of connection `n` by now, likewise. -/
def Connection.freer (c : Connection) (n : ℕ) (pc : LoopPc) :
    Option Actor :=
  if c.allocated then
    match c.thread with
    | some thread =>
        if thread.pc = .returned then some (.thread n) else none
    | none => if pc.busy then none else some .loop
  else none

/-- Connection `n` is used by its own thread only and closed once, by the one
who has it, and its block is freed once. -/
structure Connection.Sound (c : Connection) (n : ℕ) (pc : LoopPc) : Prop where
  users : ∀ actor ∈ c.users, actor = .thread n
  closes : c.closes = (c.closer n pc).toList
  frees : c.frees = (c.freer n pc).toList

/-- So it is for every connection; nobody uses another descriptor, and no
pointer is null or stale. -/
structure Sound (s : State) : Prop where
  fault : s.fault = none
  strays : s.strays = []
  conns : ∀ n (c : Connection), s.conns[n]? = some c → c.Sound n (s.loopFor n)

/-- A thread created now would get `NULL`. -/
def LoopPc.nullArg : LoopPc → Bool
  | .create _ none => true
  | _ => false

/-- No thread is created without a block. -/
def NoNull (s : State) (label : Label) (_ : State) : Prop :=
  label = .create true → s.loop.nullArg = false

instance (s : State) (label : Label) (t : State) :
    Decidable (NoNull s label t) :=
  inferInstanceAs (Decidable (_ → _))

/-- The block at `pcfd` is the one that connection `n` has had. -/
def HoldsBlock (heap : Descriptors Block) (cfd n : ℕ) (c : Connection) :
    Option ℕ → Prop
  | none => c.allocated = false
  | some addr => c.allocated = true ∧ heap.get addr = some ⟨cfd, n⟩

/-- The descriptor and the block of connection `n`, with whoever has them. -/
def Held (table : Descriptors File) (heap : Descriptors Block) (pc : LoopPc)
    (n : ℕ) (c : Connection) : Prop :=
  match c.thread with
  | some thread =>
      pc.busy = false ∧
        match thread.pc with
        | .recv | .close => ∃ addr cfd, thread.pcfd = some addr ∧
            HoldsBlock heap cfd n c (some addr) ∧
            table.get cfd = some (.connection n)
        | .free => ∃ addr cfd, thread.pcfd = some addr ∧
            HoldsBlock heap cfd n c (some addr)
        | .returned => True
  | none =>
      match pc with
      | .malloc cfd => HoldsBlock heap cfd n c none ∧
          table.get cfd = some (.connection n)
      | .create cfd pcfd | .close cfd pcfd => HoldsBlock heap cfd n c pcfd ∧
          table.get cfd = some (.connection n)
      | .free pcfd => ∃ cfd, HoldsBlock heap cfd n c pcfd
      | .accept | .returned => True

structure Inv (s : State) : Prop where
  fault : s.fault = none
  strays : s.strays = []
  sound : ∀ n (c : Connection), s.conns[n]? = some c → c.Sound n (s.loopFor n)
  held : ∀ n c, s.conns[n]? = some c →
    Held s.table s.heap (s.loopFor n) n c
  busy : s.loop.busy = true → s.conns ≠ []

theorem start_inv (others : ℕ) : Inv (start others) where
  fault := rfl
  strays := rfl
  sound := by simp [start]
  held := by simp [start]
  busy := nofun

theorem HoldsBlock.mono {heap heap' : Descriptors Block} {cfd n : ℕ}
    {c : Connection} {pcfd : Option ℕ} (h : HoldsBlock heap cfd n c pcfd)
    (hheap : ∀ addr cfd, heap.get addr = some ⟨cfd, n⟩ →
      heap'.get addr = some ⟨cfd, n⟩) : HoldsBlock heap' cfd n c pcfd := by
  cases pcfd with
  | none => exact h
  | some addr => exact ⟨h.1, hheap addr cfd h.2⟩

/-- What is done to other descriptors and blocks does not matter. -/
theorem Held.mono {table table' : Descriptors File}
    {heap heap' : Descriptors Block} {pc : LoopPc} {n : ℕ} {c : Connection}
    (h : Held table heap pc n c)
    (htable : ∀ cfd, table.get cfd = some (.connection n) →
      table'.get cfd = some (.connection n))
    (hheap : ∀ addr cfd, heap.get addr = some ⟨cfd, n⟩ →
      heap'.get addr = some ⟨cfd, n⟩) : Held table' heap' pc n c := by
  cases hthread : c.thread with
  | some thread =>
      simp only [Held, hthread] at h ⊢
      refine ⟨h.1, ?_⟩
      have hheld := h.2
      cases hpc : thread.pc with
      | recv | close =>
          simp only [hpc] at hheld ⊢
          obtain ⟨addr, cfd, hpcfd, hblock, hfd⟩ := hheld
          exact ⟨addr, cfd, hpcfd, hblock.mono hheap, htable cfd hfd⟩
      | free =>
          simp only [hpc] at hheld ⊢
          obtain ⟨addr, cfd, hpcfd, hblock⟩ := hheld
          exact ⟨addr, cfd, hpcfd, hblock.mono hheap⟩
      | returned => trivial
  | none =>
      simp only [Held, hthread] at h ⊢
      cases pc with
      | malloc cfd | create cfd pcfd | close cfd pcfd =>
          exact ⟨h.1.mono hheap, htable cfd h.2⟩
      | free pcfd =>
          obtain ⟨cfd, hblock⟩ := h
          exact ⟨cfd, hblock.mono hheap⟩
      | accept | returned => trivial

theorem State.loopFor_last {s : State} (h : s.conns ≠ []) :
    s.loopFor s.last = s.loop := by
  have hpos := List.length_pos_iff.mpr h
  rw [loopFor, last, if_pos (by omega)]

/-- One connection moves: nothing of the others is touched. -/
theorem Inv.moves {s t : State} {n : ℕ} {c c' : Connection} (hs : Inv s)
    (hc : s.conns[n]? = some c) (hfault : t.fault = none)
    (hstrays : t.strays = []) (hconns : t.conns = s.conns.set n c')
    (hloop : t.loop = s.loop ∨ n = s.last)
    (htable : ∀ m, m ≠ n → ∀ cfd, s.table.get cfd = some (.connection m) →
      t.table.get cfd = some (.connection m))
    (hheap : ∀ m, m ≠ n → ∀ addr cfd, s.heap.get addr = some ⟨cfd, m⟩ →
      t.heap.get addr = some ⟨cfd, m⟩)
    (hsound : c'.Sound n (t.loopFor n))
    (hheld : Held t.table t.heap (t.loopFor n) n c') : Inv t := by
  have hlength : t.conns.length = s.conns.length := by
    rw [hconns, List.length_set]
  have hn := (List.getElem?_eq_some_iff.mp hc).1
  have hother (m : ℕ) (hm : m < s.conns.length) (hne : m ≠ n) :
      t.loopFor m = s.loopFor m := by
    rcases hloop with hloop | hlast
    · rw [State.loopFor, hlength, hloop, State.loopFor]
    · rw [State.last] at hlast
      rw [State.loopFor, State.loopFor, hlength, if_neg (by omega),
        if_neg (by omega)]
  refine ⟨hfault, hstrays, ?_, ?_, ?_⟩
  · intro m d hd
    rw [hconns] at hd
    rcases getElem?_set_cases hd with ⟨rfl, rfl⟩ | ⟨hne, hold⟩
    · exact hsound
    · rw [hother m (List.getElem?_eq_some_iff.mp hold).1 hne]
      exact hs.sound m d hold
  · intro m d hd
    rw [hconns] at hd
    rcases getElem?_set_cases hd with ⟨rfl, rfl⟩ | ⟨hne, hold⟩
    · exact hheld
    · rw [hother m (List.getElem?_eq_some_iff.mp hold).1 hne]
      exact (hs.held m d hold).mono (htable m hne) (hheap m hne)
  · intro _
    apply List.ne_nil_of_length_pos
    omega

/-- The thread of a connection moves. -/
theorem Inv.thread_moves {s t : State} {n : ℕ} {c c' : Connection}
    (hs : Inv s) (hc : s.conns[n]? = some c) (hfault : t.fault = none)
    (hstrays : t.strays = []) (hconns : t.conns = s.conns.set n c')
    (hloop : t.loop = s.loop)
    (htable : ∀ m, m ≠ n → ∀ cfd, s.table.get cfd = some (.connection m) →
      t.table.get cfd = some (.connection m))
    (hheap : ∀ m, m ≠ n → ∀ addr cfd, s.heap.get addr = some ⟨cfd, m⟩ →
      t.heap.get addr = some ⟨cfd, m⟩)
    (hsound : c'.Sound n (s.loopFor n))
    (hheld : Held t.table t.heap (s.loopFor n) n c') : Inv t := by
  have hsame : t.loopFor n = s.loopFor n := by
    rw [State.loopFor, hconns, List.length_set, hloop, State.loopFor]
  exact hs.moves hc hfault hstrays hconns (Or.inl hloop) htable hheap
    (hsame ▸ hsound) (hsame ▸ hheld)

/-- A descriptor that is closed is no other connection's. -/
theorem get_close_of_ne {table : Descriptors File} {cfd n : ℕ}
    (hfd : table.get cfd = some (.connection n)) :
    ∀ m, m ≠ n → ∀ cfd', table.get cfd' = some (.connection m) →
      (table.close cfd).get cfd' = some (.connection m) := by
  intro m hm cfd' hother
  rw [Descriptors.get_close, if_neg, hother]
  rintro rfl
  rw [hfd, Option.some.injEq, File.connection.injEq] at hother
  exact hm hother.symm

theorem get_free_of_ne {heap : Descriptors Block} {addr cfd n : ℕ}
    (hblock : heap.get addr = some ⟨cfd, n⟩) :
    ∀ m, m ≠ n → ∀ addr' cfd', heap.get addr' = some ⟨cfd', m⟩ →
      (heap.update addr none).get addr' = some ⟨cfd', m⟩ := by
  intro m hm addr' cfd' hother
  rw [Descriptors.get_update, if_neg, hother]
  rintro rfl
  rw [hblock, Option.some.injEq, Block.mk.injEq] at hother
  exact hm hother.2.symm

theorem strServer_inv {s t : State} {n : ℕ} {c : Connection}
    {thread : Thread} {more : Bool} (hs : Inv s) (hc : s.conns[n]? = some c)
    (hthread : c.thread = some thread)
    (h : strServer s n thread more = some t) : Inv t := by
  have hheld := hs.held n c hc
  obtain ⟨husers, hcloses, hfrees⟩ := hs.sound n c hc
  simp only [Held, hthread] at hheld
  obtain ⟨hbusy, hheld⟩ := hheld
  cases hpc : thread.pc with
  | recv =>
      simp only [hpc] at hheld
      obtain ⟨addr, cfd, hpcfd, ⟨halloc, hblock⟩, hfd⟩ := hheld
      have hderef : s.deref thread.pcfd = .ok cfd := by
        simp [State.deref, hpcfd, hblock]
      simp only [strServer, hpc, hderef, State.recv, hfd,
        Option.some.injEq] at h
      subst h
      refine hs.thread_moves hc hs.fault hs.strays
        ((List.modify_modify_eq ..).trans (modify_eq_set hc _)) rfl
        (fun _ _ _ => id) (fun _ _ _ _ => id) ⟨?_, ?_, ?_⟩ ?_
      · exact forall_mem_concat husers rfl
      · cases more <;> simpa [Connection.closer, hthread, hpc] using hcloses
      · cases more <;>
          simpa [Connection.freer, hthread, hpc, halloc] using hfrees
      · cases more <;>
          exact ⟨hbusy, addr, cfd, hpcfd, ⟨halloc, hblock⟩, hfd⟩
  | close =>
      simp only [hpc] at hheld
      obtain ⟨addr, cfd, hpcfd, ⟨halloc, hblock⟩, hfd⟩ := hheld
      have hderef : s.deref thread.pcfd = .ok cfd := by
        simp [State.deref, hpcfd, hblock]
      simp only [strServer, hpc, hderef, State.close, hfd,
        Option.some.injEq] at h
      subst h
      refine hs.thread_moves hc hs.fault hs.strays
        ((List.modify_modify_eq ..).trans (modify_eq_set hc _)) rfl
        (get_close_of_ne hfd) (fun _ _ _ _ => id) ⟨husers, ?_, ?_⟩ ?_
      · simpa [Connection.closer, hthread, hpc] using hcloses
      · simpa [Connection.freer, hthread, hpc, halloc] using hfrees
      · exact ⟨hbusy, addr, cfd, hpcfd, halloc, hblock⟩
  | free =>
      simp only [hpc] at hheld
      obtain ⟨addr, cfd, hpcfd, halloc, hblock⟩ := hheld
      simp only [strServer, hpc, hpcfd, State.free, hblock,
        Option.some.injEq] at h
      subst h
      refine hs.thread_moves hc hs.fault hs.strays
        ((List.modify_modify_eq ..).trans (modify_eq_set hc _)) rfl
        (fun _ _ _ => id) (get_free_of_ne hblock) ⟨husers, ?_, ?_⟩ ?_
      · simpa [Connection.closer, hthread, hpc] using hcloses
      · simpa [Connection.freer, hthread, hpc, halloc] using hfrees
      · exact ⟨hbusy, trivial⟩
  | returned =>
      simp only [strServer, hpc] at h
      cases h

/-- The connection that the loop works on has no thread yet. -/
theorem Inv.working {s : State} (hs : Inv s) (hbusy : s.loop.busy = true) :
    ∃ c, s.conns[s.last]? = some c ∧ c.thread = none ∧
      c.Sound s.last s.loop ∧ Held s.table s.heap s.loop s.last c := by
  have hne := hs.busy hbusy
  have hlt : s.last < s.conns.length := by
    have hpos := List.length_pos_iff.mpr hne
    rw [State.last]
    omega
  have hc := List.getElem?_eq_getElem hlt
  have hsound := hs.sound _ _ hc
  have hheld := hs.held _ _ hc
  rw [s.loopFor_last hne] at hsound hheld
  refine ⟨s.conns[s.last], hc, ?_, hsound, hheld⟩
  cases hthread : (s.conns[s.last]).thread with
  | none => rfl
  | some thread =>
      simp only [Held, hthread, hbusy] at hheld
      exact absurd hheld.1 (by simp)

/-- The accept loop moves. -/
theorem Inv.loop_moves {s t : State} {c c' : Connection} (hs : Inv s)
    (hc : s.conns[s.last]? = some c) (hfault : t.fault = none)
    (hstrays : t.strays = []) (hconns : t.conns = s.conns.set s.last c')
    (htable : ∀ m, m ≠ s.last → ∀ cfd,
      s.table.get cfd = some (.connection m) →
        t.table.get cfd = some (.connection m))
    (hheap : ∀ m, m ≠ s.last → ∀ addr cfd,
      s.heap.get addr = some ⟨cfd, m⟩ → t.heap.get addr = some ⟨cfd, m⟩)
    (hsound : c'.Sound s.last t.loop)
    (hheld : Held t.table t.heap t.loop s.last c') : Inv t := by
  have hlength : t.conns.length = s.conns.length := by
    rw [hconns, List.length_set]
  have hlast : t.last = s.last := by rw [State.last, hlength, State.last]
  have hne : t.conns ≠ [] := by
    have hlt := (List.getElem?_eq_some_iff.mp hc).1
    apply List.ne_nil_of_length_pos
    omega
  have hloop := t.loopFor_last hne
  rw [hlast] at hloop
  exact hs.moves hc hfault hstrays hconns (Or.inr rfl) htable hheap
    (hloop ▸ hsound) (hloop ▸ hheld)

/-- An accepted descriptor gets a number that was free. -/
theorem get_open_of_get {table : Descriptors File} {file : File} {n cfd : ℕ}
    (h : table.get cfd = some (.connection n)) :
    (table.openFile file).get cfd = some (.connection n) := by
  rw [Descriptors.get_openFile, if_neg, h]
  rintro rfl
  rw [table.get_lowestFree] at h
  cases h

theorem accept_inv {s : State} (hs : Inv s) (hpc : s.loop = .accept) :
    Inv { s with
      table := s.table.openFile (.connection s.conns.length)
      conns := s.conns ++ [Connection.accepted]
      loop := .malloc s.table.lowestFree } := by
  have hold (m : ℕ) : s.loopFor m = .accept := by
    rw [State.loopFor, hpc, ite_self]
  have hcases {m : ℕ} {d : Connection}
      (hd : (s.conns ++ [Connection.accepted])[m]? = some d) :
      m < s.conns.length ∧ s.conns[m]? = some d ∨
        m = s.conns.length ∧ d = Connection.accepted := by
    rcases Nat.lt_or_ge m s.conns.length with hlt | hge
    · rw [List.getElem?_append_left hlt] at hd
      exact Or.inl ⟨hlt, hd⟩
    · rw [List.getElem?_append_right hge, List.getElem?_singleton] at hd
      split at hd
      · exact Or.inr ⟨by omega, (Option.some.inj hd).symm⟩
      · cases hd
  refine ⟨hs.fault, hs.strays, ?_, ?_, by simp⟩
  · intro m d hd
    rcases hcases hd with ⟨hlt, hd⟩ | ⟨rfl, rfl⟩
    · have hsound := hs.sound m d hd
      rw [hold] at hsound
      rw [State.loopFor, List.length_append, List.length_singleton,
        if_neg (by omega)]
      exact hsound
    · rw [State.loopFor, List.length_append, List.length_singleton, if_pos rfl]
      exact ⟨nofun, rfl, rfl⟩
  · intro m d hd
    rcases hcases hd with ⟨hlt, hd⟩ | ⟨rfl, rfl⟩
    · have hheld := hs.held m d hd
      rw [hold] at hheld
      rw [State.loopFor, List.length_append, List.length_singleton,
        if_neg (by omega)]
      exact hheld.mono (fun _ => get_open_of_get) (fun _ _ => id)
    · rw [State.loopFor, List.length_append, List.length_singleton, if_pos rfl]
      refine ⟨rfl, ?_⟩
      rw [Descriptors.get_openFile, if_pos rfl]

/-- Between two connections it does not matter where the loop is. -/
theorem Connection.Sound.idle {c : Connection} {n : ℕ} {pc pc' : LoopPc}
    (h : c.Sound n pc) (hold : pc.busy = false) (hnew : pc'.busy = false) :
    c.Sound n pc' := by
  have hfd {pc : LoopPc} (hidle : pc.busy = false) : pc.holdsFd = false := by
    cases pc with
    | accept | returned | free => rfl
    | malloc | create | close => cases hidle
  have hcloser : c.closer n pc' = c.closer n pc := by
    simp only [closer, hfd hold, hfd hnew]
  have hfreer : c.freer n pc' = c.freer n pc := by
    simp only [freer, hold, hnew]
  exact ⟨h.users, hcloser ▸ h.closes, hfreer ▸ h.frees⟩

theorem Held.idle {table : Descriptors File} {heap : Descriptors Block}
    {pc pc' : LoopPc} {n : ℕ} {c : Connection} (h : Held table heap pc n c)
    (hnew : pc'.busy = false) : Held table heap pc' n c := by
  cases hthread : c.thread with
  | some thread =>
      simp only [Held, hthread] at h ⊢
      exact ⟨hnew, h.2⟩
  | none =>
      simp only [Held, hthread]
      cases pc' with
      | accept | returned => trivial
      | malloc | create | close | free => cases hnew

/-- A failed `accept` ends the loop. -/
theorem stop_inv {s : State} (hs : Inv s) (hpc : s.loop = .accept) :
    Inv { s with loop := .returned } := by
  have hold (n : ℕ) : (s.loopFor n).busy = false := by
    rw [State.loopFor, hpc, ite_self]
    rfl
  have hnew (n : ℕ) :
      (({ s with loop := .returned } : State).loopFor n).busy = false := by
    rw [State.loopFor]
    split <;> rfl
  refine ⟨hs.fault, hs.strays, ?_, ?_, nofun⟩
  · intro n c hc
    exact (hs.sound n c hc).idle (hold n) (hnew n)
  · intro n c hc
    exact (hs.held n c hc).idle (hnew n)

theorem mallocFails_inv {s : State} {cfd : ℕ} (hs : Inv s)
    (hpc : s.loop = .malloc cfd) :
    Inv { s with loop := .create cfd none } := by
  obtain ⟨c, hc, hthread, ⟨husers, hcloses, hfrees⟩, hheld⟩ :=
    hs.working (by rw [hpc]; rfl)
  simp only [Held, hthread, hpc] at hheld
  refine hs.loop_moves hc hs.fault hs.strays (set_self hc).symm
    (fun _ _ _ => id) (fun _ _ _ _ => id) ⟨husers, ?_, ?_⟩ ?_
  · simpa [Connection.closer, hthread, hpc, LoopPc.holdsFd] using hcloses
  · simpa [Connection.freer, hthread, hpc, LoopPc.busy] using hfrees
  · simp only [Held, hthread]
    exact hheld

theorem malloc_inv {s : State} {cfd addr : ℕ} (hs : Inv s)
    (hpc : s.loop = .malloc cfd) (hfree : s.heap.get addr = none) :
    Inv { s.modifyConn s.last fun c => { c with allocated := true } with
      heap := s.heap.update addr (some ⟨cfd, s.last⟩)
      loop := .create cfd (some addr) } := by
  obtain ⟨c, hc, hthread, ⟨husers, hcloses, hfrees⟩, hheld⟩ :=
    hs.working (by rw [hpc]; rfl)
  simp only [Held, hthread, hpc] at hheld
  obtain ⟨halloc, hfd⟩ := hheld
  simp only [HoldsBlock] at halloc
  refine hs.loop_moves hc hs.fault hs.strays (modify_eq_set hc _)
    (fun _ _ _ => id) ?_ ⟨husers, ?_, ?_⟩ ?_
  · intro m _ addr' cfd' hother
    rw [Descriptors.get_update, if_neg, hother]
    rintro rfl
    rw [hfree] at hother
    cases hother
  · simpa [Connection.closer, hthread, hpc, LoopPc.holdsFd] using hcloses
  · simpa [Connection.freer, hthread, hpc, LoopPc.busy, halloc] using hfrees
  · simp only [Held, hthread]
    refine ⟨⟨rfl, ?_⟩, hfd⟩
    rw [Descriptors.get_update, if_pos rfl]

/-- The thread gets the descriptor and the block. -/
theorem create_inv {s : State} {cfd addr : ℕ} (hs : Inv s)
    (hpc : s.loop = .create cfd (some addr)) :
    Inv { s.setThread s.last ⟨some addr, .recv, false⟩ with
      loop := .accept } := by
  obtain ⟨c, hc, hthread, ⟨husers, hcloses, hfrees⟩, hheld⟩ :=
    hs.working (by rw [hpc]; rfl)
  simp only [Held, hthread, hpc] at hheld
  obtain ⟨hblock, hfd⟩ := hheld
  refine hs.loop_moves hc hs.fault hs.strays (modify_eq_set hc _)
    (fun _ _ _ => id) (fun _ _ _ _ => id) ⟨husers, ?_, ?_⟩ ?_
  · simpa [Connection.closer, hthread, hpc, LoopPc.holdsFd] using hcloses
  · simpa [Connection.freer, hthread, hpc, LoopPc.busy] using hfrees
  · exact ⟨rfl, addr, cfd, rfl, hblock, hfd⟩

theorem createFails_inv {s : State} {cfd : ℕ} {pcfd : Option ℕ} (hs : Inv s)
    (hpc : s.loop = .create cfd pcfd) :
    Inv { s with loop := .close cfd pcfd } := by
  obtain ⟨c, hc, hthread, ⟨husers, hcloses, hfrees⟩, hheld⟩ :=
    hs.working (by rw [hpc]; rfl)
  simp only [Held, hthread, hpc] at hheld
  refine hs.loop_moves hc hs.fault hs.strays (set_self hc).symm
    (fun _ _ _ => id) (fun _ _ _ _ => id) ⟨husers, ?_, ?_⟩ ?_
  · simpa [Connection.closer, hthread, hpc, LoopPc.holdsFd] using hcloses
  · simpa [Connection.freer, hthread, hpc, LoopPc.busy] using hfrees
  · simp only [Held, hthread]
    exact hheld

theorem loopClose_inv {s : State} {cfd : ℕ} {pcfd : Option ℕ} (hs : Inv s)
    (hpc : s.loop = .close cfd pcfd) :
    Inv { s.close .loop cfd with loop := .free pcfd } := by
  obtain ⟨c, hc, hthread, ⟨husers, hcloses, hfrees⟩, hheld⟩ :=
    hs.working (by rw [hpc]; rfl)
  simp only [Held, hthread, hpc] at hheld
  obtain ⟨hblock, hfd⟩ := hheld
  simp only [State.close, hfd]
  refine hs.loop_moves hc hs.fault hs.strays (modify_eq_set hc _)
    (get_close_of_ne hfd) (fun _ _ _ _ => id) ⟨husers, ?_, ?_⟩ ?_
  · simpa [Connection.closer, hthread, hpc, LoopPc.holdsFd] using hcloses
  · simpa [Connection.freer, hthread, hpc, LoopPc.busy] using hfrees
  · simp only [Held, hthread]
    exact ⟨cfd, hblock⟩

theorem loopFree_inv {s : State} {pcfd : Option ℕ} (hs : Inv s)
    (hpc : s.loop = .free pcfd) :
    Inv { s.free .loop pcfd with loop := .accept } := by
  obtain ⟨c, hc, hthread, ⟨husers, hcloses, hfrees⟩, hheld⟩ :=
    hs.working (by rw [hpc]; rfl)
  simp only [Held, hthread, hpc] at hheld
  obtain ⟨cfd, hblock⟩ := hheld
  cases pcfd with
  | none =>
      simp only [HoldsBlock] at hblock
      refine hs.loop_moves hc hs.fault hs.strays (set_self hc).symm
        (fun _ _ _ => id) (fun _ _ _ _ => id) ⟨husers, ?_, ?_⟩ ?_
      · simpa [Connection.closer, hthread, hpc, LoopPc.holdsFd] using hcloses
      · simpa [Connection.freer, hblock] using hfrees
      · simp only [Held, hthread]
  | some addr =>
      obtain ⟨halloc, hblock⟩ := hblock
      simp only [State.free, hblock]
      refine hs.loop_moves hc hs.fault hs.strays (modify_eq_set hc _)
        (fun _ _ _ => id) (get_free_of_ne hblock) ⟨husers, ?_, ?_⟩ ?_
      · simpa [Connection.closer, hthread, hpc, LoopPc.holdsFd] using hcloses
      · simpa [Connection.freer, hthread, hpc, LoopPc.busy, halloc]
          using hfrees
      · simp only [Held, hthread]

theorem strServerDemo_inv {s t : State} {label : Label} (hs : Inv s)
    (hnull : NoNull s label t) (h : strServerDemo s label = some t) :
    Inv t := by
  unfold strServerDemo at h
  split at h
  · next hpc =>
      cases h
      exact accept_inv hs hpc
  · next hpc =>
      cases h
      exact stop_inv hs hpc
  · next hpc =>
      cases h
      exact mallocFails_inv hs hpc
  · next hpc =>
      obtain ⟨hfree, rfl⟩ := guarded_eq_some.mp h
      exact malloc_inv hs hpc hfree
  · next pcfd hpc =>
      cases h
      cases pcfd with
      | none =>
          have hblock := hnull rfl
          rw [hpc] at hblock
          cases hblock
      | some addr => exact create_inv hs hpc
  · next hpc =>
      cases h
      exact createFails_inv hs hpc
  · next hpc =>
      cases h
      exact loopClose_inv hs hpc
  · next hpc =>
      cases h
      exact loopFree_inv hs hpc
  · cases h

theorem next_inv (s : State) (label : Label) (t : State) (hs : Inv s)
    (hnull : NoNull s label t) (h : next s label = some t) : Inv t := by
  obtain ⟨-, h⟩ := Option.ite_none_left_eq_some.mp h
  split at h
  · next n more =>
      obtain ⟨thread, hthread, h⟩ := Option.bind_eq_some_iff.mp h
      obtain ⟨c, hc, hthread⟩ := Option.bind_eq_some_iff.mp hthread
      exact strServer_inv hs hc hthread h
  · exact strServerDemo_inv hs hnull h

/-- The threads and the place of the accept loop stay as they are. -/
structure SameThreads (s t : State) : Prop where
  threads : ∀ n, t.threadOf n = s.threadOf n
  length : t.conns.length = s.conns.length
  loop : t.loop = s.loop

theorem State.modifyConn_same (s : State) (n : ℕ)
    (change : Connection → Connection)
    (h : ∀ c, (change c).thread = c.thread) :
    SameThreads s (s.modifyConn n change) := by
  refine ⟨fun m => ?_, List.length_modify .., rfl⟩
  rw [threadOf, modifyConn, List.getElem?_modify, threadOf]
  cases s.conns[m]? with
  | none => rfl
  | some c =>
      by_cases hn : n = m
      · simp [hn, h]
      · simp [hn]

theorem State.recv_same (s : State) (actor : Actor) (cfd : ℕ) :
    SameThreads s (s.recv actor cfd) := by
  unfold recv
  split
  · exact s.modifyConn_same _ _ fun _ => rfl
  · exact ⟨fun _ => rfl, rfl, rfl⟩

theorem State.close_same (s : State) (actor : Actor) (cfd : ℕ) :
    SameThreads s (s.close actor cfd) := by
  unfold close
  split
  · next n _ =>
      obtain ⟨hthreads, hlength, hloop⟩ := s.modifyConn_same n
        (fun c => { c with closes := c.closes ++ [actor] }) fun _ => rfl
      exact ⟨hthreads, hlength, hloop⟩
  · exact ⟨fun _ => rfl, rfl, rfl⟩

theorem State.free_same (s : State) (actor : Actor) (pcfd : Option ℕ) :
    SameThreads s (s.free actor pcfd) := by
  cases pcfd with
  | none => exact ⟨fun _ => rfl, rfl, rfl⟩
  | some addr =>
      simp only [free]
      split
      · exact ⟨fun _ => rfl, rfl, rfl⟩
      · next block _ =>
          obtain ⟨hthreads, hlength, hloop⟩ := s.modifyConn_same block.n
            (fun c => { c with frees := c.frees ++ [actor] }) fun _ => rfl
          exact ⟨hthreads, hlength, hloop⟩

/-- A thread with a null argument is about to run, or has run. -/
def Doomed (s : State) : Prop :=
  s.fault ≠ none ∨ ∃ n, s.threadOf n = some ⟨none, .recv, false⟩ ∧
    (s.loopFor n).busy = false

theorem State.threadOf_setThread_ne (s : State) {n m : ℕ} (thread : Thread)
    (h : n ≠ m) : (s.setThread m thread).threadOf n = s.threadOf n := by
  rw [threadOf, setThread, modifyConn, List.getElem?_modify_ne _ _ h.symm,
    threadOf]

theorem State.threadOf_setThread {s : State} {n : ℕ}
    (h : n < s.conns.length) (thread : Thread) :
    (s.setThread n thread).threadOf n = some thread := by
  rw [threadOf, setThread, modifyConn, List.getElem?_modify_eq,
    List.getElem?_eq_getElem h]
  rfl

/-- Another thread, or the loop, sets the state of a thread. -/
theorem doomed_setThread {s t : State} (h : SameThreads s t) {n m : ℕ}
    (hthread : s.threadOf n = some ⟨none, .recv, false⟩)
    (hidle : (s.loopFor n).busy = false) (hne : n ≠ m) (thread : Thread) :
    Doomed (t.setThread m thread) := by
  have hsame : (t.setThread m thread).threadOf n = s.threadOf n :=
    (t.threadOf_setThread_ne thread hne).trans (h.threads n)
  refine Or.inr ⟨n, hsame.trans hthread, ?_⟩
  rw [State.loopFor, State.setThread, State.modifyConn, List.length_modify,
    h.length, h.loop]
  exact hidle

theorem strServer_doomed {s t : State} {n m : ℕ} {thread : Thread}
    {more : Bool} (hthread : s.threadOf n = some ⟨none, .recv, false⟩)
    (hidle : (s.loopFor n).busy = false) (hm : s.threadOf m = some thread)
    (h : strServer s m thread more = some t) : Doomed t := by
  by_cases hne : n = m
  · -- its first step is `recv(*pcfd, ...)`
    subst hne
    obtain rfl : thread = ⟨none, .recv, false⟩ :=
      Option.some.inj (hm.symm.trans hthread)
    cases h
    exact Or.inl (Option.some_ne_none _)
  · unfold strServer at h
    split at h
    · split at h
      · cases h
        exact Or.inl (Option.some_ne_none _)
      · cases h
        exact doomed_setThread (s.recv_same ..) hthread hidle hne _
    · split at h
      · cases h
        exact Or.inl (Option.some_ne_none _)
      · cases h
        exact doomed_setThread (s.close_same ..) hthread hidle hne _
    · cases h
      exact doomed_setThread (s.free_same ..) hthread hidle hne _
    · cases h

/-- The loop moves, but not at the connection of the thread. -/
theorem strServerDemo_doomed {s t : State} {label : Label} {n : ℕ}
    (hthread : s.threadOf n = some ⟨none, .recv, false⟩)
    (hidle : (s.loopFor n).busy = false)
    (h : strServerDemo s label = some t) : Doomed t := by
  obtain ⟨c, hc, -⟩ := Option.bind_eq_some_iff.mp hthread
  have hn := (List.getElem?_eq_some_iff.mp hc).1
  have hnot (hbusy : s.loop.busy = true) : n + 1 ≠ s.conns.length := by
    intro hlast
    rw [State.loopFor, if_pos hlast, hbusy] at hidle
    cases hidle
  have hdoomed {u : State} (hthreads : u.threadOf n = s.threadOf n)
      (hlength : u.conns.length = s.conns.length)
      (hbusy : s.loop.busy = true) : Doomed u := by
    refine Or.inr ⟨n, hthreads.trans hthread, ?_⟩
    rw [State.loopFor, hlength, if_neg (hnot hbusy)]
    rfl
  unfold strServerDemo at h
  split at h
  · cases h
    refine Or.inr ⟨n, ?_, ?_⟩
    · rw [State.threadOf, List.getElem?_append_left hn]
      exact hthread
    · rw [State.loopFor, List.length_append, if_neg (by simp; omega)]
      rfl
  · cases h
    refine Or.inr ⟨n, hthread, ?_⟩
    rw [State.loopFor]
    split <;> rfl
  · next hpc =>
      cases h
      exact hdoomed rfl rfl (by rw [hpc]; rfl)
  · next hpc =>
      obtain ⟨-, rfl⟩ := guarded_eq_some.mp h
      have hsame := s.modifyConn_same s.last
        (fun c => { c with allocated := true }) fun _ => rfl
      exact hdoomed (hsame.threads n) hsame.length (by rw [hpc]; rfl)
  · next hpc =>
      cases h
      have hbusy : s.loop.busy = true := by rw [hpc]; rfl
      refine hdoomed ?_ (List.length_modify ..) hbusy
      apply s.threadOf_setThread_ne
      have hlast := hnot hbusy
      rw [State.last]
      omega
  · next hpc =>
      cases h
      exact hdoomed rfl rfl (by rw [hpc]; rfl)
  · next cfd _ hpc =>
      cases h
      have hsame := s.close_same .loop cfd
      exact hdoomed (hsame.threads n) hsame.length (by rw [hpc]; rfl)
  · next pcfd hpc =>
      cases h
      have hsame := s.free_same .loop pcfd
      exact hdoomed (hsame.threads n) hsame.length (by rw [hpc]; rfl)
  · cases h

theorem next_doomed (s : State) (label : Label) (t : State)
    (hs : Doomed s) (_ : True) (h : next s label = some t) : Doomed t := by
  obtain ⟨hfault, h⟩ := Option.ite_none_left_eq_some.mp h
  obtain ⟨n, hthread, hidle⟩ := hs.resolve_left hfault
  split at h
  · obtain ⟨thread, hm, h⟩ := Option.bind_eq_some_iff.mp h
    exact strServer_doomed hthread hidle hm h
  · exact strServerDemo_doomed hthread hidle h

theorem LoopPc.of_nullArg {pc : LoopPc} (h : pc.nullArg ≠ false) :
    ∃ cfd, pc = .create cfd none := by
  cases pc with
  | create cfd pcfd =>
      cases pcfd with
      | none => exact ⟨cfd, rfl⟩
      | some addr => exact absurd rfl h
  | _ => exact absurd rfl h

theorem null_doomed (s : State) (label : Label) (t : State) (hs : Inv s)
    (h : next s label = some t) (hnull : ¬ NoNull s label t) : Doomed t := by
  obtain ⟨rfl, hnullArg⟩ := Classical.not_imp.mp hnull
  obtain ⟨cfd, hpc⟩ := LoopPc.of_nullArg hnullArg
  obtain ⟨-, h⟩ := Option.ite_none_left_eq_some.mp h
  simp only [strServerDemo, hpc, Option.some.injEq] at h
  subst h
  have hlength := List.length_pos_iff.mpr (hs.busy (by rw [hpc]; rfl))
  refine Or.inr ⟨s.last, ?_, ?_⟩
  · apply State.threadOf_setThread
    rw [State.last]
    omega
  · rw [State.loopFor]
    split <;> rfl

theorem Inv.all_sound {s : State} (hs : Inv s) : Sound s :=
  ⟨hs.fault, hs.strays, hs.sound⟩

/-- For every run: if no thread is created after a failed `malloc`, everything
is right.  Once every thread created has run, nothing else is. -/
theorem ownership {others : ℕ} {labels : List Label} {s : State}
    (hrun : exec next (start others) labels = some s) :
    (EachStep next NoNull (start others) labels → Sound s) ∧
      ((∀ n thread, s.threadOf n = some thread → thread.started = true) →
        Sound s → EachStep next NoNull (start others) labels) := by
  constructor
  · intro hnull
    exact (exec_invariant_of_eachStep next_inv hnull (start_inv others)
      hrun).all_sound
  · intro hstarted hsound
    have hsteps := eachStep_of_labels next (fun l (_ : l ∈ labels) => trivial)
      (start others)
    rcases eachStep_or_bad next_inv null_doomed next_doomed
      (start_inv others) hsteps hrun with hnull | hdoomed
    · exact hnull
    · obtain ⟨n, hthread, -⟩ := hdoomed.resolve_left (not_not.mpr hsound.fault)
      exact absurd (hstarted n _ hthread) Bool.false_ne_true

/-- A thread serves the first connection, and the second one gets the same
descriptor, but no thread. -/
def recycled : List Label :=
  [.accept true, .malloc (some 0), .create true, .thread 0 true,
    .thread 0 false, .thread 0 false, .accept true, .malloc (some 1),
    .thread 0 false, .create false, .close, .free]

theorem ownership_recycled :
    ∃ s, exec next (start 4) recycled = some s ∧ Sound s ∧
      s.conns.map Connection.closes = [[.thread 0], [.loop]] ∧
      s.conns.map Connection.frees = [[.thread 0], [.loop]] := by
  have hrun : exec next (start 4) recycled = some _ := rfl
  have hnull : EachStep next NoNull (start 4) recycled := by decide +kernel
  exact ⟨_, hrun, (ownership hrun).1 hnull, rfl, rfl⟩

/-- There is no memory for a block, but for a thread. -/
def outOfMemory : List Label :=
  [.accept true, .malloc none, .create true, .thread 0 true]

theorem not_sound_outOfMemory :
    ∃ s, exec next (start 4) outOfMemory = some s ∧
      s.fault = some .null ∧ ¬ Sound s := by
  have hrun : exec next (start 4) outOfMemory = some _ := rfl
  exact ⟨_, hrun, rfl, fun h => nomatch h.fault⟩

end StrServerDemo

end MyFreeLib
