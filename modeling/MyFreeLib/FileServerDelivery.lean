/-
Runs in which no call but `open` fails.  Every client that returns has been
served by the one child that was forked for its request: it has the file that
it asked for, or it was told that the file could not be opened.
-/
import MyFreeLib.FileServerTruncation

namespace MyFreeLib

namespace FileServer

def ChildCall.Works : ChildCall → Prop
  | .read none | .msgsnd false => False
  | _ => True

/-- A `write` that stores less than it was given has failed. -/
def ClientCall.Works : ClientCall → Prop
  | .msgsnd ok | .msgrcv ok | .open ok | .ftruncate ok => ok = true
  | .write result => result = .whole
  | .lseek | .close => True

/-- The call of the step succeeds, unless it is `open`. -/
def Label.Works : Label → Prop
  | .child _ call => call.Works
  | .client _ call => call.Works
  | _ => True

/-- The child sends what it has found in a file that does not change, and what
it has sent when it ends is terminated. -/
def Child.Thorough (p : Child) : Prop :=
  (p.fd ≠ some .output → p.cut = false) ∧
    match p.pc with
    | .exit _ | .exited => Terminated Response.IsData p.sent
    | _ => True

/-- The client is between the `open` of its file and its `close`. -/
def ClientPc.Opened (pc : ClientPc) : Prop :=
  pc = .ftruncate ∨ pc = .lseek ∨ pc = .firstWrite ∨ pc = .receive ∨
    pc = .write ∨ pc = .close

/-- The client loses nothing, has its file open while it needs it, keeps its
queue until it returns and returns after the last message. -/
structure Client.Thorough (c : Client) : Prop where
  lost : c.lost = 0
  misses : c.misses = 0
  counts : 0 ≤ c.msglen
  opened : c.pc.Opened → c.fd.isSome
  keeps : (∀ code, c.pc ≠ .returned code) → c.removed = false
  returns : ∀ code, c.pc = .returned code →
    Terminated Response.IsData c.received

theorem Client.Thorough.enqueue {c : Client} (h : c.Thorough)
    (resp : Response) : (c.enqueue resp).Thorough :=
  ⟨h.lost, h.misses, h.counts, h.opened, h.keeps, h.returns⟩

/-- Such a file has been sent as a whole when its end has been read. -/
theorem Serving.not_short {fs : FileTree} {p : Child} {file : File}
    (h : Serving fs p file p.sent []) (hfile : file ≠ .directory)
    (hchanges : file ≠ .output) {output : Option Content}
    (hoffset : (payload p.sent).length = p.offset)
    (hend : (file.bytes output).length ≤ p.offset) : ¬ p.Short := by
  have hfront := h.front hchanges
  have hfound := h.found hchanges
  rw [List.append_nil] at hfront
  have hall : payload p.sent = p.found := by
    apply hfront.eq_of_length_le
    rw [hfound, File.bytes_eq hchanges none output]
    omega
  simp [Child.Short, hall, h.opened, hfile]

theorem ChildStep.thorough {fs : FileTree} {output : Option Content}
    {p moved : Child} {call : ChildCall}
    (h : ChildStep fs output p call moved) (hworks : call.Works)
    (hok : ChildOk fs p) (hp : p.Thorough) : moved.Thorough := by
  cases h with
  | openFails | reads => exact ⟨hp.1, trivial⟩
  | opens hpc =>
      simp only [ChildOk, hpc] at hok
      exact ⟨fun _ => hok.2.2, trivial⟩
  | @readsEnd file hpc hfd hdirectory hend =>
      simp only [ChildOk, hpc] at hok
      obtain ⟨same, hserving, hoffset, -⟩ := hok
      obtain rfl : same = file :=
        Option.some.inj (hserving.opened.symm.trans hfd)
      refine ⟨fun hchanges => ?_, trivial⟩
      have hne : same ≠ .output := by
        rintro rfl
        exact hchanges hfd
      simp [Child.finish, hp.1 hchanges,
        hserving.not_short hdirectory hne hoffset hend]
  | @sendsData resp hpc =>
      simp only [ChildOk, hpc] at hok
      obtain ⟨file, hserving, -⟩ := hok
      refine ⟨fun hchanges => ?_, trivial⟩
      have hne : file ≠ .output := by
        rintro rfl
        exact hchanges hserving.opened
      simp [Child.sendsData, Child.sends, hp.1 hchanges, hserving.front hne]
  | @sendsFailure resp hpc ok =>
      cases ok with
      | false => exact absurd hworks id
      | true =>
          simp only [ChildOk, hpc] at hok
          rcases hok with ⟨-, hsent, -, hfailure⟩
          refine ⟨hp.1, ?_⟩
          simp only [Child.sends, hsent, if_true, List.nil_append]
          exact .last (by simp [Response.IsData, hfailure])
  | readFails => exact absurd hworks id
  | sendDataFails => exact absurd hworks id
  | sendsEnd hpc ok =>
      cases ok with
      | false => exact absurd hworks id
      | true =>
          simp only [ChildOk, hpc] at hok
          obtain ⟨file, hserving, -⟩ := hok
          refine ⟨hp.1, ?_⟩
          simp only [Child.sends, if_true]
          exact Terminated.concat hserving.data
            (by simp [Response.IsData, endResp])
  | exits hpc =>
      simp only [Child.Thorough, hpc] at hp
      exact hp

theorem Client.loop_pc_ne_returned (c : Client) (numMsgs code : Int) :
    (c.loop numMsgs).pc ≠ .returned code := by
  simp only [loop]
  split <;> simp

theorem Client.not_loses {c : Client} {call : ClientCall}
    (hworks : call.Works) {moved : Client} (h : ClientStep c call moved) :
    ¬ c.Loses call := by
  cases h with
  | storesFirst hpc hcount | stores hpc hcount =>
      obtain rfl := hworks
      simp only [Written.stored, Option.ite_none_right_eq_some] at hcount
      simp [Loses, Written.stored, hcount.1]
  | _ => exact id

theorem ClientStep.pc_ne_returned {c moved : Client} {call : ClientCall}
    (h : ClientStep c call moved) (code : Int) : c.pc ≠ .returned code := by
  cases h <;> simp_all

theorem ClientStep.thorough {c moved : Client} {call : ClientCall}
    (h : ClientStep c call moved) (hworks : call.Works) (hok : ClientOk c)
    (hc : c.Thorough) : moved.Thorough := by
  have hlost := h.lost_iff.mpr ⟨hc.lost, Client.not_loses hworks h⟩
  have hremoved := hc.keeps h.pc_ne_returned
  cases h with
  | sendFails | firstFails | misses => cases hworks
  | sends =>
      exact ⟨hlost, hc.misses, hc.counts, by simp [ClientPc.Opened],
        fun _ => hremoved, nofun⟩
  | takesFirst =>
      exact ⟨hlost, hc.misses, Int.natCast_nonneg _, by simp [ClientPc.Opened],
        fun _ => hremoved, nofun⟩
  | opens hpc ok =>
      obtain rfl : ok = true := hworks
      exact ⟨hlost, hc.misses, hc.counts, fun _ => rfl, fun _ => hremoved,
        nofun⟩
  | truncates hpc =>
      have hfd := hc.opened (by simp [ClientPc.Opened, hpc])
      exact ⟨hlost, hc.misses, hc.counts, fun _ => hfd, fun _ => hremoved,
        nofun⟩
  | seeks hpc =>
      have hfd := hc.opened (by simp [ClientPc.Opened, hpc])
      exact ⟨hlost, hc.misses, hc.counts, fun _ => by simpa using hfd,
        fun _ => hremoved, nofun⟩
  | takes hpc =>
      have hfd := hc.opened (by simp [ClientPc.Opened, hpc])
      exact ⟨hlost, hc.misses, Int.natCast_nonneg _, fun _ => hfd,
        fun _ => hremoved, nofun⟩
  | refused hpc hqueue hfailure =>
      simp only [ClientOk, hpc] at hok
      refine ⟨hlost, hc.misses, Int.natCast_nonneg _,
        by simp [ClientPc.Opened, Client.leave], ?_, ?_⟩
      · intro hpc
        exact absurd rfl (hpc (-1))
      · intro code _
        simp only [Client.leave, Client.printf, Client.take, hok.1,
          List.nil_append]
        exact .last (by simp [Response.IsData, hfailure])
  | @storesFirst result count hpc | @stores result count hpc =>
      have hfd := hc.opened (by simp [ClientPc.Opened, hpc])
      obtain ⟨printed, hstore⟩ := c.store_eq result count
      refine ⟨hlost, ?_, ?_, ?_, ?_, ?_⟩
      · rw [hstore]
        exact hc.misses
      · rw [hstore]
        exact hc.counts
      · intro _
        rw [hstore]
        simpa [Client.loop] using hfd
      · intro _
        rw [hstore]
        exact hremoved
      · intro code hcode
        exact absurd hcode (Client.loop_pc_ne_returned _ _ _)
  | closes hpc =>
      simp only [ClientOk, hpc] at hok
      refine ⟨hlost, hc.misses, hc.counts,
        by simp [ClientPc.Opened, Client.leave], ?_, ?_⟩
      · intro hpc
        exact absurd rfl (hpc 0)
      · intro code _
        exact hok.1.taken.terminated hok.2.1

/-- The invariant of the runs in which every call but `open` succeeds. -/
structure Faultless (fs : FileTree) (s : State) : Prop
    extends Inv fs s where
  children_thorough : ∀ p ∈ s.children, p.Thorough
  clients_thorough : ∀ c ∈ s.clients, c.Thorough

theorem start_faultless (fs : FileTree) (memory : List Byte)
    (output : Option Content) : Faultless fs (start memory output) := by
  refine ⟨start_inv fs memory output, ?_, ?_⟩
  · simp [start]
  · simp [start]

theorem next_faultless (fs : FileTree) (qbytes : Capacity)
    (s : State) (label : Label) (t : State) (hworks : label.Works)
    (hs : Faultless fs s) (h : next fs qbytes s label = some t) :
    Faultless fs t := by
  refine ⟨next_inv fs qbytes s label t hs.toInv h, ?_, ?_⟩
  · cases next_step h with
    | forks =>
        exact forall_mem_concat hs.children_thorough
          ⟨fun _ => rfl, trivial⟩
    | childSends hp hmoved | childExits hp hmoved | childMoves hp hmoved =>
        have hmem := List.mem_of_getElem? hp
        exact forall_mem_set hs.children_thorough (hmoved.thorough hworks
          (hs.childOk _ hmem) (hs.children_thorough _ hmem))
    | _ => exact hs.children_thorough
  · cases next_step h with
    | launches =>
        exact forall_mem_concat hs.clients_thorough
          ⟨rfl, rfl, le_rfl, by simp [ClientPc.Opened, Client.start],
            fun _ => rfl, nofun⟩
    | @childSends j k p moved c resp hp hmoved hresp hc =>
        apply forall_mem_set hs.clients_thorough
        exact (hs.clients_thorough c (List.mem_of_getElem? hc)).enqueue resp
    | clientSends hc hmoved | clientMoves hc hmoved =>
        have hmem := List.mem_of_getElem? hc
        exact forall_mem_set hs.clients_thorough (hmoved.thorough hworks
          (hs.clientOk _ hmem) (hs.clients_thorough _ hmem))
    | _ => exact hs.clients_thorough

/-- The client was told that its file could not be opened. -/
def Refused (c : Client) : Prop :=
  c.pc = .returned (-1) ∧ c.stored = [] ∧
    ∃ resp, c.received = [resp] ∧ resp.mtype = .failure

/-- The client has received blocks with these bytes and one last message, and
has stored the bytes; its counters are what it prints. -/
def Delivered (c : Client) (bytes : List Byte) : Prop :=
  c.pc = .returned 0 ∧ c.stored = bytes ∧ c.totBytes = bytes.length ∧
    c.numMsgs = int32 c.received.length ∧
    ∃ blocks, c.received = blocks ++ [endResp] ∧ payload blocks = bytes ∧
      ∀ resp ∈ blocks, resp.IsData

/-- What the child of a client means for it once it has returned.  Of the file
that the clients write it has what the child has read, and that is what stood
there at first if nothing else has been sent. -/
def Served (fs : FileTree) (c : Client) (p : Child) : Prop :=
  (p.fd = none ∧ Refused c) ∨
    (∃ content, p.fd = some (.regular content) ∧
      fs c.pathname.bytes = some (.regular content) ∧
        Delivered c content.bytes) ∨
    p.fd = some .output ∧ fs c.pathname.bytes = some .output ∧
      ∃ bytes, Delivered c bytes ∧ (p.cut = false → bytes = p.found)

/-- A client that has returned 0 has got all that its child has sent. -/
theorem Faultless.delivered {fs : FileTree} {s : State}
    (hs : Faultless fs s) {c : Client} {p : Child} {file : File}
    {blocks : List Response} (hc : c ∈ s.clients)
    (hpc : c.pc = .returned 0) (hserving : Serving fs p file blocks [])
    (hreceived : c.received = blocks ++ [endResp]) :
    Delivered c (payload blocks) := by
  have hthorough := hs.clients_thorough c hc
  have hok := hs.clientOk c hc
  simp only [ClientOk, hpc] at hok
  obtain ⟨-, hreceiving, -, hnum⟩ := hok.resolve_right (by simp)
  have hstored := hreceiving.tally.whole hthorough.lost
  have htotal := hreceiving.total
  have hshort := hserving.short
  rw [List.append_nil] at hshort
  rw [hreceived, payload_blocks, List.append_nil] at hstored
  rw [hreceived, payload_blocks, hthorough.misses, Nat.cast_zero, sub_zero,
    int64_of_lt hshort] at htotal
  rw [hthorough.misses, Nat.cast_zero, add_zero] at hnum
  exact ⟨hpc, hstored, htotal, hnum, blocks, hreceived, rfl, hserving.data⟩

theorem Faultless.served {fs : FileTree} {s : State}
    (hs : Faultless fs s) {c : Client} (hc : c ∈ s.clients) {code : Int}
    (hpc : c.pc = .returned code) :
    ∃ p ∈ s.children, p.clientId = c.key ∧ Served fs c p := by
  have hthorough := hs.clients_thorough c hc
  have hstream := hthorough.returns code hpc
  have hok := hs.clientOk c hc
  simp only [ClientOk, hpc] at hok
  obtain ⟨resp, hresp, hend⟩ := hstream.exists_last
  obtain ⟨p, hp, hid, hsent, -⟩ := hs.drained hc hstream
  refine ⟨p, hp, hid, ?_⟩
  have hmem : resp ∈ p.sent := hsent ▸ hresp
  rcases (hs.childOk p hp).ended hmem hend with
    ⟨hfd, hone, hfailure⟩ | ⟨file, blocks, hserving, hcovers, hblocks⟩
  · have hreceived := hsent.symm.trans hone
    rcases hok with ⟨-, hreceiving, -⟩ | ⟨rfl, hstored, -⟩
    · exact absurd hfailure (hreceiving.taken.ne_failure hreceived)
    · exact Or.inl ⟨hfd, hpc, hstored, resp, hreceived, hfailure⟩
  · have hreceived := hsent.symm.trans hblocks
    have hfile : fs c.pathname.bytes = some file := by
      rw [← hs.pathname_eq hc hp hid]
      exact hserving.path
    rcases hok with ⟨rfl, -⟩ | ⟨-, -, -, hall⟩
    · have hdelivered := hs.delivered hc hpc hserving hreceived
      have hcut := (hs.children_thorough p hp).1
      rw [hserving.opened] at hcut
      right
      cases file with
      | output =>
          exact Or.inr ⟨hserving.opened, hfile, _, hdelivered,
            fun hwhole => (hcovers.mp hwhole).2⟩
      | directory => exact absurd rfl (hcovers.mp (hcut (by simp))).1
      | regular content =>
          have hall := (hcovers.mp (hcut (by simp))).2
          have hfound : p.found = content.bytes := hserving.found (by simp)
          rw [hall, hfound] at hdelivered
          exact Or.inl ⟨content, hserving.opened, hfile, hdelivered⟩
    · have hlast : endResp ∈ c.received := by
        rw [hreceived]
        exact List.mem_append_right _ (List.mem_singleton_self _)
      exact absurd (hall endResp hlast).2 (by simp [endResp])

end FileServer

end MyFreeLib
