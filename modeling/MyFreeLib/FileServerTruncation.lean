/-
What becomes of a transfer in which calls fail.  An error of the child ends
its loop like the end of the file, and the client ignores the errors of its
own calls: a client that returns 0 has stored what it asked for exactly when
none of them dropped anything.
-/
import MyFreeLib.FileServerTransfer

namespace MyFreeLib

namespace FileServer

/-- The position of the client in the file is behind the bytes that it has
stored, and it starts with none. -/
structure Client.Positioned (c : Client) : Prop where
  offset : ∀ offset, c.fd = some offset → offset = c.stored.length
  fresh : c.pc = .send ∨ c.pc = .first ∨ c.pc = .open ∨ c.pc = .ftruncate ∨
    c.pc = .lseek → c.stored = []

theorem start_positioned (pathname : Pathname) (clientId : QueueId) :
    (Client.start pathname clientId).Positioned := ⟨nofun, fun _ => rfl⟩

theorem Client.Positioned.store {c : Client} (h : c.Positioned)
    (hlength : c.pending.length = c.msglen.toNat) {result : Written}
    {count : ℕ} (hcount : result.stored c.fd c.msglen = some count)
    (numMsgs : Int) : ((c.store result count).loop numMsgs).Positioned := by
  have hle := Written.stored_le hcount
  obtain ⟨printed, hstore⟩ := c.store_eq result count
  rw [hstore]
  refine ⟨fun offset hoffset => ?_, fun hpc => ?_⟩
  · obtain ⟨old, hold, rfl⟩ := Option.map_eq_some_iff.mp hoffset
    simp only [Client.pending, List.length_take] at hlength
    simp only [Client.loop, List.length_append, List.length_take,
      h.offset old hold]
    omega
  · simp only [Client.loop] at hpc
    split at hpc <;> simp at hpc

theorem ClientStep.positioned {c moved : Client} {call : ClientCall}
    (h : ClientStep c call moved) (hok : ClientOk c) (hc : c.Positioned) :
    moved.Positioned := by
  cases h with
  | sends hpc | takesFirst hpc | truncates hpc =>
      exact ⟨hc.offset, fun _ => hc.fresh (by simp [hpc])⟩
  | opens hpc ok =>
      have hstored := hc.fresh (by simp [hpc])
      refine ⟨fun offset hoffset => ?_, fun _ => hstored⟩
      cases ok with
      | false => cases hoffset
      | true =>
          cases hoffset
          simp [hstored]
  | seeks hpc =>
      have hstored := hc.fresh (by simp [hpc])
      refine ⟨fun offset hoffset => ?_, by simp⟩
      obtain ⟨old, -, rfl⟩ := Option.map_eq_some_iff.mp hoffset
      simp [hstored]
  | storesFirst hpc hcount =>
      simp only [ClientOk, hpc] at hok
      exact hc.store hok.2.1 hcount _
  | stores hpc hcount =>
      simp only [ClientOk, hpc] at hok
      exact hc.store hok.2.1 hcount _
  | _ => exact ⟨hc.offset, by simp [Client.leave, Client.count]⟩

/-- The requests are routed and every process is where it should be. -/
structure Inv (fs : FileTree) (s : State) : Prop
    extends Routed s where
  childOk : ∀ p ∈ s.children, ChildOk fs p
  clientOk : ∀ c ∈ s.clients, ClientOk c
  positioned : ∀ c ∈ s.clients, c.Positioned

theorem start_inv (fs : FileTree) (memory : List Byte)
    (output : Option Content) : Inv fs (start memory output) := by
  refine ⟨start_routed memory output, ?_, ?_, ?_⟩
  · simp [start]
  · simp [start]
  · simp [start]

theorem next_inv (fs : FileTree) (qbytes : Capacity) (s : State)
    (label : Label) (t : State) (hs : Inv fs s)
    (h : next fs qbytes s label = some t) : Inv fs t := by
  refine ⟨next_routed fs qbytes s label t hs.toRouted h, ?_, ?_, ?_⟩
  · cases next_step h with
    | forks => exact forall_mem_concat hs.childOk (start_childOk fs _)
    | childSends hp hmoved | childExits hp hmoved | childMoves hp hmoved =>
        exact forall_mem_set hs.childOk
          (hmoved.childOk (hs.childOk _ (List.mem_of_getElem? hp)))
    | _ => exact hs.childOk
  · cases next_step h with
    | launches => exact forall_mem_concat hs.clientOk (start_clientOk _ _)
    | @childSends j k p moved c resp hp hmoved hresp hc =>
        apply forall_mem_set hs.clientOk
        exact hs.clientOk c (List.mem_of_getElem? hc)
    | clientSends hc hmoved | clientMoves hc hmoved =>
        exact forall_mem_set hs.clientOk
          (hmoved.clientOk (hs.clientOk _ (List.mem_of_getElem? hc)))
    | _ => exact hs.clientOk
  · cases next_step h with
    | launches =>
        exact forall_mem_concat hs.positioned (start_positioned _ _)
    | @childSends j k p moved c resp hp hmoved hresp hc =>
        apply forall_mem_set hs.positioned
        obtain ⟨hoffset, hfresh⟩ :=
          hs.positioned c (List.mem_of_getElem? hc)
        exact ⟨hoffset, hfresh⟩
    | clientSends hc hmoved | clientMoves hc hmoved =>
        have hmem := List.mem_of_getElem? hc
        exact forall_mem_set hs.positioned
          (hmoved.positioned (hs.clientOk _ hmem) (hs.positioned _ hmem))
    | _ => exact hs.positioned

theorem exec_inv {fs : FileTree} {qbytes : Capacity} {memory : List Byte}
    {output : Option Content} {labels : List Label} {s : State}
    (hrun : exec (next fs qbytes) (start memory output) labels = some s) :
    Inv fs s :=
  exec_invariant (next_inv fs qbytes) (start_inv fs memory output) hrun

theorem Routed.client_unique {s : State} (hs : Routed s) {c d : Client}
    (hc : c ∈ s.clients) (hd : d ∈ s.clients) (hkey : c.key = d.key) :
    c = d := by
  exact List.inj_on_of_nodup_map hs.keys_nodup hc hd hkey

/-- What a client's child has sent is what has come in. -/
theorem Routed.sent_eq {s : State} (hs : Routed s) {c : Client} {p : Child}
    (hc : c ∈ s.clients) (hp : p ∈ s.children) (hid : p.clientId = c.key) :
    c.arrived = p.sent :=
  (hs.matched.same _ (List.mem_map_of_mem hp) _ (List.mem_map_of_mem hc)
    hid).symm

/-- The child of a client opens what the client asks for. -/
theorem Routed.pathname_eq {s : State} (hs : Routed s) {c : Client}
    {p : Child} (hc : c ∈ s.clients) (hp : p ∈ s.children)
    (hid : p.clientId = c.key) : p.pathname = c.pathname.bytes := by
  obtain ⟨k, d, hd, -, hdid, hpath⟩ := hs.exists_client hp
  rw [hs.client_unique hc (List.mem_of_getElem? hd) (hid.symm.trans hdid)]
  exact hpath

/-- A message on a client's queue comes from a child. -/
theorem Routed.exists_child {s : State} (hs : Routed s) {c : Client}
    (hc : c ∈ s.clients) (harrived : c.arrived ≠ []) :
    ∃ p ∈ s.children, p.clientId = c.key := by
  by_contra hnone
  push Not at hnone
  apply harrived
  apply hs.matched.idle _ (List.mem_map_of_mem hc)
  intro hmem
  simp only [List.map_map, List.mem_map] at hmem
  obtain ⟨p, hp, hid⟩ := hmem
  exact hnone p hp hid

theorem Taken.terminated {received : List Response} {mtype : RespType}
    (h : Taken received mtype) (hlast : mtype ≠ .data) :
    Terminated Response.IsData received := by
  obtain ⟨front, last, rfl, hfront, rfl, -⟩ := h
  exact Terminated.concat hfront hlast

/-- The first message of a client that goes on is no failure. -/
theorem Taken.ne_failure {received : List Response} {mtype : RespType}
    (h : Taken received mtype) {resp : Response} (hone : received = [resp]) :
    resp.mtype ≠ .failure := by
  obtain ⟨front, last, rfl, -, -, hfirst⟩ := h
  have hlength := congrArg List.length hone
  simp only [List.length_append, List.length_singleton] at hlength
  obtain rfl : front = [] := List.length_eq_zero_iff.mp (by omega)
  obtain ⟨rfl, -⟩ := List.cons.inj hone
  exact hfirst rfl

/-- A client that has received a last message has received all that its child
sends. -/
theorem Inv.drained {fs : FileTree} {s : State}
    (hs : Inv fs s) {c : Client} (hc : c ∈ s.clients)
    (hstream : Terminated Response.IsData c.received) :
    ∃ p ∈ s.children, p.clientId = c.key ∧ p.sent = c.received ∧
      c.queue = [] := by
  obtain ⟨resp, hresp, hlast⟩ := hstream.exists_last
  have harrived : resp ∈ c.arrived := List.mem_append_left _ hresp
  obtain ⟨p, hp, hid⟩ :=
    hs.exists_child hc (List.ne_nil_of_mem harrived)
  have hsent := hs.sent_eq hc hp hid
  have hwhole : Terminated Response.IsData (c.received ++ c.queue) := by
    change Terminated _ c.arrived
    rw [hsent] at harrived ⊢
    exact (hs.childOk p hp).terminated harrived hlast
  have hempty := hstream.eq_nil_of_append hwhole
  refine ⟨p, hp, hid, ?_, hempty⟩
  rw [← hsent, Client.arrived, hempty, List.append_nil]

/-- A client that has left its loop has received the blocks and the message
that ends them. -/
theorem Inv.finished {fs : FileTree} {s : State}
    (hs : Inv fs s) {c : Client} (hc : c ∈ s.clients)
    (htaken : Taken c.received c.mtype) (hlast : c.mtype ≠ .data) :
    ∃ p file blocks, p ∈ s.children ∧ p.clientId = c.key ∧
      fs c.pathname.bytes = some file ∧ Serving fs p file blocks [] ∧
      Covers p file blocks ∧ c.received = blocks ++ [endResp] := by
  have hstream := htaken.terminated hlast
  obtain ⟨resp, hresp, hend⟩ := hstream.exists_last
  obtain ⟨p, hp, hid, hsent, -⟩ := hs.drained hc hstream
  rw [← hsent] at hresp
  rcases (hs.childOk p hp).ended hresp hend with
    ⟨-, hfailure, hmtype⟩ | ⟨file, blocks, hserving, hcovers, hblocks⟩
  · exact absurd hmtype (htaken.ne_failure (hsent.symm.trans hfailure))
  · refine ⟨p, file, blocks, hp, hid, ?_, hserving, hcovers,
      hsent.symm.trans hblocks⟩
    rw [← hs.pathname_eq hc hp hid]
    exact hserving.path

theorem payload_blocks (blocks : List Response) :
    payload (blocks ++ [endResp]) = payload blocks := by
  rw [payload_concat]
  exact List.append_nil _

/-- Nothing has been dropped on behalf of the client with index `k`. -/
def Clean (k : ℕ) (s : State) : Prop :=
  ∀ c, s.clients[k]? = some c →
    c.lost = 0 ∧ ∀ p ∈ s.children, p.clientId = c.key → p.cut = false

/-- The step drops nothing that the client with index `k` has asked for: if it
is a call of this client or of its child, the call does not. -/
def Harmless (k : ℕ) (s : State) (label : Label) (_ : State) : Prop :=
  ∀ c, s.clients[k]? = some c →
    (∀ call, label = .client k call → ¬ c.Loses call) ∧
      ∀ j call p, label = .child j call → s.children[j]? = some p →
        p.clientId = c.key → ¬ p.Loses call

/-- The client has stored the whole file that it asked for.  If that is the
one which the clients write, it is what stood there when the child opened it,
and the client has stored all that it received. -/
def StoredWhole (fs : FileTree) (s : State) (c : Client) : Prop :=
  (∃ content, fs c.pathname.bytes = some (.regular content) ∧
    c.stored = content.bytes) ∨
  fs c.pathname.bytes = some .output ∧ c.lost = 0 ∧
    ∃ p ∈ s.children, p.clientId = c.key ∧ p.fd = some .output ∧
      c.stored = p.found

/-- What the child has sent of a file that does not change is all of it if it
is as long. -/
theorem Serving.payload_eq {fs : FileTree} {p : Child} {content : Content}
    {blocks : List Response} (h : Serving fs p (.regular content) blocks [])
    (hlength : content.bytes.length ≤ (payload blocks).length) :
    p.found = content.bytes ∧ payload blocks = p.found := by
  have hfound : p.found = content.bytes := h.found (by simp)
  have hfront := h.front (by simp)
  rw [List.append_nil] at hfront
  exact ⟨hfound, hfront.eq_of_length_le (hfound ▸ hlength)⟩

/-- A client that returns 0 has stored the whole file exactly when nothing has
been dropped. -/
theorem Inv.whole_iff {fs : FileTree} {s : State} (hs : Inv fs s) {k : ℕ}
    {c : Client} (hc : s.clients[k]? = some c) (hpc : c.pc = .returned 0) :
    StoredWhole fs s c ↔ Clean k s := by
  have hmem := List.mem_of_getElem? hc
  have hok := hs.clientOk c hmem
  simp only [ClientOk, hpc] at hok
  obtain ⟨-, hreceiving, hlast, -⟩ := hok.resolve_right (by simp)
  obtain ⟨p, file, blocks, hp, hid, hfile, hserving, hcovers, hreceived⟩ :=
    hs.finished hmem hreceiving.taken hlast
  have hcount := hreceiving.tally.count
  rw [hreceived, payload_blocks, List.length_nil, Nat.add_zero] at hcount
  have hstored : c.lost = 0 → c.stored = payload blocks := by
    intro hlost
    have hwhole := hreceiving.tally.whole hlost
    rwa [List.append_nil, hreceived, payload_blocks] at hwhole
  have honly : ∀ q ∈ s.children, q.clientId = c.key → q = p :=
    fun q hq hqid => List.inj_on_of_nodup_map hs.clientIds_nodup hq hp
      (hqid.trans hid.symm)
  constructor
  · intro hwhole d hd
    obtain rfl : c = d := Option.some.inj (hc.symm.trans hd)
    have hall : c.lost = 0 ∧ file ≠ .directory ∧ payload blocks = p.found := by
      rcases hwhole with ⟨content, hregular, hsame⟩ |
        ⟨houtput, hlost, q, hq, hqid, -, hsame⟩
      · obtain rfl : file = .regular content :=
          Option.some.inj (hfile.symm.trans hregular)
        rw [hsame] at hcount
        obtain ⟨hfound, hpayload⟩ := hserving.payload_eq (by omega)
        rw [hpayload, hfound] at hcount
        exact ⟨by omega, by simp, hpayload⟩
      · obtain rfl : file = .output :=
          Option.some.inj (hfile.symm.trans houtput)
        obtain rfl := honly q hq hqid
        exact ⟨hlost, by simp, (hstored hlost).symm.trans hsame⟩
    refine ⟨hall.1, fun q hq hqid => ?_⟩
    rw [honly q hq hqid]
    exact hcovers.mpr hall.2
  · intro hclean
    obtain ⟨hlost, hcuts⟩ := hclean c hc
    obtain ⟨hdirectory, hpayload⟩ := hcovers.mp (hcuts p hp hid)
    have hsame := (hstored hlost).trans hpayload
    cases hkind : file with
    | directory => exact absurd hkind hdirectory
    | output =>
        subst hkind
        exact Or.inr ⟨hfile, hlost, p, hp, hid, hserving.opened, hsame⟩
    | regular content =>
        subst hkind
        exact Or.inl ⟨content, hfile,
          hsame.trans (hserving.found (by simp))⟩

/-- A client that has just been launched has no child. -/
theorem Routed.clientId_ne {s : State} (hs : Routed s) {clientId : QueueId}
    (hfresh : clientId ∉ s.clients.map Client.clientId) {p : Child}
    (hp : p ∈ s.children) : p.clientId ≠ clientId.val := by
  intro hid
  obtain ⟨k, c, hc, -, hkey, -⟩ := hs.exists_client hp
  apply hfresh
  apply List.mem_map.mpr
  refine ⟨c, List.mem_of_getElem? hc, Fin.ext (Int.ofNat_inj.mp ?_)⟩
  exact hkey.symm.trans hid

theorem clean_iff {k : ℕ} {s : State} {c : Client}
    (hc : s.clients[k]? = some c) : Clean k s ↔ c.lost = 0 ∧
      ∀ p ∈ s.children, p.clientId = c.key → p.cut = false := by
  constructor
  · intro hclean
    exact hclean c hc
  · intro hclean d hd
    obtain rfl : c = d := Option.some.inj (hc.symm.trans hd)
    exact hclean

namespace Step

variable {fs : FileTree} {qbytes : Capacity} {s t : State}
  {label : Label}

/-- A client keeps its index, its path and its queue; only its own calls lose
what it has received. -/
theorem client_at (h : Step fs qbytes s label t) {k : ℕ} {c : Client}
    (hc : s.clients[k]? = some c) :
    ∃ d, t.clients[k]? = some d ∧ d.key = c.key ∧ d.pathname = c.pathname ∧
      (d.lost = 0 ↔ c.lost = 0 ∧
        ∀ call, label = .client k call → ¬ c.Loses call) := by
  have hlt := (List.getElem?_eq_some_iff.mp hc).1
  cases h with
  | launches =>
      refine ⟨c, ?_, rfl, rfl, by simp⟩
      rw [List.getElem?_append_left hlt]
      exact hc
  | @childSends j n p moved d resp hp hmoved hresp hd =>
      by_cases hnk : n = k
      · subst hnk
        obtain rfl : c = d := Option.some.inj (hc.symm.trans hd)
        refine ⟨c.enqueue resp, List.getElem?_set_self hlt, rfl, rfl, ?_⟩
        simp [Client.enqueue]
      · refine ⟨c, ?_, rfl, rfl, by simp⟩
        rw [List.getElem?_set_ne hnk]
        exact hc
  | @clientSends n d moved server queue hd hmoved
  | @clientMoves n d moved call output hd hmoved =>
      by_cases hnk : n = k
      · subst hnk
        obtain rfl : c = d := Option.some.inj (hc.symm.trans hd)
        refine ⟨moved, List.getElem?_set_self hlt, hmoved.key_eq,
          hmoved.names_eq.2, ?_⟩
        simp [hmoved.lost_iff]
      · refine ⟨c, ?_, rfl, rfl, by simp [hnk]⟩
        rw [List.getElem?_set_ne hnk]
        exact hc
  | _ => exact ⟨c, hc, rfl, rfl, by simp⟩

/-- A client that was not there before has lost nothing and has no child. -/
theorem client_new (h : Step fs qbytes s label t) (hs : Inv fs s) {k : ℕ}
    {d : Client} (hnone : s.clients[k]? = none)
    (hd : t.clients[k]? = some d) :
    d.lost = 0 ∧ ∀ p ∈ t.children, p.clientId ≠ d.key := by
  cases h with
  | @launches pathname clientId hfresh =>
      have hle := List.getElem?_eq_none_iff.mp hnone
      rw [List.getElem?_append_right hle] at hd
      rw [List.getElem?_singleton, Option.ite_none_right_eq_some,
        Option.some.injEq] at hd
      rcases hd with ⟨-, rfl⟩
      exact ⟨rfl, fun p hp => hs.clientId_ne hfresh hp⟩
  | childSends | clientSends | clientMoves =>
      have hle := List.getElem?_eq_none_iff.mp hnone
      have hlt := (List.getElem?_eq_some_iff.mp hd).1
      rw [List.length_set] at hlt
      omega
  | _ =>
      rw [hnone] at hd
      cases hd

theorem called_iff {s : State} {j : ℕ} {p : Child} {call : ChildCall}
    {key : Int} (hp : s.children[j]? = some p) :
    (∀ i other q, Label.child j call = .child i other →
      s.children[i]? = some q → q.clientId = key → ¬ q.Loses other) ↔
      (p.clientId = key → ¬ p.Loses call) := by
  constructor
  · intro h
    exact h j call p rfl hp
  · intro h i other q heq hq
    cases heq
    obtain rfl : p = q := Option.some.inj (hp.symm.trans hq)
    exact h

/-- Only the calls of its child cut the file for a client. -/
theorem cut_iff (h : Step fs qbytes s label t) (key : Int) :
    (∀ p ∈ t.children, p.clientId = key → p.cut = false) ↔
      (∀ p ∈ s.children, p.clientId = key → p.cut = false) ∧
      ∀ j call p, label = .child j call → s.children[j]? = some p →
        p.clientId = key → ¬ p.Loses call := by
  cases h with
  | forks =>
      rw [List.forall_mem_append]
      simp [Child.start]
  | @childSends j k p moved c resp hp hmoved
  | @childExits j p moved server hp hmoved
  | @childMoves j p moved call hp hmoved =>
      rw [forall_mem_set_iff hp
        (by rw [hmoved.cut_iff, hmoved.clientId_eq, imp_and]), called_iff hp]
  | _ => simp

end Step

/-- A step keeps the account of a client clean exactly when it is harmless. -/
theorem next_clean (fs : FileTree) (qbytes : Capacity) (k : ℕ)
    (s : State) (label : Label) (t : State) (hs : Inv fs s)
    (h : next fs qbytes s label = some t) :
    Clean k t ↔ Clean k s ∧ Harmless k s label t := by
  have hstep := next_step h
  cases hk : s.clients[k]? with
  | none =>
      have hbefore : Clean k s ∧ Harmless k s label t := by
        refine ⟨?_, ?_⟩
        · intro c hc
          rw [hk] at hc
          cases hc
        · intro c hc
          rw [hk] at hc
          cases hc
      refine iff_of_true ?_ hbefore
      intro d hd
      obtain ⟨hlost, hchildren⟩ := hstep.client_new hs hk hd
      exact ⟨hlost, fun p hp hid => absurd hid (hchildren p hp)⟩
  | some c =>
      obtain ⟨d, hd, hkey, -, hlost⟩ := hstep.client_at hk
      rw [clean_iff hd, clean_iff hk, hkey, hlost, hstep.cut_iff c.key]
      simp only [Harmless, hk, Option.some.injEq, forall_eq']
      tauto

end FileServer

end MyFreeLib
