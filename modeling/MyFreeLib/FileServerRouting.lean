/-
Who is served what.  Every child answers the one client whose request it was
forked for and opens that client's argument, and what has come in on a private
queue is what this child has sent.
-/
import MyFreeLib.Channels
import MyFreeLib.FileServerSteps
import MyFreeLib.SysvMsgAvailability

namespace MyFreeLib

namespace FileServer

theorem cString_terminated {front : List Byte} (hfront : 0 ∉ front)
    (rest : List Byte) : cString (front ++ 0 :: rest) = front := by
  have hpos : ∀ b ∈ front, (b != 0) = true := by
    intro b hb
    rw [bne_iff_ne]
    rintro rfl
    exact hfront hb
  rw [cString, List.takeWhile_append_of_pos hpos]
  simp

/-- The zeros that follow the argument in a request, the last of them the one
that the client sets itself. -/
theorem Client.request_eq (c : Client) :
    c.request = intBytes c.key ++ (c.pathname.bytes ++ 0 ::
      List.replicate (SysvMsg.pathMax - 1 - c.pathname.bytes.length) 0) := by
  have hstring := cString_eq_self c.pathname.noZero
  have htake := List.take_of_length_le c.pathname.fits
  simp only [request, SysvMsg.requestMsg, strncpy, strlen, hstring, htake,
    overlay, List.drop_nil, List.append_nil, List.append_assoc,
    ← List.replicate_succ', List.replicate_succ]

theorem Client.request_length (c : Client) :
    c.request.length = SysvMsg.reqMsgSize := by
  have hfits := c.pathname.fits
  simp only [c.request_eq, List.length_append, List.length_cons,
    List.length_replicate, intBytes_length, SysvMsg.reqMsgSize,
    SysvMsg.pathMax] at hfits ⊢
  omega

theorem Client.request_complete (c : Client) :
    SysvMsg.Complete c.request := by
  refine ⟨?_, ?_⟩
  · simp [c.request_length, SysvMsg.reqMsgSize, SysvMsg.pathMax]
  · rw [c.request_eq, List.drop_left' (intBytes_length _)]
    simp

/-- A request says whom to answer and, byte for byte, what to open. -/
theorem Client.served_request (c : Client) :
    SysvMsg.served c.request = (c.key, c.pathname.bytes) := by
  have hlow : -2 ^ 31 ≤ c.key := by
    simp only [key]
    omega
  have hhigh : c.key < 2 ^ 31 := by
    have hid := c.clientId.isLt
    simp only [key]
    omega
  rw [c.request_eq, SysvMsg.served, SysvMsg.clientId, SysvMsg.pathname,
    bytesInt_intBytes hlow hhigh, List.drop_left' (intBytes_length _),
    cString_terminated c.pathname.noZero]

theorem Client.clientId_request (c : Client) :
    SysvMsg.clientId c.request = c.key := by
  have hserved := c.served_request
  rw [SysvMsg.served, Prod.mk.injEq] at hserved
  exact hserved.1

theorem Client.pathname_request (c : Client) :
    SysvMsg.pathname c.request = c.pathname.bytes :=
  congrArg Prod.snd c.served_request

/-- The queue that a child answers on, with what it has put there. -/
def Child.outbox (p : Child) : Int × List Response := (p.clientId, p.sent)

/-- The queue of a client, with what has come in on it. -/
def Client.inbox (c : Client) : Int × List Response := (c.key, c.arrived)

theorem ChildStep.outbox_eq {fs : FileTree} {output : Option Content}
    {p moved : Child} {call : ChildCall}
    (h : ChildStep fs output p call moved) (hcall : call ≠ .msgsnd true) : moved.outbox = p.outbox := by
  rw [Child.outbox, h.clientId_eq, h.sent_eq hcall, Child.outbox]

theorem ClientStep.inbox_eq {c moved : Client} {call : ClientCall}
    (h : ClientStep c call moved) : moved.inbox = c.inbox := by
  rw [Client.inbox, h.key_eq, h.arrived_eq, Client.inbox]

theorem Client.asked_enqueue (c : Client) (resp : Response) :
    (c.enqueue resp).asked = c.asked := rfl

/-- The parent serves, the requests it has been sent are those of the clients,
one of each, and the children have them in their memory. -/
structure Requested (s : State) : Prop where
  available : SysvMsg.Available s.server
  queueExists : s.server.queue.isSome
  requests : SysvMsg.Requests s.server
  asked : ∀ message ∈ s.server.sent,
    some message ∈ s.clients.map Client.asked
  once : (s.server.sent.map SysvMsg.clientId).Nodup
  waiting : ∀ c ∈ s.clients, c.pc = .first → c.request ∈ s.server.sent
  memories : s.children.map Child.memory =
    s.server.children.map SysvMsg.Child.memory

/-- Moreover what the children have sent has come in at their clients. -/
structure Routed (s : State) : Prop extends Requested s where
  matched : Matched (s.children.map Child.outbox)
    (s.clients.map Client.inbox)

/-- The start of the server is the step of the server alone. -/
theorem start_server (memory : List Byte) (output : Option Content) :
    SysvMsg.next SysvMsg.initial (.start memory) =
      some (start memory output).server := rfl

theorem start_routed (memory : List Byte) (output : Option Content) :
    Routed (start memory output) := by
  refine ⟨⟨?_, rfl, ?_, ?_, ?_, ?_, rfl⟩, Matched.nil⟩
  · exact (SysvMsg.start_sound (start_server memory output)).available
  · exact SysvMsg.next_requests _ _ _ SysvMsg.initial_requests
      (start_server memory output)
  · simp [start, SysvMsg.initial]
  · simp [start, SysvMsg.initial]
  · simp [start]

namespace Requested

variable {s : State}

/-- The server keeps its own invariants. -/
theorem server_next (hs : Requested s) {label : SysvMsg.Label}
    {server : SysvMsg.State} (hlabel : ¬ label.EndsParent)
    (h : SysvMsg.next s.server label = some server) :
    SysvMsg.Available server ∧ SysvMsg.Requests server :=
  ⟨SysvMsg.next_available hs.available hlabel h,
    SysvMsg.next_requests _ _ _ hs.requests h⟩

theorem exists_asked (hs : Requested s) {message : SysvMsg.Message}
    (hmessage : message ∈ s.server.sent) :
    ∃ (k : ℕ) (c : Client), s.clients[k]? = some c ∧ c.pc ≠ .send ∧
      c.request = message := by
  obtain ⟨k, hk⟩ := List.mem_iff_getElem?.mp (hs.asked message hmessage)
  rw [List.getElem?_map] at hk
  obtain ⟨c, hc, hasked⟩ := Option.map_eq_some_iff.mp hk
  rw [Client.asked] at hasked
  split at hasked
  · cases hasked
  · next hpc => exact ⟨k, c, hc, hpc, Option.some.inj hasked⟩

/-- What a child has in its memory is one of the requests. -/
theorem served_message (hs : Requested s) {q : SysvMsg.Child}
    (hq : q ∈ s.server.children) :
    SysvMsg.served q.memory = SysvMsg.served q.message := by
  have hsent : q.message ∈ s.server.sent := by
    rw [hs.available.accounts]
    simp only [List.mem_append, List.mem_map]
    exact Or.inl (Or.inl ⟨q, hq, rfl⟩)
  obtain ⟨k, c, -, -, hrequest⟩ := hs.exists_asked hsent
  apply SysvMsg.Complete.served_eq _ (hs.requests.handed q hq)
  exact hrequest ▸ c.request_complete

/-- The children answer the clients whose requests they were forked for. -/
theorem clientIds_eq (hs : Requested s) :
    s.children.map Child.clientId =
      (s.server.children.map SysvMsg.Child.message).map SysvMsg.clientId := by
  calc s.children.map Child.clientId
      = (s.children.map Child.memory).map SysvMsg.clientId := by
        rw [List.map_map]
        rfl
    _ = (s.server.children.map SysvMsg.Child.memory).map
          SysvMsg.clientId := by rw [hs.memories]
    _ = (s.server.children.map SysvMsg.Child.message).map
          SysvMsg.clientId := by
        rw [List.map_map, List.map_map]
        apply List.map_congr_left
        intro q hq
        exact congrArg Prod.fst (hs.served_message hq)

theorem clientIds_nodup (hs : Requested s) :
    (s.children.map Child.clientId).Nodup := by
  have honce := hs.once
  rw [hs.available.accounts, List.map_append, List.map_append] at honce
  rw [hs.clientIds_eq]
  exact honce.of_append_left.of_append_left

/-- The child serves a client and opens what this client has asked for. -/
theorem exists_client (hs : Requested s) {p : Child}
    (hp : p ∈ s.children) :
    ∃ (k : ℕ) (c : Client), s.clients[k]? = some c ∧ c.pc ≠ .send ∧
      p.clientId = c.key ∧ p.pathname = c.pathname.bytes := by
  have hmemory : p.memory ∈ s.children.map Child.memory :=
    List.mem_map_of_mem hp
  rw [hs.memories] at hmemory
  obtain ⟨q, hq, hqp⟩ := List.mem_map.mp hmemory
  have hsent : q.message ∈ s.server.sent := by
    rw [hs.available.accounts]
    simp only [List.mem_append, List.mem_map]
    exact Or.inl (Or.inl ⟨q, hq, rfl⟩)
  obtain ⟨k, c, hc, hpc, hrequest⟩ := hs.exists_asked hsent
  have hserved := hs.served_message hq
  rw [← hrequest, c.served_request, hqp] at hserved
  exact ⟨k, c, hc, hpc, congrArg Prod.fst hserved,
    congrArg Prod.snd hserved⟩

end Requested

/-- Two clients never share a queue. -/
theorem Routed.keys_nodup {s : State} (hs : Routed s) :
    (s.clients.map Client.key).Nodup := by
  have howner := hs.matched.oneOwner
  rw [List.map_map] at howner
  exact howner

/-- What the invariant needs of the tables when the server does not move. -/
theorem Requested.of_tables {s : State} (hs : Requested s)
    {children : List Child} {clients : List Client}
    {output : Option Content}
    (hasked : ∀ message, some message ∈ s.clients.map Client.asked →
      some message ∈ clients.map Client.asked)
    (hwaiting : ∀ c ∈ clients, c.pc = .first → c.request ∈ s.server.sent)
    (hmemories : children.map Child.memory = s.children.map Child.memory) :
    Requested ⟨s.server, children, clients, output⟩ := by
  refine ⟨hs.available, hs.queueExists, hs.requests, ?_, hs.once, hwaiting,
    ?_⟩
  · intro message hmessage
    exact hasked message (hs.asked message hmessage)
  · exact hmemories.trans hs.memories

/-- A client that has not sent its request is unknown to the server. -/
theorem Routed.not_sent {s : State} (hs : Routed s) {k : ℕ} {c : Client}
    (hc : s.clients[k]? = some c) (hpc : c.pc = .send) :
    SysvMsg.clientId c.request ∉ s.server.sent.map SysvMsg.clientId := by
  intro hmem
  obtain ⟨message, hmessage, hid⟩ := List.mem_map.mp hmem
  obtain ⟨n, d, hd, hsent, rfl⟩ := hs.exists_asked hmessage
  rw [d.clientId_request, c.clientId_request] at hid
  obtain rfl := index_eq_of_nodup hs.keys_nodup hd hc hid
  obtain rfl : d = c := Option.some.inj (hd.symm.trans hc)
  exact hsent hpc

theorem Step.requested {fs : FileTree} {qbytes : Capacity}
    {s t : State} {label : Label} (h : Step fs qbytes s label t)
    (hs : Routed s) : Requested t := by
  cases h with
  | launches hfresh =>
      apply hs.toRequested.of_tables
      · intro message hmessage
        rw [List.map_append]
        exact List.mem_append_left _ hmessage
      · apply forall_mem_concat hs.waiting
        simp [Client.start]
      · rfl
  | receives hserver hparent hpc hqueue hmoved =>
      obtain ⟨havailable, hrequests⟩ := hs.server_next id hserver
      subst hmoved
      exact ⟨havailable, rfl, hrequests, hs.asked, hs.once, hs.waiting,
        hs.memories⟩
  | interrupted => exact hs.toRequested
  | forks hserver hparent hpc hmoved =>
      obtain ⟨havailable, hrequests⟩ := hs.server_next id hserver
      subst hmoved
      refine ⟨havailable, hs.queueExists, hrequests, hs.asked, hs.once,
        hs.waiting, ?_⟩
      rw [List.map_append, List.map_append, hs.memories]
      rfl
  | @childSends j k p moved c resp hp hmoved hresp hc hkey hqueue hroom =>
      apply hs.toRequested.of_tables
      · intro message hmessage
        rwa [map_set_eq hc (Client.asked_enqueue _ _)]
      · apply forall_mem_set hs.waiting
        exact hs.waiting c (List.mem_of_getElem? hc)
      · exact map_set_eq hp hmoved.memory_eq
  | @childExits j p moved server hp hmoved hserver =>
      obtain ⟨havailable, hrequests⟩ := hs.server_next id hserver
      obtain ⟨q, notices, hq, rfl⟩ := SysvMsg.childEnds_cases hserver
      refine ⟨havailable, hs.queueExists, hrequests, hs.asked, hs.once,
        hs.waiting, ?_⟩
      have hset : (s.server.children.set j { q with running := false }).map
          SysvMsg.Child.memory =
            s.server.children.map SysvMsg.Child.memory := map_set_eq hq rfl
      rw [hset, map_set_eq hp hmoved.memory_eq]
      exact hs.memories
  | childMoves hp hmoved hcall hexit =>
      apply hs.toRequested.of_tables
      · exact fun message hmessage => hmessage
      · exact hs.waiting
      · exact map_set_eq hp hmoved.memory_eq
  | @clientSends k c moved server queue hc hmoved hserver hqueue hposted =>
      obtain ⟨havailable, hrequests⟩ := hs.server_next id hserver
      have hnew := hs.not_sent hc hmoved.pc_eq_send
      subst hposted
      refine ⟨havailable, rfl, hrequests, ?_, ?_, ?_, hs.memories⟩
      · apply forall_mem_concat
        · intro message hmessage
          exact hmoved.mem_asked hc (hs.asked message hmessage)
        · apply List.mem_map.mpr
          exact ⟨moved, List.mem_set (List.getElem?_eq_some_iff.mp hc).1 _,
            hmoved.asked_eq⟩
      · rw [List.map_append]
        apply hs.once.append (List.nodup_singleton _)
        simpa using hnew
      · apply forall_mem_set
        · intro d hd hpc
          exact List.mem_append_left _ (hs.waiting d hd hpc)
        · intro _
          rw [hmoved.request_eq]
          exact List.mem_append_right _ (List.mem_singleton_self _)
  | clientMoves hc hmoved hcall =>
      apply hs.toRequested.of_tables
      · intro message hmessage
        exact hmoved.mem_asked hc hmessage
      · apply forall_mem_set hs.waiting
        intro hpc
        exact absurd hpc (hmoved.pc_ne_first hcall)
      · rfl

theorem Step.matched {fs : FileTree} {qbytes : Capacity}
    {s t : State} {label : Label} (h : Step fs qbytes s label t)
    (hs : Routed s) (ht : Requested t) :
    Matched (t.children.map Child.outbox) (t.clients.map Client.inbox) := by
  cases h with
  | @launches pathname clientId hfresh =>
      rw [List.map_append]
      have hkey (c : Client) (hc : c ∈ s.clients) :
          (clientId.val : Int) ≠ c.key := by
        intro hkey
        apply hfresh
        apply List.mem_map.mpr
        exact ⟨c, hc, Fin.ext (Int.ofNat_inj.mp hkey.symm)⟩
      apply hs.matched.addReceiver
      · intro hmem
        simp only [List.map_map, List.mem_map] at hmem
        obtain ⟨p, hp, hid⟩ := hmem
        obtain ⟨k, c, hc, -, hclient, -⟩ := hs.exists_client hp
        exact hkey c (List.mem_of_getElem? hc) (hid.symm.trans hclient)
      · intro hmem
        simp only [List.map_map, List.mem_map] at hmem
        obtain ⟨c, hc, hid⟩ := hmem
        exact hkey c hc hid.symm
  | @forks server parent message hserver hparent hpc hmoved =>
      have hnodup := ht.clientIds_nodup
      rw [List.map_append] at hnodup
      rw [List.map_append]
      apply hs.matched.addSender
      rw [List.map_map]
      intro hmem
      exact (List.nodup_append.mp hnodup).2.2 _ hmem _
        (List.mem_singleton_self _) rfl
  | @childSends j k p moved c resp hp hmoved hresp hc hkey hqueue hroom =>
      rw [List.map_set, List.map_set]
      have hchild : moved.outbox = (p.clientId, p.sent ++ [resp]) := by
        rw [Child.outbox, hmoved.clientId_eq, hmoved.sent_concat hresp]
      have hclient : (c.enqueue resp).inbox =
          (p.clientId, c.arrived ++ [resp]) := by
        simp only [Client.inbox, Client.arrived, Client.enqueue, ← hkey,
          List.append_assoc]
        rfl
      rw [hchild, hclient]
      apply hs.matched.deliver
      · rw [List.getElem?_map, hp]
        rfl
      · rw [List.getElem?_map, hc, ← hkey]
        rfl
  | childExits hp hmoved hserver =>
      rw [map_set_eq hp (hmoved.outbox_eq (by simp))]
      exact hs.matched
  | childMoves hp hmoved hcall hexit =>
      rw [map_set_eq hp (hmoved.outbox_eq hcall)]
      exact hs.matched
  | clientSends hc hmoved | clientMoves hc hmoved =>
      rw [map_set_eq hc hmoved.inbox_eq]
      exact hs.matched
  | receives | interrupted => exact hs.matched

theorem next_routed (fs : FileTree) (qbytes : Capacity)
    (s : State) (label : Label) (t : State) (hs : Routed s)
    (h : next fs qbytes s label = some t) : Routed t := by
  have hstep := next_step h
  have hrequested := hstep.requested hs
  exact ⟨hrequested, hstep.matched hs hrequested⟩

end FileServer

end MyFreeLib
