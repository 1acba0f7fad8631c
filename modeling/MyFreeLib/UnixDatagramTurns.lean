/-
What the calls of the datagram demos can do, and how far a server is with the
messages of its own socket.  No client has a path, so nothing is ever stored in
`csaddr`.
-/
import MyFreeLib.UnixDatagram

namespace MyFreeLib

namespace UnixSocket

namespace Datagram

/-- All that a socket has got. -/
def Endpoint.log (e : Endpoint) : List Message := e.taken ++ e.queue

/-- The server has not bound its socket yet. -/
def ServerPc.early : ServerPc → Bool
  | .socket | .remove | .bind => true
  | _ => false

/-! ### What a call does -/

/-- The sockets are the same but for who still has his open. -/
def SameLogs (before after : List Endpoint) : Prop :=
  after.length = before.length ∧
    ∀ (k : ℕ) (e : Endpoint), before[k]? = some e →
      ∃ isOpen, after[k]? = some { e with isOpen }

theorem SameLogs.refl (objects : List Endpoint) : SameLogs objects objects :=
  ⟨rfl, fun _ e h => ⟨e.isOpen, h⟩⟩

/-- What a server becomes by its next call, and the sockets. -/
inductive ServerMove (objects : List Endpoint) (i : ℕ) (p : ServerProcess) :
    ServerProcess → List Endpoint → Prop
  | passes {pc : ServerPc} {notices : List String} {after : List Endpoint}
      (hsame : SameLogs objects after)
      (hearly : pc.early = true → p.pc.early = true)
      (hpc : pc ≠ .recvfrom ∧ pc ≠ .print) :
      ServerMove objects i p { p with pc, notices } after
  | binds (hpc : p.pc = .bind) :
      ServerMove objects i p
        { p with pc := .recvfrom, endpoint := some objects.length }
        (objects ++ [⟨i, true, [], []⟩])
  | receives {k : ℕ} {e : Endpoint} {message : Message} {rest : List Message}
      (hpc : p.pc = .recvfrom) (hk : p.endpoint = some k)
      (he : objects[k]? = some e) (hqueue : e.queue = message :: rest) :
      ServerMove objects i p (p.receive message)
        (objects.set k { e with
          taken := e.taken ++ [message]
          queue := rest })
  | prints (hpc : p.pc = .print) : ServerMove objects i p p.print objects

theorem shut_same (s : State) (p : ServerProcess) :
    SameLogs s.path.objects (s.shut p).path.objects := by
  unfold State.shut
  split
  case h_1 => exact .refl _
  case h_2 k _ =>
    split
    case h_1 => exact .refl _
    case h_2 e he =>
      refine ⟨List.length_set, fun j other hother => ?_⟩
      by_cases hj : k = j
      · subst hj
        obtain rfl := Option.some.inj (he.symm.trans hother)
        have hlt := (List.getElem?_eq_some_iff.mp he).1
        exact ⟨false, List.getElem?_set_self hlt⟩
      · exact ⟨other.isOpen, by
          rw [NamedObjects.set_objects, List.getElem?_set_ne hj, hother]⟩

theorem shut_others (s : State) (p : ServerProcess) :
    (s.shut p).servers = s.servers ∧ (s.shut p).clients = s.clients := by
  unfold State.shut
  split
  case h_1 => exact ⟨rfl, rfl⟩
  case h_2 => split <;> exact ⟨rfl, rfl⟩

/-- A server's turn. -/
def ServerTurn (s : State) (i : ℕ) (p : ServerProcess) (t : State) : Prop :=
  ∃ q, t.servers = s.servers.set i q ∧ t.clients = s.clients ∧
    ServerMove s.path.objects i p q t.path.objects

theorem dataServer_turn {s t : State} {i : ℕ} {p : ServerProcess}
    (h : dataServer s i p = some t) : ServerTurn s i p t := by
  unfold dataServer at h
  split at h
  case h_1 hpc =>
    cases h
    exact ⟨_, rfl, rfl, .passes (.refl _) (by simp [hpc, ServerPc.early])
      (by simp)⟩
  case h_2 hpc =>
    cases h
    exact ⟨_, rfl, rfl, .passes (.refl _) (by simp [hpc, ServerPc.early])
      (by simp)⟩
  case h_3 hpc =>
    obtain ⟨path, hpath, rfl⟩ := Option.map_eq_some_iff.mp h
    refine ⟨_, rfl, rfl, ?_⟩
    simp only [State.putServer, (NamedObjects.create_eq_some hpath).1]
    exact .binds hpc
  case h_4 hpc =>
    obtain ⟨k, hk, hbind⟩ := Option.bind_eq_some_iff.mp h
    obtain ⟨e, he, hmatch⟩ := Option.bind_eq_some_iff.mp hbind
    split at hmatch
    case h_1 => cases hmatch
    case h_2 message rest hqueue =>
      cases hmatch
      exact ⟨_, rfl, rfl, .receives hpc hk he hqueue⟩
  case h_5 hpc =>
    cases h
    exact ⟨_, rfl, rfl, .prints hpc⟩
  case h_6 hpc =>
    cases h
    exact ⟨_, rfl, rfl, .passes (.refl _) (by simp [ServerPc.early])
      (by simp)⟩
  case h_7 hpc =>
    cases h
    obtain ⟨hservers, hclients⟩ := shut_others s p
    exact ⟨_, by rw [State.putServer, hservers], hclients,
      .passes (shut_same s p) (by simp [ServerPc.early]) (by simp)⟩
  case h_8 => cases h

theorem dataServerFails_turn {s t : State} {i : ℕ} {p : ServerProcess}
    (h : dataServerFails s i p = some t) : ServerTurn s i p t := by
  unfold dataServerFails at h
  split at h
  case h_1 | h_3 =>
    cases h
    exact ⟨_, rfl, rfl, .passes (.refl _) (by simp [ServerPc.early])
      (by simp)⟩
  case h_2 hpc =>
    cases h
    exact ⟨_, rfl, rfl, .passes (.refl _) (by simp [hpc, ServerPc.early])
      (by simp)⟩
  case h_4 =>
    cases h
    exact ⟨_, rfl, rfl, .passes (.refl _) (by simp [ServerPc.early])
      (by simp)⟩
  all_goals cases h

theorem killServer_turn {s t : State} {i : ℕ} {p : ServerProcess}
    (h : killServer s i p = some t) : ServerTurn s i p t := by
  unfold killServer at h
  split at h
  case h_1 => cases h
  case h_2 =>
    cases h
    obtain ⟨hservers, hclients⟩ := shut_others s p
    exact ⟨_, by rw [State.putServer, hservers], hclients,
      .passes (shut_same s p) (by simp [ServerPc.early]) (by simp)⟩

/-- What a client becomes by its next call, and the sockets. -/
inductive ClientMove (s : State) (i : ℕ) (c : ClientProcess) :
    ClientProcess → List Endpoint → Prop
  | passes {status : ClientStatus} :
      ClientMove s i c { c with status } s.path.objects
  | reads (hpc : c.client.pc = .fgets) :
      ClientMove s i c { c with client := readLine c.stdin c.client }
        s.path.objects
  | loses (hpc : c.client.pc = .send) :
      ClientMove s i c { c with
        client := sendMsg (some unixSocketPath) c.client
        fates := c.fates ++ [none] } s.path.objects
  | sends {k : ℕ} {e : Endpoint} (hpc : c.client.pc = .send)
      (he : s.path.objects[k]? = some e)
      (hlast : k + 1 = s.path.objects.length) :
      ClientMove s i c { c with
        client := sendMsg (some unixSocketPath) c.client
        fates := c.fates ++ [some k] }
        (s.path.objects.set k { e with queue := e.queue ++
          [⟨i, c.fates.length, c.client.msg.take msgSize⟩] })

def ClientTurn (s : State) (i : ℕ) (c : ClientProcess) (t : State) : Prop :=
  ∃ d, t.clients = s.clients.set i d ∧ t.servers = s.servers ∧
    ClientMove s i c d t.path.objects

theorem listener_eq_some {s : State} {k : ℕ} {e : Endpoint}
    (h : s.listener = some (k, e)) :
    s.path.objects[k]? = some e ∧ k + 1 = s.path.objects.length := by
  obtain ⟨j, hj, hbind⟩ := Option.bind_eq_some_iff.mp h
  obtain ⟨other, hother, hopen⟩ := Option.bind_eq_some_iff.mp hbind
  obtain ⟨-, heq⟩ := Option.ite_none_right_eq_some.mp hopen
  obtain ⟨rfl, rfl⟩ := Prod.mk.inj (Option.some.inj heq)
  exact ⟨hother, s.path.newest j hj⟩

theorem dataClientDemo_cases {stdin : ByteStream} {c d : Client}
    (h : dataClientDemo stdin c = some d) :
    c.pc = .fgets ∧ d = readLine stdin c ∨
      c.pc = .send ∧ d = sendMsg (some unixSocketPath) c := by
  unfold dataClientDemo clientLoop at h
  split at h
  case h_1 hpc => exact Or.inl ⟨hpc, (Option.some.inj h).symm⟩
  case h_2 hpc => exact Or.inr ⟨hpc, (Option.some.inj h).symm⟩
  case h_3 => cases h

theorem dataClient_turn {s t : State} {i : ℕ} {c : ClientProcess}
    (h : dataClient s i c = some t) : ClientTurn s i c t := by
  unfold dataClient at h
  split at h
  case h_1 =>
    cases h
    exact ⟨_, rfl, rfl, .passes⟩
  case h_2 =>
    split at h
    case h_1 =>
      cases h
      exact ⟨_, rfl, rfl, .passes⟩
    case h_2 client hclient =>
      split at h
      case isTrue hsend =>
        cases h
        rcases dataClientDemo_cases hclient with ⟨hpc, -⟩ | ⟨hpc, rfl⟩
        · rw [hsend] at hpc
          cases hpc
        · unfold State.post
          cases hlistener : s.listener with
          | none => exact ⟨_, rfl, rfl, .loses hpc⟩
          | some found =>
              obtain ⟨k, e⟩ := found
              obtain ⟨he, hlast⟩ := listener_eq_some hlistener
              exact ⟨_, rfl, rfl, .sends hpc he hlast⟩
      case isFalse hsend =>
        cases h
        rcases dataClientDemo_cases hclient with ⟨hpc, rfl⟩ | ⟨hpc, -⟩
        · exact ⟨_, rfl, rfl, .reads hpc⟩
        · exact absurd hpc hsend
  case h_3 => cases h

theorem dataClientFails_turn {s t : State} {i : ℕ} {c : ClientProcess}
    (h : dataClientFails s i c = some t) : ClientTurn s i c t := by
  unfold dataClientFails at h
  split at h
  case h_1 =>
    cases h
    exact ⟨_, rfl, rfl, .passes⟩
  case h_2 =>
    obtain ⟨hsend, hmap⟩ := Option.ite_none_right_eq_some.mp h
    obtain ⟨client, hclient, rfl⟩ := Option.map_eq_some_iff.mp hmap
    rcases dataClientDemo_cases hclient with ⟨hpc, -⟩ | ⟨hpc, rfl⟩
    · rw [hsend] at hpc
      cases hpc
    · exact ⟨_, rfl, rfl, .loses hpc⟩
  case h_3 => cases h

theorem killClient_turn {s t : State} {i : ℕ} {c : ClientProcess}
    (h : killClient s i c = some t) : ClientTurn s i c t := by
  unfold killClient at h
  split at h
  case h_1 => cases h
  case h_2 =>
    cases h
    exact ⟨_, rfl, rfl, .passes⟩

/-- All that can happen in one step. -/
theorem next_cases {s t : State} {label : Label}
    (h : next s label = some t) :
    (∃ msg, t = { s with servers := s.servers ++ [launchServer msg] }) ∨
    (∃ msg stdin,
      t = { s with clients := s.clients ++ [launchClient msg stdin] }) ∨
    (∃ i p, s.servers[i]? = some p ∧ ServerTurn s i p t) ∨
    ∃ i c, s.clients[i]? = some c ∧ ClientTurn s i c t := by
  cases label with
  | launchServer msg =>
      cases h
      exact Or.inl ⟨msg, rfl⟩
  | launchClient msg stdin =>
      cases h
      exact Or.inr (Or.inl ⟨msg, stdin, rfl⟩)
  | server i =>
      obtain ⟨p, hp, hstep⟩ := Option.bind_eq_some_iff.mp h
      exact Or.inr (Or.inr (Or.inl ⟨i, p, hp, dataServer_turn hstep⟩))
  | serverFails i =>
      obtain ⟨p, hp, hstep⟩ := Option.bind_eq_some_iff.mp h
      exact Or.inr (Or.inr (Or.inl ⟨i, p, hp, dataServerFails_turn hstep⟩))
  | killServer i =>
      obtain ⟨p, hp, hstep⟩ := Option.bind_eq_some_iff.mp h
      exact Or.inr (Or.inr (Or.inl ⟨i, p, hp, killServer_turn hstep⟩))
  | client i =>
      obtain ⟨c, hc, hstep⟩ := Option.bind_eq_some_iff.mp h
      exact Or.inr (Or.inr (Or.inr ⟨i, c, hc, dataClient_turn hstep⟩))
  | clientFails i =>
      obtain ⟨c, hc, hstep⟩ := Option.bind_eq_some_iff.mp h
      exact Or.inr (Or.inr (Or.inr ⟨i, c, hc, dataClientFails_turn hstep⟩))
  | killClient i =>
      obtain ⟨c, hc, hstep⟩ := Option.bind_eq_some_iff.mp h
      exact Or.inr (Or.inr (Or.inr ⟨i, c, hc, killClient_turn hstep⟩))

/-! ### The servers -/

/-- How far the owner of a socket is with what it has taken. -/
structure Heard (p : ServerProcess) (e : Endpoint) : Prop where
  front : p.texts <+: e.taken.map fun message => cString message.bytes
  waiting : p.pc = .recvfrom →
    p.texts = e.taken.map fun message => cString message.bytes
  pending : p.pc = .print → ∃ front message, e.taken = front ++ [message] ∧
    p.msg = message.bytes ∧
    p.texts = front.map fun message => cString message.bytes

/-- Nothing is ever stored in `csaddr`. -/
structure Nameless (p : ServerProcess) : Prop where
  csaddr : p.peers.csaddr = Memory.fresh sockaddrSize
  printed : p.peers.printed = List.replicate p.texts.length none

structure ServerOk (objects : List Endpoint) (i : ℕ) (p : ServerProcess) :
    Prop where
  size : p.msg.length = msgSize
  nameless : Nameless p
  early : p.pc.early = true → p.endpoint = none
  unbound : p.endpoint = none → p.texts = [] ∧ p.pc ≠ .recvfrom ∧ p.pc ≠ .print
  bound : ∀ k, p.endpoint = some k →
    ∃ e, objects[k]? = some e ∧ e.owner = i ∧ Heard p e

theorem Nameless.receive {p : ServerProcess} (h : Nameless p)
    (message : Message) : Nameless (p.receive message) := by
  refine ⟨?_, h.printed⟩
  simp [ServerProcess.receive, UnixSocket.Server.receive, Peer.address,
    Memory.store, h.csaddr, Memory.fresh]

theorem Nameless.print {p : ServerProcess} (h : Nameless p) :
    Nameless p.print := by
  have hnone : Memory.cString ((Memory.fresh sockaddrSize).drop
      sunPathOffset) = none := rfl
  refine ⟨h.csaddr, ?_⟩
  simp only [ServerProcess.print, UnixSocket.Server.print, h.csaddr, hnone,
    h.printed, List.length_append, List.length_singleton,
    List.replicate_succ']

theorem launchServer_ok (objects : List Endpoint) (i : ℕ)
    (msg : Fin msgSize → Byte) : ServerOk objects i (launchServer msg) :=
  ⟨by simp [launchServer], ⟨rfl, rfl⟩, fun _ => rfl,
    fun _ => by simp [launchServer], fun k hk => by cases hk⟩

/-- Sockets that are not the process's own may change as they like. -/
theorem ServerOk.mono {before after : List Endpoint} {i : ℕ}
    {p : ServerProcess} (h : ServerOk before i p)
    (hkept : ∀ (k : ℕ) (e : Endpoint), before[k]? = some e → e.owner = i →
      ∃ e', after[k]? = some e' ∧ e'.owner = i ∧ e'.taken = e.taken) :
    ServerOk after i p := by
  refine ⟨h.size, h.nameless, h.early, h.unbound, fun k hk => ?_⟩
  obtain ⟨e, he, howner, hheard⟩ := h.bound k hk
  obtain ⟨e', he', howner', htaken⟩ := hkept k e he howner
  refine ⟨e', he', howner', ?_, ?_, ?_⟩
  · rw [htaken]
    exact hheard.front
  · rw [htaken]
    exact hheard.waiting
  · rw [htaken]
    exact hheard.pending

theorem SameLogs.kept {before after : List Endpoint}
    (h : SameLogs before after) {k : ℕ} {e : Endpoint}
    (he : before[k]? = some e) :
    ∃ e', after[k]? = some e' ∧ e'.owner = e.owner ∧ e'.taken = e.taken ∧
      e'.queue = e.queue := by
  obtain ⟨isOpen, hafter⟩ := h.2 k e he
  exact ⟨_, hafter, rfl, rfl, rfl⟩

/-- The messages in the sockets are whole. -/
def Whole (objects : List Endpoint) : Prop :=
  ∀ e ∈ objects, ∀ message ∈ e.log, message.bytes.length = msgSize

theorem ServerMove.ok {objects after : List Endpoint} {i : ℕ}
    {p q : ServerProcess} (hmove : ServerMove objects i p q after)
    (hwhole : Whole objects) (hp : ServerOk objects i p) :
    ServerOk after i q := by
  cases hmove with
  | passes hsame hearly hpc =>
      refine ⟨hp.size, ⟨hp.nameless.csaddr, hp.nameless.printed⟩,
        fun h => hp.early (hearly h), fun h => ⟨(hp.unbound h).1, hpc⟩,
        fun k hk => ?_⟩
      obtain ⟨e, he, howner, hheard⟩ := hp.bound k hk
      obtain ⟨e', he', howner', htaken, -⟩ := hsame.kept he
      refine ⟨e', he', howner'.trans howner, ?_, fun h => absurd h hpc.1,
        fun h => absurd h hpc.2⟩
      rw [htaken]
      exact hheard.front
  | binds hpc =>
      have hnone := hp.early (by rw [hpc]; rfl)
      refine ⟨hp.size, ⟨hp.nameless.csaddr, hp.nameless.printed⟩,
        fun h => (by cases h), fun h => (by cases h), ?_⟩
      rintro k ⟨⟩
      have htexts := (hp.unbound hnone).1
      refine ⟨_, List.getElem?_concat_length, rfl, ?_, fun _ => htexts,
        fun h => (by cases h)⟩
      simp [htexts]
  | @receives k e message rest hpc hk he hqueue =>
      obtain ⟨e', he', howner, hheard⟩ := hp.bound k hk
      obtain rfl := Option.some.inj (he.symm.trans he')
      have hmem : message ∈ e.log := by simp [Endpoint.log, hqueue]
      have hbytes := hwhole e (List.mem_of_getElem? he) message hmem
      have hsize := hp.size
      have hmsg : (p.receive message).msg = message.bytes := by
        simp only [ServerProcess.receive]
        rw [List.take_of_length_le hbytes.le, overlay,
          List.drop_eq_nil_of_le (by omega), List.append_nil]
      refine ⟨by rw [hmsg, hbytes], hp.nameless.receive message,
        fun h => (by cases h), fun h => absurd (h.symm.trans hk) (by simp), ?_⟩
      intro j hj
      obtain rfl := Option.some.inj (hk.symm.trans hj)
      have hlt := (List.getElem?_eq_some_iff.mp he).1
      refine ⟨_, List.getElem?_set_self hlt, howner, ?_, fun h => (by cases h),
        fun _ => ⟨e.taken, message, rfl, hmsg, hheard.waiting hpc⟩⟩
      rw [List.map_append]
      exact hheard.front.trans (List.prefix_append _ _)
  | prints hpc =>
      refine ⟨hp.size, hp.nameless.print, fun h => (by cases h),
        fun h => absurd hpc (hp.unbound h).2.2, fun k hk => ?_⟩
      obtain ⟨e, he, howner, hheard⟩ := hp.bound k hk
      obtain ⟨front, message, htaken, hmsg, htexts⟩ := hheard.pending hpc
      have hall : p.print.texts =
          e.taken.map fun message => cString message.bytes := by
        simp [ServerProcess.print, htexts, hmsg, htaken]
      exact ⟨e, he, howner, ⟨[], by rw [List.append_nil, hall]⟩,
        fun _ => hall, fun h => (by cases h)⟩

end Datagram

end UnixSocket

end MyFreeLib
