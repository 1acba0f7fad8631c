/-
What the datagram servers print: the lines that their own socket has got, one
by one in the order of sending, each beside an address that nobody has written.
-/
import MyFreeLib.UnixDatagramTurns

namespace MyFreeLib

namespace UnixSocket

namespace Datagram

def State.messages (s : State) : List (List Message) :=
  s.path.objects.map Endpoint.log

def Message.entry (message : Message) : ℕ × ℕ :=
  (message.client, message.number)

def State.logs (s : State) : List (List (ℕ × ℕ)) :=
  s.messages.map fun log => log.map Message.entry

/-- What a `%s` shows of a client's line. -/
def State.textOf (s : State) (entry : ℕ × ℕ) : Option (List Byte) :=
  s.clients[entry.1]?.bind fun c => c.client.lines[entry.2]?.map cString

/-! ### The clients -/

structure ClientOk (sockets : ℕ) (c : ClientProcess) : Prop where
  lines : ClientInv c.client
  fates : c.fates.length = c.client.packets.length
  onward : Onward sockets c.fates

theorem ClientOk.mono {sockets more : ℕ} {c : ClientProcess}
    (h : ClientOk sockets c) (hle : sockets ≤ more) : ClientOk more c :=
  ⟨h.lines, h.fates, h.onward.mono hle⟩

theorem launchClient_ok (sockets : ℕ) (msg : Fin msgSize → Byte)
    (stdin : ByteStream) : ClientOk sockets (launchClient msg stdin) :=
  ⟨startClient_inv msg, rfl, .nil sockets⟩

theorem readLine_packets (stdin : ByteStream) (c : Client) :
    (readLine stdin c).packets = c.packets := by
  unfold readLine
  split <;> rfl

theorem readLine_inv {stdin : ByteStream} {c : Client} (hc : ClientInv c)
    (hpc : c.pc = .fgets) : ClientInv (readLine stdin c) := by
  have hstep : clientLoop (some unixSocketPath) stdin c =
      some (readLine stdin c) := by
    rw [clientLoop, hpc]
  exact clientLoop_inv hc hstep

theorem sendMsg_inv {c : Client} (hc : ClientInv c) (hpc : c.pc = .send) :
    ClientInv (sendMsg (some unixSocketPath) c) := by
  have hstep : clientLoop (some unixSocketPath) (fun _ => none) c =
      some (sendMsg (some unixSocketPath) c) := by
    rw [clientLoop, hpc]
  exact clientLoop_inv hc hstep

theorem ClientMove.ok {s : State} {i : ℕ} {c d : ClientProcess}
    {after : List Endpoint} (hmove : ClientMove s i c d after)
    (hc : ClientOk s.path.objects.length c) :
    ClientOk s.path.objects.length d ∧
      after.length = s.path.objects.length ∧
      c.client.packets <+: d.client.packets := by
  cases hmove with
  | passes => exact ⟨⟨hc.lines, hc.fates, hc.onward⟩, rfl, List.prefix_refl _⟩
  | reads hpc =>
      have hsame := readLine_packets c.stdin c.client
      refine ⟨⟨readLine_inv hc.lines hpc, ?_, hc.onward⟩, rfl,
        ⟨[], by rw [List.append_nil, hsame]⟩⟩
      rw [hsame]
      exact hc.fates
  | loses hpc =>
      refine ⟨⟨sendMsg_inv hc.lines hpc, ?_, hc.onward.lost⟩, rfl,
        List.prefix_append _ _⟩
      simp [sendMsg, hc.fates]
  | sends hpc he hlast =>
      refine ⟨⟨sendMsg_inv hc.lines hpc, ?_, hc.onward.deliver hlast⟩,
        List.length_set, List.prefix_append _ _⟩
      simp [sendMsg, hc.fates]

/-- The line in a packet. -/
theorem line_of_packet {c : Client} (hc : ClientInv c) {n : ℕ}
    {packet : Packet} (hn : c.packets[n]? = some packet) :
    ∃ line, c.lines[n]? = some line ∧ Holds line packet := by
  have hfront : ∃ front, front <+: c.lines ∧
      List.Forall₂ Holds front c.packets := by
    by_cases hpc : c.pc = .send
    · obtain ⟨front, line, _, hlines, hall, -⟩ := hc.due hpc
      exact ⟨front, ⟨[line], hlines.symm⟩, hall⟩
    · exact ⟨c.lines, List.prefix_refl _, hc.settled hpc⟩
  obtain ⟨front, hlines, hall⟩ := hfront
  obtain ⟨hlt, rfl⟩ := List.getElem?_eq_some_iff.mp hn
  have hlt' : n < front.length := by rwa [hall.length_eq]
  exact ⟨front[n], getElem?_of_front hlines (List.getElem?_eq_getElem hlt'),
    hall.get hlt' hlt⟩

/-- A packet shows as its line does, up to a zero in it. -/
theorem cString_of_holds {line : List Byte} {packet : Packet}
    (h : Holds line packet) : cString packet.bytes = cString line := by
  obtain ⟨old, hbytes⟩ := h
  rw [hbytes, overlay, List.append_assoc, List.singleton_append, cString,
    List.takeWhile_append]
  split
  case isTrue hall =>
    have hline : cString line = line :=
      (List.takeWhile_prefix _).eq_of_length hall
    rw [hline]
    simp
  case isFalse => rfl

/-! ### All of it -/

/-- A message is what its client has sent under that number. -/
def Carried (clients : List ClientProcess) (message : Message) : Prop :=
  ∃ c packet, clients[message.client]? = some c ∧
    c.client.packets[message.number]? = some packet ∧
    packet.bytes = message.bytes

structure Inv (s : State) : Prop where
  servers : ∀ (i : ℕ) (p : ServerProcess), s.servers[i]? = some p →
    ServerOk s.path.objects i p
  clients : ∀ c ∈ s.clients, ClientOk s.path.objects.length c
  logs : Dispatched ClientProcess.fates s.logs s.clients
  carried : ∀ log ∈ s.messages, ∀ message ∈ log, Carried s.clients message

theorem start_inv : Inv start :=
  ⟨fun i p hp => by simp [start] at hp, by simp [start], .start,
    by simp [start, State.messages]⟩

theorem Inv.whole {s : State} (hs : Inv s) : Whole s.path.objects := by
  intro e he message hmessage
  obtain ⟨c, packet, hc, hpacket, hbytes⟩ := hs.carried e.log
    (List.mem_map_of_mem he) message hmessage
  rw [← hbytes]
  exact (hs.clients c (List.mem_of_getElem? hc)).lines.sizes packet
    (List.mem_of_getElem? hpacket)

/-- A turn of a server adds an empty socket at most. -/
theorem ServerMove.messages {objects after : List Endpoint} {i : ℕ}
    {p q : ServerProcess} (hmove : ServerMove objects i p q after) :
    after.map Endpoint.log = objects.map Endpoint.log ∨
      after.map Endpoint.log = objects.map Endpoint.log ++ [[]] := by
  cases hmove with
  | passes hsame =>
      refine Or.inl (List.ext_getElem? fun k => ?_)
      rw [List.getElem?_map, List.getElem?_map]
      by_cases hk : k < objects.length
      · have he := List.getElem?_eq_getElem hk
        obtain ⟨isOpen, hafter⟩ := hsame.2 k _ he
        rw [he, hafter]
        rfl
      · have hlength := hsame.1
        rw [List.getElem?_eq_none (show after.length ≤ k by omega),
          List.getElem?_eq_none (Nat.le_of_not_lt hk)]
  | binds => exact Or.inr (by simp [Endpoint.log])
  | receives hpc hk he hqueue =>
      refine Or.inl (map_set_eq he ?_)
      simp [Endpoint.log, hqueue]
  | prints => exact Or.inl rfl

theorem ServerMove.length_le {objects after : List Endpoint} {i : ℕ}
    {p q : ServerProcess} (hmove : ServerMove objects i p q after) :
    objects.length ≤ after.length := by
  rcases hmove.messages with h | h
  · have hlength := congrArg List.length h
    simp only [List.length_map] at hlength
    exact hlength.ge
  · have hlength := congrArg List.length h
    simp only [List.length_append, List.length_map] at hlength
    omega

/-- The sockets of the others are as they were. -/
theorem ServerMove.others {objects after : List Endpoint} {i j : ℕ}
    {p q r : ServerProcess} (hmove : ServerMove objects i p q after)
    (hj : i ≠ j) (hp : ServerOk objects i p) (hr : ServerOk objects j r) :
    ServerOk after j r := by
  refine hr.mono fun k e he howner => ?_
  cases hmove with
  | passes hsame =>
      obtain ⟨e', he', howner', htaken, -⟩ := hsame.kept he
      exact ⟨e', he', howner'.trans howner, htaken⟩
  | binds =>
      exact ⟨e, getElem?_of_front (List.prefix_append _ _) he, howner, rfl⟩
  | @receives l own message rest hpc hl hown hqueue =>
      have hne : l ≠ k := by
        rintro rfl
        obtain ⟨mine, hmine, howns, -⟩ := hp.bound l hl
        obtain rfl := Option.some.inj (he.symm.trans hmine)
        exact hj (howns.symm.trans howner)
      exact ⟨e, by rw [List.getElem?_set_ne hne, he], howner, rfl⟩
  | prints => exact ⟨e, he, howner, rfl⟩

theorem Inv.serverTurn {s t : State} {i : ℕ} {p : ServerProcess} (hs : Inv s)
    (hp : s.servers[i]? = some p) (hturn : ServerTurn s i p t) : Inv t := by
  obtain ⟨q, hservers, hclients, hmove⟩ := hturn
  have hmine := hs.servers i p hp
  refine ⟨fun j r hr => ?_, ?_, ?_, ?_⟩
  · rw [hservers] at hr
    rcases getElem?_set_cases hr with ⟨rfl, rfl⟩ | ⟨hj, hold⟩
    · exact hmove.ok hs.whole hmine
    · exact hmove.others (Ne.symm hj) hmine (hs.servers j r hold)
  · rw [hclients]
    exact fun c hc => (hs.clients c hc).mono hmove.length_le
  · rw [hclients, State.logs, State.messages]
    rcases hmove.messages with h | h
    · rw [h]
      exact hs.logs
    · rw [h, List.map_append]
      refine hs.logs.create fun c hc => ?_
      have hlength : s.logs.length = s.path.objects.length := by
        simp [State.logs, State.messages]
      rw [hlength]
      exact (hs.clients c hc).onward
  · rw [hclients, State.messages]
    rcases hmove.messages with h | h
    · rw [h]
      exact hs.carried
    · rw [h]
      exact forall_mem_concat hs.carried (by simp)

theorem Carried.set {clients : List ClientProcess} {message : Message}
    (h : Carried clients message) {i : ℕ} {c d : ClientProcess}
    (hc : clients[i]? = some c) (hd : c.client.packets <+: d.client.packets) :
    Carried (clients.set i d) message := by
  obtain ⟨own, packet, hown, hpacket, hbytes⟩ := h
  by_cases hi : i = message.client
  · subst hi
    obtain rfl := Option.some.inj (hc.symm.trans hown)
    have hlt := (List.getElem?_eq_some_iff.mp hc).1
    exact ⟨d, packet, List.getElem?_set_self hlt,
      getElem?_of_front hd hpacket, hbytes⟩
  · exact ⟨own, packet, by rw [List.getElem?_set_ne hi, hown], hpacket, hbytes⟩

/-- A turn of a client leaves alone what has been received. -/
theorem ClientMove.taken {s : State} {i : ℕ} {c d : ClientProcess}
    {after : List Endpoint} (hmove : ClientMove s i c d after) {k : ℕ}
    {e : Endpoint} (he : s.path.objects[k]? = some e) :
    ∃ e', after[k]? = some e' ∧ e'.owner = e.owner ∧ e'.taken = e.taken := by
  cases hmove with
  | passes | reads | loses => exact ⟨e, he, rfl, rfl⟩
  | @sends l own hpc hown hlast =>
      by_cases hl : l = k
      · subst hl
        obtain rfl := Option.some.inj (he.symm.trans hown)
        have hlt := (List.getElem?_eq_some_iff.mp he).1
        exact ⟨_, List.getElem?_set_self hlt, rfl, rfl⟩
      · exact ⟨e, by rw [List.getElem?_set_ne hl, he], rfl, rfl⟩

/-- Either nothing is handed over, or one message more to one socket. -/
theorem ClientMove.messages {s : State} {i : ℕ} {c d : ClientProcess}
    {after : List Endpoint} (hmove : ClientMove s i c d after) :
    after = s.path.objects ∧ (d.fates = c.fates ∨ d.fates = c.fates ++ [none]) ∨
      ∃ k e, s.path.objects[k]? = some e ∧ d.fates = c.fates ++ [some k] ∧
        c.client.pc = .send ∧
        d.client = sendMsg (some unixSocketPath) c.client ∧
        after.map Endpoint.log = s.messages.set k (e.log ++
          [⟨i, c.fates.length, c.client.msg.take msgSize⟩]) := by
  cases hmove with
  | passes | reads => exact Or.inl ⟨rfl, Or.inl rfl⟩
  | loses => exact Or.inl ⟨rfl, Or.inr rfl⟩
  | @sends k e hpc he hlast =>
      refine Or.inr ⟨k, e, he, rfl, hpc, rfl, ?_⟩
      rw [List.map_set, State.messages]
      simp [Endpoint.log]

theorem Inv.clientTurn {s t : State} {i : ℕ} {c : ClientProcess} (hs : Inv s)
    (hc : s.clients[i]? = some c) (hturn : ClientTurn s i c t) : Inv t := by
  obtain ⟨d, hclients, hservers, hmove⟩ := hturn
  have hmine := hs.clients c (List.mem_of_getElem? hc)
  obtain ⟨hd, hlength, hpackets⟩ := hmove.ok hmine
  have hcarried (log : List Message) (hlog : log ∈ s.messages)
      (message : Message) (hmessage : message ∈ log) :
      Carried t.clients message := by
    rw [hclients]
    exact (hs.carried log hlog message hmessage).set hc hpackets
  have hservers' (j : ℕ) (r : ServerProcess) (hr : t.servers[j]? = some r) :
      ServerOk t.path.objects j r := by
    rw [hservers] at hr
    refine (hs.servers j r hr).mono fun k e he howner => ?_
    obtain ⟨e', he', howner', htaken⟩ := hmove.taken he
    exact ⟨e', he', howner'.trans howner, htaken⟩
  have hclients' : ∀ r ∈ t.clients, ClientOk t.path.objects.length r := by
    rw [hlength, hclients]
    exact forall_mem_set hs.clients hd
  rcases hmove.messages with ⟨hsame, hfates⟩ |
      ⟨k, e, he, hfates, hpc, hclient, hmessages⟩
  · refine ⟨hservers', hclients', ?_, ?_⟩
    · rw [State.logs, State.messages, hsame, hclients]
      rcases hfates with hfates | hfates
      · exact hs.logs.keep hc fun n k => by rw [hfates]
      · exact hs.logs.lost hc hfates
    · rw [State.messages, hsame]
      exact hcarried
  · have hlog : s.logs[k]? = some (e.log.map Message.entry) := by
      simp [State.logs, State.messages, he]
    refine ⟨hservers', hclients', ?_, ?_⟩
    · rw [State.logs, State.messages, hmessages, List.map_set, List.map_append,
        hclients]
      exact hs.logs.deliver hc hlog hfates
    · rw [State.messages, hmessages]
      refine forall_mem_set hcarried ?_
      refine forall_mem_concat (hcarried e.log ?_) ?_
      · exact List.mem_map_of_mem (List.mem_of_getElem? he)
      · have hlt := (List.getElem?_eq_some_iff.mp hc).1
        rw [hclients]
        refine ⟨d, ⟨c.client.msg.take msgSize, some unixSocketPath⟩,
          List.getElem?_set_self hlt, ?_, rfl⟩
        rw [hclient, hmine.fates]
        simp only [sendMsg]
        exact List.getElem?_concat_length

theorem next_inv {s t : State} {label : Label} (hs : Inv s)
    (h : next s label = some t) : Inv t := by
  rcases next_cases h with ⟨msg, rfl⟩ | ⟨msg, stdin, rfl⟩ |
      ⟨i, p, hp, hturn⟩ | ⟨i, c, hc, hturn⟩
  · refine ⟨fun i p hp => ?_, hs.clients, hs.logs, hs.carried⟩
    rw [List.getElem?_append] at hp
    split at hp
    case isTrue => exact hs.servers i p hp
    case isFalse =>
      obtain rfl := List.mem_singleton.mp (List.mem_of_getElem? hp)
      exact launchServer_ok _ i msg
  · refine ⟨hs.servers, forall_mem_concat hs.clients (launchClient_ok _ _ _),
      hs.logs.launch rfl, fun log hlog message hmessage => ?_⟩
    obtain ⟨c, packet, hc, hpacket⟩ := hs.carried log hlog message hmessage
    exact ⟨c, packet, getElem?_of_front (List.prefix_append _ _) hc, hpacket⟩
  · exact hs.serverTurn hp hturn
  · exact hs.clientTurn hc hturn

theorem exec_inv {s : State} {labels : List Label}
    (hrun : exec next start labels = some s) : Inv s :=
  exec_invariant (fun _ _ _ => next_inv) start_inv hrun

theorem Inv.textOf {s : State} (hs : Inv s) {e : Endpoint}
    (he : e ∈ s.path.objects) {message : Message} (hmessage : message ∈ e.log) :
    s.textOf message.entry = some (cString message.bytes) := by
  obtain ⟨c, packet, hc, hpacket, hbytes⟩ :=
    hs.carried e.log (List.mem_map_of_mem he) message hmessage
  have hclient := (hs.clients c (List.mem_of_getElem? hc)).lines
  obtain ⟨line, hline, hholds⟩ := line_of_packet hclient hpacket
  rw [State.textOf, Message.entry, hc, Option.bind_some, hline,
    Option.map_some, ← hbytes, cString_of_holds hholds]

/-- However servers and clients are interleaved, take the path from each other,
fail and are killed: the socket of each server has got exactly the packets that
were sent to it, each once and those of one client in order; the server prints
the lines in them in this order, up to a zero in the line, and for the address
of the sender nothing that anyone has stored.  The packets of a client never
go back to an earlier server. -/
theorem lines_in_order {s : State} {labels : List Label}
    (hrun : exec next start labels = some s) :
    Dispatched ClientProcess.fates s.logs s.clients ∧
    (∀ c ∈ s.clients, c.fates.length = c.client.packets.length ∧
      Onward s.path.objects.length c.fates) ∧
    ∀ (i : ℕ) (p : ServerProcess), s.servers[i]? = some p →
      p.peers.printed = List.replicate p.texts.length none ∧
      (p.endpoint = none → p.texts = []) ∧
      ∀ k, p.endpoint = some k → ∃ log e, s.logs[k]? = some log ∧
        s.path.objects[k]? = some e ∧ e.owner = i ∧
        p.texts.map some <+: log.map s.textOf := by
  have hs := exec_inv hrun
  refine ⟨hs.logs, fun c hc => ⟨(hs.clients c hc).fates,
    (hs.clients c hc).onward⟩, fun i p hp => ?_⟩
  have hok := hs.servers i p hp
  refine ⟨hok.nameless.printed, fun h => (hok.unbound h).1, fun k hk => ?_⟩
  obtain ⟨e, he, howner, hheard⟩ := hok.bound k hk
  refine ⟨_, e, by simp [State.logs, State.messages, he]; rfl, he, howner, ?_⟩
  have hshown : (e.log.map Message.entry).map s.textOf =
      e.log.map fun message => some (cString message.bytes) := by
    rw [List.map_map]
    exact List.map_congr_left fun message hmessage =>
      hs.textOf (List.mem_of_getElem? he) hmessage
  rw [hshown, Endpoint.log, List.map_append]
  refine List.IsPrefix.trans ?_ (List.prefix_append _ _)
  have hmap := hheard.front.map some
  rwa [List.map_map] at hmap

/-- A second server takes the path between two lines of a client. -/
def takenOver : List Label :=
  [.launchServer fun _ => 0, .server 0, .server 0, .server 0,
    .launchClient (fun _ => 1) (ofText "one\ntwo\n"), .client 0, .client 0,
    .client 0, .launchServer fun _ => 0, .server 1, .server 1, .server 1,
    .client 0, .client 0, .server 1, .server 1, .server 0, .server 0]

theorem lines_in_order_takenOver :
    ∃ s, exec next start takenOver = some s ∧ s.logs = [[(0, 0)], [(0, 1)]] ∧
      Dispatched ClientProcess.fates s.logs s.clients := by
  have hrun : exec next start takenOver = some _ := rfl
  exact ⟨_, hrun, rfl, (lines_in_order hrun).1⟩

end Datagram

end UnixSocket

end MyFreeLib
