/-
The echo service as a whole.  A client that reads has one datagram under way,
its own argument, as a request, in the server's hand or as the echo; so what
comes back is what it sent.
-/
import MyFreeLib.Channels
import MyFreeLib.InetSocket
import MyFreeLib.ProcessTable

namespace MyFreeLib

namespace InetSocket

/-- The argument that a client waits to get back. -/
def Client.due (c : Client) : Option (List Byte) :=
  match c.pc with
  | .read => c.argv[c.j]?.map CString.memory
  | _ => none

def State.waits (s : State) (addr : Addr) : Option (List Byte) :=
  s.clients[addr]?.bind Client.due

/-- The datagram that the server has received and not sent back. -/
def Server.inHand (server : Server) : List Datagram :=
  match server.pc with
  | .sendto => [(server.peerAddr, server.buf.take server.nread)]
  | .recvfrom => []

/-- All datagrams that are somewhere between two calls of a client. -/
def State.flights (s : State) : List Datagram :=
  s.toServer ++ s.server.inHand ++ s.toClient

/-- The response is the argument with its zero. -/
def Echoes (arg : CString) (r : Response) : Prop :=
  r.nread = arg.bytes.length + 1 ∧ r.buf.take r.nread = arg.memory

/-- The arguments dealt with so far have been answered, but for those that do
not fit. -/
structure Answered (c : Client) : Prop where
  echoes : List.Forall₂ Echoes ((c.argv.take c.j).filter Fits) c.responses
  reading : c.pc = .read → ∃ arg, c.argv[c.j]? = some arg ∧ Fits arg
  returned : ∀ code, c.pc = .returned code →
    code = 0 ∧ c.argv[c.j]? = none

structure Inv (s : State) : Prop where
  flights : InFlight s.waits s.flights
  clients : ∀ c ∈ s.clients, Answered c

theorem start_inv (buf : List Byte) : Inv (start buf) := by
  refine ⟨⟨.nil, ?_⟩, ?_⟩
  · intro addr bytes
    simp [start, State.flights, State.waits, Server.inHand]
  · intro c hc
    cases hc

/-- A client that moves changes only what it waits for itself. -/
theorem waits_set {s : State} {i : ℕ} {c d : Client}
    (hc : s.clients[i]? = some c) {t : State}
    (ht : t.clients = s.clients.set i d) :
    t.waits = Function.update s.waits i d.due := by
  funext addr
  simp only [State.waits, ht]
  by_cases haddr : addr = i
  · subst haddr
    have hlt := (List.getElem?_eq_some_iff.mp hc).1
    rw [Function.update_self, List.getElem?_set_self hlt, Option.bind_some]
  · rw [Function.update_of_ne haddr, List.getElem?_set_ne (Ne.symm haddr),
      State.waits]

theorem waits_eq {s : State} {i : ℕ} {c : Client}
    (hc : s.clients[i]? = some c) : s.waits i = c.due := by
  rw [State.waits, hc, Option.bind_some]

/-- A new client waits for nothing. -/
theorem waits_launch (s : State) (argv : List CString) (buf : List Byte) :
    State.waits { s with
      clients := s.clients ++ [⟨.loop, argv, 0, buf, [], []⟩] } = s.waits := by
  funext addr
  simp only [State.waits]
  rcases Nat.lt_trichotomy addr s.clients.length with hlt | rfl | hgt
  · rw [List.getElem?_append_left hlt]
  · rw [List.getElem?_append_right (Nat.le_refl _), Nat.sub_self,
      List.getElem?_eq_none (Nat.le_refl _)]
    rfl
  · rw [List.getElem?_eq_none (by simp; omega),
      List.getElem?_eq_none (by omega)]

theorem launch_inv {s : State} (hs : Inv s) (argv : List CString)
    (buf : List Byte) :
    Inv { s with clients := s.clients ++ [⟨.loop, argv, 0, buf, [], []⟩] } := by
  refine ⟨?_, ?_⟩
  · rw [waits_launch]
    exact hs.flights
  · apply forall_mem_concat hs.clients
    refine ⟨.nil, ?_, ?_⟩
    · intro hpc
      cases hpc
    · intro code hpc
      cases hpc

/-- What is under way is an argument that fits, for the client that waits for
it. -/
theorem Inv.flight {s : State} (hs : Inv s) {addr : Addr} {bytes : List Byte}
    (h : (addr, bytes) ∈ s.flights) :
    ∃ c arg, s.clients[addr]? = some c ∧ c.pc = .read ∧
      c.argv[c.j]? = some arg ∧ Fits arg ∧ bytes = arg.memory := by
  have hwaits := (hs.flights.owed addr bytes).mp h
  obtain ⟨c, hc, hdue⟩ := Option.bind_eq_some_iff.mp hwaits
  unfold Client.due at hdue
  split at hdue
  · next hpc =>
      obtain ⟨arg, harg, rfl⟩ := Option.map_eq_some_iff.mp hdue
      obtain ⟨arg', harg', hfits⟩ :=
        (hs.clients c (List.mem_of_getElem? hc)).reading hpc
      obtain rfl : arg = arg' := Option.some.inj (harg.symm.trans harg')
      exact ⟨c, arg, hc, hpc, harg, hfits, rfl⟩
  · cases hdue

theorem memory_length (arg : CString) :
    arg.memory.length = strlen arg.memory + 1 := by
  rw [CString.strlen_memory, CString.memory, List.length_append,
    List.length_singleton]

/-- Nothing under way is cut off at the end of a buffer. -/
theorem Inv.take_flight {s : State} (hs : Inv s) {addr : Addr}
    {bytes : List Byte} (h : (addr, bytes) ∈ s.flights) :
    bytes.take bufSize = bytes := by
  obtain ⟨c, arg, -, -, -, hfits, rfl⟩ := hs.flight h
  apply List.take_of_length_le
  rw [memory_length]
  exact hfits

theorem recvfrom_inv {s t : State} {n : ℕ} (hs : Inv s)
    (h : recvfrom s n = some t) : Inv t := by
  unfold recvfrom at h
  split at h
  · next addr bytes hpc hget =>
      cases h
      obtain ⟨hn, hbytes⟩ := List.getElem?_eq_some_iff.mp hget
      have hmem : (addr, bytes) ∈ s.flights := by
        simp [State.flights, List.mem_of_getElem? hget]
      refine ⟨hs.flights.perm ?_, hs.clients⟩
      simp only [State.flights, Server.inHand, hpc, take_overlay,
        hs.take_flight hmem, List.append_nil]
      apply List.Perm.append_right
      rw [← hbytes]
      exact (List.getElem_cons_eraseIdx_perm hn).symm.trans
        (List.perm_append_singleton _ _).symm
  · cases h

theorem sendto_inv {s t : State} (hs : Inv s) (h : sendto s = some t) :
    Inv t := by
  unfold sendto at h
  split at h
  · next hpc =>
      cases h
      refine ⟨hs.flights.perm ?_, hs.clients⟩
      simp only [State.flights, Server.inHand, hpc, List.append_nil,
        List.append_assoc]
      exact List.perm_append_comm.append_left _
  · cases h

/-- One more argument has been dealt with. -/
theorem take_succ_filter {c : Client} {arg : CString}
    (harg : c.argv[c.j]? = some arg) :
    (c.argv.take (c.j + 1)).filter Fits =
      (c.argv.take c.j).filter Fits ++ if Fits arg then [arg] else [] := by
  rw [List.take_add_one, harg, List.filter_append]
  by_cases hfits : Fits arg
  · simp [hfits]
  · simp [hfits]

theorem clientLoop_inv {s : State} {i : ℕ} {c : Client} (hs : Inv s)
    (hc : s.clients[i]? = some c) (hpc : c.pc = .loop) :
    Inv (clientLoop s i c) := by
  have hanswered := hs.clients c (List.mem_of_getElem? hc)
  have hidle : s.waits i = none := by rw [waits_eq hc, Client.due, hpc]
  have hsame (d : Client) (hd : d.due = none) :
      Function.update s.waits i d.due = s.waits := by
    rw [hd, ← hidle, Function.update_eq_self]
  unfold clientLoop
  split
  · next hend =>
      refine ⟨?_, forall_mem_set hs.clients ⟨hanswered.echoes, ?_, ?_⟩⟩
      · rw [waits_set hc rfl, hsame _ rfl]
        exact hs.flights
      · intro hread
        cases hread
      · intro code hcode
        cases hcode
        exact ⟨rfl, hend⟩
  · next arg harg =>
      dsimp only
      split
      · next hlong =>
          refine ⟨?_, forall_mem_set hs.clients ⟨?_, ?_, ?_⟩⟩
          · rw [waits_set hc rfl, hsame _ (by simp [Client.due, hpc])]
            exact hs.flights
          · have hskipped : ¬ Fits arg := Nat.not_le.mpr hlong
            simp only [take_succ_filter harg, if_neg hskipped, List.append_nil]
            exact hanswered.echoes
          · intro hread
            simp [hpc] at hread
          · intro code hcode
            simp [hpc] at hcode
      · next hshort =>
          have hfits : Fits arg := Nat.not_lt.mp hshort
          have hwhole : arg.memory.take (strlen arg.memory + 1) = arg.memory :=
            List.take_of_length_le (memory_length arg).le
          refine ⟨?_, forall_mem_set hs.clients ⟨hanswered.echoes, ?_, ?_⟩⟩
          · rw [waits_set hc rfl]
            have hdue : Client.due { c with pc := .read } =
                some arg.memory := by
              simp [Client.due, harg]
            rw [hdue]
            apply (hs.flights.send hidle arg.memory).perm
            simp only [State.flights, hwhole, List.append_assoc,
              List.singleton_append]
            exact List.perm_middle.symm
          · intro _
            exact ⟨arg, harg, hfits⟩
          · intro code hcode
            cases hcode

/-- The client gets back what it has sent. -/
theorem deliver_inv {s t : State} {i n : ℕ} {c : Client} (hs : Inv s)
    (hc : s.clients[i]? = some c) (h : deliver s i n c = some t) : Inv t := by
  unfold deliver at h
  split at h
  · next addr bytes hpc hget =>
      obtain ⟨rfl, rfl⟩ := guarded_eq_some.mp h
      obtain ⟨hn, hbytes⟩ := List.getElem?_eq_some_iff.mp hget
      have hmem : (addr, bytes) ∈ s.flights := by
        simp [State.flights, List.mem_of_getElem? hget]
      have hwhole := hs.take_flight hmem
      obtain ⟨c', arg, hc', -, harg, hfits, rfl⟩ := hs.flight hmem
      obtain rfl : c = c' := Option.some.inj (hc.symm.trans hc')
      have hanswered := hs.clients c (List.mem_of_getElem? hc)
      refine ⟨?_, forall_mem_set hs.clients ⟨?_, ?_, ?_⟩⟩
      · rw [waits_set hc rfl]
        have herase : s.toClient.Perm
            ((addr, arg.memory) :: s.toClient.eraseIdx n) := by
          rw [← hbytes]
          exact (List.getElem_cons_eraseIdx_perm hn).symm
        have htaken : InFlight s.waits ((addr, arg.memory) ::
            (s.toServer ++ s.server.inHand ++ s.toClient.eraseIdx n)) :=
          hs.flights.perm ((herase.append_left _).trans List.perm_middle)
        exact htaken.arrive
      · simp only [clientRead, take_succ_filter harg, if_pos hfits, hwhole]
        apply List.rel_append hanswered.echoes
        refine .cons ⟨?_, take_overlay _ _⟩ .nil
        rw [memory_length, CString.strlen_memory]
      · intro hread
        cases hread
      · intro code hcode
        cases hcode
  · cases h

theorem next_inv (s : State) (label : Label) (t : State) (hs : Inv s)
    (h : next s label = some t) : Inv t := by
  cases label with
  | launch argv buf =>
      cases h
      exact launch_inv hs argv buf
  | recvfrom n => exact recvfrom_inv hs h
  | sendto => exact sendto_inv hs h
  | client i =>
      obtain ⟨c, hc, hmove⟩ := Option.bind_eq_some_iff.mp h
      obtain ⟨hpc, rfl⟩ := guarded_eq_some.mp hmove
      exact clientLoop_inv hs hc hpc
  | read i n =>
      obtain ⟨c, hc, hmove⟩ := Option.bind_eq_some_iff.mp h
      exact deliver_inv hs hc hmove

/-- The arguments of a client that fit. -/
def Client.fitting (c : Client) : List CString := c.argv.filter Fits

/-- For any clients and arguments and every order in which datagrams are
delivered: the responses of a client are its arguments that fit, in order and
each with its zero, all of them when it has returned; and no datagram is under
way to a client but the echo of what that client waits for. -/
theorem echo_correct {buf : List Byte} {labels : List Label} {s : State}
    (hrun : exec next (start buf) labels = some s) :
    (∀ c ∈ s.clients, ∃ answered waiting, c.fitting = answered ++ waiting ∧
      List.Forall₂ Echoes answered c.responses ∧
      ∀ code, c.pc = .returned code → code = 0 ∧ waiting = []) ∧
    ∀ addr bytes, (addr, bytes) ∈ s.toClient → ∃ c arg,
      s.clients[addr]? = some c ∧ c.pc = .read ∧ c.argv[c.j]? = some arg ∧
        bytes = arg.memory := by
  have hs : Inv s := exec_invariant next_inv (start_inv buf) hrun
  constructor
  · intro c hc
    have hanswered := hs.clients c hc
    refine ⟨(c.argv.take c.j).filter Fits, (c.argv.drop c.j).filter Fits, ?_,
      hanswered.echoes, ?_⟩
    · rw [← List.filter_append, List.take_append_drop, Client.fitting]
    · intro code hcode
      obtain ⟨hzero, hend⟩ := hanswered.returned code hcode
      refine ⟨hzero, ?_⟩
      rw [List.drop_eq_nil_of_le (List.getElem?_eq_none_iff.mp hend),
        List.filter_nil]
  · intro addr bytes hmem
    have hflight : (addr, bytes) ∈ s.flights := by simp [State.flights, hmem]
    obtain ⟨c, arg, hc, hpc, harg, -, hbytes⟩ := hs.flight hflight
    exact ⟨c, arg, hc, hpc, harg, hbytes⟩

/-- An argument of one letter. -/
def letter (byte : Byte) (h : byte ≠ 0) : CString :=
  ⟨[byte], by simpa using h.symm⟩

/-- Two clients; the second request is served first. -/
def twoClients : List Label :=
  [.launch [letter 97 (by decide)] [], .launch [letter 98 (by decide)] [],
    .client 0, .client 1, .recvfrom 1, .sendto, .recvfrom 0, .sendto,
    .read 0 1, .read 1 0, .client 0, .client 1]

theorem echo_correct_twoClients :
    ∃ s, exec next (start []) twoClients = some s ∧
      s.clients.map Client.responses = [[⟨2, [97, 0]⟩], [⟨2, [98, 0]⟩]] ∧
      ∀ c ∈ s.clients, ∃ answered waiting, c.fitting = answered ++ waiting ∧
        List.Forall₂ Echoes answered c.responses ∧
        ∀ code, c.pc = .returned code → code = 0 ∧ waiting = [] := by
  have hrun : exec next (start []) twoClients = some _ := rfl
  exact ⟨_, hrun, rfl, (echo_correct hrun).1⟩

end InetSocket

end MyFreeLib
