/-
The echo service to its end.  Every client is served whatever the order in
which the network delivers, and the server's lines are, for each client, one
for each argument that fits.
-/
import MyFreeLib.InetSocketEcho

namespace MyFreeLib

namespace InetSocket

/-- The server or a client makes its next call. -/
def Label.IsStep : Label → Prop
  | .launch _ _ => False
  | _ => True

/-- What the server says it has received from a client. -/
def State.received (s : State) (addr : Addr) : List ℕ :=
  (s.server.log.filter (·.2 = addr)).map Prod.fst

/-- The bytes of an argument with its zero. -/
def size (arg : CString) : ℕ := arg.bytes.length + 1

/-- The request of the client that reads has got to the server. -/
def State.arrived (s : State) (addr : Addr) (c : Client) : List CString :=
  if c.pc = .read ∧ addr ∉ s.toServer.map Prod.fst then
    c.argv[c.j]?.toList
  else []

/-- The server has one line for each argument that has got there. -/
def Logged (s : State) : Prop :=
  ∀ addr, s.received addr = match s.clients[addr]? with
    | none => []
    | some c =>
        ((c.argv.take c.j).filter Fits ++ s.arrived addr c).map size

theorem start_logged (buf : List Byte) : Logged (start buf) := by
  intro addr
  simp [State.received, start]

/-- A client without a request under way. -/
theorem arrived_of_loop {s : State} {addr : Addr} {c : Client}
    (h : c.pc ≠ .read) : s.arrived addr c = [] := by
  simp [State.arrived, h]

theorem Logged.launch {s : State} (hs : Logged s) (argv : List CString)
    (buf : List Byte) :
    Logged { s with
      clients := s.clients ++ [⟨.loop, argv, 0, buf, [], []⟩] } := by
  intro addr
  have hold := hs addr
  rcases Nat.lt_trichotomy addr s.clients.length with hlt | rfl | hgt
  · rw [List.getElem?_append_left hlt]
    exact hold
  · rw [List.getElem?_eq_none (Nat.le_refl _)] at hold
    rw [List.getElem?_concat_length]
    simpa [State.received, State.arrived] using hold
  · rw [List.getElem?_eq_none (by omega)] at hold
    rw [List.getElem?_eq_none (by simp; omega)]
    exact hold

/-- A client moves, and what it has sent before has not. -/
theorem Logged.client_moves {s t : State} {i : ℕ} {c d : Client}
    (hs : Logged s) (hc : s.clients[i]? = some c)
    (hserver : t.server = s.server) (hclients : t.clients = s.clients.set i d)
    (hown : (d.argv.take d.j).filter Fits ++ t.arrived i d =
      (c.argv.take c.j).filter Fits ++ s.arrived i c)
    (hothers : ∀ addr, addr ≠ i →
      (addr ∈ t.toServer.map Prod.fst ↔ addr ∈ s.toServer.map Prod.fst)) :
    Logged t := by
  intro addr
  have hold := hs addr
  rw [State.received, hserver]
  rw [State.received] at hold
  by_cases haddr : addr = i
  · subst haddr
    have hlt := (List.getElem?_eq_some_iff.mp hc).1
    rw [hclients, List.getElem?_set_self hlt]
    simp only [hc] at hold
    simp only [hown, hold]
  · rw [hclients, List.getElem?_set_ne (Ne.symm haddr), hold]
    cases s.clients[addr]? with
    | none => rfl
    | some x => simp only [State.arrived, hothers addr haddr]

theorem clientLoop_logged {s : State} {i : ℕ} {c : Client} (hs : Logged s)
    (hc : s.clients[i]? = some c) (hpc : c.pc = .loop) :
    Logged (clientLoop s i c) := by
  have hnone : s.arrived i c = [] := arrived_of_loop (by rw [hpc]; nofun)
  unfold clientLoop
  split
  · refine hs.client_moves hc rfl rfl ?_ fun _ _ => Iff.rfl
    rw [hnone, arrived_of_loop (by simp)]
  · next arg harg =>
      dsimp only
      split
      · next hlong =>
          have hskipped : ¬ Fits arg := Nat.not_le.mpr hlong
          refine hs.client_moves hc rfl rfl ?_ fun _ _ => Iff.rfl
          rw [hnone, arrived_of_loop (by rw [hpc]; nofun)]
          simp only [take_succ_filter harg, if_neg hskipped, List.append_nil]
      · refine hs.client_moves hc rfl rfl ?_ fun addr haddr => ?_
        · rw [hnone]
          simp [State.arrived]
        · simp [haddr]

theorem deliver_logged {s t : State} {i n : ℕ} {c : Client} (hinv : Inv s)
    (hs : Logged s) (hc : s.clients[i]? = some c)
    (h : deliver s i n c = some t) : Logged t := by
  unfold deliver at h
  split at h
  · next addr bytes hpc hget =>
      obtain ⟨rfl, rfl⟩ := guarded_eq_some.mp h
      have hmem : (addr, bytes) ∈ s.flights := by
        simp [State.flights, List.mem_of_getElem? hget]
      obtain ⟨c', arg, hc', -, harg, hfits, -⟩ := hinv.flight hmem
      obtain rfl : c = c' := Option.some.inj (hc.symm.trans hc')
      -- what comes back to a client is not on its way to the server
      have haway : addr ∉ s.toServer.map Prod.fst := by
        intro haddr
        have honce := hinv.flights.once
        simp only [State.flights, List.append_assoc, List.map_append] at honce
        have hback : addr ∈ s.toClient.map Prod.fst :=
          List.mem_map_of_mem (List.mem_of_getElem? hget)
        exact (List.nodup_append.mp honce).2.2 addr haddr addr
          (List.mem_append_right _ hback) rfl
      refine hs.client_moves hc rfl rfl ?_ fun _ _ => Iff.rfl
      simp [clientRead, take_succ_filter harg, hfits, State.arrived, hpc, haway,
        harg]
  · cases h

theorem recvfrom_logged {s t : State} {n : ℕ} (hinv : Inv s) (hs : Logged s)
    (h : recvfrom s n = some t) : Logged t := by
  unfold recvfrom at h
  split at h
  case h_2 => cases h
  case h_1 addr bytes hpc hget =>
    cases h
    obtain ⟨hn, hbytes⟩ := List.getElem?_eq_some_iff.mp hget
    have hmem : (addr, bytes) ∈ s.flights := by
      simp [State.flights, List.mem_of_getElem? hget]
    have hwhole := hinv.take_flight hmem
    obtain ⟨c, arg, hc, hread, harg, -, rfl⟩ := hinv.flight hmem
    have herase : (s.toServer.map Prod.fst).Perm
        (addr :: (s.toServer.eraseIdx n).map Prod.fst) := by
      have hperm := (List.getElem_cons_eraseIdx_perm hn).symm.map Prod.fst
      rwa [hbytes, List.map_cons] at hperm
    have hgone : addr ∉ (s.toServer.eraseIdx n).map Prod.fst := by
      have honce := hinv.flights.once
      simp only [State.flights, List.append_assoc, List.map_append] at honce
      exact (List.nodup_cons.mp (herase.nodup (List.nodup_append.mp honce).1)).1
    intro other
    have hold := hs other
    by_cases hother : other = addr
    · subst hother
      have hhere : other ∈ s.toServer.map Prod.fst :=
        herase.mem_iff.mpr List.mem_cons_self
      simp only [hc, State.received, State.arrived, hread, hhere,
        not_true_eq_false, and_false, if_false, List.append_nil] at hold
      simp [hc, State.received, State.arrived, hread, hgone, harg, hwhole, hold,
        size, memory_length, CString.strlen_memory]
    · have hsame : other ∈ (s.toServer.eraseIdx n).map Prod.fst ↔
          other ∈ s.toServer.map Prod.fst := by
        rw [herase.mem_iff, List.mem_cons, or_iff_right hother]
      have hlog : ((arg.memory.take bufSize).length, addr).2 ≠ other :=
        Ne.symm hother
      simp only [State.received, List.filter_append, List.filter_cons,
        decide_eq_true_eq, if_neg hlog, List.filter_nil, List.append_nil,
        State.arrived, hsame]
      exact hold

theorem next_logged {s t : State} {label : Label} (hinv : Inv s)
    (hs : Logged s) (h : next s label = some t) : Logged t := by
  cases label with
  | launch argv buf =>
      cases h
      exact hs.launch argv buf
  | recvfrom n => exact recvfrom_logged hinv hs h
  | sendto =>
      simp only [next, sendto] at h
      split at h
      · cases h
        exact hs
      · cases h
  | client i =>
      obtain ⟨c, hc, hmove⟩ := Option.bind_eq_some_iff.mp h
      obtain ⟨hpc, rfl⟩ := guarded_eq_some.mp hmove
      exact clientLoop_logged hs hc hpc
  | read i n =>
      obtain ⟨c, hc, hmove⟩ := Option.bind_eq_some_iff.mp h
      exact deliver_logged hinv hs hc hmove

/-! ### How long it takes -/

/-- Four calls for each argument that is left: the client's two and the
server's two, these under the datagram once it is sent. -/
def Client.work (c : Client) : ℕ :=
  match c.pc with
  | .loop => 4 * (c.argv.length - c.j) + 1
  | .read => 4 * (c.argv.length - c.j) - 2
  | .returned _ => 0

def ServerPc.work : ServerPc → ℕ
  | .recvfrom => 0
  | .sendto => 1

def State.work (s : State) : ℕ :=
  (s.clients.map Client.work).sum + 2 * s.toServer.length + s.server.pc.work

theorem lt_length_of_getElem? {c : Client} {arg : CString}
    (harg : c.argv[c.j]? = some arg) : c.j < c.argv.length :=
  (List.getElem?_eq_some_iff.mp harg).1

theorem clientLoop_work {s : State} {i : ℕ} {c : Client}
    (hc : s.clients[i]? = some c) (hpc : c.pc = .loop) :
    (clientLoop s i c).work < s.work := by
  have hsum (d : Client) := sum_map_set Client.work hc d
  have hold : c.work = 4 * (c.argv.length - c.j) + 1 := by
    rw [Client.work, hpc]
  unfold clientLoop
  split
  · have hsum := hsum { c with pc := .returned 0 }
    simp only [State.work, Client.work] at *
    omega
  · next arg harg =>
      have hlt := lt_length_of_getElem? harg
      dsimp only
      split
      · have hsum := hsum { c with
          j := c.j + 1
          notices := c.notices ++
            [s!"Ignoring long message in argument {c.j + 4}\n"] }
        have hnew : Client.work { c with
            j := c.j + 1
            notices := c.notices ++
              [s!"Ignoring long message in argument {c.j + 4}\n"] } =
            4 * (c.argv.length - (c.j + 1)) + 1 := by
          simp only [Client.work, hpc]
        simp only [State.work]
        omega
      · have hsum := hsum { c with pc := .read }
        have hnew : Client.work { c with pc := .read } =
            4 * (c.argv.length - c.j) - 2 := rfl
        simp only [State.work, List.length_append, List.length_singleton]
        omega

theorem step_work {s t : State} {label : Label} (hlabel : label.IsStep)
    (hs : Inv s) (h : next s label = some t) : t.work < s.work := by
  cases label with
  | launch argv buf => exact hlabel.elim
  | recvfrom n =>
      simp only [next, recvfrom] at h
      split at h
      · next addr bytes hpc hget =>
          cases h
          have hn := (List.getElem?_eq_some_iff.mp hget).1
          simp only [State.work, hpc, ServerPc.work, List.length_eraseIdx,
            if_pos hn]
          omega
      · cases h
  | sendto =>
      simp only [next, sendto] at h
      split at h
      · next hpc =>
          cases h
          simp [State.work, hpc, ServerPc.work]
      · cases h
  | client i =>
      obtain ⟨c, hc, hmove⟩ := Option.bind_eq_some_iff.mp h
      obtain ⟨hpc, rfl⟩ := guarded_eq_some.mp hmove
      exact clientLoop_work hc hpc
  | read i n =>
      obtain ⟨c, hc, hmove⟩ := Option.bind_eq_some_iff.mp h
      unfold deliver at hmove
      split at hmove
      · next addr bytes hpc hget =>
          obtain ⟨rfl, rfl⟩ := guarded_eq_some.mp hmove
          obtain ⟨arg, harg, -⟩ :=
            (hs.clients c (List.mem_of_getElem? hc)).reading hpc
          have hlt := lt_length_of_getElem? harg
          have hsum := sum_map_set Client.work hc (clientRead c bytes)
          have hnew : (clientRead c bytes).work =
              4 * (c.argv.length - (c.j + 1)) + 1 := rfl
          have hold : c.work = 4 * (c.argv.length - c.j) - 2 := by
            rw [Client.work, hpc]
          simp only [State.work]
          omega
      · cases hmove

def Client.Finished (c : Client) : Prop := c.pc = .returned 0

theorem Inv.finished_of_returned {s : State} {c : Client} {code : ℤ}
    (hs : Inv s) (hc : c ∈ s.clients) (hpc : c.pc = .returned code) :
    c.Finished := by
  rw [Client.Finished, hpc, ((hs.clients c hc).returned code hpc).1]

/-- Somebody can go on until all clients have finished: nothing is lost between
the two sides. -/
theorem Inv.exists_step {s : State} (hs : Inv s)
    (h : ¬ ∀ c ∈ s.clients, c.Finished) :
    ∃ label : Label, label.IsStep ∧ (next s label).isSome := by
  push Not at h
  obtain ⟨c, hmem, hwaiting⟩ := h
  obtain ⟨i, hc⟩ := List.mem_iff_getElem?.mp hmem
  cases hread : c.pc with
  | returned code => exact absurd (hs.finished_of_returned hmem hread) hwaiting
  | loop =>
      exact ⟨.client i, trivial, by simp [next, hc, hread]⟩
  | read =>
      obtain ⟨arg, harg, -⟩ := (hs.clients c hmem).reading hread
      have hwaits : s.waits i = some arg.memory := by
        rw [waits_eq hc, Client.due, hread, harg]
        rfl
      have hflight := (hs.flights.owed i arg.memory).mpr hwaits
      rw [State.flights, List.mem_append, List.mem_append] at hflight
      cases hserver : s.server.pc with
      | sendto =>
          exact ⟨.sendto, trivial, by simp [next, sendto, hserver]⟩
      | recvfrom =>
          rcases hflight with (hrequest | hhand) | hecho
          · obtain ⟨n, hn⟩ := List.mem_iff_getElem?.mp hrequest
            refine ⟨.recvfrom n, trivial, ?_⟩
            simp [next, recvfrom, hserver, hn]
          · simp [Server.inHand, hserver] at hhand
          · obtain ⟨n, hn⟩ := List.mem_iff_getElem?.mp hecho
            refine ⟨.read i n, trivial, ?_⟩
            simp [next, hc, deliver, hread, hn]

/-- When all clients have finished nothing is under way. -/
theorem Inv.quiet {s : State} (hs : Inv s)
    (h : ∀ c ∈ s.clients, c.Finished) (label : Label) (hlabel : label.IsStep) :
    next s label = none := by
  have hnone : s.flights = [] := by
    rw [List.eq_nil_iff_forall_not_mem]
    rintro ⟨addr, bytes⟩ hmem
    obtain ⟨c, arg, hc, hread, -⟩ := hs.flight hmem
    have hfinished := h c (List.mem_of_getElem? hc)
    rw [Client.Finished, hread] at hfinished
    cases hfinished
  simp only [State.flights, List.append_eq_nil_iff] at hnone
  obtain ⟨⟨hrequests, hhand⟩, hechoes⟩ := hnone
  cases label with
  | launch argv buf => exact hlabel.elim
  | recvfrom n => simp [next, recvfrom, hrequests]
  | sendto =>
      cases hserver : s.server.pc with
      | recvfrom => simp [next, sendto, hserver]
      | sendto => simp [Server.inHand, hserver] at hhand
  | client i =>
      rw [next, Option.bind_eq_none_iff]
      intro c hc
      have hfinished := h c (List.mem_of_getElem? hc)
      rw [Client.Finished] at hfinished
      simp [hfinished]
  | read i n =>
      rw [next, Option.bind_eq_none_iff]
      intro c hc
      simp [deliver, hechoes]

/-- Left to themselves the server and its clients finish, whatever the network
delivers first, in a bounded number of calls that can only stop when all
clients have returned 0.  Each of them has got its arguments that fit back, in
order, and these are what the server says it has received from it. -/
theorem all_answered {buf : List Byte} {labels : List Label} {s : State}
    (hrun : exec next (start buf) labels = some s) :
    (∃ steps t, (∀ label ∈ steps, label.IsStep) ∧
      exec next s steps = some t ∧ ∀ c ∈ t.clients, c.Finished) ∧
    ∀ steps t, (∀ label ∈ steps, label.IsStep) →
      exec next s steps = some t →
      steps.length ≤ s.work ∧
      ((∀ label : Label, label.IsStep → next t label = none) ↔
        ∀ c ∈ t.clients, c.Finished) ∧
      ∀ addr c, t.clients[addr]? = some c → c.Finished →
        List.Forall₂ Echoes c.fitting c.responses ∧
        t.received addr = c.fitting.map size := by
  have hstep (s : State) (label : Label) (t : State) (hs : Inv s ∧ Logged s)
      (hnext : next s label = some t) : Inv t ∧ Logged t :=
    ⟨next_inv s label t hs.1 hnext, next_logged hs.1 hs.2 hnext⟩
  have hs : Inv s ∧ Logged s :=
    exec_invariant hstep ⟨start_inv buf, start_logged buf⟩ hrun
  have hkeep (s : State) (label : Label) (t : State) (_ : label.IsStep) :=
    hstep s label t
  have hdrop (s : State) (label : Label) (t : State) (hlabel : label.IsStep)
      (hs : Inv s ∧ Logged s) (hnext : next s label = some t) :
      t.work < s.work :=
    step_work hlabel hs.1 hnext
  have hmove (s : State) (hs : Inv s ∧ Logged s)
      (hwaiting : ¬ ∀ c ∈ s.clients, c.Finished) :
      ∃ label : Label, label.IsStep ∧ (next s label).isSome :=
    hs.1.exists_step hwaiting
  refine ⟨?_, fun steps t hsteps hlater => ⟨?_, ⟨fun hquiet => ?_, ?_⟩, ?_⟩⟩
  · obtain ⟨steps, t, hsteps, hlater, -, hfinished⟩ :=
      exists_completion hkeep hdrop hmove hs
    exact ⟨steps, t, hsteps, hlater, hfinished⟩
  · have hlength := exec_length_le hkeep hdrop hsteps hs hlater
    omega
  · have ht := exec_invariant_of_labels hkeep hsteps hs hlater
    by_contra hwaiting
    obtain ⟨label, hlabel, hmoves⟩ := hmove t ht hwaiting
    rw [hquiet label hlabel] at hmoves
    cases hmoves
  · have ht := exec_invariant_of_labels hkeep hsteps hs hlater
    exact ht.1.quiet
  · intro addr c hc hfinished
    have ht := exec_invariant_of_labels hkeep hsteps hs hlater
    have hanswered := ht.1.clients c (List.mem_of_getElem? hc)
    have hall : c.argv.take c.j = c.argv := by
      apply List.take_of_length_le
      exact List.getElem?_eq_none_iff.mp (hanswered.returned 0 hfinished).2
    have hechoes := hanswered.echoes
    have hlogged := ht.2 addr
    have hidle : t.arrived addr c = [] :=
      arrived_of_loop (by rw [hfinished]; nofun)
    rw [hall] at hechoes
    simp only [hc, hidle, hall, List.append_nil] at hlogged
    exact ⟨hechoes, hlogged⟩

theorem all_answered_twoClients :
    ∃ s steps t, exec next (start []) (twoClients.take 6) = some s ∧
      exec next s steps = some t ∧ ∀ c ∈ t.clients, c.Finished := by
  have hrun : exec next (start []) (twoClients.take 6) = some _ := rfl
  obtain ⟨steps, t, -, hlater, hfinished⟩ := (all_answered hrun).1
  exact ⟨_, steps, t, hrun, hlater, hfinished⟩

end InetSocket

end MyFreeLib
