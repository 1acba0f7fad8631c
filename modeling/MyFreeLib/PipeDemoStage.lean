/-
The service where no client is stopped.  What a client's FIFO looks like then
follows from where the client stands and from how far the server is with its
request; in particular each opens the end that the other waits for.
-/
import MyFreeLib.PipeDemoOrder

namespace MyFreeLib

namespace PipeDemo

/-- A schedule in which no client is stopped. -/
def Label.Runs : Label → Prop
  | .stop _ _ => False
  | _ => True

/-- How far the server is with the request of a client. -/
inductive Stage
  | before
  | opening
  | write
  | close
  | after
deriving DecidableEq, Repr

def State.stage (s : State) (i : ℕ) (pid : Pid) : Stage :=
  if s.server.target = some i then
    match s.server with
    | .opening _ => .opening
    | .write _ => .write
    | _ => .close
  else if (s.sent.take s.answered).contains pid then .after
  else .before

/-- The server has its end of the client's FIFO. -/
def Stage.hasOpened : Stage → Bool
  | .opening | .write | .close => true
  | _ => false

/-- The response has been written. -/
def Stage.responded : Stage → Bool
  | .close | .after => true
  | _ => false

/-- The state of a client follows from where it stands and from how far the
server is with its request. -/
def Client.Attended (c : Client) (stage : Stage) : Prop :=
  c.notices = [] ∧
  match c.pc with
  | .mkfifo => stage = .before ∧ c.printed = [] ∧
      c.fifo = ⟨false, false, false, false, false, []⟩
  | .openServer | .send => stage = .before ∧ c.printed = [] ∧
      c.fifo = ⟨true, false, false, false, false, []⟩
  | .openFifo => c.printed = [] ∧
      (stage = .before ∧
        c.fifo = ⟨true, false, false, false, false, []⟩ ∨
      stage = .opening ∧
        c.fifo = ⟨true, false, true, false, false, []⟩)
  | .opening => c.printed = [] ∧
      (stage = .before ∧ c.fifo = ⟨true, true, false, false, false, []⟩ ∨
      stage ≠ .before ∧ ∃ data : List Byte,
        data.length = (if stage.responded then responseSize else 0) ∧
        c.fifo = ⟨true, true, stage.hasOpened, true, true, data⟩)
  | .read => c.printed = [] ∧ stage ≠ .before ∧ ∃ data : List Byte,
      data.length = (if stage.responded then responseSize else 0) ∧
      c.fifo = ⟨true, true, stage.hasOpened, true, true, data⟩
  | .print => c.printed = [] ∧ stage.responded ∧
      c.answer.length = responseSize ∧ bytesInt c.resp = bytesInt c.answer ∧
      c.fifo = ⟨true, true, stage.hasOpened, true, true, []⟩
  | .returned code => code = 0 ∧ stage.responded ∧
      c.answer.length = responseSize ∧ c.printed = [bytesInt c.answer] ∧
      c.fifo = ⟨false, false, stage.hasOpened, true, true, []⟩
  | .stopped => False

/-! ### The server's calls -/

/-- Change a client's FIFO. -/
def Client.withFifo (c : Client) (change : Fifo → Fifo) : Client :=
  { c with fifo := change c.fifo }

theorem Client.Attended.openWriter {c : Client} (h : c.Attended .before)
    (hsent : ¬ c.unsent) : (c.withFifo Fifo.openWriter).Attended .opening := by
  obtain ⟨pid, pc, fifo, resp, answer, printed, notices⟩ := c
  obtain ⟨hnotices, h⟩ := h
  refine ⟨hnotices, ?_⟩
  cases pc with
  | mkfifo | openServer | send => exact absurd rfl hsent
  | openFifo =>
      obtain ⟨hprinted, ⟨-, rfl⟩ | ⟨hstage, -⟩⟩ := h
      · exact ⟨hprinted, Or.inr ⟨rfl, rfl⟩⟩
      · cases hstage
  | opening =>
      obtain ⟨hprinted, ⟨-, rfl⟩ | ⟨hstage, -⟩⟩ := h
      · exact ⟨hprinted, Or.inr ⟨nofun, [], rfl, rfl⟩⟩
      · exact absurd rfl hstage
  | read => exact absurd rfl h.2.1
  | print => cases h.2.1
  | returned code => cases h.2.1
  | stopped => exact h

theorem Client.Attended.opened {c : Client} (h : c.Attended .opening)
    (hwoken : c.fifo.writerWoken) : c.Attended .write := by
  obtain ⟨pid, pc, fifo, resp, answer, printed, notices⟩ := c
  obtain ⟨hnotices, h⟩ := h
  refine ⟨hnotices, ?_⟩
  cases pc with
  | mkfifo | openServer | send => cases h.1
  | openFifo =>
      obtain ⟨-, ⟨hstage, -⟩ | ⟨-, rfl⟩⟩ := h
      · cases hstage
      · cases hwoken
  | opening =>
      obtain ⟨hprinted, ⟨hstage, -⟩ | ⟨-, hdata⟩⟩ := h
      · cases hstage
      · exact ⟨hprinted, Or.inr ⟨nofun, hdata⟩⟩
  | read => exact ⟨h.1, nofun, h.2.2⟩
  | print => cases h.2.1
  | returned code => cases h.2.1
  | stopped => exact h

theorem Client.Attended.push {c : Client} (h : c.Attended .write)
    {bytes : List Byte} (hbytes : bytes.length = responseSize) :
    c.fifo.reader ∧ (c.withFifo (Fifo.push bytes)).Attended .close := by
  obtain ⟨pid, pc, fifo, resp, answer, printed, notices⟩ := c
  obtain ⟨hnotices, h⟩ := h
  cases pc with
  | mkfifo | openServer | send => cases h.1
  | openFifo => obtain ⟨-, ⟨hstage, -⟩ | ⟨hstage, -⟩⟩ := h <;> cases hstage
  | opening =>
      obtain ⟨hprinted, ⟨hstage, -⟩ | ⟨-, data, hdata, rfl⟩⟩ := h
      · cases hstage
      · obtain rfl := List.length_eq_zero_iff.mp hdata
        exact ⟨rfl, hnotices, hprinted, Or.inr ⟨nofun, bytes, hbytes, rfl⟩⟩
  | read =>
      obtain ⟨hprinted, -, data, hdata, rfl⟩ := h
      obtain rfl := List.length_eq_zero_iff.mp hdata
      exact ⟨rfl, hnotices, hprinted, nofun, bytes, hbytes, rfl⟩
  | print => cases h.2.1
  | returned code => cases h.2.1
  | stopped => exact h.elim

theorem Client.Attended.closeWriter {c : Client} (h : c.Attended .close) :
    (c.withFifo Fifo.closeWriter).Attended .after := by
  obtain ⟨pid, pc, fifo, resp, answer, printed, notices⟩ := c
  obtain ⟨hnotices, h⟩ := h
  refine ⟨hnotices, ?_⟩
  cases pc with
  | mkfifo | openServer | send => cases h.1
  | openFifo => obtain ⟨-, ⟨hstage, -⟩ | ⟨hstage, -⟩⟩ := h <;> cases hstage
  | opening =>
      obtain ⟨hprinted, ⟨hstage, -⟩ | ⟨-, data, hdata, rfl⟩⟩ := h
      · cases hstage
      · exact ⟨hprinted, Or.inr ⟨nofun, data, hdata, rfl⟩⟩
  | read =>
      obtain ⟨hprinted, -, data, hdata, rfl⟩ := h
      exact ⟨hprinted, nofun, data, hdata, rfl⟩
  | print =>
      obtain ⟨hprinted, -, hanswer, hresp, rfl⟩ := h
      exact ⟨hprinted, rfl, hanswer, hresp, rfl⟩
  | returned code =>
      obtain ⟨hcode, -, hanswer, hprinted, rfl⟩ := h
      exact ⟨hcode, rfl, hanswer, hprinted, rfl⟩
  | stopped => exact h

/-! ### The client's calls -/

theorem bytesInt_overlay {bytes resp : List Byte}
    (h : bytes.length = responseSize) :
    bytesInt (overlay bytes resp) = bytesInt bytes := by
  have htake : (overlay bytes resp).take 4 = bytes.take 4 := by
    rw [← (show bytes.length = 4 from h), take_overlay, List.take_length]
  rw [bytesInt, bytesInt, htake]

theorem clientReceives_attended {c c' : Client} {stage : Stage}
    (hc : c.Attended stage) (h : clientReceives c = some c') :
    c'.Attended stage := by
  obtain ⟨pid, pc, fifo, resp, answer, printed, notices⟩ := c
  obtain ⟨hnotices, hc⟩ := hc
  cases pc with
  | mkfifo | openServer | send | returned code | stopped => cases h
  | openFifo =>
      cases h
      obtain ⟨hprinted, ⟨rfl, rfl⟩ | ⟨rfl, rfl⟩⟩ := hc
      · exact ⟨hnotices, hprinted, Or.inl ⟨rfl, rfl⟩⟩
      · exact ⟨hnotices, hprinted, Or.inr ⟨nofun, [], rfl, rfl⟩⟩
  | opening =>
      obtain ⟨hwoken, rfl⟩ := guarded_eq_some.mp h
      obtain ⟨hprinted, ⟨-, rfl⟩ | hdata⟩ := hc
      · cases hwoken
      · exact ⟨hnotices, hprinted, hdata⟩
  | read =>
      obtain ⟨hprinted, hstage, data, hlength, rfl⟩ := hc
      by_cases hresponded : stage.responded
      · rw [if_pos hresponded] at hlength
        have htake : data.take responseSize = data :=
          List.take_of_length_le hlength.le
        have hdrop : data.drop responseSize = [] :=
          List.drop_of_length_le hlength.le
        have hne : data ≠ [] := by
          rintro rfl
          cases hlength
        simp only [clientReceives, clientRead, htake, hdrop, hne, hlength,
          decide_false, Bool.false_and, Bool.false_eq_true, if_false, ne_eq,
          not_true_eq_false, Option.some.injEq] at h
        cases h
        exact ⟨hnotices, hprinted, hresponded, hlength,
          bytesInt_overlay hlength, rfl⟩
      · -- there is nothing to read, and the server has its end still
        rw [if_neg hresponded] at hlength
        obtain rfl := List.length_eq_zero_iff.mp hlength
        have hopened : stage.hasOpened := by
          cases stage <;> simp_all [Stage.responded, Stage.hasOpened]
        simp [clientReceives, clientRead, hopened] at h
  | print =>
      cases h
      obtain ⟨rfl, hresponded, hanswer, hresp, rfl⟩ := hc
      exact ⟨hnotices, rfl, hresponded, hanswer, by rw [← hresp]; rfl, rfl⟩

/-- A client has a call to make, unless it waits for the server. -/
theorem Client.Attended.receives {c : Client} {stage : Stage}
    (h : c.Attended stage) (hsent : ¬ c.unsent)
    (hrunning : c.pc ≠ .returned 0)
    (hstage : stage.responded ∨ c.pc = .openFifo) :
    (clientReceives c).isSome := by
  obtain ⟨pid, pc, fifo, resp, answer, printed, notices⟩ := c
  obtain ⟨-, h⟩ := h
  cases pc with
  | mkfifo | openServer | send => exact absurd rfl hsent
  | openFifo | print => rfl
  | opening =>
      have hresponded := hstage.resolve_right nofun
      obtain ⟨-, ⟨rfl, -⟩ | ⟨-, data, -, rfl⟩⟩ := h
      · cases hresponded
      · rfl
  | read =>
      have hresponded := hstage.resolve_right nofun
      obtain ⟨-, -, data, hlength, rfl⟩ := h
      rw [if_pos hresponded] at hlength
      have hne : data ≠ [] := by
        rintro rfl
        cases hlength
      simp only [clientReceives, clientRead]
      split
      case isTrue hblocked =>
        simp [responseSize, hne] at hblocked
      case isFalse => split <;> rfl
  | returned code => exact absurd (congrArg ClientPc.returned h.1) hrunning
  | stopped => exact h.elim

/-! ### The invariant -/

structure Attends (s : State) : Prop where
  inv : Inv s
  opened : s.server ≠ .write none ∧ s.server ≠ .close none
  sent : ∀ c ∈ s.clients, ¬ c.unsent → c.pid ∈ s.sent
  clients : ∀ i (c : Client), s.clients[i]? = some c →
    c.Attended (s.stage i c.pid)

theorem start_attends (req : List Byte) : Attends (start req) where
  inv := start_inv req
  opened := ⟨nofun, nofun⟩
  sent := by simp [start]
  clients := by simp [start]

theorem Inv.answered_le_sent {s : State} (hs : Inv s) :
    s.answered ≤ s.sent.length := by
  obtain ⟨handled, waiting, hsent, hreads, -⟩ := hs.framing
  have hle := answered_le s
  rw [hreads, List.length_map] at hle
  rw [hsent, List.length_append]
  omega

theorem stage_congr {s t : State} {j : ℕ} {pid : Pid}
    (hs : s.server.target ≠ some j) (ht : t.server.target ≠ some j)
    (hmem : pid ∈ t.sent.take t.answered ↔ pid ∈ s.sent.take s.answered) :
    t.stage j pid = s.stage j pid := by
  rw [State.stage, if_neg ht, State.stage, if_neg hs]
  exact if_congr (by simpa only [List.contains_iff_mem] using hmem) rfl rfl

/-- Requests that come on top are not served yet. -/
theorem Inv.stage_eq {s t : State} (hs : Inv s)
    (hserver : t.server = s.server) (hreads : t.reads = s.reads)
    (hsent : s.sent <+: t.sent) (i : ℕ) (pid : Pid) :
    t.stage i pid = s.stage i pid := by
  have hanswered : t.answered = s.answered := by
    rw [State.answered, State.answered, hserver, hreads]
  obtain ⟨rest, hrest⟩ := hsent
  rw [State.stage, State.stage, hserver, hanswered, ← hrest,
    List.take_append_of_le_length hs.answered_le_sent]

/-- A client moves, and the server stands where it stood. -/
theorem Attends.client_moves {s t : State} {i : ℕ} {c c' : Client}
    (hs : Attends s) (hc : s.clients[i]? = some c) (ht : Inv t)
    (hserver : t.server = s.server) (hreads : t.reads = s.reads)
    (hsent : s.sent <+: t.sent) (hclients : t.clients = s.clients.set i c')
    (hpid : c'.pid = c.pid) (hc' : c'.Attended (s.stage i c.pid))
    (hunsent : ¬ c'.unsent → ¬ c.unsent ∨ c.pid ∈ t.sent) : Attends t := by
  refine ⟨ht, hserver ▸ hs.opened, ?_, fun j d hd => ?_⟩
  · rw [hclients]
    refine forall_mem_set (fun d hd hsame => hsent.subset (hs.sent d hd hsame))
      fun hnow => ?_
    rw [hpid]
    rcases hunsent hnow with hbefore | hmem
    · exact hsent.subset (hs.sent c (List.mem_of_getElem? hc) hbefore)
    · exact hmem
  rw [hs.inv.stage_eq hserver hreads hsent]
  rw [hclients] at hd
  rcases getElem?_set_cases hd with ⟨rfl, rfl⟩ | ⟨-, hold⟩
  · rw [hpid]
    exact hc'
  · exact hs.clients j d hold

/-- The name of a client's FIFO is free until the client makes it. -/
theorem Attends.findFifo_eq_none {s : State} {i : ℕ} {c : Client}
    (hs : Attends s) (hc : s.clients[i]? = some c) (hpc : c.pc = .mkfifo) :
    findFifo s.clients (clientFifo c.pid) = none := by
  rw [findFifo, List.findIdx?_eq_none_iff]
  intro d hd
  rw [Bool.and_eq_false_imp, beq_eq_false_iff_ne]
  rintro hlinked hname
  obtain ⟨j, hj⟩ := List.mem_iff_getElem?.mp hd
  obtain rfl := hs.inv.roster.index_eq hj hc (clientFifo_injective hname)
  obtain rfl := Option.some.inj (hj.symm.trans hc)
  have hattended := (hs.clients j d hc).2
  rw [hpc] at hattended
  rw [hattended.2.2] at hlinked
  cases hlinked

theorem clientNext_attends {s t : State} {i : ℕ} {c : Client}
    (hs : Attends s) (hc : s.clients[i]? = some c)
    (h : clientNext s i c = some t) : Attends t := by
  have ht := clientNext_inv hs.inv hc h
  have hattended := hs.clients i c hc
  unfold clientNext at h
  split at h
  · next hpc =>
      cases h
      refine hs.client_moves hc ht rfl rfl List.prefix_rfl rfl
        (clientMkfifo_pid s c) ?_ ?_
      · obtain ⟨hnotices, hattended⟩ := hattended
        rw [hpc] at hattended
        obtain ⟨hstage, hprinted, hfifo⟩ := hattended
        rw [clientMkfifo, hs.findFifo_eq_none hc hpc]
        refine ⟨hnotices, hstage, hprinted, ?_⟩
        rw [hfifo]
      · rw [clientMkfifo, hs.findFifo_eq_none hc hpc]
        exact fun hnow => absurd rfl hnow
  · next hpc =>
      cases h
      refine hs.client_moves hc ht rfl rfl List.prefix_rfl rfl rfl ?_
        fun hnow => absurd rfl hnow
      rw [Client.Attended, hpc] at hattended
      exact hattended
  · next hpc =>
      cases h
      refine hs.client_moves hc ht rfl rfl (List.prefix_append _ _) rfl rfl ?_
        fun _ => Or.inr (by simp)
      rw [Client.Attended, hpc] at hattended
      obtain ⟨hnotices, hstage, hprinted, hfifo⟩ := hattended
      exact ⟨hnotices, hprinted, Or.inl ⟨hstage, hfifo⟩⟩
  · next hmkfifo hopenServer hsend =>
      obtain ⟨c', hc', rfl⟩ := Option.map_eq_some_iff.mp h
      refine hs.client_moves hc ht rfl rfl List.prefix_rfl rfl
        (clientReceives_pid hc') (clientReceives_attended hattended hc')
        fun _ => Or.inl ?_
      obtain ⟨pid, pc, fifo, resp, answer, printed, notices⟩ := c
      cases pc with
      | mkfifo => exact absurd rfl hmkfifo
      | openServer => exact absurd rfl hopenServer
      | send => exact absurd rfl hsend
      | _ => exact Bool.false_ne_true

/-- The server changes the FIFO of one client. -/
theorem Attends.server_moves {s t : State} {i : ℕ} {change : Fifo → Fifo}
    (hs : Attends s) (ht : Inv t)
    (hopened : t.server ≠ .write none ∧ t.server ≠ .close none)
    (hclients : t.clients = setFifo s.clients i change)
    (hsent : t.sent = s.sent)
    (hown : ∀ c, s.clients[i]? = some c →
      (c.withFifo change).Attended (t.stage i c.pid))
    (hothers : ∀ j c, j ≠ i → s.clients[j]? = some c →
      t.stage j c.pid = s.stage j c.pid) : Attends t := by
  refine ⟨ht, hopened, ?_, fun j d hd => ?_⟩
  · rw [hclients, hsent]
    exact forall_mem_modify hs.sent
      fun c hc => hs.sent c (List.mem_of_getElem? hc)
  rw [hclients, setFifo, List.getElem?_modify] at hd
  obtain ⟨c, hc, hcd⟩ := Option.map_eq_some_iff.mp hd
  by_cases hij : i = j
  · subst hij
    rw [if_pos rfl] at hcd
    subst hcd
    exact hown c hc
  · rw [if_neg hij] at hcd
    subst hcd
    rw [hothers j c (Ne.symm hij) hc]
    exact hs.clients j c hc

/-- The server has taken the request of client `i` in hand. -/
theorem Attends.current {s : State} (hs : Attends s)
    (hbusy : s.server.busy = true) :
    ∃ (i : ℕ) (c : Client), s.clients[i]? = some c ∧
      s.sent[s.reads.length - 1]? = some c.pid ∧
      reqPid s.req = (c.pid.val : Int) ∧ ¬ c.unsent := by
  obtain ⟨pid, -, hpid, hreq, -⟩ := hs.inv.serving.current hbusy
  have hmem := List.mem_of_getElem? hpid
  obtain ⟨c, hc, rfl⟩ := List.mem_map.mp (hs.inv.roster.known pid hmem)
  obtain ⟨i, hi⟩ := List.mem_iff_getElem?.mp hc
  exact ⟨i, c, hi, hpid, hreq, fun hunsent =>
    hs.inv.roster.unsent c hc hunsent hmem⟩

/-- A read takes one request. -/
theorem Inv.serverRead_frame {s t : State} (hs : Inv s)
    (h : serverRead s = some t) :
    t.server = .openClient ∧ t.clients = s.clients ∧ t.sent = s.sent ∧
      t.reads.length = s.reads.length + 1 := by
  obtain ⟨handled, waiting, hsent, hreads, hfifo⟩ := hs.framing
  cases waiting with
  | nil => simp [serverRead, hfifo] at h
  | cons pid rest =>
      have hbytes : s.serverFifo.take requestSize = requestBytes pid := by
        rw [hfifo, List.map_cons, List.flatten_cons]
        exact List.take_left' (requestBytes_length pid)
      have hne : s.serverFifo ≠ [] := by
        intro hnil
        have hlength := congrArg List.length hbytes
        simp [hnil, requestSize] at hlength
      simp only [serverRead, if_neg hne, hbytes, requestBytes_length, ne_eq,
        not_true_eq_false, if_false, Option.some.injEq] at h
      subst h
      simp

theorem serverRead_attends {s t : State} (hs : Attends s) (ht : Inv t)
    (hpc : s.server = .read) (h : serverRead s = some t) : Attends t := by
  obtain ⟨hserver, hclients, hsent, hreads⟩ := hs.inv.serverRead_frame h
  refine ⟨ht, by simp [hserver], ?_, fun i c hc => ?_⟩
  · rw [hclients, hsent]
    exact hs.sent
  have hstage : t.stage i c.pid = s.stage i c.pid := by
    refine stage_congr (by simp [hpc, ServerPc.target])
      (by simp [hserver, ServerPc.target]) ?_
    rw [hsent, State.answered, State.answered, hserver, hpc, hreads]
    rfl
  rw [hstage]
  exact hs.clients i c (hclients ▸ hc)

theorem serverOpen_attends {s : State} (hs : Attends s)
    (ht : Inv (serverOpen s)) (hpc : s.server = .openClient) :
    Attends (serverOpen s) := by
  obtain ⟨i, c, hc, hcurrent, hreq, hsent⟩ :=
    hs.current (by rw [hpc]; rfl)
  have hanswered : s.answered = s.reads.length - 1 := by
    rw [State.answered, hpc]
  have hwaits : c.pid ∉ s.sent.take s.answered := by
    intro hmem
    obtain ⟨k, hk⟩ := List.mem_iff_getElem?.mp hmem
    have hlt := (List.getElem?_eq_some_iff.mp hk).1
    rw [List.length_take] at hlt
    rw [List.getElem?_take_of_lt (by omega)] at hk
    have hindex := (List.getElem?_inj (List.getElem?_eq_some_iff.mp hk).1
      hs.inv.roster.once).mp (hk.trans hcurrent.symm)
    omega
  have hbefore : c.Attended .before := by
    have hattended := hs.clients i c hc
    simpa [State.stage, hpc, ServerPc.target, hwaits] using hattended
  have hfind : findFifo s.clients (clientFifo (reqPid s.req)) = some i := by
    have hlinked : c.fifo.linked := by
      obtain ⟨pid, pc, fifo, resp, answer, printed, notices⟩ := c
      obtain ⟨-, hbefore⟩ := hbefore
      cases pc with
      | mkfifo | openServer | send => exact absurd rfl hsent
      | openFifo | opening =>
          obtain ⟨-, ⟨-, rfl⟩ | hlater⟩ := hbefore
          · rfl
          · simp at hlater
      | read => exact absurd rfl hbefore.2.1
      | print | returned code => cases hbefore.2.1
      | stopped => exact hbefore.elim
    have hsome : (findFifo s.clients (clientFifo (reqPid s.req))).isSome := by
      rw [findFifo, List.findIdx?_isSome, List.any_eq_true]
      exact ⟨c, List.mem_of_getElem? hc, by simp [hlinked, hreq]⟩
    obtain ⟨j, hj⟩ := Option.isSome_iff_exists.mp hsome
    obtain ⟨d, hd, hname⟩ := findFifo_some hj
    rw [hreq] at hname
    rw [hj, hs.inv.roster.index_eq hd hc (clientFifo_injective hname)]
  simp only [serverOpen, hfind] at ht ⊢
  refine hs.server_moves (i := i) ht ⟨by simp, by simp⟩ rfl rfl
    (fun d hd => ?_) fun j d hj hd => ?_
  · obtain rfl := Option.some.inj (hc.symm.trans hd)
    have hstage := hbefore.openWriter hsent
    simpa [State.stage, ServerPc.target] using hstage
  · refine stage_congr (by simp [hpc, ServerPc.target])
      (by simp [ServerPc.target, Ne.symm hj]) ?_
    rw [hanswered]
    rfl

theorem serverOpening_attends {s t : State} {i : ℕ} (hs : Attends s)
    (ht : Inv t) (hpc : s.server = .opening i)
    (h : serverOpening s i = some t) : Attends t := by
  obtain ⟨c, hc, hopen⟩ := Option.bind_eq_some_iff.mp h
  obtain ⟨hwoken, rfl⟩ := guarded_eq_some.mp hopen
  refine ⟨ht, ⟨by simp, by simp⟩, hs.sent, fun j d hd => ?_⟩
  have hattended := hs.clients j d hd
  by_cases hij : i = j
  · subst hij
    obtain rfl := Option.some.inj (hc.symm.trans hd)
    simp only [State.stage, ServerPc.target, hpc] at hattended ⊢
    exact hattended.opened hwoken
  · rwa [stage_congr (s := s) (by simp [hpc, ServerPc.target, hij])
      (by simp [ServerPc.target, hij])]
    rw [State.answered, State.answered, hpc]

theorem serverWrite_attends {s : State} {i : ℕ} (hs : Attends s)
    (ht : Inv (serverWrite s (some i))) (hpc : s.server = .write (some i)) :
    Attends (serverWrite s (some i)) := by
  obtain ⟨pid, hpid, hcurrent⟩ := hs.inv.serving.target i (by rw [hpc]; rfl)
  rw [List.getElem?_map] at hpid
  obtain ⟨c, hc, rfl⟩ := Option.map_eq_some_iff.mp hpid
  obtain ⟨-, hpos, -⟩ := hs.inv.serving.current (by rw [hpc]; rfl)
  have hattended := hs.clients i c hc
  simp only [State.stage, ServerPc.target, hpc] at hattended
  obtain ⟨hreader, hpushed⟩ := hattended.push (intBytes_length s.seqNum)
  simp only [serverWrite, hc, hreader, if_true] at ht ⊢
  refine hs.server_moves (i := i) ht ⟨by simp, by simp⟩ rfl rfl
    (fun d hd => ?_) fun j d hj hd => ?_
  · obtain rfl := Option.some.inj (hc.symm.trans hd)
    simpa [State.stage, ServerPc.target] using hpushed
  · -- the request that counts as answered now is that of `i`
    have hne : d.pid ≠ c.pid := fun hsame =>
      hj (hs.inv.roster.index_eq hd hc hsame)
    have htake : s.sent.take s.reads.length =
        s.sent.take (s.reads.length - 1) ++ [c.pid] := by
      have hsucc : s.reads.length = s.reads.length - 1 + 1 := by omega
      rw [hsucc, List.take_add_one, ← hsucc, hcurrent]
      rfl
    refine stage_congr (by simp [hpc, ServerPc.target, Ne.symm hj])
      (by simp [ServerPc.target, Ne.symm hj]) ?_
    simp [State.answered, hpc, htake, hne]

theorem serverClose_attends {s : State} {i : ℕ} (hs : Attends s)
    (ht : Inv (serverClose s (some i))) (hpc : s.server = .close (some i)) :
    Attends (serverClose s (some i)) := by
  obtain ⟨pid, hpid, hcurrent⟩ := hs.inv.serving.target i (by rw [hpc]; rfl)
  rw [List.getElem?_map] at hpid
  obtain ⟨c, hc, rfl⟩ := Option.map_eq_some_iff.mp hpid
  obtain ⟨-, hpos, -⟩ := hs.inv.serving.current (by rw [hpc]; rfl)
  have hattended := hs.clients i c hc
  simp only [State.stage, ServerPc.target, hpc] at hattended
  have hread : (serverClose s (some i)).server = .read := rfl
  refine hs.server_moves (i := i) ht (by simp [hread]) rfl rfl
    (fun d hd => ?_) fun j d hj hd => ?_
  · obtain rfl := Option.some.inj (hc.symm.trans hd)
    have hmem : c.pid ∈ s.sent.take s.reads.length := by
      rw [List.mem_iff_getElem?]
      refine ⟨s.reads.length - 1, ?_⟩
      rw [List.getElem?_take_of_lt (by omega), hcurrent]
    have hclosed := hattended.closeWriter
    simpa [State.stage, State.answered, ServerPc.target, serverClose, hmem]
      using hclosed
  · refine stage_congr (by simp [hpc, ServerPc.target, Ne.symm hj])
      (by simp [serverClose, ServerPc.target]) ?_
    rw [State.answered, State.answered, hpc]
    rfl

theorem serverNext_attends {s t : State} (hs : Attends s)
    (h : serverNext s = some t) : Attends t := by
  have ht := serverNext_inv hs.inv h
  unfold serverNext at h
  split at h
  · next hpc => exact serverRead_attends hs ht hpc h
  · next hpc =>
      cases h
      exact serverOpen_attends hs ht hpc
  · next i hpc => exact serverOpening_attends hs ht hpc h
  · next clientFd hpc =>
      cases h
      cases clientFd with
      | none => exact absurd hpc hs.opened.1
      | some i => exact serverWrite_attends hs ht hpc
  · next clientFd hpc =>
      cases h
      cases clientFd with
      | none => exact absurd hpc hs.opened.2
      | some i => exact serverClose_attends hs ht hpc

theorem next_attends {s t : State} {label : Label} (hlabel : label.Runs)
    (hs : Attends s) (h : next s label = some t) : Attends t := by
  have ht := next_inv s label t hs.inv h
  cases label with
  | stop i unlinks => exact hlabel.elim
  | server => exact serverNext_attends hs h
  | client i =>
      obtain ⟨c, hc, hmove⟩ := Option.bind_eq_some_iff.mp h
      exact clientNext_attends hs hc hmove
  | launch pid resp =>
      simp only [next] at h
      split at h
      · cases h
      · next hfresh =>
          cases h
          refine ⟨ht, hs.opened, ?_, fun i c hc => ?_⟩
          · exact forall_mem_concat hs.sent fun hsent => absurd rfl hsent
          change c.Attended (s.stage i c.pid)
          rw [List.getElem?_append] at hc
          split at hc
          case isTrue => exact hs.clients i c hc
          case isFalse hi =>
            obtain rfl := List.mem_singleton.mp (List.mem_of_getElem? hc)
            have hunsent : pid ∉ s.sent.take s.answered := fun hmem =>
              hfresh (hs.inv.roster.known pid (List.mem_of_mem_take hmem))
            have htarget : s.server.target ≠ some i := by
              intro htarget
              obtain ⟨other, hother, -⟩ := hs.inv.serving.target i htarget
              have hlt := (List.getElem?_eq_some_iff.mp hother).1
              rw [List.length_map] at hlt
              exact hi hlt
            rw [State.stage, if_neg htarget, if_neg (by simpa using hunsent)]
            exact ⟨rfl, rfl, rfl, rfl⟩

end PipeDemo

end MyFreeLib
