/-
What the sequence-number service guarantees.  The server's FIFO frames whole
requests, the name of a client's FIFO routes the response to the client alone,
and the number in it is the client's place in the order of the requests.
-/
import MyFreeLib.PipeDemo
import Mathlib.Data.List.Nodup

namespace MyFreeLib

namespace PipeDemo

/-- A digit is the character of its byte. -/
theorem ofNat_byte_of_isDigit {c : Char} (hc : c.isDigit = true) :
    Char.ofNat (UInt8.ofNat c.toNat).toNat = c := by
  have hlt : c.toNat < 256 := by
    simp only [Char.isDigit, Bool.and_eq_true, decide_eq_true_eq] at hc
    have hle : c.val.toNat ≤ 57 := UInt32.le_iff_toNat_le.mp hc.2
    have hval : c.toNat = c.val.toNat := rfl
    omega
  rw [UInt8.toNat_ofNat', Nat.mod_eq_of_lt hlt, Char.ofNat_toNat]

theorem toDigits_bytes_injective {m n : ℕ}
    (h : (Nat.toDigits 10 m).map (fun c => UInt8.ofNat c.toNat) =
      (Nat.toDigits 10 n).map fun c => UInt8.ofNat c.toNat) : m = n := by
  have hback (k : ℕ) : ((Nat.toDigits 10 k).map fun c =>
      UInt8.ofNat c.toNat).map (fun b => Char.ofNat b.toNat) =
        Nat.toDigits 10 k := by
    rw [List.map_map]
    refine (List.map_congr_left fun c hc => ?_).trans (List.map_id _)
    exact ofNat_byte_of_isDigit
      (Nat.isDigit_of_mem_toDigits (by decide) (by decide) hc)
  have hchars := congrArg (List.map fun b => Char.ofNat b.toNat) h
  rw [hback, hback] at hchars
  have hnum := congrArg (fun cs => Nat.ofDigitChars 10 cs 0) hchars
  simpa only [Nat.ofDigitChars_ten_toDigits] using hnum

theorem decimal_eq (pid : Pid) :
    decimal pid =
      (Nat.toDigits 10 pid).map fun c => UInt8.ofNat c.toNat := by
  have hnonneg : ¬ ((pid.val : Int) < 0) := by omega
  simp only [decimal, if_neg hnonneg, Int.natAbs_natCast]

theorem decimal_length (pid : Pid) : (decimal pid).length ≤ 10 := by
  rw [decimal_eq, List.length_map,
    Nat.length_toDigits_le_iff (by decide) (by decide)]
  have hlt := pid.isLt
  omega

/-- Different pids have different FIFOs. -/
theorem clientFifo_injective {p q : Pid} (h : clientFifo p = clientFifo q) :
    p = q := by
  have hfull (pid : Pid) :
      clientFifo pid = text "/tmp/seqnum_cl." ++ decimal pid := by
    apply List.take_of_length_le
    have hlength := decimal_length pid
    have htext : (text "/tmp/seqnum_cl.").length = 15 := rfl
    rw [List.length_append, htext, clientFifoNameLen]
    omega
  rw [hfull, hfull] at h
  have hdigits := List.append_cancel_left h
  rw [decimal_eq, decimal_eq] at hdigits
  exact Fin.ext (toDigits_bytes_injective hdigits)

/-- The server reads back the pid and the number that a client has written. -/
theorem requestBytes_fields {pid : Pid} {req : List Byte}
    (h : requestBytes pid <+: req) :
    reqPid req = (pid.val : Int) ∧ reqSeqLen req = 1 := by
  obtain ⟨rest, rfl⟩ := h
  have hlt := pid.isLt
  constructor
  · rw [reqPid, requestBytes, List.append_assoc]
    exact bytesInt_intBytes (by omega) (by omega) _
  · have hdrop : (requestBytes pid ++ rest).drop 4 = intBytes 1 ++ rest := by
      rw [requestBytes, List.append_assoc]
      exact List.drop_left' (intBytes_length _)
    rw [reqSeqLen, hdrop]
    exact bytesInt_intBytes (by decide) (by decide) rest

/-- The client has not sent its request yet. -/
def Client.unsent (c : Client) : Bool :=
  match c.pc with
  | .mkfifo | .openServer | .send => true
  | _ => false

/-- Every client sends at most once. -/
structure Roster (s : State) : Prop where
  pids : (s.clients.map Client.pid).Nodup
  once : s.sent.Nodup
  unsent : ∀ c ∈ s.clients, c.unsent = true → c.pid ∉ s.sent
  known : ∀ pid ∈ s.sent, pid ∈ s.clients.map Client.pid

/-- The server's FIFO holds the requests that have been sent and not read, and
every read has returned one request. -/
def Framing (s : State) : Prop :=
  ∃ handled waiting, s.sent = handled ++ waiting ∧
    s.reads = handled.map requestBytes ∧
    s.serverFifo = (waiting.map requestBytes).flatten

/-- The server's loop is between a read and the next. -/
def ServerPc.busy : ServerPc → Bool
  | .read => false
  | _ => true

/-- The FIFO that the server has opened or is opening. -/
def ServerPc.target : ServerPc → Option ℕ
  | .opening i => some i
  | .write clientFd | .close clientFd => clientFd
  | _ => none

/-- `seqNum` counts the requests read before the one in hand, and the FIFO
opened for the response is that of the client that sent it. -/
structure Serving (s : State) : Prop where
  idle : s.server.busy = false → s.seqNum = int32 s.reads.length
  busy : s.server.busy = true → ∃ earlier pid,
    s.reads = earlier ++ [requestBytes pid] ∧
    s.sent[earlier.length]? = some pid ∧ requestBytes pid <+: s.req ∧
    s.seqNum = int32 earlier.length
  target : ∀ i, s.server.target = some i → ∃ pid,
    (s.clients.map Client.pid)[i]? = some pid ∧
    s.sent[s.reads.length - 1]? = some pid

/-- How many requests have been answered, or have failed to be. -/
def State.answered (s : State) : ℕ :=
  match s.server with
  | .read | .close _ => s.reads.length
  | _ => s.reads.length - 1

/-- The bytes are the response to the client with this pid, or nothing. -/
def Answers (s : State) (pid : Pid) (bytes : List Byte) : Prop :=
  bytes = [] ∨ ∃ k < s.answered, s.sent[k]? = some pid ∧
    bytes = intBytes (int32 k)

structure Inv (s : State) : Prop where
  roster : Roster s
  framing : Framing s
  serving : Serving s
  answers : ∀ c ∈ s.clients, Answers s c.pid c.fifo.data ∧
    Answers s c.pid c.answer

theorem start_inv (req : List Byte) : Inv (start req) where
  roster := by constructor <;> simp [start]
  framing := ⟨[], [], rfl, rfl, rfl⟩
  serving := by
    constructor <;> simp [start, ServerPc.busy, ServerPc.target]
    rfl
  answers := by simp [start]

theorem Answers.mono {s t : State} {pid : Pid} {bytes : List Byte}
    (h : Answers s pid bytes) (hanswered : s.answered ≤ t.answered)
    (hsent : s.sent <+: t.sent) : Answers t pid bytes := by
  rcases h with hnil | ⟨k, hk, hpid, hbytes⟩
  · exact Or.inl hnil
  · right
    exact ⟨k, hk.trans_le hanswered, getElem?_of_front hsent hpid, hbytes⟩

/-- What the invariant says about a client. -/
def Client.view (c : Client) : Pid × Bool × List Byte × List Byte :=
  (c.pid, c.unsent, c.fifo.data, c.answer)

theorem getElem?_of_view {clients clients' : List Client}
    (h : clients'.map Client.view = clients.map Client.view) {i : ℕ}
    {c : Client} (hc : clients'[i]? = some c) :
    ∃ c', clients[i]? = some c' ∧ c'.view = c.view := by
  have hview := congrArg (fun views => views[i]?) h
  simp only [List.getElem?_map, hc, Option.map_some] at hview
  exact Option.map_eq_some_iff.mp hview.symm

/-- The clients look the same: only ends of FIFOs have changed. -/
def SameView (s t : State) : Prop :=
  t.clients.map Client.view = s.clients.map Client.view

theorem SameView.mem {s t : State} (h : SameView s t) {c : Client}
    (hc : c ∈ t.clients) : ∃ c' ∈ s.clients, c'.view = c.view := by
  obtain ⟨i, hi⟩ := List.mem_iff_getElem?.mp hc
  obtain ⟨c', hc', hview⟩ := getElem?_of_view h hi
  exact ⟨c', List.mem_of_getElem? hc', hview⟩

theorem SameView.pids {s t : State} (h : SameView s t) :
    t.clients.map Client.pid = s.clients.map Client.pid := by
  have hview := congrArg (List.map Prod.fst) h
  rw [List.map_map, List.map_map] at hview
  exact hview

theorem setFifo_pids (clients : List Client) (i : ℕ)
    (change : Fifo → Fifo) :
    (setFifo clients i change).map Client.pid = clients.map Client.pid :=
  map_modify_eq _ _ fun _ => rfl

theorem setFifo_view (clients : List Client) (i : ℕ) (change : Fifo → Fifo)
    (hdata : ∀ f, (change f).data = f.data) :
    (setFifo clients i change).map Client.view =
      clients.map Client.view := by
  apply map_modify_eq
  intro c
  simp only [Client.view, Client.unsent, hdata]

theorem SameView.unsent {s t : State} (h : SameView s t) (hs : Roster s) :
    ∀ c ∈ t.clients, c.unsent = true → c.pid ∉ s.sent := by
  intro c hc hunsent
  obtain ⟨c', hc', hsame⟩ := h.mem hc
  simp only [Client.view, Prod.mk.injEq] at hsame
  rw [← hsame.1]
  exact hs.unsent c' hc' (hsame.2.1.trans hunsent)

theorem Roster.congr {s t : State} (hs : Roster s) (hsent : t.sent = s.sent)
    (hpids : t.clients.map Client.pid = s.clients.map Client.pid)
    (hunsent : ∀ c ∈ t.clients, c.unsent = true → c.pid ∉ s.sent) :
    Roster t :=
  ⟨hpids ▸ hs.pids, hsent ▸ hs.once, hsent ▸ hunsent,
    by rw [hsent, hpids]; exact hs.known⟩

/-- Only one client has the pid. -/
theorem Roster.index_eq {s : State} (hs : Roster s) {i j : ℕ}
    {c x : Client} (hx : s.clients[j]? = some x)
    (hc : s.clients[i]? = some c) (hpid : x.pid = c.pid) : j = i :=
  index_eq_of_nodup hs.pids hx hc hpid

theorem serverRead_inv {s t : State} (hs : Inv s) (hpc : s.server = .read)
    (h : serverRead s = some t) : Inv t := by
  obtain ⟨handled, waiting, hsent, hreads, hfifo⟩ := hs.framing
  cases waiting with
  | nil => simp [serverRead, hfifo] at h
  | cons pid rest =>
      have hbytes : s.serverFifo.take requestSize = requestBytes pid := by
        rw [hfifo, List.map_cons, List.flatten_cons]
        exact List.take_left' (requestBytes_length pid)
      have hrest : s.serverFifo.drop requestSize =
          (rest.map requestBytes).flatten := by
        rw [hfifo, List.map_cons, List.flatten_cons]
        exact List.drop_left' (requestBytes_length pid)
      have hne : s.serverFifo ≠ [] := by
        intro hnil
        have hlength := congrArg List.length hbytes
        simp [hnil, requestSize] at hlength
      simp only [serverRead, if_neg hne, hbytes, hrest, requestBytes_length,
        ne_eq, not_true_eq_false, if_false, Option.some.injEq] at h
      have hcount : s.reads.length = handled.length := by
        rw [hreads, List.length_map]
      subst h
      refine ⟨hs.roster.congr rfl rfl hs.roster.unsent, ?_, ?_, ?_⟩
      · refine ⟨handled ++ [pid], rest, ?_, ?_, rfl⟩
        · simp [hsent]
        · simp [hreads]
      · refine ⟨by simp [ServerPc.busy], ?_, by simp [ServerPc.target]⟩
        intro _
        refine ⟨s.reads, pid, rfl, ?_, List.prefix_append _ _, ?_⟩
        · simp [hsent, hcount]
        · exact hs.serving.idle (by rw [hpc]; rfl)
      · intro c hc
        have hanswers := hs.answers c hc
        have hle : s.answered ≤ (s.reads ++ [requestBytes pid]).length - 1 := by
          simp [State.answered, hpc]
        exact ⟨hanswers.1.mono hle List.prefix_rfl,
          hanswers.2.mono hle List.prefix_rfl⟩

theorem findFifo_some {clients : List Client} {name : List Byte} {i : ℕ}
    (h : findFifo clients name = some i) :
    ∃ c, clients[i]? = some c ∧ clientFifo c.pid = name := by
  obtain ⟨hlt, hname, -⟩ := List.findIdx?_eq_some_iff_getElem.mp h
  simp only [Bool.and_eq_true, beq_iff_eq] at hname
  exact ⟨clients[i], List.getElem?_eq_getElem hlt, hname.2⟩

/-- A step of the server that moves no byte. -/
theorem Inv.server_moves {s t : State} (hs : Inv s) (hview : SameView s t)
    (hsent : t.sent = s.sent) (hreads : t.reads = s.reads)
    (hfifo : t.serverFifo = s.serverFifo) (hserving : Serving t)
    (hanswered : s.answered ≤ t.answered) : Inv t := by
  refine ⟨hs.roster.congr hsent hview.pids (hview.unsent hs.roster), ?_,
    hserving, ?_⟩
  · obtain ⟨handled, waiting, hold⟩ := hs.framing
    rw [← hsent, ← hreads, ← hfifo] at hold
    exact ⟨handled, waiting, hold⟩
  · intro c hc
    obtain ⟨c', hc', hsame⟩ := hview.mem hc
    simp only [Client.view, Prod.mk.injEq] at hsame
    obtain ⟨hpid, -, hdata, hanswer⟩ := hsame
    have hold := hs.answers c' hc'
    rw [hpid, hdata, hanswer] at hold
    have hprefix : s.sent <+: t.sent := hsent ▸ List.prefix_rfl
    exact ⟨hold.1.mono hanswered hprefix, hold.2.mono hanswered hprefix⟩

/-- The request in hand is the last one read. -/
theorem Serving.current {s : State} (hs : Serving s)
    (hbusy : s.server.busy = true) : ∃ pid, 0 < s.reads.length ∧
      s.sent[s.reads.length - 1]? = some pid ∧ reqPid s.req = (pid.val : Int) ∧
      reqSeqLen s.req = 1 ∧ s.seqNum = int32 (s.reads.length - 1 : ℕ) := by
  obtain ⟨earlier, pid, hreads, hpid, hreq, hnum⟩ := hs.busy hbusy
  have hlength : s.reads.length = earlier.length + 1 := by simp [hreads]
  obtain ⟨hfield, hone⟩ := requestBytes_fields hreq
  rw [hlength, Nat.add_sub_cancel]
  exact ⟨pid, Nat.succ_pos _, hpid, hfield, hone, hnum⟩

theorem serverOpen_inv {s : State} (hs : Inv s)
    (hpc : s.server = .openClient) : Inv (serverOpen s) := by
  have hbusy : s.server.busy = true := by rw [hpc]; rfl
  obtain ⟨pid, -, hpid, hreq, -⟩ := hs.serving.current hbusy
  have hcurrent := hs.serving.busy hbusy
  have hanswered : s.answered = s.reads.length - 1 := by
    rw [State.answered, hpc]
  cases hfind : findFifo s.clients (clientFifo (reqPid s.req)) with
  | none =>
      simp only [serverOpen, hfind]
      refine hs.server_moves rfl rfl rfl rfl ?_ hanswered.le
      exact ⟨by simp [ServerPc.busy], fun _ => hcurrent,
        by simp [ServerPc.target]⟩
  | some i =>
      simp only [serverOpen, hfind]
      have hview := setFifo_view s.clients i Fifo.openWriter fun _ => rfl
      refine hs.server_moves hview rfl rfl rfl ?_ hanswered.le
      refine ⟨by simp [ServerPc.busy], fun _ => hcurrent, ?_⟩
      intro j hj
      cases hj
      obtain ⟨c, hc, hname⟩ := findFifo_some hfind
      rw [hreq] at hname
      refine ⟨pid, ?_, hpid⟩
      rw [setFifo_pids, List.getElem?_map, hc, Option.map_some,
        clientFifo_injective hname]

theorem serverOpening_inv {s t : State} {i : ℕ} (hs : Inv s)
    (hpc : s.server = .opening i) (h : serverOpening s i = some t) :
    Inv t := by
  have hcurrent := hs.serving.busy (by rw [hpc]; rfl)
  have hanswered : s.answered = s.reads.length - 1 := by
    rw [State.answered, hpc]
  obtain ⟨c, -, hopen⟩ := Option.bind_eq_some_iff.mp h
  obtain ⟨-, rfl⟩ := guarded_eq_some.mp hopen
  refine hs.server_moves rfl rfl rfl rfl ?_ hanswered.le
  refine ⟨by simp [ServerPc.busy], fun _ => hcurrent, ?_⟩
  intro j hj
  cases hj
  exact hs.serving.target i (by rw [hpc]; rfl)

/-- A response that is not written leaves the FIFOs alone. -/
theorem serverWrite_fails {s t : State} {clientFd : Option ℕ} (hs : Inv s)
    (hpc : s.server = .write clientFd)
    (ht : t = { s.notice (text "response client failed.\n") with
      server := .close clientFd }) : Inv t := by
  have hcurrent := hs.serving.busy (by rw [hpc]; rfl)
  have hanswered : s.answered ≤ s.reads.length := by
    rw [State.answered, hpc]
    exact Nat.sub_le _ _
  subst ht
  refine hs.server_moves rfl rfl rfl rfl ?_ hanswered
  refine ⟨by simp [ServerPc.busy], fun _ => hcurrent, ?_⟩
  intro j hj
  cases hj
  exact hs.serving.target j (by rw [hpc]; rfl)

/-- The FIFO of the client in hand is empty: each client has one request. -/
theorem Inv.unanswered {s : State} (hs : Inv s) {pid : Pid}
    (hanswered : s.answered = s.reads.length - 1)
    (hpid : s.sent[s.reads.length - 1]? = some pid) {bytes : List Byte}
    (h : Answers s pid bytes) : bytes = [] := by
  rcases h with hnil | ⟨k, hk, hpid', -⟩
  · exact hnil
  · obtain ⟨hlt, heq⟩ := List.getElem?_eq_some_iff.mp hpid
    obtain ⟨hlt', heq'⟩ := List.getElem?_eq_some_iff.mp hpid'
    have hsame := (List.Nodup.getElem_inj_iff hs.roster.once).mp
      (heq'.trans heq.symm)
    omega

/-- The response goes into the FIFO of the client that sent the request. -/
theorem push_inv {s : State} {i : ℕ} (hs : Inv s)
    (hpc : s.server = .write (some i)) :
    Inv { s with
      clients := setFifo s.clients i (Fifo.push (intBytes s.seqNum))
      server := .close (some i) } := by
  have hbusy : s.server.busy = true := by rw [hpc]; rfl
  obtain ⟨pid, hpos, hpid, -, -, hnum⟩ := hs.serving.current hbusy
  have hanswered : s.answered = s.reads.length - 1 := by
    rw [State.answered, hpc]
  have htarget (c : Client) (hc : s.clients[i]? = some c) :
      s.sent[s.reads.length - 1]? = some c.pid := by
    obtain ⟨pid', hpid', hlast⟩ := hs.serving.target i (by rw [hpc]; rfl)
    rw [List.getElem?_map, hc, Option.map_some, Option.some.injEq] at hpid'
    rw [hpid']
    exact hlast
  refine ⟨hs.roster.congr rfl (setFifo_pids _ _ _) ?_, hs.framing,
    ⟨by simp [ServerPc.busy], fun _ => hs.serving.busy hbusy, ?_⟩, ?_⟩
  · exact forall_mem_modify hs.roster.unsent
      fun c hc => hs.roster.unsent c (List.mem_of_getElem? hc)
  · intro j hj
    cases hj
    rw [setFifo_pids]
    exact hs.serving.target i (by rw [hpc]; rfl)
  · have hmono (c : Client) (hc : c ∈ s.clients) :=
      And.intro
        ((hs.answers c hc).1.mono (t := { s with server := .close (some i) })
          (by rw [hanswered]; exact Nat.sub_le _ _) List.prefix_rfl)
        ((hs.answers c hc).2.mono (t := { s with server := .close (some i) })
          (by rw [hanswered]; exact Nat.sub_le _ _) List.prefix_rfl)
    refine forall_mem_modify hmono fun c hc => ?_
    have hmem := List.mem_of_getElem? hc
    have hempty : c.fifo.data = [] :=
      hs.unanswered hanswered (htarget c hc) (hs.answers c hmem).1
    refine ⟨Or.inr ⟨s.reads.length - 1, ?_, htarget c hc, ?_⟩,
      (hmono c hmem).2⟩
    · change s.reads.length - 1 < s.reads.length
      omega
    · simp only [Fifo.push, hempty, List.nil_append, hnum]

theorem serverWrite_inv {s : State} {clientFd : Option ℕ} (hs : Inv s)
    (hpc : s.server = .write clientFd) : Inv (serverWrite s clientFd) := by
  cases clientFd with
  | none => exact serverWrite_fails hs hpc rfl
  | some i =>
      cases hc : s.clients[i]? with
      | none =>
          simp only [serverWrite, hc]
          exact serverWrite_fails hs hpc rfl
      | some c =>
          simp only [serverWrite, hc]
          split
          · exact push_inv hs hpc
          · exact serverWrite_fails hs hpc rfl

theorem serverClose_inv {s : State} {clientFd : Option ℕ} (hs : Inv s)
    (hpc : s.server = .close clientFd) : Inv (serverClose s clientFd) := by
  obtain ⟨pid, hpos, hpid, -, hone, hnum⟩ :=
    hs.serving.current (by rw [hpc]; rfl)
  have hanswered : s.answered = s.reads.length := by
    rw [State.answered, hpc]
  have hnext : int32 (s.seqNum + reqSeqLen s.req) =
      int32 (s.reads.length : ℕ) := by
    rw [hnum, hone, int32_add]
    congr 1
    omega
  cases clientFd with
  | none =>
      refine hs.server_moves rfl rfl rfl rfl ?_ hanswered.le
      exact ⟨fun _ => hnext, by simp [serverClose, ServerPc.busy, State.notice],
        by simp [serverClose, ServerPc.target, State.notice]⟩
  | some i =>
      refine hs.server_moves
        (setFifo_view s.clients i Fifo.closeWriter fun _ => rfl)
        rfl rfl rfl ?_ hanswered.le
      exact ⟨fun _ => hnext, by simp [serverClose, ServerPc.busy],
        by simp [serverClose, ServerPc.target]⟩

theorem serverNext_inv {s t : State} (hs : Inv s)
    (h : serverNext s = some t) : Inv t := by
  unfold serverNext at h
  split at h
  · next hpc => exact serverRead_inv hs hpc h
  · next hpc =>
      cases h
      exact serverOpen_inv hs hpc
  · next i hpc => exact serverOpening_inv hs hpc h
  · next clientFd hpc =>
      cases h
      exact serverWrite_inv hs hpc
  · next clientFd hpc =>
      cases h
      exact serverClose_inv hs hpc

/-- Later requests and new clients are nothing to the request in hand. -/
theorem Serving.mono {s t : State} (hs : Serving s)
    (hserver : t.server = s.server) (hreq : t.req = s.req)
    (hseqNum : t.seqNum = s.seqNum) (hreads : t.reads = s.reads)
    (hsent : s.sent <+: t.sent)
    (hpids : s.clients.map Client.pid <+: t.clients.map Client.pid) :
    Serving t := by
  constructor
  · rw [hserver, hseqNum, hreads]
    exact hs.idle
  · rw [hserver, hseqNum, hreads, hreq]
    intro hbusy
    obtain ⟨earlier, pid, hread, hpid, hprefix, hnum⟩ := hs.busy hbusy
    exact ⟨earlier, pid, hread, getElem?_of_front hsent hpid, hprefix, hnum⟩
  · rw [hserver, hreads]
    intro j hj
    obtain ⟨pid, hpid, hlast⟩ := hs.target j hj
    exact ⟨pid, getElem?_of_front hpids hpid, getElem?_of_front hsent hlast⟩

/-- A client moves that keeps its pid and what it has been answered. -/
theorem Inv.client_moves {s : State} {i : ℕ} {c c' : Client} (hs : Inv s)
    (hc : s.clients[i]? = some c) (hpid : c'.pid = c.pid)
    (hunsent : c'.unsent = true → c.unsent = true)
    (hanswers : Answers s c.pid c'.fifo.data ∧ Answers s c.pid c'.answer) :
    Inv { s with clients := s.clients.set i c' } := by
  have hmem := List.mem_of_getElem? hc
  have hpids := map_set_eq hc hpid
  refine ⟨hs.roster.congr rfl hpids ?_, hs.framing,
    hs.serving.mono rfl rfl rfl rfl List.prefix_rfl (hpids ▸ List.prefix_rfl),
    ?_⟩
  · refine forall_mem_set hs.roster.unsent fun h => ?_
    rw [hpid]
    exact hs.roster.unsent c hmem (hunsent h)
  · refine forall_mem_set hs.answers ?_
    rw [hpid]
    exact hanswers

/-- `read` takes a whole response or nothing. -/
theorem Answers.take_drop {s : State} {pid : Pid} {bytes : List Byte}
    (h : Answers s pid bytes) :
    bytes.take responseSize = bytes ∧ bytes.drop responseSize = [] := by
  rcases h with rfl | ⟨k, -, -, rfl⟩
  · exact ⟨rfl, rfl⟩
  · exact ⟨List.take_of_length_le (intBytes_length _).le,
      List.drop_of_length_le (intBytes_length _).le⟩

theorem clientReceives_inv {s : State} {i : ℕ} {c c' : Client} (hs : Inv s)
    (hc : s.clients[i]? = some c) (h : clientReceives c = some c') :
    Inv { s with clients := s.clients.set i c' } := by
  have hanswers := hs.answers c (List.mem_of_getElem? hc)
  unfold clientReceives at h
  split at h
  · cases h
    exact hs.client_moves hc rfl (by simp [Client.unsent]) hanswers
  · obtain ⟨-, rfl⟩ := guarded_eq_some.mp h
    exact hs.client_moves hc rfl (by simp [Client.unsent]) hanswers
  · obtain ⟨htake, hdrop⟩ := hanswers.1.take_drop
    simp only [clientRead, htake, hdrop] at h
    split at h
    · cases h
    · split at h
      all_goals
        cases h
        exact hs.client_moves hc rfl (by simp [Client.unsent])
          ⟨Or.inl rfl, hanswers.1⟩
  · cases h
    exact hs.client_moves hc rfl (by simp [Client.unsent]) hanswers
  · cases h

/-- A client that has not sent yet does so. -/
theorem Roster.send {s t : State} {i : ℕ} {c : Client} (hs : Roster s)
    (hc : s.clients[i]? = some c) (hpc : c.pc = .send)
    (hsent : t.sent = s.sent ++ [c.pid])
    (hclients : t.clients = s.clients.set i { c with pc := .openFifo }) :
    Roster t := by
  have hmem := List.mem_of_getElem? hc
  have hnew : c.pid ∉ s.sent := hs.unsent c hmem (by simp [Client.unsent, hpc])
  have hpids : t.clients.map Client.pid = s.clients.map Client.pid := by
    rw [hclients]
    exact map_set_eq hc rfl
  constructor
  · rw [hpids]
    exact hs.pids
  · rw [hsent, ← List.concat_eq_append]
    exact hs.once.concat hnew
  · rw [hclients, hsent]
    intro x hx hunsent
    obtain ⟨j, hj⟩ := List.mem_iff_getElem?.mp hx
    rcases getElem?_set_cases hj with ⟨rfl, -⟩ | ⟨hne, hx⟩
    · simp [Client.unsent] at hunsent
    · rw [List.mem_append, not_or, List.mem_singleton]
      refine ⟨hs.unsent x (List.mem_of_getElem? hx) hunsent, ?_⟩
      intro hpid
      exact hne (hs.index_eq hx hc hpid)
  · rw [hpids, hsent]
    intro pid hpid
    rcases List.mem_append.mp hpid with hold | hlast
    · exact hs.known pid hold
    · rw [List.mem_singleton.mp hlast]
      exact List.mem_map_of_mem hmem

/-- The client puts its request behind those that wait. -/
theorem send_inv {s : State} {i : ℕ} {c : Client} (hs : Inv s)
    (hc : s.clients[i]? = some c) (hpc : c.pc = .send) :
    Inv { s with
      serverFifo := s.serverFifo ++ requestBytes c.pid
      sent := s.sent ++ [c.pid]
      clients := s.clients.set i { c with pc := .openFifo } } := by
  have hprefix : s.sent <+: s.sent ++ [c.pid] := List.prefix_append _ _
  have hpids : (s.clients.set i { c with pc := .openFifo }).map Client.pid =
      s.clients.map Client.pid := map_set_eq hc rfl
  obtain ⟨handled, waiting, hsent, hreads, hfifo⟩ := hs.framing
  refine ⟨hs.roster.send hc hpc rfl rfl,
    ⟨handled, waiting ++ [c.pid], ?_, hreads, ?_⟩,
    hs.serving.mono rfl rfl rfl rfl hprefix (hpids ▸ List.prefix_rfl), ?_⟩
  · simp [hsent]
  · simp [hfifo]
  · have hmono (x : Client) (hx : x ∈ s.clients) :=
      And.intro
        ((hs.answers x hx).1.mono (t := { s with sent := s.sent ++ [c.pid] })
          le_rfl hprefix)
        ((hs.answers x hx).2.mono (t := { s with sent := s.sent ++ [c.pid] })
          le_rfl hprefix)
    exact forall_mem_set hmono (hmono c (List.mem_of_getElem? hc))

theorem clientNext_inv {s t : State} {i : ℕ} {c : Client} (hs : Inv s)
    (hc : s.clients[i]? = some c) (h : clientNext s i c = some t) :
    Inv t := by
  have hanswers := hs.answers c (List.mem_of_getElem? hc)
  unfold clientNext at h
  split at h
  · next hpc =>
      cases h
      unfold clientMkfifo
      split
      · exact hs.client_moves hc rfl (by simp [Client.unsent]) hanswers
      · exact hs.client_moves hc rfl (by simp [Client.unsent, hpc]) hanswers
  · next hpc =>
      cases h
      exact hs.client_moves hc rfl (by simp [Client.unsent, hpc]) hanswers
  · next hpc =>
      cases h
      exact send_inv hs hc hpc
  · obtain ⟨c', hc', rfl⟩ := Option.map_eq_some_iff.mp h
    exact clientReceives_inv hs hc hc'

/-- A new client has a pid of its own and has sent nothing. -/
theorem launch_inv {s : State} {pid : Pid} (hs : Inv s)
    (hfresh : pid ∉ s.clients.map Client.pid) (resp : List Byte) :
    Inv { s with clients := s.clients ++ [⟨pid, .mkfifo,
      ⟨false, false, false, false, false, []⟩, resp, [], [], []⟩] } := by
  have hunsent : pid ∉ s.sent := fun hsent => hfresh (hs.roster.known pid hsent)
  refine ⟨⟨?_, hs.roster.once, ?_, ?_⟩, hs.framing,
    hs.serving.mono rfl rfl rfl rfl List.prefix_rfl ?_, ?_⟩
  · rw [List.map_append, List.map_singleton, ← List.concat_eq_append]
    exact hs.roster.pids.concat hfresh
  · exact forall_mem_concat hs.roster.unsent fun _ => hunsent
  · intro pid' hpid'
    rw [List.map_append]
    exact List.mem_append_left _ (hs.roster.known pid' hpid')
  · rw [List.map_append]
    exact List.prefix_append _ _
  · exact forall_mem_concat hs.answers ⟨Or.inl rfl, Or.inl rfl⟩

theorem next_inv (s : State) (label : Label) (t : State) (hs : Inv s)
    (h : next s label = some t) : Inv t := by
  cases label with
  | launch pid resp =>
      simp only [next] at h
      split at h
      · cases h
      · next hfresh =>
          cases h
          exact launch_inv hs hfresh resp
  | server => exact serverNext_inv hs h
  | client i =>
      obtain ⟨c, hc, hmove⟩ := Option.bind_eq_some_iff.mp h
      exact clientNext_inv hs hc hmove
  | stop i unlinks =>
      obtain ⟨c, hc, hstop⟩ := Option.bind_eq_some_iff.mp h
      obtain ⟨c', hc', rfl⟩ := Option.map_eq_some_iff.mp hstop
      have hanswers := hs.answers c (List.mem_of_getElem? hc)
      unfold clientStop at hc'
      split at hc'
      · cases hc'
      · cases hc'
      · cases hc'
        exact hs.client_moves hc rfl (by simp [Client.unsent]) hanswers

/-- Below 2^31 requests a response is the number itself. -/
theorem Answers.number {s : State} {pid : Pid} {bytes : List Byte}
    (hcount : s.sent.length < 2 ^ 31) (h : Answers s pid bytes) :
    bytes = [] ∨ ∃ k < s.answered, s.sent[k]? = some pid ∧
      bytes = intBytes k := by
  rcases h with hnil | ⟨k, hk, hpid, hbytes⟩
  · exact Or.inl hnil
  · have hlt := (List.getElem?_eq_some_iff.mp hpid).1
    rw [int32_of_lt (by omega)] at hbytes
    exact Or.inr ⟨k, hk, hpid, hbytes⟩

theorem answered_le (s : State) : s.answered ≤ s.reads.length := by
  unfold State.answered
  split <;> omega

/-- A full answer is the number of requests that the server has read before
the client's own. -/
theorem Inv.received {s : State} {c : Client} (hs : Inv s)
    (hcount : s.sent.length < 2 ^ 31) (hc : c ∈ s.clients)
    (hfull : c.answer.length = responseSize) :
    ∃ k < s.reads.length, s.sent[k]? = some c.pid ∧ bytesInt c.answer = k := by
  rcases (hs.answers c hc).2.number hcount with hnil | ⟨k, hk, hpid, hbytes⟩
  · rw [hnil] at hfull
    cases hfull
  · have hlt := (List.getElem?_eq_some_iff.mp hpid).1
    have hle := answered_le s
    refine ⟨k, by omega, hpid, ?_⟩
    rw [hbytes, ← List.append_nil (intBytes k)]
    exact bytesInt_intBytes (by omega) (by omega) []

/-- For any clients of different pids and every schedule of the single calls,
with clients stopping anywhere: the server's FIFO holds whole requests, every
read has returned one request as it was written, a response goes only to the
client that has sent the request, a client that reads a full response gets the
number of requests read before its own, and no two clients get the same. -/
theorem sequence_correct {req : List Byte} {labels : List Label} {s : State}
    (hrun : exec next (start req) labels = some s)
    (hcount : s.sent.length < 2 ^ 31) :
    (∃ waiting : List Pid,
      s.serverFifo = (waiting.map requestBytes).flatten ∧
      s.reads ++ waiting.map requestBytes = s.sent.map requestBytes) ∧
    (∀ c ∈ s.clients, c.fifo.data = [] ∨
      ∃ k : ℕ, s.sent[k]? = some c.pid ∧ c.fifo.data = intBytes k) ∧
    (∀ c ∈ s.clients, c.answer.length = responseSize →
      ∃ k < s.reads.length, s.sent[k]? = some c.pid ∧
        bytesInt c.answer = k) ∧
    (∀ (i j : ℕ) (c d : Client), s.clients[i]? = some c →
      s.clients[j]? = some d → i ≠ j →
      c.answer.length = responseSize → d.answer.length = responseSize →
      bytesInt c.answer ≠ bytesInt d.answer) := by
  have hs : Inv s := exec_invariant next_inv (start_inv req) hrun
  refine ⟨?_, ?_, fun c hc hfull => hs.received hcount hc hfull, ?_⟩
  · obtain ⟨handled, waiting, hsent, hreads, hfifo⟩ := hs.framing
    exact ⟨waiting, hfifo, by rw [hsent, hreads, List.map_append]⟩
  · intro c hc
    rcases (hs.answers c hc).1.number hcount with hnil | ⟨k, -, hpid, hbytes⟩
    · exact Or.inl hnil
    · exact Or.inr ⟨k, hpid, hbytes⟩
  · intro i j c d hc hd hij hfullc hfulld hsame
    obtain ⟨k, -, hk, hnumc⟩ :=
      hs.received hcount (List.mem_of_getElem? hc) hfullc
    obtain ⟨l, -, hl, hnumd⟩ :=
      hs.received hcount (List.mem_of_getElem? hd) hfulld
    have hkl : k = l := by omega
    rw [hkl, hl, Option.some.injEq] at hk
    exact hij (hs.roster.index_eq hc hd hk.symm)

/-- Two clients; the second sends first. -/
def twoClients : List Label :=
  [.launch 7 [], .launch 12 [], .client 0, .client 0, .client 1, .client 1,
    .client 1, .client 0, .server, .server, .client 1, .server, .server,
    .server, .client 1, .client 1, .server, .client 0, .server, .server,
    .server, .server, .client 0, .client 0]

theorem sequence_correct_twoClients :
    ∃ s, exec next (start []) twoClients = some s ∧
      s.clients.map (fun c => bytesInt c.answer) = [1, 0] ∧
      ∀ c ∈ s.clients, c.answer.length = responseSize →
        ∃ k < s.reads.length, s.sent[k]? = some c.pid ∧
          bytesInt c.answer = k := by
  have hrun : exec next (start []) twoClients = some _ := rfl
  exact ⟨_, hrun, rfl, (sequence_correct hrun (by decide)).2.2.1⟩

end PipeDemo

end MyFreeLib
