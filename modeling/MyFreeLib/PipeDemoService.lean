/-
Where no client is stopped the sequence-number service serves everyone, and
nobody waits for ever.
-/
import MyFreeLib.PipeDemoStage

namespace MyFreeLib

namespace PipeDemo

/-- The server or a client makes its next call. -/
def Label.IsStep : Label → Prop
  | .server | .client _ => True
  | _ => False

theorem Label.IsStep.runs {label : Label} (h : label.IsStep) : label.Runs := by
  cases label with
  | stop i unlinks => exact h
  | _ => trivial

def Client.Served (c : Client) : Prop := c.pc = .returned 0

/-- The calls that a client has to make, and the server for it before it has
sent its request. -/
def Client.work (c : Client) : ℕ :=
  match c.pc with
  | .mkfifo => 12
  | .openServer => 11
  | .send => 10
  | .openFifo => 4
  | .opening => 3
  | .read => 2
  | .print => 1
  | .returned _ | .stopped => 0

def ServerPc.work : ServerPc → ℕ
  | .read => 0
  | .openClient => 4
  | .opening _ => 3
  | .write _ => 2
  | .close _ => 1

def State.work (s : State) : ℕ :=
  (s.clients.map Client.work).sum +
    5 * (s.sent.length - s.reads.length) + s.server.work

theorem Inv.reads_le_sent {s : State} (hs : Inv s) :
    s.reads.length ≤ s.sent.length := by
  obtain ⟨handled, waiting, hsent, hreads, -⟩ := hs.framing
  rw [hsent, hreads, List.length_append, List.length_map]
  omega

theorem clientReceives_work {c c' : Client} (h : clientReceives c = some c') :
    c'.work < c.work := by
  obtain ⟨pid, pc, fifo, resp, answer, printed, notices⟩ := c
  cases pc with
  | mkfifo | openServer | send | returned code | stopped => cases h
  | openFifo | print =>
      cases h
      exact Nat.lt_succ_self _
  | opening =>
      obtain ⟨-, rfl⟩ := guarded_eq_some.mp h
      exact Nat.lt_succ_self _
  | read =>
      simp only [clientReceives, clientRead] at h
      split at h
      · cases h
      · split at h <;> cases h <;> exact Nat.lt_succ_self _

theorem clientNext_work {s t : State} {i : ℕ} {c : Client} (hs : Inv s)
    (hc : s.clients[i]? = some c) (h : clientNext s i c = some t) :
    t.work < s.work := by
  have hsum (c' : Client) := sum_map_set Client.work hc c'
  have hreads := hs.reads_le_sent
  unfold clientNext at h
  split at h
  · next hpc =>
      cases h
      have hwork : (clientMkfifo s c).work < c.work := by
        unfold clientMkfifo
        split <;> simp [Client.work, hpc]
      have hsum := hsum (clientMkfifo s c)
      simp only [State.work]
      omega
  · next hpc =>
      cases h
      have hsum := hsum { c with pc := .send }
      simp only [Client.work, hpc] at hsum
      simp only [State.work, Client.work] at *
      omega
  · next hpc =>
      cases h
      have hsum := hsum { c with pc := .openFifo }
      simp only [Client.work, hpc] at hsum
      simp only [State.work, Client.work, List.length_append,
        List.length_singleton] at *
      omega
  · obtain ⟨c', hc', rfl⟩ := Option.map_eq_some_iff.mp h
    have hsum := hsum c'
    have hwork := clientReceives_work hc'
    simp only [State.work]
    omega

theorem setFifo_work (clients : List Client) (i : ℕ) (change : Fifo → Fifo) :
    (setFifo clients i change).map Client.work = clients.map Client.work :=
  map_modify_eq _ _ fun _ => rfl

theorem serverNext_work {s t : State} (hs : Inv s)
    (h : serverNext s = some t) : t.work < s.work := by
  have ht := serverNext_inv hs h
  unfold serverNext at h
  split at h
  · next hpc =>
      obtain ⟨hserver, hclients, hsent, hreads⟩ := hs.serverRead_frame h
      have hle := ht.reads_le_sent
      rw [State.work, State.work, hserver, hclients, hsent, hreads, hpc]
      simp only [ServerPc.work]
      rw [hsent, hreads] at hle
      omega
  · next hpc =>
      cases h
      unfold serverOpen
      simp only
      split <;> simp [State.work, State.notice, ServerPc.work, hpc,
        setFifo_work]
  · next i hpc =>
      obtain ⟨c, -, hopen⟩ := Option.bind_eq_some_iff.mp h
      obtain ⟨-, rfl⟩ := guarded_eq_some.mp hopen
      simp [State.work, ServerPc.work, hpc]
  · next clientFd hpc =>
      cases h
      unfold serverWrite
      simp only
      split
      · simp [State.work, State.notice, ServerPc.work, hpc]
      · split
        · simp [State.work, State.notice, ServerPc.work, hpc]
        · split <;> simp [State.work, State.notice, ServerPc.work, hpc,
            setFifo_work]
  · next clientFd hpc =>
      cases h
      unfold serverClose
      simp only
      split <;> simp [State.work, State.notice, ServerPc.work, hpc,
        setFifo_work]

theorem step_work {s t : State} {label : Label} (hlabel : label.IsStep)
    (hs : Inv s) (h : next s label = some t) : t.work < s.work := by
  cases label with
  | stop i unlinks | launch pid resp => exact hlabel.elim
  | server => exact serverNext_work hs h
  | client i =>
      obtain ⟨c, hc, hmove⟩ := Option.bind_eq_some_iff.mp h
      exact clientNext_work hs hc hmove

/-- The next call of a client that has not sent its request. -/
theorem clientNext_isSome_of_unsent {s : State} {i : ℕ} {c : Client}
    (h : c.unsent) : (clientNext s i c).isSome := by
  obtain ⟨pid, pc, fifo, resp, answer, printed, notices⟩ := c
  cases pc with
  | mkfifo | openServer | send => rfl
  | _ => cases h

theorem clientNext_isSome {s : State} {i : ℕ} {c : Client}
    (hsent : ¬ c.unsent) (h : (clientReceives c).isSome) :
    (clientNext s i c).isSome := by
  obtain ⟨pid, pc, fifo, resp, answer, printed, notices⟩ := c
  cases pc with
  | mkfifo | openServer | send => exact absurd rfl hsent
  | _ => simpa [clientNext] using h

/-- The server's open returns once the client has opened its end. -/
theorem Client.Attended.woken {c : Client} (h : c.Attended .opening)
    (hsent : ¬ c.unsent) (hopen : c.pc ≠ .openFifo) : c.fifo.writerWoken := by
  obtain ⟨pid, pc, fifo, resp, answer, printed, notices⟩ := c
  obtain ⟨-, h⟩ := h
  cases pc with
  | mkfifo | openServer | send => exact absurd rfl hsent
  | openFifo => exact absurd rfl hopen
  | opening =>
      obtain ⟨-, ⟨hstage, -⟩ | ⟨-, data, -, rfl⟩⟩ := h
      · cases hstage
      · rfl
  | read =>
      obtain ⟨-, -, data, -, rfl⟩ := h
      rfl
  | print | returned code => cases h.2.1
  | stopped => exact h.elim

/-- With the server's FIFO empty all requests have been read. -/
theorem Inv.reads_eq_sent {s : State} (hs : Inv s) (hfifo : s.serverFifo = []) :
    s.reads.length = s.sent.length := by
  obtain ⟨handled, waiting, hsent, hreads, hwaiting⟩ := hs.framing
  cases waiting with
  | nil => rw [hsent, hreads, List.append_nil, List.length_map]
  | cons pid rest =>
      have hlength := congrArg List.length (hfifo.symm.trans hwaiting)
      simp [requestSize] at hlength
      omega

/-- The server waits for nobody but a client that has to open its FIFO, or for
a request. -/
theorem Attends.exists_step {s : State} (hs : Attends s)
    (h : ¬ ∀ c ∈ s.clients, c.Served) :
    ∃ label : Label, label.IsStep ∧ (next s label).isSome := by
  cases hpc : s.server with
  | openClient =>
      exact ⟨.server, trivial, by simp [next, serverNext, hpc]⟩
  | write clientFd =>
      exact ⟨.server, trivial, by simp [next, serverNext, hpc]⟩
  | close clientFd =>
      exact ⟨.server, trivial, by simp [next, serverNext, hpc]⟩
  | opening i =>
      obtain ⟨pid, hpid, hcurrent⟩ :=
        hs.inv.serving.target i (by rw [hpc]; rfl)
      rw [List.getElem?_map] at hpid
      obtain ⟨c, hc, rfl⟩ := Option.map_eq_some_iff.mp hpid
      have hsent : ¬ c.unsent := fun hunsent =>
        hs.inv.roster.unsent c (List.mem_of_getElem? hc) hunsent
          (List.mem_of_getElem? hcurrent)
      have hattended : c.Attended .opening := by
        have hstage := hs.clients i c hc
        simpa only [State.stage, ServerPc.target, hpc, if_true] using hstage
      by_cases hopen : c.pc = .openFifo
      · refine ⟨.client i, trivial, ?_⟩
        rw [next, hc, Option.bind_some]
        exact clientNext_isSome hsent (by simp [clientReceives, hopen])
      · refine ⟨.server, trivial, ?_⟩
        have hwoken := hattended.woken hsent hopen
        simp [next, serverNext, hpc, serverOpening, hc, hwoken]
  | read =>
      push Not at h
      obtain ⟨c, hmem, hserved⟩ := h
      obtain ⟨i, hc⟩ := List.mem_iff_getElem?.mp hmem
      by_cases hsent : c.unsent
      · refine ⟨.client i, trivial, ?_⟩
        rw [next, hc, Option.bind_some]
        exact clientNext_isSome_of_unsent hsent
      · by_cases hfifo : s.serverFifo = []
        · -- the server has served all that have asked
          have hstage : (s.stage i c.pid).responded := by
            have hmem : c.pid ∈ s.sent.take s.answered := by
              rw [State.answered, hpc, hs.inv.reads_eq_sent hfifo,
                List.take_length]
              exact hs.sent c hmem hsent
            rw [State.stage, hpc, if_neg (by simp [ServerPc.target]),
              if_pos (by simpa using hmem)]
            rfl
          refine ⟨.client i, trivial, ?_⟩
          rw [next, hc, Option.bind_some]
          exact clientNext_isSome hsent
            ((hs.clients i c hc).receives hsent hserved (Or.inl hstage))
        · refine ⟨.server, trivial, ?_⟩
          simp only [next, serverNext, hpc, serverRead, if_neg hfifo]
          split <;> rfl

/-- Where no client is stopped the service waits for nobody: whatever has
happened so far, all clients are served in the end, in whatever order calls are
made, and each of them has printed its own number, which is its place among
the requests, has removed its FIFO, and has returned 0. -/
theorem all_served {req : List Byte} {labels : List Label} {s : State}
    (hrun : exec next (start req) labels = some s)
    (hruns : ∀ label ∈ labels, label.Runs) :
    (∃ steps t, (∀ label ∈ steps, label.IsStep) ∧
      exec next s steps = some t ∧ ∀ c ∈ t.clients, c.Served) ∧
    (∀ steps t, (∀ label ∈ steps, label.IsStep) →
      exec next s steps = some t → steps.length ≤ s.work ∧
        ((∀ label : Label, label.IsStep → next t label = none) →
          ∀ c ∈ t.clients, c.Served)) ∧
    ∀ c ∈ s.clients, ∀ code, c.pc = .returned code →
      code = 0 ∧ c.notices = [] ∧ c.fifo.linked = false ∧
        ∃ k : ℕ, s.sent[k]? = some c.pid ∧ c.printed = [int32 k] := by
  have hs : Attends s :=
    exec_invariant_of_labels (fun _ _ _ => next_attends) hruns
      (start_attends req) hrun
  have hkeep (s : State) (label : Label) (t : State) (hlabel : label.IsStep)
      (hs : Attends s) (hnext : next s label = some t) : Attends t :=
    next_attends hlabel.runs hs hnext
  have hdrop (s : State) (label : Label) (t : State) (hlabel : label.IsStep)
      (hs : Attends s) (hnext : next s label = some t) : t.work < s.work :=
    step_work hlabel hs.inv hnext
  refine ⟨?_, fun steps t hsteps hlater => ⟨?_, fun hquiet => ?_⟩,
    fun c hc code hpc => ?_⟩
  · obtain ⟨steps, t, hsteps, hlater, -, hserved⟩ :=
      exists_completion hkeep hdrop (fun _ => Attends.exists_step) hs
    exact ⟨steps, t, hsteps, hlater, hserved⟩
  · have hlength := exec_length_le hkeep hdrop hsteps hs hlater
    omega
  · by_contra hwaiting
    obtain ⟨label, hlabel, hmoves⟩ :=
      (exec_invariant_of_labels hkeep hsteps hs hlater).exists_step hwaiting
    rw [hquiet label hlabel] at hmoves
    cases hmoves
  · obtain ⟨i, hi⟩ := List.mem_iff_getElem?.mp hc
    obtain ⟨hnotices, hattended⟩ := hs.clients i c hi
    rw [hpc] at hattended
    obtain ⟨hcode, -, hanswer, hprinted, hfifo⟩ := hattended
    refine ⟨hcode, hnotices, by rw [hfifo], ?_⟩
    rcases (hs.inv.answers c hc).2 with hnil | ⟨k, -, hpid, hbytes⟩
    · rw [hnil] at hanswer
      cases hanswer
    · refine ⟨k, hpid, ?_⟩
      have hint : bytesInt (intBytes (int32 k)) = int32 k := by
        rw [← List.append_nil (intBytes (int32 k))]
        exact bytesInt_intBytes (by simp only [int32]; omega)
          (by simp only [int32]; omega) []
      rw [hprinted, hbytes, hint]

/-- Two clients have been launched, and the server waits for one of them. -/
def oneServed : List Label :=
  [.launch 7 [], .launch 12 [], .client 0, .client 0, .client 1, .client 1,
    .client 1, .client 0, .server, .server]

theorem all_served_oneServed :
    ∃ s steps t, exec next (start []) oneServed = some s ∧
      exec next s steps = some t ∧ ∀ c ∈ t.clients, c.Served := by
  have hrun : exec next (start []) oneServed = some _ := rfl
  have hruns : ∀ label ∈ oneServed, label.Runs := by
    simp [oneServed, Label.Runs]
  obtain ⟨steps, t, -, hlater, hserved⟩ := (all_served hrun hruns).1
  exact ⟨_, steps, t, hrun, hlater, hserved⟩

end PipeDemo

end MyFreeLib
