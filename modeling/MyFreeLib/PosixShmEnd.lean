/-
How the POSIX channel ends.  As soon as there is a client one of them meets
the end of its input, and it does so holding the slot, which it never gives
back.
-/
import MyFreeLib.PosixShmChannel

namespace MyFreeLib

namespace PosixShm

/-- The calls succeed, the tokens fit, and an input may come to its end. -/
def Label.Proceeds (label : Label) : Prop :=
  label.Works ∨ ∃ i, label = .clientEof i

/-- The server or a client makes its next call. -/
def Label.IsStep : Label → Prop
  | .server | .client _ | .clientEof _ => True
  | _ => False

theorem Label.IsStep.proceeds {label : Label} (h : label.IsStep) :
    label.Proceeds := by
  cases label with
  | server | client i => exact Or.inl trivial
  | clientEof i => exact Or.inr ⟨i, rfl⟩
  | _ => exact h.elim

def Quiet (s : State) : Prop :=
  ∀ label : Label, label.IsStep → next s label = none

/-- No client has met the end of its input. -/
structure Live (s : State) : Prop where
  channel : Channel s
  conserves : s.slotView.Conserves
  notices : ∀ c ∈ s.clients, c.notices = []

/-- One client has left with the slot, all that was stored has been printed,
and the others wait. -/
structure Ended (s : State) : Prop where
  sems : s.read = 0 ∧ s.write = 0
  server : s.server = .wait
  printed : s.printed = s.stored.map cString
  client : ∃ (i : ℕ) (c : Client), s.clients[i]? = some c ∧
    c.pc = .returned (-1) ∧ c.input = [] ∧ c.notices = ["gets failed.\n"] ∧
    ∀ (j : ℕ) (d : Client), j ≠ i → s.clients[j]? = some d → d.pc = .wait

theorem start_live (data : List Byte) : Live (start data) where
  channel := start_channel data
  conserves := by simp [OneSlot.Conserves, State.slotView, start, State.full]
  notices := by simp [start]

theorem clientNext_notices {s t : State} {i : ℕ} {c : Client}
    (hs : ∀ d ∈ s.clients, d.notices = []) (hc : s.clients[i]? = some c)
    (h : clientNext s i c = some t) : ∀ d ∈ t.clients, d.notices = [] := by
  have hmem := List.mem_of_getElem? hc
  cases clientNext_step h with
  | waits hpc hwrite => exact forall_mem_set hs (hs c hmem)
  | scans hpc hinput => exact forall_mem_set hs (hs c hmem)
  | posts hpc => exact forall_mem_set hs (hs c hmem)

theorem serverNext_clients {s t : State} (h : serverNext s = some t) :
    t.clients = s.clients := by
  cases serverNext_step h <;> rfl

theorem next_notices {s t : State} {label : Label} (hlabel : label.Works)
    (hs : ∀ d ∈ s.clients, d.notices = []) (h : next s label = some t) :
    ∀ d ∈ t.clients, d.notices = [] := by
  cases label with
  | server =>
      rw [serverNext_clients h]
      exact hs
  | launch input =>
      cases h
      exact forall_mem_concat hs rfl
  | client i =>
      obtain ⟨c, hc, hmove⟩ := Option.bind_eq_some_iff.mp h
      exact clientNext_notices hs hc hmove
  | _ => exact hlabel.elim

theorem Live.works {s t : State} {label : Label} (hs : Live s)
    (hlabel : label.Works) (h : next s label = some t) : Live t := by
  refine ⟨next_channel s label t hlabel hs.channel h, ?_,
    next_notices hlabel hs.notices h⟩
  cases hact : slotAction s label with
  | none =>
      rw [refines_oneSlot.silent s label t hlabel hs.channel h hact]
      exact hs.conserves
  | some action =>
      have hvisible :=
        refines_oneSlot.visible s label t action hlabel hs.channel h hact
      exact OneSlot.next_conserves _ action _ hs.conserves hvisible

/-- The client that meets the end of its input is the one inside. -/
theorem Live.ends {s t : State} {i : ℕ} (hs : Live s)
    (h : next s (.clientEof i) = some t) : Ended t := by
  obtain ⟨c, hc, heof⟩ := Option.bind_eq_some_iff.mp h
  have hmem := List.mem_of_getElem? hc
  split at heof
  case h_2 => cases heof
  case h_1 hpc hinput =>
    cases heof
    have hin : c.inside := by rw [Client.inside, hpc]
    obtain ⟨hread, hwrite, hserver⟩ := hs.channel.client_inside hmem hin
    have hempty := (hs.channel.client_alone hmem hin).1
    have hi := (List.getElem?_eq_some_iff.mp hc).1
    refine ⟨⟨hread, hwrite⟩, ?_, ?_, i, c.fails "gets failed.\n", ?_, rfl,
      hinput, ?_, ?_⟩
    · cases hwhere : s.server with
      | wait => exact hwhere
      | returned code => exact absurd hwhere (hs.channel.serving code)
      | terminate | print | post => rw [hwhere] at hserver; cases hserver
    · have hstored := hs.conserves
      simp only [OneSlot.Conserves, State.slotView, hempty] at hstored
      simpa [clientFails] using hstored.symm
    · exact List.getElem?_set_self hi
    · rw [Client.fails, hs.notices c hmem]
      rfl
    · intro j d hj hd
      have hold : s.clients[j]? = some d := by
        rwa [clientFails, List.getElem?_set_ne (Ne.symm hj)] at hd
      have hnone : clientsInside (s.clients.set i (c.fails "gets failed.\n")) =
          0 := by
        have hsum := clientsInside_set hc (c.fails "gets failed.\n")
        have hone := hs.channel.conserved.1
        have hout : (c.fails "gets failed.\n").inside = false := rfl
        simp only [State.holders, hin, hout, Bool.toNat_true,
          Bool.toNat_false] at hsum hone
        omega
      have hout : d.inside = false := by
        by_contra hinside
        have hpos := clientsInside_pos (List.mem_of_getElem? hd)
          (Bool.not_eq_false _ ▸ hinside)
        exact absurd hnone hpos.ne'
      cases hwhere : d.pc with
      | wait => rfl
      | returned code =>
          exact absurd hwhere
            (hs.channel.alive d (List.mem_of_getElem? hold) code)
      | scan | post token => rw [Client.inside, hwhere] at hout; cases hout

/-- Then nobody can go on. -/
theorem Ended.quiet {s : State} (hs : Ended s) : Quiet s := by
  obtain ⟨i, c, hc, hpc, -, -, hothers⟩ := hs.client
  have hwhere (j : ℕ) (d : Client) (hd : s.clients[j]? = some d) :
      d.pc = .wait ∨ d.pc = .returned (-1) := by
    by_cases hj : j = i
    · subst hj
      obtain rfl := Option.some.inj (hc.symm.trans hd)
      exact Or.inr hpc
    · exact Or.inl (hothers j d hj hd)
  intro label hlabel
  cases label with
  | server => simp [next, serverNext, hs.server, hs.sems.1, semWait]
  | client j =>
      rw [next, Option.bind_eq_none_iff]
      intro d hd
      rcases hwhere j d hd with hpc | hpc <;>
        simp [clientNext, hpc, hs.sems.2, semWait]
  | clientEof j =>
      rw [next, Option.bind_eq_none_iff]
      intro d hd
      rcases hwhere j d hd with hpc | hpc <;> simp [hpc]
  | _ => exact hlabel.elim

theorem Ended.launch {s t : State} {input : List (List Byte)} (hs : Ended s)
    (h : next s (.launch input) = some t) : Ended t := by
  cases h
  obtain ⟨i, c, hc, hpc, hinput, hnotices, hothers⟩ := hs.client
  refine ⟨hs.sems, hs.server, hs.printed, i, c,
    getElem?_of_front (List.prefix_append _ _) hc, hpc, hinput, hnotices,
    fun j d hj hd => ?_⟩
  rw [List.getElem?_append] at hd
  split at hd
  case isTrue => exact hothers j d hj hd
  case isFalse =>
    obtain rfl := List.mem_singleton.mp (List.mem_of_getElem? hd)
    rfl

theorem next_live_or_ended {s t : State} {label : Label}
    (hlabel : label.Proceeds) (hs : Live s ∨ Ended s)
    (h : next s label = some t) : Live t ∨ Ended t := by
  rcases hs with hs | hs
  · rcases hlabel with hworks | ⟨i, rfl⟩
    · exact Or.inl (hs.works hworks h)
    · exact Or.inr (hs.ends h)
  · have hstill (hstep : label.IsStep) : Live t ∨ Ended t := by
      rw [hs.quiet label hstep] at h
      cases h
    rcases hlabel with hworks | ⟨i, rfl⟩
    · cases label with
      | launch input => exact Or.inr (hs.launch h)
      | server | client i => exact hstill trivial
      | _ => exact hworks.elim
    · exact hstill trivial

/-! ### Until then somebody can go on -/

theorem Quiet.allBlocked {s : State} (h : Quiet s) : AllBlocked s :=
  ⟨h .server trivial, fun i _ _ => h (.client i) trivial⟩

theorem Quiet.client {s : State} {c : Client} (h : Quiet s) (hs : Channel s)
    (hc : c ∈ s.clients) : s.write = 0 ∧ c.inside = false := by
  by_cases hinput : c.input = []
  · obtain ⟨i, hi⟩ := List.mem_iff_getElem?.mp hc
    have hclient := h (.client i) trivial
    have heof := h (.clientEof i) trivial
    simp only [next, hi, Option.bind_some] at hclient heof
    cases hpc : c.pc with
    | wait =>
        simp only [clientNext, hpc, Option.map_eq_none_iff] at hclient
        cases hwrite : s.write with
        | zero => exact ⟨rfl, by rw [Client.inside, hpc]⟩
        | succ n => simp [semWait, hwrite] at hclient
    | scan => simp [hpc, hinput] at heof
    | post token => simp [clientNext, hpc] at hclient
    | returned code => exact absurd hpc (hs.alive c hc code)
  · exact h.allBlocked.client hs hc hinput

theorem Live.not_quiet {s : State} (hs : Live s) (hclients : s.clients ≠ []) :
    ¬ Quiet s := by
  intro hquiet
  obtain ⟨hread, hserver⟩ := hquiet.allBlocked.server hs.channel
  obtain ⟨c, hc⟩ := List.exists_mem_of_ne_nil _ hclients
  have hwrite := (hquiet.client hs.channel hc).1
  have hnone := clientsInside_eq_zero fun c hc =>
    (hquiet.client hs.channel hc).2
  have hone := hs.channel.conserved.1
  simp only [State.holders, hread, hwrite, hserver, hnone, Bool.false_and,
    Bool.toNat_false] at hone
  omega

/-! ### How long it takes -/

/-- The calls a client has to make, with those of the server for its tokens. -/
def Client.work (c : Client) : ℕ :=
  match c.pc with
  | .wait => 7 * c.input.length + 2
  | .scan => 7 * c.input.length + 1
  | .post _ => 7 * c.input.length + 7
  | .returned _ => 0

def ServerPc.work : ServerPc → ℕ
  | .terminate => 3
  | .print => 2
  | .post => 1
  | .wait | .returned _ => 0

def State.work (s : State) : ℕ :=
  (s.clients.map Client.work).sum + 4 * s.read + s.server.work

theorem step_work {s t : State} {label : Label} (hlabel : label.IsStep)
    (h : next s label = some t) : t.work < s.work := by
  cases label with
  | server =>
      cases serverNext_step h with
      | waits hpc hread =>
          simp only [State.work, ServerPc.work, hpc, hread]
          omega
      | terminates hpc | prints hpc | posts hpc =>
          simp [State.work, ServerPc.work, hpc]
  | client i =>
      obtain ⟨c, hc, hmove⟩ := Option.bind_eq_some_iff.mp h
      have hsum (d : Client) := sum_map_set Client.work hc d
      cases clientNext_step hmove with
      | waits hpc hwrite =>
          have hsum := hsum { c with pc := .scan }
          simp only [State.work, Client.work, hpc] at hsum ⊢
          omega
      | @scans token rest hpc hinput =>
          have hsum := hsum { c with pc := .post token, input := rest }
          simp only [State.work, Client.work, hpc, hinput,
            List.length_cons] at hsum ⊢
          omega
      | posts hpc =>
          have hsum := hsum { c with pc := .wait }
          simp only [State.work, Client.work, hpc] at hsum ⊢
          omega
  | clientEof i =>
      obtain ⟨c, hc, heof⟩ := Option.bind_eq_some_iff.mp h
      split at heof
      case h_2 => cases heof
      case h_1 hpc hinput =>
        cases heof
        have hsum := sum_map_set Client.work hc (c.fails "gets failed.\n")
        simp only [State.work, clientFails, Client.fails, Client.work,
          hpc] at hsum ⊢
        omega
  | _ => exact hlabel.elim

theorem step_clients {s t : State} {label : Label} (hlabel : label.IsStep)
    (h : next s label = some t) : t.clients.length = s.clients.length := by
  cases label with
  | server => rw [serverNext_clients h]
  | client i =>
      obtain ⟨c, -, hmove⟩ := Option.bind_eq_some_iff.mp h
      cases clientNext_step hmove <;> simp
  | clientEof i =>
      obtain ⟨c, -, heof⟩ := Option.bind_eq_some_iff.mp h
      split at heof
      case h_2 => cases heof
      case h_1 =>
        cases heof
        simp [clientFails]
  | _ => exact hlabel.elim

/-- Once there is a client the channel comes to its end, in whatever order the
calls are made: exactly one client meets the end of its input, with the slot in
its hands; the server has printed all that was stored by then, and the other
clients wait for ever, with whatever input they have left. -/
theorem channel_ends {data : List Byte} {labels : List Label} {s : State}
    (hrun : exec next (start data) labels = some s)
    (hproceeds : ∀ label ∈ labels, label.Proceeds)
    (hclients : s.clients ≠ []) :
    (∃ steps t, (∀ label ∈ steps, label.IsStep) ∧
      exec next s steps = some t ∧ Ended t) ∧
    ∀ steps t, (∀ label ∈ steps, label.IsStep) →
      exec next s steps = some t →
      steps.length ≤ s.work ∧ (Quiet t ↔ Ended t) ∧
        ((∃ c ∈ t.clients, ∃ code, c.pc = .returned code) ↔ Ended t) := by
  have hs : Live s ∨ Ended s :=
    exec_invariant_of_labels (fun _ _ _ => next_live_or_ended) hproceeds
      (Or.inl (start_live data)) hrun
  have hkeep (s : State) (label : Label) (t : State) (hlabel : label.IsStep)
      (hs : (Live s ∨ Ended s) ∧ s.clients ≠ [])
      (hnext : next s label = some t) :
      (Live t ∨ Ended t) ∧ t.clients ≠ [] := by
    refine ⟨next_live_or_ended hlabel.proceeds hs.1 hnext, ?_⟩
    have hlength := step_clients hlabel hnext
    rw [← List.length_pos_iff] at hs ⊢
    omega
  have hdrop (s : State) (label : Label) (t : State) (hlabel : label.IsStep)
      (_ : (Live s ∨ Ended s) ∧ s.clients ≠ [])
      (hnext : next s label = some t) : t.work < s.work :=
    step_work hlabel hnext
  have hmove (s : State) (hs : (Live s ∨ Ended s) ∧ s.clients ≠ [])
      (hended : ¬ Ended s) :
      ∃ label : Label, label.IsStep ∧ (next s label).isSome := by
    have hquiet := (hs.1.resolve_right hended).not_quiet hs.2
    rw [Quiet] at hquiet
    push Not at hquiet
    obtain ⟨label, hlabel, hnext⟩ := hquiet
    exact ⟨label, hlabel, Option.isSome_iff_ne_none.mpr hnext⟩
  refine ⟨?_, fun steps t hsteps hlater => ?_⟩
  · obtain ⟨steps, t, hsteps, hlater, -, hended⟩ :=
      exists_completion hkeep hdrop hmove ⟨hs, hclients⟩
    exact ⟨steps, t, hsteps, hlater, hended⟩
  · have ht := exec_invariant_of_labels hkeep hsteps ⟨hs, hclients⟩ hlater
    have hlength :=
      exec_length_le hkeep hdrop hsteps ⟨hs, hclients⟩ hlater
    refine ⟨by omega, ⟨fun hquiet => ?_, Ended.quiet⟩, ?_, fun hended => ?_⟩
    · exact ht.1.resolve_left fun hlive => hlive.not_quiet ht.2 hquiet
    · rintro ⟨c, hc, code, hpc⟩
      exact ht.1.resolve_left fun hlive => hlive.channel.alive c hc code hpc
    · obtain ⟨i, c, hc, hpc, -⟩ := hended.client
      exact ⟨c, List.mem_of_getElem? hc, -1, hpc⟩

/-- One client with a token, and one with none. -/
def unevenInput : List Label :=
  [.launch [text "a"], .launch [], .client 0, .client 0]

theorem channel_ends_unevenInput :
    ∃ s steps t, exec next (start []) unevenInput = some s ∧
      exec next s steps = some t ∧ Ended t := by
  have hrun : exec next (start []) unevenInput = some _ := rfl
  have hproceeds : ∀ label ∈ unevenInput, label.Proceeds := by
    simp [unevenInput, Label.Proceeds, Label.Works, text, dataSize]
  obtain ⟨steps, t, -, hlater, hended⟩ :=
    (channel_ends hrun hproceeds (List.cons_ne_nil _ _)).1
  exact ⟨_, steps, t, hrun, hlater, hended⟩

end PosixShm

end MyFreeLib
