/-
`sig_notify_demo`: a process that sleeps in `sigsuspend` until `NOTIFY_SIG`
tells it of a message.  It registers again before it drains the queue, but the
first time it does not drain at all.
-/
import MyFreeLib.LabelledRun
import MyFreeLib.PosixMq

namespace MyFreeLib

namespace PosixMq

namespace SigNotify

/-- The call that comes next.  `NOTIFY_SIG` is blocked but in `suspended`. -/
inductive Pc
  | mqOpen
  | sigprocmask
  | sigaction
  | mqNotify
  | sigsuspend
  | suspended
  | renotify
  | receive
  | returned (code : Int)
deriving DecidableEq, Repr

structure State where
  mq : Mq
  pc : Pc
  pending : Bool
  buffer : List Byte
  notices : List String
deriving DecidableEq, Repr

/-- The demo begins, with these messages on the queue and anything in its
buffer. -/
def start (messages : List Message) (buffer : List Byte) : State where
  mq := { createDemo with messages := messages }
  pc := .mqOpen
  pending := false
  buffer := buffer
  notices := []

/-- Any process sends a message; the demo makes its next call, which succeeds
or not; the pending signal is delivered. -/
inductive Label
  | send (message : Message)
  | mqOpen (ok : Bool)
  | sigprocmask (ok : Bool)
  | sigaction (ok : Bool)
  | mqNotify (ok : Bool)
  | sigsuspend
  | deliver
  | mqReceive
deriving DecidableEq, Repr

/-- The demo gives up; its registration ends with it. -/
def leave (s : State) (message : String) : State :=
  { s with
    mq.registered := false
    pc := .returned (-1)
    notices := s.notices ++ [message] }

/-- `mq_notify(mqd, &sev)`; it cannot succeed while there is a
registration. -/
def mqNotify (s : State) (ok : Bool) (after : Pc) : Option State :=
  if ok then
    if s.mq.registered then none
    else some { s with mq.registered := true, pc := after }
  else some (leave s "mq_notify failed.\n")

/-- One round of the drain loop; it ends at the first error. -/
def mqReceive (s : State) : State :=
  match s.mq.receive msgSize with
  | .tooSmall | .empty => { s with pc := .sigsuspend }
  | .message bytes rest => { s with
      mq := rest
      buffer := overlay bytes s.buffer
      notices := s.notices ++ [readNotice bytes] }

def sigNotifyDemo (s : State) (label : Label) : Option State :=
  match s.pc, label with
  | .mqOpen, .mqOpen ok =>
      if ok then some { s with pc := .sigprocmask }
      else some (leave s "mq_open fail.\n")
  | .sigprocmask, .sigprocmask ok =>
      if ok then some { s with pc := .sigaction }
      else some (leave s "sigprocmask failed.\n")
  | .sigaction, .sigaction ok =>
      if ok then some { s with pc := .mqNotify }
      else some (leave s "sigaction failed.\n")
  | .mqNotify, .mqNotify ok => mqNotify s ok .sigsuspend
  | .sigsuspend, .sigsuspend => some { s with pc := .suspended }
  | .suspended, .deliver =>
      if s.pending then some { s with pending := false, pc := .renotify }
      else none
  | .renotify, .mqNotify ok => mqNotify s ok .receive
  | .receive, .mqReceive => some (mqReceive s)
  | _, _ => none

def next (s : State) : Label → Option State
  | .send message =>
      if s.mq.Accepts message then some { s with
        mq := s.mq.arrive message
        pending := s.pending || s.mq.fires }
      else none
  | label => sigNotifyDemo s label

/-- Everything a step can do. -/
inductive Step (s : State) : Label → State → Prop
  | send (message : Message) (haccepts : s.mq.Accepts message) :
      Step s (.send message) { s with
        mq := s.mq.arrive message
        pending := s.pending || s.mq.fires }
  | fails (label : Label) (message : String) (hpc : s.pc ≠ .sigsuspend)
      (hlabel : label ≠ .sigsuspend ∧ label ≠ .mqNotify true) :
      Step s label (leave s message)
  | prepares (label : Label) (pc : Pc)
      (hlabel : label ≠ .sigsuspend ∧ label ≠ .mqNotify true)
      (hold : s.pc = .mqOpen ∨ s.pc = .sigprocmask ∨ s.pc = .sigaction)
      (hnew : pc = .sigprocmask ∨ pc = .sigaction ∨ pc = .mqNotify) :
      Step s label { s with pc := pc }
  | registers (hpc : s.pc = .mqNotify) (hfree : s.mq.registered = false) :
      Step s (.mqNotify true)
        { s with mq.registered := true, pc := .sigsuspend }
  | suspends (hpc : s.pc = .sigsuspend) :
      Step s .sigsuspend { s with pc := .suspended }
  | wakes (hpc : s.pc = .suspended) (hpending : s.pending = true) :
      Step s .deliver { s with pending := false, pc := .renotify }
  | reregisters (hpc : s.pc = .renotify) (hfree : s.mq.registered = false) :
      Step s (.mqNotify true)
        { s with mq.registered := true, pc := .receive }
  | receives (hpc : s.pc = .receive) : Step s .mqReceive (mqReceive s)

theorem sigNotifyDemo_step {s t : State} {label : Label}
    (h : sigNotifyDemo s label = some t) : Step s label t := by
  unfold sigNotifyDemo at h
  split at h
  · next ok hpc =>
      split at h
      · cases h
        exact .prepares _ _ (by simp) (by simp [hpc]) (by simp)
      · cases h
        exact .fails _ _ (by simp [hpc]) (by simp)
  · next ok hpc =>
      split at h
      · cases h
        exact .prepares _ _ (by simp) (by simp [hpc]) (by simp)
      · cases h
        exact .fails _ _ (by simp [hpc]) (by simp)
  · next ok hpc =>
      split at h
      · cases h
        exact .prepares _ _ (by simp) (by simp [hpc]) (by simp)
      · cases h
        exact .fails _ _ (by simp [hpc]) (by simp)
  · next ok hpc =>
      cases ok with
      | true =>
          simp only [mqNotify, ↓reduceIte, Option.ite_none_left_eq_some,
            Option.some.injEq, Bool.not_eq_true] at h
          exact h.2 ▸ .registers hpc h.1
      | false =>
          cases h
          exact .fails _ _ (by simp [hpc]) (by simp)
  · next hpc =>
      cases h
      exact .suspends hpc
  · next hpc =>
      obtain ⟨hpending, rfl⟩ := guarded_eq_some.mp h
      exact .wakes hpc hpending
  · next ok hpc =>
      cases ok with
      | true =>
          simp only [mqNotify, ↓reduceIte, Option.ite_none_left_eq_some,
            Option.some.injEq, Bool.not_eq_true] at h
          exact h.2 ▸ .reregisters hpc h.1
      | false =>
          cases h
          exact .fails _ _ (by simp [hpc]) (by simp)
  · next hpc =>
      cases h
      exact .receives hpc
  · cases h

theorem next_step {s t : State} {label : Label} (h : next s label = some t) :
    Step s label t := by
  cases label with
  | send message =>
      obtain ⟨hroom, rfl⟩ := guarded_eq_some.mp h
      exact .send message hroom
  | mqOpen | sigprocmask | sigaction | mqNotify | sigsuspend | deliver
  | mqReceive => exact sigNotifyDemo_step h

/-- Whoever sleeps without a signal under way has nothing to read and will be
told. -/
def NoLostWakeup (s : State) : Prop :=
  s.pc = .suspended → s.pending = false →
    s.mq.messages = [] ∧ s.mq.registered = true

instance (s : State) : Decidable (NoLostWakeup s) :=
  inferInstanceAs (Decidable (_ → _))

/-- The first registration finds the queue empty. -/
def RegistersOnEmpty (s : State) (label : Label) : Prop :=
  s.pc = .mqNotify → label = .mqNotify true → s.mq.messages = []

instance (s : State) (label : Label) : Decidable (RegistersOnEmpty s label) :=
  inferInstanceAs (Decidable (_ → _))

/-- Before the first registration no signal can come. -/
def Early (s : State) : Prop :=
  s.mq.msgsize = msgSize ∧ s.mq.registered = false ∧ s.pending = false ∧
    (s.pc = .mqOpen ∨ s.pc = .sigprocmask ∨ s.pc = .sigaction ∨
      s.pc = .mqNotify)

/-- Later either the registration is there or its signal is under way, and the
registration finds the queue empty when the demo goes to sleep. -/
def Armed (s : State) : Prop :=
  s.mq.msgsize = msgSize ∧
    match s.pc with
    | .sigsuspend | .suspended =>
        s.mq.registered = !s.pending ∧
          (s.mq.registered = true → s.mq.messages = [])
    | .receive => s.mq.registered = !s.pending
    | .renotify => s.mq.registered = false ∧ s.pending = false
    | .returned _ => True
    | _ => False

theorem send_armed {s : State} (hs : Armed s) (message : Message) :
    Armed { s with
      mq := s.mq.arrive message
      pending := s.pending || s.mq.fires } := by
  obtain ⟨hsize, hpc⟩ := hs
  refine ⟨hsize, ?_⟩
  cases h : s.pc with
  | sigsuspend | suspended =>
      simp only [h] at hpc ⊢
      refine ⟨arrive_registered_eq_not hpc.1 message, ?_⟩
      rw [arrive_registered_of_drained hpc.2 message]
      simp
  | receive =>
      simp only [h] at hpc ⊢
      exact arrive_registered_eq_not hpc message
  | renotify =>
      simp only [h] at hpc ⊢
      simp [Mq.arrive, Mq.fires, hpc]
  | returned code => trivial
  | mqOpen | sigprocmask | sigaction | mqNotify => simp [h] at hpc

theorem leave_armed {s : State} (hsize : s.mq.msgsize = msgSize)
    (message : String) : Armed (leave s message) := ⟨hsize, trivial⟩

theorem mqReceive_armed {s : State} (hsize : s.mq.msgsize = msgSize)
    (hpc : s.pc = .receive) (hone : s.mq.registered = !s.pending) :
    Armed (mqReceive s) := by
  have hfit : ¬ msgSize < s.mq.msgsize := by omega
  cases hmessages : s.mq.messages with
  | nil =>
      simp only [mqReceive, Mq.receive, if_neg hfit, hmessages]
      exact ⟨hsize, hone, fun _ => hmessages⟩
  | cons bytes rest =>
      simp only [mqReceive, Mq.receive, if_neg hfit, hmessages]
      refine ⟨hsize, ?_⟩
      simp only [hpc]
      exact hone

theorem next_armed (s : State) (label : Label) (t : State) (hs : Armed s)
    (h : next s label = some t) : Armed t := by
  have hsize := hs.1
  have hpc := hs.2
  cases next_step h with
  | send message haccepts => exact send_armed hs message
  | fails label message hnot hlabel => exact leave_armed hsize message
  | prepares label pc hlabel hold hnew =>
      rcases hold with hold | hold | hold <;> simp [hold] at hpc
  | registers hold hfree => simp [hold] at hpc
  | suspends hold =>
      simp only [hold] at hpc
      exact ⟨hsize, hpc⟩
  | wakes hold hpending =>
      simp only [hold, hpending] at hpc
      exact ⟨hsize, hpc.1, rfl⟩
  | reregisters hold hfree =>
      simp only [hold] at hpc
      refine ⟨hsize, ?_⟩
      simp [hpc.2]
  | receives hold =>
      simp only [hold] at hpc
      exact mqReceive_armed hsize hold hpc

theorem Armed.noLostWakeup {s : State} (hs : Armed s) : NoLostWakeup s := by
  intro hpc hpending
  have h := hs.2
  simp only [hpc, hpending] at h
  exact ⟨h.2 h.1, h.1⟩

theorem Armed.registersOnEmpty {s : State} (hs : Armed s) (label : Label) :
    RegistersOnEmpty s label := by
  intro hpc
  have h := hs.2
  simp [hpc] at h

/-- The demo is about to sleep although there are messages that nothing will
tell it of. -/
def Stuck (s : State) : Prop :=
  s.pc = .sigsuspend ∧ s.pending = false ∧ s.mq.messages ≠ []

theorem early_step {s t : State} {label : Label} (hs : Early s)
    (h : next s label = some t) :
    label ≠ .sigsuspend ∧
      (RegistersOnEmpty s label ∧ (Early t ∨ Armed t) ∨
        ¬ RegistersOnEmpty s label ∧ Stuck t) := by
  obtain ⟨hsize, hregistered, hpending, hpc⟩ := hs
  have hnot (hother : label ≠ .mqNotify true) : RegistersOnEmpty s label :=
    fun _ hlabel => absurd hlabel hother
  cases next_step h with
  | send message haccepts =>
      refine ⟨by simp, Or.inl ⟨hnot (by simp), Or.inl ⟨hsize, ?_, ?_, hpc⟩⟩⟩
      · simp [Mq.arrive, hregistered]
      · simp [Mq.fires, hregistered, hpending]
  | fails label message hnotpc hlabel =>
      exact ⟨hlabel.1, Or.inl ⟨hnot hlabel.2,
        Or.inr (leave_armed hsize message)⟩⟩
  | prepares label pc hlabel hold hnew =>
      refine ⟨hlabel.1, Or.inl ⟨hnot hlabel.2, Or.inl ⟨hsize, hregistered,
        hpending, ?_⟩⟩⟩
      exact Or.inr hnew
  | registers hold hfree =>
      refine ⟨by simp, ?_⟩
      by_cases hmessages : s.mq.messages = []
      · left
        refine ⟨fun _ _ => hmessages, Or.inr ⟨hsize, ?_⟩⟩
        simp [hpending, hmessages]
      · right
        exact ⟨fun hempty => hmessages (hempty hold rfl), rfl, hpending,
          hmessages⟩
  | suspends hold => simp [hold] at hpc
  | wakes hold => simp [hold] at hpc
  | reregisters hold => simp [hold] at hpc
  | receives hold => simp [hold] at hpc

theorem stuck_step {s t : State} {label : Label} (hs : Stuck s)
    (h : next s label = some t) :
    label ≠ .sigsuspend ∧ Stuck t ∨ label = .sigsuspend ∧ ¬ NoLostWakeup t := by
  obtain ⟨hpc, hpending, hmessages⟩ := hs
  cases next_step h with
  | send message haccepts =>
      left
      refine ⟨by simp, hpc, ?_, by simp [Mq.arrive]⟩
      simp [Mq.fires, hpending, hmessages]
  | fails label message hnot => exact absurd hpc hnot
  | prepares label pc hlabel hold => simp [hpc] at hold
  | registers hold | wakes hold | reregisters hold | receives hold =>
      rw [hpc] at hold
      cases hold
  | suspends =>
      right
      exact ⟨rfl, fun hawake => hmessages (hawake rfl hpending).1⟩

/-- From a state about to sleep on a backlog, all is well only as long as the
demo does not go to sleep. -/
theorem stuck_run {s t : State} {labels : List Label} (hs : Stuck s)
    (hrun : exec next s labels = some t) :
    EachStep next (fun _ _ u => NoLostWakeup u) s labels ↔
      .sigsuspend ∉ labels := by
  induction labels generalizing s with
  | nil => simp [EachStep]
  | cons label rest ih =>
      obtain ⟨u, hfirst, hrest⟩ := exec_cons_eq_some.mp hrun
      simp only [EachStep, hfirst, Option.some.injEq, forall_eq',
        List.mem_cons, not_or]
      rcases stuck_step hs hfirst with ⟨hlabel, hu⟩ | ⟨rfl, hlost⟩
      · have hawake : NoLostWakeup u := by
          intro hpc
          rw [hu.1] at hpc
          cases hpc
        simp only [hawake, true_and, ih hu hrest, Ne.symm hlabel,
          not_false_eq_true]
      · simp [hlost]

theorem Early.noLostWakeup {s : State} (hs : Early s) : NoLostWakeup s := by
  intro hpc
  rcases hs.2.2.2 with h | h | h | h <;> rw [h] at hpc <;> cases hpc

theorem armed_run {s : State} (hs : Armed s) (labels : List Label) :
    EachStep next (fun _ _ u => NoLostWakeup u) s labels ∧
      EachStep next (fun s label _ => RegistersOnEmpty s label) s labels :=
  ⟨eachStep_of_invariant next_armed
      (fun s label t hs h => (next_armed s label t hs h).noLostWakeup)
      hs labels,
    eachStep_of_invariant next_armed
      (fun _ label _ hs _ => hs.registersOnEmpty label) hs labels⟩

theorem early_run {s t : State} {labels : List Label} (hs : Early s)
    (hrun : exec next s labels = some t) :
    EachStep next (fun _ _ u => NoLostWakeup u) s labels ↔
      (.sigsuspend ∈ labels →
        EachStep next (fun s label _ => RegistersOnEmpty s label) s
          labels) := by
  induction labels generalizing s with
  | nil => simp [EachStep]
  | cons label rest ih =>
      obtain ⟨u, hfirst, hrest⟩ := exec_cons_eq_some.mp hrun
      obtain ⟨hlabel, hcases⟩ := early_step hs hfirst
      simp only [EachStep, hfirst, Option.some.injEq, forall_eq',
        List.mem_cons, Ne.symm hlabel, false_or]
      rcases hcases with ⟨hempty, hearly | harmed⟩ | ⟨hbacklog, hstuck⟩
      · simp only [hempty, hearly.noLostWakeup, true_and, ih hearly hrest]
      · have hlater := armed_run harmed rest
        simp only [hempty, harmed.noLostWakeup, hlater, true_and, implies_true]
      · have hawake : NoLostWakeup u := by
          intro hpc
          rw [hstuck.1] at hpc
          cases hpc
        simp only [hbacklog, hawake, true_and, false_and, imp_false,
          stuck_run hstuck hrest]

/-- For any messages on the queue, any senders and every interleaving: in all
states of a run the sleeping demo has no signal under way only when the queue
is empty and the registration there, exactly when, if the run gets to the
first `sigsuspend`, the first registration found the queue empty. -/
theorem noLostWakeup_iff {messages : List Message} {buffer : List Byte}
    {labels : List Label} {s : State}
    (hrun : exec next (start messages buffer) labels = some s) :
    EachStep next (fun _ _ t => NoLostWakeup t) (start messages buffer) labels ↔
      (.sigsuspend ∈ labels →
        EachStep next (fun s label _ => RegistersOnEmpty s label)
          (start messages buffer) labels) :=
  early_run ⟨rfl, rfl, rfl, Or.inl rfl⟩ hrun

/-- The calls up to the first `sigsuspend`. -/
def setUp : List Label :=
  [.mqOpen true, .sigprocmask true, .sigaction true, .mqNotify true,
    .sigsuspend]

/-- A message that comes while the demo sleeps. -/
def oneMessage : List Label :=
  setUp ++ [.send [1], .deliver, .mqNotify true, .mqReceive, .mqReceive,
    .sigsuspend]

theorem noLostWakeup_oneMessage :
    ∃ s, exec next (start [] []) oneMessage = some s ∧
      s.notices = ["read 1 bytes.\n"] ∧
      EachStep next (fun _ _ t => NoLostWakeup t) (start [] []) oneMessage := by
  have hrun : exec next (start [] []) oneMessage = some _ := rfl
  exact ⟨_, hrun, rfl, (noLostWakeup_iff hrun).mpr (by decide)⟩

/-- A message that is there already is never read. -/
theorem backlog_unread :
    ∃ s, exec next (start [[1]] []) setUp = some s ∧ s.pc = .suspended ∧
      s.pending = false ∧ s.mq.messages = [[1]] ∧ ¬ NoLostWakeup s := by
  have hrun : exec next (start [[1]] []) setUp = some _ := rfl
  exact ⟨_, hrun, rfl, rfl, rfl, by decide⟩

end SigNotify

end PosixMq

end MyFreeLib
