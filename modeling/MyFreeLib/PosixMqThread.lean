/-
`thr_notify_demo`: each notification starts a thread that registers again and
receives until `mq_receive` fails.  The thread passes `MAX_MSG` as the length
of its buffer, which is less than the size of a message on the queue.
-/
import MyFreeLib.LabelledRun
import MyFreeLib.PosixMq
import MyFreeLib.ProcessTable

namespace MyFreeLib

namespace PosixMq

namespace ThrNotify

/-- Where an activation of `threadFunc` stands; `waiting` is a `mq_receive`
that found no message. -/
inductive ThreadPc
  | notify
  | receive
  | waiting
  | ended
deriving DecidableEq, Repr

/-- `sent` and `received` are history. -/
structure State where
  mq : Mq
  threads : List ThreadPc
  notices : List String
  sent : List Message
  received : List Message
deriving DecidableEq, Repr

/-- The demo has registered on the empty queue and sleeps. -/
def start : State where
  mq := { createDemo with registered := true }
  threads := []
  notices := []
  sent := []
  received := []

/-- A `send_demo` run sends its message, or a thread makes its next call. -/
inductive Label
  | send (data : Fin 128 → Byte)
  | thread (i : ℕ)

/-- A thread has received the message. -/
def State.got (s : State) (message : Message) : State :=
  { s with
    notices := s.notices ++ [readNotice message]
    received := s.received ++ [message] }

/-- A message arrives: a waiting thread takes it at once, otherwise it may be
notified, and a new thread is started. -/
def arrive (s : State) (message : Message) : State :=
  match s.mq.messages.isEmpty, s.threads.findIdx? (· = .waiting) with
  | true, some i => { s.got message with
      threads := s.threads.set i .receive }
  | _, _ => { s with
      mq := s.mq.arrive message
      threads := s.threads ++ if s.mq.fires then [.notify] else [] }

/-- `mq_receive(*mqdp, buffer, MAX_MSG, NULL)` and its loop. -/
def threadReceive (s : State) (i : ℕ) : State :=
  match s.mq.receive maxMsg with
  | .tooSmall => { s with threads := s.threads.set i .ended }
  | .empty => { s with threads := s.threads.set i .waiting }
  | .message bytes rest => { s.got bytes with mq := rest }

/-- `threadFunc` -/
def threadFunc (s : State) (i : ℕ) : ThreadPc → Option State
  | .notify =>
      if s.mq.registered then some { s with
        threads := s.threads.set i .ended
        notices := s.notices ++ ["mq_notify failed.\n"] }
      else some { s with
        mq.registered := true
        threads := s.threads.set i .receive }
  | .receive => some (threadReceive s i)
  | .waiting | .ended => none

def next (s : State) : Label → Option State
  | .send data =>
      let message := sendDemo data
      if s.mq.Accepts message then
        some (arrive { s with sent := s.sent ++ [message] } message)
      else none
  | .thread i => s.threads[i]?.bind (threadFunc s i)

/-- Every message sent has been received once or is on the queue, and while
there are messages a thread is pending, running or waiting. -/
structure Delivers (s : State) : Prop where
  once : s.sent = s.received ++ s.mq.messages
  attended : s.mq.messages ≠ [] → ∃ pc ∈ s.threads, pc ≠ .ended

/-- The messages of the senders. -/
def sends (labels : List Label) : List (Fin 128 → Byte) :=
  labels.filterMap fun label =>
    match label with
    | .send data => some data
    | .thread _ => none

/-- The buffer is too small for the queue, whatever is on it. -/
theorem receive_maxMsg {q : Mq} (hsize : q.msgsize = msgSize) :
    q.receive maxMsg = .tooSmall := by
  rw [Mq.receive, hsize]
  rfl

/-- Whatever was sent is on the queue, and no thread waits in
`mq_receive`. -/
structure Untouched (s : State) : Prop where
  size : s.mq.msgsize = msgSize
  nothing : s.received = []
  queued : s.mq.messages = s.sent
  never : ThreadPc.waiting ∉ s.threads

theorem start_untouched : Untouched start := ⟨rfl, rfl, rfl, by simp [start]⟩

/-- Without a waiting thread a message goes to the queue. -/
theorem arrive_of_not_waiting {s : State} (h : ThreadPc.waiting ∉ s.threads)
    (message : Message) :
    arrive s message = { s with
      mq := s.mq.arrive message
      threads := s.threads ++ if s.mq.fires then [.notify] else [] } := by
  have hnone : s.threads.findIdx? (· = .waiting) = none := by
    rw [List.findIdx?_eq_none_iff]
    rintro pc hpc
    rw [decide_eq_false_iff_not]
    rintro rfl
    exact h hpc
  rw [arrive, hnone]
  cases s.mq.messages.isEmpty <;> rfl

theorem next_untouched (s : State) (label : Label) (t : State)
    (hs : Untouched s) (h : next s label = some t) : Untouched t := by
  cases label with
  | send data =>
      obtain ⟨-, rfl⟩ := guarded_eq_some.mp h
      have hnever : ThreadPc.waiting ∉
          { s with sent := s.sent ++ [sendDemo data] }.threads := hs.never
      rw [arrive_of_not_waiting hnever]
      refine ⟨hs.size, hs.nothing, ?_, ?_⟩
      · simp [Mq.arrive, hs.queued]
      · split <;> simp [hs.never]
  | thread i =>
      obtain ⟨pc, hpc, hmove⟩ := Option.bind_eq_some_iff.mp h
      have hset (new : ThreadPc) (hnew : new ≠ .waiting) :
          ThreadPc.waiting ∉ s.threads.set i new := by
        intro hmem
        rcases List.mem_or_eq_of_mem_set hmem with hold | hwaiting
        · exact hs.never hold
        · exact hnew hwaiting.symm
      cases pc with
      | notify =>
          simp only [threadFunc] at hmove
          split at hmove
          · cases hmove
            exact ⟨hs.size, hs.nothing, hs.queued, hset _ (by simp)⟩
          · cases hmove
            exact ⟨hs.size, hs.nothing, hs.queued, hset _ (by simp)⟩
      | receive =>
          cases hmove
          rw [threadReceive, receive_maxMsg hs.size]
          exact ⟨hs.size, hs.nothing, hs.queued, hset _ (by simp)⟩
      | waiting | ended => cases hmove

theorem thread_sent {s t : State} {i : ℕ}
    (h : next s (.thread i) = some t) : t.sent = s.sent := by
  obtain ⟨pc, -, hmove⟩ := Option.bind_eq_some_iff.mp h
  cases pc with
  | notify =>
      simp only [threadFunc] at hmove
      split at hmove <;> cases hmove <;> rfl
  | receive =>
      cases hmove
      unfold threadReceive
      split <;> rfl
  | waiting | ended => cases hmove

/-- No run of the demo receives any message. -/
theorem nothing_received {labels : List Label} {s : State}
    (hrun : exec next start labels = some s) : s.received = [] :=
  (exec_invariant next_untouched start_untouched hrun).nothing

/-- A message has been sent, and the thread that was to receive it has
ended. -/
theorem thread_gives_up (data : Fin 128 → Byte) :
    exec next start [.send data, .thread 0, .thread 0] = some {
      mq := { createDemo with
        messages := [sendDemo data]
        registered := true }
      threads := [.ended]
      notices := []
      sent := [sendDemo data]
      received := [] } := by
  have haccepts : start.mq.Accepts (sendDemo data) := by
    refine ⟨by decide, ?_⟩
    rw [sendDemo_length]
    decide
  have hsend : next start (.send data) = some { start with
      mq := createDemo.arrive (sendDemo data)
      threads := [.notify]
      sent := [sendDemo data] } := by
    simp only [next, if_pos haccepts]
    rfl
  rw [exec, hsend]
  rfl

/-- For any sequence of messages, in every interleaving: all of them are
received once and none is left unattended exactly when there are none. -/
theorem delivers_iff (messages : List (Fin 128 → Byte)) :
    (∀ labels s, sends labels <+: messages →
      exec next start labels = some s → Delivers s) ↔ messages = [] := by
  constructor
  · intro hdelivers
    cases messages with
    | nil => rfl
    | cons data rest =>
        have hrun := thread_gives_up data
        have hattended := (hdelivers _ _ (by simp [sends]) hrun).attended
        simp at hattended
  · rintro rfl labels s hsends hrun
    have hnone : ∀ label ∈ labels, ∀ data, label ≠ .send data := by
      rintro label hlabel data rfl
      have hmem : data ∈ sends labels := List.mem_filterMap.mpr ⟨_, hlabel, rfl⟩
      rw [List.prefix_nil.mp hsends] at hmem
      cases hmem
    have hstep (u : State) (label : Label) (v : State)
        (hlabel : ∀ data, label ≠ .send data) (hu : Untouched u ∧ u.sent = [])
        (h : next u label = some v) : Untouched v ∧ v.sent = [] := by
      refine ⟨next_untouched u label v hu.1 h, ?_⟩
      cases label with
      | send data => exact absurd rfl (hlabel data)
      | thread i => exact (thread_sent h).trans hu.2
    obtain ⟨huntouched, hsent⟩ := exec_invariant_of_labels hstep hnone
      ⟨start_untouched, rfl⟩ hrun
    have hempty : s.mq.messages = [] := huntouched.queued.trans hsent
    refine ⟨?_, fun hmessages => absurd hempty hmessages⟩
    rw [hsent, huntouched.nothing, hempty]
    rfl

/-- One `send_demo` run: its message stays on the queue, and the only thread
has ended with the error of `mq_receive`. -/
theorem message_unattended :
    ∃ s, exec next start [.send fun _ => 0, .thread 0, .thread 0] = some s ∧
      s.mq.messages = [sendDemo fun _ => 0] ∧ s.threads = [.ended] ∧
      s.received = [] ∧ ¬ Delivers s := by
  refine ⟨_, thread_gives_up _, rfl, rfl, rfl, ?_⟩
  intro hdelivers
  have hattended := hdelivers.attended
  simp at hattended

end ThrNotify

end PosixMq

end MyFreeLib
