/-
What the channel transfers.  Every queue, with the name or without, is first in
first out, and each process puts one message at most into it or takes one out.
-/
import MyFreeLib.PosixMqChannel

namespace MyFreeLib

namespace PosixMq

namespace Channel

/-- What has been executed of the demo. -/
def Process.done (p : Process) : List Stmt := p.demo.program.take p.pc

def Process.at (p : Process) (stmt : Stmt) : Prop :=
  StandsAt p.demo.program p.pc p.status stmt

/-- The calls that move a message. -/
def Stmt.transfers : Stmt → Bool
  | .mqTimedsend | .mqTimedreceive => true
  | _ => false

/-- What must have been done before a message is moved. -/
def Stmt.prepares : Stmt → Bool
  | .mqOpenNew | .mqOpen | .malloc => true
  | _ => false

theorem not_prepares_of_inits (demo : Demo) :
    ∀ done ∈ demo.program.inits, ∀ stmt ∈ demo.program.drop done.length,
      stmt.prepares ∨ stmt.transfers → ∀ earlier ∈ done,
        ¬ earlier.transfers := by
  cases demo <;> decide

/-- A message is moved after all preparations, and once. -/
theorem Process.at.not_transfers {p : Process} {stmt : Stmt} (h : p.at stmt)
    (hstmt : stmt.prepares ∨ stmt.transfers) :
    ∀ earlier ∈ p.done, ¬ earlier.transfers := by
  refine forall_take_drop (P := fun done rest => ∀ stmt ∈ rest,
    stmt.prepares ∨ stmt.transfers → ∀ earlier ∈ done, ¬ earlier.transfers)
    (not_prepares_of_inits p.demo) p.pc stmt ?_ hstmt
  rw [drop_of_getElem? h.2]
  exact List.mem_cons_self

/-- What a process becomes by its next call, and the queues. -/
inductive Move (s : State) (i : ℕ) (p : Process) :
    Process → List Queue → Prop
  | ends {status : Status} (hrun : p.status = .running)
      (hends : status ≠ .running) :
      Move s i p { p with status } s.queues.objects
  | advances {stmt : Stmt} (hat : p.at stmt) (hstmt : ¬ stmt.transfers) :
      Move s i p { p with pc := p.pc + 1 } s.queues.objects
  | creates (hat : p.at .mqOpenNew) : Move s i p
      { p with pc := p.pc + 1, mq := some s.queues.objects.length }
      (s.queues.objects ++ [Queue.new])
  | opens {k : ℕ} (hat : p.at .mqOpen) (hk : s.queues.named = some k) :
      Move s i p { p with pc := p.pc + 1, mq := some k } s.queues.objects
  | allocates (hat : p.at .malloc) : Move s i p
      { p with pc := p.pc + 1, msg := some p.memory } s.queues.objects
  | sends {k : ℕ} {queue : Queue} (hat : p.at .mqTimedsend)
      (hk : p.mq = some k) (hqueue : s.queues.objects[k]? = some queue)
      {after : Queue} (hsend : queue.send i (sendDemo p.data) = some after) :
      Move s i p { p with pc := p.pc + 1 } (s.queues.objects.set k after)
  | receives {k : ℕ} {queue : Queue} (hat : p.at .mqTimedreceive)
      (hk : p.mq = some k) (hqueue : s.queues.objects[k]? = some queue)
      {after : Queue} {bytes : Message}
      (hreceive : queue.receive i = some (bytes, after)) {memory : List Byte}
      (hmemory : p.msg = some memory) : Move s i p
      { p with
        pc := p.pc + 1
        msg := some (overlay bytes memory)
        got := some bytes }
      (s.queues.objects.set k after)
  | loses {k : ℕ} {queue : Queue} (hat : p.at .mqTimedreceive)
      (hk : p.mq = some k) (hqueue : s.queues.objects[k]? = some queue)
      {after : Queue} {bytes : Message}
      (hreceive : queue.receive i = some (bytes, after)) : Move s i p
      { p with got := some bytes, status := .ended (some (-1)) }
      (s.queues.objects.set k after)

theorem queue_eq_some {s : State} {p : Process} {k : ℕ} {queue : Queue}
    (h : s.queue p = some (k, queue)) :
    p.mq = some k ∧ s.queues.objects[k]? = some queue := by
  obtain ⟨j, hj, hmap⟩ := Option.bind_eq_some_iff.mp h
  obtain ⟨other, hother, heq⟩ := Option.map_eq_some_iff.mp hmap
  obtain ⟨rfl, rfl⟩ := Prod.mk.inj heq
  exact ⟨hj, hother⟩

/-- One of the demos' notices of a failure. -/
def IsNotice (line : List Byte) : Prop :=
  line = text "malloc fail.\n" ∨
    (∃ stmt : Stmt, ∃ message, stmt.failure = some message ∧
      line = text message) ∨
    ∃ errno, line = text (receiveFailure errno)

/-- What a process prints with its next call. -/
inductive Says (s : State) (p : Process) : List Byte → Prop
  | notice {line : List Byte} (h : IsNotice line) : Says s p line
  | message {msg : List Byte} (hat : p.at .printMessage)
      (hmsg : p.msg = some msg) : Says s p (messageLine msg)
  | defaults (hat : p.at .printDefaults) : Says s p (defaultsLine s.defaults)
  | attributes {k : ℕ} {queue : Queue} (hat : p.at .printAttributes)
      (hqueue : s.queues.objects[k]? = some queue) :
      Says s p (attributesLine queue.mq)

/-- What its next call does to the name `"/test"`. -/
inductive Names (s : State) (p q : Process) (t : State) : Prop
  | keeps (htest : t.test = s.test) (hat : p.at .mqOpenTest → q.pc = p.pc)
  | takes (hat : p.at .mqOpenTest) (hpc : q.pc = p.pc + 1)
      (hfree : s.test = false) (htest : t.test = true)
  | gives (hat : p.at .mqUnlinkTest) (hpc : q.pc = p.pc + 1)
      (htest : t.test = false)

/-- All that the next call of a process can do. -/
structure Turn (s : State) (i : ℕ) (p q : Process) (t : State) : Prop where
  processes : t.processes = s.processes.set i q
  defaults : t.defaults = s.defaults
  move : Move s i p q t.queues.objects
  output : t.output = s.output ∨
    ∃ line, t.output = s.output ++ [(i, line)] ∧ Says s p line
  names : Names s p q t

theorem execute_turn {s t : State} {i : ℕ} {p : Process} {stmt : Stmt}
    (hat : p.at stmt) (h : execute s i p stmt = some t) :
    ∃ q, Turn s i p q t := by
  have advances (hstmt : stmt.transfers = false) : Move s i p
      { p with pc := p.pc + 1 } s.queues.objects :=
    .advances hat (by simp [hstmt])
  have keeps {q : Process} {t : State} (htest : t.test = s.test)
      (hne : .mqOpenTest ≠ stmt) : Names s p q t :=
    .keeps htest fun hopen => absurd (hopen.eq hat) hne
  cases stmt with
  | mqOpenNew =>
      obtain ⟨queues, hqueues, rfl⟩ := Option.map_eq_some_iff.mp h
      obtain ⟨hobjects, hnamed⟩ := NamedObjects.create_eq_some hqueues
      refine ⟨_, rfl, rfl, ?_, Or.inl rfl, keeps rfl (by simp)⟩
      rw [hnamed]
      simp only [State.put, hobjects]
      exact .creates hat
  | mqOpen =>
      obtain ⟨k, hk, rfl⟩ := Option.map_eq_some_iff.mp h
      exact ⟨_, rfl, rfl, .opens hat hk, Or.inl rfl, keeps rfl (by simp)⟩
  | mqUnlink =>
      obtain ⟨k, -, rfl⟩ := Option.map_eq_some_iff.mp h
      exact ⟨_, rfl, rfl, advances rfl, Or.inl rfl, keeps rfl (by simp)⟩
  | mqTimedsend =>
      obtain ⟨⟨k, queue⟩, hk, hmap⟩ := Option.bind_eq_some_iff.mp h
      obtain ⟨after, hafter, rfl⟩ := Option.map_eq_some_iff.mp hmap
      obtain ⟨hmq, hqueue⟩ := queue_eq_some hk
      exact ⟨_, rfl, rfl, .sends hat hmq hqueue hafter, Or.inl rfl,
        keeps rfl (by simp)⟩
  | malloc =>
      cases h
      exact ⟨_, rfl, rfl, .allocates hat, Or.inl rfl, keeps rfl (by simp)⟩
  | mqTimedreceive =>
      obtain ⟨⟨k, queue⟩, hk, hbind⟩ := Option.bind_eq_some_iff.mp h
      obtain ⟨memory, hmemory, hmap⟩ := Option.bind_eq_some_iff.mp hbind
      obtain ⟨⟨bytes, after⟩, hafter, rfl⟩ := Option.map_eq_some_iff.mp hmap
      obtain ⟨hmq, hqueue⟩ := queue_eq_some hk
      exact ⟨_, rfl, rfl, .receives hat hmq hqueue hafter hmemory, Or.inl rfl,
        keeps rfl (by simp)⟩
  | mqOpenTest =>
      obtain ⟨hfree, ht⟩ := Option.ite_none_left_eq_some.mp h
      cases ht
      exact ⟨_, rfl, rfl, advances rfl, Or.inl rfl,
        .takes hat rfl (eq_false_of_ne_true hfree) rfl⟩
  | mqUnlinkTest =>
      cases h
      exact ⟨_, rfl, rfl, advances rfl, Or.inl rfl, .gives hat rfl rfl⟩
  | printMessage =>
      obtain ⟨msg, hmsg, rfl⟩ := Option.map_eq_some_iff.mp h
      exact ⟨_, rfl, rfl, advances rfl, Or.inr ⟨_, rfl, .message hat hmsg⟩,
        keeps rfl (by simp)⟩
  | printAttributes =>
      obtain ⟨⟨k, queue⟩, hk, rfl⟩ := Option.map_eq_some_iff.mp h
      have hqueue := (queue_eq_some hk).2
      exact ⟨_, rfl, rfl, advances rfl,
        Or.inr ⟨_, rfl, .attributes hat hqueue⟩, keeps rfl (by simp)⟩
  | printDefaults =>
      cases h
      exact ⟨_, rfl, rfl, advances rfl, Or.inr ⟨_, rfl, .defaults hat⟩,
        keeps rfl (by simp)⟩
  | mqClose =>
      cases h
      exact ⟨_, rfl, rfl, advances rfl, Or.inl rfl, keeps rfl (by simp)⟩

theorem step_turn {s t : State} {i : ℕ} {p : Process}
    (h : step s i p = some t) : ∃ q, Turn s i p q t := by
  rcases Status.turn_eq_some h with ⟨stmt, hat, hcall⟩ | ⟨hrun, -, hend⟩
  · exact execute_turn hat hcall
  · cases hend
    exact ⟨_, rfl, rfl, .ends hrun (by simp), Or.inl rfl,
      .keeps rfl fun _ => rfl⟩

theorem refuse_turn {s t : State} {i errno : ℕ} {p : Process} {stmt : Stmt}
    (hat : p.at stmt) (h : refuse s i errno p stmt = some t) :
    ∃ q, Turn s i p q t := by
  have hreceive : IsNotice (text (receiveFailure errno)) :=
    Or.inr (Or.inr ⟨errno, rfl⟩)
  have passes {q : Process} (hne : .mqOpenTest ≠ stmt) :
      Names s p q (s.put i q) :=
    .keeps rfl fun hopen => absurd (hopen.eq hat) hne
  unfold refuse at h
  split at h
  case h_1 =>
    cases h
    exact ⟨_, rfl, rfl, .advances hat (by simp [Stmt.transfers]),
      Or.inr ⟨_, rfl, .notice (Or.inl rfl)⟩,
      .keeps rfl fun hopen => absurd (hopen.eq hat) (by simp)⟩
  case h_2 | h_3 =>
    cases h
    exact ⟨_, rfl, rfl, .advances hat (by simp [Stmt.transfers]),
      Or.inl rfl, passes (by simp)⟩
  case h_4 =>
    obtain ⟨⟨k, queue⟩, hk, hmatch⟩ := Option.bind_eq_some_iff.mp h
    obtain ⟨hmq, hqueue⟩ := queue_eq_some hk
    simp only at hmatch
    split at hmatch
    case h_1 =>
      cases hmatch
      exact ⟨_, rfl, rfl, .ends hat.running (by simp),
        Or.inr ⟨_, rfl, .notice hreceive⟩, .keeps rfl fun _ => rfl⟩
    case h_2 bytes after hafter hmsg =>
      cases hmatch
      exact ⟨_, rfl, rfl, .loses hat hmq hqueue hafter,
        Or.inr ⟨_, rfl, .notice hreceive⟩, .keeps rfl fun _ => rfl⟩
    case h_3 => cases hmatch
  case h_5 =>
    obtain ⟨message, hmessage, rfl⟩ := Option.map_eq_some_iff.mp h
    exact ⟨_, rfl, rfl, .ends hat.running (by simp), Or.inr ⟨_, rfl,
      .notice (Or.inr (Or.inl ⟨stmt, message, hmessage, rfl⟩))⟩,
      .keeps rfl fun _ => rfl⟩

theorem fails_turn {s t : State} {i errno : ℕ} {p : Process}
    (h : fails s i errno p = some t) : ∃ q, Turn s i p q t := by
  rcases Status.turn_eq_some h with ⟨stmt, hat, hcall⟩ | ⟨-, -, hnone⟩
  · exact refuse_turn hat hcall
  · cases hnone

theorem kill_turn {s t : State} {i : ℕ} {p : Process}
    (h : kill s i p = some t) : ∃ q, Turn s i p q t := by
  obtain ⟨hrun, rfl⟩ := Status.signal_eq_some h
  exact ⟨_, rfl, rfl, .ends hrun (by simp), Or.inl rfl,
    .keeps rfl fun _ => rfl⟩

/-- A process is launched or has its turn. -/
theorem next_cases {s t : State} {label : Label}
    (h : next s label = some t) :
    (∃ demo data memory, t = { s with processes :=
      s.processes ++ [⟨demo, 0, data, memory, none, none, none, .running⟩] }) ∨
    ∃ i p q, s.processes[i]? = some p ∧ Turn s i p q t := by
  cases label with
  | launch demo data memory =>
      cases h
      exact Or.inl ⟨demo, data, memory, rfl⟩
  | step i =>
      obtain ⟨p, hp, hstep⟩ := Option.bind_eq_some_iff.mp h
      obtain ⟨q, hturn⟩ := step_turn hstep
      exact Or.inr ⟨i, p, q, hp, hturn⟩
  | fails i errno =>
      obtain ⟨p, hp, hfails⟩ := Option.bind_eq_some_iff.mp h
      obtain ⟨q, hturn⟩ := fails_turn hfails
      exact Or.inr ⟨i, p, q, hp, hturn⟩
  | kill i =>
      obtain ⟨p, hp, hkill⟩ := Option.bind_eq_some_iff.mp h
      obtain ⟨q, hturn⟩ := kill_turn hkill
      exact Or.inr ⟨i, p, q, hp, hturn⟩

/-! ### The queues -/

/-- A queue as the demos make it and use it: what has been taken from it and
what is in it is what has been sent to it. -/
structure Queue.Sound (queue : Queue) : Prop where
  maxmsg : queue.mq.maxmsg = maxMsg
  msgsize : queue.mq.msgsize = msgSize
  bounded : queue.mq.messages.length ≤ maxMsg
  inOrder : queue.taken.map Prod.snd ++ queue.mq.messages =
    queue.sent.map Prod.snd
  hellos : ∀ message ∈ queue.sent.map Prod.snd, ∃ data,
    message = sendDemo data

theorem Queue.new_sound : Queue.new.Sound := by
  constructor <;> simp [Queue.new, createDemo]

theorem Queue.Sound.send {queue after : Queue} {i : ℕ}
    {data : Fin 128 → Byte} (h : queue.Sound)
    (hsend : queue.send i (sendDemo data) = some after) :
    after.Sound ∧ after.taken = queue.taken ∧
      after.sent = queue.sent ++ [(i, sendDemo data)] := by
  obtain ⟨⟨hroom, -⟩, hafter⟩ := Option.ite_none_right_eq_some.mp hsend
  cases hafter
  refine ⟨⟨h.maxmsg, h.msgsize, ?_, ?_, ?_⟩, rfl, rfl⟩
  · rw [h.maxmsg] at hroom
    rw [Mq.arrive, List.length_append, List.length_singleton]
    exact hroom
  · simp only [Mq.arrive, List.map_append, ← List.append_assoc, h.inOrder]
    rfl
  · rw [List.map_append]
    exact forall_mem_concat h.hellos ⟨data, rfl⟩

/-- The message taken is the oldest that has not been taken before. -/
theorem Queue.Sound.receive {queue after : Queue} {i : ℕ} {bytes : Message}
    (h : queue.Sound) (hreceive : queue.receive i = some (bytes, after)) :
    after.Sound ∧ after.sent = queue.sent ∧
      after.taken = queue.taken ++ [(i, bytes)] ∧
      ∃ data, bytes = sendDemo data := by
  have hsize : ¬ msgSize < queue.mq.msgsize := by rw [h.msgsize]; omega
  rw [Queue.receive, Mq.receive, if_neg hsize] at hreceive
  cases hmessages : queue.mq.messages with
  | nil => simp [hmessages] at hreceive
  | cons first rest =>
      simp only [hmessages, Option.some.injEq, Prod.mk.injEq] at hreceive
      obtain ⟨rfl, rfl⟩ := hreceive
      have hbounded := h.bounded
      have hinOrder := h.inOrder
      rw [hmessages] at hbounded hinOrder
      refine ⟨⟨h.maxmsg, h.msgsize, ?_, ?_, h.hellos⟩, rfl, rfl, ?_⟩
      · rw [List.length_cons] at hbounded
        exact Nat.le_of_succ_le hbounded
      · simpa using hinOrder
      · apply h.hellos
        rw [← hinOrder]
        simp

/-! ### Who has done what -/

/-- The process has sent the message to queue `k`. -/
def DidSend (p : Process) (k : ℕ) (message : Message) : Prop :=
  p.mq = some k ∧ .mqTimedsend ∈ p.done ∧ message = sendDemo p.data

/-- The process has taken the message from queue `k`. -/
def DidTake (p : Process) (k : ℕ) (message : Message) : Prop :=
  p.mq = some k ∧ p.got = some message

/-- What a process has received it has taken, and then printed or not. -/
structure Process.Sound (p : Process) (count : ℕ) : Prop where
  mq : ∀ k, p.mq = some k → k < count
  unread : p.got = none → ∀ memory, p.msg = some memory → memory = p.memory
  got : p.got.isSome → .mqTimedreceive ∈ p.done ∨ p.status ≠ .running
  received : .mqTimedreceive ∈ p.done → ∃ data,
    p.got = some (sendDemo data) ∧
      p.msg = some (overlay (sendDemo data) p.memory)

theorem Process.Sound.mono {p : Process} {count count' : ℕ}
    (h : p.Sound count) (hle : count ≤ count') : p.Sound count' :=
  ⟨fun k hk => (h.mq k hk).trans_le hle, h.unread, h.got, h.received⟩

/-- Before its transfer a process has neither sent nor taken anything. -/
theorem Process.Sound.fresh {p : Process} {stmt : Stmt} {count : ℕ}
    (h : p.Sound count) (hat : p.at stmt)
    (hstmt : stmt.prepares ∨ stmt.transfers) :
    .mqTimedsend ∉ p.done ∧ .mqTimedreceive ∉ p.done ∧ p.got = none := by
  have hnone := hat.not_transfers hstmt
  have hsend : .mqTimedsend ∉ p.done := fun h => hnone _ h rfl
  have hreceive : .mqTimedreceive ∉ p.done := fun h => hnone _ h rfl
  refine ⟨hsend, hreceive, ?_⟩
  by_contra hgot
  rcases h.got (Option.isSome_iff_ne_none.mpr hgot) with hdone | hstopped
  · exact hreceive hdone
  · exact hstopped hat.1

theorem Process.at.mem_done_succ {p : Process} {stmt other : Stmt}
    (h : p.at stmt) (hne : other ≠ stmt) :
    other ∈ p.demo.program.take (p.pc + 1) ↔ other ∈ p.done := by
  rw [h.take_succ, ← Process.done, List.mem_append, List.mem_singleton]
  simp [hne]

/-- Preparing changes nothing about what a process has done. -/
theorem Process.Sound.prepared {p : Process} {stmt : Stmt}
    {count count' : ℕ} (h : p.Sound count) (hat : p.at stmt)
    (hstmt : stmt.prepares) (q : Process) (hdone : q.done = p.done ++ [stmt])
    (hgot : q.got = p.got) (hmq : ∀ k, q.mq = some k → k < count')
    (hunread : q.got = none → ∀ memory, q.msg = some memory →
      memory = q.memory) :
    q.Sound count' ∧ (∀ k m, DidSend q k m ↔ DidSend p k m) ∧
      ∀ k m, DidTake q k m ↔ DidTake p k m := by
  obtain ⟨hsend, hreceive, hnone⟩ := h.fresh hat (Or.inl hstmt)
  have hnew (other : Stmt) (hother : other.transfers)
      (hold : other ∉ p.done) : other ∉ q.done := by
    rw [hdone, List.mem_append, List.mem_singleton]
    rintro (hmem | rfl)
    · exact hold hmem
    · cases other <;> simp [Stmt.prepares, Stmt.transfers] at hstmt hother
  have hsend' := hnew .mqTimedsend rfl hsend
  have hreceive' := hnew .mqTimedreceive rfl hreceive
  refine ⟨⟨hmq, hunread, fun hsome => ?_,
    fun hmem => absurd hmem hreceive'⟩, ?_, ?_⟩
  · simp [hgot, hnone] at hsome
  · intro k m
    simp [DidSend, hsend, hsend']
  · intro k m
    simp [DidTake, hgot, hnone]

structure Inv (s : State) : Prop where
  queues : ∀ queue ∈ s.queues.objects, queue.Sound
  processes : ∀ p ∈ s.processes, p.Sound s.queues.objects.length
  sent : Attributed DidSend (s.queues.objects.map Queue.sent) s.processes
  taken : Attributed DidTake (s.queues.objects.map Queue.taken) s.processes

theorem start_inv (defaults : ℕ × ℕ) : Inv (start defaults) := by
  constructor <;> simp [start, Attributed]

section Moves

variable {s t : State} {i : ℕ} {p q : Process}

/-- A process does nothing to the queues. -/
theorem Inv.quiet (hs : Inv s) (hp : s.processes[i]? = some p)
    (ht : t.processes = s.processes.set i q)
    (hobjects : t.queues.objects = s.queues.objects)
    (hq : q.Sound s.queues.objects.length)
    (hsend : ∀ k m, DidSend q k m ↔ DidSend p k m)
    (htake : ∀ k m, DidTake q k m ↔ DidTake p k m) : Inv t := by
  constructor
  · rw [hobjects]
    exact hs.queues
  · rw [hobjects, ht]
    exact forall_mem_set hs.processes hq
  · rw [hobjects, ht]
    exact hs.sent.keep hp hsend
  · rw [hobjects, ht]
    exact hs.taken.keep hp htake

/-- A process makes a queue and has done nothing to it yet. -/
theorem Inv.creates (hs : Inv s) (hp : s.processes[i]? = some p)
    (ht : t.processes = s.processes.set i q)
    (hobjects : t.queues.objects = s.queues.objects ++ [Queue.new])
    (hq : q.Sound (s.queues.objects.length + 1))
    (hsend : ∀ k m, DidSend q k m ↔ DidSend p k m)
    (htake : ∀ k m, DidTake q k m ↔ DidTake p k m) : Inv t := by
  have hlength (r : Process) (hr : r ∈ s.processes)
      (log : Queue → List (ℕ × Message)) :
      r.mq ≠ some (s.queues.objects.map log).length := by
    intro hmq
    have hlt := (hs.processes r hr).mq _ hmq
    rw [List.length_map] at hlt
    exact lt_irrefl _ hlt
  constructor
  · rw [hobjects]
    exact forall_mem_concat hs.queues Queue.new_sound
  · rw [hobjects, ht, List.length_append, List.length_singleton]
    refine forall_mem_set (fun r hr => ?_) hq
    exact (hs.processes r hr).mono (Nat.le_succ _)
  · rw [hobjects, ht, List.map_append]
    refine (hs.sent.create fun r hr m hdid => ?_).keep hp hsend
    exact hlength r hr _ hdid.1
  · rw [hobjects, ht, List.map_append]
    refine (hs.taken.create fun r hr m hdid => ?_).keep hp htake
    exact hlength r hr _ hdid.1

theorem Inv.sends (hs : Inv s) (hp : s.processes[i]? = some p) {k : ℕ}
    {queue after : Queue} (hat : p.at .mqTimedsend) (hk : p.mq = some k)
    (hqueue : s.queues.objects[k]? = some queue)
    (hsend : queue.send i (sendDemo p.data) = some after)
    (ht : t.processes = s.processes.set i { p with pc := p.pc + 1 })
    (hobjects : t.queues.objects = s.queues.objects.set k after) : Inv t := by
  have hsound := hs.processes p (List.mem_of_getElem? hp)
  obtain ⟨hnew, -, -⟩ := hsound.fresh hat (Or.inr rfl)
  obtain ⟨hafter, htaken, hsent⟩ :=
    (hs.queues _ (List.mem_of_getElem? hqueue)).send hsend
  have hreceive := hat.mem_done_succ fun heq : Stmt.mqTimedreceive = _ => by
    cases heq
  constructor
  · rw [hobjects]
    exact forall_mem_set hs.queues hafter
  · rw [hobjects, ht, List.length_set]
    refine forall_mem_set hs.processes ⟨hsound.mq, hsound.unread,
      fun hgot => ?_, fun hmem => hsound.received (hreceive.mp hmem)⟩
    exact (hsound.got hgot).imp_left hreceive.mpr
  · rw [hobjects, ht, List.map_set, hsent]
    refine hs.sent.record hp (by rw [List.getElem?_map, hqueue]; rfl)
      (fun j m hdid => hnew hdid.2.1) fun j m => ?_
    have hmem : Stmt.mqTimedsend ∈
        p.demo.program.take (p.pc + 1) := by simp [hat.take_succ]
    simp [DidSend, Process.done, hmem, hk, eq_comm]
  · rw [hobjects, ht, map_set_eq hqueue htaken]
    exact hs.taken.keep hp fun _ _ => Iff.rfl

/-- A process takes its message, whatever it does with it. -/
theorem Inv.takes (hs : Inv s) (hp : s.processes[i]? = some p) {k : ℕ}
    {queue after : Queue} {bytes : Message} (hk : p.mq = some k)
    (hqueue : s.queues.objects[k]? = some queue)
    (hreceive : queue.receive i = some (bytes, after))
    (hnone : p.got = none) (ht : t.processes = s.processes.set i q)
    (hobjects : t.queues.objects = s.queues.objects.set k after)
    (hq : q.Sound s.queues.objects.length) (hmq : q.mq = p.mq)
    (hgot : q.got = some bytes)
    (hsend : ∀ k m, DidSend q k m ↔ DidSend p k m) : Inv t := by
  obtain ⟨hafter, hsent, htaken, -⟩ :=
    (hs.queues _ (List.mem_of_getElem? hqueue)).receive hreceive
  constructor
  · rw [hobjects]
    exact forall_mem_set hs.queues hafter
  · rw [hobjects, ht, List.length_set]
    exact forall_mem_set hs.processes hq
  · rw [hobjects, ht, map_set_eq hqueue hsent]
    exact hs.sent.keep hp hsend
  · rw [hobjects, ht, List.map_set, htaken]
    refine hs.taken.record hp (by rw [List.getElem?_map, hqueue]; rfl)
      (fun j m hdid => by simp [DidTake, hnone] at hdid) fun j m => ?_
    simp [DidTake, hmq, hgot, hk, eq_comm]

theorem Move.inv (hmove : Move s i p q t.queues.objects) (hs : Inv s)
    (hp : s.processes[i]? = some p)
    (ht : t.processes = s.processes.set i q) : Inv t := by
  have hsound := hs.processes p (List.mem_of_getElem? hp)
  generalize hobjects : t.queues.objects = objects at hmove
  cases hmove with
  | ends hrun hends =>
      exact hs.quiet hp ht hobjects ⟨hsound.mq, hsound.unread,
        fun _ => Or.inr hends, hsound.received⟩ (fun _ _ => Iff.rfl)
        fun _ _ => Iff.rfl
  | advances hat hstmt =>
      have hdone (other : Stmt) (hother : other.transfers) :=
        hat.mem_done_succ fun heq : other = _ => hstmt (heq ▸ hother)
      have hreceive := hdone .mqTimedreceive rfl
      refine hs.quiet hp ht hobjects ⟨hsound.mq, hsound.unread,
        fun hgot => ?_, fun hmem => ?_⟩ (fun k m => ?_) fun _ _ => Iff.rfl
      · exact (hsound.got hgot).imp_left hreceive.mpr
      · exact hsound.received (hreceive.mp hmem)
      · exact and_congr_right fun _ =>
          and_congr_left fun _ => hdone .mqTimedsend rfl
  | @opens k hat hk =>
      have hopened (j : ℕ) (hj : some k = some j) :
          j < s.queues.objects.length := by
        rw [← Option.some.inj hj, ← s.queues.newest k hk]
        exact Nat.lt_succ_self k
      obtain ⟨hq, hsend, htake⟩ := hsound.prepared hat rfl
        { p with pc := p.pc + 1, mq := some k } hat.take_succ rfl hopened
        hsound.unread
      exact hs.quiet hp ht hobjects hq hsend htake
  | allocates hat =>
      obtain ⟨hq, hsend, htake⟩ := hsound.prepared hat rfl
        { p with pc := p.pc + 1, msg := some p.memory } hat.take_succ rfl
        hsound.mq fun _ memory hmemory => (Option.some.inj hmemory).symm
      exact hs.quiet hp ht hobjects hq hsend htake
  | creates hat =>
      obtain ⟨hq, hsend, htake⟩ := hsound.prepared hat rfl
        { p with pc := p.pc + 1, mq := some s.queues.objects.length }
        hat.take_succ rfl (fun j (hj : some _ = some j) => by
          rw [← Option.some.inj hj]
          exact Nat.lt_succ_self _) hsound.unread
      exact hs.creates hp ht hobjects hq hsend htake
  | sends hat hk hqueue hsend =>
      exact hs.sends hp hat hk hqueue hsend ht hobjects
  | @receives k queue hat hk hqueue after bytes hreceive memory hmemory =>
      obtain ⟨-, -, hnone⟩ := hsound.fresh hat (Or.inr rfl)
      obtain ⟨-, -, -, data, rfl⟩ :=
        (hs.queues _ (List.mem_of_getElem? hqueue)).receive hreceive
      have hmem : Stmt.mqTimedreceive ∈ p.demo.program.take (p.pc + 1) := by
        simp [hat.take_succ]
      have hsend := hat.mem_done_succ fun heq : Stmt.mqTimedsend = _ => by
        cases heq
      refine hs.takes hp hk hqueue hreceive hnone ht hobjects
        ⟨hsound.mq, by simp, fun _ => Or.inl hmem, fun _ => ?_⟩ rfl rfl
        fun j m => ?_
      · exact ⟨data, rfl, by rw [hsound.unread hnone memory hmemory]⟩
      · exact and_congr_right fun _ => and_congr_left fun _ => hsend
  | loses hat hk hqueue hreceive =>
      obtain ⟨-, hno, hnone⟩ := hsound.fresh hat (Or.inr rfl)
      exact hs.takes hp hk hqueue hreceive hnone ht hobjects
        ⟨hsound.mq, by simp, fun _ => Or.inr (by simp),
          fun hdone => absurd hdone hno⟩ rfl rfl fun _ _ => Iff.rfl

end Moves

theorem next_inv {s t : State} {label : Label} (hs : Inv s)
    (h : next s label = some t) : Inv t := by
  rcases next_cases h with ⟨demo, data, memory, rfl⟩ | ⟨i, p, q, hp, hturn⟩
  · constructor
    · exact hs.queues
    · refine forall_mem_concat hs.processes ⟨?_, ?_, ?_, ?_⟩ <;>
        simp [Process.done]
    · exact hs.sent.launch fun k m hdid => by simp [DidSend] at hdid
    · exact hs.taken.launch fun k m hdid => by simp [DidTake] at hdid
  · exact hturn.move.inv hs hp hturn.processes

theorem exec_inv {s : State} {defaults : ℕ × ℕ} {labels : List Label}
    (hrun : exec next (start defaults) labels = some s) : Inv s :=
  exec_invariant (fun _ _ _ => next_inv) (start_inv defaults) hrun

/-! ### What is printed -/

/-- What a process may have printed. -/
structure Process.MayPrint (p : Process) (defaults : ℕ × ℕ)
    (line : List Byte) : Prop where
  receive : p.demo = .receive →
    IsNotice line ∨ p.got.isSome ∧ line = text "type=1, data=Hello world.\n\n"
  getattr : p.demo = .getattr →
    IsNotice line ∨ line = defaultsLine defaults ∨
      line = text "mq_maxmsg = 5\nmq_msgsize = 2048\n"
  others : p.demo ≠ .receive → p.demo ≠ .getattr → IsNotice line

theorem Process.MayPrint.of_notice {p : Process} {defaults : ℕ × ℕ}
    {line : List Byte} (h : IsNotice line) : p.MayPrint defaults line :=
  ⟨fun _ => Or.inl h, fun _ => Or.inl h, fun _ _ => h⟩

/-- Whatever the memory of the two processes held, the line is the same. -/
theorem messageLine_sendDemo (data : Fin 128 → Byte) (memory : List Byte) :
    messageLine (overlay (sendDemo data) memory) =
      text "type=1, data=Hello world.\n\n" := by
  have hzero : 0 ∉ text "Hello world.\n" := by decide
  have htype (rest : List Byte) : bytesInt (intBytes 1 ++ rest) = 1 :=
    bytesInt_intBytes (by norm_num) (by norm_num) rest
  have hdrop (rest : List Byte) : (intBytes 1 ++ rest).drop 4 = rest :=
    List.drop_left' (intBytes_length 1)
  simp only [messageLine, sendDemo, overlay, List.append_assoc, htype, hdrop,
    List.cons_append, cString_append_zero hzero]
  decide

theorem program_prints (demo : Demo) :
    ∀ done ∈ demo.program.inits,
      ((demo.program.drop done.length).head? = some .printMessage →
        demo = .receive ∧ .mqTimedreceive ∈ done) ∧
      ((demo.program.drop done.length).head? = some .printDefaults →
        demo = .getattr) ∧
      ((demo.program.drop done.length).head? = some .printAttributes →
        demo = .getattr) := by
  cases demo <;> decide

theorem Process.at.prints {p : Process} {stmt : Stmt} (h : p.at stmt) :
    (stmt = .printMessage → p.demo = .receive ∧ .mqTimedreceive ∈ p.done) ∧
      (stmt = .printDefaults → p.demo = .getattr) ∧
      (stmt = .printAttributes → p.demo = .getattr) := by
  have hplace := forall_take_drop (P := fun done (rest : List Stmt) =>
    (rest.head? = some .printMessage →
      p.demo = .receive ∧ .mqTimedreceive ∈ done) ∧
    (rest.head? = some .printDefaults → p.demo = .getattr) ∧
    (rest.head? = some .printAttributes → p.demo = .getattr))
    (program_prints p.demo) p.pc
  rw [drop_of_getElem? h.2, List.head?_cons] at hplace
  refine ⟨?_, ?_, ?_⟩
  · rintro rfl
    exact hplace.1 rfl
  · rintro rfl
    exact hplace.2.1 rfl
  · rintro rfl
    exact hplace.2.2 rfl

theorem Says.mayPrint {s : State} {p : Process} {line : List Byte}
    (h : Says s p line) (hs : Inv s) (hp : p ∈ s.processes) :
    p.MayPrint s.defaults line := by
  cases h with
  | notice hnotice => exact .of_notice hnotice
  | message hat hmsg =>
      obtain ⟨hdemo, hdone⟩ := hat.prints.1 rfl
      obtain ⟨data, hgot, hread⟩ := (hs.processes p hp).received hdone
      obtain rfl := Option.some.inj (hmsg.symm.trans hread)
      rw [messageLine_sendDemo]
      constructor <;> simp [hdemo, hgot]
  | defaults hat =>
      have hdemo := hat.prints.2.1 rfl
      constructor <;> simp [hdemo]
  | @attributes k queue hat hqueue =>
      have hdemo := hat.prints.2.2 rfl
      have hsound := hs.queues queue (List.mem_of_getElem? hqueue)
      have hline : attributesLine queue.mq =
          text "mq_maxmsg = 5\nmq_msgsize = 2048\n" := by
        rw [attributesLine, hsound.maxmsg, hsound.msgsize]
        decide
      rw [hline]
      constructor <;> simp [hdemo]

/-- Every line has been printed by a process that may print it. -/
def Printed (s : State) : Prop :=
  ∀ i line, (i, line) ∈ s.output →
    ∃ p, s.processes[i]? = some p ∧ p.MayPrint s.defaults line

theorem Move.keeps {s : State} {i : ℕ} {p q : Process} {objects : List Queue}
    (h : Move s i p q objects) :
    q.demo = p.demo ∧ (p.got.isSome → q.got.isSome) := by
  cases h <;> simp

theorem Process.MayPrint.keep {p q : Process} {defaults : ℕ × ℕ}
    {line : List Byte} (h : p.MayPrint defaults line)
    (hq : q.demo = p.demo ∧ (p.got.isSome → q.got.isSome)) :
    q.MayPrint defaults line := by
  constructor
  · rw [hq.1]
    exact fun hdemo => (h.receive hdemo).imp_right (And.imp_left hq.2)
  · rw [hq.1]
    exact h.getattr
  · rw [hq.1]
    exact h.others

theorem next_printed {s t : State} {label : Label} (hs : Inv s)
    (hprinted : Printed s) (h : next s label = some t) : Printed t := by
  rcases next_cases h with ⟨demo, data, memory, rfl⟩ | ⟨i, p, q, hp, hturn⟩
  · intro j line hmem
    obtain ⟨r, hr, hmay⟩ := hprinted j line hmem
    exact ⟨r, getElem?_of_front (List.prefix_append _ _) hr, hmay⟩
  · -- whoever may have printed a line still may
    have later (j : ℕ) (r : Process) (hr : s.processes[j]? = some r)
        (line : List Byte) (hmay : r.MayPrint s.defaults line) :
        ∃ r, t.processes[j]? = some r ∧ r.MayPrint t.defaults line := by
      rw [hturn.processes, hturn.defaults]
      by_cases hj : i = j
      · subst hj
        obtain rfl := Option.some.inj (hp.symm.trans hr)
        refine ⟨q, ?_, hmay.keep hturn.move.keeps⟩
        exact List.getElem?_set_self (List.getElem?_eq_some_iff.mp hp).1
      · exact ⟨r, by rw [List.getElem?_set_ne hj, hr], hmay⟩
    intro j line hmem
    rcases hturn.output with hsame | ⟨new, hnew, hspoken⟩
    · rw [hsame] at hmem
      obtain ⟨r, hr, hmay⟩ := hprinted j line hmem
      exact later j r hr line hmay
    · rw [hnew, List.mem_append, List.mem_singleton, Prod.mk.injEq] at hmem
      rcases hmem with hold | ⟨rfl, rfl⟩
      · obtain ⟨r, hr, hmay⟩ := hprinted j line hold
        exact later j r hr line hmay
      · exact later j p hp line (hspoken.mayPrint hs (List.mem_of_getElem? hp))

theorem exec_printed {s : State} {defaults : ℕ × ℕ} {labels : List Label}
    (hrun : exec next (start defaults) labels = some s) : Printed s := by
  have hkeep (s : State) (label : Label) (t : State)
      (hs : Inv s ∧ Printed s) (h : next s label = some t) :
      Inv t ∧ Printed t :=
    ⟨next_inv hs.1 h, next_printed hs.1 hs.2 h⟩
  have hstart : Inv (start defaults) ∧ Printed (start defaults) := by
    refine ⟨start_inv defaults, ?_⟩
    simp [Printed, start]
  exact (exec_invariant hkeep hstart hrun).2

/-- However the demos are run, fail and are killed beside each other: what has
been taken from a queue and what is still in it are, in this order, what has
been sent to it, each message by one process that had this queue open and each
taken by one, and no more than five wait.  A receiver prints what was sent and
nothing else, if it does not print that something has failed. -/
theorem messages_in_order {s : State} {defaults : ℕ × ℕ}
    {labels : List Label}
    (hrun : exec next (start defaults) labels = some s) :
    (∀ k queue, s.queues.objects[k]? = some queue →
      queue.taken.map Prod.snd ++ queue.mq.messages =
          queue.sent.map Prod.snd ∧
        queue.mq.messages.length ≤ maxMsg ∧
        (queue.sent.map Prod.fst).Nodup ∧
        (∀ i m, (i, m) ∈ queue.sent ↔
          ∃ p, s.processes[i]? = some p ∧ DidSend p k m) ∧
        (queue.taken.map Prod.fst).Nodup ∧
        ∀ i m, (i, m) ∈ queue.taken ↔
          ∃ p, s.processes[i]? = some p ∧ DidTake p k m) ∧
    ∀ i line, (i, line) ∈ s.output → ∃ p, s.processes[i]? = some p ∧
      (p.demo = .receive → IsNotice line ∨
        p.got.isSome ∧ line = text "type=1, data=Hello world.\n\n") := by
  have hs := exec_inv hrun
  constructor
  · intro k queue hqueue
    have hsound := hs.queues queue (List.mem_of_getElem? hqueue)
    obtain ⟨hsent, hsender⟩ :=
      hs.sent k queue.sent (by rw [List.getElem?_map, hqueue]; rfl)
    obtain ⟨htaken, hreceiver⟩ :=
      hs.taken k queue.taken (by rw [List.getElem?_map, hqueue]; rfl)
    exact ⟨hsound.inOrder, hsound.bounded, hsent, hsender, htaken, hreceiver⟩
  · intro i line hline
    obtain ⟨p, hp, hmay⟩ := exec_printed hrun i line hline
    exact ⟨p, hp, hmay.receive⟩

/-- A message is left in a queue that has lost its name, and another has been
received from the queue that has it now. -/
def renamed : List Label :=
  [.launch .create (fun _ => 7) [], .step 0, .launch .send (fun _ => 8) [],
    .step 1, .step 1, .launch .unlink (fun _ => 9) [], .step 2,
    .launch .create (fun _ => 7) [], .step 3, .launch .send (fun _ => 5) [],
    .step 4, .step 4, .launch .receive (fun _ => 7) (List.replicate 2048 6),
    .step 5, .step 5, .step 5, .step 5]

set_option maxRecDepth 4000 in
theorem messages_in_order_renamed :
    ∃ s first second, exec next (start (10, 8192)) renamed = some s ∧
      s.queues.objects = [first, second] ∧
      first.taken.map Prod.snd ++ first.mq.messages =
        first.sent.map Prod.snd ∧
      second.taken.map Prod.snd ++ second.mq.messages =
        second.sent.map Prod.snd := by
  have hrun : exec next (start (10, 8192)) renamed = some _ := rfl
  have hqueues := (messages_in_order hrun).1
  exact ⟨_, _, _, hrun, rfl, (hqueues 0 _ rfl).1, (hqueues 1 _ rfl).1⟩

end Channel

end PosixMq

end MyFreeLib
