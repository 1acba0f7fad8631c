/-
The message queue of the POSIX demos.  A process may register for one
notification, which is sent when a message arrives on the empty queue; then
the registration is gone.
-/
import MyFreeLib.IntBytes

namespace MyFreeLib

namespace PosixMq

/-- `MSG_SIZE` -/
def msgSize : ℕ := 2048

/-- `MAX_MSG` -/
def maxMsg : ℕ := 5

abbrev Message := List Byte

/-- `maxmsg` and `msgsize` are the attributes that the queue was made with. -/
structure Mq where
  maxmsg : ℕ
  msgsize : ℕ
  messages : List Message
  registered : Bool
deriving DecidableEq, Repr

/-- The queue as `create_demo` makes it. -/
def createDemo : Mq := ⟨maxMsg, msgSize, [], false⟩

/-- What a `send_demo` run sends; `data` is what its `msg.data` held before. -/
def sendDemo (data : Fin 128 → Byte) : Message :=
  intBytes 1 ++ overlay (text "Hello world.\n" ++ [0]) (List.ofFn data)

/-- `mq_send` takes the message now; it is refused if too long, and waits or
times out on a full queue. -/
def Mq.Accepts (q : Mq) (message : Message) : Prop :=
  q.messages.length < q.maxmsg ∧ message.length ≤ q.msgsize

instance (q : Mq) (message : Message) : Decidable (q.Accepts message) :=
  inferInstanceAs (Decidable (_ ∧ _))

/-- The next message to arrive is notified. -/
def Mq.fires (q : Mq) : Bool := q.messages.isEmpty && q.registered

/-- A message arrives. -/
def Mq.arrive (q : Mq) (message : Message) : Mq :=
  { q with
    messages := q.messages ++ [message]
    registered := q.registered && !q.fires }

/-- What `mq_receive` finds: a buffer too small for the queue, no message, or
the oldest one. -/
inductive Found
  | tooSmall
  | empty
  | message (bytes : Message) (rest : Mq)

/-- `mq_receive(mqd, buffer, len, NULL)` -/
def Mq.receive (q : Mq) (len : ℕ) : Found :=
  if len < q.msgsize then .tooSmall
  else
    match q.messages with
    | [] => .empty
    | bytes :: rest => .message bytes { q with messages := rest }

/-- The line that the loops print for a message. -/
def readNotice (bytes : Message) : String := s!"read {bytes.length} bytes.\n"

theorem sendDemo_length (data : Fin 128 → Byte) :
    (sendDemo data).length = 132 := by
  have htext : (text "Hello world.\n" ++ [0]).length = 14 := by decide
  rw [sendDemo, overlay, List.length_append, List.length_append, htext,
    List.length_drop, List.length_ofFn, intBytes_length]

/-- A registration is used up when the queue was empty. -/
theorem arrive_registered_of_drained {q : Mq}
    (h : q.registered = true → q.messages = []) (message : Message) :
    (q.arrive message).registered = false := by
  cases hregistered : q.registered with
  | false => simp [Mq.arrive, hregistered]
  | true => simp [Mq.arrive, Mq.fires, hregistered, h hregistered]

/-- A notification is sent instead of the registration. -/
theorem arrive_registered_eq_not {q : Mq} {sent : Bool}
    (h : q.registered = !sent) (message : Message) :
    (q.arrive message).registered = !(sent || q.fires) := by
  rw [Mq.arrive, h, Bool.not_or]

end PosixMq

end MyFreeLib
