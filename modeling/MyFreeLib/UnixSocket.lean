/-
The UNIX socket demos.  The clients read a line at a time into one buffer and
hand the whole buffer over for every line; a thread of the stream server
prints its own buffer after every `recv`.
-/
import MyFreeLib.ByteBuffer
import MyFreeLib.FrameStream
import MyFreeLib.LabelledRun
import MyFreeLib.ProcessTable

namespace MyFreeLib

namespace UnixSocket

/-- `UNIX_SOCKET_MSG_SIZE` -/
def msgSize : ℕ := 1024

/-- `UNIX_SOCKET_PATH` -/
def unixSocketPath : List Byte := text "/tmp/unix_socket_test"

def newline : Byte := 10

/-- An input of the given lines. -/
def ofText (lines : String) : ByteStream := fun i => (text lines)[i]?

/-- At most `count` bytes from `pos` on, up to a newline or the end. -/
def takeLine (stdin : ByteStream) : ℕ → ℕ → List Byte
  | 0, _ => []
  | count + 1, pos =>
      match stdin pos with
      | none => []
      | some byte =>
          if byte = newline then [byte]
          else byte :: takeLine stdin count (pos + 1)

/-- `fgets(msg, sizeof(msg), stdin)`; none is `NULL`. -/
def fgets (stdin : ByteStream) (pos : ℕ) : Option (List Byte) :=
  match takeLine stdin (msgSize - 1) pos with
  | [] => none
  | line => some line

inductive ClientPc
  | fgets
  | send
  | returned
deriving DecidableEq, Repr

/-- What is handed to `send` (to the peer of the socket) or to `sendto`. -/
structure Packet where
  bytes : List Byte
  dest : Option (List Byte)
deriving DecidableEq, Repr

/-- `pos` is the place in `stdin`; `lines` and `packets`, what was read and
sent, are history. -/
structure Client where
  pc : ClientPc
  msg : List Byte
  pos : ℕ
  lines : List (List Byte)
  packets : List Packet
deriving DecidableEq, Repr

/-- The socket is there, and `msg` holds anything. -/
def startClient (msg : Fin msgSize → Byte) : Client :=
  ⟨.fgets, List.ofFn msg, 0, [], []⟩

/-- `while(fgets(msg, sizeof(msg), stdin) != NULL)`; a line is stored with a
zero behind it. -/
def readLine (stdin : ByteStream) (c : Client) : Client :=
  match fgets stdin c.pos with
  | none => { c with pc := .returned }
  | some line => { c with
      pc := .send
      msg := overlay (line ++ [0]) c.msg
      pos := c.pos + line.length
      lines := c.lines ++ [line] }

/-- The whole of `msg` is sent, whatever the line. -/
def sendMsg (dest : Option (List Byte)) (c : Client) : Client :=
  { c with
    pc := .fgets
    packets := c.packets ++ [⟨c.msg.take msgSize, dest⟩] }

/-- The loop that the two clients share. -/
def clientLoop (dest : Option (List Byte)) (stdin : ByteStream) (c : Client) :
    Option Client :=
  match c.pc with
  | .fgets => some (readLine stdin c)
  | .send => some (sendMsg dest c)
  | .returned => none

/-- `send(cfd, msg, sizeof(msg), 0)` on the connected socket. -/
def strClientDemo : ByteStream → Client → Option Client := clientLoop none

/-- `sendto(cfd, msg, sizeof(msg), 0, &saddr, addr_len)` -/
def dataClientDemo : ByteStream → Client → Option Client :=
  clientLoop (some unixSocketPath)

/-- The client after so many steps. -/
def Runs (demo : ByteStream → Client → Option Client)
    (msg : Fin msgSize → Byte) (stdin : ByteStream) (c : Client) : Prop :=
  ∃ steps : List Unit,
    exec (fun c _ => demo stdin c) (startClient msg) steps = some c

/-- A packet holds its line, a zero, and what was in the buffer behind. -/
def Holds (line : List Byte) (packet : Packet) : Prop :=
  ∃ old, packet.bytes = overlay (line ++ [0]) old

/-- Every line is in the packet sent for it, but for the one still to be
sent. -/
structure ClientInv (c : Client) : Prop where
  size : c.msg.length = msgSize
  sizes : ∀ packet ∈ c.packets, packet.bytes.length = msgSize
  settled : c.pc ≠ .send → List.Forall₂ Holds c.lines c.packets
  due : c.pc = .send → ∃ front line old, c.lines = front ++ [line] ∧
    List.Forall₂ Holds front c.packets ∧ c.msg = overlay (line ++ [0]) old

theorem startClient_inv (msg : Fin msgSize → Byte) :
    ClientInv (startClient msg) := by
  refine ⟨?_, ?_, fun _ => .nil, ?_⟩
  · rw [startClient, List.length_ofFn]
  · intro packet hpacket
    cases hpacket
  · intro hpc
    cases hpc

theorem takeLine_length (stdin : ByteStream) (count pos : ℕ) :
    (takeLine stdin count pos).length ≤ count := by
  induction count generalizing pos with
  | zero => simp [takeLine]
  | succ count ih =>
      rw [takeLine]
      split
      · simp
      · split
        · simp
        · simpa using ih (pos + 1)

theorem fgets_eq_some {stdin : ByteStream} {pos : ℕ} {line : List Byte} :
    fgets stdin pos = some line ↔
      takeLine stdin (msgSize - 1) pos = line ∧ line ≠ [] := by
  unfold fgets
  split
  · next hnil => simp [hnil, eq_comm]
  · next hline =>
      rw [Option.some.injEq]
      constructor
      · rintro rfl
        exact ⟨rfl, hline⟩
      · exact fun h => h.1

/-- A line leaves room for the zero. -/
theorem fgets_length {stdin : ByteStream} {pos : ℕ} {line : List Byte}
    (h : fgets stdin pos = some line) : line.length + 1 ≤ msgSize := by
  have hle := takeLine_length stdin (msgSize - 1) pos
  rw [(fgets_eq_some.mp h).1] at hle
  simp only [msgSize] at hle ⊢
  omega

theorem clientLoop_inv {dest : Option (List Byte)} {stdin : ByteStream}
    {c d : Client} (hc : ClientInv c) (h : clientLoop dest stdin c = some d) :
    ClientInv d := by
  unfold clientLoop at h
  split at h
  · next hpc =>
      cases h
      have hsettled := hc.settled (by simp [hpc])
      unfold readLine
      split
      · exact ⟨hc.size, hc.sizes, fun _ => hsettled, by simp⟩
      · next line hline =>
          refine ⟨?_, hc.sizes, by simp,
            fun _ => ⟨_, line, _, rfl, hsettled, rfl⟩⟩
          have hle := fgets_length hline
          rw [overlay_length, hc.size]
          rwa [List.length_append, List.length_singleton, hc.size]
  · next hpc =>
      cases h
      obtain ⟨front, line, old, hlines, hfront, hmsg⟩ := hc.due hpc
      have hwhole : c.msg.take msgSize = c.msg :=
        List.take_of_length_le hc.size.le
      refine ⟨hc.size, ?_, fun _ => ?_, by simp [sendMsg]⟩
      · apply forall_mem_concat hc.sizes
        rw [hwhole]
        exact hc.size
      · simp only [sendMsg, hlines, hwhole]
        exact List.rel_append hfront (.cons ⟨old, hmsg⟩ .nil)
  · cases h

theorem Runs.inv {dest : Option (List Byte)} {msg : Fin msgSize → Byte}
    {stdin : ByteStream} {c : Client} (h : Runs (clientLoop dest) msg stdin c) :
    ClientInv c := by
  obtain ⟨steps, hrun⟩ := h
  exact exec_invariant (fun c _ d hc hstep => clientLoop_inv hc hstep)
    (startClient_inv msg) hrun

end UnixSocket

end MyFreeLib
