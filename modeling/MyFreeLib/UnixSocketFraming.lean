/-
The stream server takes whatever one `recv` returns for a message.  The client
sends every line in a block of one size, but a stream may be cut anywhere.
-/
import MyFreeLib.UnixSocket

namespace MyFreeLib

namespace UnixSocket

inductive ThreadPc
  | recv
  | left
deriving DecidableEq, Repr

/-- One connection.  `memory` begins with the thread's `msg` and goes on with
the rest of its stack.  `written` and `pieces`, what was sent and what each
`recv` has returned, are history. -/
structure Connection where
  client : Client
  data : List Byte
  thread : ThreadPc
  memory : List Byte
  printed : List (List Byte)
  written : List (Written Byte)
  pieces : List (List Byte)
deriving DecidableEq, Repr

def connect (msg : Fin msgSize → Byte) (memory : List Byte) : Connection where
  client := startClient msg
  data := []
  thread := .recv
  memory := memory
  printed := []
  written := []
  pieces := []

/-- The client makes its next call, or `recv` of the thread returns `count`
bytes. -/
inductive Label
  | client
  | recv (count : ℕ)
deriving DecidableEq, Repr

/-- What a step of the client puts into the socket. -/
def sentNow (c d : Client) : List Packet := d.packets.drop c.packets.length

/-- `recv(*pcfd, msg, sizeof(msg), 0)` and the body of the loop; 0 only when
all is received and the client has closed. -/
def strServer (s : Connection) (count : ℕ) : Option Connection :=
  if count = 0 then
    if s.data = [] ∧ s.client.pc = .returned then
      some { s with thread := .left }
    else none
  else if count ≤ msgSize ∧ count ≤ s.data.length then
    let piece := s.data.take count
    let memory := overlay piece s.memory
    some { s with
      data := s.data.drop count
      memory := memory
      printed := s.printed ++ [cString memory]
      pieces := s.pieces ++ [piece] }
  else none

def next (stdin : ByteStream) (s : Connection) : Label → Option Connection
  | .client => (strClientDemo stdin s.client).map fun d =>
      let blocks := (sentNow s.client d).map Packet.bytes
      { s with
        client := d
        data := s.data ++ blocks.flatten
        written := s.written ++
          blocks.map fun block => ⟨block, s.data.length⟩ }
  | .recv count =>
      match s.thread with
      | .recv => strServer s count
      | .left => none

def Connection.stream (s : Connection) : FrameStream Byte :=
  ⟨s.data, s.written, s.pieces⟩

/-- What was printed for a piece. -/
def Shows (piece shown : List Byte) : Prop :=
  ∃ old, shown = cString (overlay piece old)

/-- Every block is a whole packet; as long as every piece is one too, they
come out as they went in. -/
structure ConnectionInv (s : Connection) : Prop where
  client : ClientInv s.client
  packets : s.written.map Written.block = s.client.packets.map Packet.bytes
  flow : s.pieces.flatten ++ s.data = elements s.written
  short : ∀ piece ∈ s.pieces, piece.length ≤ msgSize
  inStep : (∀ piece ∈ s.pieces, piece.length = msgSize) → s.stream.InStep
  shown : List.Forall₂ Shows s.pieces s.printed
  left : s.thread = .left → s.data = [] ∧ s.client.pc = .returned

theorem connect_inv (msg : Fin msgSize → Byte) (memory : List Byte) :
    ConnectionInv (connect msg memory) := by
  refine ⟨startClient_inv msg, rfl, rfl, ?_, fun _ => ⟨[], rfl, rfl⟩, .nil, ?_⟩
  · intro piece hpiece
    cases hpiece
  · intro hleft
    cases hleft

/-- A step of the client sends one packet or none. -/
theorem strClientDemo_cases {stdin : ByteStream} {c d : Client}
    (h : strClientDemo stdin c = some d) :
    c.pc ≠ .returned ∧
      (d.packets = c.packets ∨
        ∃ packet, d.packets = c.packets ++ [packet]) := by
  unfold strClientDemo clientLoop at h
  split at h
  · next hpc =>
      cases h
      refine ⟨by simp [hpc], Or.inl ?_⟩
      unfold readLine
      split <;> rfl
  · next hpc =>
      cases h
      exact ⟨by simp [hpc], Or.inr ⟨_, rfl⟩⟩
  · cases h

theorem client_inv {stdin : ByteStream} {s : Connection} {d : Client}
    (hs : ConnectionInv s) (h : strClientDemo stdin s.client = some d) :
    ConnectionInv { s with
      client := d
      data := s.data ++ ((sentNow s.client d).map Packet.bytes).flatten
      written := s.written ++ ((sentNow s.client d).map Packet.bytes).map
        fun block => ⟨block, s.data.length⟩ } := by
  have hclient := clientLoop_inv hs.client h
  obtain ⟨hrunning, hsame | ⟨packet, hpacket⟩⟩ := strClientDemo_cases h
  · have hnone : sentNow s.client d = [] := by simp [sentNow, hsame]
    simp only [hnone, List.map_nil, List.flatten_nil, List.append_nil]
    refine ⟨hclient, hsame ▸ hs.packets, hs.flow, hs.short, hs.inStep,
      hs.shown, ?_⟩
    intro hleft
    exact absurd (hs.left hleft).2 hrunning
  · have hone : sentNow s.client d = [packet] := by simp [sentNow, hpacket]
    simp only [hone, List.map_cons, List.map_nil, List.flatten_singleton]
    refine ⟨hclient, ?_, ?_, hs.short, ?_, hs.shown, ?_⟩
    · rw [List.map_append, hs.packets, hpacket, List.map_append]
      rfl
    · simp only [elements, List.map_append, List.flatten_append,
        ← List.append_assoc, hs.flow]
      simp
    · intro hwhole
      exact FrameStream.write_inStep (hs.inStep hwhole) packet.bytes
    · intro hleft
      exact absurd (hs.left hleft).2 hrunning

/-- The blocks sent are packets, each as large as the buffer. -/
theorem ConnectionInv.frames {s : Connection} (hs : ConnectionInv s) :
    ∀ w ∈ s.written, w.block.length = msgSize := by
  intro w hw
  have hmem : w.block ∈ s.client.packets.map Packet.bytes := by
    rw [← hs.packets]
    exact List.mem_map_of_mem hw
  obtain ⟨packet, hpacket, hblock⟩ := List.mem_map.mp hmem
  exact hblock ▸ hs.client.sizes packet hpacket

theorem strServer_inv {s t : Connection} {count : ℕ} (hs : ConnectionInv s)
    (hpc : s.thread = .recv) (h : strServer s count = some t) :
    ConnectionInv t := by
  simp only [strServer] at h
  split at h
  · obtain ⟨hend, rfl⟩ := guarded_eq_some.mp h
    exact ⟨hs.client, hs.packets, hs.flow, hs.short, hs.inStep, hs.shown,
      fun _ => hend⟩
  · next hcount =>
      obtain ⟨⟨hsize, hdata⟩, rfl⟩ := guarded_eq_some.mp h
      have hlength : (s.data.take count).length = count := by
        rw [List.length_take]
        omega
      refine ⟨hs.client, hs.packets, ?_, ?_, ?_, ?_, ?_⟩
      · simp only [List.flatten_append, List.flatten_singleton,
          List.append_assoc, List.take_append_drop]
        exact hs.flow
      · apply forall_mem_concat hs.short
        rw [hlength]
        exact hsize
      · intro hwhole
        rw [List.forall_mem_append, List.forall_mem_singleton,
          hlength] at hwhole
        obtain ⟨hold, rfl⟩ := hwhole
        have hnonempty : s.stream.data ≠ [] := by
          intro hnil
          have hzero : s.data.length = 0 := congrArg List.length hnil
          omega
        exact FrameStream.read_inStep (hs.inStep hold) hs.frames hnonempty
      · exact List.rel_append hs.shown (.cons ⟨s.memory, rfl⟩ .nil)
      · intro hleft
        simp [hpc] at hleft

theorem next_inv (stdin : ByteStream) (s : Connection) (label : Label)
    (t : Connection) (hs : ConnectionInv s) (h : next stdin s label = some t) :
    ConnectionInv t := by
  cases label with
  | client =>
      obtain ⟨d, hd, rfl⟩ := Option.map_eq_some_iff.mp h
      exact client_inv hs hd
  | recv count =>
      simp only [next] at h
      split at h
      · next hpc => exact strServer_inv hs hpc h
      · cases h

/-- The string in a packet is its line, if that has no zero. -/
theorem shown_eq {line shown : List Byte} {packet : Packet}
    (hholds : Holds line packet) (hshows : Shows packet.bytes shown)
    (hzero : 0 ∉ line) : shown = line := by
  obtain ⟨old, hbytes⟩ := hholds
  obtain ⟨memory, rfl⟩ := hshows
  rw [hbytes, overlay, overlay, List.append_assoc, List.append_assoc,
    List.singleton_append]
  exact cString_append_zero hzero _

/-- Lines, packets and strings agree one by one. -/
theorem printed_eq {lines printed : List (List Byte)} {packets : List Packet}
    (hholds : List.Forall₂ Holds lines packets)
    (hshows : List.Forall₂ Shows (packets.map Packet.bytes) printed)
    (hzero : ∀ line ∈ lines, 0 ∉ line) : printed = lines := by
  induction hholds generalizing printed with
  | nil =>
      cases hshows
      rfl
  | cons hline _ ih =>
      cases hshows with
      | cons hshown hrest =>
          rw [List.forall_mem_cons] at hzero
          rw [shown_eq hline hshown hzero.1, ih hrest hzero.2]

theorem zero_not_mem_shown {pieces printed : List (List Byte)}
    (h : List.Forall₂ Shows pieces printed) : ∀ shown ∈ printed, 0 ∉ shown := by
  induction h with
  | nil => simp
  | cons hshows _ ih =>
      rw [List.forall_mem_cons]
      obtain ⟨old, rfl⟩ := hshows
      exact ⟨zero_not_mem_cString _, ih⟩

theorem flatten_length_le {pieces : List (List Byte)} {size : ℕ}
    (hle : ∀ piece ∈ pieces, piece.length ≤ size) :
    pieces.flatten.length ≤ pieces.length * size := by
  induction pieces with
  | nil => simp
  | cons piece rest ih =>
      rw [List.forall_mem_cons] at hle
      have hrest := ih hle.2
      rw [List.flatten_cons, List.length_append, List.length_cons, Nat.succ_mul]
      omega

/-- Pieces below a bound that make up the greatest total all reach it. -/
theorem length_eq_of_total {pieces : List (List Byte)} {size : ℕ}
    (hle : ∀ piece ∈ pieces, piece.length ≤ size)
    (htotal : pieces.flatten.length = pieces.length * size) :
    ∀ piece ∈ pieces, piece.length = size := by
  induction pieces with
  | nil => simp
  | cons piece rest ih =>
      rw [List.forall_mem_cons] at hle
      have hrest := flatten_length_le hle.2
      rw [List.flatten_cons, List.length_append, List.length_cons,
        Nat.succ_mul] at htotal
      rw [List.forall_mem_cons]
      exact ⟨by omega, ih hle.2 (by omega)⟩

theorem flatten_length_eq {blocks : List (List Byte)} {size : ℕ}
    (h : ∀ block ∈ blocks, block.length = size) :
    blocks.flatten.length = blocks.length * size := by
  induction blocks with
  | nil => simp
  | cons block rest ih =>
      rw [List.forall_mem_cons] at h
      rw [List.flatten_cons, List.length_append, List.length_cons,
        Nat.succ_mul, ih h.2, h.1, Nat.add_comm]

/-- When all was received in whole blocks, the pieces are the packets. -/
theorem ConnectionInv.pieces_eq {s : Connection} (hs : ConnectionInv s)
    (hdata : s.data = [])
    (hwhole : ∀ piece ∈ s.pieces, piece.length = msgSize) :
    s.pieces = s.client.packets.map Packet.bytes := by
  obtain ⟨waiting, hblocks, hwaiting⟩ := hs.inStep hwhole
  have hpackets : s.pieces ++ waiting = s.client.packets.map Packet.bytes :=
    hblocks.trans hs.packets
  have hnothing : waiting.flatten = [] := hwaiting.symm.trans hdata
  cases waiting with
  | nil => rwa [List.append_nil] at hpackets
  | cons block rest =>
      have hmem : block ∈ s.client.packets.map Packet.bytes := by
        rw [← hpackets]
        simp
      obtain ⟨packet, hpacket, rfl⟩ := List.mem_map.mp hmem
      have hsize := hs.client.sizes packet hpacket
      rw [List.flatten_cons, List.append_eq_nil_iff] at hnothing
      rw [hnothing.1] at hsize
      cases hsize

/-- When the thread leaves its loop: the strings printed are the client's
lines exactly when every `recv` has returned a whole block and no line holds a
zero. -/
theorem printed_iff {stdin : ByteStream} {msg : Fin msgSize → Byte}
    {memory : List Byte} {labels : List Label} {s : Connection}
    (hrun : exec (next stdin) (connect msg memory) labels = some s)
    (hleft : s.thread = .left) :
    s.printed = s.client.lines ↔
      (∀ piece ∈ s.pieces, piece.length = msgSize) ∧
        ∀ line ∈ s.client.lines, 0 ∉ line := by
  have hs : ConnectionInv s :=
    exec_invariant (next_inv stdin) (connect_inv msg memory) hrun
  obtain ⟨hdata, hreturned⟩ := hs.left hleft
  have hholds := hs.client.settled (by simp [hreturned])
  constructor
  · intro hprinted
    constructor
    · apply length_eq_of_total hs.short
      have hflow := hs.flow
      rw [hdata, List.append_nil, elements] at hflow
      have hblocks : ∀ block ∈ s.written.map Written.block,
          block.length = msgSize := by
        intro block hblock
        obtain ⟨w, hw, rfl⟩ := List.mem_map.mp hblock
        exact hs.frames w hw
      rw [hflow, flatten_length_eq hblocks, hs.packets, List.length_map,
        ← hholds.length_eq, ← hprinted, hs.shown.length_eq]
    · exact hprinted ▸ zero_not_mem_shown hs.shown
  · rintro ⟨hwhole, hzero⟩
    have hshown := hs.shown
    rw [hs.pieces_eq hdata hwhole] at hshown
    exact printed_eq hholds hshown hzero

/-- The client sends its line and closes, and the pieces arrive. -/
def oneLine (counts : List ℕ) : List Label :=
  [.client, .client, .client] ++ counts.map .recv ++ [.recv 0]

theorem printed_iff_whole :
    ∃ s, exec (next (ofText "ab\n")) (connect (fun _ => 0) [])
        (oneLine [1024]) = some s ∧
      s.printed = [text "ab\n"] ∧
      (s.printed = s.client.lines ↔
        (∀ piece ∈ s.pieces, piece.length = msgSize) ∧
          ∀ line ∈ s.client.lines, 0 ∉ line) := by
  have hshow : (exec (next (ofText "ab\n")) (connect (fun _ => 0) [])
      (oneLine [1024])).map (fun s => (s.thread, s.printed)) =
        some (.left, [text "ab\n"]) := by decide +kernel
  obtain ⟨s, hrun, hs⟩ := Option.map_eq_some_iff.mp hshow
  rw [Prod.mk.injEq] at hs
  exact ⟨s, hrun, hs.2, printed_iff hrun hs.1⟩

/-- The block of one line arrives in two pieces, and the thread prints two
strings. -/
theorem line_cut :
    ∃ s, exec (next (ofText "ab\n")) (connect (fun _ => 0) [])
        (oneLine [512, 512]) = some s ∧ s.thread = .left ∧
      s.client.lines = [text "ab\n"] ∧ s.printed = [text "ab\n", []] := by
  have hshow : (exec (next (ofText "ab\n")) (connect (fun _ => 0) [])
      (oneLine [512, 512])).map
        (fun s => (s.thread, s.client.lines, s.printed)) =
        some (.left, [text "ab\n"], [text "ab\n", []]) := by decide +kernel
  obtain ⟨s, hrun, hs⟩ := Option.map_eq_some_iff.mp hshow
  rw [Prod.mk.injEq, Prod.mk.injEq] at hs
  exact ⟨s, hrun, hs⟩

end UnixSocket

end MyFreeLib
