/-
What a packet of the two clients tells of earlier lines.  The whole buffer is
sent, so only a line that fills it leaves nothing of what was there before.
-/
import MyFreeLib.UnixSocket

namespace MyFreeLib

namespace UnixSocket

/-- `fgets` can return the line. -/
def IsLine (line : List Byte) : Prop := ∃ stdin pos, fgets stdin pos = some line

/-- In any two runs that read `line` as line `k` the bytes sent for it are the
same. -/
def SentByLine (demo : ByteStream → Client → Option Client) (k : ℕ)
    (line : List Byte) : Prop :=
  ∀ (msg msg' : Fin msgSize → Byte) (stdin stdin' : ByteStream)
    (c c' : Client) (p p' : Packet),
    Runs demo msg stdin c → Runs demo msg' stdin' c' →
    c.lines[k]? = some line → c'.lines[k]? = some line →
    c.packets[k]? = some p → c'.packets[k]? = some p' → p.bytes = p'.bytes

/-- What is in the packet of a line. -/
theorem ClientInv.holds {c : Client} (hc : ClientInv c) {k : ℕ}
    {line : List Byte} {p : Packet} (hline : c.lines[k]? = some line)
    (hp : c.packets[k]? = some p) : Holds line p := by
  have hget {lines : List (List Byte)}
      (hall : List.Forall₂ Holds lines c.packets)
      (hk : lines[k]? = some line) : Holds line p := by
    obtain ⟨hlk, rfl⟩ := List.getElem?_eq_some_iff.mp hk
    obtain ⟨hpk, rfl⟩ := List.getElem?_eq_some_iff.mp hp
    exact hall.get hlk hpk
  by_cases hpc : c.pc = .send
  · obtain ⟨front, last, old, hlines, hfront, -⟩ := hc.due hpc
    have hlength := hfront.length_eq
    have hk := (List.getElem?_eq_some_iff.mp hp).1
    apply hget hfront
    rwa [hlines, List.getElem?_append_left (by omega)] at hline
  · exact hget (hc.settled hpc) hline

/-- A line that fills the buffer is all that is sent. -/
theorem ClientInv.bytes_eq {c : Client} (hc : ClientInv c) {k : ℕ}
    {line : List Byte} {p : Packet} (hline : c.lines[k]? = some line)
    (hp : c.packets[k]? = some p) (hfull : line.length + 1 = msgSize) :
    p.bytes = line ++ [0] := by
  obtain ⟨old, hbytes⟩ := hc.holds hline hp
  have hlength := hc.sizes p (List.mem_of_getElem? hp)
  have hstart : line ++ [0] <+: p.bytes := by
    rw [hbytes]
    exact List.prefix_append _ _
  exact (hstart.eq_of_length (by simp [hlength, hfull])).symm

/-- Reading the bytes of a line again gives the line. -/
theorem takeLine_again {stdin stdin' : ByteStream} {count pos pos' : ℕ}
    (h : ∀ i, stdin' (pos' + i) = (takeLine stdin count pos)[i]?) :
    takeLine stdin' count pos' = takeLine stdin count pos := by
  induction count generalizing pos pos' with
  | zero => rfl
  | succ count ih =>
      cases hbyte : stdin pos with
      | none =>
          have hline : takeLine stdin (count + 1) pos = [] := by
            simp only [takeLine, hbyte]
          have hend := h 0
          rw [hline, Nat.add_zero] at hend
          rw [hline, takeLine, hend]
          rfl
      | some byte =>
          have hfirst : stdin' pos' = some byte := by
            have hzero := h 0
            simp only [Nat.add_zero, takeLine, hbyte] at hzero
            split at hzero <;> simpa using hzero
          simp only [takeLine, hbyte, hfirst]
          split
          · rfl
          · next hmore =>
              rw [ih]
              intro i
              have hnext := h (i + 1)
              simp only [takeLine, hbyte, if_neg hmore] at hnext
              rw [← List.getElem?_cons_succ (a := byte), ← hnext]
              congr 1
              omega

/-- One turn of the loop: the line is read and the buffer sent. -/
theorem exec_line {dest : Option (List Byte)} {stdin : ByteStream} {c : Client}
    {line : List Byte} (hpc : c.pc = .fgets) (hsize : c.msg.length = msgSize)
    (hline : fgets stdin c.pos = some line) :
    exec (fun c _ => clientLoop dest stdin c) c [(), ()] = some {
      pc := .fgets
      msg := overlay (line ++ [0]) c.msg
      pos := c.pos + line.length
      lines := c.lines ++ [line]
      packets := c.packets ++ [⟨overlay (line ++ [0]) c.msg, dest⟩] } := by
  have hlength : (overlay (line ++ [0]) c.msg).length = msgSize := by
    rw [overlay_length, hsize]
    rw [List.length_append, List.length_singleton, hsize]
    exact fgets_length hline
  simp only [exec, clientLoop, hpc, readLine, hline, sendMsg,
    Option.bind_some, List.take_of_length_le hlength.le]

/-- The byte that the buffer ends with. -/
def lastByte (msg : Fin msgSize → Byte) : Byte := msg ⟨1023, by decide⟩

/-- After a short line the buffer still ends with the same byte. -/
theorem overlay_lastByte {line buffer : List Byte}
    (hshort : line.length + 1 < msgSize) :
    (overlay (line ++ [0]) buffer)[1023]? = buffer[1023]? := by
  apply overlay_getElem?
  rw [List.length_append, List.length_singleton]
  simp only [msgSize] at hshort
  omega

/-- A client that has read `k` empty lines. -/
theorem exists_emptyLines (dest : Option (List Byte))
    (msg : Fin msgSize → Byte) {stdin : ByteStream} {k : ℕ}
    (hstdin : ∀ i < k, stdin i = some newline) :
    ∃ c, Runs (clientLoop dest) msg stdin c ∧ c.pc = .fgets ∧ c.pos = k ∧
      c.lines.length = k ∧ c.packets.length = k ∧ c.msg.length = msgSize ∧
      c.msg[1023]? = some (lastByte msg) := by
  induction k with
  | zero =>
      refine ⟨startClient msg, ⟨[], rfl⟩, rfl, rfl, rfl, rfl, ?_, ?_⟩
      · rw [startClient, List.length_ofFn]
      · rw [startClient, List.getElem?_ofFn]
        rfl
  | succ k ih =>
      obtain ⟨c, ⟨steps, hrun⟩, hpc, hpos, hlines, hpackets, hsize, hlast⟩ :=
        ih fun i hi => hstdin i (by omega)
      have hline : fgets stdin c.pos = some [newline] := by
        rw [fgets_eq_some, hpos]
        refine ⟨?_, by simp⟩
        have hcount : msgSize - 1 = 1022 + 1 := rfl
        rw [hcount, takeLine, hstdin k (by omega)]
        rfl
      refine ⟨_, ⟨steps ++ [(), ()], exec_append_eq_some.mpr
        ⟨c, hrun, exec_line hpc hsize hline⟩⟩, rfl, ?_, ?_, ?_, ?_, ?_⟩
      · rw [hpos]
        rfl
      · rw [List.length_append, hlines]
        rfl
      · rw [List.length_append, hpackets]
        rfl
      · rw [overlay_length, hsize]
        rw [hsize]
        decide
      · rw [overlay_lastByte (by decide), hlast]

/-- A run that reads `line` after `k` empty lines; the byte that its buffer
ended with is sent with it. -/
theorem exists_run (dest : Option (List Byte)) (msg : Fin msgSize → Byte)
    {line : List Byte} (hline : IsLine line)
    (hshort : line.length + 1 < msgSize) (k : ℕ) :
    ∃ stdin c p, Runs (clientLoop dest) msg stdin c ∧
      c.lines[k]? = some line ∧ c.packets[k]? = some p ∧
      p.bytes[1023]? = some (lastByte msg) := by
  obtain ⟨source, pos, hsource⟩ := hline
  obtain ⟨htake, hne⟩ := fgets_eq_some.mp hsource
  let stdin : ByteStream := fun i => (List.replicate k newline ++ line)[i]?
  have hempty : ∀ i < k, stdin i = some newline := by
    intro i hi
    have hi' : i < (List.replicate k newline).length := by simpa using hi
    simp only [stdin, List.getElem?_append_left hi']
    simp [hi]
  obtain ⟨c, ⟨steps, hrun⟩, hpc, hpos, hlines, hpackets, hsize, hlast⟩ :=
    exists_emptyLines dest msg hempty
  have hnext : fgets stdin c.pos = some line := by
    rw [fgets_eq_some, hpos]
    refine ⟨?_, hne⟩
    rw [← htake]
    apply takeLine_again
    intro i
    simp only [stdin, htake]
    rw [List.getElem?_append_right (by simp)]
    simp
  refine ⟨stdin, _, ⟨overlay (line ++ [0]) c.msg, dest⟩, ⟨steps ++ [(), ()],
    exec_append_eq_some.mpr ⟨c, hrun, exec_line hpc hsize hnext⟩⟩, ?_, ?_, ?_⟩
  · rw [List.getElem?_append_right hlines.le, hlines, Nat.sub_self]
    rfl
  · rw [List.getElem?_append_right hpackets.le, hpackets, Nat.sub_self]
    rfl
  · rw [overlay_lastByte hshort, hlast]

theorem sentByLine_iff (dest : Option (List Byte)) (k : ℕ) {line : List Byte}
    (hline : IsLine line) :
    SentByLine (clientLoop dest) k line ↔ line.length + 1 = msgSize := by
  constructor
  · intro hsent
    obtain ⟨stdin, pos, hfgets⟩ := id hline
    have hle := fgets_length hfgets
    by_contra hne
    have hshort : line.length + 1 < msgSize := by omega
    obtain ⟨stdin, c, p, hrun, hk, hp, hlast⟩ :=
      exists_run dest (fun _ => 0) hline hshort k
    obtain ⟨stdin', c', p', hrun', hk', hp', hlast'⟩ :=
      exists_run dest (fun _ => 1) hline hshort k
    have hsame := hsent _ _ _ _ c c' p p' hrun hrun' hk hk' hp hp'
    rw [hsame, hlast', Option.some.injEq] at hlast
    exact absurd hlast (by decide)
  · intro hfull msg msg' stdin stdin' c c' p p' hrun hrun' hk hk' hp hp'
    rw [hrun.inv.bytes_eq hk hp hfull, hrun'.inv.bytes_eq hk' hp' hfull]

/-- For either client, any position and any line: the bytes sent for the line
are the same in all runs exactly when the line fills the buffer. -/
theorem packets_sentByLine_iff (k : ℕ) {line : List Byte}
    (hline : IsLine line) :
    (SentByLine strClientDemo k line ↔ line.length + 1 = msgSize) ∧
      (SentByLine dataClientDemo k line ↔ line.length + 1 = msgSize) :=
  ⟨sentByLine_iff none k hline, sentByLine_iff (some unixSocketPath) k hline⟩

theorem isLine_newline : IsLine [newline] :=
  ⟨fun _ => some newline, 0, rfl⟩

theorem packets_sentByLine_newline :
    (SentByLine strClientDemo 0 [newline] ↔ [newline].length + 1 = msgSize) ∧
      (SentByLine dataClientDemo 0 [newline] ↔
        [newline].length + 1 = msgSize) :=
  packets_sentByLine_iff 0 isLine_newline

/-- The second line is empty in both runs, but its packet shows the end of the
first. -/
theorem earlier_line_sent :
    ∃ c c' p p', Runs strClientDemo (fun _ => 0) (ofText "abc\n\n") c ∧
      Runs strClientDemo (fun _ => 0) (ofText "abd\n\n") c' ∧
      c.lines[1]? = some [newline] ∧ c'.lines[1]? = some [newline] ∧
      c.packets[1]? = some p ∧ c'.packets[1]? = some p' ∧
      p.bytes ≠ p'.bytes := by
  obtain ⟨c, p, hrun, hline, hpacket, hbytes⟩ : ∃ c p,
      Runs strClientDemo (fun _ => 0) (ofText "abc\n\n") c ∧
      c.lines[1]? = some [newline] ∧ c.packets[1]? = some p ∧
      p.bytes.take 5 = [10, 0, 99, 10, 0] :=
    ⟨_, _, ⟨[(), (), (), ()], rfl⟩, rfl, rfl, rfl⟩
  obtain ⟨c', p', hrun', hline', hpacket', hbytes'⟩ : ∃ c p,
      Runs strClientDemo (fun _ => 0) (ofText "abd\n\n") c ∧
      c.lines[1]? = some [newline] ∧ c.packets[1]? = some p ∧
      p.bytes.take 5 = [10, 0, 100, 10, 0] :=
    ⟨_, _, ⟨[(), (), (), ()], rfl⟩, rfl, rfl, rfl⟩
  refine ⟨c, c', p, p', hrun, hrun', hline, hline', hpacket, hpacket', ?_⟩
  intro hsame
  rw [hsame, hbytes'] at hbytes
  exact absurd hbytes (by decide)

end UnixSocket

end MyFreeLib
