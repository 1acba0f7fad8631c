/-
`clprogress_print` between the redraws of progress bars.  It clears the line
of the bar and prints its message there, but only as many bytes of it as there
are columns in front of the last; a longer message loses the rest, the newline
at its end included, and what is printed next goes on in its row.
-/
import MyFreeLib.ColorPrint
import MyFreeLib.Terminal

namespace MyFreeLib

namespace ColorPrint

open Terminal

/-- A formatted message that ends its line. -/
structure Message extends CString where
  ends : bytes.getLast? = some 10
deriving DecidableEq, Repr

/-- `vsnprintf`: as much of the message as fits in front of a zero. -/
def vsnprintf (str message : List Byte) (size : ℕ) : List Byte :=
  overlay (message.take (size - 1) ++ [0]) str

/-- What `clprogress_print` prints if the terminal has `wsCol` columns. -/
def clprogressPrint (wsCol : ℕ) (message : CString) : List Byte :=
  let str := store (List.replicate wsCol blank) ((wsCol : ℤ) - 1) 0
  cString str ++ text "\r" ++ cString (vsnprintf str message.bytes wsCol)

/-- The progress bars, the terminal they are drawn on and the messages printed
so far. -/
structure Screen where
  calls : State
  terminal : Terminal
  messages : List Message

def screenStart (buffers : List (List Byte)) : Screen :=
  ⟨start buffers, Terminal.empty, []⟩

inductive ScreenLabel
  | progress (label : Label)
  | print (message : Message)

/-- A line that stays in one row and leaves the last column free. -/
def Narrow (width : ℕ) (line : List Byte) : Prop :=
  (Terminal.empty.feed width line).rows = [] ∧
    (Terminal.empty.feed width line).row.length < width

instance (width : ℕ) (line : List Byte) : Decidable (Narrow width line) :=
  inferInstanceAs (Decidable (_ ∧ _))

/-- What the call has printed. -/
def printedBetween (s t : State) : List Byte :=
  t.printed.drop s.printed.length

/-- One call, on a terminal on which every line that `clprogress` prints is
narrow. -/
def screenNext (width : ℕ) (s : Screen) : ScreenLabel → Option Screen
  | .progress label => (next s.calls label).bind fun calls =>
      let line := printedBetween s.calls calls
      if Narrow width line then
        some { s with calls, terminal := s.terminal.feed width line }
      else none
  | .print message => some { s with
      terminal :=
        s.terminal.feed width (clprogressPrint width message.toCString)
      messages := s.messages ++ [message] }

/-- An empty terminal after the messages alone. -/
def messagesAlone (width : ℕ) (messages : List Message) : Terminal :=
  Terminal.empty.feed width (messages.flatMap fun message => message.bytes)

/-- All messages stand in finished rows, in order, and nothing but blanks
besides. -/
def Displayed (width : ℕ) (s : Screen) : Prop :=
  List.Forall₂ (Padded blank) s.terminal.rows
    (messagesAlone width s.messages).rows

/-- The message fits into the columns in front of the last. -/
def ScreenLabel.Fits (width : ℕ) : ScreenLabel → Prop
  | .progress _ => True
  | .print message => message.bytes.length < width

/-! ### What the calls print -/

theorem clprogressPrint_eq {wsCol : ℕ} (hpos : 1 ≤ wsCol)
    (message : CString) :
    clprogressPrint wsCol message = List.replicate (wsCol - 1) blank ++
      [13] ++ message.bytes.take (wsCol - 1) := by
  have hcleaned : store (List.replicate wsCol blank) ((wsCol : ℤ) - 1) 0 =
      List.replicate (wsCol - 1) blank ++ [0] := by
    obtain ⟨n, rfl⟩ := Nat.exists_eq_add_of_le' hpos
    have hcast : ((n + 1 : ℕ) : ℤ) - 1 = n := by omega
    rw [hcast, store_natCast, List.replicate_succ',
      List.set_append_right _ _ (by simp)]
    simp
  have hblanks : (0 : Byte) ∉ List.replicate (wsCol - 1) blank := by
    simp [blank]
  have hmessage : 0 ∉ message.bytes.take (wsCol - 1) :=
    fun h => message.noZero (List.mem_of_mem_take h)
  simp only [clprogressPrint, hcleaned, vsnprintf, overlay]
  rw [cString_append_zero hblanks, List.append_assoc _ [0],
    List.singleton_append, cString_append_zero hmessage]
  rfl

/-- A line of `clprogress` is empty or ends in a carriage return. -/
theorem clprogress_printed (pro : Progress) (bar : List Byte)
    (percent : Percent) :
    (clprogress pro bar percent).printed = [] ∨
      ∃ line, (clprogress pro bar percent).printed = line ++ [13] := by
  have hreset : text "%\x1b[0m\r" = text "%\x1b[0m" ++ [13] := rfl
  have hreset' : text "% \x1b[0m\r" = text "% \x1b[0m" ++ [13] := rfl
  have hends (front back : List Byte) :
      ∃ line, front ++ (back ++ [13]) = line ++ [13] :=
    ⟨front ++ back, (List.append_assoc ..).symm⟩
  cases hstyle : pro.style with
  | num | bgc =>
      simp only [clprogress, hstyle, hreset]
      exact Or.inr (hends _ _)
  | chr =>
      simp only [clprogress, hstyle, hreset']
      exact Or.inr (hends _ _)
  | other => exact Or.inl (by simp only [clprogress, hstyle])

theorem printedBetween_eq {s t : State} {label : Label}
    (h : next s label = some t) :
    printedBetween s t = [] ∨
      ∃ line, printedBetween s t = line ++ [13] := by
  obtain ⟨pro, bar, hpro, hbar, rfl⟩ := next_eq_some.mp h
  simp only [printedBetween, List.drop_left]
  cases label with
  | init args => exact Or.inl rfl
  | clprogress p percent => exact clprogress_printed pro bar percent

/-! ### What the calls show -/

/-- The cursor is in front of the row of the progress bar, and everything
above it is messages. -/
structure ScreenInv (width : ℕ) (s : Screen) : Prop where
  displayed : Displayed width s
  cursor : s.terminal = lineStart s.terminal.rows s.terminal.row
  row : s.terminal.row.length < width
  alone : messagesAlone width s.messages =
    lineStart (messagesAlone width s.messages).rows []

theorem screenStart_inv {width : ℕ} (hpos : 1 ≤ width)
    (buffers : List (List Byte)) : ScreenInv width (screenStart buffers) :=
  ⟨.nil, rfl, hpos, rfl⟩

/-- A narrow line goes over what is there and leaves the cursor in front. -/
theorem feed_narrow {width : ℕ} {rows : List (List Byte)}
    {below line : List Byte} (hnarrow : Narrow width line)
    (hends : line = [] ∨ ∃ front, line = front ++ [13])
    (hbelow : below.length < width) :
    ∃ row, (lineStart rows below).feed width line = lineStart rows row ∧
      row.length < width := by
  rcases hends with rfl | ⟨front, rfl⟩
  · exact ⟨below, rfl, hbelow⟩
  · obtain ⟨hrows, hrow⟩ := hnarrow
    obtain ⟨hover, -⟩ := feed_onto rows below hrows
    refine ⟨overlay (Terminal.empty.feed width (front ++ [13])).row below,
      ?_, ?_⟩
    · rw [hover, feed_return]
      rfl
    · rw [overlay, List.length_append, List.length_drop]
      omega

/-- The blanks that `clprogress_print` prints first. -/
theorem feed_cleared {width : ℕ} (rows : List (List Byte)) {below : List Byte}
    (hbelow : below.length < width) :
    (lineStart rows below).feed width
        (List.replicate (width - 1) blank ++ [13]) =
      lineStart rows (List.replicate (width - 1) blank) := by
  have hplain : Plain (List.replicate (width - 1) blank) := by
    intro b hb
    rw [(List.mem_replicate.mp hb).2]
    decide
  have hfresh : feed width empty (List.replicate (width - 1) blank) =
      ⟨[], List.replicate (width - 1) blank, _, .ground⟩ :=
    feed_plain hplain (by simp)
  obtain ⟨hover, -⟩ := feed_onto rows below (by rw [hfresh])
  rw [feed_return, hover, hfresh]
  have hdrop : below.drop (width - 1) = [] :=
    List.drop_eq_nil_of_le (by omega)
  simp [onto, overlay, hdrop]

/-- After the message, or what is left of it, the terminal shows what the
messages alone would show. -/
theorem ScreenInv.similar {width : ℕ} {s : Screen} (hs : ScreenInv width s)
    (message : Message) :
    Similar blank
      (s.terminal.feed width (clprogressPrint width message.toCString))
      ((messagesAlone width s.messages).feed width
        (message.bytes.take (width - 1))) := by
  have hrow := hs.row
  have hstart : Similar blank
      (lineStart s.terminal.rows (List.replicate (width - 1) blank))
      (messagesAlone width s.messages) := by
    rw [hs.alone]
    exact ⟨hs.displayed, ⟨width - 1, rfl⟩, rfl, rfl, le_rfl⟩
  rw [clprogressPrint_eq (by omega), feed_append, hs.cursor,
    feed_cleared _ hs.row]
  exact hstart.feed _

theorem Message.bytes_eq (message : Message) :
    ∃ front, message.bytes = front ++ [10] :=
  List.getLast?_eq_some_iff.mp message.ends

theorem messagesAlone_concat (width : ℕ) (messages : List Message)
    (message : Message) :
    messagesAlone width (messages ++ [message]) =
      (messagesAlone width messages).feed width message.bytes := by
  simp [messagesAlone, feed_append]

/-- A message that is printed whole leaves the terminal as the messages alone
would. -/
theorem ScreenInv.print_fits {width : ℕ} {s : Screen} (hs : ScreenInv width s)
    {message : Message} (hfits : message.bytes.length < width) :
    ScreenInv width { s with
      terminal :=
        s.terminal.feed width (clprogressPrint width message.toCString)
      messages := s.messages ++ [message] } := by
  have hsimilar := hs.similar message
  have hprinted := clprogressPrint_eq (Nat.zero_lt_of_lt hs.row)
    message.toCString
  rw [List.take_of_length_le (by omega)] at hsimilar hprinted
  obtain ⟨front, hfront⟩ := message.bytes_eq
  rw [hfront, ← List.append_assoc] at hprinted
  refine ⟨?_, ?_, ?_, ?_⟩
  · rw [Displayed, messagesAlone_concat]
    exact hsimilar.rows
  · simp only [hprinted, feed_line]
    rfl
  · simp only [hprinted, feed_line]
    exact Nat.zero_lt_of_lt hs.row
  · rw [messagesAlone_concat, hfront, feed_line]
    rfl

/-- A message that is cut off leaves its last row unfinished. -/
theorem ScreenInv.not_displayed {width : ℕ} {s : Screen}
    (hs : ScreenInv width s) {message : Message}
    (hcut : width ≤ message.bytes.length) :
    ¬Displayed width { s with
      terminal :=
        s.terminal.feed width (clprogressPrint width message.toCString)
      messages := s.messages ++ [message] } := by
  intro h
  have hshown := h.length_eq
  have hsimilar := (hs.similar message).rows.length_eq
  obtain ⟨front, hfront⟩ := message.bytes_eq
  have hpos := Nat.zero_lt_of_lt hs.row
  have hlength : front.length + 1 = message.bytes.length := by
    simp [hfront]
  -- the newline is behind what is printed
  have htake : message.bytes.take (width - 1) = front.take (width - 1) := by
    rw [hfront, List.take_append_of_le_length (by omega)]
  have hmore : message.bytes =
      front.take (width - 1) ++ (front.drop (width - 1) ++ [10]) := by
    rw [← List.append_assoc, List.take_append_drop, hfront]
  rw [messagesAlone_concat, hmore, feed_append, feed_line] at hshown
  rw [htake] at hsimilar
  have hrows (t : Terminal) : t.rows.length ≤
      (t.feed width (front.drop (width - 1))).rows.length :=
    (feed_rows t (front.drop (width - 1))).length_le
  have hmono := hrows
    ((messagesAlone width s.messages).feed width (front.take (width - 1)))
  simp only [lineStart, List.length_append, List.length_singleton] at hshown
  omega

theorem ScreenInv.progress {width : ℕ} {s t : Screen} {label : Label}
    (hs : ScreenInv width s)
    (h : screenNext width s (.progress label) = some t) :
    ScreenInv width t := by
  obtain ⟨calls, hcalls, h⟩ := Option.bind_eq_some_iff.mp h
  obtain ⟨hnarrow, rfl⟩ := guarded_eq_some.mp h
  have hends := printedBetween_eq hcalls
  obtain ⟨row, hrow, hlength⟩ : ∃ row, (lineStart s.terminal.rows _).feed
      width _ = lineStart s.terminal.rows row ∧ row.length < width :=
    feed_narrow hnarrow hends hs.row
  rw [← hs.cursor] at hrow
  refine ⟨?_, ?_, ?_, hs.alone⟩
  · rw [Displayed, hrow]
    exact hs.displayed
  · rw [hrow]
    rfl
  · rw [hrow]
    exact hlength

/-! ### Runs -/

/-- On a terminal whose rows are wider than every line of `clprogress`, every
message stays on display in every state exactly if each fits into the columns
in front of the last. -/
theorem messages_displayed_iff {width : ℕ} (hwidth : 2 ≤ width)
    {buffers : List (List Byte)} {labels : List ScreenLabel} {s : Screen}
    (hrun : exec (screenNext width) (screenStart buffers) labels = some s) :
    EachStep (screenNext width) (fun _ _ t => Displayed width t)
        (screenStart buffers) labels ↔
      ∀ label ∈ labels, label.Fits width := by
  have hstart : ScreenInv width (screenStart buffers) :=
    screenStart_inv (by omega) buffers
  refine eachStep_iff_labels (fun s t label _ hfits hs h => ?_)
    (fun s t label _ hs h => ?_) hstart hrun
  · cases label with
    | progress label => exact hs.progress h
    | print message =>
        obtain rfl := Option.some.inj h
        exact hs.print_fits hfits
  · cases label with
    | progress label =>
        exact iff_of_true (hs.progress h).displayed trivial
    | print message =>
        obtain rfl := Option.some.inj h
        constructor
        · intro hdisplayed
          by_contra hcut
          exact hs.not_displayed (Nat.le_of_not_lt hcut) hdisplayed
        · exact fun hfits => (hs.print_fits hfits).displayed

/-- A message of twelve characters. -/
def twelveChars : Message :=
  { bytes := text "ABCDEFGHIJKL\n", noZero := by decide, ends := by decide }

/-- A bar of two positions. -/
def shortBar : InitArgs :=
  { chr := 35
    title := ⟨[], zero_not_mem_nil⟩
    len := 2
    style := .chr
    color := .green
    bgcolor := .default
    stream := none
    bar := none }

/-- A message between two redraws of the bar. -/
def betweenRedraws : List ScreenLabel :=
  let redraw := Label.clprogress 0
    ⟨2, ⟨[], zero_not_mem_nil⟩, ⟨[], zero_not_mem_nil⟩⟩
  [.progress (.init shortBar), .progress redraw, .print twelveChars,
    .progress redraw]

theorem messages_displayed_wide :
    ∃ s, exec (screenNext 20) (screenStart []) betweenRedraws = some s ∧
      EachStep (screenNext 20) (fun _ _ t => Displayed 20 t) (screenStart [])
        betweenRedraws := by
  have hrun : exec (screenNext 20) (screenStart []) betweenRedraws =
      some _ := rfl
  refine ⟨_, hrun, (messages_displayed_iff (by decide) hrun).mpr ?_⟩
  simp [betweenRedraws, ScreenLabel.Fits, twelveChars, text]

/-- With nine columns the last four characters of the message are lost. -/
theorem not_displayed_narrow :
    ∃ s, exec (screenNext 9) (screenStart []) betweenRedraws = some s ∧
      73 ∉ s.terminal.rows.flatten ++ s.terminal.row ∧
      ¬EachStep (screenNext 9) (fun _ _ t => Displayed 9 t) (screenStart [])
        betweenRedraws := by
  refine ⟨_, rfl, by decide +kernel, fun h => ?_⟩
  obtain ⟨-, h⟩ := h _ rfl
  obtain ⟨-, h⟩ := h _ rfl
  obtain ⟨hdisplayed, -⟩ := h _ rfl
  exact absurd hdisplayed.length_eq (by decide +kernel)

end ColorPrint

end MyFreeLib
