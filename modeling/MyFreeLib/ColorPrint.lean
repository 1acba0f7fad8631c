/-
`colorprint.c`: progress bars.  `clprogress_init` prepares a bar buffer,
`clprogress` draws in it and prints it on a line that ends in a carriage
return.  Several bars may share one buffer: every `NULL` bar is `_bar`.
-/
import MyFreeLib.ByteBuffer
import MyFreeLib.LabelledRun

namespace MyFreeLib

namespace ColorPrint

/-- `MAX_BAR_LENGTH` -/
def maxBarLength : ℕ := 200

/-- `progress_style`; `other` is any value of `int style` outside it. -/
inductive Style
  | num
  | chr
  | bgc
  | other
deriving DecidableEq, Repr

/-- `progress_cl`; `other` is any value of `int color` outside it. -/
inductive Color
  | black
  | red
  | green
  | brown
  | blue
  | purple
  | cyan
  | white
  | other
deriving DecidableEq, Repr

/-- `progress_bgcl`; `other` is any value of `int bgcolor` outside it. -/
inductive Bgcolor
  | default
  | black
  | red
  | green
  | brown
  | blue
  | purple
  | cyan
  | white
  | other
deriving DecidableEq, Repr

/-- The `CL_` text that `clprogress` copies into `color`. -/
def Color.code : Color → List Byte
  | .black => text "\x1b[30m"
  | .red => text "\x1b[31m"
  | .green => text "\x1b[32m"
  | .brown => text "\x1b[33m"
  | .blue => text "\x1b[34m"
  | .purple => text "\x1b[35m"
  | .cyan => text "\x1b[36m"
  | .white => text "\x1b[37m"
  | .other => text "\x1b[32m"

/-- The `CL_BACK_` text that `clprogress` copies into `bgcolor`. -/
def Bgcolor.code : Bgcolor → List Byte
  | .black => text "\x1b[40m"
  | .red => text "\x1b[41m"
  | .green => text "\x1b[42m"
  | .brown => text "\x1b[43m"
  | .blue => text "\x1b[44m"
  | .purple => text "\x1b[45m"
  | .cyan => text "\x1b[46m"
  | .white => text "\x1b[47m"
  | .default | .other => text "\x1b[49m"

/-- The file that a progress flushes. -/
inductive Stream
  | stdout
  | file (id : ℕ)
deriving DecidableEq, Repr

/-- `progress_t`, less the `offset` that nothing reads.  `pro` numbers the bar
buffer: 0 is `_bar`, `i + 1` the caller's buffer `i`. -/
structure Progress where
  chr : Byte
  title : CString
  style : Style
  len : ℕ
  color : Color
  bgcolor : Bgcolor
  stream : Stream
  pro : ℕ
deriving DecidableEq, Repr

/-- The arguments of `clprogress_init` after `pro`; `none` is `NULL`. -/
structure InitArgs where
  chr : Byte
  title : CString
  len : ℕ
  style : Style
  color : Color
  bgcolor : Bgcolor
  stream : Option Stream
  bar : Option ℕ
deriving DecidableEq, Repr

/-- What `clprogress` makes of its argument `percent` for a bar of length
`len`: `(int)(len * percent)`, and `percent * 100` as `%.1f` and `%.2f` print
it. -/
structure Percent where
  filled : ℕ
  oneDecimal : CString
  twoDecimals : CString
deriving DecidableEq, Repr

/-- What a call does: the bar buffer as it leaves it, the positions of that
buffer it writes or reads, what it prints and which file it flushes. -/
structure Effect where
  bar : List Byte
  touched : List ℤ
  printed : List Byte
  flushed : Option Stream
deriving DecidableEq, Repr

/-- The space that fills a bar. -/
def blank : Byte := 32

/-- The positions of a block. -/
def span (start count : ℕ) : List ℤ :=
  (List.range count).map fun i => (start + i : ℕ)

/-- The positions a `%s` conversion reads, its terminating zero included.  A
string that does not end in the buffer makes it read past the end. -/
def stringSpan (bar : List Byte) (start : ℕ) : List ℤ :=
  span start (strlen (bar.drop start) + 1)

/-- The fields that `clprogress_init` sets. -/
def InitArgs.progress (args : InitArgs) : Progress :=
  { chr := if args.chr = 0 then 35 else args.chr
    title := args.title
    style := args.style
    len := if args.len > maxBarLength then maxBarLength else args.len
    color := args.color
    bgcolor := args.bgcolor
    stream := args.stream.getD .stdout
    pro := match args.bar with
      | none => 0
      | some i => i + 1 }

/-- `clprogress_init` -/
def clprogressInit (pro : Progress) (bar : List Byte) : Effect :=
  { bar := store (memset bar blank pro.len) (pro.len - 1) 0
    touched := span 0 pro.len ++ [(pro.len : ℤ) - 1]
    printed := []
    flushed := none }

/-- `offset`: one less than the filled part, and never below zero. -/
def clampedOffset (filled : ℕ) : ℕ :=
  let offset : ℤ := filled - 1
  (if offset < 0 then 0 else offset).toNat

/-- The bar buffer when `PROGRESS_CHR_STYLE` prints it. -/
def chrBar (pro : Progress) (bar : List Byte) (filled : ℕ) : List Byte :=
  memset bar pro.chr (clampedOffset filled)

/-- The bar buffer when `PROGRESS_BGC_STYLE` prints it.  The first of the two
zeros goes where the unclamped offset says. -/
def bgcBar (pro : Progress) (bar : List Byte) (filled : ℕ) : List Byte :=
  store (store (memset bar blank pro.len) (filled - 1) 0)
    (clampedOffset filled) 0

/-- Where the second `%s` of `PROGRESS_BGC_STYLE` starts. -/
def bgcSecond (pro : Progress) (filled : ℕ) : ℕ :=
  let offset := clampedOffset filled
  if offset + 1 = pro.len then pro.len else offset + 1

/-- `clprogress` -/
def clprogress (pro : Progress) (bar : List Byte) (percent : Percent) :
    Effect :=
  match pro.style with
  | .num =>
      { bar := bar
        touched := []
        printed := pro.color.code ++ pro.bgcolor.code ++ text "\x1b[1m" ++
          pro.title.bytes ++ text " " ++ percent.oneDecimal.bytes ++
          text "%\x1b[0m\r"
        flushed := some pro.stream }
  | .chr =>
      let drawn := chrBar pro bar percent.filled
      { bar := drawn
        touched := span 0 (clampedOffset percent.filled) ++ stringSpan drawn 0
        printed := pro.color.code ++ pro.bgcolor.code ++ text "\x1b[1m" ++
          pro.title.bytes ++ text " [" ++ cString drawn ++ text "] " ++
          percent.oneDecimal.bytes ++ text "% \x1b[0m\r"
        flushed := some pro.stream }
  | .bgc =>
      let drawn := bgcBar pro bar percent.filled
      let second := bgcSecond pro percent.filled
      { bar := drawn
        touched := span 0 pro.len ++ [(percent.filled : ℤ) - 1] ++
          [(clampedOffset percent.filled : ℤ)] ++ stringSpan drawn 0 ++
          stringSpan drawn second
        printed := pro.color.code ++ text "\x1b[1m" ++ pro.title.bytes ++
          text " " ++ pro.bgcolor.code ++ text " " ++ cString drawn ++
          text "\x1b[40m" ++ cString (drawn.drop second) ++
          text "\x1b[49m " ++ percent.twoDecimals.bytes ++
          text "%\x1b[0m\r"
        flushed := some pro.stream }
  | .other => ⟨bar, [], [], none⟩

/-- The bar buffers, the values that `clprogress_init` has filled in so far and
the output of all calls. -/
structure State where
  bars : List (List Byte)
  progress : List Progress
  printed : List Byte
deriving DecidableEq, Repr

/-- `_bar` starts as zeros; the caller's buffers hold anything. -/
def start (buffers : List (List Byte)) : State :=
  { bars := List.replicate maxBarLength 0 :: buffers
    progress := []
    printed := [] }

/-- One call.  A later call may use any of the values filled in before. -/
inductive Label
  | init (args : InitArgs)
  | clprogress (p : ℕ) (percent : Percent)
deriving DecidableEq, Repr

/-- The value the call works on. -/
def Label.progress (s : State) : Label → Option Progress
  | .init args => if 1 ≤ args.len then some args.progress else none
  | .clprogress p percent =>
      s.progress[p]?.filter fun pro => percent.filled ≤ pro.len

def Label.effect (pro : Progress) (bar : List Byte) : Label → Effect
  | .init _ => clprogressInit pro bar
  | .clprogress _ percent => ColorPrint.clprogress pro bar percent

/-- The values filled in after the call. -/
def Label.live (pro : Progress) (filledIn : List Progress) :
    Label → List Progress
  | .init _ => filledIn ++ [pro]
  | .clprogress _ _ => filledIn

def next (s : State) (label : Label) : Option State := do
  let pro ← label.progress s
  let bar ← s.bars[pro.pro]?
  let effect := label.effect pro bar
  return { bars := s.bars.set pro.pro effect.bar
           progress := label.live pro s.progress
           printed := s.printed ++ effect.printed }

/-- All these positions lie inside the buffer. -/
def Within (touched : List ℤ) (bar : List Byte) : Prop :=
  ∀ pos ∈ touched, 0 ≤ pos ∧ pos < bar.length

instance (touched : List ℤ) (bar : List Byte) :
    Decidable (Within touched bar) :=
  inferInstanceAs (Decidable (∀ pos ∈ touched, _))

/-- The call stays inside its bar buffer. -/
def InBounds (s : State) (label : Label) : Prop :=
  ∀ pro ∈ label.progress s, ∀ bar ∈ s.bars[pro.pro]?,
    Within (label.effect pro bar).touched bar

instance (s : State) (label : Label) : Decidable (InBounds s label) :=
  inferInstanceAs (Decidable (∀ pro ∈ label.progress s, _))

/-- Everything a call does to the state. -/
theorem next_eq_some {s t : State} {label : Label} :
    next s label = some t ↔ ∃ pro bar, label.progress s = some pro ∧
      s.bars[pro.pro]? = some bar ∧
      t = { bars := s.bars.set pro.pro (label.effect pro bar).bar
            progress := label.live pro s.progress
            printed := s.printed ++ (label.effect pro bar).printed } := by
  simp only [next, Option.bind_eq_bind, Option.pure_def,
    Option.bind_eq_some_iff, Option.some.injEq, exists_and_left]
  simp only [eq_comm]

end ColorPrint

end MyFreeLib
