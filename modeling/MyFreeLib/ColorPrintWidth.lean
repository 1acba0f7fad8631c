/-
How wide a `PROGRESS_BGC_STYLE` bar comes out.  Its second `%s` has no
terminator of its own: `clprogress` has just overwritten the one that
`clprogress_init` left, so it ends where the buffer behind the bar says.
-/
import MyFreeLib.ColorPrintBounds
import MyFreeLib.ProcessTable

namespace MyFreeLib

namespace ColorPrint

/-- A `%s` prints `shown`, and the string ends inside the buffer. -/
def Prints (bar : List Byte) (start : ℕ) (shown : List Byte) : Prop :=
  cString (bar.drop start) = shown ∧ ZeroFrom bar start

/-- The line of a `PROGRESS_BGC_STYLE` bar, with what the two `%s` of the bar
print. -/
def bgcLine (pro : Progress) (percent : Percent) (first second : List Byte) :
    List Byte :=
  pro.color.code ++ text "\x1b[1m" ++ pro.title.bytes ++ text " " ++
    pro.bgcolor.code ++ text " " ++ first ++ text "\x1b[40m" ++ second ++
    text "\x1b[49m " ++ percent.twoDecimals.bytes ++ text "%\x1b[0m\r"

/-- The call prints the two segments of the bar: the filled part less one
position, and what is left up to one less than the length.  Both strings end
inside the buffer. -/
def FullWidth (pro : Progress) (bar : List Byte) (percent : Percent) : Prop :=
  (clprogress pro bar percent).printed =
      bgcLine pro percent (List.replicate (percent.filled - 1) blank)
        (List.replicate (pro.len - 1 - (percent.filled - 1)) blank) ∧
    ZeroFrom (clprogress pro bar percent).bar 0 ∧
    ZeroFrom (clprogress pro bar percent).bar (bgcSecond pro percent.filled)

instance (pro : Progress) (bar : List Byte) (percent : Percent) :
    Decidable (FullWidth pro bar percent) :=
  inferInstanceAs (Decidable (_ ∧ _))

/-- A `PROGRESS_BGC_STYLE` call prints a bar of the full width. -/
def ConstantWidth (s : State) : Label → Prop
  | .init _ => True
  | .clprogress p percent => ∀ pro ∈ s.progress[p]?,
      ∀ bar ∈ s.bars[pro.pro]?, pro.style = .bgc → FullWidth pro bar percent

instance (s : State) : ∀ label, Decidable (ConstantWidth s label)
  | .init _ => isTrue trivial
  | .clprogress p _ => inferInstanceAs (Decidable (∀ pro ∈ s.progress[p]?, _))

/-- A `PROGRESS_BGC_STYLE` call finds a zero right behind its bar. -/
def ZeroBehind (s : State) : Label → Prop
  | .init _ => True
  | .clprogress p _ => ∀ pro ∈ s.progress[p]?,
      ∀ bar ∈ s.bars[pro.pro]?, pro.style = .bgc → bar[pro.len]? = some 0

/-! ### One call -/

/-- Every value filled in so far has a bar. -/
def HasBars (s : State) : Prop := ∀ pro ∈ s.progress, 1 ≤ pro.len

theorem zero_not_mem_blanks (count : ℕ) :
    (0 : Byte) ∉ List.replicate count blank := by
  simp [blank]

/-- Where `shown` stands and no zero is in it, it is printed exactly if the
next byte is a zero. -/
theorem prints_iff {bar shown rest : List Byte} {start : ℕ}
    (hshown : 0 ∉ shown) (h : bar.drop start = shown ++ rest) :
    Prints bar start shown ↔ rest[0]? = some 0 := by
  rw [Prints, ZeroFrom, h, cString_append hshown, List.append_right_eq_self]
  cases rest with
  | nil => simp [hshown]
  | cons byte rest =>
      by_cases hbyte : byte = 0 <;> simp [cString, hbyte]

/-- The buffer as it is printed. -/
theorem bgcBar_shape (pro : Progress) (bar : List Byte) {filled : ℕ}
    (hpos : 1 ≤ pro.len) (hfilled : filled ≤ pro.len) :
    bgcBar pro bar filled = List.replicate (filled - 1) blank ++ 0 ::
      (List.replicate (pro.len - 1 - (filled - 1)) blank ++
        bar.drop pro.len) := by
  obtain ⟨n, hn⟩ : ∃ n, pro.len = filled - 1 + (n + 1) :=
    ⟨pro.len - 1 - (filled - 1), by omega⟩
  have hlast : pro.len - 1 - (filled - 1) = n := by omega
  rw [bgcBar_eq, hlast, memset, overlay, List.length_replicate, hn,
    List.replicate_add, List.append_assoc, List.set_append_right _ _ (by simp)]
  simp [List.replicate_succ]

theorem bgcLine_second_inj {pro : Progress} {percent : Percent}
    {first second other : List Byte} :
    bgcLine pro percent first second = bgcLine pro percent first other ↔
      second = other := by
  simp [bgcLine]

/-- What such a call does. -/
theorem clprogress_bgc {pro : Progress} (bar : List Byte) (percent : Percent)
    (hstyle : pro.style = .bgc) :
    (clprogress pro bar percent).bar = bgcBar pro bar percent.filled ∧
      (clprogress pro bar percent).printed = bgcLine pro percent
        (cString (bgcBar pro bar percent.filled))
        (cString ((bgcBar pro bar percent.filled).drop
          (bgcSecond pro percent.filled))) := by
  simp only [clprogress, hstyle, bgcLine, and_self]

/-- What stands right behind the bar decides. -/
theorem fullWidth_iff {pro : Progress} {bar : List Byte} {percent : Percent}
    (hstyle : pro.style = .bgc) (hpos : 1 ≤ pro.len)
    (hfilled : percent.filled ≤ pro.len) :
    FullWidth pro bar percent ↔ bar[pro.len]? = some 0 := by
  have hshape := bgcBar_shape pro bar hpos hfilled
  obtain ⟨hbar, hprinted⟩ := clprogress_bgc bar percent hstyle
  have hfirst : Prints (bgcBar pro bar percent.filled) 0
      (List.replicate (percent.filled - 1) blank) := by
    rw [prints_iff (zero_not_mem_blanks _) (by rw [List.drop_zero, hshape])]
    rfl
  have hsecond : (bgcBar pro bar percent.filled).drop
      (bgcSecond pro percent.filled) =
        List.replicate (pro.len - 1 - (percent.filled - 1)) blank ++
          bar.drop pro.len := by
    rw [hshape, bgcSecond_eq, List.drop_append]
    simp
  have hshown := hfirst.1
  rw [List.drop_zero] at hshown
  rw [FullWidth, hbar, hprinted, hshown, bgcLine_second_inj,
    and_iff_right hfirst.2]
  change Prints _ _ _ ↔ _
  rw [prints_iff (zero_not_mem_blanks _) hsecond, List.getElem?_drop]
  rfl

/-- No call writes at or behind the end of its bar. -/
theorem effect_getElem?_of_le {s : State} {label : Label} {pro : Progress}
    {bar : List Byte} {i : ℕ} (hs : HasBars s)
    (hpro : label.progress s = some pro) (hi : pro.len ≤ i) :
    (label.effect pro bar).bar[i]? = bar[i]? := by
  cases label with
  | init args =>
      obtain ⟨hpos, -⟩ := Label.progress_init hpro
      simp only [Label.effect]
      rw [clprogressInit_bar bar hpos, List.getElem?_set_ne (by omega),
        memset_getElem?_of_le hi]
  | clprogress p percent =>
      obtain ⟨hp, hfilled⟩ := Label.progress_clprogress hpro
      have hpos := hs pro (List.mem_of_getElem? hp)
      cases hstyle : pro.style with
      | num | other => simp only [Label.effect, clprogress, hstyle]
      | chr =>
          simp only [Label.effect, clprogress, hstyle, chrBar, clampedOffset_eq]
          rw [memset_getElem?_of_le (by omega)]
      | bgc =>
          simp only [Label.effect, clprogress, hstyle]
          exact bgcBar_getElem?_of_le hpos hfilled hi

/-! ### Runs -/

theorem next_hasBars (s : State) (label : Label) (t : State)
    (hs : HasBars s) (h : next s label = some t) : HasBars t := by
  obtain ⟨pro, bar, hpro, -, rfl⟩ := next_eq_some.mp h
  cases label with
  | clprogress p percent => exact hs
  | init args =>
      intro later hlater
      rcases List.mem_append.mp hlater with hold | hlast
      · exact hs later hold
      · rw [List.mem_singleton.mp hlast]
        exact (Label.progress_init hpro).1

/-- All bars of a run have the full width exactly when each finds a zero
behind it. -/
theorem constantWidth_iff (buffers : List (List Byte)) (labels : List Label) :
    EachStep next (fun s label _ => ConstantWidth s label) (start buffers)
        labels ↔
      EachStep next (fun s label _ => ZeroBehind s label) (start buffers)
        labels := by
  have hstart : HasBars (start buffers) := by simp [HasBars, start]
  refine eachStep_congr (fun s label t hs _ h => next_hasBars s label t hs h)
    (fun s label t hs h => ?_) hstart labels
  obtain ⟨pro, bar, hpro, hbar, -⟩ := next_eq_some.mp h
  cases label with
  | init args => rfl
  | clprogress p percent =>
      obtain ⟨hp, hfilled⟩ := Label.progress_clprogress hpro
      have hpos := hs pro (List.mem_of_getElem? hp)
      simp only [ConstantWidth, ZeroBehind, hp, hbar, Option.mem_def,
        Option.some.injEq, forall_eq']
      exact forall_congr' fun hstyle => fullWidth_iff hstyle hpos hfilled

/-- The bars of a run have the length that goes with their buffer, and every
buffer has a zero at that position. -/
structure SameLength (len : ℕ → ℕ) (s : State) : Prop where
  bars : HasBars s
  length : ∀ pro ∈ s.progress, pro.len = len pro.pro
  zero : ∀ i bar, s.bars[i]? = some bar → bar[len i]? = some 0

theorem next_sameLength {len : ℕ → ℕ} {s t : State} {label : Label}
    (hs : SameLength len s)
    (hlabel : ∀ args, label = .init args →
      args.progress.len = len args.progress.pro)
    (h : next s label = some t) : SameLength len t := by
  obtain ⟨pro, bar, hpro, hbar, rfl⟩ := next_eq_some.mp h
  have hlength : pro.len = len pro.pro := by
    cases label with
    | init args =>
        obtain ⟨-, rfl⟩ := guarded_eq_some.mp hpro
        exact hlabel args rfl
    | clprogress p percent =>
        exact hs.length pro
          (List.mem_of_getElem? (Label.progress_clprogress hpro).1)
  refine ⟨next_hasBars s label _ hs.bars h, ?_, ?_⟩
  · cases label with
    | clprogress p percent => exact hs.length
    | init args =>
        intro later hlater
        rcases List.mem_append.mp hlater with hold | hlast
        · exact hs.length later hold
        · exact List.mem_singleton.mp hlast ▸ hlength
  · intro i other hother
    rcases getElem?_set_cases hother with ⟨rfl, rfl⟩ | ⟨-, hold⟩
    · rw [effect_getElem?_of_le hs.bars hpro hlength.le]
      exact hs.zero _ bar hbar
    · exact hs.zero i other hold

/-- If all bars of a buffer have one length, and a zero stands at it before the
first call, every bar has the full width. -/
theorem constantWidth_of_sameLength {buffers : List (List Byte)}
    {len : ℕ → ℕ} {labels : List Label}
    (hzero : ∀ i bar, (start buffers).bars[i]? = some bar →
      bar[len i]? = some 0)
    (hlabels : ∀ label ∈ labels, ∀ args, label = .init args →
      args.progress.len = len args.progress.pro) :
    EachStep next (fun s label _ => ConstantWidth s label) (start buffers)
      labels := by
  refine (constantWidth_iff buffers labels).mpr ?_
  have hstart : SameLength len (start buffers) :=
    ⟨by simp [HasBars, start], by simp [start], hzero⟩
  have hsteps := eachStep_of_labels next hlabels (start buffers)
  refine eachStep_mono (fun s label t hs hlabel h => ?_)
    (fun s label t hs _ _ => ?_) hstart hsteps
  · exact next_sameLength hs hlabel h
  cases label with
  | init args => trivial
  | clprogress p percent =>
      intro pro hpro bar hbar _
      rw [hs.length pro (List.mem_of_getElem? hpro)]
      exact hs.zero _ bar hbar

/-- A longer bar and a shorter one in `_bar`, one after the other. -/
def longerBefore : List Label :=
  [.init { greenBar with len := 100 }, .init greenBar,
    .clprogress 1 (percentOf 40)]

theorem not_constantWidth_longerBefore :
    ¬EachStep next (fun s label _ => ConstantWidth s label) (start [])
      longerBefore := by
  decide +kernel

end ColorPrint

end MyFreeLib
