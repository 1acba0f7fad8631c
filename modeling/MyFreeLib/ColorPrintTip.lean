/-
What a `PROGRESS_CHR_STYLE` bar shows.  `clprogress` writes the tip character
over the start of the bar and clears nothing, so a bar with a buffer of its
own shows the highest percent so far.
-/
import MyFreeLib.ColorPrintWidth

namespace MyFreeLib

namespace ColorPrint

/-- A bar that is filled up to `count`. -/
def tipBar (pro : Progress) (count : ℕ) : List Byte :=
  List.replicate count pro.chr ++ List.replicate (pro.len - 1 - count) blank

/-- The line of a `PROGRESS_CHR_STYLE` bar, with what the `%s` of the bar
prints. -/
def chrLine (pro : Progress) (percent : Percent) (shown : List Byte) :
    List Byte :=
  pro.color.code ++ pro.bgcolor.code ++ text "\x1b[1m" ++ pro.title.bytes ++
    text " [" ++ shown ++ text "] " ++ percent.oneDecimal.bytes ++
    text "% \x1b[0m\r"

/-- The call prints the bar of its percent, a string that ends inside the
buffer. -/
def Shows (pro : Progress) (bar : List Byte) (percent : Percent) : Prop :=
  (clprogress pro bar percent).printed =
      chrLine pro percent (tipBar pro (percent.filled - 1)) ∧
    ZeroFrom (clprogress pro bar percent).bar 0

instance (pro : Progress) (bar : List Byte) (percent : Percent) :
    Decidable (Shows pro bar percent) :=
  inferInstanceAs (Decidable (_ ∧ _))

/-- The calls on value `p` show the percent they are given. -/
def ShowsPercent (p : ℕ) (s : State) : Label → Prop
  | .init _ => True
  | .clprogress q percent => q = p → ∀ pro ∈ s.progress[q]?,
      ∀ bar ∈ s.bars[pro.pro]?, Shows pro bar percent

instance (p : ℕ) (s : State) : ∀ label, Decidable (ShowsPercent p s label)
  | .init _ => isTrue trivial
  | .clprogress _ _ => inferInstanceAs (Decidable (_ → _))

/-- The offset up to which the call fills the bar of value `p`. -/
def Label.offset (p : ℕ) : Label → Option ℕ
  | .init _ => none
  | .clprogress q percent =>
      if q = p then some (clampedOffset percent.filled) else none

/-- No other value is on the buffer of value `p`. -/
def OwnBuffer (p : ℕ) (buffer : ℕ) (filledIn : List Progress) : Prop :=
  ∀ q pro, filledIn[q]? = some pro → pro.pro = buffer → q = p

theorem Label.offset_eq_some {p offset : ℕ} {label : Label} :
    label.offset p = some offset ↔
      ∃ percent, label = .clprogress p percent ∧
        offset = percent.filled - 1 := by
  cases label with
  | init args => simp [Label.offset]
  | clprogress q percent =>
      by_cases hq : q = p
      · simp [Label.offset, hq, eq_comm]
      · simp [Label.offset, hq]

/-! ### One call -/

theorem zero_not_mem_tipBar {pro : Progress} (htip : pro.chr ≠ 0)
    (count : ℕ) : 0 ∉ tipBar pro count := by
  simp [tipBar, blank, Ne.symm htip]

/-- Two bars with the same tip look alike only if they are filled alike, or
if the tip cannot be seen. -/
theorem tipBar_eq_iff {pro : Progress} {count more : ℕ}
    (hle : count ≤ more) (hmore : more ≤ pro.len - 1) :
    tipBar pro more = tipBar pro count ↔ more = count ∨ pro.chr = blank := by
  constructor
  · intro h
    by_contra hne
    rw [not_or] at hne
    obtain ⟨hcount, htip⟩ := hne
    have hat : (tipBar pro more)[count]? = (tipBar pro count)[count]? := by
      rw [h]
    have hlt : count < more := by omega
    have hroom : 0 < pro.len - 1 - count := by omega
    rw [tipBar, List.getElem?_append_left (by simpa using hlt),
      List.getElem?_replicate, if_pos hlt, tipBar,
      List.getElem?_append_right (by simp), List.length_replicate,
      Nat.sub_self, List.getElem?_replicate, if_pos hroom] at hat
    exact htip (Option.some.inj hat)
  · rintro (rfl | htip)
    · rfl
    · simp only [tipBar, htip, ← List.replicate_add]
      congr 1
      omega

/-- Drawing over a bar that is filled up to `count`. -/
theorem chrBar_tipBar {pro : Progress} {bar rest : List Byte}
    {count filled : ℕ} (hbar : bar = tipBar pro count ++ 0 :: rest)
    (hfilled : filled ≤ pro.len) :
    chrBar pro bar filled =
      tipBar pro (max count (filled - 1)) ++ 0 :: rest := by
  rw [chrBar, clampedOffset_eq, memset, overlay, List.length_replicate, hbar]
  rcases Nat.le_total (filled - 1) count with hle | hge
  · -- the tip characters already there go on behind the new ones
    obtain ⟨n, rfl⟩ := Nat.exists_eq_add_of_le hle
    rw [max_eq_left hle, tipBar, List.replicate_add, List.append_assoc,
      List.append_assoc, List.drop_left' (List.length_replicate ..)]
  · obtain ⟨n, hn⟩ := Nat.exists_eq_add_of_le hge
    obtain ⟨m, hm⟩ : ∃ m, pro.len - 1 - count = n + m :=
      Nat.exists_eq_add_of_le (by omega)
    have hrest : pro.len - 1 - (count + n) = m := by omega
    have hblanks : List.replicate (n + m) blank =
        List.replicate n blank ++ List.replicate m blank :=
      List.replicate_add ..
    rw [max_eq_right hge, hn, tipBar, tipBar, hm, hrest, hblanks,
      List.append_assoc, List.append_assoc, ← List.drop_drop,
      List.drop_left' (List.length_replicate ..), List.append_assoc,
      List.drop_left' (List.length_replicate ..)]

/-- The bar of a fresh value is empty. -/
theorem clprogressInit_tipBar {pro : Progress} (bar : List Byte)
    (hpos : 1 ≤ pro.len) : (clprogressInit pro bar).bar =
      tipBar pro 0 ++ 0 :: bar.drop pro.len := by
  obtain ⟨n, hn⟩ := Nat.exists_eq_add_of_le' hpos
  rw [clprogressInit_bar bar hpos, memset, overlay, List.length_replicate,
    tipBar, hn, List.replicate_add, List.append_assoc]
  simp

/-- A call shows its percent exactly if no call before it has filled more, or
if the tip cannot be seen. -/
theorem prints_chrBar_iff {pro : Progress} {bar rest : List Byte}
    {count filled : ℕ} (hbar : bar = tipBar pro count ++ 0 :: rest)
    (htip : pro.chr ≠ 0) (hcount : count ≤ pro.len - 1)
    (hfilled : filled ≤ pro.len) :
    Prints (chrBar pro bar filled) 0 (tipBar pro (filled - 1)) ↔
      pro.chr = blank ∨ count ≤ filled - 1 := by
  have hdrawn := chrBar_tipBar hbar hfilled
  have hzero := zero_not_mem_tipBar htip (max count (filled - 1))
  have hshown : cString (chrBar pro bar filled) =
      tipBar pro (max count (filled - 1)) := by
    rw [hdrawn, cString_append_zero hzero]
  have hends : ZeroFrom (chrBar pro bar filled) 0 := by
    simp [ZeroFrom, hdrawn]
  rw [Prints, List.drop_zero, hshown, and_iff_left hends,
    tipBar_eq_iff (Nat.le_max_right ..) (by omega), max_eq_right_iff]
  exact or_comm

theorem chrLine_inj {pro : Progress} {percent : Percent}
    {shown other : List Byte} :
    chrLine pro percent shown = chrLine pro percent other ↔
      shown = other := by
  simp [chrLine]

/-- What such a call does. -/
theorem clprogress_chr {pro : Progress} (bar : List Byte) (percent : Percent)
    (hstyle : pro.style = .chr) :
    (clprogress pro bar percent).bar = chrBar pro bar percent.filled ∧
      (clprogress pro bar percent).printed =
        chrLine pro percent (cString (chrBar pro bar percent.filled)) := by
  simp only [clprogress, hstyle, chrLine, and_self]

theorem shows_iff_prints {pro : Progress} {bar : List Byte}
    {percent : Percent} (hstyle : pro.style = .chr) :
    Shows pro bar percent ↔ Prints (chrBar pro bar percent.filled) 0
      (tipBar pro (percent.filled - 1)) := by
  obtain ⟨hbar, hprinted⟩ := clprogress_chr bar percent hstyle
  rw [Shows, Prints, hbar, hprinted, chrLine_inj, List.drop_zero]

/-! ### Runs -/

/-- Value `p` is `pro`, and its bar is filled up to `count`. -/
structure Drawn (p : ℕ) (pro : Progress) (count : ℕ) (s : State) : Prop where
  value : s.progress[p]? = some pro
  bar : ∃ bar rest, s.bars[pro.pro]? = some bar ∧
    bar = tipBar pro count ++ 0 :: rest
  count : count ≤ pro.len - 1

/-- `clprogress_init` leaves an empty bar. -/
theorem drawn_of_init {args : InitArgs} {s t : State}
    (h : next s (.init args) = some t) :
    Drawn s.progress.length args.progress 0 t := by
  obtain ⟨pro, bar, hpro, hbar, rfl⟩ := next_eq_some.mp h
  obtain ⟨hpos, -⟩ := Label.progress_init hpro
  obtain ⟨-, rfl⟩ := guarded_eq_some.mp hpro
  have hlt := (List.getElem?_eq_some_iff.mp hbar).1
  refine ⟨List.getElem?_concat_length, ?_, Nat.zero_le _⟩
  exact ⟨_, _, List.getElem?_set_self hlt, clprogressInit_tipBar bar hpos⟩

/-- Values are only added. -/
theorem next_progress {s t : State} {label : Label}
    (h : next s label = some t) : s.progress <+: t.progress := by
  obtain ⟨pro, bar, -, -, rfl⟩ := next_eq_some.mp h
  cases label with
  | init args => exact List.prefix_append ..
  | clprogress p percent => exact List.prefix_rfl

theorem exec_progress {s t : State} {labels : List Label}
    (h : exec next s labels = some t) : s.progress <+: t.progress := by
  induction labels generalizing s with
  | nil =>
      rw [exec_nil, Option.some.injEq] at h
      exact h ▸ List.prefix_rfl
  | cons label rest ih =>
      obtain ⟨u, hfirst, hrest⟩ := exec_cons_eq_some.mp h
      exact (next_progress hfirst).trans (ih hrest)

theorem OwnBuffer.of_prefix {p buffer : ℕ} {front all : List Progress}
    (h : OwnBuffer p buffer all) (hfront : front <+: all) :
    OwnBuffer p buffer front :=
  fun q pro hq => h q pro (getElem?_of_front hfront hq)

/-- A call on another value leaves the bar alone. -/
theorem Drawn.next_other {p count : ℕ} {pro : Progress} {s t : State}
    {label : Label} (hs : Drawn p pro count s)
    (hown : OwnBuffer p pro.pro t.progress) (hlabel : label.offset p = none)
    (h : next s label = some t) : Drawn p pro count t := by
  obtain ⟨bar, rest, hbar, hshape⟩ := hs.bar
  have hvalue := getElem?_of_front (next_progress h) hs.value
  refine ⟨hvalue, ⟨bar, rest, ?_, hshape⟩, hs.count⟩
  obtain ⟨other, bar', hother, -, rfl⟩ := next_eq_some.mp h
  have hne : other.pro ≠ pro.pro := by
    intro hsame
    cases label with
    | init args =>
        have hlast := hown s.progress.length other
          (List.getElem?_concat_length) hsame
        have hlt := (List.getElem?_eq_some_iff.mp hs.value).1
        omega
    | clprogress q percent =>
        have hq := (Label.progress_clprogress hother).1
        simp [Label.offset, hown q other hq hsame] at hlabel
  exact (List.getElem?_set_ne hne).trans hbar

/-- A call on the value itself shows its percent or hides it behind a higher
one. -/
theorem Drawn.next_own {p count : ℕ} {pro : Progress} {s t : State}
    {percent : Percent} (hs : Drawn p pro count s) (hstyle : pro.style = .chr)
    (htip : pro.chr ≠ 0) (h : next s (.clprogress p percent) = some t) :
    Drawn p pro (max count (percent.filled - 1)) t ∧
      (ShowsPercent p s (.clprogress p percent) ↔
        pro.chr = blank ∨ count ≤ percent.filled - 1) := by
  obtain ⟨bar, rest, hbar, hshape⟩ := hs.bar
  obtain ⟨same, bar', hsame, hbar', rfl⟩ := next_eq_some.mp h
  obtain ⟨hvalue, hfilled⟩ := Label.progress_clprogress hsame
  obtain rfl : same = pro := Option.some.inj (hvalue.symm.trans hs.value)
  obtain rfl : bar' = bar := Option.some.inj (hbar'.symm.trans hbar)
  constructor
  · refine ⟨hvalue, ⟨_, rest, List.getElem?_set_self
      (List.getElem?_eq_some_iff.mp hbar).1, ?_⟩, by have := hs.count; omega⟩
    simp only [Label.effect, clprogress, hstyle]
    exact chrBar_tipBar hshape hfilled
  · simp only [ShowsPercent, true_implies, hvalue, hbar, Option.mem_def,
      Option.some.injEq, forall_eq']
    rw [shows_iff_prints hstyle]
    exact prints_chrBar_iff hshape htip hs.count hfilled

/-- A call on another value has nothing to show of value `p`. -/
theorem showsPercent_of_other {p : ℕ} {s : State} {label : Label}
    (h : label.offset p = none) : ShowsPercent p s label := by
  cases label with
  | init args => trivial
  | clprogress q percent =>
      intro hq
      simp [Label.offset, hq] at h

/-- What one more call asks of the offsets. -/
theorem pairwise_max_iff {count offset : ℕ} {later : List ℕ} :
    count ≤ offset ∧ (max count offset :: later).Pairwise (· ≤ ·) ↔
      (count :: offset :: later).Pairwise (· ≤ ·) := by
  constructor
  · rintro ⟨hle, hlater⟩
    rw [max_eq_right hle] at hlater
    refine List.pairwise_cons.mpr ⟨fun next hnext => ?_, hlater⟩
    rcases List.mem_cons.mp hnext with rfl | hnext
    · exact hle
    · exact hle.trans (List.rel_of_pairwise_cons hlater hnext)
  · intro h
    have hle := List.rel_of_pairwise_cons h List.mem_cons_self
    rw [max_eq_right hle]
    exact ⟨hle, h.of_cons⟩

/-- From a bar that is filled up to `count` on. -/
theorem Drawn.shows_iff {p count : ℕ} {pro : Progress} {s t : State}
    {labels : List Label} (hs : Drawn p pro count s)
    (hstyle : pro.style = .chr) (htip : pro.chr ≠ 0)
    (hown : OwnBuffer p pro.pro t.progress)
    (hrun : exec next s labels = some t) :
    EachStep next (fun s label _ => ShowsPercent p s label) s labels ↔
      pro.chr = blank ∨
        (count :: labels.filterMap (Label.offset p)).Pairwise (· ≤ ·) := by
  induction labels generalizing s count with
  | nil => simp [EachStep]
  | cons label rest ih =>
      obtain ⟨u, hfirst, hrest⟩ := exec_cons_eq_some.mp hrun
      have hownu := hown.of_prefix (exec_progress hrest)
      simp only [EachStep, hfirst, Option.some.injEq, forall_eq']
      cases hoffset : label.offset p with
      | none =>
          rw [List.filterMap_cons_none hoffset,
            and_iff_right (showsPercent_of_other hoffset)]
          exact ih (hs.next_other hownu hoffset hfirst) hrest
      | some offset =>
          obtain ⟨percent, rfl, rfl⟩ := Label.offset_eq_some.mp hoffset
          obtain ⟨hu, hshows⟩ := hs.next_own hstyle htip hfirst
          rw [List.filterMap_cons_some hoffset, hshows, ih hu hrest,
            ← or_and_left, pairwise_max_iff]

theorem InitArgs.progress_chr (args : InitArgs) : args.progress.chr ≠ 0 := by
  simp only [InitArgs.progress]
  split
  case isTrue => decide
  case isFalse hne => exact hne

/-- A value that `clprogress_init` has just filled in, on a buffer that no
other value is on: all calls on it show the percent they are given exactly if
the tip is a space or the filled part never gets shorter. -/
theorem tip_shows_iff {buffers : List (List Byte)} {front labels : List Label}
    {args : InitArgs} {s t : State} {p : ℕ}
    (hinit : exec next (start buffers) (front ++ [.init args]) = some s)
    (hp : s.progress.length = p + 1) (hstyle : args.style = .chr)
    (hown : OwnBuffer p args.progress.pro t.progress)
    (hrun : exec next s labels = some t) :
    EachStep next (fun s label _ => ShowsPercent p s label) s labels ↔
      args.progress.chr = blank ∨
        (labels.filterMap (Label.offset p)).Pairwise (· ≤ ·) := by
  obtain ⟨u, -, hlast⟩ := exec_snoc_eq_some.mp hinit
  have hs := drawn_of_init hlast
  have hindex : u.progress.length = p := by
    obtain ⟨pro, bar, -, -, rfl⟩ := next_eq_some.mp hlast
    simpa [Label.live] using hp
  rw [hindex] at hs
  rw [hs.shows_iff hstyle args.progress_chr hown hrun, List.pairwise_cons,
    and_iff_right fun _ _ => Nat.zero_le _]

/-- A bar of ten positions and the tip `#`. -/
def tipArgs : InitArgs := { greenBar with len := 10, style := .chr }

theorem tip_shows_forward :
    ∃ s, exec next (start []) [.init tipArgs] = some s ∧
      EachStep next (fun s label _ => ShowsPercent 0 s label) s
        [.clprogress 0 (percentOf 0), .clprogress 0 (percentOf 5),
          .clprogress 0 (percentOf 10)] := by
  have hinit : exec next (start []) ([] ++ [.init tipArgs]) = some _ := rfl
  refine ⟨_, hinit, (tip_shows_iff hinit rfl rfl ?_ rfl).mpr (Or.inr ?_)⟩
  · intro q pro hq _
    have hlt := (List.getElem?_eq_some_iff.mp hq).1
    exact Nat.lt_one_iff.mp hlt
  · decide

/-- All ten positions first, and then five. -/
theorem not_shows_backward :
    ¬EachStep next (fun s label _ => ShowsPercent 0 s label) (start [])
      [.init tipArgs, .clprogress 0 (percentOf 10),
        .clprogress 0 (percentOf 5)] := by
  decide +kernel

end ColorPrint

end MyFreeLib
