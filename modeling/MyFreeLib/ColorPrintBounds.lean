/-
Every access to a bar buffer.  `clprogress_init` and `PROGRESS_CHR_STYLE` stay
inside; `PROGRESS_BGC_STYLE` stays inside exactly when at least one position
is filled and some zero stands behind the bar, which nothing in the code sees
to.
-/
import MyFreeLib.ColorPrint

namespace MyFreeLib

namespace ColorPrint

/-! ### Positions -/

theorem within_append {front back : List ℤ} {bar : List Byte} :
    Within (front ++ back) bar ↔ Within front bar ∧ Within back bar :=
  List.forall_mem_append

theorem within_singleton {pos : ℤ} {bar : List Byte} :
    Within [pos] bar ↔ 0 ≤ pos ∧ pos < bar.length :=
  List.forall_mem_singleton

theorem within_span_iff {start count : ℕ} {bar : List Byte} :
    Within (span start count) bar ↔
      ∀ i < count, start + i < bar.length := by
  simp only [Within, span, List.forall_mem_map, List.mem_range]
  refine forall_congr' fun i => forall_congr' fun _ => ?_
  omega

theorem within_span {start count : ℕ} {bar : List Byte}
    (h : start + count ≤ bar.length) : Within (span start count) bar := by
  rw [within_span_iff]
  intro i hi
  omega

/-- A `%s` stays inside exactly when a zero stands at or after its start. -/
theorem within_stringSpan_iff {drawn bar : List Byte} {start : ℕ}
    (hlen : drawn.length = bar.length) :
    Within (stringSpan drawn start) bar ↔ ZeroFrom drawn start := by
  rw [stringSpan, within_span_iff, ZeroFrom, ← strlen_lt_length_iff,
    List.length_drop, hlen]
  constructor
  · intro h
    have hlast := h (strlen (drawn.drop start)) (Nat.lt_succ_self _)
    omega
  · intro h i hi
    omega

/-! ### What each call leaves in the buffer -/

@[simp] theorem clampedOffset_eq (filled : ℕ) :
    clampedOffset filled = filled - 1 := by
  rw [clampedOffset]
  split <;> omega

@[simp] theorem bgcSecond_eq (pro : Progress) (filled : ℕ) :
    bgcSecond pro filled = filled - 1 + 1 := by
  rw [bgcSecond, clampedOffset_eq]
  split <;> omega

theorem bgcBar_length {pro : Progress} {bar : List Byte} {filled : ℕ}
    (h : pro.len ≤ bar.length) :
    (bgcBar pro bar filled).length = bar.length := by
  rw [bgcBar, store_length, store_length, memset_length h]

/-- The two zeros of `PROGRESS_BGC_STYLE` are one, or the first is not in the
buffer. -/
theorem bgcBar_eq (pro : Progress) (bar : List Byte) (filled : ℕ) :
    bgcBar pro bar filled =
      (memset bar blank pro.len).set (filled - 1) 0 := by
  rcases Nat.eq_zero_or_pos filled with rfl | hpos
  · simp [bgcBar, store]
  · have hcast : (filled : ℤ) - 1 = (filled - 1 : ℕ) := by omega
    rw [bgcBar, hcast, clampedOffset_eq, store_natCast, store_natCast,
      List.set_set]

theorem bgcBar_getElem?_of_le {pro : Progress} {bar : List Byte}
    {filled i : ℕ} (hpos : 1 ≤ pro.len) (hfilled : filled ≤ pro.len)
    (h : pro.len ≤ i) : (bgcBar pro bar filled)[i]? = bar[i]? := by
  rw [bgcBar_eq, List.getElem?_set_ne (by omega), memset_getElem?_of_le h]

/-- The bar itself is blank from its filled part on, so what ends the second
`%s` is a zero that stood behind the bar before. -/
theorem zeroFrom_bgcBar_iff {pro : Progress} {bar : List Byte} {filled : ℕ}
    (hpos : 1 ≤ filled) (hfilled : filled ≤ pro.len) :
    ZeroFrom (bgcBar pro bar filled) filled ↔ ZeroFrom bar pro.len := by
  rw [zeroFrom_iff, zeroFrom_iff]
  constructor
  · rintro ⟨i, hi, hzero⟩
    have hle : pro.len ≤ i := by
      by_contra hlt
      rw [bgcBar_eq, List.getElem?_set_ne (by omega),
        memset_getElem?_of_lt (by omega)] at hzero
      exact absurd hzero (by decide)
    rw [bgcBar_getElem?_of_le (hpos.trans hfilled) hfilled hle] at hzero
    exact ⟨i, hle, hzero⟩
  · rintro ⟨i, hi, hzero⟩
    exact ⟨i, hfilled.trans hi,
      by rwa [bgcBar_getElem?_of_le (hpos.trans hfilled) hfilled hi]⟩

/-! ### When a call stays inside -/

/-- The value and its buffer: the bar fits, and a string that starts at its
last position ends in the buffer. -/
structure Fits (pro : Progress) (bar : List Byte) : Prop where
  pos : 1 ≤ pro.len
  max : pro.len ≤ maxBarLength
  size : maxBarLength ≤ bar.length
  zero : ZeroFrom bar (pro.len - 1)

/-- What a `PROGRESS_BGC_STYLE` call needs: something to show, and a zero
behind the bar. -/
def Ready (pro : Progress) (bar : List Byte) (filled : ℕ) : Prop :=
  pro.style = .bgc → 1 ≤ filled ∧ ZeroFrom bar pro.len

instance (pro : Progress) (bar : List Byte) (filled : ℕ) :
    Decidable (Ready pro bar filled) :=
  inferInstanceAs (Decidable (_ → _))

theorem clprogressInit_within {pro : Progress} {bar : List Byte}
    (hpos : 1 ≤ pro.len) (hlen : pro.len ≤ bar.length) :
    Within (clprogressInit pro bar).touched bar := by
  rw [clprogressInit, within_append, within_singleton]
  exact ⟨within_span (by omega), by omega, by omega⟩

theorem chrBar_length {pro : Progress} {bar : List Byte} {filled : ℕ}
    (h : filled ≤ bar.length) :
    (chrBar pro bar filled).length = bar.length := by
  rw [chrBar, clampedOffset_eq, memset_length (by omega)]

/-- The terminator that `clprogress_init` wrote, or another one behind it,
survives `PROGRESS_CHR_STYLE`. -/
theorem zeroFrom_chrBar {pro : Progress} {bar : List Byte} {filled : ℕ}
    (h : Fits pro bar) (hfilled : filled ≤ pro.len) :
    ZeroFrom (chrBar pro bar filled) (pro.len - 1) := by
  obtain ⟨i, hi, hzero⟩ := zeroFrom_iff.mp h.zero
  refine zeroFrom_iff.mpr ⟨i, hi, ?_⟩
  rw [chrBar, clampedOffset_eq, memset_getElem?_of_le (by omega), hzero]

theorem clprogress_within_iff {pro : Progress} {bar : List Byte}
    {percent : Percent} (h : Fits pro bar)
    (hfilled : percent.filled ≤ pro.len) :
    Within (clprogress pro bar percent).touched bar ↔
      Ready pro bar percent.filled := by
  have hlen : pro.len ≤ bar.length := h.max.trans h.size
  have hpos := h.pos
  cases hstyle : pro.style with
  | num => simp [clprogress, Ready, hstyle, Within]
  | other => simp [clprogress, Ready, hstyle, Within]
  | chr =>
      simp only [clprogress, Ready, hstyle, reduceCtorEq, false_implies,
        iff_true]
      rw [within_append, clampedOffset_eq,
        within_stringSpan_iff (chrBar_length (hfilled.trans hlen))]
      exact ⟨within_span (by omega),
        (zeroFrom_chrBar h hfilled).mono (Nat.zero_le _)⟩
  | bgc =>
      simp only [clprogress, Ready, hstyle, true_implies]
      rw [within_append, within_append, within_append, within_append,
        within_singleton, within_singleton, clampedOffset_eq, bgcSecond_eq,
        within_stringSpan_iff (bgcBar_length hlen),
        within_stringSpan_iff (bgcBar_length hlen)]
      constructor
      · rintro ⟨⟨⟨⟨-, hfirst⟩, -⟩, -⟩, hsecond⟩
        have hone : 1 ≤ percent.filled := by omega
        rw [Nat.sub_add_cancel hone] at hsecond
        exact ⟨hone, (zeroFrom_bgcBar_iff hone hfilled).mp hsecond⟩
      · rintro ⟨hone, hzero⟩
        rw [Nat.sub_add_cancel hone]
        have hsecond := (zeroFrom_bgcBar_iff hone hfilled).mpr hzero
        exact ⟨⟨⟨⟨within_span (by omega), by omega, by omega⟩, by omega,
          by omega⟩, hsecond.mono (Nat.zero_le _)⟩, hsecond⟩

/-! ### What a call leaves for later calls -/

/-- Every string that ended in the old buffer ends in the new one. -/
structure Keeps (old new : List Byte) : Prop where
  length : new.length = old.length
  zero : ∀ pos, ZeroFrom old pos → ZeroFrom new pos

theorem Keeps.fits {pro : Progress} {old new : List Byte}
    (h : Keeps old new) (hfits : Fits pro old) : Fits pro new :=
  { hfits with
    size := h.length ▸ hfits.size
    zero := h.zero _ hfits.zero }

theorem Keeps.rfl {bar : List Byte} : Keeps bar bar :=
  ⟨Eq.refl _, fun _ h => h⟩

theorem clprogressInit_bar {pro : Progress} (bar : List Byte)
    (hpos : 1 ≤ pro.len) : (clprogressInit pro bar).bar =
      (memset bar blank pro.len).set (pro.len - 1) 0 := by
  have hcast : (pro.len : ℤ) - 1 = (pro.len - 1 : ℕ) := by omega
  rw [clprogressInit, hcast, store_natCast]

theorem clprogressInit_zero {pro : Progress} {bar : List Byte}
    (hpos : 1 ≤ pro.len) (hlen : pro.len ≤ bar.length) :
    ZeroFrom (clprogressInit pro bar).bar (pro.len - 1) := by
  refine zeroFrom_iff.mpr ⟨pro.len - 1, le_rfl, ?_⟩
  rw [clprogressInit_bar bar hpos,
    List.getElem?_set_self (by rw [memset_length hlen]; omega)]

theorem clprogressInit_keeps {pro : Progress} {bar : List Byte}
    (hpos : 1 ≤ pro.len) (hlen : pro.len ≤ bar.length) :
    Keeps bar (clprogressInit pro bar).bar := by
  constructor
  · rw [clprogressInit_bar bar hpos, List.length_set, memset_length hlen]
  · intro pos h
    refine h.overwrite (fun i hi => ?_) (clprogressInit_zero hpos hlen)
    rw [clprogressInit_bar bar hpos, List.getElem?_set_ne (by omega),
      memset_getElem?_of_le hi]

theorem clprogress_keeps {pro : Progress} {bar : List Byte}
    {percent : Percent} (h : Fits pro bar)
    (hfilled : percent.filled ≤ pro.len)
    (hready : Ready pro bar percent.filled) :
    Keeps bar (clprogress pro bar percent).bar := by
  have hlen : pro.len ≤ bar.length := h.max.trans h.size
  cases hstyle : pro.style with
  | num => simpa [clprogress, hstyle] using Keeps.rfl
  | other => simpa [clprogress, hstyle] using Keeps.rfl
  | chr =>
      simp only [clprogress, hstyle]
      refine ⟨chrBar_length (hfilled.trans hlen), fun pos hold => ?_⟩
      refine hold.overwrite (fun i hi => ?_) (zeroFrom_chrBar h hfilled)
      rw [chrBar, clampedOffset_eq, memset_getElem?_of_le (by omega)]
  | bgc =>
      obtain ⟨hone, hzero⟩ := hready hstyle
      simp only [clprogress, hstyle]
      refine ⟨bgcBar_length hlen, fun pos hold => ?_⟩
      have hsame (i : ℕ) (hi : pro.len ≤ i) :
          (bgcBar pro bar percent.filled)[i]? = bar[i]? :=
        bgcBar_getElem?_of_le h.pos hfilled hi
      obtain ⟨i, hi, hbar⟩ := zeroFrom_iff.mp hzero
      exact hold.overwrite hsame
        (zeroFrom_iff.mpr ⟨i, by omega, by rw [hsame i hi, hbar]⟩)

/-! ### Runs -/

/-- Every buffer has room for the longest bar, and every value filled in so
far fits its buffer. -/
structure Inv (s : State) : Prop where
  size : ∀ bar ∈ s.bars, maxBarLength ≤ bar.length
  fits : ∀ pro ∈ s.progress, ∃ bar, s.bars[pro.pro]? = some bar ∧
    Fits pro bar

/-- A `PROGRESS_BGC_STYLE` call is made only when it is ready. -/
def Safe (s : State) : Label → Prop
  | .init _ => True
  | .clprogress p percent => ∀ pro ∈ s.progress[p]?,
      ∀ bar ∈ s.bars[pro.pro]?, Ready pro bar percent.filled

instance (s : State) : ∀ label, Decidable (Safe s label)
  | .init _ => isTrue trivial
  | .clprogress p _ => inferInstanceAs (Decidable (∀ pro ∈ s.progress[p]?, _))

theorem start_inv {buffers : List (List Byte)}
    (h : ∀ bar ∈ buffers, maxBarLength < bar.length) :
    Inv (start buffers) := by
  refine ⟨?_, by simp [start]⟩
  intro bar hbar
  rcases List.mem_cons.mp hbar with rfl | hbar
  · exact (List.length_replicate ..).ge
  · exact (h bar hbar).le

theorem InitArgs.progress_len {args : InitArgs} (h : 1 ≤ args.len) :
    1 ≤ args.progress.len ∧ args.progress.len ≤ maxBarLength := by
  have hmax : 1 ≤ maxBarLength := by decide
  by_cases hlong : args.len > maxBarLength
  · simpa only [InitArgs.progress, if_pos hlong] using ⟨hmax, le_rfl⟩
  · simpa only [InitArgs.progress, if_neg hlong] using ⟨h, by omega⟩

theorem Label.progress_init {s : State} {args : InitArgs} {pro : Progress}
    (h : (Label.init args).progress s = some pro) :
    1 ≤ pro.len ∧ pro.len ≤ maxBarLength := by
  simp only [Label.progress, Option.ite_none_right_eq_some,
    Option.some.injEq] at h
  obtain ⟨hlen, rfl⟩ := h
  exact InitArgs.progress_len hlen

theorem Label.progress_clprogress {s : State} {p : ℕ} {percent : Percent}
    {pro : Progress} (h : (Label.clprogress p percent).progress s = some pro) :
    s.progress[p]? = some pro ∧ percent.filled ≤ pro.len := by
  simpa only [Label.progress, Option.filter_eq_some_iff,
    decide_eq_true_eq] using h

theorem Inv.fits_of_progress {s : State} (hs : Inv s) {p : ℕ}
    {pro : Progress} {bar : List Byte} (hpro : s.progress[p]? = some pro)
    (hbar : s.bars[pro.pro]? = some bar) : Fits pro bar := by
  obtain ⟨bar', hbar', hfits⟩ := hs.fits pro (List.mem_of_getElem? hpro)
  rw [hbar, Option.some.injEq] at hbar'
  exact hbar' ▸ hfits

/-- In a state that a safe run reaches, the next call stays inside exactly when
it is safe too. -/
theorem inBounds_iff_safe {s : State} (hs : Inv s) {label : Label}
    {pro : Progress} {bar : List Byte} (hpro : label.progress s = some pro)
    (hbar : s.bars[pro.pro]? = some bar) :
    InBounds s label ↔ Safe s label := by
  simp only [InBounds, hpro, hbar, Option.mem_def, Option.some.injEq,
    forall_eq']
  cases label with
  | init args =>
      obtain ⟨hpos, hmax⟩ := Label.progress_init hpro
      have hsize := hs.size bar (List.mem_of_getElem? hbar)
      exact iff_of_true (clprogressInit_within hpos (hmax.trans hsize)) trivial
  | clprogress p percent =>
      obtain ⟨hp, hfilled⟩ := Label.progress_clprogress hpro
      simp only [Safe, hp, hbar, Option.mem_def, Option.some.injEq,
        forall_eq']
      exact clprogress_within_iff (hs.fits_of_progress hp hbar) hfilled

/-- A safe call keeps every string of its buffer terminated. -/
theorem effect_keeps {s : State} (hs : Inv s) {label : Label}
    {pro : Progress} {bar : List Byte} (hpro : label.progress s = some pro)
    (hbar : s.bars[pro.pro]? = some bar) (hsafe : Safe s label) :
    Keeps bar (label.effect pro bar).bar := by
  cases label with
  | init args =>
      obtain ⟨hpos, hmax⟩ := Label.progress_init hpro
      have hsize := hs.size bar (List.mem_of_getElem? hbar)
      exact clprogressInit_keeps hpos (hmax.trans hsize)
  | clprogress p percent =>
      obtain ⟨hp, hfilled⟩ := Label.progress_clprogress hpro
      exact clprogress_keeps (hs.fits_of_progress hp hbar) hfilled
        (hsafe pro hp bar hbar)

/-- The values filled in after a call: those before, and after
`clprogress_init` one that fits its buffer. -/
theorem live_fits {s : State} (hs : Inv s) {label : Label} {pro : Progress}
    {bar : List Byte} (hpro : label.progress s = some pro)
    (hbar : s.bars[pro.pro]? = some bar) {later : Progress}
    (h : later ∈ label.live pro s.progress) : later ∈ s.progress ∨
      later = pro ∧ Fits pro (label.effect pro bar).bar := by
  cases label with
  | clprogress p percent => exact Or.inl h
  | init args =>
      refine (List.mem_append.mp h).imp_right fun hlast => ?_
      obtain ⟨hpos, hmax⟩ := Label.progress_init hpro
      have hsize := hs.size bar (List.mem_of_getElem? hbar)
      have hkeep := clprogressInit_keeps hpos (hmax.trans hsize)
      exact ⟨List.mem_singleton.mp hlast, hpos, hmax, hkeep.length ▸ hsize,
        clprogressInit_zero hpos (hmax.trans hsize)⟩

theorem next_inv (s : State) (label : Label) (t : State) (hs : Inv s)
    (hsafe : Safe s label) (hnext : next s label = some t) : Inv t := by
  obtain ⟨pro, bar, hpro, hbar, rfl⟩ := next_eq_some.mp hnext
  have hkeep := effect_keeps hs hpro hbar hsafe
  have hlt : pro.pro < s.bars.length :=
    (List.getElem?_eq_some_iff.mp hbar).1
  have hself : (s.bars.set pro.pro (label.effect pro bar).bar)[pro.pro]? =
      some (label.effect pro bar).bar := List.getElem?_set_self hlt
  constructor
  · intro b hb
    rcases List.mem_or_eq_of_mem_set hb with hold | rfl
    · exact hs.size b hold
    · exact hkeep.length ▸ hs.size bar (List.mem_of_getElem? hbar)
  · intro later hlater
    rcases live_fits hs hpro hbar hlater with hold | ⟨rfl, hfits⟩
    · obtain ⟨b, hb, hfits⟩ := hs.fits later hold
      by_cases hsame : later.pro = pro.pro
      · rw [hsame, hbar, Option.some.injEq] at hb
        exact ⟨_, hsame ▸ hself, hkeep.fits (hb ▸ hfits)⟩
      · exact ⟨b, by rwa [List.getElem?_set_ne (Ne.symm hsame)], hfits⟩
    · exact ⟨_, hself, hfits⟩

/-- All calls of a run stay inside their buffers exactly when every
`PROGRESS_BGC_STYLE` call fills at least one position and finds a zero behind
its bar. -/
theorem inBounds_iff {buffers : List (List Byte)}
    (hsize : ∀ bar ∈ buffers, maxBarLength < bar.length)
    (labels : List Label) :
    EachStep next (fun s label _ => InBounds s label) (start buffers) labels ↔
      EachStep next (fun s label _ => Safe s label) (start buffers) labels := by
  refine eachStep_congr next_inv (fun s label t hs hnext => ?_)
    (start_inv hsize) labels
  obtain ⟨pro, bar, hpro, hbar, -⟩ := next_eq_some.mp hnext
  exact inBounds_iff_safe hs hpro hbar

/-- A `PROGRESS_BGC_STYLE` bar of 80 positions in `_bar`. -/
def greenBar : InitArgs :=
  { chr := 35
    title := ⟨[], zero_not_mem_nil⟩
    len := 80
    style := .bgc
    color := .blue
    bgcolor := .green
    stream := none
    bar := none }

def percentOf (filled : ℕ) : Percent :=
  ⟨filled, ⟨[], zero_not_mem_nil⟩, ⟨[], zero_not_mem_nil⟩⟩

theorem inBounds_iff_half :
    EachStep next (fun s label _ => InBounds s label) (start [])
      [.init greenBar, .clprogress 0 (percentOf 40)] := by
  refine (inBounds_iff (by simp) _).mpr ?_
  decide +kernel

/-- At percent 0 the first of the two zeros goes before the buffer. -/
theorem not_inBounds : ¬ ∀ (buffers : List (List Byte)) (labels : List Label),
    (∀ bar ∈ buffers, maxBarLength < bar.length) →
    EachStep next (fun s label _ => InBounds s label) (start buffers)
      labels := by
  intro h
  have hzero := h [] [.init greenBar, .clprogress 0 (percentOf 0)] (by simp)
  revert hzero
  decide +kernel

/-! ### Bars in `_bar` alone -/

/-- `_bar` keeps a zero at its last position as long as no call goes wrong. -/
structure DefaultInv (s : State) : Prop extends Inv s where
  default : ∃ bar, s.bars = [bar] ∧ bar.length = maxBarLength ∧
    ZeroFrom bar (maxBarLength - 1)

/-- A `PROGRESS_BGC_STYLE` call fills a position of a bar that leaves the last
position of `_bar` free. -/
def ShortOfMax (s : State) : Label → Prop
  | .init _ => True
  | .clprogress p percent => ∀ pro ∈ s.progress[p]?, pro.style = .bgc →
      1 ≤ percent.filled ∧ pro.len < maxBarLength

theorem start_defaultInv : DefaultInv (start []) := by
  refine { start_inv (by simp) with default := ⟨_, rfl, ?_, ?_⟩ }
  · exact List.length_replicate ..
  · refine zeroFrom_iff.mpr ⟨maxBarLength - 1, le_rfl, ?_⟩
    exact List.getElem?_replicate_of_lt (by decide)

theorem DefaultInv.bar {s : State} (hs : DefaultInv s) {i : ℕ}
    {bar : List Byte} (h : s.bars[i]? = some bar) :
    i = 0 ∧ s.bars = [bar] ∧ bar.length = maxBarLength ∧
      ZeroFrom bar (maxBarLength - 1) := by
  obtain ⟨only, honly, hlen, hzero⟩ := hs.default
  rw [honly, List.getElem?_singleton] at h
  obtain ⟨hpos, rfl⟩ := guarded_eq_some.mp h
  exact ⟨hpos, honly, hlen, hzero⟩

theorem next_defaultInv (s : State) (label : Label) (t : State)
    (hs : DefaultInv s) (hsafe : Safe s label)
    (hnext : next s label = some t) : DefaultInv t := by
  refine { next_inv s label t hs.toInv hsafe hnext with default := ?_ }
  obtain ⟨pro, bar, hpro, hbar, rfl⟩ := next_eq_some.mp hnext
  obtain ⟨hpos, honly, hlen, hzero⟩ := hs.bar hbar
  have hkeep := effect_keeps hs.toInv hpro hbar hsafe
  refine ⟨_, ?_, hkeep.length.trans hlen, hkeep.zero _ hzero⟩
  rw [honly, hpos, List.set_cons_zero]

/-- In `_bar` a zero stands behind every bar but the longest. -/
theorem safe_iff_shortOfMax {s : State} (hs : DefaultInv s) {label : Label}
    {pro : Progress} {bar : List Byte} (hpro : label.progress s = some pro)
    (hbar : s.bars[pro.pro]? = some bar) :
    Safe s label ↔ ShortOfMax s label := by
  cases label with
  | init args => rfl
  | clprogress p percent =>
      obtain ⟨hp, -⟩ := Label.progress_clprogress hpro
      simp only [Safe, ShortOfMax, hp, hbar, Option.mem_def,
        Option.some.injEq, forall_eq', Ready]
      refine forall_congr' fun _ => and_congr_right fun _ => ?_
      obtain ⟨-, -, hlen, hzero⟩ := hs.bar hbar
      constructor
      · intro h
        obtain ⟨i, hi, hget⟩ := zeroFrom_iff.mp h
        have hlt := (List.getElem?_eq_some_iff.mp hget).1
        omega
      · intro h
        exact hzero.mono (by omega)

/-- Where no caller provides a buffer, all calls stay inside `_bar` exactly
when `PROGRESS_BGC_STYLE` is used with something to show and with a bar
shorter than `_bar`. -/
theorem default_inBounds_iff (labels : List Label) :
    EachStep next (fun s label _ => InBounds s label) (start []) labels ↔
      EachStep next (fun s label _ => ShortOfMax s label) (start [])
        labels := by
  refine eachStep_congr (fun s label t hs hshort hnext => ?_)
    (fun s label t hs hnext => ?_) start_defaultInv labels
  · obtain ⟨pro, bar, hpro, hbar, -⟩ := next_eq_some.mp hnext
    exact next_defaultInv s label t hs
      ((safe_iff_shortOfMax hs hpro hbar).mpr hshort) hnext
  · obtain ⟨pro, bar, hpro, hbar, -⟩ := next_eq_some.mp hnext
    exact (inBounds_iff_safe hs.toInv hpro hbar).trans
      (safe_iff_shortOfMax hs hpro hbar)

end ColorPrint

end MyFreeLib
