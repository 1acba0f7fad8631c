/-
A channel that is written in blocks of any size and read in blocks of at most
one fixed size.  A frame is a block of just that size.  Whether a frame comes
out as it went in is decided when it is written: there must be whole frames
before it.
-/
import Mathlib.Data.List.Basic
import Mathlib.Data.List.Induction
import Mathlib.Algebra.Order.Group.Nat

namespace MyFreeLib

universe u

variable {α : Type u}

/-- A block, and how much stood in the channel when it was written. -/
structure Written (α : Type u) where
  block : List α
  unread : ℕ
deriving DecidableEq, Repr

/-- `written` and `reads` are everything that went in and came out so far. -/
structure FrameStream (α : Type u) where
  data : List α
  written : List (Written α)
  reads : List (List α)

/-- A read that began after `offset` elements has returned the block. -/
def ReadAt (reads : List (List α)) (offset : ℕ) (block : List α) : Prop :=
  ∃ front back, reads = front ++ block :: back ∧
    front.flatten.length = offset

/-- The elements of all blocks. -/
def elements (written : List (Written α)) : List α :=
  (written.map Written.block).flatten

namespace FrameStream

def empty : FrameStream α := ⟨[], [], []⟩

def write (s : FrameStream α) (block : List α) : FrameStream α :=
  { s with
    data := s.data ++ block
    written := s.written ++ [⟨block, s.data.length⟩] }

def read (size : ℕ) (s : FrameStream α) : FrameStream α :=
  { s with
    data := s.data.drop size
    reads := s.reads ++ [s.data.take size] }

/-- Every frame has been read in one piece, at its own place. -/
def Framed (size : ℕ) (s : FrameStream α) : Prop :=
  ∀ before w after, s.written = before ++ w :: after →
    w.block.length = size → ReadAt s.reads (elements before).length w.block

/-- Every frame was written behind whole frames. -/
def Aligned (size : ℕ) (s : FrameStream α) : Prop :=
  ∀ w ∈ s.written, w.block.length = size → size ∣ w.unread

end FrameStream

/-- No read has begun or ended after `offset` elements. -/
def Straddled (reads : List (List α)) (offset : ℕ) : Prop :=
  ∀ front, front <+: reads → front.flatten.length ≠ offset

theorem Straddled.not_readAt {reads : List (List α)} {offset : ℕ}
    (h : Straddled reads offset) (block : List α) :
    ¬ ReadAt reads offset block := by
  rintro ⟨front, back, rfl, hoffset⟩
  exact h front (List.prefix_append _ _) hoffset

theorem ReadAt.concat {reads : List (List α)} {offset : ℕ} {block : List α}
    (h : ReadAt reads offset block) (last : List α) :
    ReadAt (reads ++ [last]) offset block := by
  obtain ⟨front, back, rfl, hoffset⟩ := h
  exact ⟨front, back ++ [last], by simp, hoffset⟩

/-- A frame read at the end of a list of reads is behind one that lies
before it. -/
theorem ReadAt.of_lt {front back : List (List α)} {offset : ℕ}
    {block : List α} (h : ReadAt (front ++ back) offset block)
    (hlt : offset < front.flatten.length) : ReadAt front offset block := by
  obtain ⟨first, last, hreads, hoffset⟩ := h
  have hblock : first ++ [block] <+: front ++ back :=
    ⟨last, by rw [hreads, List.append_assoc, List.singleton_append]⟩
  have hfront : front <+: front ++ back := List.prefix_append _ _
  rcases List.prefix_or_prefix_of_prefix hblock hfront with hin | hout
  · obtain ⟨between, hbetween⟩ := hin
    exact ⟨first, between, by rw [← hbetween]; simp, hoffset⟩
  · rcases List.prefix_concat_iff.mp hout with heq | hshort
    · exact ⟨first, [], heq, hoffset⟩
    · obtain ⟨between, rfl⟩ := hshort
      rw [List.flatten_append, List.length_append] at hoffset
      omega

/-- Blocks that are read at their places are read in their order. -/
theorem sublist_of_readAt {size : ℕ} (hsize : 0 < size)
    {blocks reads : List (List α)}
    (h : ∀ before block after, blocks = before ++ block :: after →
      block.length = size → ReadAt reads before.flatten.length block) :
    (blocks.filter fun block => block.length = size).Sublist reads := by
  induction blocks using List.reverseRecOn generalizing reads with
  | nil => exact List.nil_sublist reads
  | append_singleton blocks last ih =>
      by_cases hlast : last.length = size
      · obtain ⟨front, back, rfl, hoffset⟩ := h blocks last [] rfl hlast
        have hfront : (blocks.filter fun block =>
            block.length = size).Sublist front := by
          apply ih
          rintro before block after rfl hblock
          have hread := h before block (after ++ [last]) (by simp) hblock
          apply hread.of_lt
          rw [hoffset, List.flatten_append, List.length_append,
            List.flatten_cons, List.length_append]
          omega
        rw [List.filter_append]
        apply hfront.append
        simp [hlast]
      · rw [List.filter_append, List.filter_singleton, decide_eq_false hlast,
          cond_false, List.append_nil]
        apply ih
        rintro before block after rfl hblock
        exact h before block (after ++ [last]) (by simp) hblock

namespace FrameStream

variable {size : ℕ}

/-- A frame that was written behind whole frames is read whole or has whole
frames before it still; any other lies across two reads. -/
structure Inv (size : ℕ) (s : FrameStream α) : Prop where
  flow : s.reads.flatten ++ s.data = elements s.written
  aligned : ∀ before w after, s.written = before ++ w :: after →
    w.block.length = size → size ∣ w.unread →
      ReadAt s.reads (elements before).length w.block ∨
        s.reads.flatten.length ≤ (elements before).length ∧
        size ∣ (elements before).length - s.reads.flatten.length
  broken : ∀ before w after, s.written = before ++ w :: after →
    w.block.length = size → ¬ size ∣ w.unread →
      Straddled s.reads (elements before).length ∧
        (s.reads.flatten.length ≤ (elements before).length →
          ¬ size ∣ (elements before).length - s.reads.flatten.length)

theorem empty_inv (size : ℕ) : Inv size (empty : FrameStream α) := by
  refine ⟨rfl, ?_, ?_⟩
  · intro before w after hsplit
    simp [empty] at hsplit
  · intro before w after hsplit
    simp [empty] at hsplit

theorem Inv.unread {s : FrameStream α} (hs : Inv size s) :
    s.data.length = (elements s.written).length - s.reads.flatten.length := by
  rw [← hs.flow, List.length_append]
  omega

theorem Inv.reads_le {s : FrameStream α} (hs : Inv size s) :
    s.reads.flatten.length ≤ (elements s.written).length := by
  rw [← hs.flow, List.length_append]
  omega

/-- A block of a longer list is the last one or stands in the shorter list. -/
theorem split_concat {written before after : List (Written α)}
    {new w : Written α} (h : written ++ [new] = before ++ w :: after) :
    (before = written ∧ w = new) ∨
      ∃ after', written = before ++ w :: after' := by
  rcases List.eq_nil_or_concat after with rfl | ⟨after', last, rfl⟩
  · obtain ⟨hbefore, hw⟩ := List.append_inj' h rfl
    exact Or.inl ⟨hbefore.symm, (List.singleton_inj.mp hw).symm⟩
  · right
    refine ⟨after', ?_⟩
    rw [List.concat_eq_append, ← List.cons_append, ← List.append_assoc] at h
    exact (List.append_inj' h rfl).1

theorem write_inv {s : FrameStream α} (hs : Inv size s) (block : List α) :
    Inv size (s.write block) := by
  refine ⟨?_, ?_, ?_⟩
  · simp only [write, elements, List.map_append, List.flatten_append,
      ← List.append_assoc, hs.flow]
    simp
  · intro before w after hsplit hlength hunread
    rcases split_concat hsplit with ⟨rfl, rfl⟩ | ⟨after', hold⟩
    · right
      exact ⟨hs.reads_le, hs.unread ▸ hunread⟩
    · exact hs.aligned before w after' hold hlength hunread
  · intro before w after hsplit hlength hunread
    rcases split_concat hsplit with ⟨rfl, rfl⟩ | ⟨after', hold⟩
    · have hmiddle : ¬ size ∣
          (elements s.written).length - s.reads.flatten.length :=
        hs.unread ▸ hunread
      refine ⟨?_, fun _ => hmiddle⟩
      rintro front ⟨back, hfront⟩ hequal
      apply hmiddle
      have hreads : front ++ back = s.reads := hfront
      have hle : front.flatten.length ≤ s.reads.flatten.length := by
        rw [← hreads, List.flatten_append, List.length_append]
        omega
      have hzero :
          (elements s.written).length - s.reads.flatten.length = 0 := by
        change front.flatten.length = (elements s.written).length at hequal
        omega
      rw [hzero]
      exact Nat.dvd_zero size
    · exact hs.broken before w after' hold hlength hunread

/-- What stands before an unread frame, and the frame, is still there. -/
theorem Inv.room {s : FrameStream α} (hs : Inv size s)
    {before after : List (Written α)} {w : Written α}
    (hsplit : s.written = before ++ w :: after)
    (hlength : w.block.length = size) :
    (elements before).length + size ≤
      s.reads.flatten.length + s.data.length := by
  have htotal := congrArg List.length hs.flow
  rw [hsplit] at htotal
  simp only [elements, List.map_append, List.map_cons, List.flatten_append,
    List.flatten_cons, List.length_append] at htotal ⊢
  omega

/-- A frame with nothing left before it is what the next read returns. -/
theorem Inv.take_eq {s : FrameStream α} (hs : Inv size s)
    {before after : List (Written α)} {w : Written α}
    (hsplit : s.written = before ++ w :: after)
    (hlength : w.block.length = size)
    (hnext : s.reads.flatten.length = (elements before).length) :
    s.data.take size = w.block := by
  have hflow := hs.flow
  rw [hsplit] at hflow
  simp only [elements, List.map_append, List.map_cons, List.flatten_append,
    List.flatten_cons] at hflow hnext
  rw [(List.append_inj hflow hnext).2]
  exact List.take_left' hlength

theorem read_inv {s : FrameStream α} (hs : Inv size s) :
    Inv size (s.read size) := by
  have hflatten : (s.read size).reads.flatten.length =
      s.reads.flatten.length + min size s.data.length := by
    simp [read]
  refine ⟨?_, ?_, ?_⟩
  · simp only [read, List.flatten_append, List.flatten_singleton,
      List.append_assoc, List.take_append_drop]
    exact hs.flow
  · intro before w after hsplit hlength hunread
    have hroom := hs.room hsplit hlength
    rcases hs.aligned before w after hsplit hlength hunread with
      hread | ⟨hle, hdvd⟩
    · exact Or.inl (hread.concat _)
    · rcases Nat.eq_zero_or_pos
        ((elements before).length - s.reads.flatten.length) with hzero | hpos
      · left
        have hnext : s.reads.flatten.length = (elements before).length := by
          omega
        refine ⟨s.reads, [], ?_, hnext⟩
        rw [← hs.take_eq hsplit hlength hnext]
        rfl
      · right
        have hstep := Nat.le_of_dvd hpos hdvd
        rw [hflatten, Nat.min_eq_left (by omega), Nat.sub_add_eq]
        exact ⟨by omega, Nat.dvd_sub hdvd (Nat.dvd_refl size)⟩
  · intro before w after hsplit hlength hunread
    have hroom := hs.room hsplit hlength
    obtain ⟨hstraddled, hrest⟩ :=
      hs.broken before w after hsplit hlength hunread
    refine ⟨?_, ?_⟩
    · intro front hfront hequal
      rcases List.prefix_concat_iff.mp hfront with rfl | hold
      · have hnow : (s.read size).reads.flatten.length =
            (elements before).length := hequal
        rw [hflatten] at hnow
        rcases Nat.eq_zero_or_pos size with rfl | hpos
        · exact hstraddled s.reads List.prefix_rfl (by omega)
        · apply hrest (by omega)
          exact ⟨1, by omega⟩
      · exact hstraddled front hold hequal
    · rw [hflatten]
      intro hle hdvd
      apply hrest (by omega)
      have hsum := Nat.dvd_add hdvd (Nat.dvd_refl size)
      rw [Nat.min_eq_left (by omega)] at hsum hle
      rwa [show (elements before).length - s.reads.flatten.length =
        (elements before).length - (s.reads.flatten.length + size) + size by
          omega]

/-- When all is read, the frames have come out as they went in exactly when
each was written behind whole frames. -/
theorem Inv.framed_iff {s : FrameStream α} (hs : Inv size s) (hsize : 0 < size)
    (hempty : s.data = []) : Framed size s ↔ Aligned size s := by
  constructor
  · intro hframed w hw hlength
    by_contra hunread
    obtain ⟨before, after, hsplit⟩ := List.append_of_mem hw
    exact (hs.broken before w after hsplit hlength hunread).1.not_readAt _
      (hframed before w after hsplit hlength)
  · intro haligned before w after hsplit hlength
    have hw : w ∈ s.written := by simp [hsplit]
    have hroom := hs.room hsplit hlength
    rw [hempty, List.length_nil] at hroom
    rcases hs.aligned before w after hsplit hlength (haligned w hw hlength) with
      hread | ⟨hle, -⟩
    · exact hread
    · omega

/-- The frames are among the reads, in their order. -/
theorem Framed.sublist {s : FrameStream α} (h : Framed size s)
    (hsize : 0 < size) :
    ((s.written.map Written.block).filter fun block =>
      block.length = size).Sublist s.reads := by
  apply sublist_of_readAt hsize
  intro before block after hsplit hlength
  obtain ⟨front, rest, hwritten, rfl, hrest⟩ := List.map_eq_append_iff.mp hsplit
  obtain ⟨w, back, rfl, rfl, -⟩ := List.map_eq_cons_iff.mp hrest
  exact h front w back hwritten hlength

/-- Everything read came out as it went in, and so will what is unread. -/
def InStep (s : FrameStream α) : Prop :=
  ∃ waiting, s.reads ++ waiting = s.written.map Written.block ∧
    s.data = waiting.flatten

theorem write_inStep {s : FrameStream α} (hs : InStep s) (block : List α) :
    InStep (s.write block) := by
  obtain ⟨waiting, hblocks, hdata⟩ := hs
  refine ⟨waiting ++ [block], ?_, ?_⟩
  · simp only [write, List.map_append, ← hblocks]
    simp
  · simp [write, hdata]

/-- Where only frames are written, a read returns the next of them. -/
theorem InStep.next_frame {s : FrameStream α} (hs : InStep s)
    (hframes : ∀ w ∈ s.written, w.block.length = size) (hdata : s.data ≠ []) :
    ∃ frame rest, s.reads ++ frame :: rest = s.written.map Written.block ∧
      s.data.take size = frame ∧ frame.length = size ∧
      s.data.drop size = rest.flatten := by
  obtain ⟨waiting, hblocks, hwaiting⟩ := hs
  cases waiting with
  | nil => exact absurd hwaiting hdata
  | cons frame rest =>
      have hmem : frame ∈ s.written.map Written.block := by
        rw [← hblocks]
        simp
      obtain ⟨w, hw, rfl⟩ := List.mem_map.mp hmem
      have hlength := hframes w hw
      rw [List.flatten_cons] at hwaiting
      refine ⟨w.block, rest, hblocks, ?_, hlength, ?_⟩
      · rw [hwaiting]
        exact List.take_left' hlength
      · rw [hwaiting]
        exact List.drop_left' hlength

theorem read_inStep {s : FrameStream α} (hs : InStep s)
    (hframes : ∀ w ∈ s.written, w.block.length = size) (hdata : s.data ≠ []) :
    InStep (s.read size) := by
  obtain ⟨frame, rest, hblocks, htake, -, hdrop⟩ := hs.next_frame hframes hdata
  refine ⟨rest, ?_, hdrop⟩
  simp only [read, htake, ← hblocks]
  simp

end FrameStream

end MyFreeLib
