/-
The numbers that the server grants when every request is well framed but its
`seqLen` may be any `int`.  The server adds it to `seqNum` as it comes.
-/
import MyFreeLib.PipeDemoFraming

namespace MyFreeLib

namespace PipeDemo

open FrameStream

/-- The value is an `int`. -/
def FitsInt (x : Int) : Prop := -2 ^ 31 ≤ x ∧ x < 2 ^ 31

instance (x : Int) : Decidable (FitsInt x) :=
  inferInstanceAs (Decidable (_ ∧ _))

theorem int32_fits (x : Int) : FitsInt (int32 x) := by
  simp only [FitsInt, int32]
  omega

/-- `seqNum += seqLen`, as the machine adds. -/
def addInt (seqNum seqLen : Int) : Int := int32 (seqNum + seqLen)

theorem addInt_of_fits {x y : Int} (h : FitsInt (x + y)) :
    addInt x y = x + y := by
  simp only [addInt, int32, FitsInt] at h ⊢
  omega

/-- No addition overflows exactly when no sum of the first lengths does. -/
theorem allot_fits_iff {start : Int} {lengths : List Int}
    (hstart : FitsInt start) :
    (∀ a ∈ allot addInt start lengths, FitsInt (a.start + a.length)) ↔
      ∀ front, front <+: lengths → FitsInt (start + front.sum) := by
  induction lengths generalizing start with
  | nil => simpa [allot] using hstart
  | cons length rest ih =>
      rw [allot, List.forall_mem_cons]
      constructor
      · rintro ⟨hhead, hrest⟩ front hfront
        rw [addInt_of_fits hhead] at hrest
        rcases List.prefix_cons_iff.mp hfront with rfl | ⟨front, rfl, hprefix⟩
        · simpa using hstart
        · have hlater := (ih hhead).mp hrest front hprefix
          simpa [add_assoc] using hlater
      · intro hall
        have hhead : FitsInt (start + length) := by
          simpa using hall [length] (by simp)
        refine ⟨hhead, ?_⟩
        rw [addInt_of_fits hhead]
        apply (ih hhead).mpr
        intro front hfront
        have hlater := hall (length :: front) (by simpa using hfront)
        simpa [add_assoc] using hlater

/-- Without overflow the server counts as in the integers. -/
theorem allot_addInt {start : Int} {lengths : List Int}
    (h : ∀ a ∈ allot addInt start lengths, FitsInt (a.start + a.length)) :
    allot addInt start lengths = allot (· + ·) start lengths := by
  induction lengths generalizing start with
  | nil => rfl
  | cons length rest ih =>
      rw [allot, List.forall_mem_cons] at h
      have hadd : addInt start length = start + length := addInt_of_fits h.1
      rw [allot, allot, ih h.2, hadd]

/-- The server has granted the requests it has read, but for the one it is
busy with. -/
structure Grants (s : Traffic) : Prop where
  granted : s.grants = allot addInt 0 (s.grants.map Allotment.length)
  seqNum : s.state.seqNum = counter addInt 0 (s.grants.map Allotment.length)
  idle : s.state.server = .read →
    s.grants.map Allotment.length = s.state.reads.map reqSeqLen
  busy : s.state.server ≠ .read → ∃ front bytes,
    s.state.reads = front ++ [bytes] ∧
      s.grants.map Allotment.length = front.map reqSeqLen ∧
      reqSeqLen s.state.req = reqSeqLen bytes

/-- Only whole requests are written. -/
def Event.WellFramed : Event → Prop
  | .step _ => True
  | .write block => block.length = requestSize

structure Allots (s : Traffic) : Prop where
  frames : ∀ w ∈ s.written, w.block.length = requestSize
  inStep : s.stream.InStep
  grants : Grants s

theorem start_allots (req : List Byte) : Allots (Traffic.start req) := by
  refine ⟨by simp [Traffic.start], ⟨[], rfl, rfl⟩, rfl, rfl, fun _ => rfl, ?_⟩
  intro hbusy
  exact absurd rfl hbusy

/-- The rest of the structure does not show in a request that was read. -/
theorem reqSeqLen_overlay {bytes : List Byte}
    (hlength : bytes.length = requestSize) (req : List Byte) :
    reqSeqLen (overlay bytes req) = reqSeqLen bytes := by
  simp only [requestSize] at hlength
  have htake : ((overlay bytes req).drop 4).take 4 = (bytes.drop 4).take 4 := by
    rw [overlay, List.drop_append_of_le_length (by omega),
      List.take_append_of_le_length (by rw [List.length_drop]; omega)]
  rw [reqSeqLen, reqSeqLen, bytesInt, bytesInt, htake]

/-! What is granted agrees with what was read, whatever the server does. -/

theorem Grants.congr {s t : Traffic} (hs : Grants s)
    (hgrants : t.grants = s.grants)
    (hserver : t.state.server = .read ↔ s.state.server = .read)
    (hreq : t.state.req = s.state.req)
    (hseqNum : t.state.seqNum = s.state.seqNum)
    (hreads : t.state.reads = s.state.reads) : Grants t := by
  constructor
  · rw [hgrants]
    exact hs.granted
  · rw [hgrants, hseqNum]
    exact hs.seqNum
  · rw [hgrants, hserver, hreads]
    exact hs.idle
  · rw [hgrants, ne_eq, hserver, hreads, hreq]
    exact hs.busy

theorem Grants.take {s t : Traffic} {bytes : List Byte} (hs : Grants s)
    (hidle : s.state.server = .read) (hlength : bytes.length = requestSize)
    (hgrants : t.grants = s.grants) (hbusy : t.state.server ≠ .read)
    (hreq : t.state.req = overlay bytes s.state.req)
    (hseqNum : t.state.seqNum = s.state.seqNum)
    (hreads : t.state.reads = s.state.reads ++ [bytes]) : Grants t := by
  constructor
  · rw [hgrants]
    exact hs.granted
  · rw [hgrants, hseqNum]
    exact hs.seqNum
  · exact fun hread => absurd hread hbusy
  · intro _
    refine ⟨s.state.reads, bytes, hreads, ?_, ?_⟩
    · rw [hgrants]
      exact hs.idle hidle
    · rw [hreq]
      exact reqSeqLen_overlay hlength s.state.req

theorem Grants.grant {s t : Traffic} (hs : Grants s)
    (hbusy : s.state.server ≠ .read)
    (hgrants : t.grants =
      s.grants ++ [⟨s.state.seqNum, reqSeqLen s.state.req⟩])
    (hidle : t.state.server = .read)
    (hseqNum : t.state.seqNum = addInt s.state.seqNum (reqSeqLen s.state.req))
    (hreads : t.state.reads = s.state.reads) : Grants t := by
  obtain ⟨front, bytes, hfront, hlengths, hlen⟩ := hs.busy hbusy
  constructor
  · rw [hgrants, List.map_append, List.map_singleton, allot_concat,
      ← hs.granted, ← hs.seqNum]
  · rw [hgrants, List.map_append, List.map_singleton, counter_concat,
      ← hs.seqNum, hseqNum]
  · intro _
    rw [hgrants, hreads, hfront, List.map_append, List.map_append, hlengths,
      List.map_singleton, List.map_singleton, hlen]
  · exact fun hnew => absurd hidle hnew

theorem grants_of_not_close {s : State}
    (h : ∀ clientFd, s.server ≠ .close clientFd) :
    PipeDemo.grants s .server = none := by
  cases hpc : s.server with
  | close clientFd => exact absurd hpc (h clientFd)
  | read | openClient | opening | write => simp [PipeDemo.grants, hpc]

theorem step_grants {s : Traffic} {u : State} {label : Label}
    (hs : Allots s) (h : PipeDemo.next s.state label = some u)
    (written : List (Written Byte)) :
    Grants ⟨u, written,
      s.grants ++ (PipeDemo.grants s.state label).toList⟩ := by
  have hgrants := hs.grants
  have hmove := next_move h
  obtain ⟨hserver, hreq, hseqNum, hreads⟩ : u.server = u.core.server ∧
      u.req = u.core.req ∧ u.seqNum = u.core.seqNum ∧
      u.reads = u.core.reads := ⟨rfl, rfl, rfl, rfl⟩
  generalize u.core = core at hmove hserver hreq hseqNum hreads
  cases hmove with
  | skip hpc hfifo hshort =>
      obtain ⟨frame, rest, -, htake, hlength, -⟩ :=
        hs.inStep.next_frame hs.frames hfifo
      exact absurd (htake ▸ hlength) hshort
  | read hpc hfifo hfull =>
      rw [grants_of_not_close (by simp [hpc]), Option.toList_none,
        List.append_nil]
      refine hgrants.take hpc hfull rfl ?_ hreq hseqNum hreads
      rw [hserver]
      exact nofun
  | answer pc hold hopen hnew =>
      rw [grants_of_not_close hopen, Option.toList_none, List.append_nil]
      refine hgrants.congr rfl (iff_of_false ?_ hold) hreq hseqNum hreads
      rw [hserver]
      exact hnew
  | close clientFd hpc =>
      simp only [PipeDemo.grants, hpc, Option.toList_some]
      exact hgrants.grant (by simp [hpc]) rfl hserver hseqNum hreads
  | send i block hsends =>
      simp only [PipeDemo.grants, Option.toList_none, List.append_nil]
      exact hgrants.congr rfl (by rw [hserver]; rfl) hreq hseqNum hreads
  | other label hsends hnone =>
      simp only [hnone, Option.toList_none, List.append_nil]
      exact hgrants.congr rfl (by rw [hserver]; rfl) hreq hseqNum hreads

theorem next_allots (s : Traffic) (event : Event) (t : Traffic)
    (hframed : event.WellFramed) (hs : Allots s) (h : s.next event = some t) :
    Allots t := by
  have hstream : t.stream.InStep := by
    rcases next_stream h with hsame | ⟨hdata, hread⟩ | ⟨block, hwrite⟩
    · exact hsame ▸ hs.inStep
    · exact hread ▸ read_inStep hs.inStep hs.frames hdata
    · exact hwrite ▸ write_inStep hs.inStep block
  cases event with
  | step label =>
      obtain ⟨u, hu, rfl⟩ := Option.map_eq_some_iff.mp h
      refine ⟨?_, hstream, step_grants hs hu _⟩
      intro w hw
      rcases List.mem_append.mp hw with hold | hnew
      · exact hs.frames w hold
      · obtain ⟨block, hsends, rfl⟩ := Option.map_eq_some_iff.mp
          (Option.mem_toList.mp hnew)
        exact sends_size hsends
  | write block =>
      simp only [Traffic.next] at h
      split at h
      · cases h
      · cases h
        refine ⟨?_, hstream, hs.grants.granted, hs.grants.seqNum,
          hs.grants.idle, hs.grants.busy⟩
        exact forall_mem_concat hs.frames hframed

/-- The lengths asked for by the requests granted so far. -/
def Traffic.lengths (s : Traffic) : List Int :=
  (s.written.map fun w => reqSeqLen w.block).take s.grants.length

theorem Allots.lengths_eq {s : Traffic} (hs : Allots s) :
    s.grants.map Allotment.length = s.lengths := by
  obtain ⟨waiting, hblocks, -⟩ := hs.inStep
  have hwritten : s.written.map (fun w => reqSeqLen w.block) =
      s.state.reads.map reqSeqLen ++ waiting.map reqSeqLen := by
    rw [← List.map_append]
    have hmap := congrArg (List.map reqSeqLen) hblocks
    rw [List.map_map] at hmap
    exact hmap.symm
  have hprefix : s.grants.map Allotment.length <+:
      s.written.map fun w => reqSeqLen w.block := by
    rw [hwritten]
    by_cases hpc : s.state.server = .read
    · rw [hs.grants.idle hpc]
      exact List.prefix_append _ _
    · obtain ⟨front, bytes, hfront, hlengths, -⟩ := hs.grants.busy hpc
      rw [hlengths, hfront, List.map_append, List.append_assoc]
      exact List.prefix_append _ _
  rw [Traffic.lengths, ← List.length_map (f := Allotment.length)]
  exact List.prefix_iff_eq_take.mp hprefix

theorem Allots.disjoint_iff {s : Traffic} (hs : Allots s) :
    s.grants.Pairwise (fun g h => Disjoint g.numbers h.numbers) ∧
        (∀ g ∈ s.grants, FitsInt (g.start + g.length)) ↔
      NeverReturns s.lengths ∧
        ∀ front, front <+: s.lengths → FitsInt front.sum := by
  have hgrants := hs.grants.granted
  rw [hs.lengths_eq] at hgrants
  have hzero : FitsInt 0 := by decide
  have hfits : (∀ g ∈ s.grants, FitsInt (g.start + g.length)) ↔
      ∀ front, front <+: s.lengths → FitsInt front.sum := by
    rw [hgrants, allot_fits_iff hzero]
    simp only [zero_add]
  rw [hfits]
  apply and_congr_left
  intro hsums
  have hexact := allot_addInt (hgrants ▸ hfits.mpr hsums)
  rw [hgrants, hexact, pairwise_disjoint_iff]

/-- Requests for no negative number are granted disjoint ranges as long as
their total is an `int`. -/
theorem Allots.disjoint_of_nonneg {s : Traffic} (hs : Allots s)
    (hnonneg : ∀ length ∈ s.lengths, 0 ≤ length)
    (htotal : s.lengths.sum < 2 ^ 31) :
    s.grants.Pairwise fun g h => Disjoint g.numbers h.numbers := by
  refine (hs.disjoint_iff.mpr ⟨neverReturns_of_nonneg hnonneg, ?_⟩).1
  rintro front ⟨back, hlengths⟩
  rw [← hlengths, List.sum_append] at htotal
  have hfront : 0 ≤ front.sum := List.sum_nonneg fun length hlength =>
    hnonneg length (by rw [← hlengths]; exact List.mem_append_left _ hlength)
  have hback : 0 ≤ back.sum := List.sum_nonneg fun length hlength =>
    hnonneg length (by rw [← hlengths]; exact List.mem_append_right _ hlength)
  constructor <;> omega

/-- For requests with any lengths, from any writers: the ranges granted are
pairwise disjoint and no update of `seqNum` overflows exactly when the first
lengths always add up to an `int` and never lead back into a range. -/
theorem allocation_iff {req : List Byte} {events : List Event} {s : Traffic}
    (hframed : ∀ event ∈ events, event.WellFramed)
    (hrun : exec Traffic.next (Traffic.start req) events = some s) :
    s.grants.Pairwise (fun g h => Disjoint g.numbers h.numbers) ∧
        (∀ g ∈ s.grants, FitsInt (g.start + g.length)) ↔
      NeverReturns s.lengths ∧
        ∀ front, front <+: s.lengths → FitsInt front.sum := by
  have hs : Allots s :=
    exec_invariant_of_labels next_allots hframed (start_allots req) hrun
  exact hs.disjoint_iff

/-- A request for `seqLen` numbers, from a process without a FIFO. -/
def ask (seqLen : Int) : List Event :=
  [.write (intBytes 9 ++ intBytes seqLen), .step .server, .step .server,
    .step .server, .step .server]

theorem allocation_iff_threeThenTwo :
    ∃ s, exec Traffic.next (Traffic.start []) (ask 3 ++ ask 2) = some s ∧
      s.grants = [⟨0, 3⟩, ⟨3, 2⟩] ∧
      (s.grants.Pairwise (fun g h => Disjoint g.numbers h.numbers) ∧
          (∀ g ∈ s.grants, FitsInt (g.start + g.length)) ↔
        NeverReturns s.lengths ∧
          ∀ front, front <+: s.lengths → FitsInt front.sum) := by
  have hrun : exec Traffic.next (Traffic.start []) (ask 3 ++ ask 2) =
      some _ := rfl
  refine ⟨_, hrun, by decide, allocation_iff ?_ hrun⟩
  simp [ask, Event.WellFramed, requestSize]

/-- After 5 numbers a length of -3 brings the counter back into the first
range; a length beyond the largest `int` makes it overflow. -/
theorem ranges_overlap :
    (∃ s, exec Traffic.next (Traffic.start []) (ask 5 ++ ask (-3) ++ ask 4) =
        some s ∧ s.grants = [⟨0, 5⟩, ⟨5, -3⟩, ⟨2, 4⟩] ∧
      ¬ s.grants.Pairwise fun g h => Disjoint g.numbers h.numbers) ∧
    ∃ s, exec Traffic.next (Traffic.start [])
        (ask (2 ^ 31 - 1) ++ ask 1) = some s ∧
      s.grants = [⟨0, 2 ^ 31 - 1⟩, ⟨2 ^ 31 - 1, 1⟩] ∧
      ¬ ∀ g ∈ s.grants, FitsInt (g.start + g.length) := by
  constructor
  · obtain ⟨s, hrun, hgrants⟩ : ∃ s, exec Traffic.next (Traffic.start [])
        (ask 5 ++ ask (-3) ++ ask 4) = some s ∧
        s.grants = [⟨0, 5⟩, ⟨5, -3⟩, ⟨2, 4⟩] := ⟨_, rfl, by decide⟩
    refine ⟨s, hrun, hgrants, ?_⟩
    rw [hgrants]
    simp [Allotment.numbers, Set.Ico_disjoint_Ico]
  · exact ⟨_, rfl, by decide, by decide⟩

end PipeDemo

end MyFreeLib
