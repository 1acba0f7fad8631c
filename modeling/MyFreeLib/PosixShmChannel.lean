/-
What the POSIX channel delivers.  With all calls successful the single slot
passes between the semaphores and the processes, the segment holds the one
token that has been posted and not printed, and the channel refines a buffer
for one string.
-/
import MyFreeLib.Channels
import MyFreeLib.PosixShmTokens

namespace MyFreeLib

namespace PosixShm

/-- The segment starts with the token and its terminating zero. -/
def HoldsToken (data token : List Byte) : Prop :=
  token.length < dataSize ∧ ∃ rest, data = token ++ 0 :: rest

theorem HoldsToken.cString_eq {data token : List Byte}
    (h : HoldsToken data token) : cString data = cString token := by
  obtain ⟨-, rest, rfl⟩ := h
  simp only [cString, List.takeWhile_append]
  split
  · next hlength =>
      rw [(List.takeWhile_prefix _).eq_of_length hlength]
      simp
  · rfl

/-- `scanf` stores the token and a zero. -/
theorem holdsToken_overlay {token : List Byte} (data : List Byte)
    (hshort : token.length < dataSize) :
    HoldsToken (overlay (token ++ [0]) data) token :=
  ⟨hshort, data.drop (token ++ [0]).length, by simp [overlay]⟩

/-- The server's own terminator does not touch a token that fits. -/
theorem HoldsToken.terminate {data token : List Byte}
    (h : HoldsToken data token) :
    HoldsToken (data.set (dataSize - 1) 0) token := by
  obtain ⟨hshort, rest, rfl⟩ := h
  rw [List.set_append_right _ _ (by omega)]
  cases hgap : dataSize - 1 - token.length with
  | zero => exact ⟨hshort, rest, rfl⟩
  | succ gap => exact ⟨hshort, rest.set gap 0, rfl⟩

/-- A token has been posted and not printed. -/
def State.full (s : State) : Bool :=
  s.read != 0 ||
    match s.server with
    | .terminate | .print => true
    | _ => false

/-- The calls succeed and the tokens fit into `shmp->data`. -/
def Label.Works : Label → Prop
  | .server | .client _ => True
  | .launch input => ∀ token ∈ input, token.length < dataSize
  | _ => False

theorem Label.Works.postSucceeds {label : Label} (h : label.Works) :
    label.PostSucceeds := by
  cases label <;> simp_all [Label.Works, Label.PostSucceeds]

theorem Label.Works.keepsSlot {label : Label} (h : label.Works) :
    label.KeepsSlot := by
  cases label <;> simp_all [Label.Works, Label.KeepsSlot]

structure Channel (s : State) : Prop where
  conserved : Conserved s
  serving : ∀ code, s.server ≠ .returned code
  alive : ∀ c ∈ s.clients, ∀ code, c.pc ≠ .returned code
  short : ∀ c ∈ s.clients, ∀ token ∈ c.input, token.length < dataSize
  posting : ∀ c ∈ s.clients, ∀ token, c.pc = .post token →
    HoldsToken s.data token
  full : s.full = true → ∃ token, HoldsToken s.data token

theorem start_channel (data : List Byte) : Channel (start data) where
  conserved := start_conserved data
  serving := by simp [start]
  alive := by simp [start]
  short := by simp [start]
  posting := by simp [start]
  full := by simp [start, State.full]

theorem Channel.server_inside {s : State} (hs : Channel s)
    (hin : s.server.inside = true) :
    s.read = 0 ∧ s.write = 0 ∧ clientsInside s.clients = 0 := by
  obtain ⟨hone, hown⟩ := hs.conserved
  simp only [State.unowned, hin, Bool.true_and] at hown
  simp only [State.holders, hin, Bool.true_and] at hone
  cases hholds : s.holds
  · simp [hholds] at hown
  · simp only [hholds, Bool.toNat_true] at hone
    omega

theorem clientsInside_pos {clients : List Client} {c : Client}
    (hc : c ∈ clients) (hin : c.inside = true) : 0 < clientsInside clients := by
  have hle : c.inside.toNat ≤ clientsInside clients :=
    List.single_le_sum (by simp) _
      (List.mem_map_of_mem (f := fun c => c.inside.toNat) hc)
  rw [hin] at hle
  exact hle

theorem Channel.client_inside {s : State} {c : Client} (hs : Channel s)
    (hc : c ∈ s.clients) (hin : c.inside = true) :
    s.read = 0 ∧ s.write = 0 ∧ s.server.inside = false := by
  have hpos := clientsInside_pos hc hin
  have hone := hs.conserved.1
  simp only [State.holders] at hone
  refine ⟨by omega, by omega, ?_⟩
  by_contra hserver
  have hzero := hs.server_inside (by simpa using hserver)
  omega

/-- While a client is inside, the slot is empty and no other client is. -/
theorem Channel.client_alone {s : State} {c : Client} (hs : Channel s)
    (hc : c ∈ s.clients) (hin : c.inside = true) :
    s.full = false ∧ ∀ x ∈ s.clients, x.inside = true → x = c := by
  obtain ⟨hread, -, hserver⟩ := hs.client_inside hc hin
  constructor
  · unfold ServerPc.inside at hserver
    simp only [State.full, hread]
    split <;> simp_all
  · intro x hx hxin
    by_contra hne
    have htwo := add_le_sum_map (fun c : Client => c.inside.toNat) hx hc hne
    have hone := hs.conserved.1
    simp only [State.holders, clientsInside] at hone
    simp only [hin, hxin, Bool.toNat_true] at htwo
    omega

theorem serverNext_channel {s t : State} (hs : Channel s)
    (ht : Conserved t) (h : serverNext s = some t) : Channel t := by
  cases serverNext_step h with
  | waits hpc hread =>
      exact ⟨ht, by simp, hs.alive, hs.short, hs.posting,
        fun _ => hs.full (by simp [State.full, hread])⟩
  | terminates hpc =>
      have hnone := (hs.server_inside (by rw [hpc]; rfl)).2.2
      refine ⟨ht, by simp, hs.alive, hs.short, ?_, fun _ => ?_⟩
      · intro c hc token hpost
        have hpos := clientsInside_pos hc (by rw [Client.inside, hpost])
        exact absurd hnone hpos.ne'
      · obtain ⟨token, htoken⟩ := hs.full (by simp [State.full, hpc])
        exact ⟨token, htoken.terminate⟩
  | prints hpc | posts hpc =>
      have hread := (hs.server_inside (by rw [hpc]; rfl)).1
      exact ⟨ht, by simp, hs.alive, hs.short, hs.posting,
        by simp [State.full, hread]⟩

theorem clientNext_channel {s t : State} {i : ℕ} {c : Client}
    (hs : Channel s) (ht : Conserved t) (hc : s.clients[i]? = some c)
    (h : clientNext s i c = some t) : Channel t := by
  have hmem := List.mem_of_getElem? hc
  cases clientNext_step h with
  | waits hpc hwrite =>
      exact ⟨ht, hs.serving, forall_mem_set hs.alive (by simp),
        forall_mem_set hs.short (hs.short c hmem),
        forall_mem_set hs.posting (by simp), hs.full⟩
  | @scans token rest hpc hinput =>
      have hin : c.inside = true := by rw [Client.inside, hpc]
      obtain ⟨hempty, halone⟩ := hs.client_alone hmem hin
      have hshort := hs.short c hmem
      rw [hinput, List.forall_mem_cons] at hshort
      have hholds := holdsToken_overlay s.data hshort.1
      refine ⟨ht, hs.serving, forall_mem_set hs.alive (by simp),
        forall_mem_set hs.short hshort.2, ?_, fun _ => ⟨token, hholds⟩⟩
      refine forall_mem_set (fun x hx other hpost => ?_) (fun other hpost => ?_)
      · have hsame := halone x hx (by rw [Client.inside, hpost])
        rw [hsame, hpc] at hpost
        cases hpost
      · cases hpost
        exact hholds
  | @posts token hpc =>
      exact ⟨ht, hs.serving, forall_mem_set hs.alive (by simp),
        forall_mem_set hs.short (hs.short c hmem),
        forall_mem_set hs.posting (by simp),
        fun _ => ⟨token, hs.posting c hmem token hpc⟩⟩

theorem next_channel (s : State) (label : Label) (t : State)
    (hlabel : label.Works) (hs : Channel s) (h : next s label = some t) :
    Channel t := by
  have ht := (next_conserved_iff s label t hlabel.postSucceeds hs.conserved
    h).mpr hlabel.keepsSlot
  cases label with
  | server => exact serverNext_channel hs ht h
  | launch input =>
      cases h
      exact ⟨ht, hs.serving, forall_mem_concat hs.alive (by simp),
        forall_mem_concat hs.short hlabel,
        forall_mem_concat hs.posting (by simp), hs.full⟩
  | client i =>
      obtain ⟨c, hc, hmove⟩ := Option.bind_eq_some_iff.mp h
      exact clientNext_channel hs ht hc hmove
  | serverWaitFails | serverPostFails | clientWaitFails i | clientEof i
  | clientPostFails i => exact hlabel.elim

/-- The channel as a buffer for one string: the slot is full from a client's
post to `read` until the server has printed. -/
def State.slotView (s : State) : OneSlot (List Byte) where
  slot := if s.full then some (cString s.data) else none
  stored := s.stored.map cString
  taken := s.printed

/-- A client's post stores, the server's print takes. -/
def slotAction (s : State) : Label → Option (OneSlot.Action (List Byte))
  | .server => if s.server = .print then some .take else none
  | .client i => s.clients[i]?.bind fun c =>
      match c.pc with
      | .post token => some (.store (cString token))
      | _ => none
  | _ => none

/-- What a step shows of the buffer: its action, or nothing. -/
def Shows (s t : State) : Option (OneSlot.Action (List Byte)) → Prop
  | none => t.slotView = s.slotView
  | some action => OneSlot.next s.slotView action = some t.slotView

theorem serverNext_shows {s t : State} (hs : Channel s)
    (h : serverNext s = some t) : Shows s t (slotAction s .server) := by
  cases serverNext_step h with
  | waits hpc hread =>
      simp [Shows, slotAction, hpc, State.slotView, State.full, hread]
  | terminates hpc =>
      obtain ⟨token, htoken⟩ := hs.full (by simp [State.full, hpc])
      simp [Shows, slotAction, hpc, State.slotView, State.full,
        htoken.cString_eq, htoken.terminate.cString_eq]
  | prints hpc =>
      have hread := (hs.server_inside (by rw [hpc]; rfl)).1
      simp [Shows, slotAction, hpc, State.slotView, State.full, hread,
        OneSlot.next]
  | posts hpc =>
      have hread := (hs.server_inside (by rw [hpc]; rfl)).1
      simp [Shows, slotAction, hpc, State.slotView, State.full, hread]

theorem clientNext_shows {s t : State} {i : ℕ} {c : Client} (hs : Channel s)
    (hc : s.clients[i]? = some c) (h : clientNext s i c = some t) :
    Shows s t (slotAction s (.client i)) := by
  have hmem := List.mem_of_getElem? hc
  cases clientNext_step h with
  | waits hpc hwrite =>
      simp [Shows, slotAction, hc, hpc, State.slotView, State.full]
  | @scans token rest hpc hinput =>
      have hin : c.inside = true := by rw [Client.inside, hpc]
      have hempty := (hs.client_alone hmem hin).1
      have hsame : State.full { s with
          data := overlay (token ++ [0]) s.data
          clients := s.clients.set i ⟨.post token, rest, c.notices⟩ } =
            s.full := rfl
      simp [Shows, slotAction, hc, hpc, State.slotView, hsame, hempty]
  | @posts token hpc =>
      have hin : c.inside = true := by rw [Client.inside, hpc]
      have hempty := (hs.client_alone hmem hin).1
      have hdata := (hs.posting c hmem token hpc).cString_eq
      simp only [Shows, slotAction, hc, hpc, Option.bind_some, State.slotView,
        hempty, hdata, OneSlot.next]
      simp [State.full]

/-- The channel refines a buffer for one string. -/
theorem refines_oneSlot :
    Refines next OneSlot.next Label.Works Channel State.slotView
      slotAction := by
  have shows (s : State) (label : Label) (t : State) (hlabel : label.Works)
      (hs : Channel s) (h : next s label = some t) :
      Shows s t (slotAction s label) := by
    cases label with
    | server => exact serverNext_shows hs h
    | launch input =>
        cases h
        rfl
    | client i =>
        obtain ⟨c, hc, hmove⟩ := Option.bind_eq_some_iff.mp h
        exact clientNext_shows hs hc hmove
    | serverWaitFails | serverPostFails | clientWaitFails i | clientEof i
    | clientPostFails i => exact hlabel.elim
  constructor
  · exact next_channel
  · intro s label t hlabel hs h hact
    have hshows := shows s label t hlabel hs h
    rwa [hact] at hshows
  · intro s label t action hlabel hs h hact
    have hshows := shows s label t hlabel hs h
    rwa [hact] at hshows

/-- Neither the server nor any client can make its next call. -/
def AllBlocked (s : State) : Prop :=
  next s .server = none ∧
    ∀ i c, s.clients[i]? = some c → next s (.client i) = none

theorem AllBlocked.server {s : State} (h : AllBlocked s) (hs : Channel s) :
    s.read = 0 ∧ s.server.inside = false := by
  have hserver : serverNext s = none := h.1
  unfold serverNext at hserver
  split at hserver
  · next hpc =>
      rw [Option.map_eq_none_iff] at hserver
      cases hread : s.read with
      | zero => exact ⟨rfl, by rw [hpc]; rfl⟩
      | succ n => simp [semWait, hread] at hserver
  · cases hserver
  · cases hserver
  · cases hserver
  · next code hpc => exact absurd hpc (hs.serving code)

theorem AllBlocked.client {s : State} {c : Client} (h : AllBlocked s)
    (hs : Channel s) (hc : c ∈ s.clients) (hinput : c.input ≠ []) :
    s.write = 0 ∧ c.inside = false := by
  obtain ⟨i, hi⟩ := List.mem_iff_getElem?.mp hc
  have hclient : clientNext s i c = none := by
    simpa [next, hi] using h.2 i c hi
  cases hpc : c.pc with
  | wait =>
      simp only [clientNext, hpc, Option.map_eq_none_iff] at hclient
      cases hwrite : s.write with
      | zero => exact ⟨rfl, by rw [Client.inside, hpc]⟩
      | succ n => simp [semWait, hwrite] at hclient
  | scan =>
      cases htokens : c.input with
      | nil => exact absurd htokens hinput
      | cons token rest => simp [clientNext, hpc, htokens] at hclient
  | post token => simp [clientNext, hpc] at hclient
  | returned code => exact absurd hpc (hs.alive c hc code)

theorem clientsInside_eq_zero {clients : List Client}
    (h : ∀ c ∈ clients, c.inside = false) : clientsInside clients = 0 := by
  rw [clientsInside, List.sum_eq_zero]
  simpa using h

/-- Only a server without clients waits for ever, and then the slot is free
for the first client. -/
theorem AllBlocked.no_clients {s : State} (h : AllBlocked s) (hs : Channel s)
    (hinput : ∀ c ∈ s.clients, c.input ≠ []) :
    s.clients = [] ∧ s.write = 1 := by
  obtain ⟨hread, hserver⟩ := h.server hs
  have hnone := clientsInside_eq_zero fun c hc =>
    (h.client hs hc (hinput c hc)).2
  have hone := hs.conserved.1
  simp only [State.holders, hread, hserver, hnone, Bool.false_and,
    Bool.toNat_false] at hone
  refine ⟨List.eq_nil_iff_forall_not_mem.mpr fun c hc => ?_, by omega⟩
  have hwrite := (h.client hs hc (hinput c hc)).1
  omega

/-- The string in the slot, if it is full. -/
def State.waiting (s : State) : List (List Byte) :=
  s.slotView.slot.toList

/-- A server that waits for the next token has printed all that was stored. -/
theorem State.waiting_eq_nil {s : State} (hserver : s.server = .wait)
    (hread : s.read = 0) : s.waiting = [] := by
  simp [waiting, slotView, full, hserver, hread]

theorem State.waiting_length_le (s : State) : s.waiting.length ≤ 1 := by
  rw [waiting]
  cases s.slotView.slot <;> simp

/-- For every number of clients, every input of tokens that fit and every
schedule of the single calls: one process at a time holds the slot, the server
prints the strings that the clients store, in the order of their posts and up
to the one that waits in the slot, of which none is left when the server waits
and `read` is zero, and while every client has input there is always a process
that can go on once there is a client. -/
theorem channel_correct {data : List Byte} {labels : List Label} {s : State}
    (hrun : exec next (start data) labels = some s)
    (hworks : ∀ label ∈ labels, label.Works) :
    s.holders ≤ 1 ∧
    s.stored.map cString = s.printed ++ s.waiting ∧ s.waiting.length ≤ 1 ∧
    (s.server = .wait → s.read = 0 → s.waiting = []) ∧
    ((∀ token ∈ s.stored, 0 ∉ token) → s.stored = s.printed ++ s.waiting) ∧
    ((∀ c ∈ s.clients, c.input ≠ []) → AllBlocked s →
      s.clients = [] ∧ s.write = 1) := by
  have hs : Channel s := exec_invariant_of_labels next_channel hworks
    (start_channel data) hrun
  obtain ⟨shown, hshown⟩ := refines_oneSlot.exec hworks (start_channel data)
    hrun
  have hstored : s.stored.map cString = s.printed ++ s.waiting :=
    OneSlot.exec_conserves hshown
  have hone := hs.conserved.1
  refine ⟨by omega, hstored, s.waiting_length_le, State.waiting_eq_nil,
    fun hzero => ?_, fun hinput hblocked => hblocked.no_clients hs hinput⟩
  rw [← hstored, List.map_congr_left fun token ht =>
    cString_eq_self (hzero token ht), List.map_id']

theorem channel_correct_oneToken :
    ∃ s, exec next (start newSegment) oneToken = some s ∧
      s.stored.map cString = s.printed ++ s.waiting := by
  have hrun : exec next (start newSegment) oneToken = some _ := rfl
  have hworks : ∀ label ∈ oneToken, label.Works := by
    simp [oneToken, Label.Works, text, dataSize]
  exact ⟨_, hrun, (channel_correct hrun hworks).2.1⟩

/-- A token with a zero byte in it goes through the channel. -/
def zeroInside : List Label :=
  [.launch [[97, 0, 98]], .client 0, .client 0, .client 0, .server, .server,
    .server, .server]

/-- `scanf` stores the zero and what follows it, `printf` stops there; and a
server without clients waits from the start. -/
theorem not_verbatim :
    (∃ s, exec next (start newSegment) zeroInside = some s ∧
      (∀ label ∈ zeroInside, label.Works) ∧
      s.stored = [[97, 0, 98]] ∧ s.printed = [[97]] ∧ s.waiting = []) ∧
    (∀ c ∈ (start newSegment).clients, c.input ≠ []) ∧
      AllBlocked (start newSegment) := by
  refine ⟨⟨_, rfl, ?_, rfl, rfl, rfl⟩, by simp [start], rfl, ?_⟩
  · simp [zeroInside, Label.Works, dataSize]
  · intro i c hc
    cases hc

end PosixShm

end MyFreeLib
