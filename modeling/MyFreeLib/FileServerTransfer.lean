/-
What a transfer leaves behind.  A child that opened its file has sent blocks of
it from the beginning on, as long as nobody has changed the file; a client has
stored the blocks it received, or fewer bytes.  Errors are not passed on, so a
client that returns 0 has the whole file exactly when no call on its behalf has
dropped a part of it.
-/
import MyFreeLib.FileServerRouting

namespace MyFreeLib

namespace FileServer

theorem payload_concat (responses : List Response) (resp : Response) :
    payload (responses ++ [resp]) = payload responses ++ resp.data := by
  simp [payload]

/-- A message after which the client expects another one. -/
def Response.IsData (resp : Response) : Prop := resp.mtype = .data

/-- The child has opened the file, `blocks` are the data messages that it has
sent and `ahead` what it has read since.  A file that does not change is read
from its beginning on. -/
structure Serving (fs : FileTree) (p : Child) (file : File)
    (blocks : List Response) (ahead : List Byte) : Prop where
  opened : p.fd = some file
  path : fs p.pathname = some file
  data : ∀ resp ∈ blocks, resp.IsData
  found : file ≠ .output → p.found = file.bytes none
  front : file ≠ .output → payload blocks ++ ahead <+: p.found
  short : (payload blocks ++ ahead).length < 2 ^ 63

/-- `cut` tells whether anything else has been sent than what was found. -/
def Child.OnTrack (p : Child) : Prop :=
  p.cut = false ↔ payload p.sent <+: p.found

/-- `cut` tells whether the blocks are what was found in a file. -/
def Covers (p : Child) (file : File) (blocks : List Response) : Prop :=
  p.cut = false ↔ file ≠ .directory ∧ payload blocks = p.found

/-- What is true of a child before each of its calls. -/
def ChildOk (fs : FileTree) (p : Child) : Prop :=
  match p.pc with
  | .open => p.fd = none ∧ p.sent = [] ∧ p.cut = false
  | .sendFailure resp => p.fd = none ∧ p.sent = [] ∧ p.cut = false ∧
      resp.mtype = .failure
  | .read => ∃ file, Serving fs p file p.sent [] ∧
      (payload p.sent).length = p.offset ∧ p.OnTrack
  | .sendData resp => ∃ file, Serving fs p file p.sent resp.data ∧
      (payload p.sent ++ resp.data).length = p.offset ∧ p.OnTrack ∧
      resp.IsData
  | .sendEnd => ∃ file, Serving fs p file p.sent [] ∧ Covers p file p.sent
  | .exit _ | .exited =>
      (p.fd = none ∧ ∀ resp ∈ p.sent, p.sent = [resp] ∧
        resp.mtype = .failure) ∨
      ∃ file blocks, Serving fs p file blocks [] ∧ Covers p file blocks ∧
        (p.sent = blocks ∨ p.sent = blocks ++ [endResp])

theorem start_childOk (fs : FileTree) (memory : List Byte) :
    ChildOk fs (Child.start memory) := ⟨rfl, rfl, rfl⟩

/-- The call sends what was not found in the file, or is followed by the last
message although not all of it has been sent. -/
def Child.Loses (p : Child) : ChildCall → Prop
  | .read none | .read (some 0) => p.Short
  | .msgsnd true => ∃ resp, p.pc = .sendData resp ∧
      ¬ payload p.sent ++ resp.data <+: p.found
  | .msgsnd false => (∃ resp, p.pc = .sendData resp) ∧ p.Short
  | _ => False

/-- Only the file of the clients changes. -/
theorem File.bytes_eq {file : File} (hfile : file ≠ .output)
    (output other : Option Content) : file.bytes output = file.bytes other := by
  cases file with
  | output => exact absurd rfl hfile
  | regular | directory => rfl

theorem File.bytes_length_lt (file : File) (output : Option Content) :
    (file.bytes output).length < 2 ^ 63 := by
  cases file with
  | regular content => exact content.fits
  | directory => simp [bytes]
  | output =>
      cases output with
      | none => simp [bytes]
      | some content => exact content.fits

/-- One more block, from the position that has been reached. -/
theorem prefix_read {front bytes : List Byte} {offset : ℕ}
    (hfront : front <+: bytes) (hoffset : front.length = offset) (count : ℕ) :
    front ++ (bytes.drop offset).take count <+: bytes := by
  obtain ⟨rest, rfl⟩ := hfront
  rw [← hoffset, List.drop_left]
  exact List.prefix_append_right_inj front |>.mpr (List.take_prefix _ _)

namespace Serving

variable {fs : FileTree} {p : Child} {file : File} {blocks : List Response}
  {ahead : List Byte}

/-- The child stays at its file. -/
theorem of_same (h : Serving fs p file blocks ahead) {q : Child}
    (hmemory : q.memory = p.memory) (hfd : q.fd = p.fd)
    (hfound : q.found = p.found) : Serving fs q file blocks ahead := by
  have hpathname : q.pathname = p.pathname := by
    rw [Child.pathname, hmemory, Child.pathname]
  exact ⟨hfd.trans h.opened, hpathname ▸ h.path, h.data, hfound ▸ h.found,
    hfound ▸ h.front, h.short⟩

theorem drop_ahead (h : Serving fs p file blocks ahead) :
    Serving fs p file blocks [] := by
  refine ⟨h.opened, h.path, h.data, h.found, fun hfile => ?_, ?_⟩
  · rw [List.append_nil]
    exact (List.prefix_append _ _).trans (h.front hfile)
  · have hshort := h.short
    rw [List.length_append] at hshort
    rw [List.append_nil]
    omega

/-- The bytes that were ahead have been sent. -/
theorem concat {resp : Response} (h : Serving fs p file blocks resp.data)
    (hdata : resp.IsData) : Serving fs p file (blocks ++ [resp]) [] := by
  have hpayload : payload (blocks ++ [resp]) ++ [] =
      payload blocks ++ resp.data := by
    rw [payload_concat, List.append_nil]
  exact ⟨h.opened, h.path, forall_mem_concat h.data hdata, h.found,
    hpayload ▸ h.front, hpayload ▸ h.short⟩

/-- A block has been read. -/
theorem read (h : Serving fs p file blocks []) {output : Option Content}
    {count : ℕ} (hoffset : (payload blocks).length = p.offset)
    (hle : p.offset + count ≤ (file.bytes output).length) :
    Serving fs p file blocks
      (((file.bytes output).drop p.offset).take count) := by
  refine ⟨h.opened, h.path, h.data, h.found, fun hfile => ?_, ?_⟩
  · have hfront := h.front hfile
    rw [List.append_nil, h.found hfile, File.bytes_eq hfile none output]
      at hfront
    rw [h.found hfile, File.bytes_eq hfile none output]
    exact prefix_read hfront hoffset count
  · have hlength := file.bytes_length_lt output
    rw [List.length_append, List.length_take, List.length_drop]
    omega

end Serving

theorem Child.OnTrack.finish {p : Child} (h : p.OnTrack) {file : File}
    (hfd : p.fd = some file) : Covers p.finish file p.sent := by
  have hfront : payload p.sent = p.found → p.cut = false := by
    intro hall
    exact h.mpr (hall ▸ List.prefix_rfl)
  simp only [Covers, Child.finish, Bool.or_eq_false_iff,
    decide_eq_false_iff_not, Child.Short, hfd, Option.some.injEq, not_or,
    not_not]
  tauto

/-- The prefix goes on only if it has been one so far. -/
theorem Child.OnTrack.sendsData {p : Child} (h : p.OnTrack)
    (resp : Response) : (p.sendsData resp).OnTrack := by
  have hfront : payload p.sent ++ resp.data <+: p.found → p.cut = false := by
    intro hall
    exact h.mpr ((List.prefix_append _ _).trans hall)
  simp only [OnTrack, Child.sendsData, Child.sends, if_true, payload_concat,
    Bool.or_eq_false_iff, Bool.not_eq_false', decide_eq_true_eq]
  exact and_iff_right_of_imp hfront

theorem ChildStep.childOk {fs : FileTree} {output : Option Content}
    {p moved : Child} {call : ChildCall}
    (h : ChildStep fs output p call moved) (hp : ChildOk fs p) :
    ChildOk fs moved := by
  cases h with
  | @opens file hpc hfile hexists =>
      simp only [ChildOk, hpc] at hp
      obtain ⟨-, hsent, hcut⟩ := hp
      refine ⟨file, ⟨rfl, hfile, ?_, ?_, ?_, ?_⟩, ?_, ?_⟩
      · simp [hsent]
      · exact fun hne => File.bytes_eq hne output none
      · simp [hsent, payload]
      · simp [hsent, payload]
      · simp [hsent, payload]
      · simp [Child.OnTrack, hsent, hcut, payload]
  | openFails hpc =>
      simp only [ChildOk, hpc] at hp
      exact ⟨hp.1, hp.2.1, hp.2.2, rfl⟩
  | @sendsFailure resp hpc ok =>
      simp only [ChildOk, hpc] at hp
      obtain ⟨hfd, hsent, -, hfailure⟩ := hp
      left
      refine ⟨hfd, ?_⟩
      cases ok with
      | false => simp [Child.sends, hsent]
      | true => simp [Child.sends, hsent, hfailure]
  | @reads file count hpc hfd hdir hpos hle hfits =>
      simp only [ChildOk, hpc] at hp
      obtain ⟨same, hserving, hoffset, htrack⟩ := hp
      obtain rfl : same = file :=
        Option.some.inj (hserving.opened.symm.trans hfd)
      refine ⟨same, (hserving.read hoffset hle).of_same rfl rfl rfl, ?_,
        htrack, rfl⟩
      change (payload p.sent ++ List.take count _).length = p.offset + count
      rw [List.length_append, List.length_take, List.length_drop]
      omega
  | readsEnd hpc | readFails hpc =>
      simp only [ChildOk, hpc] at hp
      obtain ⟨file, hserving, -, htrack⟩ := hp
      exact ⟨file, hserving.of_same rfl rfl rfl,
        htrack.finish hserving.opened⟩
  | @sendsData resp hpc =>
      simp only [ChildOk, hpc] at hp
      obtain ⟨file, hserving, hoffset, htrack, hdata⟩ := hp
      refine ⟨file, (hserving.concat hdata).of_same rfl rfl rfl, ?_,
        htrack.sendsData resp⟩
      exact (congrArg List.length (payload_concat p.sent resp)).trans hoffset
  | sendDataFails hpc =>
      simp only [ChildOk, hpc] at hp
      obtain ⟨file, hserving, -, htrack, -⟩ := hp
      exact ⟨file, hserving.drop_ahead.of_same rfl rfl rfl,
        htrack.finish hserving.opened⟩
  | sendsEnd hpc ok =>
      simp only [ChildOk, hpc] at hp
      obtain ⟨file, hserving, hcovers⟩ := hp
      right
      refine ⟨file, p.sent, hserving.of_same rfl rfl rfl, hcovers, ?_⟩
      cases ok with
      | false => exact Or.inl rfl
      | true => exact Or.inr rfl
  | exits hpc =>
      simp only [ChildOk, hpc] at hp
      rcases hp with hfailure | ⟨file, blocks, hserving, hrest⟩
      · exact Or.inl hfailure
      · exact Or.inr ⟨file, blocks, hserving.of_same rfl rfl rfl, hrest⟩

/-- `cut` says whether a call has spoilt what is sent. -/
theorem ChildStep.cut_iff {fs : FileTree} {output : Option Content}
    {p moved : Child} {call : ChildCall}
    (h : ChildStep fs output p call moved) :
    moved.cut = false ↔ p.cut = false ∧ ¬ p.Loses call := by
  cases h with
  | readsEnd hpc | readFails hpc | sendDataFails hpc =>
      simp [Child.finish, Child.Loses, *]
  | sendsData hpc => simp [Child.sendsData, Child.sends, Child.Loses, hpc]
  | sendsFailure hpc ok | sendsEnd hpc ok =>
      cases ok <;> simp [Child.Loses, Child.sends, hpc]
  | @reads file count hpc hfd hdir hpos =>
      obtain ⟨n, rfl⟩ := Nat.exists_eq_succ_of_ne_zero hpos
      simp [Child.Loses]
  | _ => simp [Child.Loses]

/-- A child that has sent anything but data has sent the failure text alone or
ended its blocks. -/
theorem ChildOk.ended {fs : FileTree} {p : Child} (hp : ChildOk fs p)
    {resp : Response} (hresp : resp ∈ p.sent) (hlast : ¬ resp.IsData) :
    (p.fd = none ∧ p.sent = [resp] ∧ resp.mtype = .failure) ∨
      ∃ file blocks, Serving fs p file blocks [] ∧ Covers p file blocks ∧
        p.sent = blocks ++ [endResp] := by
  simp only [ChildOk] at hp
  split at hp
  · simp [hp.2.1] at hresp
  · simp [hp.2.1] at hresp
  · obtain ⟨file, hserving, -⟩ := hp
    exact absurd (hserving.data resp hresp) hlast
  · obtain ⟨file, hserving, -⟩ := hp
    exact absurd (hserving.data resp hresp) hlast
  · obtain ⟨file, hserving, -⟩ := hp
    exact absurd (hserving.data resp hresp) hlast
  all_goals
    rcases hp with ⟨hfd, hfailure⟩ |
      ⟨file, blocks, hserving, hcovers, hsent | hsent⟩
    · exact Or.inl ⟨hfd, hfailure resp hresp⟩
    · rw [hsent] at hresp
      exact absurd (hserving.data resp hresp) hlast
    · exact Or.inr ⟨file, blocks, hserving, hcovers, hsent⟩

/-- Then it sends no more. -/
theorem ChildOk.terminated {fs : FileTree} {p : Child}
    (hp : ChildOk fs p) {resp : Response} (hresp : resp ∈ p.sent)
    (hlast : ¬ resp.IsData) : Terminated Response.IsData p.sent := by
  rcases hp.ended hresp hlast with
    ⟨-, hsent, -⟩ | ⟨file, blocks, hserving, -, hsent⟩
  · rw [hsent]
    exact .last hlast
  · rw [hsent]
    exact Terminated.concat hserving.data (by simp [Response.IsData, endResp])

/-- Every byte received has been stored, has been lost or is still in the
buffer; without losses the stored bytes are the received ones. -/
structure Tally (received : List Response) (stored pending : List Byte)
    (lost : ℕ) : Prop where
  count : stored.length + lost + pending.length = (payload received).length
  whole : lost = 0 → stored ++ pending = payload received

namespace Tally

variable {received : List Response} {stored pending : List Byte} {lost : ℕ}

theorem nil : Tally [] [] [] 0 := ⟨rfl, fun _ => rfl⟩

theorem concat (h : Tally received stored [] lost) (resp : Response) :
    Tally (received ++ [resp]) stored resp.data lost := by
  have hcount := h.count
  rw [List.length_nil, Nat.add_zero] at hcount
  refine ⟨?_, ?_⟩
  · rw [payload_concat, List.length_append, hcount]
  · intro hlost
    have hwhole := h.whole hlost
    rw [List.append_nil] at hwhole
    rw [payload_concat, hwhole]

theorem store (h : Tally received stored pending lost) {count : ℕ}
    (hle : count ≤ pending.length) :
    Tally received (stored ++ pending.take count) []
      (lost + (pending.length - count)) := by
  have hcount := h.count
  refine ⟨?_, ?_⟩
  · rw [List.length_append, List.length_take, List.length_nil]
    omega
  · intro hlost
    have hall : pending.take count = pending :=
      List.take_of_length_le (by omega)
    rw [hall, List.append_nil]
    exact h.whole (by omega)

end Tally

/-- The messages received so far: data before the last one, whose type stands
in the buffer and which is no failure if it is the first. -/
def Taken (received : List Response) (mtype : RespType) : Prop :=
  ∃ front last, received = front ++ [last] ∧ (∀ resp ∈ front, resp.IsData) ∧
    last.mtype = mtype ∧ (front = [] → last.mtype ≠ .failure)

theorem Taken.ne_nil {received : List Response} {mtype : RespType}
    (h : Taken received mtype) : received ≠ [] := by
  obtain ⟨front, last, rfl, -⟩ := h
  simp

theorem Taken.isData {received : List Response} (h : Taken received .data) :
    ∀ resp ∈ received, resp.IsData := by
  obtain ⟨front, last, rfl, hfront, hlast, -⟩ := h
  exact forall_mem_concat hfront hlast

theorem Taken.concat {received : List Response}
    (h : Taken received .data) (resp : Response) :
    Taken (received ++ [resp]) resp.mtype := by
  obtain ⟨front, last, rfl, hfront, hlast, -⟩ := h
  refine ⟨front ++ [last], resp, rfl, forall_mem_concat hfront hlast, rfl, ?_⟩
  intro hnil
  exact absurd hnil (by simp)

/-- The bytes of `resp.data` that `write` is asked to store. -/
def Client.pending (c : Client) : List Byte := c.data.take c.msglen.toNat

/-- The client has received its first message and goes on. -/
def Receiving (c : Client) (pending : List Byte) : Prop :=
  Taken c.received c.mtype ∧ Tally c.received c.stored pending c.lost ∧
    c.totBytes = int64 ((payload c.received).length - c.misses)

section Receiving

variable {c : Client} {pending : List Byte}

theorem Receiving.taken (h : Receiving c pending) :
    Taken c.received c.mtype := h.1

theorem Receiving.tally (h : Receiving c pending) :
    Tally c.received c.stored pending c.lost := h.2.1

theorem Receiving.total (h : Receiving c pending) :
    c.totBytes = int64 ((payload c.received).length - c.misses) := h.2.2

end Receiving

/-- What is true of a client before each of its calls. -/
def ClientOk (c : Client) : Prop :=
  match c.pc with
  | .send | .first => c.received = [] ∧ c.stored = [] ∧ c.lost = 0 ∧
      c.misses = 0
  | .open | .ftruncate | .lseek | .firstWrite => Receiving c c.pending ∧
      c.pending.length = c.msglen.toNat ∧ c.received.length = 1 ∧
      c.misses = 0
  | .receive => Receiving c [] ∧ c.mtype = .data ∧
      c.numMsgs = int32 (c.received.length + c.misses)
  | .write => Receiving c c.pending ∧
      c.pending.length = c.msglen.toNat ∧
      c.numMsgs = int32 (c.received.length + c.misses - 1)
  | .close => Receiving c [] ∧ c.mtype ≠ .data ∧
      c.numMsgs = int32 (c.received.length + c.misses)
  | .returned code =>
      (code = 0 ∧ Receiving c [] ∧ c.mtype ≠ .data ∧
        c.numMsgs = int32 (c.received.length + c.misses)) ∨
      (code = -1 ∧ c.stored = [] ∧ c.lost = 0 ∧ ∀ resp ∈ c.received,
        c.received = [resp] ∧ resp.mtype = .failure)

theorem start_clientOk (pathname : Pathname) (clientId : QueueId) :
    ClientOk (Client.start pathname clientId) := ⟨rfl, rfl, rfl, rfl⟩

/-- The call drops a part of the message received. -/
def Client.Loses (c : Client) : ClientCall → Prop
  | .write result => result.stored c.fd c.msglen ≠ some c.msglen.toNat
  | _ => False

theorem Written.stored_le {result : Written} {fd : Option ℕ} {msglen : Int}
    {count : ℕ} (h : result.stored fd msglen = some count) :
    count ≤ msglen.toNat := by
  cases result with
  | whole =>
      simp only [stored, Option.ite_none_right_eq_some,
        Option.some.injEq] at h
      omega
  | short n =>
      simp only [stored, Option.ite_none_right_eq_some,
        Option.some.injEq] at h
      omega
  | fails =>
      cases h
      exact Nat.zero_le _

/-- `write` and the test of the loop, wherever the message came from. -/
theorem Receiving.store {c : Client} (h : Receiving c c.pending)
    (hlength : c.pending.length = c.msglen.toNat) {result : Written}
    {count : ℕ} (hcount : result.stored c.fd c.msglen = some count)
    (numMsgs : Int) : Receiving ((c.store result count).loop numMsgs) [] := by
  have hle := Written.stored_le hcount
  have htally := h.tally.store (hlength ▸ hle)
  have htake : c.pending.take count = c.data.take count := by
    rw [Client.pending, List.take_take, Nat.min_eq_left hle]
  rw [hlength, htake] at htally
  obtain ⟨printed, hstore⟩ := c.store_eq result count
  rw [hstore]
  exact ⟨h.taken, htally, h.total⟩

theorem Client.loop_ok {c : Client} {numMsgs : Int}
    (h : Receiving (c.loop numMsgs) [])
    (hcount : numMsgs = int32 (c.received.length + c.misses)) :
    ClientOk (c.loop numMsgs) := by
  by_cases hdata : c.mtype = .data
  · have hpc : (c.loop numMsgs).pc = .receive := if_pos hdata
    simp only [ClientOk, hpc]
    exact ⟨h, hdata, hcount⟩
  · have hpc : (c.loop numMsgs).pc = .close := if_neg hdata
    simp only [ClientOk, hpc]
    exact ⟨h, hdata, hcount⟩

/-- The first answer of the server, with a block of the file. -/
theorem Client.takeFirst_ok {c : Client} {message : Response}
    {rest : List Response} (hc : ClientOk c) (hpc : c.pc = .first)
    (hmore : message.mtype ≠ .failure) :
    ClientOk { c.take message rest with
      totBytes := message.data.length
      pc := .open } := by
  simp only [ClientOk, hpc] at hc
  rcases hc with ⟨hreceived, hstored, hlost, hmisses⟩
  have hfits := message.fits
  simp only [respMsgSize] at hfits
  refine ⟨⟨⟨[], message, ?_, by simp, rfl, fun _ => hmore⟩, ?_, ?_⟩,
    ?_, ?_, hmisses⟩
  · simp [Client.take, hreceived]
  · simp only [Client.take, Client.pending, hreceived, hstored, hlost,
      Int.toNat_natCast, take_overlay]
    exact Tally.nil.concat message
  · have hpayload : payload [message] = message.data := by
      simp [payload]
    simp only [Client.take, hreceived, hmisses, List.nil_append,
      hpayload, Nat.cast_zero, sub_zero]
    rw [int64_of_lt (by omega)]
  · simp [Client.take, Client.pending]
  · simp [Client.take, hreceived]

theorem Client.take_ok {c : Client} {message : Response}
    {rest : List Response} (hc : ClientOk c) (hpc : c.pc = .receive) :
    ClientOk (c.take message rest).count := by
  simp only [ClientOk, hpc] at hc
  rcases hc with ⟨hreceiving, hdata, hcount⟩
  refine ⟨⟨(hdata ▸ hreceiving.taken).concat message, ?_, ?_⟩, ?_, ?_⟩
  · simp only [Client.count, Client.take, Client.pending,
      Int.toNat_natCast, take_overlay]
    exact hreceiving.tally.concat message
  · simp only [Client.count, Client.take, hreceiving.total, int64_add,
      payload_concat, List.length_append, Nat.cast_add]
    congr 1
    ring
  · simp [Client.count, Client.take, Client.pending]
  · simp only [Client.count, Client.take, hcount, List.length_append,
      List.length_singleton, Nat.cast_add, Nat.cast_one]
    congr 1
    ring

/-- A `msgrcv` that fails is counted like a message. -/
theorem Client.miss_ok {c : Client} (hc : ClientOk c)
    (hpc : c.pc = .receive) : ClientOk c.miss.count := by
  simp only [ClientOk, hpc] at hc
  rcases hc with ⟨hreceiving, hdata, hcount⟩
  have hempty : c.miss.count.pending = [] := rfl
  refine ⟨⟨hreceiving.taken, hempty ▸ hreceiving.tally, ?_⟩, rfl, ?_⟩
  · simp only [Client.count, Client.miss, Client.printf,
      hreceiving.total, int64_add, Nat.cast_add, Nat.cast_one]
    congr 1
    ring
  · simp only [Client.count, Client.miss, Client.printf, hcount,
      Nat.cast_add, Nat.cast_one]
    congr 1
    ring

theorem ClientStep.clientOk {c moved : Client} {call : ClientCall}
    (h : ClientStep c call moved) (hc : ClientOk c) : ClientOk moved := by
  cases h with
  | sends hpc =>
      simp only [ClientOk, hpc] at hc
      exact hc
  | sendFails hpc | firstFails hpc =>
      simp only [ClientOk, hpc] at hc
      rcases hc with ⟨hreceived, hstored, hlost, -⟩
      right
      refine ⟨rfl, hstored, hlost, ?_⟩
      simp [Client.leave, Client.printf, hreceived]
  | takesFirst hpc hqueue hmore => exact Client.takeFirst_ok hc hpc hmore
  | opens hpc | truncates hpc | seeks hpc =>
      simp only [ClientOk, hpc] at hc
      exact hc
  | @refused message rest hpc hqueue hfailure =>
      simp only [ClientOk, hpc] at hc
      rcases hc with ⟨hreceived, hstored, hlost, -⟩
      right
      refine ⟨rfl, hstored, hlost, ?_⟩
      simp [Client.leave, Client.printf, Client.take, hreceived, hfailure]
  | @storesFirst result count hpc hcount =>
      simp only [ClientOk, hpc] at hc
      rcases hc with ⟨hreceiving, hlength, hone, hmisses⟩
      apply Client.loop_ok (hreceiving.store hlength hcount 1)
      obtain ⟨printed, hstore⟩ := c.store_eq result count
      simp only [hstore, hone, hmisses]
      rfl
  | takes hpc hqueue => exact Client.take_ok hc hpc
  | misses hpc => exact Client.miss_ok hc hpc
  | @stores result count hpc hcount =>
      simp only [ClientOk, hpc] at hc
      rcases hc with ⟨hreceiving, hlength, hnum⟩
      apply Client.loop_ok (hreceiving.store hlength hcount _)
      obtain ⟨printed, hstore⟩ := c.store_eq result count
      simp only [hstore, hnum, int32_add]
      congr 1
      ring
  | closes hpc =>
      simp only [ClientOk, hpc] at hc
      rcases hc with ⟨hreceiving, hdata, hcount⟩
      left
      exact ⟨rfl, hreceiving, hdata, hcount⟩

/-- `lost` says whether a call has dropped a part of a message. -/
theorem ClientStep.lost_iff {c moved : Client} {call : ClientCall}
    (h : ClientStep c call moved) :
    moved.lost = 0 ↔ c.lost = 0 ∧ ¬ c.Loses call := by
  cases h with
  | @storesFirst result count hpc hcount | @stores result count hpc hcount =>
      have hle := Written.stored_le hcount
      obtain ⟨printed, hstore⟩ := c.store_eq result count
      simp only [hstore, Client.loop, Client.Loses, hcount, ne_eq,
        Option.some.injEq, not_not]
      omega
  | _ => simp [Client.Loses, Client.leave, Client.printf, Client.take,
      Client.count, Client.miss]

end FileServer

end MyFreeLib
