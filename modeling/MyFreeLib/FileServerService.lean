/-
The service as its clients see it: whom a child answers, what a client has when
it returns, and that it does return.  Only the number of messages that the
client prints is limited, by the width of an `int`, and only the file that the
clients write may change while it is sent.
-/
import MyFreeLib.FileServerOutput
import MyFreeLib.FileServerProgress

namespace MyFreeLib

namespace FileServer

/-- What holds in every state of a run in which no call but `open` fails. -/
structure Service (fs : FileTree) (qbytes : Capacity)
    (s : State) : Prop where
  /-- A child opens the argument of the client that it answers. -/
  opens : ∀ p ∈ s.children, ∃ c ∈ s.clients, p.clientId = c.key ∧
    p.pathname = c.pathname.bytes
  /-- No two children answer the same client, no two clients share a queue. -/
  apart : (s.children.map Child.clientId).Nodup ∧
    (s.clients.map Client.key).Nodup
  /-- What comes in on a queue is what the child of its client has sent. -/
  own : ∀ c ∈ s.clients, ∀ p ∈ s.children, p.clientId = c.key →
    c.received ++ c.queue = p.sent
  /-- Without a child nothing comes in. -/
  nothingElse : ∀ c ∈ s.clients, (∀ p ∈ s.children, p.clientId ≠ c.key) →
    c.received ++ c.queue = []
  /-- A client that has left its loop has left no message. -/
  leaves : ∀ c ∈ s.clients,
    c.pc = .close ∨ (∃ code, c.pc = .returned code) → c.queue = []
  /-- A client that has returned has its file, or there is none to open. -/
  served : ∀ c ∈ s.clients, ∀ code, c.pc = .returned code →
    ∃ p ∈ s.children, p.clientId = c.key ∧ Served fs c p
  /-- The system cannot go on for ever. -/
  finite : ∀ more t, (∀ label ∈ more, label.Moves) →
    exec (next fs qbytes) s more = some t → more.length ≤ workload fs s
  /-- When it cannot go on, all clients have returned. -/
  completes : qbytes.Ample → (∀ path, fs path ≠ some .directory) →
    (∀ label, label.Moves → next fs qbytes s label = none) →
    ∀ c ∈ s.clients, ∃ code, c.pc = .returned code

theorem Faultless.service {fs : FileTree} {s : State}
    (hs : Faultless fs s) (qbytes : Capacity) : Service fs qbytes s where
  opens := by
    intro p hp
    obtain ⟨k, c, hc, -, hid, hpath⟩ := hs.exists_client hp
    exact ⟨c, List.mem_of_getElem? hc, hid, hpath⟩
  apart := ⟨hs.clientIds_nodup, hs.keys_nodup⟩
  own := by
    intro c hc p hp hid
    exact hs.sent_eq hc hp hid
  nothingElse := by
    intro c hc hnone
    by_contra harrived
    obtain ⟨p, hp, hid⟩ := hs.exists_child hc harrived
    exact hnone p hp hid
  leaves := by
    intro c hc hleft
    have hstream : Terminated Response.IsData c.received := by
      rcases hleft with hpc | ⟨code, hpc⟩
      · have hok := hs.clientOk c hc
        simp only [ClientOk, hpc] at hok
        exact hok.1.taken.terminated hok.2.1
      · exact (hs.clients_thorough c hc).returns code hpc
    obtain ⟨p, -, -, -, hempty⟩ := hs.drained hc hstream
    exact hempty
  served := by
    intro c hc code hpc
    exact hs.served hc hpc
  finite := by
    intro more t hmoves hrun
    have hlength := exec_length_le
      (fun s label t hmoves => next_faultless fs qbytes s label t hmoves.works)
      (next_workload fs qbytes) hmoves hs hrun
    omega
  completes := by
    intro hqbytes hregular hstuck c hc
    by_contra hreturned
    push Not at hreturned
    obtain ⟨label, hmoves, -, hnext⟩ :=
      hs.canMove hqbytes hregular hc hreturned
    rw [hstuck label hmoves] at hnext
    cases hnext

/-- Any number of clients, any contents, blocks, capacities and order of
steps. -/
theorem service_correct (fs : FileTree) (qbytes : Capacity)
    (memory : List Byte) (output : Option Content) (labels : List Label)
    (s : State) (hworks : ∀ label ∈ labels, label.Works)
    (hrun : exec (next fs qbytes) (start memory output) labels = some s) :
    Service fs qbytes s :=
  Faultless.service (exec_invariant_of_labels (next_faultless fs qbytes)
    hworks (start_faultless fs memory output) hrun) qbytes

/-- The child reads both bytes, and every call succeeds. -/
def succeeding : List Label :=
  opening somePath ++ [.child 0 (.read (some 2)), .child 0 (.msgsnd true),
    .child 0 (.read (some 0)), .child 0 (.msgsnd true)] ++
    takingFirst .whole ++ taking .whole ++ [.client 0 .close]

theorem service_correct_succeeding :
    ∃ s, exec (next (only (.regular twoBytes)) (.uniform 10000))
        (start [] none) succeeding = some s ∧
      Service (only (.regular twoBytes)) (.uniform 10000) s := by
  have hsome : (exec (next (only (.regular twoBytes)) (.uniform 10000))
      (start [] none) succeeding).isSome := by decide +kernel
  have hworks : ∀ label ∈ succeeding, label.Works := by
    simp [succeeding, opening, takingFirst, taking, Label.Works,
      ChildCall.Works, ClientCall.Works]
  obtain ⟨s, hrun⟩ := Option.isSome_iff_exists.mp hsome
  exact ⟨s, hrun, service_correct _ _ _ _ _ s hworks hrun⟩

/-- At most one byte and no failure. -/
def Response.Small (resp : Response) : Prop :=
  resp.data.length ≤ 1 ∧ resp.mtype ≠ .failure

/-- Every message that the child has sent or is about to send is small. -/
def Child.Small (p : Child) : Prop :=
  (∀ resp ∈ p.sent, resp.Small) ∧ ∀ resp, p.pc.resp = some resp → resp.Small

theorem endResp_small : endResp.Small := by
  simp [Response.Small, endResp]

theorem Child.sends_small {p : Child} (hp : p.Small) (ok : Bool)
    {resp : Response} {pc : ChildPc} (hresp : p.pc.resp = some resp)
    (hpc : ∀ resp, pc.resp = some resp → resp.Small) :
    (p.sends ok resp pc).Small := by
  refine ⟨?_, hpc⟩
  cases ok with
  | false => exact hp.1
  | true => exact forall_mem_concat hp.1 (hp.2 resp hresp)

theorem ChildStep.small {fs : FileTree} {output : Option Content}
    {p moved : Child} {call : ChildCall}
    (h : ChildStep fs output p call moved) (hopen : call ≠ .open false)
    (hread : ∀ count, call = .read (some count) → count ≤ 1)
    (hp : p.Small) : moved.Small := by
  cases h with
  | opens | exits => exact ⟨hp.1, by simp [ChildPc.resp]⟩
  | openFails => exact absurd rfl hopen
  | sendsFailure hpc ok =>
      exact Child.sends_small hp ok (by rw [hpc, ChildPc.resp])
        (by simp [ChildPc.resp])
  | @sendsData resp hpc =>
      have hsends : (p.sends true resp .read).Small :=
        Child.sends_small hp true (by rw [hpc, ChildPc.resp])
          (by simp [ChildPc.resp])
      exact ⟨hsends.1, by simp [Child.sendsData, Child.sends, ChildPc.resp]⟩
  | sendsEnd hpc ok =>
      exact Child.sends_small hp ok (by rw [hpc, ChildPc.resp])
        (by simp [ChildPc.resp])
  | @reads file count hpc hfd hfile hpos hle hfits =>
      refine ⟨hp.1, ?_⟩
      have hone := hread count rfl
      simp only [ChildPc.resp, Option.some.injEq, forall_eq']
      refine ⟨?_, by simp⟩
      rw [List.length_take]
      omega
  | readsEnd | readFails | sendDataFails =>
      refine ⟨hp.1, ?_⟩
      simp [Child.finish, ChildPc.resp, endResp_small]

theorem payload_length_le {responses : List Response}
    (h : ∀ resp ∈ responses, resp.Small) :
    (payload responses).length ≤ responses.length := by
  induction responses with
  | nil => exact le_rfl
  | cons resp rest ih =>
      rw [List.forall_mem_cons] at h
      have hrest := ih h.2
      have hresp := h.1.1
      simp only [payload, List.map_cons, List.flatten_cons,
        List.length_append, List.length_cons] at hrest ⊢
      omega

/-- There is a client of an ordinary file, every file can be opened, and all
messages are small. -/
structure Small (s : State) : Prop where
  client : ∃ c, s.clients[0]? = some c ∧ c.pathname = somePath
  output : s.output.isSome
  children : ∀ p ∈ s.children, p.Small

theorem Client.outputNext_isSome {c : Client} {output new : Option Content}
    {call : ClientCall} (h : c.outputNext output call = some new)
    (houtput : output.isSome) : new.isSome := by
  unfold outputNext at h
  split at h
  · cases h
    rfl
  · cases h
    rfl
  · split at h
    · obtain ⟨written, -, rfl⟩ := Option.map_eq_some_iff.mp h
      rfl
    · cases h
      exact houtput
  · cases h
    exact houtput

theorem only_opens {content : Content} {output : Option Content}
    (houtput : output.isSome) (path : List Byte) :
    (only (.regular content)).Opens output path := by
  simp only [FileTree.Opens, only]
  split
  · exact ⟨_, rfl, fun _ => houtput⟩
  · exact ⟨_, rfl, nofun⟩

theorem next_small {content : Content} {qbytes : Capacity} (s : State)
    (label : Label) (t : State) (hs : Small s) (hmoves : label.Moves)
    (hplain : Plain (only (.regular content)) s label)
    (h : next (only (.regular content)) qbytes s label = some t) :
    Small t := by
  have hstep := next_step h
  obtain ⟨⟨c, hc, hpath⟩, houtput, hchildren⟩ := hs
  obtain ⟨d, hd, -, hsame, -⟩ := hstep.client_at hc
  have hclient : ∃ d, t.clients[0]? = some d ∧ d.pathname = somePath :=
    ⟨d, hd, hsame.trans hpath⟩
  cases hstep with
  | forks =>
      exact ⟨hclient, houtput,
        forall_mem_concat hchildren ⟨by simp [Child.start], nofun⟩⟩
  | childSends hp hmoved | childExits hp hmoved =>
      refine ⟨hclient, houtput, forall_mem_set hchildren ?_⟩
      exact hmoved.small (by simp) (by simp)
        (hchildren _ (List.mem_of_getElem? hp))
  | @childMoves j p moved call hp hmoved =>
      refine ⟨hclient, houtput, forall_mem_set hchildren ?_⟩
      apply hmoved.small
      · rintro rfl
        exact absurd ((hplain p hp).mpr (only_opens houtput _)) (by simp)
      · rintro count rfl
        exact hplain
      · exact hchildren p (List.mem_of_getElem? hp)
  | @clientMoves k c moved call output hc hmoved hcall hnew =>
      exact ⟨hclient, Client.outputNext_isSome hnew houtput, hchildren⟩
  | _ => exact ⟨hclient, houtput, hchildren⟩

/-- A file can arrive in more messages than it has bytes. -/
theorem exists_long_run (content : Content) :
    ∃ labels s c, (∀ label ∈ labels, label.Works) ∧
      exec (next (only (.regular content)) (.uniform respMsgSize))
        (start [] (some .empty)) labels = some s ∧
      c ∈ s.clients ∧ c.pc = .returned 0 ∧
      c.numMsgs = int32 c.received.length ∧
      content.bytes.length < c.received.length := by
  have hlaunch : next (only (.regular content)) (.uniform respMsgSize)
      (start [] (some .empty)) (.launch somePath 5) = some
        ⟨(start [] none).server, [], [Client.start somePath 5],
          some .empty⟩ := rfl
  have hlaunched := next_faultless (only (.regular content))
    (.uniform respMsgSize) (start [] (some .empty)) (.launch somePath 5) _
    trivial (start_faultless _ [] _) hlaunch
  have hfile : only (.regular content) somePath.bytes =
      some (.regular content) := by
    have hother : somePath.bytes ≠ outputPath := by decide
    simp only [only, if_neg hother]
  have hregular : ∀ path, only (.regular content) path ≠
      some .directory := by
    intro path
    simp only [only]
    split <;> simp
  have hample : (Capacity.uniform respMsgSize).Ample := by
    simp [Capacity.Ample, Capacity.uniform, respMsgSize, SysvMsg.reqMsgSize,
      SysvMsg.pathMax]
  obtain ⟨labels, s, hmoves, hrun, hs, ⟨⟨c, hc, hpath⟩, -, hsmall⟩,
      hreturned⟩ :=
    Faultless.exists_completion hample hregular next_small hlaunched
      ⟨⟨_, rfl, rfl⟩, rfl, by simp⟩
  have hmem := List.mem_of_getElem? hc
  obtain ⟨code, hpc⟩ := hreturned c hmem
  obtain ⟨p, hp, hid, hserved⟩ := hs.served hmem hpc
  have hsent := hs.sent_eq hmem hp hid
  have hfew : ∀ resp ∈ c.received, resp.Small := by
    intro resp hresp
    apply (hsmall p hp).1
    rw [← hsent]
    exact List.mem_append_left _ hresp
  rw [Served, hpath, hfile] at hserved
  refine ⟨.launch somePath 5 :: labels, s, c, ?_,
    exec_cons_eq_some.mpr ⟨_, hlaunch, hrun⟩, hmem, ?_⟩
  · refine List.forall_mem_cons.mpr ⟨trivial, ?_⟩
    intro label hlabel
    exact (hmoves label hlabel).works
  · rcases hserved with ⟨-, -, -, resp, hone, hfailure⟩ |
      ⟨same, -, hsame, hzero, -, -, hnum, blocks, hreceived, hall, -⟩ |
      ⟨-, houtput, -⟩
    · exact absurd hfailure (hfew resp (by simp [hone])).2
    · cases hsame
      refine ⟨hzero, hnum, ?_⟩
      have hle : (payload blocks).length ≤ blocks.length := by
        apply payload_length_le
        intro resp hresp
        apply hfew
        rw [hreceived]
        exact List.mem_append_left _ hresp
      rw [← hall, hreceived, List.length_append, List.length_singleton]
      omega
    · cases houtput

/-- A file of zeros. -/
def zeros (n : ℕ) (h : n < 2 ^ 63) : Content where
  bytes := List.replicate n 0
  fits := by rwa [List.length_replicate]

/-- A file of 2³¹ bytes that `read` delivers one by one: the client succeeds
and prints a number of messages that is not the number received. -/
theorem numMsgs_wraps :
    ∃ labels s c, (∀ label ∈ labels, label.Works) ∧
      exec (next (only (.regular (zeros (2 ^ 31) (by decide))))
        (.uniform respMsgSize)) (start [] (some .empty)) labels = some s ∧
      c ∈ s.clients ∧ c.pc = .returned 0 ∧
      c.numMsgs ≠ c.received.length := by
  obtain ⟨labels, s, c, hworks, hrun, hc, hpc, hnum, hlong⟩ :=
    exists_long_run (zeros (2 ^ 31) (by decide))
  refine ⟨labels, s, c, hworks, hrun, hc, hpc, ?_⟩
  have hlength : (zeros (2 ^ 31) (by decide)).bytes.length = 2 ^ 31 :=
    List.length_replicate
  rw [hlength] at hlong
  rw [hnum]
  simp only [int32]
  omega

/-- A client that asks for the file that it writes empties it under its child:
it succeeds with one byte of the two that stood there. -/
theorem ownOutput_stored :
    ∃ s c, (∀ label ∈ ownOutput, label.Works) ∧
      exec (next (only (.regular twoBytes)) (.uniform 10000))
        (start [] (some twoBytes)) ownOutput = some s ∧
      c ∈ s.clients ∧ c.pc = .returned 0 ∧ c.pathname = ownPath ∧
      c.stored = text "a" ∧ twoBytes.bytes = text "ab" := by
  have hlast : ((exec (next (only (.regular twoBytes)) (.uniform 10000))
      (start [] (some twoBytes)) ownOutput).bind fun s => s.clients[0]?).map
        (fun c => (c.pc, c.pathname, c.stored)) =
      some (.returned 0, ownPath, text "a") := by decide +kernel
  obtain ⟨c, hclient, hfields⟩ := Option.map_eq_some_iff.mp hlast
  obtain ⟨s, hrun, hc⟩ := Option.bind_eq_some_iff.mp hclient
  obtain ⟨hpc, hpath, hstored⟩ : c.pc = .returned 0 ∧
      c.pathname = ownPath ∧ c.stored = text "a" := by simpa using hfields
  refine ⟨s, c, ?_, hrun, List.mem_of_getElem? hc, hpc, hpath, hstored, rfl⟩
  simp [ownOutput, opening, takingFirst, taking, Label.Works, ChildCall.Works,
    ClientCall.Works]

/-- No call fails, and still a client prints a number of messages that it has
not received, or stores only a part of what it asked for. -/
theorem service_exceptions :
    (∃ labels s c, (∀ label ∈ labels, label.Works) ∧
      exec (next (only (.regular (zeros (2 ^ 31) (by decide))))
        (.uniform respMsgSize)) (start [] (some .empty)) labels = some s ∧
      c ∈ s.clients ∧ c.pc = .returned 0 ∧
      c.numMsgs ≠ c.received.length) ∧
    ∃ s c, (∀ label ∈ ownOutput, label.Works) ∧
      exec (next (only (.regular twoBytes)) (.uniform 10000))
        (start [] (some twoBytes)) ownOutput = some s ∧
      c ∈ s.clients ∧ c.pc = .returned 0 ∧ c.pathname = ownPath ∧
      c.stored = text "a" ∧ twoBytes.bytes = text "ab" :=
  ⟨numMsgs_wraps, ownOutput_stored⟩

end FileServer

end MyFreeLib
