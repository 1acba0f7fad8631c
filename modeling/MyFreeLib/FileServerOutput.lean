/-
The file that all clients write.  What a client has stored stands there when it
returns if nobody else has written; the exit code says neither this nor that
the transfer was complete.
-/
import MyFreeLib.FileServerTruncation

namespace MyFreeLib

namespace FileServer

/-- The client has emptied the file. -/
def ClientPc.Truncated (pc : ClientPc) : Prop :=
  pc = .lseek ∨ pc = .firstWrite ∨ pc = .receive ∨ pc = .write ∨
    pc = .close ∨ pc = .returned 0

/-- The call empties the file or puts bytes into it. -/
def Client.Overwrites (c : Client) : ClientCall → Prop
  | .ftruncate ok => ok
  | .write result => c.fd.isSome ∧ result.stored c.fd c.msglen ≠ some 0
  | _ => False

/-- The client with index `k` opens and empties the file without an error, and
from then on no other client overwrites it. -/
def Undisturbed (k : ℕ) (s : State) (label : Label) (_ : State) : Prop :=
  (label ≠ .client k (.open false) ∧ label ≠ .client k (.ftruncate false)) ∧
    ∀ c, s.clients[k]? = some c → c.pc.Truncated →
      ∀ j call d, j ≠ k → label = .client j call → s.clients[j]? = some d →
        ¬ d.Overwrites call

/-- The file holds what the client has stored. -/
structure Client.Keeps (c : Client) (output : Option Content) : Prop where
  opened : c.pc = .ftruncate → c.fd.isSome
  holds : c.pc.Truncated →
    c.fd.isSome ∧ output.map Content.bytes = some c.stored

/-- The other calls leave a file that exists as it is. -/
theorem Client.outputNext_eq {c : Client} {call : ClientCall}
    {output new : Option Content} (hcall : ¬ c.Overwrites call)
    (houtput : output.isSome) (h : c.outputNext output call = some new) :
    new = output := by
  obtain ⟨content, rfl⟩ := Option.isSome_iff_exists.mp houtput
  unfold outputNext at h
  split at h
  · exact (Option.some.inj h).symm
  · exact absurd rfl hcall
  · next result =>
      split at h
      · next offset count hfd hcount =>
          have hzero : count = 0 := by
            by_contra hpos
            exact hcall ⟨by simp [hfd], by simpa [hcount] using hpos⟩
          obtain ⟨written, hwrite, rfl⟩ := Option.map_eq_some_iff.mp h
          simp only [hzero, List.take_zero, Content.write, writeAt, if_true,
            Option.getD_some, Option.dite_none_right_eq_some] at hwrite
          exact hwrite.2.symm
      · exact (Option.some.inj h).symm
  · exact (Option.some.inj h).symm

theorem writeAt_length (bytes data : List Byte) :
    writeAt bytes bytes.length data = bytes ++ data := by
  by_cases hdata : data = []
  · simp [writeAt, hdata]
  · simp [writeAt, hdata, overlay]

theorem Content.write_bytes {content written : Content} {offset : ℕ}
    {data : List Byte} (h : content.write offset data = some written) :
    written.bytes = writeAt content.bytes offset data := by
  obtain ⟨_, hwritten⟩ := Option.dite_none_right_eq_some.mp h
  rw [← Option.some.inj hwritten]

/-- A `write` goes behind what the client has stored so far. -/
theorem Client.Keeps.store {c : Client} {output new : Option Content}
    (h : c.Keeps output) (hpc : c.pc.Truncated) (hc : c.Positioned)
    {result : Written} {count : ℕ}
    (hcount : result.stored c.fd c.msglen = some count)
    (hnew : c.outputNext output (.write result) = some new)
    (numMsgs : Int) : ((c.store result count).loop numMsgs).Keeps new := by
  obtain ⟨hfd, hholds⟩ := h.holds hpc
  obtain ⟨offset, hoffset⟩ := Option.isSome_iff_exists.mp hfd
  obtain ⟨content, rfl, hbytes⟩ := Option.map_eq_some_iff.mp hholds
  simp only [Client.outputNext, hoffset, Option.getD_some] at hnew
  rw [hoffset] at hcount
  simp only [hcount] at hnew
  obtain ⟨written, hwrite, rfl⟩ := Option.map_eq_some_iff.mp hnew
  have hall := Content.write_bytes hwrite
  rw [hc.offset offset hoffset, ← hbytes, writeAt_length, hbytes] at hall
  obtain ⟨printed, hstore⟩ := c.store_eq result count
  rw [hstore]
  refine ⟨fun hsame => ?_, fun _ => ?_⟩
  · simp only [Client.loop] at hsame
    split at hsame <;> cases hsame
  · exact ⟨by simp [Client.loop, hoffset], by simp [Client.loop, hall]⟩

/-- The client's own calls. -/
theorem ClientStep.keeps {c moved : Client} {call : ClientCall}
    {output new : Option Content} (h : ClientStep c call moved)
    (hopen : call ≠ .open false) (htruncate : call ≠ .ftruncate false)
    (hc : c.Positioned) (hkeeps : c.Keeps output)
    (hnew : c.outputNext output call = some new) : moved.Keeps new := by
  cases h with
  | opens hpc ok =>
      cases ok with
      | false => exact absurd rfl hopen
      | true => exact ⟨fun _ => rfl, by simp [ClientPc.Truncated]⟩
  | @truncates hpc ok hfd =>
      cases ok with
      | false => exact absurd rfl htruncate
      | true =>
          cases hnew
          refine ⟨by simp, fun _ => ⟨hfd rfl, ?_⟩⟩
          simp [Content.empty, hc.fresh (by simp [hpc])]
  | seeks hpc =>
      cases hnew
      obtain ⟨hfd, hholds⟩ := hkeeps.holds (by simp [ClientPc.Truncated, hpc])
      exact ⟨by simp, fun _ => ⟨by simpa using hfd, hholds⟩⟩
  | storesFirst hpc hcount | stores hpc hcount =>
      exact hkeeps.store (by simp [ClientPc.Truncated, hpc]) hc hcount hnew _
  | takes hpc | misses hpc | closes hpc =>
      cases hnew
      have hholds := hkeeps.holds (by simp [ClientPc.Truncated, hpc])
      exact ⟨by simp [Client.count, Client.leave], fun _ => hholds⟩
  | _ => exact ⟨by simp [Client.leave],
      by simp [Client.leave, ClientPc.Truncated]⟩

/-- The file is as the client with index `k` has written it. -/
def Intact (k : ℕ) (s : State) : Prop :=
  ∀ c, s.clients[k]? = some c → c.Keeps s.output

theorem Step.intact {fs : FileTree} {qbytes : Capacity} {s t : State}
    {label : Label} {k : ℕ} (h : Step fs qbytes s label t) (hs : Inv fs s)
    (hk : Intact k s) (hlabel : Undisturbed k s label t) : Intact k t := by
  intro d hd
  -- the client has not moved, and the file has not changed if it matters
  have hstays {c : Client} (hc : s.clients[k]? = some c) (hpc : d.pc = c.pc)
      (hfd : d.fd = c.fd) (hstored : d.stored = c.stored)
      (houtput : c.pc.Truncated → t.output = s.output) :
      d.Keeps t.output := by
    obtain ⟨hopened, hholds⟩ := hk c hc
    refine ⟨fun hsame => ?_, fun hsame => ?_⟩
    · rw [hfd]
      exact hopened (hpc ▸ hsame)
    · rw [hpc] at hsame
      rw [houtput hsame, hfd, hstored]
      exact hholds hsame
  cases h with
  | @launches pathname clientId hfresh =>
      rw [List.getElem?_append] at hd
      split at hd
      · exact hstays hd rfl rfl rfl fun _ => rfl
      · obtain rfl := List.mem_singleton.mp (List.mem_of_getElem? hd)
        exact ⟨by simp [Client.start],
          by simp [Client.start, ClientPc.Truncated]⟩
  | @childSends j n p moved c resp hp hmoved hresp hc =>
      rcases getElem?_set_cases hd with ⟨rfl, rfl⟩ | ⟨-, hold⟩
      · exact hstays hc rfl rfl rfl fun _ => rfl
      · exact hstays hold rfl rfl rfl fun _ => rfl
  | @clientSends n c moved server queue hc hmoved =>
      rcases getElem?_set_cases hd with ⟨rfl, rfl⟩ | ⟨hne, hold⟩
      · have hmem := List.mem_of_getElem? hc
        exact hmoved.keeps (by simp) (by simp) (hs.positioned c hmem)
          (hk c hc) rfl
      · exact hstays hold rfl rfl rfl fun _ => rfl
  | @clientMoves n c moved call output hc hmoved hcall houtput =>
      rcases getElem?_set_cases hd with ⟨rfl, rfl⟩ | ⟨hne, hold⟩
      · have hmem := List.mem_of_getElem? hc
        refine hmoved.keeps ?_ ?_ (hs.positioned c hmem) (hk c hc) houtput
        · rintro rfl
          exact hlabel.1.1 rfl
        · rintro rfl
          exact hlabel.1.2 rfl
      · refine hstays hold rfl rfl rfl fun htruncated => ?_
        have hexists : s.output.isSome := by
          simpa using congrArg Option.isSome
            ((hk d hold).holds htruncated).2
        exact Client.outputNext_eq
          (hlabel.2 d hold htruncated n call c (Ne.symm hne) rfl hc)
          hexists houtput
  | _ => exact hstays hd rfl rfl rfl fun _ => rfl

/-- In every run in which the client returns 0 it has stored the whole file it
asked for exactly when every step was harmless to it; and if nobody else has
changed the file since it emptied it, this is what stands there. -/
theorem stored_whole_iff (fs : FileTree) (qbytes : Capacity)
    (memory : List Byte) (output : Option Content) (labels : List Label)
    (s : State) (k : ℕ) (c : Client)
    (hrun : exec (next fs qbytes) (start memory output) labels = some s)
    (hc : s.clients[k]? = some c) (hpc : c.pc = .returned 0) :
    (StoredWhole fs s c ↔
      EachStep (next fs qbytes) (Harmless k) (start memory output) labels) ∧
    (EachStep (next fs qbytes) (Undisturbed k) (start memory output) labels →
      s.output.map Content.bytes = some c.stored) := by
  have hclean := exec_iff_eachStep (next_inv fs qbytes)
    (next_clean fs qbytes k) (start_inv fs memory output) hrun
  have hstart : Clean k (start memory output) := by
    intro c hc
    cases hc
  constructor
  · rw [(exec_inv hrun).whole_iff hc hpc, hclean]
    exact and_iff_right hstart
  · intro hsteps
    have hkeep (s : State) (label : Label) (t : State)
        (hs : Inv fs s ∧ Intact k s) (hlabel : Undisturbed k s label t)
        (h : next fs qbytes s label = some t) : Inv fs t ∧ Intact k t :=
      ⟨next_inv fs qbytes s label t hs.1 h,
        (next_step h).intact hs.1 hs.2 hlabel⟩
    have hfirst : Intact k (start memory output) := by
      intro c hc
      cases hc
    have hlast := exec_invariant_of_eachStep hkeep hsteps
      ⟨start_inv fs memory output, hfirst⟩ hrun
    exact ((hlast.2 c hc).holds (by simp [ClientPc.Truncated, hpc])).2

/-- A path that the client accepts. -/
def somePath : Pathname := ⟨text "/a", by decide, by decide, by decide⟩

/-- The path of the file that the client writes. -/
def ownPath : Pathname := ⟨outputPath, by decide, by decide, by decide⟩

def twoBytes : Content := ⟨text "ab", by decide⟩

/-- Every other path leads to this file. -/
def only (file : File) : FileTree where
  lookup path := if path = outputPath then some .output else some file
  output := if_pos rfl

/-- A client asks and its child opens the file. -/
def opening (pathname : Pathname) : List Label :=
  [.launch pathname 5, .client 0 (.msgsnd true), .receive, .fork,
    .child 0 (.open true)]

/-- The client takes the first message and writes it as the outcome says. -/
def takingFirst (result : Written) : List Label :=
  [.client 0 (.msgrcv true), .client 0 (.open true),
    .client 0 (.ftruncate true), .client 0 .lseek, .client 0 (.write result)]

/-- The client takes another message. -/
def taking (result : Written) : List Label :=
  [.client 0 (.msgrcv true), .client 0 (.write result)]

/-- The child reads one byte, then `read` fails. -/
def readFailing : List Label :=
  opening somePath ++ [.child 0 (.read (some 1)), .child 0 (.msgsnd true),
    .child 0 (.read none), .child 0 (.msgsnd true)] ++
    takingFirst .whole ++ taking .whole ++ [.client 0 .close]

/-- The child sends both bytes, the client fails to write them. -/
def writeFailing : List Label :=
  opening somePath ++ [.child 0 (.read (some 2)), .child 0 (.msgsnd true),
    .child 0 (.read (some 0)), .child 0 (.msgsnd true)] ++
    takingFirst .fails ++ taking .whole ++ [.client 0 .close]

/-- `read` fails for a directory. -/
def readDirectory : List Label :=
  opening somePath ++ [.child 0 (.read none), .child 0 (.msgsnd true)] ++
    takingFirst .whole ++ [.client 0 .close]

/-- The client empties the file while the child is still reading it. -/
def ownOutput : List Label :=
  opening ownPath ++ [.child 0 (.read (some 1)), .child 0 (.msgsnd true)] ++
    takingFirst .whole ++ [.child 0 (.read (some 0)),
    .child 0 (.msgsnd true)] ++ taking .whole ++ [.client 0 .close]

/-- A second client empties the file while the first one is writing it. -/
def otherClient : List Label :=
  opening somePath ++ [.child 0 (.read (some 1)), .child 0 (.msgsnd true),
    .child 0 (.read (some 1)), .child 0 (.msgsnd true),
    .child 0 (.read (some 0)), .child 0 (.msgsnd true)] ++
    takingFirst .whole ++ [.launch somePath 6, .client 1 (.msgsnd true),
    .receive, .fork, .child 1 (.open true), .child 1 (.read (some 2)),
    .child 1 (.msgsnd true), .client 1 (.msgrcv true), .client 1 (.open true),
    .client 1 (.ftruncate true)] ++ taking .whole ++ taking .whole ++
    [.client 0 .close]

/-- How the first client stands, what it has stored, what it asked for, and
what the file holds. -/
def outcome (fs : FileTree) (s : State) :
    Option (ClientPc × List Byte × Option File × List Byte) :=
  s.clients.head?.map fun c =>
    (c.pc, c.stored, fs c.pathname.bytes, File.output.bytes s.output)

theorem stored_whole_iff_writeFailing :
    ∃ s c, exec (next (only (.regular twoBytes)) (.uniform 1000))
        (start [] none) writeFailing = some s ∧
      s.clients[0]? = some c ∧ c.pc = .returned 0 ∧
      (StoredWhole (only (.regular twoBytes)) s c ↔
        EachStep (next (only (.regular twoBytes)) (.uniform 1000)) (Harmless 0)
          (start [] none) writeFailing) := by
  have hcode : ((exec (next (only (.regular twoBytes)) (.uniform 1000))
      (start [] none) writeFailing).bind fun s => s.clients[0]?).map
        Client.pc = some (.returned 0) := by decide +kernel
  obtain ⟨c, hclient, hpc⟩ := Option.map_eq_some_iff.mp hcode
  obtain ⟨s, hrun, hc⟩ := Option.bind_eq_some_iff.mp hclient
  exact ⟨s, c, hrun, hc, hpc,
    (stored_whole_iff _ _ _ _ _ s 0 c hrun hc hpc).1⟩

/-- The client returns 0 and has one byte of two, no byte of two, nothing of
what is no regular file, or one byte of the two that stood in the file it
writes; or it has written both bytes, and what stands in the file is something
else. -/
theorem truncated_returns_zero :
    (exec (next (only (.regular twoBytes)) (.uniform 1000)) (start [] none)
      readFailing).bind (outcome (only (.regular twoBytes))) = some
        (.returned 0, text "a", some (.regular twoBytes), text "a") ∧
    (exec (next (only (.regular twoBytes)) (.uniform 1000)) (start [] none)
      writeFailing).bind (outcome (only (.regular twoBytes))) = some
        (.returned 0, [], some (.regular twoBytes), []) ∧
    (exec (next (only .directory) (.uniform 1000)) (start [] none)
      readDirectory).bind (outcome (only .directory)) = some
        (.returned 0, [], some .directory, []) ∧
    (exec (next (only .directory) (.uniform 1000)) (start [] (some twoBytes))
      ownOutput).bind (outcome (only .directory)) = some
        (.returned 0, text "a", some .output, text "a") ∧
    (exec (next (only (.regular twoBytes)) (.uniform 1000)) (start [] none)
      otherClient).bind (outcome (only (.regular twoBytes))) = some
        (.returned 0, text "ab", some (.regular twoBytes), 0 :: text "b") := by
  refine ⟨?_, ?_, ?_, ?_, ?_⟩
  · decide +kernel
  · decide +kernel
  · decide +kernel
  · decide +kernel
  · decide +kernel

end FileServer

end MyFreeLib
