/-
No run whose calls succeed gets stuck.  As long as a client has not returned,
it can go on, or its child can, or the parent that still has its request; so
the run ends with every client served.
-/
import MyFreeLib.FileServerWorkload

namespace MyFreeLib

namespace FileServer

/-- There is a file to open. -/
def FileTree.Opens (fs : FileTree) (output : Option Content)
    (path : List Byte) : Prop :=
  ∃ file, fs path = some file ∧ file.Exists output

/-- `open` fails only where there is no file, and `read` delivers single
bytes. -/
def Plain (fs : FileTree) (s : State) : Label → Prop
  | .child j (.open ok) => ∀ p, s.children[j]? = some p →
      (ok ↔ fs.Opens s.output p.pathname)
  | .child _ (.read (some count)) => count ≤ 1
  | _ => True

/-- Some step of the system is possible. -/
def CanMove (fs : FileTree) (qbytes : Capacity) (s : State) :
    Prop :=
  ∃ label, label.Moves ∧ Plain fs s label ∧
    (next fs qbytes s label).isSome

section Progress

variable {fs : FileTree} {qbytes : Capacity} {s : State}

theorem canMove_fork {parent : SysvMsg.Parent} {message : SysvMsg.Message}
    (hparent : s.server.parent = some parent)
    (hpc : parent.pc = .fork message) : CanMove fs qbytes s := by
  refine ⟨.fork, trivial, trivial, ?_⟩
  simp [next, SysvMsg.next, hparent, SysvMsg.parentNext, hpc]

theorem canMove_receive {parent : SysvMsg.Parent} {message : SysvMsg.Message}
    {rest : List SysvMsg.Message} (hparent : s.server.parent = some parent)
    (hpc : parent.pc = .receive)
    (hqueue : s.server.queue = some (message :: rest))
    (hfits : message.length ≤ SysvMsg.reqMsgSize) : CanMove fs qbytes s := by
  refine ⟨.receive, trivial, trivial, ?_⟩
  simp [next, SysvMsg.next, hparent, SysvMsg.parentNext, hpc,
    SysvMsg.receive, hqueue, hfits]

/-- A parent that has received a request, or could, makes a step. -/
theorem Requested.canMove (hs : Requested s)
    (hbusy : s.server.inHand ≠ [] ∨ s.server.queued ≠ []) :
    CanMove fs qbytes s := by
  obtain ⟨parent, hparent⟩ := Option.isSome_iff_exists.mp hs.available.serving
  cases hpc : parent.pc with
  | fork message => exact canMove_fork hparent hpc
  | receive =>
      have hnone : s.server.inHand = [] := by
        simp [SysvMsg.State.inHand, hparent, SysvMsg.Parent.inHand, hpc]
      have hsome := hbusy.resolve_left (absurd hnone)
      obtain ⟨queue, hqueue⟩ := Option.isSome_iff_exists.mp hs.queueExists
      rw [SysvMsg.State.queued, hqueue, Option.getD_some] at hsome
      obtain ⟨message, rest, rfl⟩ := List.exists_cons_of_ne_nil hsome
      have hsent : message ∈ s.server.sent := by
        rw [hs.available.accounts, SysvMsg.State.queued, hqueue]
        simp
      obtain ⟨k, c, -, -, hrequest⟩ := hs.exists_asked hsent
      apply canMove_receive hparent hpc hqueue
      rw [← hrequest, c.request_length]

/-- A request that was sent has its child, or the parent has it. -/
theorem Requested.child_or_canMove (hs : Requested s) {c : Client}
    (hsent : c.request ∈ s.server.sent) :
    (∃ p ∈ s.children, p.clientId = c.key) ∨ CanMove fs qbytes s := by
  rw [hs.available.accounts] at hsent
  rcases List.mem_append.mp hsent with hold | hqueued
  · rcases List.mem_append.mp hold with hchild | hhand
    · left
      obtain ⟨q, hq, hmessage⟩ := List.mem_map.mp hchild
      have hserved := congrArg Prod.fst (hs.served_message hq)
      rw [hmessage, c.served_request] at hserved
      have hmemory : q.memory ∈ s.children.map Child.memory := by
        rw [hs.memories]
        exact List.mem_map_of_mem hq
      obtain ⟨p, hp, hpq⟩ := List.mem_map.mp hmemory
      refine ⟨p, hp, ?_⟩
      rw [Child.clientId, hpq]
      exact hserved
    · exact Or.inr (hs.canMove (Or.inl (List.ne_nil_of_mem hhand)))
  · exact Or.inr (hs.canMove (Or.inr (List.ne_nil_of_mem hqueued)))

theorem canMove_client {k : ℕ} {c : Client} {call : ClientCall}
    (hc : s.clients[k]? = some c) (hmain : (clientMain c call).isSome)
    (houtput : (c.outputNext s.output call).isSome)
    (hworks : call.Works) (hcall : call ≠ .msgsnd true) :
    CanMove fs qbytes s := by
  obtain ⟨moved, hmoved⟩ := Option.isSome_iff_exists.mp hmain
  obtain ⟨output, hafter⟩ := Option.isSome_iff_exists.mp houtput
  refine ⟨.client k call, hworks, trivial, ?_⟩
  simp [next, hc, clientNext, hmoved, hafter]

theorem canMove_child {j : ℕ} {p : Child} {call : ChildCall}
    (hp : s.children[j]? = some p)
    (hrequest : (serverRequest fs s.output p call).isSome) (hworks : call.Works)
    (hplain : Plain fs s (.child j call)) (hcall : call ≠ .msgsnd true)
    (hexit : call ≠ .exit) : CanMove fs qbytes s := by
  obtain ⟨moved, hmoved⟩ := Option.isSome_iff_exists.mp hrequest
  refine ⟨.child j call, hworks, hplain, ?_⟩
  simp [next, hp, childNext, hmoved]

/-- A message that finds the queue of its client empty can be sent. -/
theorem Routed.deliver_eq (hs : Routed s) (hqbytes : qbytes.Ample)
    {k : ℕ} {c : Client} (hc : s.clients[k]? = some c)
    (hremoved : c.removed = false) (hempty : c.queue = [])
    (resp : Response) :
    deliver qbytes s.clients c.key resp =
      some (s.clients.set k (c.enqueue resp)) := by
  have hfind : (s.clients.findIdx? fun d => d.key == c.key) = some k := by
    obtain ⟨hlt, heq⟩ := List.getElem?_eq_some_iff.mp hc
    apply List.findIdx?_eq_some_iff_getElem.mpr
    refine ⟨hlt, by simp [heq], ?_⟩
    intro i hik hkey
    rw [beq_iff_eq] at hkey
    have hsame := index_eq_of_nodup hs.keys_nodup
      (List.getElem?_eq_getElem (hik.trans hlt)) hc hkey
    omega
  have hroom : HasRoom (qbytes.client c.clientId)
      (c.queue.map Response.size) resp.size := by
    have hfits := resp.fits
    have hlarge := hqbytes.2 c.clientId
    simp only [respMsgSize] at hfits hlarge
    simp only [HasRoom, hempty, List.map_nil, List.sum_nil, List.length_nil,
      Response.size]
    omega
  simp only [deliver, hfind, Option.bind_some, hc, hremoved, hroom,
    and_self, if_true]

theorem canMove_msgsnd (hs : Routed s) (hqbytes : qbytes.Ample)
    {j k : ℕ} {p : Child} {c : Client} {resp : Response}
    (hp : s.children[j]? = some p) (hc : s.clients[k]? = some c)
    (hid : p.clientId = c.key) (hremoved : c.removed = false)
    (hempty : c.queue = []) (hresp : p.pc.resp = some resp)
    (hrequest : (serverRequest fs s.output p (.msgsnd true)).isSome) :
    CanMove fs qbytes s := by
  obtain ⟨moved, hmoved⟩ := Option.isSome_iff_exists.mp hrequest
  have hdeliver := hs.deliver_eq hqbytes hc hremoved hempty resp
  refine ⟨.child j (.msgsnd true), trivial, trivial, ?_⟩
  simp [next, hp, childNext, hmoved, hresp, hid, hdeliver]

theorem Child.read_isSome (fs : FileTree) (output : Option Content)
    {p : Child} {file : File} (hpc : p.pc = .read) (hfd : p.fd = some file)
    (hfile : file ≠ .directory) :
    ∃ count ≤ 1, (serverRequest fs output p (.read (some count))).isSome := by
  by_cases hend : (file.bytes output).length ≤ p.offset
  · refine ⟨0, Nat.zero_le _, ?_⟩
    simp [serverRequest, hpc, readCount, hfd, hfile, hend]
  · refine ⟨1, le_rfl, ?_⟩
    have hfits : (((file.bytes output).drop p.offset).take 1).length ≤
        respMsgSize := by
      rw [List.length_take, respMsgSize]
      omega
    have hle : p.offset + 1 ≤ (file.bytes output).length := by omega
    simp only [serverRequest, hpc, readCount, hfd, Option.bind_some,
      if_neg hfile, dif_pos hfits, one_ne_zero, if_false, if_pos hle,
      Option.isSome_some]

theorem Child.open_isSome (fs : FileTree) (output : Option Content)
    {p : Child} (hpc : p.pc = .open) :
    ∃ ok : Bool, (ok ↔ fs.Opens output p.pathname) ∧
      (serverRequest fs output p (.open ok)).isSome := by
  by_cases hopens : fs.Opens output p.pathname
  · obtain ⟨file, hfile, hexists⟩ := hopens
    refine ⟨true, by simpa using ⟨file, hfile, hexists⟩, ?_⟩
    simp [serverRequest, hpc, hfile, hexists]
  · exact ⟨false, by simpa using hopens, by simp [serverRequest, hpc]⟩

/-- A child that has not ended goes on, if its client has received all that
was sent. -/
theorem Faultless.child_canMove (hs : Faultless fs s)
    (hqbytes : qbytes.Ample)
    (hregular : ∀ path, fs path ≠ some .directory) {k : ℕ} {p : Child}
    {c : Client} (hp : p ∈ s.children) (hc : s.clients[k]? = some c)
    (hid : p.clientId = c.key) (hremoved : c.removed = false)
    (hempty : c.queue = []) (hdata : ∀ resp ∈ p.sent, resp.IsData) :
    CanMove fs qbytes s := by
  obtain ⟨j, hj⟩ := List.mem_iff_getElem?.mp hp
  have hok := hs.childOk p hp
  have hthorough := hs.children_thorough p hp
  have hlasting : ¬ Terminated Response.IsData p.sent := by
    intro hended
    obtain ⟨resp, hresp, hlast⟩ := hended.exists_last
    exact hlast (hdata resp hresp)
  match hpc : p.pc with
  | .open =>
      obtain ⟨ok, hok, hrequest⟩ := Child.open_isSome fs s.output hpc
      apply canMove_child hj hrequest trivial
      · intro q hq
        rw [Option.some.inj (hq.symm.trans hj)]
        exact hok
      · simp
      · simp
  | .read =>
      simp only [ChildOk, hpc] at hok
      obtain ⟨file, hserving, -⟩ := hok
      have hfile : file ≠ .directory := by
        rintro rfl
        exact hregular _ hserving.path
      obtain ⟨count, hcount, hread⟩ :=
        Child.read_isSome fs s.output hpc hserving.opened hfile
      exact canMove_child hj hread trivial hcount (by simp) (by simp)
  | .sendFailure resp | .sendData resp =>
      have hresp : p.pc.resp = some resp := by rw [hpc, ChildPc.resp]
      apply canMove_msgsnd hs.toRouted hqbytes hj hc hid hremoved hempty
        hresp
      simp [serverRequest, hpc]
  | .sendEnd =>
      have hresp : p.pc.resp = some endResp := by rw [hpc, ChildPc.resp]
      apply canMove_msgsnd hs.toRouted hqbytes hj hc hid hremoved hempty
        hresp
      simp [serverRequest, hpc]
  | .exit code | .exited =>
      simp only [Child.Thorough, hpc] at hthorough
      exact absurd hthorough.2 hlasting

theorem canMove_ask {k : ℕ} {c : Client} (hc : s.clients[k]? = some c)
    (hpc : c.pc = .send) (hqueue : s.server.queue = some [])
    (hqbytes : qbytes.Ample) : CanMove fs qbytes s := by
  have hroom : HasRoom qbytes.server [] c.request.length := by
    have hlarge := hqbytes.1
    simp only [SysvMsg.reqMsgSize, SysvMsg.pathMax] at hlarge
    simp only [HasRoom, c.request_length, SysvMsg.reqMsgSize,
      SysvMsg.pathMax, List.sum_nil, List.length_nil]
    omega
  refine ⟨.client k (.msgsnd true), rfl, trivial, ?_⟩
  simp [next, hc, clientNext, clientMain, hpc, post, hqueue, hroom,
    SysvMsg.next]

/-- No file is too large to be sent. -/
theorem ChildOk.short {fs : FileTree} {p : Child} (hp : ChildOk fs p) :
    (payload p.sent).length < 2 ^ 63 := by
  simp only [ChildOk] at hp
  split at hp
  · simp [hp.2.1, payload]
  · simp [hp.2.1, payload]
  · obtain ⟨file, hserving, -⟩ := hp
    simpa using hserving.short
  · obtain ⟨file, hserving, -⟩ := hp
    simpa using hserving.drop_ahead.short
  · obtain ⟨file, hserving, -⟩ := hp
    simpa using hserving.short
  all_goals
    rcases hp with ⟨-, hfailure⟩ | ⟨file, blocks, hserving, -, hsent | hsent⟩
    · cases hsent : p.sent with
      | nil => simp [payload]
      | cons resp rest =>
          obtain ⟨hone, -⟩ := hfailure resp (by simp [hsent])
          have hfits := resp.fits
          rw [← hsent, hone]
          simp only [payload, List.map_cons, List.map_nil, List.flatten_cons,
            List.flatten_nil, List.append_nil, respMsgSize] at hfits ⊢
          omega
    · rw [hsent]
      simpa using hserving.short
    · rw [hsent, payload_blocks]
      simpa using hserving.short

theorem writeAt_length_le (bytes : List Byte) (offset : ℕ) (data : List Byte) :
    (writeAt bytes offset data).length ≤
      max bytes.length (offset + data.length) := by
  rw [writeAt]
  split
  · exact le_max_left _ _
  · simp only [overlay, List.length_append, List.length_take,
      List.length_replicate, List.length_drop]
    omega

/-- The file has room for what the client has received. -/
theorem Faultless.write_isSome (hs : Faultless fs s) {c : Client}
    (hc : c ∈ s.clients) (hpc : c.pc = .firstWrite ∨ c.pc = .write) :
    (c.outputNext s.output (.write .whole)).isSome := by
  have hthorough := hs.clients_thorough c hc
  have hfd := hthorough.opened (by
    rcases hpc with hpc | hpc <;> simp [ClientPc.Opened, hpc])
  have hok : Receiving c c.pending ∧ c.pending.length = c.msglen.toNat := by
    have hok := hs.clientOk c hc
    rcases hpc with hpc | hpc <;>
    · simp only [ClientOk, hpc] at hok
      exact ⟨hok.1, hok.2.1⟩
  obtain ⟨hreceiving, hlength⟩ := hok
  have harrived : c.arrived ≠ [] :=
    List.append_ne_nil_of_left_ne_nil hreceiving.taken.ne_nil _
  obtain ⟨p, hp, hid⟩ := hs.exists_child hc harrived
  have hshort := (hs.childOk p hp).short
  rw [← hs.sent_eq hc hp hid, Client.arrived, payload, List.map_append,
    List.flatten_append, List.length_append] at hshort
  have hcount := hreceiving.tally.count
  rw [payload] at hcount
  obtain ⟨offset, hoffset⟩ := Option.isSome_iff_exists.mp hfd
  have hstart := (hs.positioned c hc).offset offset hoffset
  have hroom : (writeAt (s.output.getD .empty).bytes offset
      (c.data.take c.msglen.toNat)).length < 2 ^ 63 := by
    have hle := writeAt_length_le (s.output.getD .empty).bytes offset
      (c.data.take c.msglen.toNat)
    have hfits := (s.output.getD .empty).fits
    have hpending : (c.data.take c.msglen.toNat).length = c.msglen.toNat :=
      hlength
    omega
  have hnext : c.outputNext s.output (.write .whole) =
      ((s.output.getD .empty).write offset
        (c.data.take c.msglen.toNat)).map some := by
    simp [Client.outputNext, hoffset, Written.stored, hthorough.counts]
  rw [hnext, Content.write, dif_pos hroom]
  rfl

/-- A client that has not returned goes on, or the process that it waits for
does. -/
theorem Faultless.canMove (hs : Faultless fs s)
    (hqbytes : qbytes.Ample)
    (hregular : ∀ path, fs path ≠ some .directory) {c : Client}
    (hc : c ∈ s.clients) (hreturned : ∀ code, c.pc ≠ .returned code) :
    CanMove fs qbytes s := by
  obtain ⟨k, hk⟩ := List.mem_iff_getElem?.mp hc
  have hok := hs.clientOk c hc
  have hthorough := hs.clients_thorough c hc
  have hremoved := hthorough.keeps hreturned
  match hpc : c.pc with
  | .send =>
      obtain ⟨queue, hqueue⟩ := Option.isSome_iff_exists.mp hs.queueExists
      by_cases hempty : queue = []
      · exact canMove_ask hk hpc (hempty ▸ hqueue) hqbytes
      · apply hs.toRequested.canMove
        right
        rwa [SysvMsg.State.queued, hqueue, Option.getD_some]
  | .first =>
      simp only [ClientOk, hpc] at hok
      cases hqueue : c.queue with
      | cons message rest =>
          have hmain : (clientMain c (.msgrcv true)).isSome := by
            simp [clientMain, hpc, hqueue]
          exact canMove_client hk hmain rfl rfl (by simp)
      | nil =>
          rcases hs.child_or_canMove (hs.waiting c hc hpc) with
            ⟨p, hp, hid⟩ | hmove
          · apply hs.child_canMove hqbytes hregular hp hk hid hremoved hqueue
            rw [← hs.sent_eq hc hp hid, Client.arrived, hok.1, hqueue]
            simp
          · exact hmove
  | .open =>
      have hmain : (clientMain c (.open true)).isSome := by
        simp [clientMain, hpc]
      exact canMove_client hk hmain rfl rfl (by simp)
  | .ftruncate =>
      have hfd := hthorough.opened (by simp [ClientPc.Opened, hpc])
      have hmain : (clientMain c (.ftruncate true)).isSome := by
        simp [clientMain, hpc, hfd]
      exact canMove_client hk hmain rfl rfl (by simp)
  | .lseek =>
      have hmain : (clientMain c .lseek).isSome := by simp [clientMain, hpc]
      exact canMove_client hk hmain rfl trivial (by simp)
  | .firstWrite | .write =>
      have hfd := hthorough.opened (by simp [ClientPc.Opened, hpc])
      have hwrite := hs.write_isSome hc (by simp [hpc])
      have hmain : (clientMain c (.write .whole)).isSome := by
        simp [clientMain, hpc, Written.stored, hthorough.counts, hfd]
      exact canMove_client hk hmain hwrite rfl (by simp)
  | .receive =>
      simp only [ClientOk, hpc] at hok
      obtain ⟨hreceiving, hdata, -⟩ := hok
      cases hqueue : c.queue with
      | cons message rest =>
          have hmain : (clientMain c (.msgrcv true)).isSome := by
            simp [clientMain, hpc, hqueue]
          exact canMove_client hk hmain rfl rfl (by simp)
      | nil =>
          have harrived : c.arrived = c.received := by
            rw [Client.arrived, hqueue, List.append_nil]
          have htaken : Taken c.received .data := hdata ▸ hreceiving.taken
          obtain ⟨p, hp, hid⟩ := hs.exists_child hc
            (harrived ▸ htaken.ne_nil)
          apply hs.child_canMove hqbytes hregular hp hk hid hremoved hqueue
          rw [← hs.sent_eq hc hp hid, harrived]
          exact htaken.isData
  | .close =>
      have hmain : (clientMain c .close).isSome := by
        simp [clientMain, hpc]
      exact canMove_client hk hmain rfl trivial (by simp)
  | .returned code => exact absurd hpc (hreturned code)

end Progress

/-- Steps of the system that keep `P` lead from every state to one in which
all clients have returned. -/
theorem Faultless.exists_completion {fs : FileTree}
    {qbytes : Capacity} {P : State → Prop} (hqbytes : qbytes.Ample)
    (hregular : ∀ path, fs path ≠ some .directory)
    (hkeep : ∀ s label t, P s → label.Moves → Plain fs s label →
      next fs qbytes s label = some t → P t) {s : State}
    (hs : Faultless fs s) (hP : P s) :
    ∃ labels t, (∀ label ∈ labels, label.Moves) ∧
      exec (next fs qbytes) s labels = some t ∧ Faultless fs t ∧ P t ∧
      ∀ c ∈ t.clients, ∃ code, c.pc = .returned code := by
  induction hwork : workload fs s using Nat.strong_induction_on
    generalizing s with
  | _ work ih =>
      by_cases hall : ∀ c ∈ s.clients, ∃ code, c.pc = .returned code
      · exact ⟨[], s, by simp, rfl, hs, hP, hall⟩
      · push Not at hall
        obtain ⟨c, hc, hreturned⟩ := hall
        obtain ⟨label, hmoves, hplain, hnext⟩ :=
          hs.canMove hqbytes hregular hc hreturned
        obtain ⟨t, ht⟩ := Option.isSome_iff_exists.mp hnext
        have hless := next_workload fs qbytes s label t hmoves hs ht
        have hfaultless :=
          next_faultless fs qbytes s label t hmoves.works hs ht
        obtain ⟨labels, u, hlabels, hrun, hlast⟩ := ih (workload fs t)
          (hwork ▸ hless) hfaultless (hkeep s label t hP hmoves hplain ht) rfl
        refine ⟨label :: labels, u, ?_, ?_, hlast⟩
        · exact List.forall_mem_cons.mpr ⟨hmoves, hlabels⟩
        · exact exec_cons_eq_some.mpr ⟨t, ht, hrun⟩

end FileServer

end MyFreeLib
