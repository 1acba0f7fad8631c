/-
What the calls of a child, of a client and of the whole file server can do:
one constructor for each outcome, with everything the code has checked.
-/
import MyFreeLib.FileServer

namespace MyFreeLib

namespace FileServer

/-- The outcomes of the calls of `serverRequest`. -/
inductive ChildStep (fs : FileTree) (output : Option Content) (p : Child) :
    ChildCall → Child → Prop
  | opens {file : File} (hpc : p.pc = .open)
      (hfile : fs p.pathname = some file) (hexists : file.Exists output) :
      ChildStep fs output p (.open true) { p with
        fd := some file
        offset := 0
        found := file.bytes output
        pc := .read }
  | openFails (hpc : p.pc = .open) :
      ChildStep fs output p (.open false)
        { p with pc := .sendFailure (failureResp p.pathname) }
  | sendsFailure {resp : Response} (hpc : p.pc = .sendFailure resp)
      (ok : Bool) :
      ChildStep fs output p (.msgsnd ok) (p.sends ok resp (.exit 1))
  | reads {file : File} {count : ℕ} (hpc : p.pc = .read)
      (hfd : p.fd = some file) (hfile : file ≠ .directory) (hpos : count ≠ 0)
      (hle : p.offset + count ≤ (file.bytes output).length)
      (hfits : (((file.bytes output).drop p.offset).take count).length ≤
        respMsgSize) :
      ChildStep fs output p (.read (some count)) { p with
        offset := p.offset + count
        pc := .sendData
          ⟨.data, ((file.bytes output).drop p.offset).take count, hfits⟩ }
  | readsEnd {file : File} (hpc : p.pc = .read) (hfd : p.fd = some file)
      (hfile : file ≠ .directory)
      (hend : (file.bytes output).length ≤ p.offset) :
      ChildStep fs output p (.read (some 0)) p.finish
  | readFails (hpc : p.pc = .read) :
      ChildStep fs output p (.read none) p.finish
  | sendsData {resp : Response} (hpc : p.pc = .sendData resp) :
      ChildStep fs output p (.msgsnd true) (p.sendsData resp)
  | sendDataFails {resp : Response} (hpc : p.pc = .sendData resp) :
      ChildStep fs output p (.msgsnd false) p.finish
  | sendsEnd (hpc : p.pc = .sendEnd) (ok : Bool) :
      ChildStep fs output p (.msgsnd ok) (p.sends ok endResp (.exit 0))
  | exits {code : Int} (hpc : p.pc = .exit code) :
      ChildStep fs output p .exit { p with pc := .exited }

theorem Child.readCount_step {fs : FileTree} {output : Option Content}
    {p moved : Child} {file : File} {count : ℕ} (hpc : p.pc = .read)
    (hfd : p.fd = some file) (hfile : file ≠ .directory)
    (h : p.readCount (file.bytes output) count = some moved) :
    ChildStep fs output p (.read (some count)) moved := by
  unfold readCount at h
  split at h
  · next hfits =>
      split at h
      · next hzero =>
          obtain ⟨hend, rfl⟩ := guarded_eq_some.mp h
          subst hzero
          exact .readsEnd hpc hfd hfile hend
      · next hpos =>
          obtain ⟨hle, rfl⟩ := guarded_eq_some.mp h
          exact .reads hpc hfd hfile hpos hle hfits
  · cases h

theorem serverRequest_step {fs : FileTree} {output : Option Content}
    {p moved : Child} {call : ChildCall}
    (h : serverRequest fs output p call = some moved) :
    ChildStep fs output p call moved := by
  unfold serverRequest at h
  split at h
  · next hpc =>
      obtain ⟨file, hfile, hopens⟩ := Option.bind_eq_some_iff.mp h
      obtain ⟨hexists, rfl⟩ := guarded_eq_some.mp hopens
      exact .opens hpc hfile hexists
  · next hpc =>
      cases h
      exact .openFails hpc
  · next resp ok hpc =>
      cases h
      exact .sendsFailure hpc ok
  · next count hpc =>
      obtain ⟨file, hfd, hcount⟩ := Option.bind_eq_some_iff.mp h
      split at hcount
      · cases hcount
      · next hfile => exact Child.readCount_step hpc hfd hfile hcount
  · next hpc =>
      cases h
      exact .readFails hpc
  · next resp hpc =>
      cases h
      exact .sendsData hpc
  · next resp hpc =>
      cases h
      exact .sendDataFails hpc
  · next ok hpc =>
      cases h
      exact .sendsEnd hpc ok
  · next code hpc =>
      cases h
      exact .exits hpc
  · cases h

namespace ChildStep

variable {fs : FileTree} {output : Option Content} {p moved : Child}
  {call : ChildCall}

theorem memory_eq (h : ChildStep fs output p call moved) :
    moved.memory = p.memory := by
  cases h <;> rfl

theorem clientId_eq (h : ChildStep fs output p call moved) :
    moved.clientId = p.clientId := by
  rw [Child.clientId, h.memory_eq, Child.clientId]

/-- Only a successful `msgsnd` sends anything. -/
theorem sent_eq (h : ChildStep fs output p call moved)
    (hcall : call ≠ .msgsnd true) : moved.sent = p.sent := by
  cases h with
  | sendsFailure _ ok | sendsEnd _ ok =>
      cases ok with
      | false => rfl
      | true => exact absurd rfl hcall
  | sendsData => exact absurd rfl hcall
  | _ => rfl

theorem sent_concat {resp : Response}
    (h : ChildStep fs output p (.msgsnd true) moved) (hresp : p.pc.resp = some resp) :
    moved.sent = p.sent ++ [resp] := by
  cases h with
  | sendsFailure hpc | sendsData hpc | sendsEnd hpc =>
      rw [hpc] at hresp
      cases hresp
      rfl

end ChildStep

/-- The outcomes of the calls of the client. -/
inductive ClientStep (c : Client) : ClientCall → Client → Prop
  | sends (hpc : c.pc = .send) :
      ClientStep c (.msgsnd true) { c with pc := .first }
  | sendFails (hpc : c.pc = .send) :
      ClientStep c (.msgsnd false)
        ((c.printf (text "send messgae to server fail.\n")).leave (-1))
  | takesFirst {message : Response} {rest : List Response}
      (hpc : c.pc = .first) (hqueue : c.queue = message :: rest)
      (hmore : message.mtype ≠ .failure) :
      ClientStep c (.msgrcv true) { c.take message rest with
        totBytes := message.data.length
        pc := .open }
  | refused {message : Response} {rest : List Response}
      (hpc : c.pc = .first) (hqueue : c.queue = message :: rest)
      (hfailure : message.mtype = .failure) :
      ClientStep c (.msgrcv true) (((c.take message rest).printf
        (cString (c.take message rest).data ++ text "\n")).leave (-1))
  | firstFails (hpc : c.pc = .first) :
      ClientStep c (.msgrcv false) ((c.printf
        (text "fail to get messgae from client queue.\n")).leave (-1))
  | opens (hpc : c.pc = .open) (ok : Bool) :
      ClientStep c (.open ok)
        { c with fd := if ok then some 0 else none, pc := .ftruncate }
  | truncates (hpc : c.pc = .ftruncate) {ok : Bool}
      (hfd : ok → c.fd.isSome) :
      ClientStep c (.ftruncate ok) { c with pc := .lseek }
  | seeks (hpc : c.pc = .lseek) :
      ClientStep c .lseek
        { c with fd := c.fd.map fun _ => 0, pc := .firstWrite }
  | storesFirst {result : Written} {count : ℕ} (hpc : c.pc = .firstWrite)
      (hcount : result.stored c.fd c.msglen = some count) :
      ClientStep c (.write result) ((c.store result count).loop 1)
  | takes {message : Response} {rest : List Response}
      (hpc : c.pc = .receive) (hqueue : c.queue = message :: rest) :
      ClientStep c (.msgrcv true) (c.take message rest).count
  | misses (hpc : c.pc = .receive) :
      ClientStep c (.msgrcv false) c.miss.count
  | stores {result : Written} {count : ℕ} (hpc : c.pc = .write)
      (hcount : result.stored c.fd c.msglen = some count) :
      ClientStep c (.write result)
        ((c.store result count).loop (int32 (c.numMsgs + 1)))
  | closes (hpc : c.pc = .close) :
      ClientStep c .close ((c.printf c.summary).leave 0)

theorem clientMain_step {c moved : Client} {call : ClientCall}
    (h : clientMain c call = some moved) : ClientStep c call moved := by
  unfold clientMain at h
  split at h
  · next hpc =>
      cases h
      exact .sends hpc
  · next hpc =>
      cases h
      exact .sendFails hpc
  · next hpc =>
      split at h
      · next message rest hqueue =>
          cases h
          simp only [Client.takeFirst]
          split
          · next hfailure => exact .refused hpc hqueue hfailure
          · next hmore => exact .takesFirst hpc hqueue hmore
      · cases h
  · next hpc =>
      cases h
      exact .firstFails hpc
  · next ok hpc =>
      cases h
      exact .opens hpc ok
  · next ok hpc =>
      obtain ⟨hfd, rfl⟩ := guarded_eq_some.mp h
      exact .truncates hpc hfd
  · next hpc =>
      cases h
      exact .seeks hpc
  · next result hpc =>
      obtain ⟨count, hcount, rfl⟩ := Option.map_eq_some_iff.mp h
      exact .storesFirst hpc hcount
  · next hpc =>
      split at h
      · next message rest hqueue =>
          cases h
          exact .takes hpc hqueue
      · cases h
  · next hpc =>
      cases h
      exact .misses hpc
  · next result hpc =>
      obtain ⟨count, hcount, rfl⟩ := Option.map_eq_some_iff.mp h
      exact .stores hpc hcount
  · next hpc =>
      cases h
      exact .closes hpc
  · cases h

/-- What has come in on the private queue, received or not. -/
def Client.arrived (c : Client) : List Response := c.received ++ c.queue

/-- The request, once the client has left its first call. -/
def Client.asked (c : Client) : Option SysvMsg.Message :=
  if c.pc = .send then none else some c.request

theorem Client.store_eq (c : Client) (result : Written) (count : ℕ) :
    ∃ printed, c.store result count = { c with
      fd := c.fd.map (· + count)
      stored := c.stored ++ c.data.take count
      lost := c.lost + (c.msglen.toNat - count)
      printed := printed } := by
  simp only [store]
  split
  · exact ⟨_, rfl⟩
  · exact ⟨_, rfl⟩

theorem Client.loop_pc_ne_send (c : Client) (numMsgs : Int) :
    (c.loop numMsgs).pc ≠ .send := by
  simp only [loop]
  split <;> simp

namespace ClientStep

variable {c moved : Client} {call : ClientCall}

theorem names_eq (h : ClientStep c call moved) :
    moved.clientId = c.clientId ∧ moved.pathname = c.pathname := by
  cases h with
  | @storesFirst result count | @stores result count =>
      obtain ⟨printed, hstore⟩ := c.store_eq result count
      rw [hstore]
      exact ⟨rfl, rfl⟩
  | _ => exact ⟨rfl, rfl⟩

theorem key_eq (h : ClientStep c call moved) : moved.key = c.key := by
  rw [Client.key, h.names_eq.1, Client.key]

theorem request_eq (h : ClientStep c call moved) :
    moved.request = c.request := by
  rw [Client.request, h.key_eq, h.names_eq.2, Client.request]

/-- No call of the client loses or repeats a message. -/
theorem arrived_eq (h : ClientStep c call moved) :
    moved.arrived = c.arrived := by
  cases h with
  | takesFirst _ hqueue | refused _ hqueue | takes _ hqueue =>
      simp [Client.arrived, Client.take, Client.printf, Client.leave,
        Client.count, hqueue]
  | @storesFirst result count | @stores result count =>
      obtain ⟨printed, hstore⟩ := c.store_eq result count
      rw [hstore]
      rfl
  | _ => rfl

theorem pc_ne_send (h : ClientStep c call moved) : moved.pc ≠ .send := by
  cases h with
  | storesFirst | stores => exact Client.loop_pc_ne_send _ _
  | _ => simp [Client.leave, Client.count]

/-- Only the request makes a client wait for its first message. -/
theorem pc_ne_first (h : ClientStep c call moved)
    (hcall : call ≠ .msgsnd true) : moved.pc ≠ .first := by
  cases h with
  | sends => exact absurd rfl hcall
  | storesFirst | stores =>
      simp only [Client.loop]
      split <;> simp
  | _ => simp [Client.leave, Client.count]

theorem asked_eq (h : ClientStep c call moved) :
    moved.asked = some c.request := by
  rw [Client.asked, if_neg h.pc_ne_send, h.request_eq]

theorem pc_eq_send (h : ClientStep c (.msgsnd true) moved) :
    c.pc = .send := by
  cases h with
  | sends hpc => exact hpc

/-- A client asks once and for the same thing. -/
theorem mem_asked (h : ClientStep c call moved) {clients : List Client}
    {k : ℕ} (hc : clients[k]? = some c) {message : SysvMsg.Message}
    (hasked : some message ∈ clients.map Client.asked) :
    some message ∈ (clients.set k moved).map Client.asked := by
  obtain ⟨n, hn⟩ := List.mem_iff_getElem?.mp hasked
  rw [List.getElem?_map] at hn
  obtain ⟨d, hd, hmessage⟩ := Option.map_eq_some_iff.mp hn
  apply List.mem_map.mpr
  by_cases hnk : n = k
  · obtain rfl : d = c := Option.some.inj (hd.symm.trans (hnk ▸ hc))
    refine ⟨moved, List.mem_set (List.getElem?_eq_some_iff.mp hc).1 moved, ?_⟩
    rw [h.asked_eq, ← hmessage, Client.asked]
    by_cases hpc : d.pc = .send
    · simp [Client.asked, hpc] at hmessage
    · rw [if_neg hpc]
  · refine ⟨d, List.mem_of_getElem? (i := n) ?_, hmessage⟩
    rw [List.getElem?_set_ne (Ne.symm hnk), hd]

end ClientStep

/-- The outcomes of the steps of the system. -/
inductive Step (fs : FileTree) (qbytes : Capacity) (s : State) :
    Label → State → Prop
  | launches {pathname : Pathname} {clientId : QueueId}
      (hfresh : clientId ∉ s.clients.map Client.clientId) :
      Step fs qbytes s (.launch pathname clientId) { s with
        clients := s.clients ++ [Client.start pathname clientId] }
  | receives {server : SysvMsg.State} {parent : SysvMsg.Parent}
      {message : SysvMsg.Message} {rest : List SysvMsg.Message}
      (hserver : SysvMsg.next s.server .receive = some server)
      (hparent : s.server.parent = some parent) (hpc : parent.pc = .receive)
      (hqueue : s.server.queue = some (message :: rest))
      (hmoved : server = { s.server with
        queue := some rest
        parent := some ⟨.fork message, overlay message parent.memory⟩ }) :
      Step fs qbytes s .receive { s with server := server }
  | interrupted : Step fs qbytes s .interrupted s
  | forks {server : SysvMsg.State} {parent : SysvMsg.Parent}
      {message : SysvMsg.Message}
      (hserver : SysvMsg.next s.server .fork = some server)
      (hparent : s.server.parent = some parent)
      (hpc : parent.pc = .fork message)
      (hmoved : server = { s.server with
        children := s.server.children ++ [⟨message, parent.memory, true⟩]
        parent := some ⟨.receive, parent.memory⟩ }) :
      Step fs qbytes s .fork { s with
        server := server
        children := s.children ++ [Child.start parent.memory] }
  | childSends {j k : ℕ} {p moved : Child} {c : Client} {resp : Response}
      (hp : s.children[j]? = some p)
      (hmoved : ChildStep fs s.output p (.msgsnd true) moved)
      (hresp : p.pc.resp = some resp) (hc : s.clients[k]? = some c)
      (hkey : c.key = p.clientId) (hqueue : c.removed = false)
      (hroom : HasRoom (qbytes.client c.clientId) (c.queue.map Response.size)
        resp.size) :
      Step fs qbytes s (.child j (.msgsnd true)) { s with
        children := s.children.set j moved
        clients := s.clients.set k (c.enqueue resp) }
  | childExits {j : ℕ} {p moved : Child} {server : SysvMsg.State}
      (hp : s.children[j]? = some p)
      (hmoved : ChildStep fs s.output p .exit moved)
      (hserver : SysvMsg.next s.server (.childExits j) = some server) :
      Step fs qbytes s (.child j .exit) { s with
        children := s.children.set j moved
        server := server }
  | childMoves {j : ℕ} {p moved : Child} {call : ChildCall}
      (hp : s.children[j]? = some p)
      (hmoved : ChildStep fs s.output p call moved)
      (hcall : call ≠ .msgsnd true) (hexit : call ≠ .exit) :
      Step fs qbytes s (.child j call) { s with
        children := s.children.set j moved }
  | clientSends {k : ℕ} {c moved : Client} {server : SysvMsg.State}
      {queue : List SysvMsg.Message} (hc : s.clients[k]? = some c)
      (hmoved : ClientStep c (.msgsnd true) moved)
      (hserver : SysvMsg.next s.server (.post c.request) = some server)
      (hqueue : s.server.queue = some queue)
      (hposted : server = { s.server with
        queue := some (queue ++ [c.request])
        sent := s.server.sent ++ [c.request] }) :
      Step fs qbytes s (.client k (.msgsnd true)) { s with
        clients := s.clients.set k moved
        server := server }
  | clientMoves {k : ℕ} {c moved : Client} {call : ClientCall}
      {output : Option Content} (hc : s.clients[k]? = some c)
      (hmoved : ClientStep c call moved) (hcall : call ≠ .msgsnd true)
      (houtput : c.outputNext s.output call = some output) :
      Step fs qbytes s (.client k call) { s with
        clients := s.clients.set k moved
        output := output }

theorem deliver_cases {qbytes : Capacity} {clients delivered : List Client}
    {key : Int} {resp : Response}
    (h : deliver qbytes clients key resp = some delivered) :
    ∃ k c, clients[k]? = some c ∧ c.key = key ∧ c.removed = false ∧
      HasRoom (qbytes.client c.clientId) (c.queue.map Response.size)
        resp.size ∧
      delivered = clients.set k (c.enqueue resp) := by
  obtain ⟨k, hk, hrest⟩ := Option.bind_eq_some_iff.mp h
  obtain ⟨c, hc, hend⟩ := Option.bind_eq_some_iff.mp hrest
  obtain ⟨⟨hqueue, hroom⟩, rfl⟩ := guarded_eq_some.mp hend
  obtain ⟨hlt, hkey, -⟩ := List.findIdx?_eq_some_iff_getElem.mp hk
  rw [(List.getElem?_eq_some_iff.mp hc).2, beq_iff_eq] at hkey
  exact ⟨k, c, hc, hkey, hqueue, hroom, rfl⟩

theorem post_cases {qbytes : ℕ} {server posted : SysvMsg.State}
    {message : SysvMsg.Message}
    (h : post qbytes server message = some posted) :
    SysvMsg.next server (.post message) = some posted ∧
      ∃ queue, server.queue = some queue ∧ posted = { server with
        queue := some (queue ++ [message])
        sent := server.sent ++ [message] } := by
  obtain ⟨queue, hqueue, hpost⟩ := Option.bind_eq_some_iff.mp h
  rw [Option.ite_none_right_eq_some] at hpost
  refine ⟨hpost.2, queue, hqueue, ?_⟩
  have hposted := hpost.2
  simp only [SysvMsg.next, hqueue, Option.map_some,
    Option.some.injEq] at hposted
  exact hposted.symm

theorem childNext_step {fs : FileTree} {qbytes : Capacity}
    {j : ℕ} {s t : State} {p : Child} {call : ChildCall}
    (hp : s.children[j]? = some p)
    (h : childNext fs qbytes s j p call = some t) :
    Step fs qbytes s (.child j call) t := by
  obtain ⟨moved, hrequest, hrest⟩ := Option.bind_eq_some_iff.mp h
  have hmoved := serverRequest_step hrequest
  split at hrest
  · obtain ⟨resp, hresp, hdeliver⟩ := Option.bind_eq_some_iff.mp hrest
    obtain ⟨clients, hclients, rfl⟩ := Option.map_eq_some_iff.mp hdeliver
    obtain ⟨k, c, hc, hkey, hqueue, hroom, rfl⟩ := deliver_cases hclients
    exact .childSends hp hmoved hresp hc hkey hqueue hroom
  · obtain ⟨server, hserver, rfl⟩ := Option.map_eq_some_iff.mp hrest
    exact .childExits hp hmoved hserver
  · next hcall hexit =>
      cases hrest
      exact .childMoves hp hmoved hcall hexit

theorem clientNext_step {fs : FileTree} {qbytes : Capacity}
    {k : ℕ} {s t : State} {c : Client} {call : ClientCall}
    (hc : s.clients[k]? = some c)
    (h : clientNext qbytes s k c call = some t) :
    Step fs qbytes s (.client k call) t := by
  obtain ⟨moved, hmain, hrest⟩ := Option.bind_eq_some_iff.mp h
  have hmoved := clientMain_step hmain
  split at hrest
  · obtain ⟨server, hpost, rfl⟩ := Option.map_eq_some_iff.mp hrest
    obtain ⟨hserver, queue, hqueue, hposted⟩ := post_cases hpost
    exact .clientSends hc hmoved hserver hqueue hposted
  · next hcall =>
      obtain ⟨output, houtput, rfl⟩ := Option.map_eq_some_iff.mp hrest
      exact .clientMoves hc hmoved hcall houtput

theorem next_step {fs : FileTree} {qbytes : Capacity}
    {s t : State} {label : Label} (h : next fs qbytes s label = some t) :
    Step fs qbytes s label t := by
  cases label with
  | launch pathname clientId =>
      simp only [next] at h
      split at h
      · cases h
      · next hfresh =>
          cases h
          exact .launches hfresh
  | receive =>
      obtain ⟨server, hserver, rfl⟩ := Option.map_eq_some_iff.mp h
      obtain ⟨parent, hparent, hmove⟩ := Option.bind_eq_some_iff.mp hserver
      rcases SysvMsg.parentNext_cases hmove with ⟨hother, -⟩ |
        ⟨message, rest, -, hpc, hqueue, -, hmoved⟩ | ⟨_, hother, -⟩ |
        ⟨hends, -⟩
      · cases hother
      · exact .receives hserver hparent hpc hqueue hmoved
      · cases hother
      · cases hends
  | interrupted =>
      obtain ⟨server, hserver, rfl⟩ := Option.map_eq_some_iff.mp h
      obtain ⟨parent, hparent, hmove⟩ := Option.bind_eq_some_iff.mp hserver
      rcases SysvMsg.parentNext_cases hmove with ⟨-, rfl⟩ |
        ⟨_, _, hother, -⟩ | ⟨_, hother, -⟩ | ⟨hends, -⟩
      · exact .interrupted
      · cases hother
      · cases hother
      · cases hends
  | fork =>
      obtain ⟨parent, hparent, hrest⟩ := Option.bind_eq_some_iff.mp h
      obtain ⟨server, hserver, rfl⟩ := Option.map_eq_some_iff.mp hrest
      obtain ⟨parent', hparent', hmove⟩ := Option.bind_eq_some_iff.mp hserver
      obtain rfl : parent = parent' :=
        Option.some.inj (hparent.symm.trans hparent')
      rcases SysvMsg.parentNext_cases hmove with ⟨hother, -⟩ |
        ⟨_, _, hother, -⟩ | ⟨message, -, hpc, hmoved⟩ | ⟨hends, -⟩
      · cases hother
      · cases hother
      · exact .forks hserver hparent hpc hmoved
      · cases hends
  | child j call =>
      obtain ⟨p, hp, hmove⟩ := Option.bind_eq_some_iff.mp h
      exact childNext_step hp hmove
  | client k call =>
      obtain ⟨c, hc, hmove⟩ := Option.bind_eq_some_iff.mp h
      exact clientNext_step hc hmove

end FileServer

end MyFreeLib
