/-
How much is left to do.  Every byte of a requested file, every message and
every process that has not ended counts for some calls; in a run whose calls
succeed each of them is made once.
-/
import MyFreeLib.FileServerDelivery

namespace MyFreeLib

namespace FileServer

/-- The step is one that the system makes by itself, and its call succeeds. -/
def Label.Moves : Label → Prop
  | .launch _ _ | .interrupted => False
  | .child _ call => call.Works
  | .client _ call => call.Works
  | _ => True

theorem Label.Moves.works {label : Label} (h : label.Moves) :
    label.Works := by
  cases label with
  | child | client => exact h
  | _ => trivial

/-- So many bytes can be read from a file at most, whatever becomes of it. -/
def File.limit : File → ℕ
  | .regular content => content.bytes.length
  | .directory => 0
  | .output => 2 ^ 63

theorem File.length_le_limit (file : File) (output : Option Content) :
    (file.bytes output).length ≤ file.limit := by
  cases file with
  | regular | directory => exact le_rfl
  | output => exact (File.bytes_length_lt .output output).le

/-- So many bytes can be read from what a path leads to. -/
def fileSize (fs : FileTree) (path : List Byte) : ℕ :=
  ((fs path).map File.limit).getD 0

/-- So many of them are left. -/
def Child.left (p : Child) : ℕ := (p.fd.map File.limit).getD 0 - p.offset

/-- For a child that is about to open the path: each byte may take a `read`, a
`msgsnd`, and a `msgrcv` and a `write` of the client. -/
def requestWork (fs : FileTree) (path : List Byte) : ℕ :=
  5 * fileSize fs path + 7

def Child.work (fs : FileTree) (p : Child) : ℕ :=
  match p.pc with
  | .open => requestWork fs p.pathname
  | .sendFailure _ => 5
  | .read => 5 * p.left + 6
  | .sendData _ => 5 * p.left + 10
  | .sendEnd => 5
  | .exit _ => 1
  | .exited => 0

def Client.work (fs : FileTree) (c : Client) : ℕ :=
  3 * c.queue.length +
    match c.pc with
    | .send => requestWork fs c.pathname.bytes + 8
    | .first => 5
    | .open => 6
    | .ftruncate => 5
    | .lseek => 4
    | .firstWrite => 3
    | .receive => 2
    | .write => 3
    | .close => 1
    | .returned _ => 0

/-- A request on the queue of the server. -/
def messageWork (fs : FileTree)
    (message : SysvMsg.Message) : ℕ :=
  requestWork fs (SysvMsg.pathname message) + 2

/-- The request in the parent's hand. -/
def parentWork (fs : FileTree) (parent : SysvMsg.Parent) :
    ℕ :=
  match parent.pc with
  | .receive => 0
  | .fork _ => requestWork fs (SysvMsg.pathname parent.memory) + 1

def serverWork (fs : FileTree) (server : SysvMsg.State) : ℕ :=
  (server.queued.map (messageWork fs)).sum +
    (server.parent.map (parentWork fs)).getD 0

def workload (fs : FileTree) (s : State) : ℕ :=
  serverWork fs s.server + (s.children.map (Child.work fs)).sum +
    (s.clients.map (Client.work fs)).sum

/-- Every call of a child brings it nearer to its end, also if the message it
sends has still to be received and written. -/
theorem ChildStep.work_lt {fs : FileTree} {output : Option Content}
    {p moved : Child} {call : ChildCall}
    (h : ChildStep fs output p call moved) :
    moved.work fs < p.work fs ∧
      (call = .msgsnd true → moved.work fs + 3 < p.work fs) := by
  cases h with
  | @opens file hpc hfile =>
      simp [Child.work, Child.left, hpc, requestWork, fileSize, hfile]
  | openFails hpc =>
      simp [Child.work, hpc, requestWork]
  | @reads file count hpc hfd hdirectory hpos hle hfits =>
      have hlimit := file.length_le_limit output
      simp only [Child.work, Child.left, hpc, hfd, Option.map_some,
        Option.getD_some, reduceCtorEq, false_implies, and_true]
      omega
  | sendsFailure hpc | sendsEnd hpc =>
      simp only [Child.work, Child.sends, hpc]
      omega
  | sendsData hpc =>
      simp only [Child.work, Child.left, Child.sendsData, Child.sends, hpc]
      omega
  | readsEnd hpc | readFails hpc | sendDataFails hpc =>
      simp only [Child.work, Child.finish, hpc, reduceCtorEq, false_implies,
        and_true]
      omega
  | exits hpc =>
      simp only [Child.work, hpc, reduceCtorEq, false_implies, and_true]
      omega

theorem ClientStep.work_lt (fs : FileTree) {c moved : Client}
    {call : ClientCall} (h : ClientStep c call moved) (hworks : call.Works)
    (hcall : call ≠ .msgsnd true) : moved.work fs < c.work fs := by
  cases h with
  | sends => exact absurd rfl hcall
  | sendFails | firstFails | misses => cases hworks
  | takesFirst hpc hqueue | refused hpc hqueue | takes hpc hqueue =>
      simp only [Client.work, Client.take, Client.printf, Client.leave,
        Client.count, hpc, hqueue, List.length_cons]
      omega
  | @storesFirst result count hpc | @stores result count hpc =>
      obtain ⟨printed, hstore⟩ := c.store_eq result count
      rw [hstore]
      by_cases hdata : c.mtype = .data
      · simp only [Client.work, Client.loop, hpc, hdata, if_true]
        omega
      · simp only [Client.work, Client.loop, hpc, hdata, if_false]
        omega
  | opens hpc | truncates hpc | seeks hpc =>
      simp only [Client.work, hpc]
      omega
  | closes hpc =>
      simp only [Client.work, Client.leave, Client.printf, hpc]
      omega

theorem Client.work_enqueue (fs : FileTree) (c : Client)
    (resp : Response) : (c.enqueue resp).work fs = c.work fs + 3 := by
  simp only [work, enqueue, List.length_append, List.length_singleton]
  omega

/-- Asking moves the work for a request to the server. -/
theorem ClientStep.work_sends (fs : FileTree)
    {c moved : Client} (h : ClientStep c (.msgsnd true) moved) :
    moved.work fs + messageWork fs c.request < c.work fs := by
  cases h with
  | sends hpc =>
      simp only [Client.work, messageWork, c.pathname_request, hpc]
      omega

/-- In a run whose calls succeed every step of the system reduces what is left
to do. -/
theorem next_workload (fs : FileTree) (qbytes : Capacity)
    (s : State) (label : Label) (t : State) (hmoves : label.Moves)
    (hs : Faultless fs s) (h : next fs qbytes s label = some t) :
    workload fs t < workload fs s := by
  cases next_step h with
  | launches | interrupted => exact absurd hmoves id
  | @receives server parent message rest hserver hparent hpc hqueue hmoved =>
      have hsent : message ∈ s.server.sent := by
        rw [hs.available.accounts, SysvMsg.State.queued, hqueue]
        simp
      obtain ⟨k, c, -, -, hrequest⟩ := hs.exists_asked hsent
      have hserved : SysvMsg.served (overlay message parent.memory) =
          SysvMsg.served message :=
        (hrequest ▸ c.request_complete).served_eq (List.prefix_append _ _)
      have hpath := congrArg Prod.snd hserved
      simp only [SysvMsg.served] at hpath
      subst hmoved
      simp only [workload, serverWork, SysvMsg.State.queued, hqueue, hparent,
        Option.getD_some, Option.map_some, List.map_cons, List.sum_cons,
        parentWork, hpc, hpath, messageWork]
      omega
  | @forks server parent message hserver hparent hpc hmoved =>
      subst hmoved
      simp only [workload, serverWork, SysvMsg.State.queued, hparent,
        Option.getD_some, Option.map_some, parentWork, hpc, List.map_append,
        List.sum_append, List.map_singleton, List.sum_singleton, Child.work,
        Child.start, Child.pathname]
      omega
  | @childSends j k p moved c resp hp hmoved hresp hc =>
      have hchild := hmoved.work_lt.2 rfl
      have hchildren := sum_map_set (Child.work fs) hp moved
      have hclients := sum_map_set (Client.work fs) hc (c.enqueue resp)
      rw [c.work_enqueue] at hclients
      simp only [workload]
      omega
  | @childExits j p moved server hp hmoved hserver =>
      have hchild := hmoved.work_lt.1
      have hchildren := sum_map_set (Child.work fs) hp moved
      obtain ⟨q, notices, -, rfl⟩ := SysvMsg.childEnds_cases hserver
      simp only [workload, serverWork, SysvMsg.State.queued]
      omega
  | @childMoves j p moved call hp hmoved =>
      have hchild := hmoved.work_lt.1
      have hchildren := sum_map_set (Child.work fs) hp moved
      simp only [workload]
      omega
  | @clientSends k c moved server queue hc hmoved hserver hqueue hposted =>
      have hclient := hmoved.work_sends fs
      have hclients := sum_map_set (Client.work fs) hc moved
      subst hposted
      simp only [workload, serverWork, SysvMsg.State.queued, hqueue,
        Option.getD_some, List.map_append, List.sum_append,
        List.map_singleton, List.sum_singleton]
      omega
  | @clientMoves k c moved call output hc hmoved hcall =>
      have hclient := hmoved.work_lt fs hmoves hcall
      have hclients := sum_map_set (Client.work fs) hc moved
      simp only [workload]
      omega

end FileServer

end MyFreeLib
