/-
The POSIX shared-memory channel: one server prints what any number of clients
store into a single slot, with one semaphore for each direction.  A process
that has waited successfully holds the slot until it posts.
-/
import MyFreeLib.ByteBuffer
import MyFreeLib.LabelledRun
import MyFreeLib.ProcessTable

namespace MyFreeLib

namespace PosixShm

/-- `sizeof(shmp->data)` -/
def dataSize : ℕ := 1024

/-- Where `server_demo` stands in its loop. -/
inductive ServerPc
  | wait
  | terminate
  | print
  | post
  | returned (code : Int)
deriving DecidableEq, Repr

/-- Where `client_demo` stands in its loop; `post` remembers the token that
`scanf` has just stored. -/
inductive ClientPc
  | wait
  | scan
  | post (token : List Byte)
  | returned (code : Int)
deriving DecidableEq, Repr

/-- `input` is what `scanf("%s", ...)` will find, token by token. -/
structure Client where
  pc : ClientPc
  input : List (List Byte)
  notices : List String
deriving DecidableEq, Repr

/-- `data` is the segment from `shmp->data` on.  `holds` is history: whether
the server's last wait succeeded and it has not posted since.  So are `printed`
and `stored`, the strings printed and the tokens stored in the order of the
posts to `read`. -/
structure State where
  read : ℕ
  write : ℕ
  data : List Byte
  server : ServerPc
  holds : Bool
  notices : List String
  clients : List Client
  printed : List (List Byte)
  stored : List (List Byte)
deriving DecidableEq, Repr

/-- The server has executed both `sem_init` calls; the segment may hold
anything. -/
def start (data : List Byte) : State where
  read := 0
  write := 1
  data := data
  server := .wait
  holds := false
  notices := []
  clients := []
  printed := []
  stored := []

/-- `sem_wait` on a value; `none` while it has to wait. -/
def semWait : ℕ → Option ℕ
  | 0 => none
  | value + 1 => some value

/-- One step: the server or a client makes its next call and succeeds, one of
its calls fails, `scanf` meets the end of input, or a client with the given
input has opened and mapped the segment. -/
inductive Label
  | server
  | serverWaitFails
  | serverPostFails
  | launch (input : List (List Byte))
  | client (i : ℕ)
  | clientWaitFails (i : ℕ)
  | clientEof (i : ℕ)
  | clientPostFails (i : ℕ)
deriving DecidableEq, Repr

/-- `server_demo` with all calls successful. -/
def serverNext (s : State) : Option State :=
  match s.server with
  | .wait => (semWait s.read).map fun read =>
      { s with read, holds := true, server := .terminate }
  | .terminate =>
      some { s with data := s.data.set (dataSize - 1) 0, server := .print }
  | .print =>
      some { s with printed := s.printed ++ [cString s.data], server := .post }
  | .post =>
      some { s with write := s.write + 1, holds := false, server := .wait }
  | .returned _ => none

/-- The server does not leave its loop when `sem_wait` fails. -/
def serverWaitFails (s : State) : Option State :=
  match s.server with
  | .wait => some { s with
      notices := s.notices ++ ["wait read failed.\n"]
      holds := false
      server := .terminate }
  | _ => none

def serverPostFails (s : State) : Option State :=
  match s.server with
  | .post => some { s with
      notices := s.notices ++ ["post write failed.\n"]
      holds := false
      server := .returned (-1) }
  | _ => none

/-- `printf(message); return -1;` in a client. -/
def Client.fails (c : Client) (message : String) : Client :=
  { c with notices := c.notices ++ [message], pc := .returned (-1) }

/-- `client_demo` with all calls successful. -/
def clientNext (s : State) (i : ℕ) (c : Client) : Option State :=
  match c.pc, c.input with
  | .wait, _ => (semWait s.write).map fun write =>
      { s with write, clients := s.clients.set i { c with pc := .scan } }
  | .scan, token :: rest => some { s with
      data := overlay (token ++ [0]) s.data
      clients := s.clients.set i { c with pc := .post token, input := rest } }
  | .post token, _ => some { s with
      read := s.read + 1
      stored := s.stored ++ [token]
      clients := s.clients.set i { c with pc := .wait } }
  | _, _ => none

/-- A failing call of a client ends it. -/
def clientFails (s : State) (i : ℕ) (c : Client) (message : String) : State :=
  { s with clients := s.clients.set i (c.fails message) }

def next (s : State) : Label → Option State
  | .server => serverNext s
  | .serverWaitFails => serverWaitFails s
  | .serverPostFails => serverPostFails s
  | .launch input =>
      some { s with clients := s.clients ++ [⟨.wait, input, []⟩] }
  | .client i => s.clients[i]?.bind (clientNext s i)
  | .clientWaitFails i => s.clients[i]?.bind fun c =>
      match c.pc with
      | .wait => some (clientFails s i c "wait write failed.\n")
      | _ => none
  | .clientEof i => s.clients[i]?.bind fun c =>
      match c.pc, c.input with
      | .scan, [] => some (clientFails s i c "gets failed.\n")
      | _, _ => none
  | .clientPostFails i => s.clients[i]?.bind fun c =>
      match c.pc with
      | .post _ => some (clientFails s i c "post read failed.\n")
      | _ => none

/-- What a call of `server_demo` does. -/
inductive ServerStep (s : State) : State → Prop
  | waits {left : ℕ} (hpc : s.server = .wait) (hread : s.read = left + 1) :
      ServerStep s
        { s with read := left, holds := true, server := .terminate }
  | terminates (hpc : s.server = .terminate) :
      ServerStep s
        { s with data := s.data.set (dataSize - 1) 0, server := .print }
  | prints (hpc : s.server = .print) :
      ServerStep s
        { s with printed := s.printed ++ [cString s.data], server := .post }
  | posts (hpc : s.server = .post) :
      ServerStep s
        { s with write := s.write + 1, holds := false, server := .wait }

/-- What a call of `client_demo` does. -/
inductive ClientStep (s : State) (i : ℕ) (c : Client) : State → Prop
  | waits {left : ℕ} (hpc : c.pc = .wait) (hwrite : s.write = left + 1) :
      ClientStep s i c { s with
        write := left
        clients := s.clients.set i { c with pc := .scan } }
  | scans {token : List Byte} {rest : List (List Byte)} (hpc : c.pc = .scan)
      (hinput : c.input = token :: rest) :
      ClientStep s i c { s with
        data := overlay (token ++ [0]) s.data
        clients := s.clients.set i
          { c with pc := .post token, input := rest } }
  | posts {token : List Byte} (hpc : c.pc = .post token) :
      ClientStep s i c { s with
        read := s.read + 1
        stored := s.stored ++ [token]
        clients := s.clients.set i { c with pc := .wait } }

theorem semWait_eq_some {value left : ℕ} (h : semWait value = some left) :
    value = left + 1 := by
  cases value with
  | zero => simp [semWait] at h
  | succ n => simpa [semWait] using h

theorem serverNext_step {s t : State} (h : serverNext s = some t) :
    ServerStep s t := by
  unfold serverNext at h
  split at h
  · next hpc =>
      obtain ⟨left, hleft, rfl⟩ := Option.map_eq_some_iff.mp h
      exact .waits hpc (semWait_eq_some hleft)
  · next hpc =>
      cases h
      exact .terminates hpc
  · next hpc =>
      cases h
      exact .prints hpc
  · next hpc =>
      cases h
      exact .posts hpc
  · cases h

theorem clientNext_step {s t : State} {i : ℕ} {c : Client}
    (h : clientNext s i c = some t) : ClientStep s i c t := by
  unfold clientNext at h
  split at h
  · next hpc =>
      obtain ⟨left, hleft, rfl⟩ := Option.map_eq_some_iff.mp h
      exact .waits hpc (semWait_eq_some hleft)
  · next token rest hpc hinput =>
      cases h
      exact .scans hpc hinput
  · next token hpc =>
      cases h
      exact .posts hpc
  · cases h

/-- The client is between a successful wait and its post. -/
def Client.inside (c : Client) : Bool :=
  match c.pc with
  | .scan | .post _ => true
  | _ => false

/-- The server is past its wait and before its post. -/
def ServerPc.inside : ServerPc → Bool
  | .terminate | .print | .post => true
  | _ => false

/-- How many of the clients are between a successful wait and their post. -/
def clientsInside (clients : List Client) : ℕ :=
  (clients.map fun c => c.inside.toNat).sum

/-- How many live processes are between a successful wait and their post. -/
def State.holders (s : State) : ℕ :=
  (s.server.inside && s.holds).toNat + clientsInside s.clients

/-- The server is past a wait that failed. -/
def State.unowned (s : State) : ℕ :=
  (s.server.inside && !s.holds).toNat

end PosixShm

end MyFreeLib
