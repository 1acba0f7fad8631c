/-
The client of the sequence-number service when calls fail.  None of its calls
after `mkfifo` ends it: an open that fails leaves -1 for the call after it, and
in the end it prints `resp.seqNum` whatever its `read` has put there.  This is
one client and the server; other processes only put requests into the server's
FIFO, and no two processes have the same pid.
-/
import MyFreeLib.Memory
import MyFreeLib.PipeDemoAllocation

namespace MyFreeLib

namespace PipeClient

open PipeDemo (Pid Fifo FitsInt clientFifo int32_fits responseSize)

/-- `request_t`.  Every writer puts whole ones into the server's FIFO, so the
server reads whole ones. -/
structure Request where
  pid : Pid
  seqLen : Int
deriving DecidableEq, Repr

/-- The `client_fd` of the server: -1, the client's FIFO or that of another
process. -/
inductive ClientFd
  | failed
  | own
  | other
deriving DecidableEq, Repr

inductive ServerPc
  | read
  | openClient
  | opening
  | write (clientFd : ClientFd)
  | close (clientFd : ClientFd)
deriving DecidableEq, Repr

inductive ClientPc
  | mkfifo
  | openServer
  | write
  | openFifo
  | opening
  | read
  | print
  | returned (code : Int)
  | killed
deriving DecidableEq, Repr

/-- The server, with its FIFO, and the client, with its own; `serverFd` and
`clientFd` say which descriptors of the client are not -1.  `responses`, the
numbers that the server has written for the client's request, is history. -/
structure Session where
  alive : Bool
  server : ServerPc
  serverFifo : List Request
  req : Request
  seqNum : Int
  serverNotices : List (List Byte)
  client : ClientPc
  fifo : Fifo
  serverFd : Bool
  clientFd : Bool
  resp : Memory
  printed : List (Option Int)
  notices : List (List Byte)
  responses : List Int
deriving DecidableEq, Repr

/-- The server is in its loop, with anything in `req`, and the client has not
made a call. -/
def start (req : Request) : Session where
  alive := true
  server := .read
  serverFifo := []
  req := req
  seqNum := 0
  serverNotices := []
  client := .mkfifo
  fifo := ⟨false, false, false, false, false, []⟩
  serverFd := false
  clientFd := false
  resp := Memory.fresh responseSize
  printed := []
  notices := []
  responses := []

/-- Another process asks; the next call of the server or of the client comes
to success or to failure; a `read` of the client returns so many bytes; one of
the two dies. -/
inductive Label
  | request (req : Request)
  | server (ok : Bool)
  | serverDies
  | client (ok : Bool)
  | clientReads (count : ℕ)
  | clientDies
deriving DecidableEq, Repr

def Session.serverNotice (s : Session) (message : List Byte) : Session :=
  { s with serverNotices := s.serverNotices ++ [message] }

def Session.notice (s : Session) (message : List Byte) : Session :=
  { s with notices := s.notices ++ [message] }

/-- The server lets go of the client's FIFO, if it is at it. -/
def Session.closeWriter (s : Session) : Session :=
  match s.server with
  | .opening | .write .own | .close .own =>
      { s with fifo := s.fifo.closeWriter }
  | _ => s

/-- `open(client_fifo, O_WRONLY)`; the open of the client's FIFO waits. -/
def serverOpen (pid : Pid) (s : Session) : Option Session :=
  if s.req.pid ≠ pid then some { s with server := .write .other }
  else if s.fifo.linked then
    some { s with fifo := s.fifo.openWriter, server := .opening }
  else none

def serverOpenFails (s : Session) : Session :=
  { s.closeWriter.serverNotice (text "server open " ++
      clientFifo s.req.pid.val ++ text " failed.\n") with
    server := .write .failed }

/-- `write(client_fd, &resp, sizeof(resp))` -/
def serverWrite (s : Session) (clientFd : ClientFd) : Option Session :=
  match clientFd with
  | .failed => none
  | .own =>
      if s.fifo.reader then some { s with
        fifo := s.fifo.push (intBytes s.seqNum)
        responses := s.responses ++ [s.seqNum]
        server := .close .own }
      else none
  | .other => some { s with server := .close .other }

/-- `close(client_fd)`, which lets go of the FIFO in any case, and
`seqNum += req.seqLen`. -/
def serverClose (s : Session) : Session :=
  { s.closeWriter with
    seqNum := int32 (s.seqNum + s.req.seqLen)
    server := .read }

/-- A call of the server that succeeds. -/
def serverNext (pid : Pid) (s : Session) : Option Session :=
  match s.server with
  | .read =>
      match s.serverFifo with
      | [] => none
      | req :: rest => some { s with
          serverFifo := rest
          req := req
          server := .openClient }
  | .openClient => serverOpen pid s
  | .opening =>
      if s.fifo.writerWoken then some { s with server := .write .own }
      else none
  | .write clientFd => serverWrite s clientFd
  | .close clientFd =>
      if clientFd = .failed then none else some (serverClose s)

/-- A call of the server that fails. -/
def serverFails (s : Session) : Session :=
  match s.server with
  | .read => s.serverNotice (text "server get an error request.\n")
  | .openClient | .opening => serverOpenFails s
  | .write clientFd =>
      { s.serverNotice (text "response client failed.\n") with
        server := .close clientFd }
  | .close _ =>
      (serverClose s).serverNotice (text "close client_fd failed.\n")

/-- `printf("%d\n", resp.seqNum)`; the exit removes the FIFO. -/
def clientPrint (s : Session) : Session :=
  { s with
    printed := s.printed ++ [s.resp.bytes.map bytesInt]
    fifo.linked := false
    fifo.reader := false
    client := .returned 0 }

/-- A call of the client that succeeds; the open of the server's FIFO waits
for a server, and that of its own for a writer. -/
def clientNext (pid : Pid) (s : Session) : Option Session :=
  match s.client with
  | .mkfifo => some { s with fifo.linked := true, client := .openServer }
  | .openServer =>
      if s.alive then some { s with serverFd := true, client := .write }
      else none
  | .write =>
      if s.serverFd && s.alive then some { s with
        serverFifo := s.serverFifo ++ [⟨pid, 1⟩]
        client := .openFifo }
      else none
  | .openFifo =>
      some { s with fifo := s.fifo.openReader, client := .opening }
  | .opening =>
      if s.fifo.readerWoken then
        some { s with clientFd := true, client := .read }
      else none
  | .print => some (clientPrint s)
  | .read | .returned _ | .killed => none

/-- A call of the client that fails.  A `write` to a FIFO that nobody reads
ends the client instead. -/
def clientFails (s : Session) : Option Session :=
  match s.client with
  | .mkfifo => some { s.notice (text "client make fifo failed.\n") with
      client := .returned (-1) }
  | .openServer =>
      some { s.notice (text "client open server fifo failed.\n") with
        client := .write }
  | .write =>
      if s.serverFd && !s.alive then none
      else some { s.notice (text "write failed.\n") with
        client := .openFifo }
  | .openFifo | .opening =>
      some { s.notice (text "open client fifo failed.\n") with
        fifo.reader := false
        client := .read }
  | .read => some { s.notice (text "read server response failed.\n") with
      client := .print }
  | .print | .returned _ | .killed => none

/-- `read(client_fd, &resp, sizeof(resp))` returns 0 at the end of the FIFO
and waits while it is empty and has a writer. -/
def clientReads (s : Session) (count : ℕ) : Option Session :=
  if s.client = .read ∧ s.clientFd ∧ count ≤ responseSize ∧
      count ≤ s.fifo.data.length ∧
      (count = 0 → s.fifo.data = [] ∧ s.fifo.writer = false) then
    let t := { s with
      fifo.data := s.fifo.data.drop count
      resp := s.resp.store (s.fifo.data.take count)
      client := .print }
    if count ≠ responseSize then
      some (t.notice (text "read server response failed.\n"))
    else some t
  else none

def next (pid : Pid) (s : Session) : Label → Option Session
  | .request req =>
      if req.pid = pid then none
      else some { s with serverFifo := s.serverFifo ++ [req] }
  | .server ok =>
      if !s.alive then none
      else if ok then serverNext pid s
      else some (serverFails s)
  | .serverDies =>
      if s.alive then some { s.closeWriter with alive := false } else none
  | .client ok => if ok then clientNext pid s else clientFails s
  | .clientReads count => clientReads s count
  | .clientDies =>
      match s.client with
      | .returned _ | .killed => none
      | _ => some { s with fifo.reader := false, client := .killed }

/-- The number printed, if any, is one that the server has written in answer
to the client's request. -/
def Reports (s : Session) : Prop :=
  s.client = .returned 0 → ∃ number ∈ s.responses, s.printed = [some number]

instance (s : Session) : Decidable (Reports s) :=
  inferInstanceAs (Decidable (_ → _))

/-- The client has not come to the end of its `read`. -/
def ClientPc.unread : ClientPc → Bool
  | .mkfifo | .openServer | .write | .openFifo | .opening | .read => true
  | .print | .returned _ | .killed => false

/-- The client's FIFO has only ever held responses to its request, and `resp`
is known only as far as a whole one has been read. -/
structure Inv (s : Session) : Prop where
  seqNum : FitsInt s.seqNum
  responses : ∀ number ∈ s.responses, FitsInt number
  data : s.client.unread = true →
    s.fifo.data = (s.responses.map intBytes).flatten
  fresh : s.client.unread = true → s.resp = Memory.fresh responseSize
  known : ∀ bytes, s.resp.bytes = some bytes →
    ∃ number ∈ s.responses, bytes = intBytes number
  silent : s.client.unread = true ∨ s.client = .print → s.printed = []
  printed : s.client = .returned 0 → s.printed = [s.resp.bytes.map bytesInt]

theorem start_inv (req : Request) : Inv (start req) where
  seqNum := by simp [start, FitsInt]
  responses := by simp [start]
  data _ := rfl
  fresh _ := rfl
  known := by
    intro bytes hbytes
    cases hbytes
  silent _ := rfl
  printed := by simp [start]

/-- No byte has moved. -/
structure Still (s t : Session) : Prop where
  responses : t.responses = s.responses
  data : t.fifo.data = s.fifo.data
  resp : t.resp = s.resp
  printed : t.printed = s.printed

/-- What a step can do to the bytes on their way to the client, by what the
client reads in it. -/
inductive Move (s t : Session) : Option ℕ → Prop
  | elsewhere (hclient : t.client = s.client) (hstill : Still s t)
      (hnumber : FitsInt s.seqNum → FitsInt t.seqNum) : Move s t none
  | answers (ht : t = { s with
        fifo := s.fifo.push (intBytes s.seqNum)
        responses := s.responses ++ [s.seqNum]
        server := .close .own }) : Move s t none
  | proceeds (hunread : s.client.unread = true)
      (hclient : t.client ≠ .returned 0) (hstill : Still s t)
      (hnumber : t.seqNum = s.seqNum) : Move s t none
  | reads {count : ℕ} {notices : List (List Byte)} (hpc : s.client = .read)
      (hsize : count ≤ responseSize) (hlength : count ≤ s.fifo.data.length)
      (ht : t = { s with
        fifo.data := s.fifo.data.drop count
        resp := s.resp.store (s.fifo.data.take count)
        client := .print
        notices := notices }) : Move s t (some count)
  | prints (hpc : s.client = .print) (ht : t = clientPrint s) : Move s t none
  | dies (ht : t = { s with fifo.reader := false, client := .killed }) :
      Move s t none

theorem Session.closeWriter_eq (s : Session) :
    ∃ fifo : Fifo, fifo.data = s.fifo.data ∧
      s.closeWriter = { s with fifo := fifo } := by
  unfold closeWriter
  split
  · exact ⟨s.fifo.closeWriter, rfl, rfl⟩
  · exact ⟨s.fifo.closeWriter, rfl, rfl⟩
  · exact ⟨s.fifo.closeWriter, rfl, rfl⟩
  · exact ⟨s.fifo, rfl, rfl⟩

theorem serverOpen_move {pid : Pid} {s t : Session}
    (h : serverOpen pid s = some t) : Move s t none := by
  simp only [serverOpen] at h
  split at h
  · cases h
    exact .elsewhere rfl ⟨rfl, rfl, rfl, rfl⟩ id
  · obtain ⟨-, rfl⟩ := guarded_eq_some.mp h
    exact .elsewhere rfl ⟨rfl, rfl, rfl, rfl⟩ id

theorem serverOpenFails_move (s : Session) :
    Move s (serverOpenFails s) none := by
  obtain ⟨fifo, hdata, hclose⟩ := s.closeWriter_eq
  simp only [serverOpenFails, hclose]
  exact .elsewhere rfl ⟨rfl, hdata, rfl, rfl⟩ id

theorem serverWrite_move {s t : Session} {clientFd : ClientFd}
    (h : serverWrite s clientFd = some t) : Move s t none := by
  cases clientFd with
  | failed => cases h
  | own =>
      obtain ⟨-, rfl⟩ := guarded_eq_some.mp h
      exact .answers rfl
  | other =>
      cases h
      exact .elsewhere rfl ⟨rfl, rfl, rfl, rfl⟩ id

theorem serverClose_still (s : Session) : Still s (serverClose s) ∧
    (serverClose s).client = s.client ∧ FitsInt (serverClose s).seqNum := by
  obtain ⟨fifo, hdata, hclose⟩ := s.closeWriter_eq
  rw [serverClose, hclose]
  exact ⟨⟨rfl, hdata, rfl, rfl⟩, rfl, int32_fits _⟩

theorem serverNext_move {pid : Pid} {s t : Session}
    (h : serverNext pid s = some t) : Move s t none := by
  unfold serverNext at h
  split at h
  · split at h
    · cases h
    · cases h
      exact .elsewhere rfl ⟨rfl, rfl, rfl, rfl⟩ id
  · exact serverOpen_move h
  · obtain ⟨-, rfl⟩ := guarded_eq_some.mp h
    exact .elsewhere rfl ⟨rfl, rfl, rfl, rfl⟩ id
  · exact serverWrite_move h
  · rw [Option.ite_none_left_eq_some, Option.some.injEq] at h
    obtain ⟨-, rfl⟩ := h
    obtain ⟨hstill, hclient, hnumber⟩ := serverClose_still s
    exact .elsewhere hclient hstill fun _ => hnumber

theorem serverFails_move (s : Session) : Move s (serverFails s) none := by
  unfold serverFails
  split
  · exact .elsewhere rfl ⟨rfl, rfl, rfl, rfl⟩ id
  · exact serverOpenFails_move s
  · exact serverOpenFails_move s
  · exact .elsewhere rfl ⟨rfl, rfl, rfl, rfl⟩ id
  · obtain ⟨⟨hresponses, hdata, hresp, hprinted⟩, hclient, hnumber⟩ :=
      serverClose_still s
    exact .elsewhere hclient ⟨hresponses, hdata, hresp, hprinted⟩
      fun _ => hnumber

theorem clientNext_move {pid : Pid} {s t : Session}
    (h : clientNext pid s = some t) : Move s t none := by
  unfold clientNext at h
  split at h
  · next hpc =>
      cases h
      exact .proceeds (by rw [hpc]; rfl) nofun ⟨rfl, rfl, rfl, rfl⟩ rfl
  · next hpc =>
      obtain ⟨-, rfl⟩ := guarded_eq_some.mp h
      exact .proceeds (by rw [hpc]; rfl) nofun ⟨rfl, rfl, rfl, rfl⟩ rfl
  · next hpc =>
      obtain ⟨-, rfl⟩ := guarded_eq_some.mp h
      exact .proceeds (by rw [hpc]; rfl) nofun ⟨rfl, rfl, rfl, rfl⟩ rfl
  · next hpc =>
      cases h
      exact .proceeds (by rw [hpc]; rfl) nofun ⟨rfl, rfl, rfl, rfl⟩ rfl
  · next hpc =>
      obtain ⟨-, rfl⟩ := guarded_eq_some.mp h
      exact .proceeds (by rw [hpc]; rfl) nofun ⟨rfl, rfl, rfl, rfl⟩ rfl
  · next hpc =>
      cases h
      exact .prints hpc rfl
  all_goals cases h

theorem clientFails_move {s t : Session} (h : clientFails s = some t) :
    Move s t none := by
  unfold clientFails at h
  split at h
  · next hpc =>
      cases h
      exact .proceeds (by rw [hpc]; rfl) nofun ⟨rfl, rfl, rfl, rfl⟩ rfl
  · next hpc =>
      cases h
      exact .proceeds (by rw [hpc]; rfl) nofun ⟨rfl, rfl, rfl, rfl⟩ rfl
  · next hpc =>
      rw [Option.ite_none_left_eq_some, Option.some.injEq] at h
      obtain ⟨-, rfl⟩ := h
      exact .proceeds (by rw [hpc]; rfl) nofun ⟨rfl, rfl, rfl, rfl⟩ rfl
  · next hpc =>
      cases h
      exact .proceeds (by rw [hpc]; rfl) nofun ⟨rfl, rfl, rfl, rfl⟩ rfl
  · next hpc =>
      cases h
      exact .proceeds (by rw [hpc]; rfl) nofun ⟨rfl, rfl, rfl, rfl⟩ rfl
  · next hpc =>
      cases h
      exact .proceeds (by rw [hpc]; rfl) nofun ⟨rfl, rfl, rfl, rfl⟩ rfl
  all_goals cases h

theorem clientReads_move {s t : Session} {count : ℕ}
    (h : clientReads s count = some t) : Move s t (some count) := by
  obtain ⟨⟨hpc, -, hsize, hlength, -⟩, h⟩ :=
    Option.ite_none_right_eq_some.mp h
  split at h
  · cases h
    exact .reads hpc hsize hlength rfl
  · cases h
    exact .reads hpc hsize hlength rfl

/-- How many bytes the client reads in the step. -/
def Label.read : Label → Option ℕ
  | .clientReads count => some count
  | _ => none

theorem next_move {pid : Pid} {s t : Session} {label : Label}
    (h : next pid s label = some t) : Move s t label.read := by
  cases label with
  | request req =>
      rw [next, Option.ite_none_left_eq_some, Option.some.injEq] at h
      obtain ⟨-, rfl⟩ := h
      exact .elsewhere rfl ⟨rfl, rfl, rfl, rfl⟩ id
  | server ok =>
      rw [next, Option.ite_none_left_eq_some] at h
      obtain ⟨-, h⟩ := h
      cases ok with
      | true => exact serverNext_move h
      | false =>
          cases h
          exact serverFails_move s
  | serverDies =>
      obtain ⟨-, rfl⟩ := guarded_eq_some.mp h
      obtain ⟨fifo, hdata, hclose⟩ := s.closeWriter_eq
      simp only [hclose]
      exact .elsewhere rfl ⟨rfl, hdata, rfl, rfl⟩ id
  | client ok =>
      cases ok with
      | true => exact clientNext_move h
      | false => exact clientFails_move h
  | clientReads count => exact clientReads_move h
  | clientDies =>
      simp only [next] at h
      split at h
      · cases h
      · cases h
      · cases h
        exact .dies rfl

/-- After a `read` the content of `resp` is known if it was a whole one. -/
theorem Inv.bytes_store {s : Session} {count : ℕ} (hs : Inv s)
    (hpc : s.client = .read) (hsize : count ≤ responseSize)
    (hlength : count ≤ s.fifo.data.length) :
    (s.resp.store (s.fifo.data.take count)).bytes =
      if count = responseSize then some (s.fifo.data.take responseSize)
      else none := by
  have htake : (s.fifo.data.take count).length = count := by
    rw [List.length_take, Nat.min_eq_left hlength]
  rw [hs.fresh (by rw [hpc]; rfl),
    Memory.bytes_store_fresh (htake.symm ▸ hsize), htake]
  split
  · next hwhole => rw [hwhole]
  · rfl

/-- The first bytes of the FIFO, as many as a response has, are one. -/
theorem take_responses {responses : List Int}
    (h : responseSize ≤ ((responses.map intBytes).flatten).length) :
    ∃ number ∈ responses,
      (responses.map intBytes).flatten.take responseSize =
        intBytes number := by
  cases responses with
  | nil => simp [responseSize] at h
  | cons number rest =>
      refine ⟨number, List.mem_cons_self, ?_⟩
      rw [List.map_cons, List.flatten_cons]
      exact List.take_left' (intBytes_length number)

theorem Move.inv {s t : Session} {read : Option ℕ} (h : Move s t read)
    (hs : Inv s) : Inv t := by
  cases h with
  | elsewhere hclient hstill hnumber =>
      obtain ⟨hresponses, hdata, hresp, hprinted⟩ := hstill
      constructor
      · exact hnumber hs.seqNum
      all_goals simp only [hclient, hresponses, hdata, hresp, hprinted]
      · exact hs.responses
      · exact hs.data
      · exact hs.fresh
      · exact hs.known
      · exact hs.silent
      · exact hs.printed
  | answers ht =>
      subst ht
      refine ⟨hs.seqNum, forall_mem_concat hs.responses hs.seqNum, ?_,
        hs.fresh, ?_, hs.silent, hs.printed⟩
      · intro hunread
        simp [Fifo.push, hs.data hunread]
      · intro bytes hbytes
        obtain ⟨number, hnumber, heq⟩ := hs.known bytes hbytes
        exact ⟨number, List.mem_append_left _ hnumber, heq⟩
  | proceeds hunread hclient hstill hnumber =>
      obtain ⟨hresponses, hdata, hresp, hprinted⟩ := hstill
      constructor
      · exact hnumber ▸ hs.seqNum
      all_goals simp only [hresponses, hdata, hresp, hprinted]
      · exact hs.responses
      · exact fun _ => hs.data hunread
      · exact fun _ => hs.fresh hunread
      · exact hs.known
      · exact fun _ => hs.silent (Or.inl hunread)
      · exact fun hreturned => absurd hreturned hclient
  | reads hpc hsize hlength ht =>
      subst ht
      have hunread : s.client.unread = true := by rw [hpc]; rfl
      refine ⟨hs.seqNum, hs.responses, nofun, nofun, ?_,
        fun _ => hs.silent (Or.inl hunread), nofun⟩
      intro bytes hknown
      rw [hs.bytes_store hpc hsize hlength, Option.ite_none_right_eq_some,
        Option.some.injEq] at hknown
      obtain ⟨hwhole, rfl⟩ := hknown
      rw [hs.data hunread] at hlength ⊢
      exact take_responses (hwhole ▸ hlength)
  | prints hpc ht =>
      subst ht
      refine ⟨hs.seqNum, hs.responses, nofun, nofun, hs.known, ?_, ?_⟩
      · rintro (h | h)
        · cases h
        · cases h
      · intro _
        simp only [clientPrint, hs.silent (Or.inr hpc), List.nil_append]
  | dies ht =>
      subst ht
      refine ⟨hs.seqNum, hs.responses, nofun, nofun, hs.known, ?_, nofun⟩
      rintro (h | h)
      · cases h
      · cases h

theorem next_inv (pid : Pid) (s : Session) (label : Label) (t : Session)
    (hs : Inv s) (h : next pid s label = some t) : Inv t :=
  (next_move h).inv hs

/-- Only a `read` of a whole response makes `resp` known. -/
theorem next_known (pid : Pid) (s : Session) (label : Label) (t : Session)
    (hs : Inv s) (h : next pid s label = some t) :
    t.resp.bytes ≠ none ↔
      s.resp.bytes ≠ none ∨ label = .clientReads responseSize := by
  have hmove := next_move h
  cases label with
  | clientReads count =>
      cases hmove with
      | reads hpc hsize hlength ht =>
          have hfresh : s.resp.bytes = none := by
            rw [hs.fresh (by rw [hpc]; rfl)]
            rfl
          subst ht
          simp [hs.bytes_store hpc hsize hlength, hfresh]
  | _ =>
      have hresp : t.resp = s.resp := by
        cases hmove with
        | elsewhere _ hstill => exact hstill.resp
        | proceeds _ _ hstill => exact hstill.resp
        | answers ht | dies ht => rw [ht]
        | prints _ ht => rw [ht, clientPrint]
      simp [hresp]

/-- For every pattern of failures: a client that returns 0 has printed the
number of a response to its request exactly if its `read` has brought a whole
response. -/
theorem reports_iff {pid : Pid} {req : Request} {labels : List Label}
    {s : Session} (hrun : exec (next pid) (start req) labels = some s) :
    Reports s ↔
      (s.client = .returned 0 → .clientReads responseSize ∈ labels) := by
  have hs := exec_invariant (next_inv pid) (start_inv req) hrun
  have hknown := exec_iff_exists_label (next_inv pid) (next_known pid)
    (start_inv req) hrun
  have hunknown : (start req).resp.bytes = none := rfl
  simp only [hunknown, ne_eq, not_true_eq_false, false_or, exists_eq_right]
    at hknown
  rw [← hknown]
  refine imp_congr_right fun hreturned => ?_
  rw [hs.printed hreturned]
  cases hbytes : s.resp.bytes with
  | none => simp
  | some bytes =>
      obtain ⟨number, hnumber, rfl⟩ := hs.known bytes hbytes
      obtain ⟨hlow, hhigh⟩ := hs.responses number hnumber
      have hvalue := bytesInt_intBytes hlow hhigh []
      rw [List.append_nil] at hvalue
      refine iff_of_true ⟨number, hnumber, ?_⟩ (by simp)
      rw [Option.map_some, hvalue]

/-- Every call succeeds. -/
def answered : List Label :=
  [.client true, .client true, .client true, .server true, .server true,
    .client true, .client true, .server true, .server true,
    .clientReads 4, .client true]

theorem reports_answered :
    ∃ s, exec (next 7) (start ⟨0, 0⟩) answered = some s ∧
      s.client = .returned 0 ∧ s.printed = [some 0] ∧ Reports s := by
  have hrun : exec (next 7) (start ⟨0, 0⟩) answered = some _ := rfl
  exact ⟨_, hrun, rfl, rfl, (reports_iff hrun).mpr (by decide)⟩

/-- The server dies between its open of the client's FIFO and its `write`. -/
def abandoned : List Label :=
  [.client true, .client true, .client true, .server true, .server true,
    .client true, .client true, .server true, .serverDies,
    .clientReads 0, .client true]

/-- The client returns 0 and prints what nobody has written. -/
theorem not_reports_abandoned :
    ∃ s, exec (next 7) (start ⟨0, 0⟩) abandoned = some s ∧
      s.client = .returned 0 ∧ s.printed = [none] ∧ s.responses = [] ∧
      ¬ Reports s := by
  have hrun : exec (next 7) (start ⟨0, 0⟩) abandoned = some _ := rfl
  exact ⟨_, hrun, rfl, rfl, rfl, by decide⟩

end PipeClient

end MyFreeLib
