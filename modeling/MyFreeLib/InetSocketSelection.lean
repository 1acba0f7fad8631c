/-
How the UDP demos get their socket: both go through the addresses that
`getaddrinfo` found, until one can be opened and bound, or connected.
-/
import MyFreeLib.ByteBuffer
import MyFreeLib.Descriptors

namespace MyFreeLib

namespace InetSocket

/-- `struct addrinfo`; `addr` has `ai_addrlen` bytes. -/
structure AddrInfo where
  family : ℤ
  socktype : ℤ
  protocol : ℤ
  addr : List Byte
deriving DecidableEq, Repr

/-- An entry of the list, and whether `socket` and the call after it, `bind` or
`connect`, succeed on it. -/
structure Attempt where
  info : AddrInfo
  opens : Bool
  attaches : Bool
deriving DecidableEq, Repr

structure Socket where
  family : ℤ
  socktype : ℤ
  protocol : ℤ
  boundTo : Option (List Byte)
  connectedTo : Option (List Byte)
deriving DecidableEq, Repr

/-- What a descriptor refers to. -/
inductive File
  | socket (s : Socket)
  | other
deriving DecidableEq, Repr

def AddrInfo.socket (info : AddrInfo) : Socket :=
  ⟨info.family, info.socktype, info.protocol, none, none⟩

def socket (table : Descriptors File) (attempt : Attempt) :
    ℤ × Descriptors File :=
  if attempt.opens then
    (table.lowestFree, table.openFile (.socket attempt.info.socket))
  else (-1, table)

/-- A call that gives a socket an address. -/
def attach (give : List Byte → Socket → Socket) (table : Descriptors File)
    (sfd : ℤ) (attempt : Attempt) : ℤ × Descriptors File :=
  match table.get sfd.toNat with
  | some (.socket s) =>
      if attempt.attaches then
        (0, table.update sfd.toNat
          (some (.socket (give attempt.info.addr s))))
      else (-1, table)
  | _ => (-1, table)

def Socket.bind (addr : List Byte) (s : Socket) : Socket :=
  { s with boundTo := some addr }

def Socket.connect (addr : List Byte) (s : Socket) : Socket :=
  { s with connectedTo := some addr }

/-- The end of a loop: `rp` with the rest of the list, and `sfd`. -/
structure Selection where
  rp : List Attempt
  sfd : ℤ
  table : Descriptors File
deriving DecidableEq, Repr

/-- `for (rp = result; rp != NULL; rp = rp->ai_next)` -/
def selectLoop (give : List Byte → Socket → Socket) (success : ℤ → Bool)
    (table : Descriptors File) (sfd : ℤ) : List Attempt → Selection
  | [] => ⟨[], sfd, table⟩
  | attempt :: rest =>
      let (sfd, table) := socket table attempt
      if sfd = -1 then selectLoop give success table sfd rest
      else
        let (result, table) := attach give table sfd attempt
        if success result then ⟨attempt :: rest, sfd, table⟩
        else selectLoop give success (table.close sfd.toNat) sfd rest

/-- The loop of `data_server_demo`. -/
def bindLoop : Descriptors File → ℤ → List Attempt → Selection :=
  selectLoop Socket.bind fun result => result == 0

/-- The loop of `data_client_demo`. -/
def connectLoop : Descriptors File → ℤ → List Attempt → Selection :=
  selectLoop Socket.connect fun result => result != -1

/-- How a function gives up. -/
inductive Failure
  | returned (code : ℤ)
  | exited (status : ℤ)
deriving DecidableEq, Repr

/-- A function enters its transfer loop, or fails with a message. -/
inductive Outcome
  | transfers (sfd : ℤ) (table : Descriptors File)
  | fails (message : List Byte) (failure : Failure) (table : Descriptors File)
deriving DecidableEq, Repr

/-- The test of `rp` after the loop. -/
def Selection.outcome (selection : Selection) (message : List Byte)
    (failure : Failure) : Outcome :=
  match selection.rp with
  | [] => .fails message failure selection.table
  | _ :: _ => .transfers selection.sfd selection.table

/-- `data_server_demo` from its list of addresses to its transfer loop; `sfd`
is not initialised. -/
def dataServerDemo (table : Descriptors File) (sfd : ℤ)
    (result : List Attempt) : Outcome :=
  (bindLoop table sfd result).outcome (text "Could not bind\n")
    (.returned (-1))

/-- `data_client_demo` from its list of addresses to its transfer loop. -/
def dataClientDemo (table : Descriptors File) (sfd : ℤ)
    (result : List Attempt) : Outcome :=
  (connectLoop table sfd result).outcome (text "Could not connect\n")
    (.exited 1)

/-! ### The rule -/

/-- Both calls succeed. -/
def Attempt.succeeds (attempt : Attempt) : Bool :=
  attempt.opens && attempt.attaches

/-- The function transfers through a new socket on the first address on which
both calls succeed, or there is none and it fails; no other descriptor has
changed. -/
def Selects (give : List Byte → Socket → Socket) (table : Descriptors File)
    (result : List Attempt) : Outcome → Prop
  | .transfers sfd after => ∃ attempt, ∃ fd : ℕ,
      result.find? Attempt.succeeds = some attempt ∧ sfd = fd ∧
        table.get fd = none ∧
        after.get fd =
          some (.socket (give attempt.info.addr attempt.info.socket)) ∧
        ∀ n, n ≠ fd → after.get n = table.get n
  | .fails _ _ after =>
      result.find? Attempt.succeeds = none ∧
        ∀ n, after.get n = table.get n

/-- `Selects` looks at the first success and at what is open only. -/
theorem Selects.congr {give : List Byte → Socket → Socket}
    {table before : Descriptors File} {rest result : List Attempt}
    {outcome : Outcome} (h : Selects give before rest outcome)
    (hfind : result.find? Attempt.succeeds = rest.find? Attempt.succeeds)
    (hsame : ∀ n, before.get n = table.get n) :
    Selects give table result outcome := by
  cases outcome with
  | transfers sfd after =>
      obtain ⟨attempt, fd, hfound, hsfd, hfree, hopen, hothers⟩ := h
      refine ⟨attempt, fd, hfind.trans hfound, hsfd, ?_, hopen, ?_⟩
      · rw [← hsame, hfree]
      · intro n hn
        rw [hothers n hn, hsame]
  | fails message failure after =>
      obtain ⟨hnone, hothers⟩ := h
      refine ⟨hfind.trans hnone, fun n => ?_⟩
      rw [hothers, hsame]

/-! ### One entry -/

/-- `sfd` and the table when the loop goes on after an entry. -/
def skip (table : Descriptors File) (attempt : Attempt) :
    ℤ × Descriptors File :=
  if attempt.opens then
    (table.lowestFree, (table.openFile
      (.socket attempt.info.socket)).close table.lowestFree)
  else (-1, table)

/-- The table when the loop breaks at an entry. -/
def keep (give : List Byte → Socket → Socket) (table : Descriptors File)
    (attempt : Attempt) : Descriptors File :=
  (table.openFile (.socket attempt.info.socket)).update table.lowestFree
    (some (.socket (give attempt.info.addr attempt.info.socket)))

section Loop

variable {give : List Byte → Socket → Socket} {success : ℤ → Bool}

end Loop

end InetSocket

end MyFreeLib
