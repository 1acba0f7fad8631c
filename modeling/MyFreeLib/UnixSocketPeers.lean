/-
The addresses that the two servers print.  `addr_len` is set before the loop
and never again, so each call has as much room for an address as the one
before had an address, and what does not fit is left of earlier peers.
-/
import MyFreeLib.LabelledRun
import MyFreeLib.Memory

namespace MyFreeLib

namespace UnixSocket

/-- `sizeof(struct sockaddr_un)`: two bytes of `sun_family`, and `sun_path`. -/
def sockaddrSize : ℕ := 110

def sunPathOffset : ℕ := 2

/-- `AF_UNIX`, as it stands in `sun_family`. -/
def afUnix : List Byte := [1, 0]

/-- A path that a socket can be bound to; one that fills `sun_path` has no
room for its zero there. -/
@[ext] structure BoundPath where
  bytes : List Byte
  nonempty : bytes ≠ []
  noZero : 0 ∉ bytes
  fits : bytes.length ≤ sockaddrSize - sunPathOffset
deriving Repr

instance : DecidableEq BoundPath := fun _ _ =>
  decidable_of_iff _ BoundPath.ext_iff.symm

inductive Peer
  | unnamed
  | bound (path : BoundPath)
deriving DecidableEq, Repr

def Peer.path : Peer → List Byte
  | .unnamed => []
  | .bound path => path.bytes

/-- The address of a peer, the zero behind its path included; for an unnamed
one that depends on the call. -/
def Peer.address (unnamed : List Byte) : Peer → List Byte
  | .unnamed => unnamed
  | .bound path => afUnix ++ (path.bytes ++ [0])

/-- The locals that the loop keeps; `printed` shows what it has printed for
`csaddr.sun_path`. -/
structure Server where
  csaddr : Memory
  addrLen : ℕ
  running : Bool
  printed : List (Option (List Byte))
deriving DecidableEq, Repr

def Server.start : Server where
  csaddr := Memory.fresh sockaddrSize
  addrLen := sockaddrSize
  running := true
  printed := []

/-- What `accept` and `recvfrom` do with the address of a peer: as much of it
as `addr_len` says is copied, and `addr_len` is set to its length.  A byte
behind `csaddr` is no part of it. -/
def Server.receive (address : List Byte) (s : Server) : Server :=
  { s with
    csaddr := (s.csaddr.store (address.take s.addrLen)).take sockaddrSize
    addrLen := address.length }

/-- `printf` with `csaddr.sun_path` for a `%s`. -/
def Server.print (s : Server) : Server :=
  { s with printed :=
      s.printed ++ [Memory.cString (s.csaddr.drop sunPathOffset)] }

/-- The loop that the two servers share; without a peer the call has failed,
and the loop ends. -/
def serverLoop (unnamed : List Byte) (s : Server) (arrival : Option Peer) :
    Option Server :=
  if s.running then
    match arrival with
    | none => some { s with running := false }
    | some peer => some (s.receive (peer.address unnamed)).print
  else none

/-- `accept` reports the family of an unnamed peer. -/
def strServerDemo : Server → Option Peer → Option Server := serverLoop afUnix

/-- `recvfrom` reports no byte for an unnamed peer. -/
def dataServerDemo : Server → Option Peer → Option Server := serverLoop []

/-- What is printed for a peer is its own path. -/
def PrintsOwn (_ : Server) (arrival : Option Peer) (t : Server) : Prop :=
  ∀ peer, arrival = some peer → t.printed.getLast? = some (some peer.path)

/-- The path of the peer fits into `sun_path` with its zero, and what of them
is not copied stands there already. -/
def Covered (unnamed : List Byte) (s : Server) (peer : Peer) : Prop :=
  let copied := min s.addrLen (peer.address unnamed).length
  (peer.path ++ [0]).length ≤ sockaddrSize - sunPathOffset ∧
    ((peer.path ++ [0]).drop (copied - sunPathOffset)).map some <+:
      s.csaddr.drop (max sunPathOffset copied)

/-- Every peer that arrives is covered. -/
def Covers (unnamed : List Byte) (s : Server) (arrival : Option Peer)
    (_ : Server) : Prop :=
  ∀ peer, arrival = some peer → Covered unnamed s peer

theorem Peer.noZero (peer : Peer) : 0 ∉ peer.path := by
  cases peer with
  | unnamed => exact List.not_mem_nil
  | bound path => exact path.noZero

/-- Behind the family there is only the path and its zero. -/
theorem Peer.address_drop {unnamed : List Byte}
    (h : unnamed.length ≤ sunPathOffset) (peer : Peer) (room : ℕ) :
    ((peer.address unnamed).take room).drop sunPathOffset =
      (peer.path ++ [0]).take
        (((peer.address unnamed).take room).length - sunPathOffset) := by
  cases peer with
  | unnamed =>
      have hlength : (unnamed.take room).length ≤ sunPathOffset :=
        (List.length_take_le' room unnamed).trans h
      rw [address, List.drop_eq_nil_of_le hlength,
        Nat.sub_eq_zero_of_le hlength, List.take_zero]
  | bound path =>
      have hbody : (address unnamed (.bound path)).drop sunPathOffset =
          path.bytes ++ [0] := List.drop_left' rfl
      have hlength : (address unnamed (.bound path)).length =
          sunPathOffset + (path.bytes ++ [0]).length := List.length_append
      rw [List.drop_take, hbody, Peer.path, List.take_eq_take_iff,
        List.length_take, hlength]
      omega

/-- One arrival: the path printed is the peer's own exactly if the peer is
covered. -/
theorem Server.prints_iff {unnamed : List Byte}
    (h : unnamed.length ≤ sunPathOffset) (s : Server) (peer : Peer) :
    (s.receive (peer.address unnamed)).print.printed.getLast? =
        some (some peer.path) ↔ Covered unnamed s peer := by
  have hlength : ((peer.address unnamed).take s.addrLen).length =
      min s.addrLen (peer.address unnamed).length := List.length_take
  have hstore := Memory.prefix_store_drop s.csaddr
    (peer.address_drop h s.addrLen)
  rw [hlength] at hstore
  simp only [print, receive, List.getLast?_concat, Option.some.injEq,
    Memory.cString_eq_some, List.drop_take, List.prefix_take_iff,
    List.length_map, Covered]
  rw [hstore]
  constructor
  · rintro ⟨-, hrest, hfits⟩
    exact ⟨hfits, hrest⟩
  · rintro ⟨hfits, hrest⟩
    exact ⟨peer.noZero, hrest, hfits⟩

theorem serverLoop_iff {unnamed : List Byte}
    (h : unnamed.length ≤ sunPathOffset) {s t : Server}
    {arrival : Option Peer} (hstep : serverLoop unnamed s arrival = some t) :
    PrintsOwn s arrival t ↔ Covers unnamed s arrival t := by
  obtain ⟨-, hstep⟩ := Option.ite_none_right_eq_some.mp hstep
  cases arrival with
  | none => exact iff_of_true nofun nofun
  | some peer =>
      cases hstep
      simp only [PrintsOwn, Covers, Option.some.injEq, forall_eq']
      exact s.prints_iff h peer

theorem serverLoop_prints_iff {unnamed : List Byte}
    (h : unnamed.length ≤ sunPathOffset) (arrivals : List (Option Peer)) :
    EachStep (serverLoop unnamed) PrintsOwn Server.start arrivals ↔
      EachStep (serverLoop unnamed) (Covers unnamed) Server.start
        arrivals := by
  refine eachStep_congr (fun _ _ _ (_ : True) _ _ => trivial) ?_ trivial
    arrivals
  intro s arrival t _ hstep
  exact serverLoop_iff h hstep

/-- For every sequence of peers each server prints all of them by their own
paths exactly if every address fits, and what is not copied of it is in
`csaddr` already. -/
theorem prints_own_iff (arrivals : List (Option Peer)) :
    (EachStep strServerDemo PrintsOwn Server.start arrivals ↔
      EachStep strServerDemo (Covers afUnix) Server.start arrivals) ∧
    (EachStep dataServerDemo PrintsOwn Server.start arrivals ↔
      EachStep dataServerDemo (Covers []) Server.start arrivals) :=
  ⟨serverLoop_prints_iff (by decide) arrivals,
    serverLoop_prints_iff (by decide) arrivals⟩

/-- There is room for an address no longer than that of the peer before. -/
theorem covered_of_length_le {unnamed : List Byte} {s : Server}
    {path : BoundPath} (hroom : path.bytes.length + 3 ≤ s.addrLen)
    (hfits : path.bytes.length + 3 ≤ sockaddrSize) :
    Covered unnamed s (.bound path) := by
  have hlength : (Peer.address unnamed (.bound path)).length =
      path.bytes.length + 3 := by
    simp [Peer.address, afUnix]
  have hcopied : (path.bytes ++ [0]).length ≤
      min s.addrLen (path.bytes.length + 3) - sunPathOffset := by
    simp only [List.length_append, List.length_singleton, sunPathOffset]
    omega
  refine ⟨?_, ?_⟩
  · simp only [Peer.path, List.length_append, List.length_singleton,
      sunPathOffset]
    omega
  · rw [hlength, Peer.path, List.drop_eq_nil_of_le hcopied]
    exact List.nil_prefix

/-- Up to the first failure every peer is bound, to a path of at most `room`
bytes and none longer than the one before it. -/
def Shrinking : ℕ → List (Option Peer) → Prop
  | _, [] | _, none :: _ => True
  | _, some .unnamed :: _ => False
  | room, some (.bound path) :: rest =>
      path.bytes.length ≤ room ∧ Shrinking path.bytes.length rest

/-- Nothing arrives after a failure. -/
theorem eachStep_stopped {unnamed : List Byte}
    {P : Server → Option Peer → Server → Prop} {s : Server}
    (hs : s.running = false) (arrivals : List (Option Peer)) :
    EachStep (serverLoop unnamed) P s arrivals := by
  cases arrivals with
  | nil => trivial
  | cons arrival rest =>
      intro t hstep
      simp [serverLoop, hs] at hstep

theorem Shrinking.covers {unnamed : List Byte} {room : ℕ} {s : Server}
    {arrivals : List (Option Peer)} (h : Shrinking room arrivals)
    (hroom : room + 3 ≤ s.addrLen) (hfits : room + 3 ≤ sockaddrSize) :
    EachStep (serverLoop unnamed) (Covers unnamed) s arrivals := by
  induction arrivals generalizing room s with
  | nil => trivial
  | cons arrival rest ih =>
      intro t hstep
      obtain ⟨-, hstep⟩ := Option.ite_none_right_eq_some.mp hstep
      match arrival with
      | none =>
          cases hstep
          exact ⟨nofun, eachStep_stopped rfl rest⟩
      | some .unnamed => exact absurd h id
      | some (.bound path) =>
          cases hstep
          obtain ⟨hpath, hrest⟩ := h
          refine ⟨?_, ih hrest ?_ (by omega)⟩
          · rintro peer hpeer
            obtain rfl := Option.some.inj hpeer
            exact covered_of_length_le (by omega) (by omega)
          · simp [Server.print, Server.receive, Peer.address, afUnix]

/-- Both servers print all peers by their own paths if the first path has at
most 107 bytes and none is longer than the one before it. -/
theorem prints_own_of_shrinking {arrivals : List (Option Peer)}
    (h : Shrinking 107 arrivals) :
    EachStep strServerDemo PrintsOwn Server.start arrivals ∧
      EachStep dataServerDemo PrintsOwn Server.start arrivals :=
  ⟨(serverLoop_prints_iff (by decide) arrivals).mpr
      (h.covers le_rfl le_rfl),
    (serverLoop_prints_iff (by decide) arrivals).mpr
      (h.covers le_rfl le_rfl)⟩

def pathA : BoundPath := ⟨text "/tmp/a", by decide, by decide, by decide⟩

def pathBcd : BoundPath :=
  ⟨text "/tmp/bcd", by decide, by decide, by decide⟩

/-- The second path is longer than the first by two bytes. -/
theorem not_prints_longer :
    (¬ EachStep strServerDemo PrintsOwn Server.start
        [some (.bound pathA), some (.bound pathBcd)]) ∧
      ¬ EachStep dataServerDemo PrintsOwn Server.start
        [some (.bound pathA), some (.bound pathBcd)] := by
  constructor
  · intro h
    have hlast := ((h _ rfl).2 _ rfl).1 _ rfl
    revert hlast
    decide
  · intro h
    have hlast := ((h _ rfl).2 _ rfl).1 _ rfl
    revert hlast
    decide

end UnixSocket

end MyFreeLib
