/-
The System V shared-memory transfer: one writer copies its standard input into
the segment, one reader copies the segment to its standard output, and two
semaphores of inverted polarity hand the buffer over.  Every system call and
every access to the segment is a step of its own, and a signal may arrive
between any two of them.
-/
import MyFreeLib.ByteBuffer
import MyFreeLib.LabelledRun

namespace MyFreeLib

namespace SysvShm

/-- `BUF_SIZE` -/
def bufSize : ℕ := 1024

structure Shmseg where
  cnt : Int
  buf : List Byte
deriving DecidableEq, Repr

/-- A new segment is zero-filled. -/
def Shmseg.zero : Shmseg := ⟨0, List.replicate bufSize 0⟩

/-- The two members of the set, `WRITE_SEM` and `READ_SEM`. -/
inductive SemNum
  | writeSem
  | readSem
deriving DecidableEq, Repr

/-- What `SEM_KEY` stands for: nothing yet, a set with its two values, or a
set that has been removed. -/
inductive SemSet
  | absent
  | live (write read : ℕ)
  | removed
deriving DecidableEq, Repr

/-- One `sem_op` on a value: zero waits for zero, a negative operation waits
until the value does not fall below zero. -/
def semApply (op : Int) (value : ℕ) : Option ℕ :=
  if op = 0 then
    if value = 0 then some value else none
  else if 0 ≤ (value : Int) + op then some ((value : Int) + op).toNat
  else none

/-- `semop` with one `sembuf` and no flags; `none` when it has to wait or the
set is not there. -/
def SemSet.semop : SemSet → SemNum → Int → Option SemSet
  | .live write read, .writeSem, op =>
      (semApply op write).map fun value => .live value read
  | .live write read, .readSem, op =>
      (semApply op read).map fun value => .live write value
  | _, _, _ => none

/-- `semctl(..., IPC_RMID)` -/
def SemSet.remove : SemSet → SemSet
  | .live _ _ => .removed
  | set => set

/-- The calls and segment accesses of the writer's `main`, in source order. -/
inductive WriterPc
  | semget
  | setall
  | shmget
  | shmat
  | waitWrite
  | read
  | checkRead
  | releaseRead
  | setWrite
  | testEnd
  | account
  | waitFinish
  | returned (code : Int)
  | exited (code : Int)
  | crashed
deriving DecidableEq, Repr

/-- The calls and segment accesses of the reader's `main`, in source order. -/
inductive ReaderPc
  | semget
  | shmget
  | shmat
  | waitRead
  | testEnd
  | account
  | write
  | releaseWrite
  | setRead
  | shmdt
  | clearShmp
  | releaseLast
  | bye
  | returned (code : Int)
  | exited (code : Int)
  | crashed
deriving DecidableEq, Repr

/-- `wSemid`, `wShmid`, `wShmp` and `rShmp` say that the global variable holds
something other than `-1`; `wAttached` and `rAttached` that the mapping behind
`shmp` is really there.  `full`, `filled` and `drained` are history: whether a
block is published and not yet released, the blocks stored so far (the end of
file is the empty block) and the blocks written out whole. -/
structure State where
  set : SemSet
  seg : Shmseg
  shmKey : Bool
  wpc : WriterPc
  wSemid : Bool
  wShmid : Bool
  wShmp : Bool
  wAttached : Bool
  consumed : List Byte
  wText : List Byte
  rpc : ReaderPc
  rShmp : Bool
  rAttached : Bool
  written : List Byte
  rText : List Byte
  full : Bool
  filled : List (List Byte)
  drained : List (List Byte)
deriving DecidableEq, Repr

/-- No set, no segment, neither process started. -/
def start : State where
  set := .absent
  seg := .zero
  shmKey := false
  wpc := .semget
  wSemid := false
  wShmid := false
  wShmp := false
  wAttached := false
  consumed := []
  wText := []
  rpc := .semget
  rShmp := false
  rAttached := false
  written := []
  rText := []
  full := false
  filled := []
  drained := []

/-- What the reader's standard output carries once its stdio buffer is
flushed; every `printf` of the reader stands right before its `return`. -/
def State.stdout (s : State) : List Byte := s.written ++ s.rText

/-- What a call answers: it succeeds, it fails, or it moves `count` bytes. -/
inductive Reply
  | ok
  | fail
  | count (count : ℕ)
deriving DecidableEq, Repr

/-- The writer's `sig_handler`; its exit handler `clean` has the same body.
The three globals keep their values. -/
def State.release (s : State) : State :=
  { s with
    set := if s.wSemid then s.set.remove else s.set
    wAttached := if s.wShmp then false else s.wAttached
    shmKey := if s.wShmid then false else s.shmKey }

/-- The reader's `sig_handler` and `clean`. -/
def State.detach (s : State) : State :=
  { s with rAttached := if s.rShmp then false else s.rAttached }

/-- `printf(message); return -1;` in the writer. -/
def State.writerFails (s : State) (message : String) : State :=
  { s with wText := s.wText ++ text message, wpc := .returned (-1) }

/-- `printf(message); return -1;` in the reader. -/
def State.readerFails (s : State) (message : String) : State :=
  { s with rText := s.rText ++ text message, rpc := .returned (-1) }

/-- One step of the writer.  The totals `bytes` and `xfrs` are never read, so
`account` keeps only the access to `shmp->cnt`. -/
def writerNext (stdin : ByteStream) (s : State) : Reply → Option State :=
  fun reply =>
  match s.wpc, reply with
  | .semget, .ok =>
      some { s with set := .live 0 0, wSemid := true, wpc := .setall }
  | .semget, .fail => some (s.writerFails "creat sem fail.\n")
  | .setall, .ok =>
      match s.set with
      | .live _ _ => some { s with set := .live 0 1, wpc := .shmget }
      | _ => none
  | .setall, .fail => some (s.writerFails "init sem fail.\n")
  | .shmget, .ok =>
      some { s with shmKey := true, wShmid := true, wpc := .shmat }
  | .shmget, .fail => some (s.writerFails "creat shm fail.\n")
  | .shmat, .ok =>
      some { s with wShmp := true, wAttached := true, wpc := .waitWrite }
  | .shmat, .fail => some (s.writerFails "shmat fail.\n")
  | .waitWrite, .ok =>
      (s.set.semop .writeSem 0).map fun set => { s with set, wpc := .read }
  | .waitWrite, .fail => some (s.writerFails "wait WRITE_SEM fail.\n")
  | .read, .count count =>
      if !s.wAttached then some { s with wpc := .crashed }
      else if bufSize < count then none
      else (readAt stdin s.consumed.length count).map fun block =>
        { s with
          seg := ⟨count, overlay block s.seg.buf⟩
          consumed := s.consumed ++ block
          filled := s.filled ++ [block]
          wpc := .checkRead }
  | .read, .fail =>
      if !s.wAttached then some { s with wpc := .crashed }
      else some { s with seg := ⟨-1, s.seg.buf⟩, wpc := .checkRead }
  | .checkRead, .ok =>
      if !s.wAttached then some { s with wpc := .crashed }
      else if s.seg.cnt = -1 then some (s.writerFails "read stdin fail.\n")
      else some { s with wpc := .releaseRead }
  | .releaseRead, .ok =>
      (s.set.semop .readSem (-1)).map fun set =>
        { s with set, full := true, wpc := .setWrite }
  | .releaseRead, .fail => some (s.writerFails "release read_sem fail.\n")
  | .setWrite, .ok =>
      (s.set.semop .writeSem 1).map fun set => { s with set, wpc := .testEnd }
  | .setWrite, .fail => some (s.writerFails "set write fail.\n")
  | .testEnd, .ok =>
      if !s.wAttached then some { s with wpc := .crashed }
      else if s.seg.cnt = 0 then some { s with wpc := .waitFinish }
      else some { s with wpc := .account }
  | .account, .ok =>
      if !s.wAttached then some { s with wpc := .crashed }
      else some { s with wpc := .waitWrite }
  | .waitFinish, .ok =>
      (s.set.semop .writeSem 0).map fun set =>
        { s with set, wpc := .returned 0 }
  | .waitFinish, .fail => some (s.writerFails "wait WRITE_SEM fail.\n")
  | .returned code, .ok => some { s.release with wpc := .exited code }
  | _, _ => none

/-- One step of the reader. -/
def readerNext (s : State) : Reply → Option State := fun reply =>
  match s.rpc, reply with
  | .semget, .ok =>
      match s.set with
      | .live _ _ => some { s with rpc := .shmget }
      | _ => none
  | .semget, .fail => some (s.readerFails "get sem fail.\n")
  | .shmget, .ok => if s.shmKey then some { s with rpc := .shmat } else none
  | .shmget, .fail => some (s.readerFails "get shm fail.\n")
  | .shmat, .ok =>
      some { s with rShmp := true, rAttached := true, rpc := .waitRead }
  | .shmat, .fail => some (s.readerFails "shmat fail.\n")
  | .waitRead, .ok =>
      (s.set.semop .readSem 0).map fun set => { s with set, rpc := .testEnd }
  | .waitRead, .fail => some (s.readerFails "wait read fail.\n")
  | .testEnd, .ok =>
      if !s.rAttached then some { s with rpc := .crashed }
      else if s.seg.cnt = 0 then some { s with rpc := .shmdt }
      else some { s with rpc := .account }
  | .account, .ok =>
      if !s.rAttached then some { s with rpc := .crashed }
      else some { s with rpc := .write }
  | .write, .count count =>
      if !s.rAttached then some { s with rpc := .crashed }
      else if s.seg.cnt < count then none
      else
        let out := { s with written := s.written ++ s.seg.buf.take count }
        if (count : Int) = s.seg.cnt then
          some { out with
            drained := s.drained ++ [s.seg.buf.take count]
            rpc := .releaseWrite }
        else some (out.readerFails "write to stdout fail.\n")
  | .write, .fail =>
      if !s.rAttached then some { s with rpc := .crashed }
      else some (s.readerFails "write to stdout fail.\n")
  | .releaseWrite, .ok =>
      (s.set.semop .writeSem (-1)).map fun set =>
        { s with set, full := false, rpc := .setRead }
  | .releaseWrite, .fail => some (s.readerFails "release write fail.\n")
  | .setRead, .ok =>
      (s.set.semop .readSem 1).map fun set => { s with set, rpc := .waitRead }
  | .setRead, .fail => some (s.readerFails "set read fail.\n")
  | .shmdt, .ok =>
      if s.rAttached then some { s with rAttached := false, rpc := .clearShmp }
      else none
  | .shmdt, .fail => some (s.readerFails "shmdt fail.\n")
  | .clearShmp, .ok => some { s with rShmp := false, rpc := .releaseLast }
  | .releaseLast, .ok =>
      (s.set.semop .writeSem (-1)).map fun set =>
        { s with set, full := false, rpc := .bye }
  | .releaseLast, .fail => some (s.readerFails "release write fail.\n")
  | .bye, .ok =>
      some { s with
        rText := s.rText ++ text "reader: bye!"
        rpc := .returned 0 }
  | .returned code, .ok => some { s.detach with rpc := .exited code }
  | _, _ => none

/-- Who moves, and what its call answers; or a signal, handled at once. -/
inductive Label
  | writer (reply : Reply)
  | writerSignal
  | reader (reply : Reply)
  | readerSignal
deriving DecidableEq, Repr

def next (stdin : ByteStream) (s : State) : Label → Option State
  | .writer reply => writerNext stdin s reply
  | .writerSignal =>
      match s.wpc with
      | .exited _ => none
      | .crashed => none
      | _ => some s.release
  | .reader reply => readerNext s reply
  | .readerSignal =>
      match s.rpc with
      | .exited _ => none
      | .crashed => none
      | _ => some s.detach

end SysvShm

end MyFreeLib
