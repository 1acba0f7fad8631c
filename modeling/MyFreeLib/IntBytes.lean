/-
Integers in memory: little-endian bytes, and the signed 32-bit `int` read from
the first four of them.
-/
import MyFreeLib.ByteBuffer
import Mathlib.Algebra.Order.Group.Nat
import Mathlib.Data.Nat.Init
import Mathlib.Tactic.Ring

namespace MyFreeLib

/-- Process and queue ids are written as numbers. -/
instance neZero_two_pow_31 : NeZero (2 ^ 31) := ⟨by norm_num⟩

/-- `width` bytes of a number, the lowest first. -/
def leBytes : ℕ → ℕ → List Byte
  | 0, _ => []
  | width + 1, n => UInt8.ofNat n :: leBytes width (n / 256)

/-- The number that bytes stand for. -/
def leNat : List Byte → ℕ
  | [] => 0
  | byte :: rest => byte.toNat + 256 * leNat rest

@[simp] theorem leBytes_length (width n : ℕ) :
    (leBytes width n).length = width := by
  induction width generalizing n with
  | zero => rfl
  | succ width ih => rw [leBytes, List.length_cons, ih]

theorem leNat_leBytes (width n : ℕ) :
    leNat (leBytes width n) = n % 256 ^ width := by
  induction width generalizing n with
  | zero => simp [leBytes, leNat, Nat.mod_one]
  | succ width ih =>
      have hbyte : (UInt8.ofNat n).toNat = n % 256 := by simp
      rw [leBytes, leNat, ih, hbyte, pow_succ', Nat.mod_mul]

theorem leNat_lt (bytes : List Byte) : leNat bytes < 256 ^ bytes.length := by
  induction bytes with
  | nil => simp [leNat]
  | cons byte rest ih =>
      have hbyte : byte.toNat < 256 := byte.toNat_lt
      rw [leNat, List.length_cons, pow_succ]
      omega

theorem leNat_injective {a b : List Byte} (hlength : a.length = b.length)
    (h : leNat a = leNat b) : a = b := by
  induction a generalizing b with
  | nil => exact (List.length_eq_zero_iff.mp hlength.symm).symm
  | cons x xs ih =>
      cases b with
      | nil => simp at hlength
      | cons y ys =>
          have hx : x.toNat < 256 := x.toNat_lt
          have hy : y.toNat < 256 := y.toNat_lt
          simp only [leNat] at h
          have hhead : x = y := UInt8.toNat_inj.mp (by omega)
          have htail : xs = ys := ih (by simpa using hlength) (by omega)
          rw [hhead, htail]

/-- The `int` that an arithmetic result wraps to. -/
def int32 (x : Int) : Int := (x + 2 ^ 31) % 2 ^ 32 - 2 ^ 31

theorem int32_add (x y : Int) : int32 (int32 x + y) = int32 (x + y) := by
  simp only [int32]
  omega

theorem int32_of_lt {n : ℕ} (h : n < 2 ^ 31) : int32 n = n := by
  simp only [int32]
  omega

/-- The `ssize_t` that an arithmetic result wraps to. -/
def int64 (x : Int) : Int := (x + 2 ^ 63) % 2 ^ 64 - 2 ^ 63

theorem int64_add (x y : Int) : int64 (int64 x + y) = int64 (x + y) := by
  simp only [int64]
  omega

theorem int64_of_lt {n : ℕ} (h : n < 2 ^ 63) : int64 n = n := by
  simp only [int64]
  omega

/-- The bytes of an `int`. -/
def intBytes (x : Int) : List Byte := leBytes 4 (x % 2 ^ 32).toNat

/-- The `int` at an address. -/
def bytesInt (memory : List Byte) : Int :=
  let n := leNat (memory.take 4)
  if n < 2 ^ 31 then n else n - 2 ^ 32

@[simp] theorem intBytes_length (x : Int) : (intBytes x).length = 4 :=
  leBytes_length 4 _

theorem bytesInt_intBytes {x : Int} (hlow : -2 ^ 31 ≤ x) (hhigh : x < 2 ^ 31)
    (rest : List Byte) : bytesInt (intBytes x ++ rest) = x := by
  have htake : (intBytes x ++ rest).take 4 = intBytes x :=
    List.take_left' (intBytes_length x)
  have hnat : leNat (intBytes x) = (x % 2 ^ 32).toNat % 256 ^ 4 :=
    leNat_leBytes 4 _
  simp only [bytesInt, htake, hnat]
  split <;> omega

/-- Different bytes make different numbers. -/
theorem bytesInt_injective {a b : List Byte} (ha : 4 ≤ a.length)
    (hb : 4 ≤ b.length) (h : bytesInt a = bytesInt b) :
    a.take 4 = b.take 4 := by
  have hla : (a.take 4).length = 4 := by rw [List.length_take]; omega
  have hlb : (b.take 4).length = 4 := by rw [List.length_take]; omega
  have hlta := leNat_lt (a.take 4)
  have hltb := leNat_lt (b.take 4)
  rw [hla] at hlta
  rw [hlb] at hltb
  apply leNat_injective (hla.trans hlb.symm)
  simp only [bytesInt] at h
  split at h <;> split at h <;> omega

end MyFreeLib
