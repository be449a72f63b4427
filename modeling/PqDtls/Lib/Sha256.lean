import PqDtls.Lib.BlockHash
import Mathlib.Tactic.Ring

/-! # SHA-256

    The function of the standard: its constants by what they are, the message schedule as
    the recurrence it is, the padding, and the hash of a whole message. -/

namespace PqDtls

namespace Sha256

open BlockHash (blocks)

abbrev Word := BitVec 32

/-! ## Constants -/

/-- The largest number below `2 ^ bits` above `r` whose `k`th power is at most `x`, bit by bit. -/
def rootFrom (k x : Nat) : Nat → Nat → Nat
  | 0, r => r
  | bits + 1, r =>
      if (r + 2 ^ bits) ^ k ≤ x then rootFrom k x bits (r + 2 ^ bits) else rootFrom k x bits r

/-- The first 32 bits of the fraction of the `k`th root of `p`. -/
def rootFraction (k p : Nat) : Word := BitVec.ofNat 32 (rootFrom k (p * 2 ^ (32 * k)) 40 0)

def primes : List Nat :=
  [2, 3, 5, 7, 11, 13, 17, 19, 23, 29, 31, 37, 41, 43, 47, 53, 59, 61, 67, 71, 73, 79, 83, 89, 97,
    101, 103, 107, 109, 113, 127, 131, 137, 139, 149, 151, 157, 163, 167, 173, 179, 181, 191, 193,
    197, 199, 211, 223, 227, 229, 233, 239, 241, 251, 257, 263, 269, 271, 277, 281, 283, 293, 307,
    311]

/-- `K_t`. -/
def roundConstant (t : Nat) : Word := rootFraction 3 (primes.getD t 0)

/-- The eight words of the hash value, and the working variables. -/
@[ext] structure Words where
  a : Word
  b : Word
  c : Word
  d : Word
  e : Word
  f : Word
  g : Word
  h : Word
deriving DecidableEq

def initial : Words where
  a := rootFraction 2 2
  b := rootFraction 2 3
  c := rootFraction 2 5
  d := rootFraction 2 7
  e := rootFraction 2 11
  f := rootFraction 2 13
  g := rootFraction 2 17
  h := rootFraction 2 19

def Words.add (x y : Words) : Words :=
  ⟨x.a + y.a, x.b + y.b, x.c + y.c, x.d + y.d, x.e + y.e, x.f + y.f, x.g + y.g, x.h + y.h⟩

def Words.toList (x : Words) : List Word := [x.a, x.b, x.c, x.d, x.e, x.f, x.g, x.h]

/-! ## The compression function -/

def choose (x y z : Word) : Word := (x &&& y) ^^^ (~~~x &&& z)

def majority (x y z : Word) : Word := (x &&& y) ^^^ (x &&& z) ^^^ (y &&& z)

/-- `Σ` with its three rotations. -/
def bigSigma (i j k : Nat) (x : Word) : Word :=
  x.rotateRight i ^^^ x.rotateRight j ^^^ x.rotateRight k

/-- `σ` with its two rotations and a shift. -/
def smallSigma (i j k : Nat) (x : Word) : Word :=
  x.rotateRight i ^^^ x.rotateRight j ^^^ (x >>> k)

/-- `W_t`. -/
def schedule (M : Nat → Word) (t : Nat) : Word :=
  if t < 16 then M t
  else
    smallSigma 17 19 10 (schedule M (t - 2)) + schedule M (t - 7) +
      smallSigma 7 18 3 (schedule M (t - 15)) + schedule M (t - 16)
termination_by t
decreasing_by all_goals omega

theorem schedule_first (M : Nat → Word) {t : Nat} (h : t < 16) : schedule M t = M t := by
  rw [schedule, if_pos h]

theorem schedule_next (M : Nat → Word) (t : Nat) : schedule M (t + 16)
    = smallSigma 17 19 10 (schedule M (t + 14)) + schedule M (t + 9) +
      smallSigma 7 18 3 (schedule M (t + 1)) + schedule M t := by
  rw [schedule, if_neg (by omega)]
  rfl

/-- One round, with the constant `k` and the word `w` of the schedule. -/
def round (x : Words) (k w : Word) : Words :=
  let T1 := x.h + bigSigma 6 11 25 x.e + choose x.e x.f x.g + k + w
  let T2 := bigSigma 2 13 22 x.a + majority x.a x.b x.c
  ⟨T1 + T2, x.a, x.b, x.c, x.d + T1, x.e, x.f, x.g⟩

/-- The rounds before `n`. -/
def rounds (M : Nat → Word) (x : Words) (n : Nat) : Words :=
  (List.range n).foldl (fun x t => round x (roundConstant t) (schedule M t)) x

theorem rounds_succ (M : Nat → Word) (x : Words) (n : Nat) :
    rounds M x (n + 1) = round (rounds M x n) (roundConstant n) (schedule M n) := by
  rw [rounds, List.range_succ, List.foldl_append]
  rfl

/-- The four bytes of a word, the most significant one first. -/
def wordOf (b₀ b₁ b₂ b₃ : UInt8) : Word :=
  b₀.toBitVec ++ b₁.toBitVec ++ b₂.toBitVec ++ b₃.toBitVec

/-- Word `t` of a block. -/
def wordAt (block : List UInt8) (t : Nat) : Word :=
  wordOf (block.getD (4 * t) 0) (block.getD (4 * t + 1) 0) (block.getD (4 * t + 2) 0)
    (block.getD (4 * t + 3) 0)

def compress (x : Words) (block : List UInt8) : Words := (rounds (wordAt block) x 64).add x

/-! ## The hash of a message -/

/-- Byte `i` of a word, the most significant one first. -/
def byteAt (w : Word) (i : Nat) : UInt8 := ⟨w.extractLsb' (24 - 8 * i) 8⟩

def wordBytes (w : Word) : List UInt8 := [byteAt w 0, byteAt w 1, byteAt w 2, byteAt w 3]

/-- The length in bits, as 64 bits. -/
def lengthBytes (n : Nat) : List UInt8 :=
  (List.range 8).map fun i => UInt8.ofNat ((8 * n) >>> (56 - 8 * i))

/-- A one, zeros up to the last 64 bits of a block, and the length. -/
def padding (n : Nat) : List UInt8 :=
  0x80 :: List.replicate ((119 - n % 64) % 64) 0 ++ lengthBytes n

/-- The hash of a message of less than `2 ^ 64` bits. -/
def sha256 (msg : List UInt8) : List UInt8 :=
  ((blocks 64 (msg ++ padding msg.length)).foldl compress initial).toList.flatMap wordBytes

end Sha256

end PqDtls
