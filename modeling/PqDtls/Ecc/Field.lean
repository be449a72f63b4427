import PqDtls.Lib.Words

/-! # The arithmetic of `ecc.c`

    Numbers are arrays of 32-bit words, least significant first, with their lengths given
    apart.  The reduction modulo the order of the curve follows Barrett, the one modulo the
    prime of the field adds and subtracts rearranged words. -/

namespace PqDtls.Ecc

/-- `arrayLength` -/
def arrayLength : Nat := 8

/-- The loop of `add` with its carry `d`. -/
def addLoop (d : BitVec 64) : List (BitVec 32) → List (BitVec 32) → List (BitVec 32) × BitVec 32
  | x :: xs, y :: ys =>
      let d := d + (x.setWidth 64 + y.setWidth 64)
      let rest := addLoop (d >>> 32) xs ys
      (d.setWidth 32 :: rest.1, rest.2)
  | _, _ => ([], d.setWidth 32)

/-- `add`: the words of the result and the carry. -/
def add (x y : List (BitVec 32)) (length : Nat) : List (BitVec 32) × BitVec 32 :=
  addLoop 0 (x.take length) (y.take length)

/-- The loop of `sub` with its borrow `d`. -/
def subLoop (d : BitVec 64) : List (BitVec 32) → List (BitVec 32) → List (BitVec 32) × BitVec 32
  | x :: xs, y :: ys =>
      let d := x.setWidth 64 - y.setWidth 64 - d
      let rest := subLoop (d >>> 32 &&& 1) xs ys
      ((d &&& 0xFFFFFFFF).setWidth 32 :: rest.1, rest.2)
  | _, _ => ([], d.setWidth 32)

/-- `sub`: the words of the result and the borrow. -/
def sub (x y : List (BitVec 32)) (length : Nat) : List (BitVec 32) × BitVec 32 :=
  subLoop 0 (x.take length) (y.take length)

/-- `rshiftby` -/
def rshiftby (input : List (BitVec 32)) (inSize outSize shift : Nat) : List (BitVec 32) :=
  (List.range outSize).map fun i => if i + shift < inSize then input.getD (i + shift) 0 else 0

def eccPrimeM : List (BitVec 32) :=
  [0xffffffff, 0xffffffff, 0xffffffff, 0x00000000, 0x00000000, 0x00000000, 0x00000001, 0xffffffff]

def eccPrimeR : List (BitVec 32) :=
  [0x00000001, 0x00000000, 0x00000000, 0xffffffff, 0xffffffff, 0xffffffff, 0xfffffffe, 0x00000000]

def eccOrderM : List (BitVec 32) :=
  [0xFC632551, 0xF3B9CAC2, 0xA7179E84, 0xBCE6FAAD, 0xFFFFFFFF, 0xFFFFFFFF, 0x00000000, 0xFFFFFFFF,
    0x00000000]

def eccOrderR : List (BitVec 32) :=
  [0x039CDAAF, 0x0C46353D, 0x58E8617B, 0x43190552, 0x00000000, 0x00000000, 0xFFFFFFFF, 0x00000000]

def eccOrderMu : List (BitVec 32) :=
  [0xEEDF9BFE, 0x012FFD85, 0xDF1A6C21, 0x43190552, 0xFFFFFFFF, 0xFFFFFFFE, 0xFFFFFFFF, 0x00000000,
    0x00000001]

def eccOrderK : Nat := 8

/-- The loop of `isGreater` over the words `i - 1, …, 0`. -/
def isGreaterLoop (A B : List (BitVec 32)) : Nat → Int
  | 0 => 0
  | i + 1 =>
      if A.getD i 0 > B.getD i 0 then 1
      else if A.getD i 0 < B.getD i 0 then -1
      else isGreaterLoop A B i

def isGreater (A B : List (BitVec 32)) (length : Nat) : Int := isGreaterLoop A B length

def fieldAdd (x y reducer : List (BitVec 32)) : List (BitVec 32) :=
  let sum := add x y arrayLength
  -- add prime if carry is still set!
  if sum.2 ≠ 0 then (add sum.1 reducer arrayLength).1 else sum.1

def fieldSub (x y modulus : List (BitVec 32)) : List (BitVec 32) :=
  let difference := sub x y arrayLength
  if difference.2 ≠ 0 then (add difference.1 modulus arrayLength).1 else difference.1

/-- One product of `fieldMult`, added to the result in place; the number of words is a
    `uint8_t`. -/
def multStep (x y : List (BitVec 32)) (length k n : Nat) (result : List (BitVec 32)) :
    List (BitVec 32) :=
  let l := (x.getD n 0).setWidth 64 * (y.getD k 0).setWidth 64
  let temp := ((List.replicate (length * 2) (0 : BitVec 32)).set (n + k)
    ((l &&& 0xFFFFFFFF).setWidth 32)).set (n + k + 1) ((l >>> 32).setWidth 32)
  let count := (length * 2 - (n + k)) % 2 ^ 8
  result.take (n + k) ++ (add (temp.drop (n + k)) (result.drop (n + k)) count).1
    ++ result.drop (n + k + count)

def fieldMult (x y : List (BitVec 32)) (length : Nat) : List (BitVec 32) :=
  (List.range length).foldl
    (fun result k => (List.range length).foldl (fun result n => multStep x y length k n result)
      result)
    (List.replicate (length * 2) 0)

/-! What `fieldModP` forms from the words `b`. -/

section Forms

variable (b : Nat → BitVec 32)

def formS1 : List (BitVec 32) := [0, 0, 0, b 11, b 12, b 13, b 14, b 15]

def formS2 : List (BitVec 32) := [0, 0, 0, b 12, b 13, b 14, b 15, 0]

def formS3 : List (BitVec 32) := [b 8, b 9, b 10, 0, 0, 0, b 14, b 15]

def formS4 : List (BitVec 32) := [b 9, b 10, b 11, b 13, b 14, b 15, b 13, b 8]

def formD1 : List (BitVec 32) := [b 11, b 12, b 13, 0, 0, 0, b 8, b 10]

def formD2 : List (BitVec 32) := [b 12, b 13, b 14, b 15, 0, 0, b 9, b 11]

def formD3 : List (BitVec 32) := [b 13, b 14, b 15, b 8, b 9, b 10, 0, b 12]

def formD4 : List (BitVec 32) := [b 14, b 15, 0, b 9, b 10, b 11, 0, b 13]

end Forms

def fieldModP (B : List (BitVec 32)) : List (BitVec 32) :=
  let b (n : Nat) := B.getD n 0
  let A := B.take arrayLength
  let tempm2 := fieldAdd A (formS1 b) eccPrimeR
  let A := fieldAdd tempm2 (formS1 b) eccPrimeR
  let tempm2 := fieldAdd A (formS2 b) eccPrimeR
  let A := fieldAdd tempm2 (formS2 b) eccPrimeR
  let tempm2 := fieldAdd A (formS3 b) eccPrimeR
  let A := fieldAdd tempm2 (formS4 b) eccPrimeR
  let tempm2 := fieldSub A (formD1 b) eccPrimeM
  let A := fieldSub tempm2 (formD2 b) eccPrimeM
  let tempm2 := fieldSub A (formD3 b) eccPrimeM
  let A := fieldSub tempm2 (formD4 b) eccPrimeM
  if isGreater A eccPrimeM arrayLength ≥ 0 then fieldSub A eccPrimeM eccPrimeM else A

/-- `while (isGreater(result, ecc_order_m, 9) >= 0)`; `none` without fuel. -/
def subtractOrder : Nat → List (BitVec 32) → Option (List (BitVec 32))
  | 0, _ => none
  | fuel + 1, result =>
      if isGreater result eccOrderM 9 ≥ 0 then subtractOrder fuel (sub result eccOrderM 9).1
      else some result

/-- `fieldModO`: what `result` holds, from what it held. -/
def fieldModO (fuel : Nat) (A result : List (BitVec 32)) (length : Nat) :
    Option (List (BitVec 32)) :=
  if length = arrayLength ∧ isGreater A eccOrderM arrayLength ≤ 0 then
    some (A.take length ++ result.drop length)
  else
    let q1 := rshiftby A length 9 (eccOrderK - 1)
    let q2 := fieldMult eccOrderMu q1 9
    let q3 := rshiftby q2 18 8 (eccOrderK + 1)
    let r2 := fieldMult q3 eccOrderM 8
    subtractOrder fuel (sub A r2 9).1

end PqDtls.Ecc
