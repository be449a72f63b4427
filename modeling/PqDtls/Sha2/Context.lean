import PqDtls.Lib.Sha256
import PqDtls.Dtls.Crypto

/-! # The hash contexts of `sha2.c`

    `dtls_sha256_init`, `dtls_sha256_update` and `dtls_sha256_final` on a little endian
    machine, with the transform that keeps the last 16 words of the schedule, and the
    buffer of the context as the storage for them. -/

namespace PqDtls.Sha2

open Dtls (Bytes Digest)
open Sha256 (Word Words)

/-! ## Words in memory -/

/-- `REVERSE32`. -/
def reverse32 (w : Word) : Word :=
  let tmp := (w >>> 16) ||| (w <<< 16)
  ((tmp &&& 0xff00ff00) >>> 8) ||| ((tmp &&& 0x00ff00ff) <<< 8)

/-- `REVERSE64`. -/
def reverse64 (w : BitVec 64) : BitVec 64 :=
  let tmp := (w >>> 32) ||| (w <<< 32)
  let tmp := ((tmp &&& 0xff00ff00ff00ff00) >>> 8) ||| ((tmp &&& 0x00ff00ff00ff00ff) <<< 8)
  ((tmp &&& 0xffff0000ffff0000) >>> 16) ||| ((tmp &&& 0x0000ffff0000ffff) <<< 16)

/-- Word `j` of the memory at `data`, the least significant byte first. -/
def load (data : Bytes) (j : Nat) : Word :=
  Sha256.wordOf (data.getD (4 * j + 3) 0) (data.getD (4 * j + 2) 0) (data.getD (4 * j + 1) 0)
    (data.getD (4 * j) 0)

/-- Byte `i` of a stored number. -/
def storedByte {n : Nat} (w : BitVec n) (i : Nat) : UInt8 := ⟨w.extractLsb' (8 * i) 8⟩

/-- A word as it is stored. -/
def store (w : Word) : Bytes := [storedByte w 0, storedByte w 1, storedByte w 2, storedByte w 3]

/-! ## The logical functions -/

/-- `R`, a shift. -/
def R (b : Nat) (x : Word) : Word := x >>> b

/-- `S32`, a rotation. -/
def S32 (b : Nat) (x : Word) : Word := (x >>> b) ||| (x <<< (32 - b))

def Ch (x y z : Word) : Word := (x &&& y) ^^^ (~~~x &&& z)

def Maj (x y z : Word) : Word := (x &&& y) ^^^ (x &&& z) ^^^ (y &&& z)

/-- `Sigma0_256`. -/
def Sigma0 (x : Word) : Word := S32 2 x ^^^ S32 13 x ^^^ S32 22 x

/-- `Sigma1_256`. -/
def Sigma1 (x : Word) : Word := S32 6 x ^^^ S32 11 x ^^^ S32 25 x

/-- `sigma0_256`. -/
def sigma0 (x : Word) : Word := S32 7 x ^^^ S32 18 x ^^^ R 3 x

/-- `sigma1_256`. -/
def sigma1 (x : Word) : Word := S32 17 x ^^^ S32 19 x ^^^ R 10 x

/-! ## The constants -/

def K256 : List Word :=
  [0x428a2f98, 0x71374491, 0xb5c0fbcf, 0xe9b5dba5, 0x3956c25b, 0x59f111f1, 0x923f82a4, 0xab1c5ed5,
    0xd807aa98, 0x12835b01, 0x243185be, 0x550c7dc3, 0x72be5d74, 0x80deb1fe, 0x9bdc06a7, 0xc19bf174,
    0xe49b69c1, 0xefbe4786, 0x0fc19dc6, 0x240ca1cc, 0x2de92c6f, 0x4a7484aa, 0x5cb0a9dc, 0x76f988da,
    0x983e5152, 0xa831c66d, 0xb00327c8, 0xbf597fc7, 0xc6e00bf3, 0xd5a79147, 0x06ca6351, 0x14292967,
    0x27b70a85, 0x2e1b2138, 0x4d2c6dfc, 0x53380d13, 0x650a7354, 0x766a0abb, 0x81c2c92e, 0x92722c85,
    0xa2bfe8a1, 0xa81a664b, 0xc24b8b70, 0xc76c51a3, 0xd192e819, 0xd6990624, 0xf40e3585, 0x106aa070,
    0x19a4c116, 0x1e376c08, 0x2748774c, 0x34b0bcb5, 0x391c0cb3, 0x4ed8aa4a, 0x5b9cca4f, 0x682e6ff3,
    0x748f82ee, 0x78a5636f, 0x84c87814, 0x8cc70208, 0x90befffa, 0xa4506ceb, 0xbef9a3f7, 0xc67178f2]

/-- `sha256_initial_hash_value`. -/
def sha256InitialHashValue : Words where
  a := 0x6a09e667
  b := 0xbb67ae85
  c := 0x3c6ef372
  d := 0xa54ff53a
  e := 0x510e527f
  f := 0x9b05688c
  g := 0x1f83d9ab
  h := 0x5be0cd19

/-! ## The transform -/

/-- `DTLS_SHA256_BLOCK_LENGTH`. -/
def blockLength : Nat := 64

/-- `DTLS_SHA256_SHORT_BLOCK_LENGTH`. -/
def shortBlockLength : Nat := blockLength - 8

/-- `dtls_sha256_ctx`. -/
structure Sha256Ctx where
  state : Words
  bitcount : BitVec 64
  buffer : Vector UInt8 64

/-- `j & 0x0f`. -/
def slot (j : Nat) : Fin 16 := ⟨j % 16, Nat.mod_lt _ (by decide)⟩

/-- The compression function, with `T1` and `T2`. -/
def apply (x : Words) (K W : Word) : Words :=
  let T1 := x.h + Sigma1 x.e + Ch x.e x.f x.g + K + W
  let T2 := Sigma0 x.a + Maj x.a x.b x.c
  { h := x.g, g := x.f, f := x.e, e := x.d + T1, d := x.c, c := x.b, b := x.a, a := T1 + T2 }

/-- `W256` and the working variables. -/
abbrev Working := Vector Word 16 × Words

/-- A round of the first loop. -/
def firstRound (data : Bytes) (s : Working) (j : Nat) : Working :=
  let w := reverse32 (load data j)
  (s.1.set (slot j) w (slot j).isLt, apply s.2 (K256.getD j 0) w)

/-- A round of the second one. -/
def laterRound (s : Working) (j : Nat) : Working :=
  let s0 := sigma0 (s.1.get (slot (j + 1)))
  let s1 := sigma1 (s.1.get (slot (j + 14)))
  let w := s.1.get (slot j) + (s1 + s.1.get (slot (j + 9)) + s0)
  (s.1.set (slot j) w (slot j).isLt, apply s.2 (K256.getD j 0) w)

/-- Both loops. -/
def transformed (W256 : Vector Word 16) (state : Words) (data : Bytes) : Working :=
  (List.range' 16 48).foldl laterRound ((List.range 16).foldl (firstRound data) (W256, state))

/-- `dtls_sha256_transform`.  `W256` lies in the buffer; where `data` is the buffer itself, a word
    is read before it is written. -/
def dtlsSha256Transform (ctx : Sha256Ctx) (data : Bytes) : Sha256Ctx :=
  let W256 : Vector Word 16 := Vector.ofFn fun j => load ctx.buffer.toList j
  let done := transformed W256 ctx.state data
  { ctx with
    state := ctx.state.add done.2
    buffer := Vector.ofFn fun i => storedByte (done.1.get (slot (i / 4))) (i % 4) }

/-! ## The interface -/

/-- A context after `memset`. -/
def clearedCtx : Sha256Ctx where
  state := ⟨0, 0, 0, 0, 0, 0, 0, 0⟩
  bitcount := 0
  buffer := Vector.replicate 64 0

def dtlsSha256Init (_ : Sha256Ctx) : Sha256Ctx where
  state := sha256InitialHashValue
  bitcount := 0
  buffer := Vector.replicate 64 0

/-- `memcpy` into the buffer, from index `off` on. -/
def copyTo (buffer : Vector UInt8 64) (off : Nat) (data : Bytes) : Vector UInt8 64 :=
  Vector.ofFn fun i =>
    if off ≤ i.val ∧ i.val < off + data.length then data.getD (i.val - off) 0 else buffer.get i

/-- `usedspace`. -/
def Sha256Ctx.usedspace (ctx : Sha256Ctx) : Nat := (ctx.bitcount >>> 3).toNat % blockLength

/-- `context->bitcount += len << 3`. -/
def Sha256Ctx.count (ctx : Sha256Ctx) (len : Nat) : Sha256Ctx :=
  { ctx with bitcount := ctx.bitcount + (BitVec.ofNat 64 len <<< 3) }

/-- The loop over whole blocks. -/
def updateBlocks : Nat → Sha256Ctx → Bytes → Sha256Ctx × Bytes
  | 0, ctx, data => (ctx, data)
  | fuel + 1, ctx, data =>
      if data.length ≥ blockLength then
        updateBlocks fuel ((dtlsSha256Transform ctx (data.take blockLength)).count blockLength)
          (data.drop blockLength)
      else (ctx, data)

/-- The loop, and what is left over. -/
def updateRest (ctx : Sha256Ctx) (data : Bytes) : Sha256Ctx :=
  let rest := updateBlocks data.length ctx data
  if rest.2.length > 0 then
    { rest.1 with buffer := copyTo rest.1.buffer 0 rest.2 }.count rest.2.length
  else rest.1

def dtlsSha256Update (ctx : Sha256Ctx) (data : Bytes) : Sha256Ctx :=
  if data.length = 0 then ctx
  else if ctx.usedspace > 0 then
    let freespace := blockLength - ctx.usedspace
    if data.length ≥ freespace then
      let filled := { ctx with
        buffer := copyTo ctx.buffer ctx.usedspace (data.take freespace) }.count freespace
      updateRest (dtlsSha256Transform filled filled.buffer.toList) (data.drop freespace)
    else
      { ctx with buffer := copyTo ctx.buffer ctx.usedspace data }.count data.length
  else updateRest ctx data

/-- `memset` of `len` bytes to zero, from index `off` on. -/
def zeroAt (buffer : Vector UInt8 64) (off len : Nat) : Vector UInt8 64 :=
  copyTo buffer off (List.replicate len 0)

/-- The transform of what is in the buffer. -/
def transformBuffer (ctx : Sha256Ctx) : Sha256Ctx := dtlsSha256Transform ctx ctx.buffer.toList

/-- The context before the count is set, with the last block up to there. -/
def padded (ctx : Sha256Ctx) : Sha256Ctx :=
  if ctx.usedspace > 0 then
    let buffer := copyTo ctx.buffer ctx.usedspace [0x80]
    let used := ctx.usedspace + 1
    if used ≤ shortBlockLength then
      { ctx with buffer := zeroAt buffer used (shortBlockLength - used) }
    else
      let full := if used < blockLength then zeroAt buffer used (blockLength - used) else buffer
      let next := transformBuffer { ctx with buffer := full }
      { next with buffer := zeroAt next.buffer 0 shortBlockLength }
  else { ctx with buffer := copyTo (zeroAt ctx.buffer 0 shortBlockLength) 0 [0x80] }

/-- `dtls_sha256_final`: the digest, and the context afterwards. -/
def dtlsSha256Final (ctx : Sha256Ctx) : Digest × Sha256Ctx :=
  let bitcount := reverse64 ctx.bitcount
  let last := padded ctx
  let stored := (List.range 8).map fun i => storedByte bitcount i
  let done := transformBuffer { last with buffer := copyTo last.buffer shortBlockLength stored }
  let digest : Bytes := done.state.toList.flatMap fun w => store (reverse32 w)
  (Vector.ofFn fun i => digest.getD i.val 0, clearedCtx)

end PqDtls.Sha2
