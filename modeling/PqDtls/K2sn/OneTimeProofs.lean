import PqDtls.K2sn.VerifyProofs

/-! # The one-time signature is accepted

    The signer adds up the bits of 131 secret components, one byte a bit; the
    verifier hashes that sum and compares it with the sum of the public components
    it unpacks.  The two agree when the bits stand where SWIFFT reads them
    (**`bitMatrix_parse`**), the packing of a public component is undone
    (**`convertRing_unpackY`**) and no sum overflows its integers.

    SWIFFT's transform tables are not part of the sources.  What the signature
    needs of them is `SwifftTables`: the hash of a packed key is the packed hash of
    its bits, and the hash of a sum of bits is the sum of the hashes. -/

namespace PqDtls.OneTimeProofs

open Cff Ksnmss VerifyProofs

/-! ## Packing in nine bits -/

/-- Byte `r` of a group of nine, `0 < r < 8`: the upper bits of one coefficient below the lower
    bits of the next. -/
def packByte (r : Nat) (x y : UInt32) : UInt8 :=
  (UInt32.ofNat (2 ^ r - 1) &&& x >>> UInt32.ofNat (9 - r)).toUInt8
    ||| ((UInt32.ofNat (2 ^ (8 - r) - 1) &&& y) <<< UInt32.ofNat r).toUInt8

theorem toNat_or_of_lt {a b c i : Nat} (ha : a < 2 ^ i) (hb : b = 2 ^ i * c) : a ||| b = a + b := by
  rw [hb, Nat.or_comm, ← Nat.two_pow_add_eq_or_of_lt ha, Nat.add_comm]

theorem toNat_lowBits {x : UInt32} {i : Nat} (hi : i < 32) :
    (UInt32.ofNat (2 ^ i - 1) &&& x).toNat = x.toNat % 2 ^ i := by
  have hlt : 2 ^ i ≤ 2 ^ 31 := Nat.pow_le_pow_right Nat.two_pos (by omega)
  have hpos := Nat.two_pow_pos i
  rw [UInt32.toNat_and, UInt32.toNat_ofNat', Nat.mod_eq_of_lt (by omega), Nat.and_comm,
    Nat.and_two_pow_sub_one_eq_mod]

theorem toNat_shiftRight_ofNat (x : UInt32) {i : Nat} (hi : i < 32) :
    (x >>> UInt32.ofNat i).toNat = x.toNat / 2 ^ i := by
  rw [UInt32.toNat_shiftRight, UInt32.toNat_ofNat', Nat.mod_eq_of_lt (by omega : i < 2 ^ 32),
    Nat.mod_eq_of_lt hi, Nat.shiftRight_eq_div_pow]

theorem toNat_shiftLeft_ofNat {x : UInt32} {i j : Nat} (hx : x.toNat < 2 ^ j)
    (hij : i + j ≤ 32) (hi : i < 32) : (x <<< UInt32.ofNat i).toNat = 2 ^ i * x.toNat := by
  have hlt : x.toNat * 2 ^ i < 2 ^ 32 :=
    calc x.toNat * 2 ^ i < 2 ^ j * 2 ^ i := Nat.mul_lt_mul_of_pos_right hx (Nat.two_pow_pos i)
      _ = 2 ^ (j + i) := (pow_add 2 j i).symm
      _ ≤ 2 ^ 32 := Nat.pow_le_pow_right Nat.two_pos (by omega)
  rw [UInt32.toNat_shiftLeft, UInt32.toNat_ofNat', Nat.mod_eq_of_lt (by omega : i < 2 ^ 32),
    Nat.mod_eq_of_lt hi, Nat.shiftLeft_eq, Nat.mod_eq_of_lt hlt, Nat.mul_comm]

theorem toNat_packByte {r : Nat} {x y : UInt32} (hr : 0 < r) (hr' : r < 8) (hx : x.toNat < 512) :
    (packByte r x y).toNat = x.toNat / 2 ^ (9 - r) + 2 ^ r * (y.toNat % 2 ^ (8 - r)) := by
  have hhigh : x.toNat / 2 ^ (9 - r) < 2 ^ r := by
    rw [Nat.div_lt_iff_lt_mul (Nat.two_pow_pos _), ← pow_add, Nat.add_sub_cancel' (by omega)]
    exact hx
  have hlow : y.toNat % 2 ^ (8 - r) < 2 ^ (8 - r) := Nat.mod_lt _ (Nat.two_pow_pos _)
  have hpow : 2 ^ r * 2 ^ (8 - r) = 256 := by
    rw [← pow_add, Nat.add_sub_cancel' (by omega)]
    norm_num
  have hr256 : 2 ^ r ≤ 2 ^ 7 := Nat.pow_le_pow_right Nat.two_pos (by omega)
  have hmul : 2 ^ r * (y.toNat % 2 ^ (8 - r)) < 256 :=
    hpow ▸ Nat.mul_lt_mul_of_pos_left hlow (Nat.two_pow_pos r)
  have hleft : (UInt32.ofNat (2 ^ r - 1) &&& x >>> UInt32.ofNat (9 - r)).toUInt8.toNat
      = x.toNat / 2 ^ (9 - r) := by
    rw [UInt32.toNat_toUInt8, toNat_lowBits (by omega), toNat_shiftRight_ofNat x (by omega),
      Nat.mod_eq_of_lt hhigh, Nat.mod_eq_of_lt (by omega)]
  have hright : ((UInt32.ofNat (2 ^ (8 - r) - 1) &&& y) <<< UInt32.ofNat r).toUInt8.toNat
      = 2 ^ r * (y.toNat % 2 ^ (8 - r)) := by
    have hbits := toNat_lowBits (x := y) (i := 8 - r) (by omega)
    rw [UInt32.toNat_toUInt8, toNat_shiftLeft_ofNat (j := 8 - r) (by rw [hbits]; exact hlow)
      (by omega) (by omega), hbits, Nat.mod_eq_of_lt hmul]
  rw [packByte, UInt8.toNat_or, hleft, hright, toNat_or_of_lt hhigh rfl]

/-- `unpackY` on the coefficients reduced modulo 257.  One byte is packed without its mask. -/
def unpackY (opi : RgElm) : Node :=
  Vector.ofFn fun j =>
    let v := fun (k : Nat) => opi[8 * (j.val / 9) + k]!
    if j.val % 9 = 0 then ((0xFF : UInt32) &&& v 0).toUInt8
    else if j.val % 9 = 8 then ((0xFF : UInt32) &&& v 7 >>> 1).toUInt8
    else if j.val % 18 = 11 then
      ((0x3 : UInt32) &&& v 1 >>> 7).toUInt8 ||| (v 2 <<< 2).toUInt8
    else packByte (j.val % 9) (v (j.val % 9 - 1)) (v (j.val % 9))

/-- The missing mask makes no difference: the cast drops the same bits. -/
theorem packByte_two {x y : UInt32} (hy : y.toNat < 512) :
    ((0x3 : UInt32) &&& x >>> 7).toUInt8 ||| (y <<< 2).toUInt8 = packByte 2 x y := by
  have hleft : (y <<< UInt32.ofNat 2).toUInt8.toNat = y.toNat * 4 % 256 := by
    rw [UInt32.toNat_toUInt8, toNat_shiftLeft_ofNat (j := 9) hy (by omega) (by omega)]
    omega
  have hbits := toNat_lowBits (x := y) (i := 6) (by omega)
  have hright : ((UInt32.ofNat (2 ^ 6 - 1) &&& y) <<< UInt32.ofNat 2).toUInt8.toNat
      = y.toNat * 4 % 256 := by
    rw [UInt32.toNat_toUInt8, toNat_shiftLeft_ofNat (j := 6) (by rw [hbits]; omega) (by omega)
      (by omega), hbits]
    omega
  have hsame : (y <<< 2).toUInt8
      = ((UInt32.ofNat (2 ^ 6 - 1) &&& y) <<< UInt32.ofNat 2).toUInt8 :=
    UInt8.toNat_inj.mp (hleft.trans hright.symm)
  rw [hsame]
  rfl

/-- The upper bits of the coefficient before, in byte `k` of a group of nine. -/
def carried (v : Nat → UInt32) : Nat → Nat
  | 0 => 0
  | k + 1 => (v k).toNat / 2 ^ (8 - k)

theorem carried_lt {v : Nat → UInt32} (hv : ∀ k, (v k).toNat < 512) {k : Nat} (hk : k < 9) :
    carried v k < 2 ^ k := by
  cases k with
  | zero => exact Nat.one_pos
  | succ k =>
      have hpow : 2 ^ (k + 1) * 2 ^ (8 - k) = 512 := by
        rw [← pow_add, show k + 1 + (8 - k) = 9 by omega]
        norm_num
      rw [carried, Nat.div_lt_iff_lt_mul (Nat.two_pow_pos _), hpow]
      exact hv k

/-- **A PACKED BYTE** holds the upper bits of one coefficient and the lower bits of the next. -/
theorem toNat_unpackY {opi : RgElm} {q k : Nat} (hv : ∀ k, (opi[8 * q + k]!).toNat < 512)
    (hq : q < 8) (hk : k < 9) :
    ((unpackY opi)[9 * q + k]!).toNat
      = carried (fun k => opi[8 * q + k]!) k
        + 2 ^ k * ((opi[8 * q + k]!).toNat % 2 ^ (8 - k)) := by
  have hpk : 9 * q + k < pklen := by
    have hsize : pklen = 72 := rfl
    omega
  have hdiv : (9 * q + k) / 9 = q := by omega
  have hmod : (9 * q + k) % 9 = k := by omega
  rw [getElem!_pos (unpackY opi) _ hpk, unpackY, Vector.getElem_ofFn]
  simp only [hdiv, hmod]
  cases k with
  | zero =>
      have hbits := toNat_lowBits (x := opi[8 * q + 0]!) (i := 8) (by omega)
      rw [if_pos rfl, UInt32.toNat_toUInt8]
      change (UInt32.ofNat (2 ^ 8 - 1) &&& opi[8 * q + 0]!).toNat % _ = _
      rw [hbits, carried]
      omega
  | succ i =>
      rw [if_neg (Nat.succ_ne_zero i), Nat.add_sub_cancel]
      by_cases h8 : i + 1 = 8
      · obtain rfl : i = 7 := by omega
        have hbits := toNat_lowBits (x := opi[8 * q + 7]! >>> UInt32.ofNat 1) (i := 8) (by omega)
        have hlt := hv 7
        rw [if_pos rfl, UInt32.toNat_toUInt8, Nat.sub_self, pow_zero, Nat.mod_one, Nat.mul_zero]
        change (UInt32.ofNat (2 ^ 8 - 1) &&& opi[8 * q + 7]! >>> UInt32.ofNat 1).toNat % _ = _
        rw [hbits, toNat_shiftRight_ofNat _ (by omega), carried]
        omega
      · have hbyte : (packByte (i + 1) (opi[8 * q + i]!) (opi[8 * q + (i + 1)]!)).toNat
            = carried (fun k => opi[8 * q + k]!) (i + 1)
              + 2 ^ (i + 1) * ((opi[8 * q + (i + 1)]!).toNat % 2 ^ (8 - (i + 1))) := by
          rw [toNat_packByte (by omega) (by omega) (hv i), carried, Nat.add_sub_add_right 8 1 i]
        rw [if_neg h8]
        by_cases h11 : (9 * q + (i + 1)) % 18 = 11
        · obtain rfl : i = 1 := by omega
          rw [if_pos h11, packByte_two (hv 2)]
          exact hbyte
        · rw [if_neg h11]
          exact hbyte

/-! ## Unpacking -/

theorem lower_bits {opi : RgElm} {q r : Nat} (hv : ∀ k, (opi[8 * q + k]!).toNat < 512)
    (hq : q < 8) (hr : r < 8) :
    ((unpackY opi)[9 * q + r]!).toNat / 2 ^ r = (opi[8 * q + r]!).toNat % 2 ^ (8 - r) := by
  rw [toNat_unpackY hv hq (by omega), Nat.add_mul_div_left _ _ (Nat.two_pow_pos r),
    Nat.div_eq_of_lt (carried_lt hv (by omega)), Nat.zero_add]

theorem upper_bits {opi : RgElm} {q r : Nat} (hv : ∀ k, (opi[8 * q + k]!).toNat < 512)
    (hq : q < 8) (hr : r < 8) :
    ((unpackY opi)[9 * q + (r + 1)]!).toNat % 2 ^ (r + 1)
      = (opi[8 * q + r]!).toNat / 2 ^ (8 - r) := by
  rw [toNat_unpackY hv hq (by omega), Nat.add_mul_mod_self_left,
    Nat.mod_eq_of_lt (carried_lt hv (by omega)), carried]

theorem toNat_coefficient {p q : UInt32} {b0 b1 : UInt8} {r : Nat} (hr : r < 8)
    (hp : p.toNat = b0.toNat / 2 ^ r) (hq : q.toNat = 2 ^ (8 - r) * (b1.toNat % 2 ^ (r + 1))) :
    (p ||| q).toNat = b0.toNat / 2 ^ r + 2 ^ (8 - r) * (b1.toNat % 2 ^ (r + 1)) := by
  have hpow : 2 ^ (8 - r) * 2 ^ r = 256 := by
    rw [← pow_add, Nat.sub_add_cancel (by omega)]
    norm_num
  have hlt : b0.toNat / 2 ^ r < 2 ^ (8 - r) := by
    rw [Nat.div_lt_iff_lt_mul (Nat.two_pow_pos r), hpow]
    exact b0.toNat_lt
  rw [UInt32.toNat_or, hp, hq, toNat_or_of_lt hlt rfl]

theorem toNat_lowerPart (b : UInt8) {s : UInt32} {r : Nat} (hr : r < 8)
    (hs : s = UInt32.ofNat r) : (b.toUInt32 >>> s).toNat = b.toNat / 2 ^ r := by
  rw [hs, toNat_shiftRight_ofNat _ (by omega), UInt8.toNat_toUInt32]

theorem toNat_upperPart (b : UInt8) {m s : UInt32} {r : Nat} (hr : r < 8)
    (hm : m = UInt32.ofNat (2 ^ (r + 1) - 1)) (hs : s = UInt32.ofNat (8 - r)) :
    ((b.toUInt32 &&& m) <<< s).toNat = 2 ^ (8 - r) * (b.toNat % 2 ^ (r + 1)) := by
  have hbits : (b.toUInt32 &&& m).toNat = b.toNat % 2 ^ (r + 1) := by
    rw [hm, UInt32.and_comm, toNat_lowBits (by omega), UInt8.toNat_toUInt32]
  have hlt : (b.toUInt32 &&& m).toNat < 2 ^ (r + 1) := by
    rw [hbits]
    exact Nat.mod_lt _ (Nat.two_pow_pos _)
  rw [hs, toNat_shiftLeft_ofNat hlt (by omega) (by omega), hbits]

/-- The last coefficient takes a whole byte. -/
theorem toNat_lastPart (b : UInt8) :
    (b.toUInt32 <<< 1).toNat = 2 ^ (8 - 7) * (b.toNat % 2 ^ (7 + 1)) := by
  have hb := b.toNat_lt
  have hone : (1 : UInt32) = UInt32.ofNat 1 := rfl
  rw [hone, toNat_shiftLeft_ofNat (j := 8) (by rw [UInt8.toNat_toUInt32]; exact hb) (by omega)
    (by omega), UInt8.toNat_toUInt32]
  omega

/-- **A COEFFICIENT** is made of the upper bits of one byte and the lower bits of the next. -/
theorem toNat_convertRing (rg8 : Node) (n : Fin rglen) :
    ((convertRing rg8).get n).toNat
      = (rg8[9 * (n.val / 8) + n.val % 8]!).toNat / 2 ^ (n.val % 8)
        + 2 ^ (8 - n.val % 8)
          * ((rg8[9 * (n.val / 8) + (n.val % 8 + 1)]!).toNat % 2 ^ (n.val % 8 + 1)) := by
  have hr : n.val % 8 < 8 := Nat.mod_lt _ (by decide)
  rw [Vector.get_eq_getElem, convertRing, Vector.getElem_ofFn]
  dsimp only
  generalize n.val % 8 = r at hr
  interval_cases r
  · refine toNat_coefficient hr ?_ (toNat_upperPart _ hr (by decide) (by decide))
    rw [UInt8.toNat_toUInt32, pow_zero, Nat.div_one]
  · exact toNat_coefficient hr (toNat_lowerPart _ hr (by decide))
      (toNat_upperPart _ hr (by decide) (by decide))
  · exact toNat_coefficient hr (toNat_lowerPart _ hr (by decide))
      (toNat_upperPart _ hr (by decide) (by decide))
  · exact toNat_coefficient hr (toNat_lowerPart _ hr (by decide))
      (toNat_upperPart _ hr (by decide) (by decide))
  · exact toNat_coefficient hr (toNat_lowerPart _ hr (by decide))
      (toNat_upperPart _ hr (by decide) (by decide))
  · exact toNat_coefficient hr (toNat_lowerPart _ hr (by decide))
      (toNat_upperPart _ hr (by decide) (by decide))
  · exact toNat_coefficient hr (toNat_lowerPart _ hr (by decide))
      (toNat_upperPart _ hr (by decide) (by decide))
  · exact toNat_coefficient hr (toNat_lowerPart _ hr (by decide)) (toNat_lastPart _)

/-- **UNPACKING** a packed ring element gives its coefficients back. -/
theorem convertRing_unpackY {opi : RgElm} (h : ∀ k : Fin rglen, (opi.get k).toNat < 512) :
    convertRing (unpackY opi) = opi := by
  have hv : ∀ i : Nat, (opi[i]!).toNat < 512 := by
    intro i
    by_cases hi : i < rglen
    · rw [getElem!_pos opi i hi]
      exact h ⟨i, hi⟩
    · rw [getElem!_neg opi i hi]
      decide
  apply Vector.ext
  intro n hn
  have hq : n / 8 < 8 := by
    have hsize : rglen = 64 := rfl
    omega
  have hr : n % 8 < 8 := Nat.mod_lt _ (by decide)
  have hn' : 8 * (n / 8) + n % 8 = n := by omega
  have hcoef := toNat_convertRing (unpackY opi) ⟨n, hn⟩
  simp only [lower_bits (fun k => hv _) hq hr, upper_bits (fun k => hv _) hq hr, hn'] at hcoef
  rw [Nat.mod_add_div, getElem!_pos opi n hn] at hcoef
  exact UInt32.toNat_inj.mp hcoef

/-! ## The bits of a secret component -/

/-- `int x[16][64]`. -/
abbrev Matrix := Vector (Vector Nat 64) 16

/-- The bit vector of a packed key: 16 bits a word, least significant first. -/
def bitMatrix (xbyte : XByte) : Matrix :=
  Vector.ofFn fun row => Vector.ofFn fun j => (xbyte[row])[j.val / 16]! / 2 ^ (j.val % 16) % 2

theorem toNat_skBits (sk : SkNode) (k : Fin (sklen * 8)) :
    ((skBits sk).get k).toNat = (sk[k.val / 8]!).toNat / 2 ^ (k.val % 8) % 2 := by
  have hs : k.val % 8 < 8 := Nat.mod_lt _ (by decide)
  have hpow : 2 ^ (k.val % 8) ≤ 2 ^ 7 := Nat.pow_le_pow_right Nat.two_pos (by omega)
  have hshift : ((k.val % 8).toUInt8).toNat % 8 = k.val % 8 := by
    rw [Nat.toUInt8, UInt8.toNat_ofNat']
    omega
  have hone : (1 : UInt8).toNat <<< (k.val % 8) % 2 ^ 8 = 2 ^ (k.val % 8) := by
    have h1 : (1 : UInt8).toNat = 1 := rfl
    rw [h1, Nat.one_shiftLeft, Nat.mod_eq_of_lt (by omega)]
  rw [Vector.get_eq_getElem, skBits, Vector.getElem_ofFn, UInt8.toNat_shiftRight, UInt8.toNat_and,
    UInt8.toNat_shiftLeft, hshift, hone, Nat.and_two_pow, Nat.shiftRight_eq_div_pow,
    Nat.mul_div_cancel _ (Nat.two_pow_pos _), Nat.toNat_testBit]

theorem skBits_le (sk : SkNode) (k : Fin (sklen * 8)) : ((skBits sk).get k).toNat ≤ 1 := by
  rw [toNat_skBits]
  omega

/-- The two bytes of a word, bit by bit. -/
theorem word_bit (lo hi : UInt8) {b : Nat} (hb : b < 16) :
    ((hi.toNat <<< 8) ||| lo.toNat) / 2 ^ b % 2
      = if b < 8 then lo.toNat / 2 ^ b % 2 else hi.toNat / 2 ^ (b - 8) % 2 := by
  rw [← Nat.toNat_testBit, ← Nat.toNat_testBit, ← Nat.toNat_testBit, Nat.testBit_or,
    Nat.testBit_shiftLeft]
  by_cases h8 : b < 8
  · have hge : decide (b ≥ 8) = false := decide_eq_false (by omega)
    rw [if_pos h8, hge, Bool.false_and, Bool.false_or]
  · have hge : decide (b ≥ 8) = true := decide_eq_true (by omega)
    have hlo : lo.toNat.testBit b = false := by
      refine Nat.testBit_eq_false_of_lt (Nat.lt_of_lt_of_le lo.toNat_lt ?_)
      exact Nat.pow_le_pow_right Nat.two_pos (by omega)
    rw [if_neg h8, hge, Bool.true_and, hlo, Bool.or_false]

/-- A word of `parse` is two bytes of the component. -/
theorem parse_word (sk : SkNode) {row i : Nat} (hrow : row < 16) (hi : i < 4) :
    ((parse sk)[row])[i]!
      = ((sk[row * 8 + 2 * i + 1]!).toNat <<< 8) ||| (sk[row * 8 + 2 * i]!).toNat := by
  rw [getElem!_pos _ i hi]
  simp only [parse, Vector.getElem_ofFn]

/-- **THE ORDER OF `parse`** is the order in which the verifier lays out the bits. -/
theorem bitMatrix_parse (sk : SkNode) : bitMatrix (parse sk) = sksumMatrix (skBits sk) := by
  apply Vector.ext
  intro row hrow
  apply Vector.ext
  intro j hj
  have hk : row * 64 + j < sklen * 8 := by
    have hsize : sklen = 128 := rfl
    omega
  have hbit := toNat_skBits sk ⟨row * 64 + j, hk⟩
  rw [Vector.get_eq_getElem] at hbit
  have hmod : (row * 64 + j) % 8 = j % 8 := by omega
  simp only [bitMatrix, sksumMatrix, Vector.getElem_ofFn]
  rw [getElem!_pos (skBits sk) _ hk, hbit]
  simp only [Fin.getElem_fin, hmod]
  rw [parse_word sk hrow (by omega), word_bit _ _ (Nat.mod_lt _ (by decide))]
  -- the low byte of a word holds its bits 0 to 7, the high byte the bits 8 to 15
  by_cases h8 : j % 16 < 8
  · have hbyte : (row * 64 + j) / 8 = row * 8 + 2 * (j / 16) := by omega
    have hpos : j % 16 = j % 8 := by omega
    rw [if_pos h8, hbyte, hpos]
  · have hbyte : (row * 64 + j) / 8 = row * 8 + 2 * (j / 16) + 1 := by omega
    have hpos : j % 16 - 8 = j % 8 := by omega
    rw [if_neg h8, hbyte, hpos]

/-! ## The sum of the secret components -/

/-- Bit `k`, added over the selected components. -/
def secretSum (sk : Vector SkNode k2snT) (keys : List Nat) (k : Fin (sklen * 8)) : Nat :=
  (keys.map fun le => ((skBits sk[le]!).get k).toNat).sum

theorem secretSum_le (sk : Vector SkNode k2snT) (keys : List Nat) (k : Fin (sklen * 8)) :
    secretSum sk keys k ≤ keys.length := by
  induction keys with
  | nil => exact le_rfl
  | cons le keys ih =>
      have hbit := skBits_le sk[le]! k
      unfold secretSum at ih ⊢
      rw [List.map_cons, List.sum_cons, List.length_cons]
      omega

theorem toNat_zipWith_bytes (x y : Vector UInt8 (sklen * 8)) (k : Fin (sklen * 8))
    (h : (x.get k).toNat + (y.get k).toNat < 2 ^ 8) :
    ((Vector.zipWith (· + ·) x y).get k).toNat = (x.get k).toNat + (y.get k).toNat := by
  rw [Vector.get_eq_getElem, Vector.getElem_zipWith, UInt8.toNat_add]
  exact Nat.mod_eq_of_lt h

theorem foldl_secrets (sk : Vector SkNode k2snT) (keys : List Nat)
    (sum : Vector UInt8 (sklen * 8)) (k : Fin (sklen * 8))
    (h : (sum.get k).toNat + keys.length < 2 ^ 8) :
    ((keys.foldl (fun sksum le => Vector.zipWith (· + ·) sksum (skBits sk[le]!)) sum).get k).toNat
      = (sum.get k).toNat + secretSum sk keys k := by
  induction keys generalizing sum with
  | nil => rfl
  | cons le keys ih =>
      have hbit := skBits_le sk[le]! k
      rw [List.length_cons] at h
      have hadd := toNat_zipWith_bytes sum (skBits sk[le]!) k (by omega)
      rw [List.foldl_cons, ih _ (by rw [hadd]; omega), hadd]
      unfold secretSum
      rw [List.map_cons, List.sum_cons]
      omega

/-- No 8-bit overflow: the sum of 131 bits is exact. -/
theorem sumSecrets_spec (sk : Vector SkNode k2snT) {keys : List Nat} (hlen : keys.length = tb2)
    (k : Fin (sklen * 8)) : ((sumSecrets sk keys).get k).toNat = secretSum sk keys k := by
  cases keys with
  | nil => exact absurd hlen (by decide)
  | cons le keys =>
      have hbit := skBits_le sk[le]! k
      have hlen' : keys.length + 1 = 131 := hlen
      have hsum := foldl_secrets sk keys (skBits sk[le]!) k (by omega)
      rw [sumSecrets, hsum]
      rfl

/-! ## What SWIFFT is asked for -/

/-- The entries are bits. -/
def IsBits (x : Matrix) : Prop := ∀ (row : Fin 16) (j : Fin 64), x[row][j] ≤ 1

/-- The sum of matrices, entry by entry. -/
def matrixSum (xs : List Matrix) : Matrix :=
  Vector.ofFn fun row => Vector.ofFn fun j => (xs.map fun x => x[row][j]).sum

/-- The transform tables serve the key `A`: SWIFFT of a packed key is the packing of gSWIFFT of
    its bits, and gSWIFFT of the sum of 131 bit vectors is the sum of theirs modulo 257. -/
structure SwifftTables (K : Prims) (A : SwifftKey) : Prop where
  packed : ∀ xbyte : XByte, (∀ (row : Fin 16) (i : Fin 4), xbyte[row][i] < 2 ^ 16) →
    K.SWIFFT xbyte A = unpackY (K.gSWIFFT (bitMatrix xbyte) A)
  sum : ∀ xs : List Matrix, xs.length = tb2 → (∀ x ∈ xs, IsBits x) → ∀ k : Fin rglen,
    ((K.gSWIFFT (matrixSum xs) A).get k).toNat
      = (xs.map fun x => ((K.gSWIFFT x A).get k).toNat).sum % 257

theorem parse_lt (sk : SkNode) (row : Fin 16) (i : Fin 4) : (parse sk)[row][i] < 2 ^ 16 := by
  have hword := parse_word sk row.isLt i.isLt
  rw [getElem!_pos _ i.val i.isLt] at hword
  rw [Fin.getElem_fin, Fin.getElem_fin, hword, Nat.shiftLeft_eq]
  refine Nat.or_lt_two_pow ?_ ?_
  · have hhigh := (sk[row.val * 8 + 2 * i.val + 1]!).toNat_lt
    omega
  · have hlow := (sk[row.val * 8 + 2 * i.val]!).toNat_lt
    omega

theorem isBits_sksumMatrix (sk : SkNode) : IsBits (sksumMatrix (skBits sk)) := by
  intro row j
  have hk : row.val * 64 + j.val < sklen * 8 := by
    have hsize : sklen = 128 := rfl
    omega
  have hbit := skBits_le sk ⟨row.val * 64 + j.val, hk⟩
  simp only [sksumMatrix, Fin.getElem_fin, Vector.getElem_ofFn]
  rw [getElem!_pos (skBits sk) _ hk]
  exact hbit

/-- The matrix of the summed secrets is the sum of the matrices of their bits. -/
theorem sksumMatrix_sumSecrets (sk : Vector SkNode k2snT) {keys : List Nat}
    (hlen : keys.length = tb2) :
    sksumMatrix (sumSecrets sk keys)
      = matrixSum (keys.map fun le => sksumMatrix (skBits sk[le]!)) := by
  apply Vector.ext
  intro row hrow
  apply Vector.ext
  intro j hj
  have hk : row * 64 + j < sklen * 8 := by
    have hsize : sklen = 128 := rfl
    omega
  have hsum := sumSecrets_spec sk hlen ⟨row * 64 + j, hk⟩
  rw [Vector.get_eq_getElem] at hsum
  have hbits : ∀ le : Nat, ((skBits sk[le]!)[row * 64 + j]!).toNat
      = ((skBits sk[le]!).get ⟨row * 64 + j, hk⟩).toNat := by
    intro le
    rw [getElem!_pos (skBits sk[le]!) _ hk, Vector.get_eq_getElem]
  simp only [sksumMatrix, matrixSum, Vector.getElem_ofFn, Fin.getElem_fin, List.map_map,
    Function.comp_def, hbits]
  rw [getElem!_pos (sumSecrets sk keys) _ hk, hsum, secretSum]

variable {K : Prims} {A : SwifftKey}

/-- Hashes of bits are reduced: add 130 zero vectors. -/
theorem SwifftTables.reduced (h : SwifftTables K A) {x : Matrix} (hx : IsBits x) (k : Fin rglen) :
    ((K.gSWIFFT x A).get k).toNat < 257 := by
  let zero : Matrix := Vector.replicate 16 (Vector.replicate 64 0)
  have hzero : IsBits zero := by
    intro row j
    simp [zero]
  have hsum := h.sum (x :: List.replicate 130 zero) rfl (fun y hy => by
    rcases List.mem_cons.mp hy with rfl | hrep
    · exact hx
    · rw [List.eq_of_mem_replicate hrep]
      exact hzero) k
  have hmatrix : matrixSum (x :: List.replicate 130 zero) = x := by
    apply Vector.ext
    intro row hrow
    apply Vector.ext
    intro j hj
    simp [matrixSum, zero]
  rw [hmatrix] at hsum
  rw [hsum]
  exact Nat.mod_lt _ (by decide)

/-- **A PUBLIC COMPONENT** unpacks to the hash of the bits of its secret. -/
theorem SwifftTables.convertRing_public (h : SwifftTables K A) (sk : Vector SkNode k2snT)
    {le : Nat} (hle : le < k2snT) :
    convertRing ((generatePublicKeyOTS K sk A)[le]!)
      = K.gSWIFFT (sksumMatrix (skBits sk[le]!)) A := by
  have hpk : (generatePublicKeyOTS K sk A)[le]! = K.SWIFFT (parse sk[le]!) A := by
    rw [getElem!_pos (generatePublicKeyOTS K sk A) le hle, getElem!_pos sk le hle,
      generatePublicKeyOTS, Vector.getElem_map]
  rw [hpk, h.packed _ (parse_lt _), bitMatrix_parse]
  refine convertRing_unpackY fun k => ?_
  have hlt := h.reduced (isBits_sksumMatrix sk[le]!) k
  omega

/-- **THE HASH OF THE SUM** is the sum of the selected public components. -/
theorem SwifftTables.sum_public (h : SwifftTables K A) (sk : Vector SkNode k2snT)
    {keys : List Nat} (hlen : keys.length = tb2) (hlt : ∀ le ∈ keys, le < k2snT)
    (k : Fin rglen) :
    ((K.gSWIFFT (sksumMatrix (sumSecrets sk keys)) A).get k).toNat
      = coefficientSum (generatePublicKeyOTS K sk A) keys k % 257 := by
  rw [sksumMatrix_sumSecrets sk hlen, h.sum _ (by rw [List.length_map, hlen]) ?_ k]
  · have hmap : (keys.map fun le => ((K.gSWIFFT (sksumMatrix (skBits sk[le]!)) A).get k).toNat)
        = keys.map fun le => ((convertRing ((generatePublicKeyOTS K sk A)[le]!)).get k).toNat :=
      List.map_congr_left fun le hle => by rw [h.convertRing_public sk (hlt le hle)]
    rw [List.map_map, coefficientSum]
    exact congrArg (fun sums => List.sum sums % 257) hmap
  · intro x hx
    obtain ⟨le, -, rfl⟩ := List.mem_map.mp hx
    exact isBits_sksumMatrix _

/-! ## Completeness -/

/-- Small coefficients and the right sum leave only the comparison of the roots. -/
theorem ksnmssVerify_of_agree {MSSPK : Node} {id : Nat} {ms : Vector UInt8 k2snMsglen}
    {sig : KsnmssSig} {keys : List Nat} (hkeys : cff ms = some keys) (hsmall : CoeffsSmall sig)
    (hsum : pksum K id sig = sumPublics sig.pk keys) :
    ksnmssVerify K MSSPK id ms sig = some 0 ∨ ksnmssVerify K MSSPK id ms sig = some 1 := by
  have hany := (any_eq_false_iff sig).mpr hsmall
  have hzero : verified (K.gSWIFFT (sksumMatrix sig.sksum) (K.setKey id 0))
      (sumPublics sig.pk keys) = 0 := by
    rw [verified_eq_zero_iff, ← hsum]
    rfl
  unfold ksnmssVerify
  rw [hany, hkeys]
  simp only [Bool.false_eq_true, if_false, Option.bind_eq_bind, Option.bind_some, hzero,
    ne_eq, not_true_eq_false]
  by_cases hroot : verified (nodeInts MSSPK) (nodeInts (authRoot K sig id)) = 0
  · exact Or.inl (if_pos hroot)
  · exact Or.inr (if_neg hroot)

/-- What `ksnmss_sign` writes. -/
theorem ksnmssSign_sig (s : SignerState) (id : Nat) {ms : Vector UInt8 k2snMsglen}
    {keys : List Nat} (hkeys : cff ms = some keys) :
    ∃ sig s', ksnmssSign K s id ms = some (sig, s')
      ∧ sig.sksum = sumSecrets (K.generateSecretKeyOTS (idu8 id)) keys
      ∧ sig.pk = otsPublicKey K id := by
  unfold ksnmssSign
  rw [hkeys]
  exact ⟨_, _, rfl, rfl, rfl⟩

/-- **ONE-TIME COMPLETENESS**: the sum and the components that `ksnmss_sign` writes pass the first
    two tests of `ksnmss_verify`.  No coefficient is above 131, the hash of the sum is the sum of
    the selected components modulo 257, and neither sum overflows its integers. -/
theorem oneTime_complete (K : Prims) (id : Nat) (tables : SwifftTables K (K.setKey id 0))
    (s : SignerState) (ms : Vector UInt8 k2snMsglen) :
    ∃ keys sig s', cff ms = some keys ∧ ksnmssSign K s id ms = some (sig, s')
      ∧ CoeffsSmall sig ∧ SumsAgree K id ms sig
      ∧ (∀ k : Fin (sklen * 8),
          (sig.sksum.get k).toNat = secretSum (K.generateSecretKeyOTS (idu8 id)) keys k)
      ∧ (∀ k : Fin rglen,
          ((sumPublics sig.pk keys).get k).toNat = coefficientSum sig.pk keys k % 257)
      ∧ ∀ MSSPK, ksnmssVerify K MSSPK id ms sig = some 0
          ∨ ksnmssVerify K MSSPK id ms sig = some 1 := by
  obtain ⟨keys, hkeys, hlen, hlt⟩ := cff_isSome ms
  obtain ⟨sig, s', hsign, hsksum, hpk⟩ := ksnmssSign_sig (K := K) s id hkeys
  have hexact : ∀ k : Fin (sklen * 8),
      (sig.sksum.get k).toNat = secretSum (K.generateSecretKeyOTS (idu8 id)) keys k := by
    intro k
    rw [hsksum]
    exact sumSecrets_spec _ hlen k
  have hsmall : CoeffsSmall sig := by
    intro k
    have hle := secretSum_le (K.generateSecretKeyOTS (idu8 id)) keys k
    rw [← hexact k, hlen] at hle
    exact UInt8.le_iff_toNat_le.mpr hle
  have hagree : SumsAgree K id ms sig := by
    intro keys' hkeys' k
    obtain rfl := Option.some.inj (hkeys.symm.trans hkeys')
    rw [pksum, hsksum, hpk]
    exact tables.sum_public _ hlen hlt k
  have hsum := (sumsAgree_iff hkeys hlen).mp hagree
  exact ⟨keys, sig, s', hkeys, hsign, hsmall, hagree, hexact, sumPublics_spec sig.pk hlen,
    fun MSSPK => ksnmssVerify_of_agree hkeys hsmall hsum⟩

/-- Primitives with zero secrets, whose hashes are zero. -/
def zeroPrims : Prims :=
  { constPrims with SWIFFT := fun _ _ => Vector.replicate pklen 0 }

theorem zeroPrims_tables (A : SwifftKey) : SwifftTables zeroPrims A where
  packed := by
    intro xbyte _
    have hpack : unpackY (Vector.replicate rglen 0) = Vector.replicate pklen 0 := by
      decide +kernel
    exact hpack.symm
  sum := by
    intro xs _ _ k
    simp [zeroPrims, constPrims]

/-- The first signature with zero secrets. -/
theorem oneTime_complete_zero :
    ∃ keys sig s', cff (Vector.replicate k2snMsglen 0) = some keys
      ∧ ksnmssSign zeroPrims zeroSigner 0 (Vector.replicate k2snMsglen 0) = some (sig, s')
      ∧ CoeffsSmall sig ∧ SumsAgree zeroPrims 0 (Vector.replicate k2snMsglen 0) sig := by
  obtain ⟨keys, sig, s', hkeys, hsign, hsmall, hagree, -⟩ :=
    oneTime_complete zeroPrims 0 (zeroPrims_tables _) zeroSigner (Vector.replicate k2snMsglen 0)
  exact ⟨keys, sig, s', hkeys, hsign, hsmall, hagree⟩

end PqDtls.OneTimeProofs
