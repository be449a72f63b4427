import PqDtls.K2sn.Ksnmss

/-! # Ring elements in 72 bytes

    A ring element has 64 coefficients below 257, of nine bits each.  `unpackY` packs
    the 16 lanes of a vector into 18 bytes, with a mask and a shift of its own for every
    byte, and `convert_ring` reads eight coefficients from nine bytes, with other masks.

    Both are compared with one pair of formulas: byte `k` of nine bytes has the high bits
    of coefficient `k - 1` and the low bits of coefficient `k`. -/

namespace PqDtls.Ksnmss

/-! ## Masks and shifts -/

theorem toNat_mask {m x : UInt32} (k : Nat) (hm : m.toNat = 2 ^ k - 1) :
    (m &&& x).toNat = x.toNat % 2 ^ k := by
  rw [UInt32.toNat_and, hm, Nat.and_comm, Nat.and_two_pow_sub_one_eq_mod]

theorem toNat_shiftRight {x s : UInt32} (k : Nat) (hs : s.toNat = k) (hk : k < 32) :
    (x >>> s).toNat = x.toNat / 2 ^ k := by
  rw [UInt32.toNat_shiftRight, hs, Nat.mod_eq_of_lt hk, Nat.shiftRight_eq_div_pow]

theorem toNat_shiftLeft {x s : UInt32} (k : Nat) (hs : s.toNat = k) (hk : k < 32) :
    (x <<< s).toNat = x.toNat * 2 ^ k % 2 ^ 32 := by
  rw [UInt32.toNat_shiftLeft, hs, Nat.mod_eq_of_lt hk, Nat.shiftLeft_eq]

/-- Bits below `k` and bits from `k` on. -/
theorem or_eq_add {x : Nat} (y : Nat) {k : Nat} (hx : x < 2 ^ k) :
    x ||| y * 2 ^ k = x + 2 ^ k * y := by
  rw [Nat.or_comm, Nat.mul_comm, ← Nat.two_pow_add_eq_or_of_lt hx, Nat.add_comm]

/-! ## `unpackY` -/

/-- `opi[i][j]`: lane `j` of a vector, reduced. -/
def opi (Y : Vector (Vector UInt16 16) 4) (i j : Nat) : UInt32 := ((Y[i]!)[j]!).toUInt32 % 257

/-- The 18 bytes for the 16 lanes of a vector. -/
def unpackByte (o : Nat → UInt32) : Nat → UInt8
  | 0 => ((0xFF : UInt32) &&& o 0).toUInt8
  | 1 => ((0x1 : UInt32) &&& o 0 >>> 8).toUInt8 ||| (((0x7F : UInt32) &&& o 1) <<< 1).toUInt8
  | 2 => ((0x3 : UInt32) &&& o 1 >>> 7).toUInt8 ||| (((0x3F : UInt32) &&& o 2) <<< 2).toUInt8
  | 3 => ((0x7 : UInt32) &&& o 2 >>> 6).toUInt8 ||| (((0x1F : UInt32) &&& o 3) <<< 3).toUInt8
  | 4 => ((0xF : UInt32) &&& o 3 >>> 5).toUInt8 ||| (((0xF : UInt32) &&& o 4) <<< 4).toUInt8
  | 5 => ((0x1F : UInt32) &&& o 4 >>> 4).toUInt8 ||| (((0x7 : UInt32) &&& o 5) <<< 5).toUInt8
  | 6 => ((0x3F : UInt32) &&& o 5 >>> 3).toUInt8 ||| (((0x3 : UInt32) &&& o 6) <<< 6).toUInt8
  | 7 => ((0x7F : UInt32) &&& o 6 >>> 2).toUInt8 ||| (((0x1 : UInt32) &&& o 7) <<< 7).toUInt8
  | 8 => ((0xFF : UInt32) &&& o 7 >>> 1).toUInt8
  | 9 => ((0xFF : UInt32) &&& o 8).toUInt8
  | 10 => ((0x1 : UInt32) &&& o 8 >>> 8).toUInt8 ||| (((0x7F : UInt32) &&& o 9) <<< 1).toUInt8
  -- no mask: the high bits of the lane are lost in the conversion
  | 11 => ((0x3 : UInt32) &&& o 9 >>> 7).toUInt8 ||| (o 10 <<< 2).toUInt8
  | 12 => ((0x7 : UInt32) &&& o 10 >>> 6).toUInt8 ||| (((0x1F : UInt32) &&& o 11) <<< 3).toUInt8
  | 13 => ((0xF : UInt32) &&& o 11 >>> 5).toUInt8 ||| (((0xF : UInt32) &&& o 12) <<< 4).toUInt8
  | 14 => ((0x1F : UInt32) &&& o 12 >>> 4).toUInt8 ||| (((0x7 : UInt32) &&& o 13) <<< 5).toUInt8
  | 15 => ((0x3F : UInt32) &&& o 13 >>> 3).toUInt8 ||| (((0x3 : UInt32) &&& o 14) <<< 6).toUInt8
  | 16 => ((0x7F : UInt32) &&& o 14 >>> 2).toUInt8 ||| (((0x1 : UInt32) &&& o 15) <<< 7).toUInt8
  | _ => ((0xFF : UInt32) &&& o 15 >>> 1).toUInt8

/-- `unpackY`: the bytes for four vectors of lanes. -/
def unpackY (Y : Vector (Vector UInt16 16) 4) : Node :=
  Vector.ofFn fun n => unpackByte (opi Y (n.val / 18)) (n.val % 18)

theorem opi_toNat (Y : Vector (Vector UInt16 16) 4) (i j : Nat) :
    (opi Y i j).toNat = ((Y[i]!)[j]!).toNat % 257 := by
  rw [opi, UInt32.toNat_mod, UInt16.toNat_toUInt32]
  rfl

/-- Byte `k` of the nine bytes for eight coefficients. -/
def packedByte (v : Nat → Nat) (k : Nat) : Nat :=
  v (k - 1) / 2 ^ (9 - k) % 2 ^ k + 2 ^ k * (v k % 2 ^ (8 - k))

/-- The low bits of a coefficient, selected by a mask. -/
theorem toNat_low {y m s : UInt32} {k : Nat} (hk : k ≤ 8) (hm : m.toNat = 2 ^ (8 - k) - 1)
    (hs : s.toNat = k) : ((m &&& y) <<< s).toUInt8.toNat = y.toNat % 2 ^ (8 - k) * 2 ^ k := by
  have byte : y.toNat % 2 ^ (8 - k) * 2 ^ k < 2 ^ 8 := by
    calc y.toNat % 2 ^ (8 - k) * 2 ^ k < 2 ^ (8 - k) * 2 ^ k :=
          Nat.mul_lt_mul_of_pos_right (Nat.mod_lt _ (Nat.two_pow_pos _)) (Nat.two_pow_pos _)
      _ = 2 ^ 8 := by rw [← Nat.pow_add, Nat.sub_add_cancel hk]
  rw [UInt32.toNat_toUInt8, toNat_shiftLeft k hs (by omega), toNat_mask (8 - k) hm,
    Nat.mod_eq_of_lt (lt_trans byte (by decide)), Nat.mod_eq_of_lt byte]

/-- The same without the mask. -/
theorem toNat_low_unmasked {y s : UInt32} {k : Nat} (hk : k ≤ 8) (hs : s.toNat = k)
    (hy : y.toNat < 512) : (y <<< s).toUInt8.toNat = y.toNat % 2 ^ (8 - k) * 2 ^ k := by
  have wide : y.toNat * 2 ^ k < 2 ^ 32 := by
    calc y.toNat * 2 ^ k ≤ 512 * 2 ^ 8 :=
          Nat.mul_le_mul (Nat.le_of_lt hy) (Nat.pow_le_pow_right (by omega) hk)
      _ < 2 ^ 32 := by decide
  have byte : 2 ^ 8 = 2 ^ (8 - k) * 2 ^ k := by rw [← Nat.pow_add, Nat.sub_add_cancel hk]
  rw [UInt32.toNat_toUInt8, toNat_shiftLeft k hs (by omega), Nat.mod_eq_of_lt wide, byte,
    Nat.mul_mod_mul_right]

/-- The high bits of one coefficient with the low bits of the next one. -/
theorem toNat_packed {x m s : UInt32} {b : UInt8} {k r : Nat} (hk : k ≤ 8)
    (hm : m.toNat = 2 ^ k - 1) (hs : s.toNat = 9 - k) (hb : b.toNat = r * 2 ^ k) :
    ((m &&& x >>> s).toUInt8 ||| b).toNat = x.toNat / 2 ^ (9 - k) % 2 ^ k + 2 ^ k * r := by
  have high : x.toNat / 2 ^ (9 - k) % 2 ^ k < 2 ^ k := Nat.mod_lt _ (Nat.two_pow_pos _)
  have byte : 2 ^ k ≤ 2 ^ 8 := Nat.pow_le_pow_right (by omega) hk
  rw [UInt8.toNat_or, hb, UInt32.toNat_toUInt8, toNat_mask k hm, toNat_shiftRight _ hs (by omega),
    Nat.mod_eq_of_lt (lt_of_lt_of_le high byte), or_eq_add _ high]

/-- The first byte has no high bits, and the last one no low bits. -/
theorem toNat_first (y : UInt32) : ((0xFF : UInt32) &&& y).toUInt8.toNat = y.toNat % 2 ^ 8 := by
  rw [UInt32.toNat_toUInt8, toNat_mask 8 rfl, Nat.mod_mod]

theorem unpackByte_eq {o : Nat → UInt32} (ho : ∀ j, (o j).toNat < 512) {h k : Nat} (hh : h < 2)
    (hk : k < 9) :
    (unpackByte o (9 * h + k)).toNat = packedByte (fun j => (o (8 * h + j)).toNat) k := by
  have first (y : UInt32) (x : Nat) : ((0xFF : UInt32) &&& y).toUInt8.toNat
      = x / 2 ^ (9 - 0) % 2 ^ 0 + 2 ^ 0 * (y.toNat % 2 ^ (8 - 0)) := by
    rw [toNat_first, Nat.pow_zero, Nat.mod_one, Nat.zero_add, Nat.one_mul, Nat.sub_zero]
  have last (x y : UInt32) : ((0xFF : UInt32) &&& x >>> 1).toUInt8.toNat
      = x.toNat / 2 ^ (9 - 8) % 2 ^ 8 + 2 ^ 8 * (y.toNat % 2 ^ (8 - 8)) := by
    rw [toNat_first, toNat_shiftRight 1 rfl (by omega), Nat.sub_self, Nat.pow_zero, Nat.mod_one,
      Nat.mul_zero, Nat.add_zero]
  rcases h with _ | _ | h
  · rcases k with _ | _ | _ | _ | _ | _ | _ | _ | _ | k
    · exact first _ _
    · exact toNat_packed (k := 1) (by omega) rfl rfl (toNat_low (by omega) rfl rfl)
    · exact toNat_packed (k := 2) (by omega) rfl rfl (toNat_low (by omega) rfl rfl)
    · exact toNat_packed (k := 3) (by omega) rfl rfl (toNat_low (by omega) rfl rfl)
    · exact toNat_packed (k := 4) (by omega) rfl rfl (toNat_low (by omega) rfl rfl)
    · exact toNat_packed (k := 5) (by omega) rfl rfl (toNat_low (by omega) rfl rfl)
    · exact toNat_packed (k := 6) (by omega) rfl rfl (toNat_low (by omega) rfl rfl)
    · exact toNat_packed (k := 7) (by omega) rfl rfl (toNat_low (by omega) rfl rfl)
    · exact last _ _
    · omega
  · rcases k with _ | _ | _ | _ | _ | _ | _ | _ | _ | k
    · exact first _ _
    · exact toNat_packed (k := 1) (by omega) rfl rfl (toNat_low (by omega) rfl rfl)
    · exact toNat_packed (k := 2) (by omega) rfl rfl (toNat_low_unmasked (by omega) rfl (ho _))
    · exact toNat_packed (k := 3) (by omega) rfl rfl (toNat_low (by omega) rfl rfl)
    · exact toNat_packed (k := 4) (by omega) rfl rfl (toNat_low (by omega) rfl rfl)
    · exact toNat_packed (k := 5) (by omega) rfl rfl (toNat_low (by omega) rfl rfl)
    · exact toNat_packed (k := 6) (by omega) rfl rfl (toNat_low (by omega) rfl rfl)
    · exact toNat_packed (k := 7) (by omega) rfl rfl (toNat_low (by omega) rfl rfl)
    · exact last _ _
    · omega
  · omega

/-! ## `convert_ring` -/

/-- Coefficient `k` of the eight in nine bytes. -/
def readCoefficient (b : Nat → Nat) (k : Nat) : Nat :=
  b k / 2 ^ k + 2 ^ (8 - k) * (b (k + 1) % 2 ^ (k + 1))

/-- The high bits of one byte and the low bits of the next one. -/
theorem toNat_read {x z s t : UInt32} {k r : Nat} (hk : k < 8) (hx : x.toNat < 256)
    (hs : s.toNat = k) (hz : z.toNat = r) (hr : r < 2 ^ (k + 1)) (ht : t.toNat = 8 - k) :
    (x >>> s ||| z <<< t).toNat = x.toNat / 2 ^ k + 2 ^ (8 - k) * r := by
  have low : x.toNat / 2 ^ k < 2 ^ (8 - k) := by
    rw [Nat.div_lt_iff_lt_mul (Nat.two_pow_pos _), ← Nat.pow_add, Nat.sub_add_cancel (by omega)]
    exact hx
  have wide : r * 2 ^ (8 - k) < 2 ^ 32 := by
    calc r * 2 ^ (8 - k) < 2 ^ (k + 1) * 2 ^ (8 - k) :=
          Nat.mul_lt_mul_of_pos_right hr (Nat.two_pow_pos _)
      _ = 2 ^ 9 := by rw [← Nat.pow_add]; congr 1; omega
      _ < 2 ^ 32 := by decide
  rw [UInt32.toNat_or, toNat_shiftRight k hs (by omega), toNat_shiftLeft _ ht (by omega), hz,
    Nat.mod_eq_of_lt wide, or_eq_add _ low]

theorem toNat_masked {y m : UInt32} {k : Nat} (hm : m.toNat = 2 ^ (k + 1) - 1) :
    (y &&& m).toNat = y.toNat % 2 ^ (k + 1) := by
  rw [UInt32.and_comm, toNat_mask _ hm]

theorem convertRing_eq (rg8 : Node) {q k : Nat} (hq : q < 8) (hk : k < 8) :
    ((convertRing rg8)[8 * q + k]!).toNat
      = readCoefficient (fun j => (rg8[9 * q + j]!).toNat) k := by
  have quotient : (8 * q + k) / 8 = q := by omega
  have remainder : (8 * q + k) % 8 = k := by omega
  have byte (j : Nat) : ((rg8[9 * q + j]!).toUInt32).toNat = (rg8[9 * q + j]!).toNat :=
    UInt8.toNat_toUInt32 _
  have small (j : Nat) : ((rg8[9 * q + j]!).toUInt32).toNat < 256 := by
    rw [byte]
    exact UInt8.toNat_lt _
  have masked (j k : Nat) {m : UInt32} (hm : m.toNat = 2 ^ (k + 1) - 1) :
      ((rg8[9 * q + j]!).toUInt32 &&& m).toNat = (rg8[9 * q + j]!).toNat % 2 ^ (k + 1) := by
    rw [toNat_masked hm, byte]
  have lt (x k : Nat) : x % 2 ^ (k + 1) < 2 ^ (k + 1) := Nat.mod_lt _ (Nat.two_pow_pos _)
  rw [getElem!_pos (convertRing rg8) _ (by unfold rglen; omega), convertRing, Vector.getElem_ofFn,
    readCoefficient]
  simp only [quotient, remainder]
  rw [← byte k]
  rcases k with _ | _ | _ | _ | _ | _ | _ | _ | k
  · have all : (rg8[9 * q + 0]!).toUInt32 >>> 0 = (rg8[9 * q + 0]!).toUInt32 := by
      rw [UInt32.shiftRight_zero]
    have read := @toNat_read _ _ 0 8 0 _ (by omega) (small 0) rfl (masked 1 0 (m := 1) rfl)
      (lt _ _) rfl
    rwa [all] at read
  · exact toNat_read (k := 1) (by omega) (small 1) rfl (masked 2 1 rfl) (lt _ _) rfl
  · exact toNat_read (k := 2) (by omega) (small 2) rfl (masked 3 2 rfl) (lt _ _) rfl
  · exact toNat_read (k := 3) (by omega) (small 3) rfl (masked 4 3 rfl) (lt _ _) rfl
  · exact toNat_read (k := 4) (by omega) (small 4) rfl (masked 5 4 rfl) (lt _ _) rfl
  · exact toNat_read (k := 5) (by omega) (small 5) rfl (masked 6 5 rfl) (lt _ _) rfl
  · exact toNat_read (k := 6) (by omega) (small 6) rfl (masked 7 6 rfl) (lt _ _) rfl
  · refine toNat_read (k := 7) (by omega) (small 7) rfl ?_ (lt _ _) rfl
    rw [byte, Nat.mod_eq_of_lt]
    exact UInt8.toNat_lt _
  · omega

/-! ## Round trips -/

/-- Nine bytes hold eight coefficients of nine bits. -/
theorem readCoefficient_packedByte {v : Nat → Nat} {k : Nat} (hk : k < 8) (hv : v k < 512) :
    readCoefficient (packedByte v) k = v k := by
  have low : packedByte v k / 2 ^ k = v k % 2 ^ (8 - k) := by
    rw [packedByte, Nat.add_mul_div_left _ _ (Nat.two_pow_pos _),
      Nat.div_eq_of_lt (Nat.mod_lt _ (Nat.two_pow_pos _)), Nat.zero_add]
  have top : v k / 2 ^ (8 - k) < 2 ^ (k + 1) := by
    rw [Nat.div_lt_iff_lt_mul (Nat.two_pow_pos _), ← Nat.pow_add,
      show k + 1 + (8 - k) = 9 by omega]
    exact hv
  have high : packedByte v (k + 1) % 2 ^ (k + 1) = v k / 2 ^ (8 - k) := by
    rw [packedByte, Nat.add_mul_mod_self_left, Nat.mod_mod, Nat.add_sub_cancel,
      show 9 - (k + 1) = 8 - k by omega, Nat.mod_eq_of_lt top]
  rw [readCoefficient, low, high, Nat.mod_add_div]

/-- The lanes of a ring element. -/
def lanes (a : RgElm) : Vector (Vector UInt16 16) 4 :=
  Vector.ofFn fun i => Vector.ofFn fun j => (a[16 * i.val + j.val]!).toUInt16

/-- Every lane is read back modulo 257, and what is read packs to the same bytes. -/
structure PacksLanes (Y : Vector (Vector UInt16 16) 4) : Prop where
  read : ∀ i (hi : i < 4) j (hj : j < 16),
    ((convertRing (unpackY Y))[16 * i + j]!).toNat = Y[i][j].toNat % 257
  reduced : ∀ n < 64, ((convertRing (unpackY Y))[n]!).toNat < 257
  again : unpackY (lanes (convertRing (unpackY Y))) = unpackY Y

theorem opi_lt (Y : Vector (Vector UInt16 16) 4) (i j : Nat) : (opi Y i j).toNat < 257 := by
  rw [opi_toNat]
  exact Nat.mod_lt _ (by decide)

/-- The bytes of `unpackY`, by their place among nine. -/
theorem unpackY_eq (Y : Vector (Vector UInt16 16) 4) {q k : Nat} (hq : q < 8) (hk : k < 9) :
    ((unpackY Y)[9 * q + k]!).toNat
      = packedByte (fun j => (opi Y (q / 2) (8 * (q % 2) + j)).toNat) k := by
  have vector : (9 * q + k) / 18 = q / 2 := by omega
  have place : (9 * q + k) % 18 = 9 * (q % 2) + k := by omega
  rw [getElem!_pos (unpackY Y) _ (by unfold pklen; omega), unpackY, Vector.getElem_ofFn]
  simp only [vector, place]
  exact unpackByte_eq (fun j => lt_trans (opi_lt Y _ j) (by decide)) (by omega) hk

theorem convertRing_unpackY (Y : Vector (Vector UInt16 16) 4) {i j : Nat} (hi : i < 4)
    (hj : j < 16) : ((convertRing (unpackY Y))[16 * i + j]!).toNat = (opi Y i j).toNat := by
  have index : 16 * i + j = 8 * (2 * i + j / 8) + j % 8 := by omega
  have vector : (2 * i + j / 8) / 2 = i := by omega
  have lane : 8 * ((2 * i + j / 8) % 2) + j % 8 = j := by omega
  have bytes (k : Nat) (hk : k < 9) := @unpackY_eq Y (2 * i + j / 8) k (by omega) hk
  rw [index, convertRing_eq _ (by omega) (by omega), readCoefficient, bytes _ (by omega),
    bytes _ (by omega), vector]
  have read := @readCoefficient_packedByte
    (fun k => (opi Y i (8 * ((2 * i + j / 8) % 2) + k)).toNat) (j % 8) (by omega)
    (lt_trans (opi_lt Y i _) (by decide))
  rw [readCoefficient, lane] at read
  exact read

/-- **ROUND TRIP** of the lanes of all vectors, and of the bytes they are packed into. -/
theorem packsLanes (Y : Vector (Vector UInt16 16) 4) : PacksLanes Y := by
  have read (i : Nat) (hi : i < 4) (j : Nat) (hj : j < 16) :
      ((convertRing (unpackY Y))[16 * i + j]!).toNat = (opi Y i j).toNat :=
    convertRing_unpackY Y hi hj
  refine ⟨fun i hi j hj => ?_, fun n hn => ?_, ?_⟩
  · rw [read i hi j hj, opi_toNat, getElem!_pos Y i hi, getElem!_pos Y[i] j hj]
  · have split : n = 16 * (n / 16) + n % 16 := by omega
    rw [split, read _ (by omega) _ (by omega)]
    exact opi_lt Y _ _
  · -- the lanes that are packed again are reduced already
    have same (i : Nat) (hi : i < 4) : opi (lanes (convertRing (unpackY Y))) i = opi Y i := by
      funext j
      by_cases hj : j < 16
      swap
      · rw [opi, opi, getElem!_neg _ j hj, getElem!_neg _ j hj]
      apply UInt32.toNat_inj.mp
      have lt := opi_lt Y i j
      rw [opi_toNat, lanes, getElem!_pos _ i hi, Vector.getElem_ofFn, getElem!_pos _ j hj,
        Vector.getElem_ofFn, UInt32.toNat_toUInt16, read i hi j hj,
        Nat.mod_eq_of_lt (lt_trans lt (by decide)), Nat.mod_eq_of_lt lt]
    generalize lanes (convertRing (unpackY Y)) = Y' at same ⊢
    apply Vector.ext
    intro n hn
    have vector : n / 18 < 4 := by
      unfold pklen at hn
      omega
    simp only [unpackY, Vector.getElem_ofFn, same _ vector]

end PqDtls.Ksnmss
