import PqDtls.Ecc.FieldProofs
import Mathlib.Data.Nat.ModEq
import Mathlib.Data.Nat.Prime.Basic

/-! # Inversion

    `fieldInv` is the binary form of Euclid's algorithm.  **`fieldInv_inverts`**: it returns
    exactly for the numbers that have an inverse, and then the inverse; for the others, zero
    among them, its loops run forever. -/

namespace PqDtls.Ecc

open Words

/-! ## The code -/

/-- The loops of `isOne`. -/
def isOne (A : List (BitVec 32)) : Bool :=
  (List.range 7).all (fun n => A.getD (n + 1) 0 == 0) && A.getD 0 0 == 1

/-- `rshift`, from the top word down, with the bit that falls out. -/
def rshift : List (BitVec 32) → List (BitVec 32) × BitVec 32
  | [] => ([], 0)
  | x :: xs =>
      let rest := rshift xs
      ((x >>> 1 ||| rest.2 <<< 31) :: rest.1, x &&& 1)

def fieldAddAndDivide (x modulus reducer : List (BitVec 32)) : List (BitVec 32) :=
  let sum := add x modulus arrayLength
  let result := (rshift sum.1).1
  if sum.2 ≠ 0 then
    -- add the carry
    let result := result.set 7 (result.getD 7 0 ||| 0x80000000)
    if isGreater result modulus arrayLength = 1 then (add result reducer 8).1 else result
  else result

/-- `while (!(u[0] & 1))`, with the halving of `x` beside it; `none` without fuel. -/
def halve (modulus reducer : List (BitVec 32)) :
    Nat → List (BitVec 32) → List (BitVec 32) → Option (List (BitVec 32) × List (BitVec 32))
  | 0, _, _ => none
  | fuel + 1, u, x =>
      if u.getD 0 0 &&& 1 = 0 then
        halve modulus reducer fuel (rshift u).1
          (if x.getD 0 0 &&& 1 = 0 then (rshift x).1 else fieldAddAndDivide x modulus reducer)
      else some (u, x)

/-- `while ((isOne(u) || isOne(v)) == 0)` and the choice behind it. -/
def inverseLoop (modulus reducer : List (BitVec 32)) (inner : Nat) :
    Nat → (u v x1 x2 : List (BitVec 32)) → Option (List (BitVec 32))
  | 0, _, _, _, _ => none
  | fuel + 1, u, v, x1, x2 =>
      if isOne u || isOne v then some (if isOne u then x1 else x2)
      else
        (halve modulus reducer inner u x1).bind fun (u, x1) =>
        (halve modulus reducer inner v x2).bind fun (v, x2) =>
        let t := sub u v arrayLength
        if t.2 = 0 then inverseLoop modulus reducer inner fuel t.1 v (fieldSub x1 x2 modulus) x2
        else inverseLoop modulus reducer inner fuel u (sub v u arrayLength).1 x1
          (fieldSub x2 x1 modulus)

def fieldInv (fuel : Nat) (A modulus reducer : List (BitVec 32)) : Option (List (BitVec 32)) :=
  inverseLoop modulus reducer fuel fuel (A.take arrayLength) (modulus.take arrayLength)
    [1, 0, 0, 0, 0, 0, 0, 0] (List.replicate 8 0)

/-! ## Bits -/

variable {x y u v M R : List (BitVec 32)} {fuel : Nat}

theorem even_iff (hx : 0 < x.length) : x.getD 0 0 &&& 1 = 0 ↔ value x % 2 = 0 := by
  cases x with
  | nil => exact absurd hx (lt_irrefl 0)
  | cons w ws =>
      have one : (1 : BitVec 32).toNat = 1 := rfl
      have zero : (0 : BitVec 32).toNat = 0 := rfl
      rw [← BitVec.toNat_inj, BitVec.toNat_and, one, zero, Nat.and_one_is_mod, value]
      show w.toNat % 2 = 0 ↔ _
      omega

/-- **HALVING** with the bit that falls out. -/
theorem rshift_value (x : List (BitVec 32)) :
    value (rshift x).1 = value x / 2 ∧ (rshift x).2.toNat = value x % 2
      ∧ (rshift x).1.length = x.length := by
  induction x with
  | nil => exact ⟨rfl, rfl, rfl⟩
  | cons w ws ih =>
      obtain ⟨half, bit, size⟩ := ih
      have one : (1 : BitVec 32).toNat = 1 := rfl
      have small : w.toNat / 2 < 2 ^ 31 := by
        have := w.isLt
        omega
      have moved : (w >>> 1 ||| (rshift ws).2 <<< 31).toNat
          = w.toNat / 2 + 2 ^ 31 * (value ws % 2) := by
        have high : (rshift ws).2.toNat <<< 31 % 2 ^ 32 = 2 ^ 31 * (value ws % 2) := by
          rw [bit, Nat.shiftLeft_eq]
          omega
        rw [BitVec.toNat_or, BitVec.toNat_ushiftRight, BitVec.toNat_shiftLeft, high,
          Nat.shiftRight_eq_div_pow, pow_one, Nat.or_comm,
          ← Nat.two_pow_add_eq_or_of_lt small, Nat.add_comm]
      refine ⟨?_, ?_, congrArg (· + 1) size⟩
      · show (w >>> 1 ||| (rshift ws).2 <<< 31).toNat + 2 ^ 32 * value (rshift ws).1
          = (w.toNat + 2 ^ 32 * value ws) / 2
        rw [moved, half]
        omega
      · show (w &&& 1).toNat = (w.toNat + 2 ^ 32 * value ws) % 2
        rw [BitVec.toNat_and, one, Nat.and_one_is_mod]
        omega

theorem eight_words (hx : x.length = 8) :
    x = [x.getD 0 0, x.getD 1 0, x.getD 2 0, x.getD 3 0, x.getD 4 0, x.getD 5 0, x.getD 6 0,
      x.getD 7 0] := by
  conv_lhs => rw [← List.drop_zero (l := x)]
  rw [drop_getD (by omega), drop_getD (by omega), drop_getD (by omega), drop_getD (by omega),
    drop_getD (by omega), drop_getD (by omega), drop_getD (by omega), drop_getD (by omega),
    List.drop_of_length_le hx.le]

theorem value_eq_one (w0 w1 w2 w3 w4 w5 w6 w7 : BitVec 32) :
    value [w0, w1, w2, w3, w4, w5, w6, w7] = 1 ↔ (w1.toNat = 0 ∧ w2.toNat = 0 ∧ w3.toNat = 0
      ∧ w4.toNat = 0 ∧ w5.toNat = 0 ∧ w6.toNat = 0 ∧ w7.toNat = 0) ∧ w0.toNat = 1 := by
  simp only [value]
  omega

theorem isOne_iff (hx : x.length = 8) : isOne x = true ↔ value x = 1 := by
  have one : (1 : BitVec 32).toNat = 1 := rfl
  have zero : (0 : BitVec 32).toNat = 0 := rfl
  have words : isOne x = ((x.getD 1 0 == 0 && (x.getD 2 0 == 0 && (x.getD 3 0 == 0
      && (x.getD 4 0 == 0 && (x.getD 5 0 == 0 && (x.getD 6 0 == 0
      && (x.getD 7 0 == 0 && true))))))) && x.getD 0 0 == 1) := rfl
  conv_rhs => rw [eight_words hx, value_eq_one]
  simp only [words, Bool.and_eq_true, beq_iff_eq, ← BitVec.toNat_inj, one, zero, and_true]

/-- The top bit that a carry sets. -/
theorem set_top (hx : x.length = 8) (small : value x < 2 ^ 255) :
    value (x.set 7 (x.getD 7 0 ||| 0x80000000)) = value x + 2 ^ 255 := by
  have split := value_take_succ x (show 7 < x.length by omega)
  rw [List.take_of_length_le hx.le] at split
  have top : (x.getD 7 0).toNat < 2 ^ 31 := by omega
  have bit : (x.getD 7 0 ||| 0x80000000).toNat = (x.getD 7 0).toNat + 2 ^ 31 := by
    have mask : (0x80000000 : BitVec 32).toNat = 2 ^ 31 * 1 := rfl
    rw [BitVec.toNat_or, mask, Nat.or_comm, ← Nat.two_pow_add_eq_or_of_lt top]
    omega
  rw [List.set_eq_take_append_cons_drop, if_pos (by omega), value_append,
    List.drop_of_length_le hx.le, value, value, bit, List.length_take_of_le (by omega), split]
  omega

/-! ## One step -/

variable {m : Nat}

/-- An odd number below the odd modulus is halved by way of the modulus. -/
theorem fieldAddAndDivide_value (hx : x.length = 8) (hM : 8 ≤ M.length)
    (hm : value (M.take 8) = m) (below : value x < m) (odd : value x % 2 = 1) (oddM : m % 2 = 1) :
    2 * value (fieldAddAndDivide x M R) = value x + m
      ∧ (fieldAddAndDivide x M R).length = 8 := by
  obtain ⟨sum, size⟩ := add_value hx.ge hM
  rw [List.take_of_length_le hx.le, hm] at sum
  obtain ⟨half, -, size'⟩ := rshift_value (add x M 8).1
  rw [size] at size'
  have bound := value_lt (add x M 8).1
  have most := value_take_lt M 8
  rw [hm] at most
  rw [size] at bound
  rw [fieldAddAndDivide, show arrayLength = 8 from rfl]
  by_cases carry : (add x M 8).2 = 0
  · have none : (add x M 8).2.toNat = 0 := by rw [carry]; rfl
    rw [if_neg (not_not.mpr carry)]
    exact ⟨by rw [none] at sum; omega, size'⟩
  · have some : (add x M 8).2.toNat ≠ 0 := fun zero => carry (BitVec.toNat_inj.mp zero)
    have top := set_top size' (by omega)
    have notGreater : isGreater ((rshift (add x M 8).1).1.set 7
        ((rshift (add x M 8).1).1.getD 7 0 ||| 0x80000000)) M 8 ≠ 1 := by
      rw [isGreater_value (by rw [List.length_set, size']) hM, List.take_of_length_le (by
        rw [List.length_set, size']), top, hm, if_neg (by omega)]
      split_ifs <;> decide
    rw [if_pos carry, if_neg notGreater, List.length_set]
    exact ⟨by rw [top]; omega, size'⟩

/-- The halving loop divides by a power of two, in both numbers. -/
theorem halve_value (hM : 8 ≤ M.length) (hm : value (M.take 8) = m) (oddM : m % 2 = 1)
    (hu : u.length = 8) (hx : x.length = 8) (below : value x < m)
    {u' x' : List (BitVec 32)} (h : halve M R fuel u x = some (u', x')) :
    ∃ k, value u = 2 ^ k * value u' ∧ 2 ^ k * value x' ≡ value x [MOD m] ∧ value u' % 2 = 1
      ∧ u'.length = 8 ∧ x'.length = 8 ∧ value x' < m := by
  induction fuel generalizing u x with
  | zero => cases h
  | succ fuel ih =>
      rw [halve] at h
      by_cases even : u.getD 0 0 &&& 1 = 0
      · rw [if_pos even] at h
        rw [even_iff (by omega)] at even
        obtain ⟨half, -, size⟩ := rshift_value u
        obtain ⟨next, twice, size', below'⟩ : ∃ y, 2 * value y ≡ value x [MOD m] ∧ y.length = 8
            ∧ value y < m ∧ (if x.getD 0 0 &&& 1 = 0 then (rshift x).1
              else fieldAddAndDivide x M R) = y := by
          by_cases evenX : x.getD 0 0 &&& 1 = 0
          · rw [if_pos evenX]
            rw [even_iff (by omega)] at evenX
            obtain ⟨halfX, -, sizeX⟩ := rshift_value x
            refine ⟨_, ?_, sizeX.trans hx, by omega, rfl⟩
            rw [halfX, Nat.mul_div_cancel' (Nat.dvd_of_mod_eq_zero evenX)]
          · rw [if_neg evenX]
            rw [even_iff (by omega)] at evenX
            obtain ⟨double, sizeX⟩ := @fieldAddAndDivide_value x M R m hx hM hm below
              (by omega) oddM
            refine ⟨_, ?_, sizeX, by omega, rfl⟩
            rw [double]
            exact Nat.add_mod_right ..
        rw [below'.2] at h
        obtain ⟨k, divided, power, rest⟩ := ih (size.trans hu) size' below'.1 h
        refine ⟨k + 1, ?_, ?_, rest⟩
        · rw [pow_succ', Nat.mul_assoc, ← divided, half,
            Nat.mul_div_cancel' (Nat.dvd_of_mod_eq_zero even)]
        · rw [pow_succ', Nat.mul_assoc]
          exact (power.mul_left 2).trans twice
      · rw [if_neg even] at h
        cases h
        rw [even_iff (by omega)] at even
        exact ⟨0, by rw [pow_zero, one_mul], by rw [pow_zero, one_mul], by omega, hu, hx, below⟩

/-- It ends for a number that is not zero. -/
theorem halve_ends (positive : 0 < value u) (bound : value u < 2 ^ fuel) (hu : 0 < u.length) :
    (halve M R fuel u x).isSome := by
  induction fuel generalizing u x with
  | zero =>
      rw [pow_zero] at bound
      omega
  | succ fuel ih =>
      rw [halve]
      by_cases even : u.getD 0 0 &&& 1 = 0
      · rw [if_pos even]
        rw [even_iff hu] at even
        obtain ⟨half, -, size⟩ := rshift_value u
        rw [pow_succ] at bound
        exact ih (by omega) (by omega) (by omega)
      · rw [if_neg even]
        rfl

/-! ## The state of the algorithm -/

/-- A difference modulo the modulus. -/
theorem fieldSub_congruent (hx : x.length = 8) (hy : y.length = 8) (hM : 8 ≤ M.length)
    (hm : value (M.take 8) = m) (belowX : value x < m) (belowY : value y < m) :
    value (fieldSub x y M) + value y ≡ value x [MOD m] ∧ value (fieldSub x y M) < m
      ∧ (fieldSub x y M).length = 8 := by
  obtain ⟨difference, size⟩ := @fieldSub_value x y M hx hy hM (by omega)
  rw [hm] at difference
  split_ifs at difference with larger
  · exact ⟨by rw [difference, Nat.add_zero], by omega, size⟩
  · refine ⟨?_, by omega, size⟩
    rw [difference]
    exact Nat.add_mod_right ..

theorem sub_borrow (hu : u.length = 8) (hv : v.length = 8) :
    (sub u v 8).2 = 0 ↔ value v ≤ value u := by
  obtain ⟨difference, size⟩ := sub_value hu.ge hv.ge
  have bound := value_lt (sub u v 8).1
  have small := value_lt u
  rw [List.take_of_length_le hu.le, List.take_of_length_le hv.le] at difference
  rw [size] at bound
  rw [hu] at small
  have zero : (0 : BitVec 32).toNat = 0 := rfl
  rw [← BitVec.toNat_inj, zero]
  omega

/-- What holds whenever the outer loop starts again: both numbers are the multiples of `a` that
    stand beside them, and have the odd divisors that `a` and the modulus have in common. -/
structure Euclid (a m : Nat) (u v x y : List (BitVec 32)) : Prop where
  sizeU : u.length = 8
  sizeV : v.length = 8
  sizeX : x.length = 8
  sizeY : y.length = 8
  left : value x * a ≡ value u [MOD m]
  right : value y * a ≡ value v [MOD m]
  belowX : value x < m
  belowY : value y < m
  odd : value u % 2 = 1 ∨ value v % 2 = 1
  common : ∀ d, d % 2 = 1 → (d ∣ value u ∧ d ∣ value v ↔ d ∣ a ∧ d ∣ m)

variable {a inner : Nat} {u' x' v' y' : List (BitVec 32)}

theorem Euclid.swap (h : Euclid a m u v x y) : Euclid a m v u y x :=
  ⟨h.sizeV, h.sizeU, h.sizeY, h.sizeX, h.right, h.left, h.belowY, h.belowX, h.odd.symm,
    fun d hd => and_comm.trans (h.common d hd)⟩

theorem coprime_two_pow (hm : m % 2 = 1) (k : Nat) : Nat.Coprime m (2 ^ k) := by
  refine Nat.Coprime.pow_right k (Nat.Coprime.symm ?_)
  rw [Nat.Prime.coprime_iff_not_dvd Nat.prime_two]
  omega

/-- What a halving loop does to the first number. -/
theorem Euclid.halve (h : Euclid a m u v x y) (hM : 8 ≤ M.length) (hm : value (M.take 8) = m)
    (oddM : m % 2 = 1) (run : PqDtls.Ecc.halve M R fuel u x = some (u', x')) :
    Euclid a m u' v x' y ∧ value u' % 2 = 1 ∧ value u' ≤ value u
      ∧ (value u % 2 = 1 → value u' = value u) ∧ (value u % 2 = 0 → 2 * value u' ≤ value u) := by
  obtain ⟨k, divided, power, odd, sizeU, sizeX, below⟩ :=
    halve_value hM hm oddM h.sizeU h.sizeX h.belowX run
  have left : value x' * a ≡ value u' [MOD m] := by
    refine Nat.ModEq.cancel_left_of_coprime (coprime_two_pow oddM k) ?_
    rw [← Nat.mul_assoc, ← divided]
    exact (power.mul_right a).trans h.left
  have common (d : Nat) (hd : d % 2 = 1) : d ∣ value u' ∧ d ∣ value v ↔ d ∣ a ∧ d ∣ m := by
    rw [← h.common d hd, divided, (coprime_two_pow hd k).dvd_mul_left]
  refine ⟨⟨sizeU, h.sizeV, sizeX, h.sizeY, left, h.right, below, h.belowY, Or.inl odd, common⟩, odd,
    ?_, ?_, ?_⟩
  · rw [divided]
    exact Nat.le_mul_of_pos_left _ (Nat.two_pow_pos k)
  · intro oddU
    cases k with
    | zero => rw [divided, pow_zero, one_mul]
    | succ k =>
        rw [divided, pow_succ', Nat.mul_assoc] at oddU
        omega
  · intro even
    cases k with
    | zero =>
        rw [divided, pow_zero, one_mul] at even
        omega
    | succ k =>
        rw [divided, pow_succ', Nat.mul_assoc]
        exact Nat.mul_le_mul_left 2 (Nat.le_mul_of_pos_left _ (Nat.two_pow_pos k))

/-- The subtraction that follows, when the first number is not smaller. -/
theorem Euclid.subtract (h : Euclid a m u v x y) (hM : 8 ≤ M.length) (hm : value (M.take 8) = m)
    (odd : value v % 2 = 1) (larger : value v ≤ value u) :
    Euclid a m (sub u v 8).1 v (fieldSub x y M) y
      ∧ value (sub u v 8).1 = value u - value v := by
  have exact' := sub_exact h.sizeU.ge h.sizeV.ge (by
    rw [List.take_of_length_le h.sizeU.le, List.take_of_length_le h.sizeV.le]
    exact larger)
  rw [List.take_of_length_le h.sizeU.le, List.take_of_length_le h.sizeV.le] at exact'
  obtain ⟨difference, below, size⟩ := fieldSub_congruent h.sizeX h.sizeY hM hm h.belowX h.belowY
  have left : value (fieldSub x y M) * a ≡ value (sub u v 8).1 [MOD m] := by
    refine Nat.ModEq.add_right_cancel h.right ?_
    rw [exact', Nat.sub_add_cancel larger, ← Nat.add_mul]
    exact (difference.mul_right a).trans h.left
  refine ⟨⟨(sub_value h.sizeU.ge h.sizeV.ge).2, h.sizeV, size, h.sizeY, left, h.right, below,
    h.belowY, Or.inr odd, fun d hd => ?_⟩, exact'⟩
  rw [← h.common d hd, exact']
  constructor
  · rintro ⟨rest, divides⟩
    exact ⟨(Nat.sub_add_cancel larger) ▸ Nat.dvd_add rest divides, divides⟩
  · rintro ⟨whole, divides⟩
    exact ⟨Nat.dvd_sub whole divides, divides⟩

/-! ## The loop -/

/-- Whenever the loop ends, there is an inverse, and the loop has found it. -/
theorem inverseLoop_sound (hM : 8 ≤ M.length) (hm : value (M.take 8) = m) (oddM : m % 2 = 1)
    (h : Euclid a m u v x y) {B : List (BitVec 32)}
    (run : inverseLoop M R inner fuel u v x y = some B) :
    Nat.Coprime a m ∧ value B < m ∧ value B * a ≡ 1 [MOD m] ∧ B.length = 8 := by
  induction fuel generalizing u v x y with
  | zero => cases run
  | succ fuel ih =>
      rw [inverseLoop] at run
      by_cases found : isOne u || isOne v
      · rw [if_pos found] at run
        have unit : value u = 1 ∨ value v = 1 := by
          rw [Bool.or_eq_true, isOne_iff h.sizeU, isOne_iff h.sizeV] at found
          exact found
        have coprime : Nat.Coprime a m := by
          have odd : Nat.gcd a m % 2 = 1 := by
            by_contra even
            have two : 2 ∣ Nat.gcd a m := by omega
            have := two.trans (Nat.gcd_dvd_right a m)
            omega
          obtain ⟨inU, inV⟩ := (h.common _ odd).mpr ⟨Nat.gcd_dvd_left a m, Nat.gcd_dvd_right a m⟩
          rcases unit with one | one
          · exact Nat.dvd_one.mp (one ▸ inU)
          · exact Nat.dvd_one.mp (one ▸ inV)
        by_cases first : isOne u = true
        · rw [if_pos first] at run
          cases run
          rw [isOne_iff h.sizeU] at first
          exact ⟨coprime, h.belowX, first ▸ h.left, h.sizeX⟩
        · rw [if_neg first] at run
          cases run
          rw [isOne_iff h.sizeU] at first
          exact ⟨coprime, h.belowY, (unit.resolve_left first) ▸ h.right, h.sizeY⟩
      · rw [if_neg found] at run
        obtain ⟨⟨u₁, x₁⟩, run₁, run⟩ := Option.bind_eq_some_iff.mp run
        obtain ⟨⟨v₁, y₁⟩, run₂, run⟩ := Option.bind_eq_some_iff.mp run
        obtain ⟨h₁, oddU, -⟩ := h.halve hM hm oddM run₁
        obtain ⟨h₂, oddV, -⟩ := h₁.swap.halve hM hm oddM run₂
        dsimp only [arrayLength] at run
        by_cases larger : value v₁ ≤ value u₁
        · rw [if_pos ((sub_borrow h₁.sizeU h₂.sizeU).mpr larger)] at run
          exact ih (h₂.swap.subtract hM hm oddV larger).1 run
        · rw [if_neg (fun none => larger ((sub_borrow h₁.sizeU h₂.sizeU).mp none))] at run
          exact ih (h₂.subtract hM hm oddU (by omega)).1.swap run

/-- An iteration that is not the last: the product of the two numbers does not grow, and it is
    halved if one of them was even, as one of them is afterwards. -/
theorem inverseLoop_step (hM : 8 ≤ M.length) (hm : value (M.take 8) = m) (oddM : m % 2 = 1)
    (coprime : Nat.Coprime a m) (room : 256 ≤ inner) (h : Euclid a m u v x y)
    (positiveU : 0 < value u) (positiveV : 0 < value v)
    (more : ¬ (isOne u || isOne v) = true) :
    ∃ u' v' x' y', inverseLoop M R inner (fuel + 1) u v x y
        = inverseLoop M R inner fuel u' v' x' y' ∧ Euclid a m u' v' x' y'
      ∧ 0 < value u' ∧ 0 < value v' ∧ (value u' % 2 = 0 ∨ value v' % 2 = 0)
      ∧ value u' * value v' ≤ value u * value v
      ∧ (value u % 2 = 0 ∨ value v % 2 = 0 → 2 * (value u' * value v') ≤ value u * value v) := by
  have fits (w : List (BitVec 32)) (hw : w.length = 8) : value w < 2 ^ inner := by
    have small := value_lt w
    rw [hw] at small
    exact small.trans_le (Nat.pow_le_pow_right (by decide) room)
  obtain ⟨⟨u₁, x₁⟩, run₁⟩ := Option.isSome_iff_exists.mp
    (@halve_ends x u M R inner positiveU (fits u h.sizeU) (by rw [h.sizeU]; decide))
  obtain ⟨⟨v₁, y₁⟩, run₂⟩ := Option.isSome_iff_exists.mp
    (@halve_ends y v M R inner positiveV (fits v h.sizeV) (by rw [h.sizeV]; decide))
  obtain ⟨h₁, oddU, leU, keepU, halfU⟩ := h.halve hM hm oddM run₁
  obtain ⟨h₂, oddV, leV, keepV, halfV⟩ := h₁.swap.halve hM hm oddM run₂
  have product : value u₁ * value v₁ ≤ value u * value v := Nat.mul_le_mul leU leV
  have smaller : value u % 2 = 0 ∨ value v % 2 = 0
      → 2 * (value u₁ * value v₁) ≤ value u * value v := by
    rintro (even | even)
    · rw [← Nat.mul_assoc]
      exact Nat.mul_le_mul (halfU even) leV
    · rw [Nat.mul_left_comm]
      exact Nat.mul_le_mul leU (halfV even)
  -- equal numbers would be one, and one of them was so before
  have different : value u₁ ≠ value v₁ := by
    intro same
    have common := (h₂.common (value u₁) oddU).mp ⟨same ▸ dvd_rfl, dvd_rfl⟩
    have one : value u₁ = 1 := Nat.eq_one_of_dvd_coprimes coprime common.1 common.2
    rw [Bool.or_eq_true, isOne_iff h.sizeU, isOne_iff h.sizeV] at more
    rcases h.odd with odd | odd
    · exact more (Or.inl (keepU odd ▸ one))
    · exact more (Or.inr (keepV odd ▸ same ▸ one))
  have next : inverseLoop M R inner (fuel + 1) u v x y
      = if (sub u₁ v₁ 8).2 = 0 then
          inverseLoop M R inner fuel (sub u₁ v₁ 8).1 v₁ (fieldSub x₁ y₁ M) y₁
        else inverseLoop M R inner fuel u₁ (sub v₁ u₁ 8).1 x₁ (fieldSub y₁ x₁ M) := by
    rw [inverseLoop, if_neg more, run₁]
    show (halve M R inner v y).bind _ = _
    rw [run₂]
    rfl
  rw [next]
  by_cases larger : value v₁ ≤ value u₁
  · obtain ⟨after, less⟩ := h₂.swap.subtract hM hm oddV larger
    have shrink : value (sub u₁ v₁ 8).1 * value v₁ ≤ value u₁ * value v₁ :=
      Nat.mul_le_mul_right _ (by omega)
    rw [if_pos ((sub_borrow h₁.sizeU h₂.sizeU).mpr larger)]
    exact ⟨_, _, _, _, rfl, after, by omega, by omega, Or.inl (by omega), shrink.trans product,
      fun even => (Nat.mul_le_mul_left 2 shrink).trans (smaller even)⟩
  · obtain ⟨after, less⟩ := h₂.subtract hM hm oddU (by omega)
    have shrink : value u₁ * value (sub v₁ u₁ 8).1 ≤ value u₁ * value v₁ :=
      Nat.mul_le_mul_left _ (by omega)
    rw [if_neg (fun none => larger ((sub_borrow h₁.sizeU h₂.sizeU).mp none))]
    exact ⟨_, _, _, _, rfl, after.swap, by omega, by omega, Or.inr (by omega),
      shrink.trans product, fun even => (Nat.mul_le_mul_left 2 shrink).trans (smaller even)⟩

/-- So there are no more iterations than the product has bits. -/
theorem inverseLoop_ends {n : Nat} (hM : 8 ≤ M.length) (hm : value (M.take 8) = m)
    (oddM : m % 2 = 1) (coprime : Nat.Coprime a m) (room : 256 ≤ inner)
    (h : Euclid a m u v x y) (positiveU : 0 < value u) (positiveV : 0 < value v)
    (even : value u % 2 = 0 ∨ value v % 2 = 0) (bound : value u * value v < 2 ^ n)
    (enough : n < fuel) : (inverseLoop M R inner fuel u v x y).isSome := by
  induction n generalizing fuel u v x y with
  | zero =>
      have := Nat.mul_pos positiveU positiveV
      omega
  | succ n ih =>
      obtain ⟨fuel, rfl⟩ : ∃ f, fuel = f + 1 := ⟨fuel - 1, by omega⟩
      by_cases found : (isOne u || isOne v) = true
      · rw [inverseLoop, if_pos found]
        rfl
      · obtain ⟨u', v', x', y', run, after, posU, posV, even', -, half⟩ :=
          @inverseLoop_step x y u v M R fuel m a inner hM hm oddM coprime room h positiveU positiveV
            found
        have product := half even
        rw [run]
        exact ih after posU posV even' (by rw [pow_succ] at bound; omega) (by omega)

variable {A modulus reducer : List (BitVec 32)}

/-- The state that `fieldInv` sets up. -/
theorem Euclid.start (hA : 8 ≤ A.length) (hM : 8 ≤ modulus.length)
    (oddM : value (modulus.take 8) % 2 = 1) (one : 1 < value (modulus.take 8)) :
    Euclid (value (A.take 8)) (value (modulus.take 8)) (A.take 8) (modulus.take 8)
      [1, 0, 0, 0, 0, 0, 0, 0] (List.replicate 8 0) := by
  have unit : value [1, 0, 0, 0, 0, 0, 0, (0 : BitVec 32)] = 1 := by decide
  have zero : value (List.replicate 8 (0 : BitVec 32)) = 0 := value_zeros 8
  refine ⟨List.length_take_of_le hA, List.length_take_of_le hM, rfl, rfl, ?_, ?_, ?_, ?_,
    Or.inr oddM, fun _ _ => Iff.rfl⟩
  · rw [unit, one_mul]
  · rw [zero, zero_mul]
    exact (Nat.zero_mod _).trans (Nat.mod_self _).symm
  · rw [unit]
    exact one
  · rw [zero]
    omega

theorem fieldInv_sound (hA : 8 ≤ A.length) (hM : 8 ≤ modulus.length)
    (oddM : value (modulus.take 8) % 2 = 1) (one : 1 < value (modulus.take 8))
    {B : List (BitVec 32)} (run : fieldInv fuel A modulus reducer = some B) :
    Nat.Coprime (value (A.take 8)) (value (modulus.take 8))
      ∧ value B * value (A.take 8) ≡ 1 [MOD value (modulus.take 8)]
      ∧ value B < value (modulus.take 8) ∧ B.length = 8 := by
  obtain ⟨coprime, below, inverse, size⟩ :=
    inverseLoop_sound hM rfl oddM (Euclid.start hA hM oddM one) run
  exact ⟨coprime, inverse, below, size⟩

theorem fieldInv_ends (hA : 8 ≤ A.length) (hM : 8 ≤ modulus.length)
    (oddM : value (modulus.take 8) % 2 = 1) (one : 1 < value (modulus.take 8))
    (coprime : Nat.Coprime (value (A.take 8)) (value (modulus.take 8))) (enough : 514 ≤ fuel) :
    (fieldInv fuel A modulus reducer).isSome := by
  have positive : 0 < value (A.take 8) := by
    rw [Nat.pos_iff_ne_zero]
    intro zero
    rw [zero, Nat.coprime_zero_left] at coprime
    omega
  obtain ⟨fuel, rfl⟩ : ∃ f, fuel = f + 1 := ⟨fuel - 1, by omega⟩
  rw [fieldInv, show arrayLength = 8 from rfl]
  by_cases found : (isOne (A.take 8) || isOne (modulus.take 8)) = true
  · rw [inverseLoop, if_pos found]
    rfl
  · have bits := pow_add 2 (32 * 8) (32 * 8)
    obtain ⟨u', v', x', y', run, after, posU, posV, even, product, -⟩ :=
      @inverseLoop_step _ _ _ _ modulus reducer fuel _ _ (fuel + 1) hM rfl oddM coprime (by omega)
        (Euclid.start hA hM oddM one) positive (by omega) found
    have bound : value (A.take 8) * value (modulus.take 8) < 2 ^ (32 * 8 + 32 * 8) := by
      rw [bits]
      exact Nat.mul_lt_mul'' (value_take_lt A 8) (value_take_lt modulus 8)
    rw [run]
    exact @inverseLoop_ends _ _ _ _ modulus reducer fuel _ _ (fuel + 1) (32 * 8 + 32 * 8) hM rfl
      oddM coprime (by omega) after posU posV even (product.trans_lt bound) (by omega)

/-- **INVERSION**: it ends exactly when there is an inverse, after 513 iterations at most, and
    gives it. -/
theorem fieldInv_inverts (A modulus reducer : List (BitVec 32)) (hA : 8 ≤ A.length)
    (hM : 8 ≤ modulus.length) (oddM : value (modulus.take 8) % 2 = 1)
    (one : 1 < value (modulus.take 8)) :
    (∀ fuel B, fieldInv fuel A modulus reducer = some B →
        Nat.Coprime (value (A.take 8)) (value (modulus.take 8))
          ∧ value B * value (A.take 8) % value (modulus.take 8) = 1
          ∧ value B < value (modulus.take 8) ∧ B.length = 8)
      ∧ (Nat.Coprime (value (A.take 8)) (value (modulus.take 8)) →
        ∀ fuel ≥ 514, (fieldInv fuel A modulus reducer).isSome) := by
  constructor
  · intro fuel B run
    obtain ⟨coprime, inverse, below, size⟩ := fieldInv_sound hA hM oddM one run
    exact ⟨coprime, Eq.trans inverse (Nat.mod_eq_of_lt one), below, size⟩
  · intro coprime fuel enough
    exact fieldInv_ends hA hM oddM one coprime enough

theorem fieldInv_inverts_two :
    (fieldInv 514 (2 :: List.replicate 7 0) eccOrderM eccOrderR).isSome :=
  (fieldInv_inverts (2 :: List.replicate 7 0) eccOrderM eccOrderR (by decide) (by decide)
    (by decide) (by decide)).2 (by decide +kernel) 514 le_rfl

end PqDtls.Ecc
