import Mathlib.Tactic.Ring
import Mathlib.Tactic.Linarith

/-! # Numbers in words

    A number is a list of words of `b` bits, least significant first; `value` is the number.
    **`barrett`** bounds the quotient that two multiplications and shifts estimate. -/

namespace PqDtls.Words

variable {b : Nat}

/-- The number that words stand for. -/
def value : List (BitVec b) → Nat
  | [] => 0
  | w :: ws => w.toNat + 2 ^ b * value ws

theorem value_append (xs ys : List (BitVec b)) :
    value (xs ++ ys) = value xs + 2 ^ (b * xs.length) * value ys := by
  induction xs with
  | nil => rw [List.nil_append, value, List.length_nil, Nat.mul_zero, pow_zero, one_mul, zero_add]
  | cons x xs ih =>
      rw [List.cons_append, value, value, ih, List.length_cons, Nat.mul_succ, pow_add]
      ring

theorem value_lt (xs : List (BitVec b)) : value xs < 2 ^ (b * xs.length) := by
  induction xs with
  | nil => exact Nat.one_pos
  | cons x xs ih =>
      have low := x.isLt
      have step : 2 ^ b * (value xs + 1) ≤ 2 ^ b * 2 ^ (b * xs.length) := Nat.mul_le_mul_left _ ih
      rw [value, List.length_cons, Nat.mul_succ, Nat.add_comm (b * _), pow_add]
      rw [Nat.mul_succ] at step
      omega

theorem value_zeros (n : Nat) : value (List.replicate n (0 : BitVec b)) = 0 := by
  induction n with
  | zero => rfl
  | succ n ih =>
      rw [List.replicate_succ, value, ih, Nat.mul_zero, BitVec.ofNat_eq_ofNat, BitVec.toNat_ofNat,
        Nat.zero_mod]

/-- The words up to `n` and those from there on. -/
theorem value_split (xs : List (BitVec b)) {n : Nat} (h : n ≤ xs.length) :
    value xs = value (xs.take n) + 2 ^ (b * n) * value (xs.drop n) := by
  conv_lhs => rw [← List.take_append_drop n xs, value_append, List.length_take_of_le h]

theorem value_take_lt (xs : List (BitVec b)) (n : Nat) : value (xs.take n) < 2 ^ (b * n) :=
  (value_lt _).trans_le (Nat.pow_le_pow_right (by omega)
    (Nat.mul_le_mul_left b (List.length_take_le n xs)))

theorem value_take (xs : List (BitVec b)) {n : Nat} (h : n ≤ xs.length) :
    value (xs.take n) = value xs % 2 ^ (b * n) := by
  rw [value_split xs h, Nat.add_mul_mod_self_left, Nat.mod_eq_of_lt (value_take_lt xs n)]

theorem value_drop (xs : List (BitVec b)) {n : Nat} (h : n ≤ xs.length) :
    value (xs.drop n) = value xs / 2 ^ (b * n) := by
  rw [value_split xs h, Nat.add_mul_div_left _ _ (by positivity),
    Nat.div_eq_of_lt (value_take_lt xs n), zero_add]

/-- One word more. -/
theorem value_take_succ (xs : List (BitVec b)) {n : Nat} (h : n < xs.length) :
    value (xs.take (n + 1)) = value (xs.take n) + 2 ^ (b * n) * (xs.getD n 0).toNat := by
  rw [List.take_succ_eq_append_getElem h, value_append, List.length_take_of_le h.le,
    List.getD_eq_getElem?_getD, List.getElem?_eq_getElem h, Option.getD_some, value, value,
    Nat.mul_zero, Nat.add_zero]

/-- Words at a place among zeros. -/
theorem value_zeros_append (n : Nat) (xs : List (BitVec b)) :
    value (xs ++ List.replicate n 0) = value xs := by
  rw [value_append, value_zeros, Nat.mul_zero, Nat.add_zero]

/-! ## Barrett's estimate -/

section Barrett

variable {s t m x : Nat}

/-- The quotient from the upper words of `x` and of the reciprocal. -/
def estimate (s t m x : Nat) : Nat := x / s * (s * t / m) / t

/-- It is not too large. -/
theorem estimate_le (hs : 0 < s) (ht : 0 < t) : estimate s t m x * m ≤ x := by
  have upper := Nat.div_mul_le_self x s
  have reciprocal := Nat.div_mul_le_self (s * t) m
  have quotient := Nat.div_mul_le_self (x / s * (s * t / m)) t
  have scaled : estimate s t m x * m * (s * t) ≤ x * (s * t) :=
    calc
      estimate s t m x * m * (s * t) = estimate s t m x * t * (s * m) := by ring
      _ ≤ x / s * (s * t / m) * (s * m) := Nat.mul_le_mul_right _ quotient
      _ = x / s * s * (s * t / m * m) := by ring
      _ ≤ x * (s * t) := Nat.mul_le_mul upper reciprocal
  exact Nat.le_of_mul_le_mul_right scaled (Nat.mul_pos hs ht)

/-- **BARRETT**: it is too small by two at most. -/
theorem barrett (hs : 0 < s) (ht : 0 < t) (large : s ≤ m) (small : x < s * t) :
    x < (estimate s t m x + 3) * m := by
  have hm : 0 < m := hs.trans_le large
  have upper : x ≤ x / s * s + s := by
    have := Nat.lt_div_mul_add hs (a := x)
    omega
  have reciprocal : s * t ≤ s * t / m * m + m := (Nat.lt_div_mul_add hm).le
  have quotient : x / s * (s * t / m) < estimate s t m x * t + t := Nat.lt_div_mul_add ht
  have bound : s * t / m ≤ t := by
    refine Nat.div_le_of_le_mul ?_
    exact Nat.mul_le_mul_right t large
  have scaled : x * (s * t) < (estimate s t m x + 3) * m * (s * t) :=
    calc
      x * (s * t) ≤ x * (s * t / m * m + m) := Nat.mul_le_mul_left _ reciprocal
      _ = x * (s * t / m * m) + x * m := by ring
      _ ≤ (x / s * s + s) * (s * t / m * m) + s * t * m :=
        Nat.add_le_add (Nat.mul_le_mul_right _ upper) (Nat.mul_le_mul_right _ small.le)
      _ = x / s * (s * t / m) * (s * m) + s * (s * t / m) * m + s * t * m := by ring
      _ ≤ x / s * (s * t / m) * (s * m) + s * t * m + s * t * m :=
        Nat.add_le_add_right (Nat.add_le_add_left
          (Nat.mul_le_mul_right _ (Nat.mul_le_mul_left _ bound)) _) _
      _ < (estimate s t m x * t + t) * (s * m) + s * t * m + s * t * m :=
        Nat.add_lt_add_right (Nat.add_lt_add_right
          (Nat.mul_lt_mul_of_pos_right quotient (Nat.mul_pos hs hm)) _) _
      _ = (estimate s t m x + 3) * m * (s * t) := by ring
  exact Nat.lt_of_mul_lt_mul_right scaled

end Barrett

end PqDtls.Words
