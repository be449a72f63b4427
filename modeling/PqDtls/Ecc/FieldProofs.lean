import PqDtls.Ecc.Field

/-! # What the arithmetic computes

    The loops are exact with their carries and borrows.  From this follow **`fieldModO_reduces`**,
    Barrett's reduction modulo the order of the curve, and **`fieldModP_reduces`**, the reduction
    modulo the prime of the field by sums of rearranged words. -/

namespace PqDtls.Ecc

open Words

variable {x y M xs ys : List (BitVec 32)} {d : BitVec 64} {n : Nat}

/-! ## Addition and subtraction -/

/-- One word of `add`. -/
theorem add_word {p q : BitVec 32} (h : d.toNat ≤ 1) :
    ((d + (p.setWidth 64 + q.setWidth 64)).setWidth 32).toNat
        + 2 ^ 32 * ((d + (p.setWidth 64 + q.setWidth 64)) >>> 32).toNat
      = p.toNat + q.toNat + d.toNat
    ∧ ((d + (p.setWidth 64 + q.setWidth 64)) >>> 32).toNat ≤ 1 := by
  have hp := p.isLt
  have hq := q.isLt
  have sum : (d + (p.setWidth 64 + q.setWidth 64)).toNat = d.toNat + (p.toNat + q.toNat) := by
    rw [BitVec.toNat_add, BitVec.toNat_add, BitVec.toNat_setWidth, BitVec.toNat_setWidth]
    omega
  rw [BitVec.toNat_setWidth, BitVec.toNat_ushiftRight, sum, Nat.shiftRight_eq_div_pow]
  omega

theorem addLoop_value (same : xs.length = ys.length) (h : d.toNat ≤ 1) :
    value (addLoop d xs ys).1 + 2 ^ (32 * xs.length) * (addLoop d xs ys).2.toNat
        = value xs + value ys + d.toNat
      ∧ (addLoop d xs ys).1.length = xs.length := by
  induction xs generalizing ys d with
  | nil =>
      cases ys with
      | nil =>
          have small : (d.setWidth 32).toNat = d.toNat := by
            rw [BitVec.toNat_setWidth]
            omega
          refine ⟨?_, rfl⟩
          show 0 + 2 ^ (32 * 0) * (d.setWidth 32).toNat = 0 + 0 + d.toNat
          rw [small]
          omega
      | cons y ys => cases same
  | cons x xs ih =>
      cases ys with
      | nil => cases same
      | cons y ys =>
          obtain ⟨word, carry⟩ := @add_word d x y h
          obtain ⟨rest, count⟩ := ih (Nat.succ.inj same) carry
          refine ⟨?_, congrArg (· + 1) count⟩
          show _ + 2 ^ 32 * value _ + 2 ^ (32 * (xs.length + 1)) * (addLoop _ xs ys).2.toNat
            = x.toNat + 2 ^ 32 * value xs + (y.toNat + 2 ^ 32 * value ys) + d.toNat
          rw [Nat.mul_succ, pow_add]
          linarith

/-- **ADDITION** with its carry. -/
theorem add_value (hx : n ≤ x.length) (hy : n ≤ y.length) :
    value (add x y n).1 + 2 ^ (32 * n) * (add x y n).2.toNat
        = value (x.take n) + value (y.take n)
      ∧ (add x y n).1.length = n := by
  have lengths := List.length_take_of_le hx
  have sum := @addLoop_value (x.take n) (y.take n) 0
    (lengths.trans (List.length_take_of_le hy).symm) (Nat.zero_le 1)
  rw [lengths] at sum
  exact sum

/-- One word of `sub`. -/
theorem sub_word {p q : BitVec 32} (h : d.toNat ≤ 1) :
    (((p.setWidth 64 - q.setWidth 64 - d) &&& 0xFFFFFFFF).setWidth 32).toNat + q.toNat + d.toNat
      = p.toNat + 2 ^ 32 * ((p.setWidth 64 - q.setWidth 64 - d) >>> 32 &&& 1).toNat
    ∧ ((p.setWidth 64 - q.setWidth 64 - d) >>> 32 &&& 1).toNat ≤ 1 := by
  have hp := p.isLt
  have hq := q.isLt
  have low (v : BitVec 64) : ((v &&& 0xFFFFFFFF).setWidth 32).toNat = v.toNat % 2 ^ 32 := by
    rw [BitVec.toNat_setWidth, BitVec.toNat_and]
    have mask : (0xFFFFFFFF : BitVec 64).toNat = 2 ^ 32 - 1 := rfl
    rw [mask, Nat.and_two_pow_sub_one_eq_mod, Nat.mod_mod]
  have bit (v : BitVec 64) : (v >>> 32 &&& 1).toNat = v.toNat / 2 ^ 32 % 2 := by
    rw [BitVec.toNat_and, BitVec.toNat_ushiftRight, Nat.shiftRight_eq_div_pow]
    have one : (1 : BitVec 64).toNat = 1 := rfl
    rw [one, Nat.and_one_is_mod]
  have difference : (p.setWidth 64 - q.setWidth 64 - d).toNat
      = (2 ^ 64 + p.toNat - q.toNat - d.toNat) % 2 ^ 64 := by
    rw [BitVec.toNat_sub, BitVec.toNat_sub, BitVec.toNat_setWidth, BitVec.toNat_setWidth]
    omega
  rw [low, bit, difference]
  omega

theorem subLoop_value (same : xs.length = ys.length) (h : d.toNat ≤ 1) :
    value (subLoop d xs ys).1 + value ys + d.toNat
        = value xs + 2 ^ (32 * xs.length) * (subLoop d xs ys).2.toNat
      ∧ (subLoop d xs ys).1.length = xs.length := by
  induction xs generalizing ys d with
  | nil =>
      cases ys with
      | nil =>
          have small : (d.setWidth 32).toNat = d.toNat := by
            rw [BitVec.toNat_setWidth]
            omega
          refine ⟨?_, rfl⟩
          show 0 + 0 + d.toNat = 0 + 2 ^ (32 * 0) * (d.setWidth 32).toNat
          rw [small]
          omega
      | cons y ys => cases same
  | cons x xs ih =>
      cases ys with
      | nil => cases same
      | cons y ys =>
          obtain ⟨word, borrow⟩ := @sub_word d x y h
          obtain ⟨rest, count⟩ := ih (Nat.succ.inj same) borrow
          refine ⟨?_, congrArg (· + 1) count⟩
          show _ + 2 ^ 32 * value _ + (y.toNat + 2 ^ 32 * value ys) + d.toNat
            = x.toNat + 2 ^ 32 * value xs
              + 2 ^ (32 * (xs.length + 1)) * (subLoop _ xs ys).2.toNat
          rw [Nat.mul_succ, pow_add]
          linarith

/-- **SUBTRACTION** with its borrow. -/
theorem sub_value (hx : n ≤ x.length) (hy : n ≤ y.length) :
    value (sub x y n).1 + value (y.take n)
        = value (x.take n) + 2 ^ (32 * n) * (sub x y n).2.toNat
      ∧ (sub x y n).1.length = n := by
  have lengths := List.length_take_of_le hx
  have difference := @subLoop_value (x.take n) (y.take n) 0
    (lengths.trans (List.length_take_of_le hy).symm) (Nat.zero_le 1)
  rw [lengths] at difference
  exact difference

/-- Without a borrow into the words from `n` on. -/
theorem sub_exact (hx : n ≤ x.length) (hy : n ≤ y.length)
    (h : value (y.take n) ≤ value (x.take n)) :
    value (sub x y n).1 = value (x.take n) - value (y.take n) := by
  obtain ⟨difference, count⟩ := sub_value hx hy
  have small := value_lt (sub x y n).1
  have bound := value_take_lt x n
  rw [count] at small
  have none : (sub x y n).2.toNat = 0 := by
    by_contra some
    have : 2 ^ (32 * n) * 1 ≤ 2 ^ (32 * n) * (sub x y n).2.toNat :=
      Nat.mul_le_mul_left _ (Nat.one_le_iff_ne_zero.mpr some)
    omega
  rw [none] at difference
  omega

/-! ## Comparison -/

/-- The words below `n` are compared from the top. -/
theorem isGreater_value (hx : n ≤ x.length) (hy : n ≤ y.length) :
    isGreater x y n = if value (x.take n) > value (y.take n) then 1
      else if value (x.take n) < value (y.take n) then -1 else 0 := by
  rw [isGreater]
  induction n with
  | zero => rfl
  | succ n ih =>
      have lowx := value_take_lt x n
      have lowy := value_take_lt y n
      rw [isGreaterLoop, ih (Nat.le_of_succ_le hx) (Nat.le_of_succ_le hy), value_take_succ x hx,
        value_take_succ y hy]
      rcases Nat.lt_trichotomy (x.getD n 0).toNat (y.getD n 0).toNat with less | same | greater
      · have step := Nat.mul_le_mul_left (2 ^ (32 * n)) (Nat.succ_le_of_lt less)
        rw [Nat.mul_succ] at step
        have below : x.getD n 0 < y.getD n 0 := less
        have notAbove : ¬ x.getD n 0 > y.getD n 0 := Nat.lt_asymm less
        rw [if_neg notAbove, if_pos below, if_neg (by omega), if_pos (by omega)]
      · have notAbove : ¬ x.getD n 0 > y.getD n 0 := same.not_gt
        have notBelow : ¬ x.getD n 0 < y.getD n 0 := same.not_lt
        rw [if_neg notAbove, if_neg notBelow, same]
        simp only [gt_iff_lt, Nat.add_lt_add_iff_right]
      · have step := Nat.mul_le_mul_left (2 ^ (32 * n)) (Nat.succ_le_of_lt greater)
        rw [Nat.mul_succ] at step
        have above : x.getD n 0 > y.getD n 0 := greater
        rw [if_pos above, if_pos (by omega)]

theorem isGreater_nonneg (hx : n ≤ x.length) (hy : n ≤ y.length) :
    isGreater x y n ≥ 0 ↔ value (y.take n) ≤ value (x.take n) := by
  rw [isGreater_value hx hy]
  split_ifs with above below
  · exact ⟨fun _ => above.le, fun _ => by decide⟩
  · exact ⟨fun h => absurd h (by decide), fun h => absurd below (Nat.not_lt.mpr h)⟩
  · exact ⟨fun _ => Nat.le_of_not_lt below, fun _ => le_rfl⟩

/-! ## Multiplication -/

variable {k length : Nat} {result : List (BitVec 32)}

/-- The two words of a product. -/
theorem product_words (p q : BitVec 32) :
    ((p.setWidth 64 * q.setWidth 64 &&& 0xFFFFFFFF).setWidth 32 : BitVec 32).toNat
        + 2 ^ 32 * ((p.setWidth 64 * q.setWidth 64) >>> 32 |>.setWidth 32 : BitVec 32).toNat
      = p.toNat * q.toNat := by
  have bound : p.toNat * q.toNat < 2 ^ 32 * 2 ^ 32 := Nat.mul_lt_mul'' p.isLt q.isLt
  rw [← pow_add] at bound
  have product : (p.setWidth 64 * q.setWidth 64).toNat = p.toNat * q.toNat := by
    rw [BitVec.toNat_mul, BitVec.toNat_setWidth_of_le (by decide),
      BitVec.toNat_setWidth_of_le (by decide)]
    exact Nat.mod_eq_of_lt bound
  have mask : (0xFFFFFFFF : BitVec 64).toNat = 2 ^ 32 - 1 := rfl
  rw [BitVec.toNat_setWidth, BitVec.toNat_and, BitVec.toNat_setWidth, BitVec.toNat_ushiftRight,
    product, mask, Nat.and_two_pow_sub_one_eq_mod, Nat.shiftRight_eq_div_pow]
  omega

/-- The temporary number of `fieldMult`, from its first word that is written. -/
theorem drop_product (m r : Nat) (lo hi : BitVec 32) :
    (((List.replicate (m + (r + 2)) (0 : BitVec 32)).set m lo).set (m + 1) hi).drop m
      = lo :: hi :: List.replicate r 0 := by
  have zeros : (List.replicate m (0 : BitVec 32)).length = m := List.length_replicate
  rw [← List.replicate_append_replicate, List.set_append_right _ _ zeros.le, zeros, Nat.sub_self,
    List.replicate_succ, List.set_cons_zero, List.set_append_right _ _ (by omega), zeros,
    Nat.add_sub_cancel_left, List.set_cons_succ, List.replicate_succ, List.set_cons_zero,
    List.drop_left' zeros]

theorem multStep_value (hn : n < length) (hk : k < length) (hl : length ≤ 127)
    (size : result.length = length * 2)
    (room : value result + 2 ^ (32 * (n + k)) * ((x.getD n 0).toNat * (y.getD k 0).toNat)
      < 2 ^ (32 * (length * 2))) :
    value (multStep x y length k n result)
        = value result + 2 ^ (32 * (n + k)) * ((x.getD n 0).toNat * (y.getD k 0).toNat)
      ∧ (multStep x y length k n result).length = length * 2 := by
  obtain ⟨r, hr⟩ : ∃ r, length * 2 = n + k + (r + 2) := ⟨length * 2 - (n + k) - 2, by omega⟩
  have count : (length * 2 - (n + k)) % 2 ^ 8 = r + 2 := by omega
  have words := product_words (x.getD n 0) (y.getD k 0)
  have upper : (result.drop (n + k)).length = r + 2 := by
    rw [List.length_drop]
    omega
  have split := value_split result (show n + k ≤ result.length by omega)
  rw [multStep, count, hr, drop_product]
  generalize ((x.getD n 0).setWidth 64 * (y.getD k 0).setWidth 64 &&& 0xFFFFFFFF).setWidth 32
    = lo at words ⊢
  generalize (((x.getD n 0).setWidth 64 * (y.getD k 0).setWidth 64) >>> 32).setWidth 32
    = hi at words ⊢
  have temp : value (lo :: hi :: List.replicate r 0)
      = (x.getD n 0).toNat * (y.getD k 0).toNat := by
    rw [value, value, value_zeros, Nat.mul_zero, Nat.add_zero]
    exact words
  have long : (lo :: hi :: List.replicate r (0 : BitVec 32)).length = r + 2 := by
    rw [List.length_cons, List.length_cons, List.length_replicate]
  obtain ⟨sum, written⟩ := add_value long.ge upper.ge
  rw [List.take_of_length_le long.le, List.take_of_length_le upper.le, temp] at sum
  have carry :
      (add (lo :: hi :: List.replicate r 0) (result.drop (n + k)) (r + 2)).2.toNat = 0 := by
    by_contra some
    have most : 2 ^ (32 * (r + 2)) * 1 ≤ 2 ^ (32 * (r + 2)) * _ :=
      Nat.mul_le_mul_left _ (Nat.one_le_iff_ne_zero.mpr some)
    have scaled : 2 ^ (32 * (n + k)) * 2 ^ (32 * (r + 2)) ≤ 2 ^ (32 * (n + k))
        * ((x.getD n 0).toNat * (y.getD k 0).toNat + value (result.drop (n + k))) :=
      Nat.mul_le_mul_left _ (by omega)
    rw [← pow_add, ← Nat.mul_add, ← hr, Nat.mul_add] at scaled
    omega
  rw [carry, Nat.mul_zero, Nat.add_zero] at sum
  have rest : result.drop (n + k + (r + 2)) = [] := List.drop_of_length_le (by omega)
  have low : (result.take (n + k)).length = n + k := List.length_take_of_le (by omega)
  rw [rest, List.append_nil]
  constructor
  · rw [value_append, low, sum, split]
    ring
  · rw [List.length_append, low, written]

/-- A row of `fieldMult`, up to its word `n`. -/
theorem multRow_value (hx : length ≤ x.length) (hn : n ≤ length) (hk : k < length)
    (hl : length ≤ 127) (size : result.length = length * 2)
    (room : value result + 2 ^ (32 * k) * (value (x.take length) * (y.getD k 0).toNat)
      < 2 ^ (32 * (length * 2))) :
    value ((List.range n).foldl (fun result n => multStep x y length k n result) result)
        = value result + 2 ^ (32 * k) * (value (x.take n) * (y.getD k 0).toNat)
      ∧ ((List.range n).foldl (fun result n => multStep x y length k n result) result).length
        = length * 2 := by
  induction n with
  | zero =>
      refine ⟨?_, size⟩
      show value result = value result + _ * (0 * _)
      rw [Nat.zero_mul, Nat.mul_zero, Nat.add_zero]
  | succ n ih =>
      obtain ⟨row, written⟩ := ih (by omega)
      have more := value_take_succ x (show n < x.length by omega)
      have part : value (x.take (n + 1)) ≤ value (x.take length) := by
        have whole := value_split (x.take length) (show n + 1 ≤ (x.take length).length by
          rw [List.length_take_of_le hx]; exact hn)
        rw [List.take_take, Nat.min_eq_left hn] at whole
        omega
      have next : value result + 2 ^ (32 * k) * (value (x.take n) * (y.getD k 0).toNat)
            + 2 ^ (32 * (n + k)) * ((x.getD n 0).toNat * (y.getD k 0).toNat)
          = value result + 2 ^ (32 * k) * (value (x.take (n + 1)) * (y.getD k 0).toNat) := by
        rw [more, Nat.mul_add 32 n k, pow_add]
        ring
      have bound : 2 ^ (32 * k) * (value (x.take (n + 1)) * (y.getD k 0).toNat)
          ≤ 2 ^ (32 * k) * (value (x.take length) * (y.getD k 0).toNat) :=
        Nat.mul_le_mul_left _ (Nat.mul_le_mul_right _ part)
      rw [List.range_succ, List.foldl_append, List.foldl_cons, List.foldl_nil]
      obtain ⟨step, size'⟩ := @multStep_value x y n k length _ (by omega) hk hl written
        (by rw [row, next]; omega)
      exact ⟨by rw [step, row, next], size'⟩

/-- **MULTIPLICATION** is exact. -/
theorem fieldMult_value (hx : length ≤ x.length) (hy : length ≤ y.length) (hl : length ≤ 127) :
    value (fieldMult x y length) = value (x.take length) * value (y.take length)
      ∧ (fieldMult x y length).length = length * 2 := by
  have rows (j : Nat) (hj : j ≤ length) :
      value ((List.range j).foldl (fun result k => (List.range length).foldl
          (fun result n => multStep x y length k n result) result)
          (List.replicate (length * 2) 0)) = value (x.take length) * value (y.take j)
        ∧ ((List.range j).foldl (fun result k => (List.range length).foldl
          (fun result n => multStep x y length k n result) result)
          (List.replicate (length * 2) 0)).length = length * 2 := by
    induction j with
    | zero => exact ⟨value_zeros _, List.length_replicate⟩
    | succ j ih =>
        obtain ⟨before, written⟩ := ih (by omega)
        have next : value (x.take length) * value (y.take j)
              + 2 ^ (32 * j) * (value (x.take length) * (y.getD j 0).toNat)
            = value (x.take length) * value (y.take (j + 1)) := by
          rw [value_take_succ y (by omega)]
          ring
        have bound : value (x.take length) * value (y.take (j + 1)) < 2 ^ (32 * (length * 2)) :=
          calc
            value (x.take length) * value (y.take (j + 1))
                < 2 ^ (32 * length) * 2 ^ (32 * (j + 1)) :=
              Nat.mul_lt_mul'' (value_take_lt _ _) (value_take_lt _ _)
            _ = 2 ^ (32 * length + 32 * (j + 1)) := (pow_add ..).symm
            _ ≤ 2 ^ (32 * (length * 2)) := Nat.pow_le_pow_right (by decide) (by omega)
        rw [List.range_succ, List.foldl_append, List.foldl_cons, List.foldl_nil]
        obtain ⟨row, size⟩ := @multRow_value x y length j length _ hx le_rfl (by omega) hl written
          (by rw [before, next]; exact bound)
        exact ⟨by rw [row, before, next], size⟩
  exact rows length le_rfl

/-! ## The order of the curve -/

/-- The order of the curve. -/
def order : Nat := 0xffffffff00000000ffffffffffffffffbce6faada7179e84f3b9cac2fc632551

theorem value_orderM : value (eccOrderM.take 9) = order ∧ value (eccOrderM.take 8) = order := by
  decide

/-- The precomputed reciprocal. -/
theorem value_orderMu : value (eccOrderMu.take 9) = 2 ^ (32 * 7) * 2 ^ (32 * 9) / order := by
  decide +kernel

theorem isGreater_nonpos (hx : n ≤ x.length) (hy : n ≤ y.length) :
    isGreater x y n ≤ 0 ↔ value (x.take n) ≤ value (y.take n) := by
  rw [isGreater_value hx hy]
  split_ifs with above below
  · exact ⟨fun h => absurd h (by decide), fun h => absurd above (Nat.not_lt.mpr h)⟩
  · exact ⟨fun _ => below.le, fun _ => by decide⟩
  · exact ⟨fun _ => Nat.le_of_not_lt above, fun _ => le_rfl⟩

theorem rshiftby_eq {input : List (BitVec 32)} {inSize outSize shift : Nat}
    (size : inSize ≤ input.length) :
    rshiftby input inSize outSize shift
      = ((input.take inSize).drop shift ++ List.replicate outSize 0).take outSize := by
  have length : (rshiftby input inSize outSize shift).length = outSize := by
    rw [rshiftby, List.length_map, List.length_range]
  refine List.ext_getElem ?_ fun i h h' => ?_
  · rw [length, List.length_take, List.length_append, List.length_replicate]
    omega
  · simp only [rshiftby, List.getElem_map, List.getElem_range, List.getElem_take,
      List.getElem_append, List.length_drop, List.length_take_of_le size, List.getElem_drop,
      List.getElem_replicate]
    by_cases inside : i + shift < inSize
    · rw [if_pos inside, dif_pos (by omega), List.getD_eq_getElem?_getD,
        List.getElem?_eq_getElem (by omega), Option.getD_some]
      congr 1
      omega
    · rw [if_neg inside, dif_neg (by omega)]

/-- **SHIFTS** by words divide. -/
theorem rshiftby_value {input : List (BitVec 32)} {inSize outSize shift : Nat}
    (size : inSize ≤ input.length) (part : shift ≤ inSize) :
    value (rshiftby input inSize outSize shift)
        = value (input.take inSize) / 2 ^ (32 * shift) % 2 ^ (32 * outSize)
      ∧ (rshiftby input inSize outSize shift).length = outSize := by
  have taken := List.length_take_of_le size
  constructor
  · rw [rshiftby_eq size, value_take _ (by rw [List.length_append, List.length_replicate]; omega),
      value_zeros_append, value_drop _ (by omega)]
  · rw [rshiftby, List.length_map, List.length_range]

/-- The last loop ends, as fast as there are orders in the number. -/
theorem subtractOrder_value {fuel : Nat} {v : List (BitVec 32)} (size : v.length = 9)
    (bound : value v < fuel * order) :
    ∃ r, subtractOrder fuel v = some r ∧ value r = value v % order ∧ r.length = 9 := by
  induction fuel generalizing v with
  | zero => exact absurd bound (by rw [Nat.zero_mul]; exact Nat.not_lt_zero _)
  | succ fuel ih =>
      have nine : 9 ≤ eccOrderM.length := by decide
      have whole : value (v.take 9) = value v := by rw [List.take_of_length_le size.le]
      have compared := isGreater_nonneg size.ge nine
      rw [value_orderM.1, whole] at compared
      rw [subtractOrder]
      by_cases large : order ≤ value v
      · have less := sub_exact size.ge nine (by rw [value_orderM.1, whole]; exact large)
        rw [value_orderM.1, whole] at less
        rw [if_pos (compared.mpr large)]
        obtain ⟨r, run, result, length⟩ := ih (sub_value size.ge nine).2
          (by rw [less]; rw [Nat.succ_mul] at bound; omega)
        exact ⟨r, run, by rw [result, less, ← Nat.mod_eq_sub_mod large], length⟩
      · rw [if_neg (fun h => large (compared.mp h))]
        exact ⟨v, rfl, (Nat.mod_eq_of_lt (Nat.lt_of_not_le large)).symm, size⟩

/-- Nine words hold the difference. -/
theorem add_of_words {v p q m c : Nat} (three : 3 * m < 2 ^ (32 * 9)) (low : p ≤ q)
    (below : q < p + 3 * m)
    (difference : v + p % 2 ^ (32 * 9) = q % 2 ^ (32 * 9) + 2 ^ (32 * 9) * c)
    (bounded : v < 2 ^ (32 * 9)) : v + p = q := by
  omega

variable {A : List (BitVec 32)} {fuel : Nat}

/-- The path of `fieldModO` that computes, when the words of the number are those that `sub`
    reads. -/
theorem barrettPath_value (hA : length ≤ A.length) (nine : 9 ≤ A.length) (hl : 8 ≤ length)
    (read : value (A.take 9) = value (A.take length) % 2 ^ (32 * 9))
    (small : value (A.take length) < order * 2 ^ (32 * 8)) (enough : 3 ≤ fuel) :
    ∃ r, subtractOrder fuel (sub A (fieldMult (rshiftby (fieldMult eccOrderMu
          (rshiftby A length 9 (eccOrderK - 1)) 9) 18 8 (eccOrderK + 1)) eccOrderM 8) 9).1 = some r
      ∧ value r = value (A.take length) % order ∧ r.length = 9 := by
  have orders : order * 2 ^ (32 * 8) < 2 ^ (32 * 7) * 2 ^ (32 * 9) := by decide +kernel
  have wide : 2 ^ (32 * 7) ≤ order := by decide
  have within : value (A.take length) < 2 ^ (32 * 7) * 2 ^ (32 * 9) := Nat.lt_trans small orders
  have three : 3 * order < 2 ^ (32 * 9) := by decide +kernel
  have positive : 0 < order := by decide
  have low := @estimate_le (2 ^ (32 * 7)) (2 ^ (32 * 9)) order (value (A.take length))
    (Nat.two_pow_pos _) (Nat.two_pow_pos _)
  have below := @barrett (2 ^ (32 * 7)) (2 ^ (32 * 9)) order (value (A.take length))
    (Nat.two_pow_pos _) (Nat.two_pow_pos _) wide within
  have fits : estimate (2 ^ (32 * 7)) (2 ^ (32 * 9)) order (value (A.take length)) < 2 ^ (32 * 8) :=
    Nat.lt_of_mul_lt_mul_right (a := order) ((low.trans_lt small).trans_eq (Nat.mul_comm ..))
  obtain ⟨q1, size1⟩ := @rshiftby_value A length 9 (eccOrderK - 1) hA (by
    show 7 ≤ length
    omega)
  have top : value (A.take length) / 2 ^ (32 * 7) < 2 ^ (32 * 9) :=
    Nat.div_lt_of_lt_mul within
  rw [show eccOrderK - 1 = 7 from rfl, Nat.mod_eq_of_lt top] at q1
  obtain ⟨q2, size2⟩ := @fieldMult_value eccOrderMu (rshiftby A length 9 (eccOrderK - 1)) 9
    (by decide) size1.ge (by decide)
  rw [value_orderMu, List.take_of_length_le size1.le, show eccOrderK - 1 = 7 from rfl, q1] at q2
  rw [show eccOrderK - 1 = 7 from rfl] at size2
  obtain ⟨q3, size3⟩ := @rshiftby_value (fieldMult eccOrderMu (rshiftby A length 9 7) 9) 18 8
    (eccOrderK + 1) size2.ge (by decide)
  rw [List.take_of_length_le size2.le, q2, Nat.mul_comm, show eccOrderK + 1 = 9 from rfl] at q3
  have quotient : value (rshiftby (fieldMult eccOrderMu (rshiftby A length 9 7) 9) 18 8 9)
      = estimate (2 ^ (32 * 7)) (2 ^ (32 * 9)) order (value (A.take length)) :=
    q3.trans (Nat.mod_eq_of_lt fits)
  rw [show eccOrderK + 1 = 9 from rfl] at size3
  obtain ⟨r2, size4⟩ := @fieldMult_value (rshiftby (fieldMult eccOrderMu (rshiftby A length 9 7) 9)
    18 8 9) eccOrderM 8 size3.ge (by decide) (by decide)
  rw [List.take_of_length_le size3.le, quotient, value_orderM.2] at r2
  obtain ⟨difference, size⟩ := @sub_value A (fieldMult (rshiftby (fieldMult eccOrderMu
    (rshiftby A length 9 7) 9) 18 8 9) eccOrderM 8) 9 nine (by rw [size4]; decide)
  rw [value_take (fieldMult _ eccOrderM 8) (by rw [size4]; decide), r2, read] at difference
  have bounded := value_lt (sub A (fieldMult (rshiftby (fieldMult eccOrderMu
    (rshiftby A length 9 7) 9) 18 8 9) eccOrderM 8) 9).1
  rw [size] at bounded
  rw [show eccOrderK - 1 = 7 from rfl, show eccOrderK + 1 = 9 from rfl]
  rw [Nat.add_mul] at below
  have remainder : value (sub A (fieldMult (rshiftby (fieldMult eccOrderMu
        (rshiftby A length 9 7) 9) 18 8 9) eccOrderM 8) 9).1
      + estimate (2 ^ (32 * 7)) (2 ^ (32 * 9)) order (value (A.take length)) * order
      = value (A.take length) :=
    add_of_words three low below difference bounded
  obtain ⟨r, run, result, length'⟩ := @subtractOrder_value fuel _ size (by
    have : 3 * order ≤ fuel * order := Nat.mul_le_mul_right _ enough
    omega)
  refine ⟨r, run, ?_, length'⟩
  rw [result, ← remainder, Nat.add_mul_mod_self_right]

variable {old : List (BitVec 32)}

/-- Eight words that are not above the order stay as they are. -/
theorem fieldModO_keeps (hA : 8 ≤ A.length) (size : old.length = 9)
    (most : value (A.take 8) ≤ order) :
    fieldModO fuel A old 8 = some (A.take 8 ++ old.drop 8) ∧ (A.take 8 ++ old.drop 8).length = 9
      ∧ (A.take 8 ++ old.drop 8).take 8 = A.take 8 := by
  have compared := isGreater_nonpos hA (show 8 ≤ eccOrderM.length by decide)
  rw [value_orderM.2] at compared
  have taken : (A.take 8).length = 8 := List.length_take_of_le hA
  refine ⟨if_pos ⟨rfl, compared.mpr most⟩, ?_, List.take_left' taken⟩
  rw [List.length_append, taken, List.length_drop, size]

/-- All other numbers below `order * 2 ^ 256` are reduced. -/
theorem fieldModO_value (hl : 8 ≤ length) (hA : length ≤ A.length) (nine : 9 ≤ A.length)
    (other : ¬ (length = 8 ∧ value (A.take 8) ≤ order)) (top : length = 8 → A.getD 8 0 = 0)
    (small : value (A.take length) < order * 2 ^ 256) (enough : 3 ≤ fuel) :
    ∃ r, fieldModO fuel A old length = some r ∧ r.length = 9
      ∧ value (r.take 8) = value (A.take length) % order := by
  have compared := isGreater_nonpos (show 8 ≤ A.length by omega)
    (show 8 ≤ eccOrderM.length by decide)
  rw [value_orderM.2] at compared
  have read : value (A.take 9) = value (A.take length) % 2 ^ (32 * 9) := by
    rcases Nat.eq_or_lt_of_le hl with rfl | long
    · have eightWords := value_take_lt A 8
      have zero : (0 : BitVec 32).toNat = 0 := rfl
      rw [value_take_succ A nine, top rfl, zero]
      omega
    · rw [← value_take _ (show 9 ≤ (A.take length).length by
        rw [List.length_take_of_le hA]; exact long), List.take_take, Nat.min_eq_left long]
  obtain ⟨r, run, reduced, written⟩ := @barrettPath_value length A fuel hA nine hl read small
    enough
  have below : value r < 2 ^ (32 * 8) := by
    rw [reduced]
    exact (Nat.mod_lt _ (by decide)).trans (by decide)
  refine ⟨r, (if_neg fun h => other ⟨h.1, compared.mp h.2⟩).trans run, written, ?_⟩
  rw [value_take r (by omega), Nat.mod_eq_of_lt below, reduced]

/-- **REDUCTION MODULO THE ORDER**: numbers of any length below `order * 2 ^ 256` are reduced,
    with two subtractions at most.  Only the order itself, given in eight words, stays as it is;
    other numbers of eight words need a zero behind them. -/
theorem fieldModO_reduces (A result : List (BitVec 32)) (fuel length : Nat) (hl : 8 ≤ length)
    (hA : length ≤ A.length) (nine : 9 ≤ A.length) (size : result.length = 9)
    (top : length = 8 → A.getD 8 0 = 0) (small : value (A.take length) < order * 2 ^ 256)
    (enough : 3 ≤ fuel) :
    ∃ r, fieldModO fuel A result length = some r ∧ r.length = 9 ∧
      value (r.take 8) = if length = 8 ∧ value (A.take length) = order then order
        else value (A.take length) % order := by
  by_cases short : length = 8 ∧ value (A.take 8) ≤ order
  · obtain ⟨rfl, most⟩ := short
    obtain ⟨run, written, kept⟩ := @fieldModO_keeps A fuel result hA size most
    refine ⟨_, run, written, ?_⟩
    rw [kept]
    by_cases same : value (A.take 8) = order
    · rw [if_pos ⟨rfl, same⟩, same]
    · rw [if_neg (fun h => same h.2), Nat.mod_eq_of_lt (lt_of_le_of_ne most same)]
  · obtain ⟨r, run, written, reduced⟩ := @fieldModO_value length A fuel result hl hA nine short top
      small enough
    refine ⟨r, run, written, ?_⟩
    rw [if_neg ?_, reduced]
    rintro ⟨rfl, same⟩
    exact short ⟨rfl, same.le⟩

theorem fieldModO_reduces_product : ∃ r,
    fieldModO 3 (fieldMult (eccOrderR.take 8) (eccOrderR.take 8) 8) (List.replicate 9 0) 16 = some r
      ∧ value (r.take 8) = value (eccOrderR.take 8) * value (eccOrderR.take 8) % order := by
  obtain ⟨product, size⟩ := @fieldMult_value (eccOrderR.take 8) (eccOrderR.take 8) 8 (by decide)
    (by decide) (by decide)
  have whole : (fieldMult (eccOrderR.take 8) (eccOrderR.take 8) 8).take 16
      = fieldMult (eccOrderR.take 8) (eccOrderR.take 8) 8 := List.take_of_length_le size.le
  have eight : (eccOrderR.take 8).take 8 = eccOrderR.take 8 := rfl
  rw [eight] at product
  obtain ⟨r, run, -, reduced⟩ := fieldModO_reduces
    (fieldMult (eccOrderR.take 8) (eccOrderR.take 8) 8) (List.replicate 9 0) 3 16 (by decide)
    size.ge (size.ge.trans' (by decide)) List.length_replicate (fun h => absurd h (by decide))
    (by rw [whole, product]; decide) le_rfl
  rw [if_neg (fun h => absurd h.1 (by decide)), whole, product] at reduced
  exact ⟨r, run, reduced⟩

/-! ## The prime of the field -/

/-- The prime of the field. -/
def prime : Nat := 0xffffffff00000001000000000000000000000000ffffffffffffffffffffffff

/-- A sum of which the prime is taken once is exact modulo the prime. -/
theorem fieldAdd_prime (hx : x.length = 8) (hy : y.length = 8) (h : value y ≤ prime) :
    ∃ c, value (fieldAdd x y eccPrimeR) + c * prime = value x + value y
      ∧ (fieldAdd x y eccPrimeR).length = 8 := by
  have reducer : value (eccPrimeR.take 8) + prime = 2 ^ (32 * 8) := by decide
  obtain ⟨sum, size⟩ := add_value hx.ge hy.ge
  have bound := value_lt (add x y 8).1
  have small := value_lt x
  rw [List.take_of_length_le hx.le, List.take_of_length_le hy.le] at sum
  rw [size] at bound
  rw [hx] at small
  rw [fieldAdd, show arrayLength = 8 from rfl]
  by_cases carry : (add x y 8).2 = 0
  · have none : (add x y 8).2.toNat = 0 := by rw [carry]; rfl
    refine ⟨0, ?_⟩
    rw [if_neg (not_not.mpr carry)]
    exact ⟨by rw [none] at sum; omega, size⟩
  · have some : (add x y 8).2.toNat ≠ 0 := fun zero => carry (BitVec.toNat_inj.mp zero)
    obtain ⟨again, size'⟩ := @add_value (add x y 8).1 eccPrimeR 8 size.ge (by decide)
    have bound' := value_lt (add (add x y 8).1 eccPrimeR 8).1
    rw [size'] at bound'
    rw [List.take_of_length_le size.le] at again
    refine ⟨1, ?_⟩
    rw [if_pos carry]
    exact ⟨by omega, size'⟩

/-- A difference to which the modulus is added once. -/
theorem fieldSub_value (hx : x.length = 8) (hy : y.length = 8) (hM : 8 ≤ M.length)
    (h : value y ≤ value (M.take 8)) :
    value (fieldSub x y M) + value y
        = value x + (if value y ≤ value x then 0 else value (M.take 8))
      ∧ (fieldSub x y M).length = 8 := by
  obtain ⟨difference, size⟩ := sub_value hx.ge hy.ge
  have bound := value_lt (sub x y 8).1
  have small := value_lt x
  rw [List.take_of_length_le hx.le, List.take_of_length_le hy.le] at difference
  rw [size] at bound
  rw [hx] at small
  rw [fieldSub, show arrayLength = 8 from rfl]
  by_cases borrow : (sub x y 8).2 = 0
  · have none : (sub x y 8).2.toNat = 0 := by rw [borrow]; rfl
    rw [if_neg (not_not.mpr borrow), if_pos (by omega)]
    exact ⟨by rw [none] at difference; omega, size⟩
  · have some : (sub x y 8).2.toNat ≠ 0 := fun zero => borrow (BitVec.toNat_inj.mp zero)
    obtain ⟨again, size'⟩ := @add_value (sub x y 8).1 M 8 size.ge hM
    have bound' := value_lt (add (sub x y 8).1 M 8).1
    rw [size'] at bound'
    have most := value_take_lt M 8
    rw [List.take_of_length_le size.le] at again
    rw [if_pos borrow, if_neg (by omega)]
    exact ⟨by omega, size'⟩

theorem fieldSub_prime (hx : x.length = 8) (hy : y.length = 8) (h : value y ≤ prime) :
    ∃ c, value (fieldSub x y eccPrimeM) + value y = value x + c * prime
      ∧ (fieldSub x y eccPrimeM).length = 8 := by
  have modulus : value (eccPrimeM.take 8) = prime := by decide
  obtain ⟨difference, size⟩ := @fieldSub_value x y eccPrimeM hx hy (by decide)
    (modulus.symm ▸ h)
  rw [modulus] at difference
  refine ⟨if value y ≤ value x then 0 else 1, ?_, size⟩
  rw [difference, ite_mul, zero_mul, one_mul]

variable {B : List (BitVec 32)} {b : Nat → BitVec 32}

/-- The rearranged words, where they are not below the prime by their zeros alone. -/
structure Rearranged (b : Nat → BitVec 32) : Prop where
  s1 : value (formS1 b) ≤ prime
  s3 : value (formS3 b) ≤ prime
  s4 : value (formS4 b) ≤ prime
  d1 : value (formD1 b) ≤ prime
  d2 : value (formD2 b) ≤ prime

/-- Four words decide, unless they are all ones. -/
theorem Rearranged.of_words (h8 : (b 8).toNat < 2 ^ 32 - 1) (h10 : (b 10).toNat < 2 ^ 32 - 1)
    (h11 : (b 11).toNat < 2 ^ 32 - 1) (h15 : (b 15).toNat < 2 ^ 32 - 1) : Rearranged b := by
  have h9 := (b 9).isLt
  have h12 := (b 12).isLt
  have h13 := (b 13).isLt
  have h14 := (b 14).isLt
  have zero : (0 : BitVec 32).toNat = 0 := rfl
  constructor <;>
    simp only [formS1, formS3, formS4, formD1, formD2, value, zero, prime] <;> omega

theorem formS2_le : value (formS2 b) ≤ prime := by
  have h12 := (b 12).isLt
  have h13 := (b 13).isLt
  have h14 := (b 14).isLt
  have h15 := (b 15).isLt
  have zero : (0 : BitVec 32).toNat = 0 := rfl
  simp only [formS2, value, zero, prime]
  omega

theorem formD3_le : value (formD3 b) ≤ prime := by
  have h8 := (b 8).isLt
  have h9 := (b 9).isLt
  have h10 := (b 10).isLt
  have h12 := (b 12).isLt
  have h13 := (b 13).isLt
  have h14 := (b 14).isLt
  have h15 := (b 15).isLt
  have zero : (0 : BitVec 32).toNat = 0 := rfl
  simp only [formD3, value, zero, prime]
  omega

theorem formD4_le : value (formD4 b) ≤ prime := by
  have h9 := (b 9).isLt
  have h10 := (b 10).isLt
  have h11 := (b 11).isLt
  have h13 := (b 13).isLt
  have h14 := (b 14).isLt
  have h15 := (b 15).isLt
  have zero : (0 : BitVec 32).toNat = 0 := rfl
  simp only [formD4, value, zero, prime]
  omega

theorem drop_getD {i : Nat} (h : i < B.length) : B.drop i = B.getD i 0 :: B.drop (i + 1) := by
  rw [List.drop_eq_getElem_cons h, List.getD_eq_getElem?_getD, List.getElem?_eq_getElem h,
    Option.getD_some]

/-- The upper half of sixteen words. -/
theorem drop_eight (size : B.length = 16) :
    B.drop 8 = [B.getD 8 0, B.getD 9 0, B.getD 10 0, B.getD 11 0, B.getD 12 0, B.getD 13 0,
      B.getD 14 0, B.getD 15 0] := by
  rw [drop_getD (by omega), drop_getD (by omega), drop_getD (by omega), drop_getD (by omega),
    drop_getD (by omega), drop_getD (by omega), drop_getD (by omega), drop_getD (by omega),
    List.drop_of_length_le size.le]

/-- The number and what is formed from it differ by a multiple of the prime. -/
theorem forms_congruent (size : B.length = 16) : ∃ q, value B
      + value (formD1 fun n => B.getD n 0) + value (formD2 fun n => B.getD n 0)
      + value (formD3 fun n => B.getD n 0) + value (formD4 fun n => B.getD n 0)
    = value (B.take 8) + 2 * value (formS1 fun n => B.getD n 0)
      + 2 * value (formS2 fun n => B.getD n 0) + value (formS3 fun n => B.getD n 0)
      + value (formS4 fun n => B.getD n 0) + q * prime := by
  have zero : (0 : BitVec 32).toNat = 0 := rfl
  refine ⟨(B.getD 8 0).toNat + 0x100000001 * (B.getD 9 0).toNat
    + 0x10000000100000000 * (B.getD 10 0).toNat
    + 0x100000000ffffffffffffffff * (B.getD 11 0).toNat
    + 0x100000000fffffffffffffffeffffffff * (B.getD 12 0).toNat
    + 0x100000000fffffffffffffffefffffffeffffffff * (B.getD 13 0).toNat
    + 0x100000000fffffffffffffffefffffffefffffffeffffffff * (B.getD 14 0).toNat
    + 0x100000000fffffffffffffffefffffffefffffffeffffffff00000000 * (B.getD 15 0).toNat, ?_⟩
  rw [value_split B (show 8 ≤ B.length by omega), drop_eight size]
  simp only [formS1, formS2, formS3, formS4, formD1, formD2, formD3, formD4, value, zero, prime]
  ring

/-- **REDUCTION MODULO THE PRIME**: sixteen words are reduced, if none of the rearranged numbers
    is above the prime. -/
theorem fieldModP_reduces (B : List (BitVec 32)) (size : B.length = 16)
    (h : Rearranged fun n => B.getD n 0) :
    value (fieldModP B) = value B % prime ∧ (fieldModP B).length = 8 := by
  obtain ⟨q, congruent⟩ := forms_congruent size
  have low : (B.take 8).length = 8 := List.length_take_of_le (by omega)
  rw [fieldModP, show arrayLength = 8 from rfl]
  obtain ⟨c₁, e₁, l₁⟩ := fieldAdd_prime low rfl h.s1
  generalize fieldAdd _ (formS1 fun n => B.getD n 0) eccPrimeR = v₁ at e₁ l₁ ⊢
  obtain ⟨c₂, e₂, l₂⟩ := fieldAdd_prime l₁ rfl h.s1
  generalize fieldAdd _ (formS1 fun n => B.getD n 0) eccPrimeR = v₂ at e₂ l₂ ⊢
  obtain ⟨c₃, e₃, l₃⟩ := fieldAdd_prime l₂ rfl (@formS2_le fun n => B.getD n 0)
  generalize fieldAdd _ (formS2 fun n => B.getD n 0) eccPrimeR = v₃ at e₃ l₃ ⊢
  obtain ⟨c₄, e₄, l₄⟩ := fieldAdd_prime l₃ rfl (@formS2_le fun n => B.getD n 0)
  generalize fieldAdd _ (formS2 fun n => B.getD n 0) eccPrimeR = v₄ at e₄ l₄ ⊢
  obtain ⟨c₅, e₅, l₅⟩ := fieldAdd_prime l₄ rfl h.s3
  generalize fieldAdd _ (formS3 fun n => B.getD n 0) eccPrimeR = v₅ at e₅ l₅ ⊢
  obtain ⟨c₆, e₆, l₆⟩ := fieldAdd_prime l₅ rfl h.s4
  generalize fieldAdd _ (formS4 fun n => B.getD n 0) eccPrimeR = v₆ at e₆ l₆ ⊢
  obtain ⟨c₇, e₇, l₇⟩ := fieldSub_prime l₆ rfl h.d1
  generalize fieldSub _ (formD1 fun n => B.getD n 0) eccPrimeM = v₇ at e₇ l₇ ⊢
  obtain ⟨c₈, e₈, l₈⟩ := fieldSub_prime l₇ rfl h.d2
  generalize fieldSub _ (formD2 fun n => B.getD n 0) eccPrimeM = v₈ at e₈ l₈ ⊢
  obtain ⟨c₉, e₉, l₉⟩ := fieldSub_prime l₈ rfl (@formD3_le fun n => B.getD n 0)
  generalize fieldSub _ (formD3 fun n => B.getD n 0) eccPrimeM = v₉ at e₉ l₉ ⊢
  obtain ⟨c₀, e₀, l₀⟩ := fieldSub_prime l₉ rfl (@formD4_le fun n => B.getD n 0)
  generalize fieldSub _ (formD4 fun n => B.getD n 0) eccPrimeM = A at e₀ l₀ ⊢
  have sum : value A + (c₁ + c₂ + c₃ + c₄ + c₅ + c₆ + q) * prime
      = value B + (c₇ + c₈ + c₉ + c₀) * prime := by
    linarith
  have same : value A % prime = value B % prime := by
    rw [← Nat.add_mul_mod_self_right (value A), sum, Nat.add_mul_mod_self_right]
  have modulus : value (eccPrimeM.take 8) = prime ∧ value eccPrimeM = prime := by decide
  have compared := isGreater_nonneg l₀.ge (show 8 ≤ eccPrimeM.length by decide)
  rw [modulus.1, List.take_of_length_le l₀.le] at compared
  have twice : 2 ^ (32 * 8) < 2 * prime := by decide
  have bound := value_lt A
  rw [l₀] at bound
  by_cases large : prime ≤ value A
  · obtain ⟨less, size'⟩ := @fieldSub_value A eccPrimeM eccPrimeM l₀ rfl (by decide)
      (by rw [modulus.1, modulus.2])
    rw [modulus.2, if_pos large] at less
    rw [if_pos (compared.mpr large), ← same, Nat.mod_eq_sub_mod large,
      Nat.mod_eq_of_lt (by omega)]
    exact ⟨by omega, size'⟩
  · rw [if_neg (fun h => large (compared.mp h)), ← same]
    exact ⟨(Nat.mod_eq_of_lt (Nat.lt_of_not_le large)).symm, l₀⟩

theorem fieldModP_reduces_count :
    value (fieldModP ((List.range 16).map (BitVec.ofNat 32)))
      = value ((List.range 16).map (BitVec.ofNat 32)) % prime :=
  (fieldModP_reduces _ rfl
    (Rearranged.of_words (by decide) (by decide) (by decide) (by decide))).1

-- of the largest number the prime would have to be taken twice
example : value (fieldModP (List.replicate 16 0xFFFFFFFF))
    ≠ value (List.replicate 16 (0xFFFFFFFF : BitVec 32)) % prime := by decide +kernel

end PqDtls.Ecc
