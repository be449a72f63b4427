import PqDtls.Ecc.Inverse

/-! # Signatures

    `ecc_ecdsa_sign_hash` and `ecc_ecdsa_validate` compute with scalars modulo the order and
    with points.  **`sign_validate_scalars`**: the two scalars that the validation of a signature
    takes, with the private key between them, give back the scalar of the signature. -/

namespace PqDtls.Ecc

open Words

/-! ## The code -/

def eccGPointX : List (BitVec 32) :=
  [0xD898C296, 0xF4A13945, 0x2DEB33A0, 0x77037D81, 0x63A440F2, 0xF8BCE6E5, 0xE12C4247, 0x6B17D1F2]

def eccGPointY : List (BitVec 32) :=
  [0x37BF51F5, 0xCBB64068, 0x6B315ECE, 0x2BCE3357, 0x7C0F9E16, 0x8EE7EB4A, 0xFE1A7F9B, 0x4FE342E2]

def isZero (A : List (BitVec 32)) : Bool := (List.range 8).all fun n => A.getD n 0 == 0

def isSame (A B : List (BitVec 32)) (length : Nat) : Bool := A.take length == B.take length

/-- A point of the curve by its coordinates; two zeros for the point at infinity. -/
abbrev Point := List (BitVec 32) × List (BitVec 32)

section Code

variable (fuel : Nat)

def ecDouble (px py : List (BitVec 32)) : Option Point :=
  if isZero px && isZero py then some (px.take arrayLength, py.take arrayLength)
  else
    let tempA := fieldModP (fieldMult px px arrayLength)
    let tempC := fieldSub tempA [1, 0, 0, 0, 0, 0, 0, 0] eccPrimeM
    let tempA := fieldModP (fieldMult tempC [3, 0, 0, 0, 0, 0, 0, 0] arrayLength)
    let tempB := fieldAdd py py eccPrimeR
    (fieldInv fuel tempB eccPrimeM eccPrimeR).map fun tempC =>
      -- lambda
      let tempB := fieldModP (fieldMult tempA tempC arrayLength)
      let tempC := fieldModP (fieldMult tempB tempB arrayLength)
      let tempA := fieldSub tempC px eccPrimeM
      let Dx := fieldSub tempA px eccPrimeM
      let tempA := fieldSub px Dx eccPrimeM
      let tempC := fieldModP (fieldMult tempB tempA arrayLength)
      (Dx, fieldSub tempC py eccPrimeM)

def ecAdd (px py qx qy : List (BitVec 32)) : Option Point :=
  if isZero px && isZero py then some (qx.take arrayLength, qy.take arrayLength)
  else if isZero qx && isZero qy then some (px.take arrayLength, py.take arrayLength)
  else if isSame px qx arrayLength then
    if !isSame py qy arrayLength then some (List.replicate 8 0, List.replicate 8 0)
    else ecDouble fuel px py
  else
    let tempA := fieldSub py qy eccPrimeM
    let tempB := fieldSub px qx eccPrimeM
    (fieldInv fuel tempB eccPrimeM eccPrimeR).map fun tempB =>
      -- lambda
      let tempC := fieldModP (fieldMult tempA tempB arrayLength)
      let tempA := fieldModP (fieldMult tempC tempC arrayLength)
      let tempB := fieldSub tempA px eccPrimeM
      let Sx := fieldSub tempB qx eccPrimeM
      let tempB := fieldSub qx Sx eccPrimeM
      let tempC := fieldModP (fieldMult tempC tempB arrayLength)
      (Sx, fieldSub tempC qy eccPrimeM)

/-- The body of the loop of `ecc_ec_mult` for the bit `i`. -/
def ecMultStep (px py secret : List (BitVec 32)) (Q : Point) (i : Nat) : Option Point :=
  (ecDouble fuel Q.1 Q.2).bind fun Q =>
    if secret.getD (i / 32) 0 &&& 1 <<< (i % 32) ≠ 0 then ecAdd fuel Q.1 Q.2 px py else some Q

def eccEcMult (px py secret : List (BitVec 32)) : Option Point :=
  (List.range 256).reverse.foldlM (ecMultStep fuel px py secret)
    (List.replicate 8 0, List.replicate 8 0)

/-- `ecc_ecdsa_sign_hash`: the returned value and what `r` and `s` hold, from what they held. -/
def eccEcdsaSignHash (d e k r s : List (BitVec 32)) :
    Option (Int × List (BitVec 32) × List (BitVec 32)) :=
  if isZero k then some (-1, r, s)
  else
    (eccEcMult fuel eccGPointX eccGPointY k).bind fun point =>
    (fieldModO fuel (point.1 ++ r.drop 8) (point.1 ++ r.drop 8) 8).bind fun r =>
    if isZero r then some (-1, r, s)
    else
      (fieldModO fuel (fieldMult r d arrayLength) [] 16).bind fun tmp2 =>
      -- the first nine words of `tmp1`
      let tmp1 := (add e tmp2 8).1 ++ [(add e tmp2 8).2]
      (fieldModO fuel tmp1 [] 9).bind fun tmp3 =>
      (fieldInv fuel k eccOrderM eccOrderR).bind fun tmp2 =>
      (fieldModO fuel (fieldMult tmp2 tmp3 arrayLength) s 16).bind fun s =>
      if isZero s then some (-1, r, s) else some (0, r, s)

/-- The steps 3 and 4 of `ecc_ecdsa_validate`: `u1` and `u2`. -/
def validateScalars (e r s : List (BitVec 32)) : Option (List (BitVec 32) × List (BitVec 32)) :=
  (fieldInv fuel s eccOrderM eccOrderR).bind fun w =>
  (fieldModO fuel (fieldMult e w arrayLength) [] 16).bind fun u1 =>
  (fieldModO fuel (fieldMult r w arrayLength) [] 16).map fun u2 => (u1, u2)

def eccEcdsaValidate (x y e r s : List (BitVec 32)) : Option Int :=
  (validateScalars fuel e r s).bind fun u =>
  (eccEcMult fuel eccGPointX eccGPointY u.1).bind fun tmp1 =>
  (eccEcMult fuel x y u.2).bind fun tmp2 =>
  (ecAdd fuel tmp1.1 tmp1.2 tmp2.1 tmp2.2).map fun tmp3 =>
    if isSame tmp3.1 r arrayLength then 0 else -1

end Code

/-! ## Sizes -/

variable {x y M px py qx qy : List (BitVec 32)} {fuel : Nat}

theorem fieldAdd_length (hx : x.length = 8) (hy : y.length = 8) (hM : 8 ≤ M.length) :
    (fieldAdd x y M).length = 8 := by
  have size := (add_value hx.ge hy.ge).2
  rw [fieldAdd, show arrayLength = 8 from rfl]
  split_ifs
  · exact (add_value size.ge hM).2
  · exact size

theorem fieldSub_length (hx : x.length = 8) (hy : y.length = 8) (hM : 8 ≤ M.length) :
    (fieldSub x y M).length = 8 := by
  have size := (sub_value hx.ge hy.ge).2
  rw [fieldSub, show arrayLength = 8 from rfl]
  split_ifs
  · exact (add_value size.ge hM).2
  · exact size

theorem fieldModP_length {B : List (BitVec 32)} (size : 8 ≤ B.length) :
    (fieldModP B).length = 8 := by
  have eight : 8 ≤ eccPrimeR.length ∧ 8 ≤ eccPrimeM.length := by decide
  have plus {A T : List (BitVec 32)} (hA : A.length = 8) (hT : T.length = 8) :=
    fieldAdd_length hA hT eight.1
  have minus {A T : List (BitVec 32)} (hA : A.length = 8) (hT : T.length = 8) :=
    fieldSub_length hA hT eight.2
  have low : (B.take arrayLength).length = 8 := List.length_take_of_le size
  have last := minus (minus (minus (minus (plus (plus (plus (plus (plus (plus low
    (T := formS1 fun n => B.getD n 0) rfl) (T := formS1 fun n => B.getD n 0) rfl)
    (T := formS2 fun n => B.getD n 0) rfl) (T := formS2 fun n => B.getD n 0) rfl)
    (T := formS3 fun n => B.getD n 0) rfl) (T := formS4 fun n => B.getD n 0) rfl)
    (T := formD1 fun n => B.getD n 0) rfl) (T := formD2 fun n => B.getD n 0) rfl)
    (T := formD3 fun n => B.getD n 0) rfl) (T := formD4 fun n => B.getD n 0) rfl
  rw [fieldModP]
  split_ifs
  · exact minus last rfl
  · exact last

/-- A product in the field has eight words. -/
theorem product_length (hx : x.length = 8) (hy : y.length = 8) :
    (fieldModP (fieldMult x y arrayLength)).length = 8 :=
  fieldModP_length (by
    rw [(@fieldMult_value x y arrayLength hx.ge hy.ge (by decide)).2]
    decide)

/-- The inverse in the field too. -/
theorem inverse_length (hx : x.length = 8) (h : fieldInv fuel x eccPrimeM eccPrimeR = some y) :
    y.length = 8 :=
  (fieldInv_sound hx.ge (by decide) (by decide) (by decide) h).2.2.2

/-- The coordinates of a point have eight words. -/
def Point.Sized (Q : Point) : Prop := Q.1.length = 8 ∧ Q.2.length = 8

theorem ecDouble_sized {Q : Point} (hx : px.length = 8) (hy : py.length = 8)
    (h : ecDouble fuel px py = some Q) : Q.Sized := by
  have eight : 8 ≤ eccPrimeM.length := by decide
  rw [ecDouble] at h
  split_ifs at h with zero
  · cases h
    exact ⟨List.length_take_of_le hx.ge, List.length_take_of_le hy.ge⟩
  · obtain ⟨tempC, inverse, same⟩ := Option.map_eq_some_iff.mp h
    have two := fieldAdd_length hy hy (show 8 ≤ eccPrimeR.length by decide)
    have numerator := fieldSub_length (product_length hx hx)
      (show [1, 0, 0, 0, 0, 0, 0, (0 : BitVec 32)].length = 8 from rfl) eight
    have lambda := product_length (product_length numerator
      (show [3, 0, 0, 0, 0, 0, 0, (0 : BitVec 32)].length = 8 from rfl))
      (inverse_length two inverse)
    have first := fieldSub_length (fieldSub_length (product_length lambda lambda) hx eight) hx eight
    rw [← same]
    dsimp only [Point.Sized]
    exact ⟨first, fieldSub_length (product_length lambda (fieldSub_length hx first eight)) hy eight⟩

theorem ecAdd_sized {Q : Point} (hpx : px.length = 8) (hpy : py.length = 8) (hqx : qx.length = 8)
    (hqy : qy.length = 8) (h : ecAdd fuel px py qx qy = some Q) : Q.Sized := by
  have eight : 8 ≤ eccPrimeM.length := by decide
  rw [ecAdd] at h
  split_ifs at h with left right equal other
  · cases h
    exact ⟨List.length_take_of_le hqx.ge, List.length_take_of_le hqy.ge⟩
  · cases h
    exact ⟨List.length_take_of_le hpx.ge, List.length_take_of_le hpy.ge⟩
  · cases h
    exact ⟨rfl, rfl⟩
  · exact ecDouble_sized hpx hpy h
  · obtain ⟨tempB, inverse, same⟩ := Option.map_eq_some_iff.mp h
    have lambda := product_length (fieldSub_length hpy hqy eight)
      (inverse_length (fieldSub_length hpx hqx eight) inverse)
    have first := fieldSub_length (fieldSub_length (product_length lambda lambda) hpx eight) hqx
      eight
    rw [← same]
    dsimp only [Point.Sized]
    exact ⟨first, fieldSub_length (product_length lambda (fieldSub_length hqx first eight)) hqy
      eight⟩

theorem ecMult_sized {secret : List (BitVec 32)} {bits : List Nat} {P Q : Point}
    (hx : px.length = 8) (hy : py.length = 8) (hP : P.Sized)
    (h : bits.foldlM (ecMultStep fuel px py secret) P = some Q) : Q.Sized := by
  induction bits generalizing P with
  | nil =>
      cases h
      exact hP
  | cons i bits ih =>
      rw [List.foldlM_cons] at h
      obtain ⟨next, step, rest⟩ := Option.bind_eq_some_iff.mp h
      obtain ⟨double, doubled, step⟩ := Option.bind_eq_some_iff.mp step
      have sized := ecDouble_sized hP.1 hP.2 doubled
      refine ih ?_ rest
      split_ifs at step with bit
      · exact ecAdd_sized sized.1 sized.2 hx hy step
      · cases step
        exact sized

/-! ## Scalars -/

variable {A old r s d e k u : List (BitVec 32)}

theorem getD_of_value_zero {xs : List (BitVec 32)} (h : value xs = 0) (n : Nat) :
    xs.getD n 0 = 0 := by
  induction xs generalizing n with
  | nil => rfl
  | cons x xs ih =>
      rw [value] at h
      cases n with
      | zero => exact BitVec.toNat_inj.mp (show x.toNat = 0 by omega)
      | succ n => exact ih (by omega) n

theorem isZero_of_value (h : value (A.take 8) = 0) : isZero A = true := by
  rw [isZero, List.all_eq_true]
  intro n hn
  have below : n < 8 := List.mem_range.mp hn
  have zero := getD_of_value_zero h n
  rw [List.getD_eq_getElem?_getD, List.getElem?_take_of_lt below,
    ← List.getD_eq_getElem?_getD] at zero
  rw [zero]
  rfl

/-- The reduction of a coordinate. -/
theorem coordinate_le (nine : A.length = 9) (size : old.length = 9) (top : A.getD 8 0 = 0)
    (enough : 3 ≤ fuel) (run : fieldModO fuel A old 8 = some r) :
    r.length = 9 ∧ value (r.take 8) ≤ order := by
  by_cases most : value (A.take 8) ≤ order
  · obtain ⟨kept, written, same⟩ := @fieldModO_keeps A fuel old (by omega) size most
    cases run.symm.trans kept
    exact ⟨written, by rw [same]; exact most⟩
  · have bound : value (A.take 8) < order * 2 ^ 256 :=
      (value_take_lt A 8).trans_le (Nat.le_mul_of_pos_left _ (by decide))
    obtain ⟨r', reduced, written, result⟩ := @fieldModO_value 8 A fuel old le_rfl (by omega)
      (by omega) (fun h => most h.2) (fun _ => top) bound enough
    cases run.symm.trans reduced
    exact ⟨written, result ▸ (Nat.mod_lt _ (by decide)).le⟩

/-- The reduction of a product. -/
theorem scalar_product (hx : 8 ≤ x.length) (hy : 8 ≤ y.length) (enough : 3 ≤ fuel)
    (bound : value (x.take 8) ≤ order ∨ value (y.take 8) ≤ order) :
    ∃ r, fieldModO fuel (fieldMult x y arrayLength) old 16 = some r ∧ r.length = 9
      ∧ value (r.take 8) = value (x.take 8) * value (y.take 8) % order := by
  obtain ⟨product, size⟩ := @fieldMult_value x y arrayLength hx hy (by decide)
  have whole : (fieldMult x y arrayLength).take 16 = fieldMult x y arrayLength :=
    List.take_of_length_le size.le
  have small : value (x.take 8) * value (y.take 8) < order * 2 ^ 256 := by
    have positive : 0 < order := by decide
    rcases bound with left | right
    · exact Nat.mul_lt_mul_of_le_of_lt left (value_take_lt y 8) positive
    · rw [Nat.mul_comm]
      exact Nat.mul_lt_mul_of_le_of_lt right (value_take_lt x 8) positive
  obtain ⟨r, reduced, written, result⟩ := @fieldModO_value 16 (fieldMult x y arrayLength) fuel old
    (by decide) size.ge (size.ge.trans' (by decide)) (fun h => absurd h.1 (by decide))
    (fun h => absurd h (by decide)) (by rw [whole, product]; exact small) enough
  rw [whole, product] at result
  exact ⟨r, reduced, written, result⟩

theorem scalar_product_run (hx : 8 ≤ x.length) (hy : 8 ≤ y.length) (enough : 3 ≤ fuel)
    (bound : value (x.take 8) ≤ order ∨ value (y.take 8) ≤ order)
    (run : fieldModO fuel (fieldMult x y arrayLength) old 16 = some r) :
    r.length = 9 ∧ value (r.take 8) = value (x.take 8) * value (y.take 8) % order := by
  obtain ⟨r', reduced, result⟩ := @scalar_product x y fuel old hx hy enough bound
  cases run.symm.trans reduced
  exact result

/-- The reduction of the sum `z + r d`. -/
theorem scalar_sum (he : e.length = 8) (hu : 8 ≤ u.length) (below : value (u.take 8) < order)
    (enough : 3 ≤ fuel) (run : fieldModO fuel ((add e u 8).1 ++ [(add e u 8).2]) old 9 = some r) :
    r.length = 9 ∧ value (r.take 8) = (value e + value (u.take 8)) % order := by
  obtain ⟨sum, size⟩ := add_value he.ge hu
  rw [List.take_of_length_le he.le] at sum
  have nine : ((add e u 8).1 ++ [(add e u 8).2]).length = 9 := by
    rw [List.length_append, size]
    rfl
  have total : value (((add e u 8).1 ++ [(add e u 8).2]).take 9) = value e + value (u.take 8) := by
    rw [List.take_of_length_le nine.le, value_append, size, value, value, Nat.mul_zero,
      Nat.add_zero, sum]
  have small := value_lt e
  have room : 2 ^ 256 + order < order * 2 ^ 256 := by decide
  rw [he] at small
  obtain ⟨r', reduced, written, result⟩ := @fieldModO_value 9 _ fuel old (by decide) nine.ge nine.ge
    (fun h => absurd h.1 (by decide)) (fun h => absurd h (by decide)) (by rw [total]; omega) enough
  cases run.symm.trans reduced
  rw [total] at result
  exact ⟨written, result⟩

theorem order_facts : 8 ≤ eccOrderM.length ∧ value (eccOrderM.take 8) % 2 = 1
    ∧ 1 < value (eccOrderM.take 8) := by
  decide

/-- What `ecc_ecdsa_sign_hash` computes, apart from the point. -/
theorem sign_scalars {r' s' : List (BitVec 32)} (hd : d.length = 8) (he : e.length = 8)
    (hk : k.length = 8) (hr : r.length = 9) (stale : r.getD 8 0 = 0) (enough : 3 ≤ fuel)
    (run : eccEcdsaSignHash fuel d e k r s = some (0, r', s')) :
    value (s'.take 8) * value k ≡ value e + value (r'.take 8) * value d [MOD order]
      ∧ 0 < value (s'.take 8) ∧ value (s'.take 8) < order ∧ value (r'.take 8) ≤ order
      ∧ r'.length = 9 ∧ s'.length = 9 := by
  have failed {p q : List (BitVec 32)} (h : some (-1, p, q) = some ((0 : Int), r', s')) :
      False := by
    have code : (-1 : Int) = 0 := congrArg Prod.fst (Option.some.inj h)
    exact absurd code (by decide)
  rw [eccEcdsaSignHash] at run
  split_ifs at run with zeroK
  · exact (failed run).elim
  · obtain ⟨point, multiplied, run⟩ := Option.bind_eq_some_iff.mp run
    obtain ⟨r₁, coordinate, run⟩ := Option.bind_eq_some_iff.mp run
    have sized : Point.Sized point := ecMult_sized rfl rfl ⟨rfl, rfl⟩ multiplied
    have nine : (point.1 ++ r.drop 8).length = 9 := by
      rw [List.length_append, sized.1, List.length_drop, hr]
    have top : (point.1 ++ r.drop 8).getD 8 0 = 0 := by
      rw [List.getD_eq_getElem?_getD, List.getElem?_append_right sized.1.le, sized.1,
        List.getElem?_drop]
      exact (List.getD_eq_getElem?_getD ..).symm.trans stale
    obtain ⟨sizeR, mostR⟩ := coordinate_le nine nine top enough coordinate
    split_ifs at run with zeroR
    · exact (failed run).elim
    · obtain ⟨tmp2, product, run⟩ := Option.bind_eq_some_iff.mp run
      obtain ⟨tmp3, sum, run⟩ := Option.bind_eq_some_iff.mp run
      obtain ⟨w, inverse, run⟩ := Option.bind_eq_some_iff.mp run
      obtain ⟨s₁, last, run⟩ := Option.bind_eq_some_iff.mp run
      obtain ⟨size2, value2⟩ := scalar_product_run (by omega) hd.ge enough (Or.inl mostR) product
      have below2 : value (tmp2.take 8) < order := by
        rw [value2]
        exact Nat.mod_lt _ (by decide)
      obtain ⟨size3, value3⟩ := scalar_sum he (by omega) below2 enough sum
      obtain ⟨-, unit, belowW, sizeW⟩ := fieldInv_sound hk.ge order_facts.1 order_facts.2.1
        order_facts.2.2 inverse
      rw [value_orderM.2] at unit belowW
      have whole : w.take 8 = w := List.take_of_length_le sizeW.le
      obtain ⟨size4, value4⟩ := scalar_product_run sizeW.ge (by omega) enough
        (Or.inl (whole.symm ▸ belowW.le)) last
      rw [List.take_of_length_le hd.le] at value2
      rw [List.take_of_length_le hk.le] at unit
      rw [whole] at value4
      split_ifs at run with zeroS
      · exact (failed run).elim
      · cases run
        have third : value (tmp3.take 8) ≡ value e + value (r'.take 8) * value d [MOD order] := by
          rw [value3, value2]
          exact (Nat.mod_modEq _ _).trans (Nat.ModEq.add_left _ (Nat.mod_modEq _ _))
        refine ⟨?_, Nat.pos_of_ne_zero fun zero => zeroS (isZero_of_value zero), ?_, mostR, sizeR,
          size4⟩
        · calc
            value (s'.take 8) * value k ≡ value w * value (tmp3.take 8) * value k [MOD order] :=
              Nat.ModEq.mul_right _ (value4 ▸ Nat.mod_modEq _ _)
            _ = value w * value k * value (tmp3.take 8) := by ring
            _ ≡ 1 * value (tmp3.take 8) [MOD order] := unit.mul_right _
            _ = value (tmp3.take 8) := one_mul _
            _ ≡ value e + value (r'.take 8) * value d [MOD order] := third
        · rw [value4]
          exact Nat.mod_lt _ (by decide)

/-- **SIGNATURES**: a signature `r, s` obeys `s k = z + r d`, and if the order is prime then its
    validation comes to two scalars with `u1 + u2 d = k`, modulo the order. -/
theorem sign_validate_scalars (d e k r s r' s' : List (BitVec 32)) (fuel : Nat)
    (hd : d.length = 8) (he : e.length = 8) (hk : k.length = 8) (hr : r.length = 9)
    (stale : r.getD 8 0 = 0) (enough : 3 ≤ fuel)
    (run : eccEcdsaSignHash fuel d e k r s = some (0, r', s')) :
    value (s'.take 8) * value k ≡ value e + value (r'.take 8) * value d [MOD order]
      ∧ (∀ steps ≥ 3, ∀ u₁ u₂, validateScalars steps e r' s' = some (u₁, u₂) →
        value (u₁.take 8) + value (u₂.take 8) * value d ≡ value k [MOD order])
      ∧ (order.Prime → ∀ steps ≥ 514, (validateScalars steps e r' s').isSome) := by
  obtain ⟨signed, positive, below, mostR, sizeR, sizeS⟩ :=
    sign_scalars hd he hk hr stale enough run
  refine ⟨signed, fun steps hsteps u₁ u₂ validated => ?_, fun prime steps hsteps => ?_⟩
  · obtain ⟨w, inverse, validated⟩ := Option.bind_eq_some_iff.mp validated
    obtain ⟨v₁, first, validated⟩ := Option.bind_eq_some_iff.mp validated
    obtain ⟨v₂, second, same⟩ := Option.map_eq_some_iff.mp validated
    cases same
    obtain ⟨-, unit, belowW, sizeW⟩ := fieldInv_sound (show 8 ≤ s'.length by omega) order_facts.1
      order_facts.2.1 order_facts.2.2 inverse
    rw [value_orderM.2] at unit belowW
    have whole : w.take 8 = w := List.take_of_length_le sizeW.le
    obtain ⟨-, value1⟩ := scalar_product_run he.ge sizeW.ge hsteps
      (Or.inr (whole.symm ▸ belowW.le)) first
    obtain ⟨-, value2⟩ := scalar_product_run (by omega) sizeW.ge hsteps (Or.inl mostR) second
    rw [whole, List.take_of_length_le he.le] at value1
    rw [whole] at value2
    calc
      value (u₁.take 8) + value (u₂.take 8) * value d
          ≡ value e * value w + value (r'.take 8) * value w * value d [MOD order] := by
        rw [value1, value2]
        exact (Nat.mod_modEq _ _).add ((Nat.mod_modEq _ _).mul_right _)
      _ = value w * (value e + value (r'.take 8) * value d) := by ring
      _ ≡ value w * (value (s'.take 8) * value k) [MOD order] := signed.symm.mul_left _
      _ = value w * value (s'.take 8) * value k := by ring
      _ ≡ 1 * value k [MOD order] := unit.mul_right _
      _ = value k := one_mul _
  · have coprime : Nat.Coprime (value (s'.take 8)) order :=
      Nat.Coprime.symm ((Nat.Prime.coprime_iff_not_dvd prime).mpr
        (Nat.not_dvd_of_pos_of_lt positive below))
    obtain ⟨w, inverse⟩ := Option.isSome_iff_exists.mp
      (@fieldInv_ends steps s' eccOrderM eccOrderR (by omega) order_facts.1 order_facts.2.1
        order_facts.2.2 (by rw [value_orderM.2]; exact coprime) hsteps)
    obtain ⟨-, -, belowW, sizeW⟩ := fieldInv_sound (show 8 ≤ s'.length by omega) order_facts.1
      order_facts.2.1 order_facts.2.2 inverse
    rw [value_orderM.2] at belowW
    have whole : w.take 8 = w := List.take_of_length_le sizeW.le
    obtain ⟨v₁, first, -⟩ := @scalar_product e w steps [] he.ge sizeW.ge (by omega)
      (Or.inr (whole.symm ▸ belowW.le))
    obtain ⟨v₂, second, -⟩ := @scalar_product r' w steps [] (by omega) sizeW.ge (by omega)
      (Or.inl mostR)
    rw [validateScalars, inverse, Option.bind_some, first, Option.bind_some, second]
    rfl

theorem sign_validate_scalars_one : ∃ r' s',
    eccEcdsaSignHash 514 (1 :: List.replicate 7 0) (5 :: List.replicate 7 0)
        (1 :: List.replicate 7 0) (List.replicate 9 0) (List.replicate 9 0) = some (0, r', s')
      ∧ value (s'.take 8) * 1 ≡ 5 + value (r'.take 8) * 1 [MOD order] := by
  have run : eccEcdsaSignHash 514 (1 :: List.replicate 7 0) (5 :: List.replicate 7 0)
      (1 :: List.replicate 7 0) (List.replicate 9 0) (List.replicate 9 0)
      = some (0, eccGPointX ++ [0],
        [3633889947, 4104206661, 770388896, 1996717441, 1671708914, 4173129445, 3777774151,
          1796723186, 0]) := by
    decide +kernel
  exact ⟨_, _, run, (sign_validate_scalars _ _ _ _ _ _ _ 514 rfl rfl rfl rfl rfl (by decide)
    run).1⟩

end PqDtls.Ecc
