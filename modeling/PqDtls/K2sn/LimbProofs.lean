import PqDtls.K2sn.U256

/-! # Limbs at the ends of their range

    `add` is exact modulo `2 ^ 320` for all numbers.  `sub` is not exact for all:
    a borrow is passed on by adding one to the next limb of the subtrahend, and a
    limb of all ones becomes zero by that.  **`limbsExact_iff`** says for which
    numbers this happens.

    `isgteq` finds the order of all numbers; for equal ones it has looked at a limb
    in front of the first when it finds that there are no more. -/

namespace PqDtls.Limbs

/-! ## Addition -/

theorem value_lt (a : U256) : value a < 2 ^ 320 := by
  have top := a[4].toNat_lt
  obtain ⟨h0, h1, h2, h3⟩ := limbs_lt a
  unfold value
  omega

/-- The limbs of a sum, and the carry out of the last one. -/
theorem value_add_carry (a b : U256) :
    ∃ carry, value (add a b) + 2 ^ 320 * carry = value a + value b := by
  let t0 := addLimb a[0] b[0] 0
  let t1 := addLimb a[1] b[1] t0.2
  let t2 := addLimb a[2] b[2] t1.2
  let t3 := addLimb a[3] b[3] t2.2
  let t4 := addLimb a[4] b[4] t3.2
  have h0 : t0.1.toNat + 2 ^ 64 * t0.2 = a[0].toNat + b[0].toNat + 0 :=
    addLimb_spec (Nat.zero_le 1)
  have h1 : t1.1.toNat + 2 ^ 64 * t1.2 = a[1].toNat + b[1].toNat + t0.2 :=
    addLimb_spec (addLimb_carry _ _ _)
  have h2 : t2.1.toNat + 2 ^ 64 * t2.2 = a[2].toNat + b[2].toNat + t1.2 :=
    addLimb_spec (addLimb_carry _ _ _)
  have h3 : t3.1.toNat + 2 ^ 64 * t3.2 = a[3].toNat + b[3].toNat + t2.2 :=
    addLimb_spec (addLimb_carry _ _ _)
  have h4 : t4.1.toNat + 2 ^ 64 * t4.2 = a[4].toNat + b[4].toNat + t3.2 :=
    addLimb_spec (addLimb_carry _ _ _)
  have limbs : value (add a b) = t0.1.toNat + 2 ^ 64 * t1.1.toNat + 2 ^ 128 * t2.1.toNat
      + 2 ^ 192 * t3.1.toNat + 2 ^ 256 * t4.1.toNat := rfl
  refine ⟨t4.2, ?_⟩
  rw [limbs]
  unfold value
  omega

/-- **ADDITION** of all numbers, modulo `2 ^ 320`. -/
theorem value_add_mod (a b : U256) : value (add a b) = (value a + value b) % 2 ^ 320 := by
  obtain ⟨carry, h⟩ := value_add_carry a b
  have lt := value_lt (add a b)
  omega

/-! ## Borrows -/

/-- The borrow that is lost when `w` is added to the limb `y`. -/
def lostBorrow (y w : UInt64) : Nat := if y = m64 ∧ w = 1 then 1 else 0

theorem lostBorrow_le (y w : UInt64) : lostBorrow y w ≤ 1 := by
  unfold lostBorrow
  split <;> omega

/-- Adding a borrow to a limb of the subtrahend. -/
theorem toNat_add_lost {y w : UInt64} (hw : w.toNat ≤ 1) :
    (y + w).toNat + 2 ^ 64 * lostBorrow y w = y.toNat + w.toNat := by
  have hy := y.toNat_lt
  have hm : m64.toNat = 2 ^ 64 - 1 := rfl
  have one : (1 : UInt64).toNat = 1 := rfl
  unfold lostBorrow
  simp only [← UInt64.toNat_inj, UInt64.toNat_add, hm, one]
  by_cases lost : y.toNat = 2 ^ 64 - 1 ∧ w.toNat = 1
  · rw [if_pos lost]
    omega
  · rw [if_neg lost]
    omega

/-- A difference limb, its borrow and what was lost of the one before. -/
theorem subLimb_lost (x y : UInt64) {w : UInt64} (hw : w.toNat ≤ 1) :
    (subLimb x (y + w)).1.toNat + y.toNat + w.toNat
        = x.toNat + 2 ^ 64 * (subLimb x (y + w)).2.toNat + 2 ^ 64 * lostBorrow y w ∧
      (subLimb x (y + w)).2.toNat ≤ 1 := by
  obtain ⟨spec, le⟩ := subLimb_spec x (y + w)
  have add := @toNat_add_lost y w hw
  exact ⟨by omega, le⟩

/-- The number that the lowest `i` limbs stand for. -/
def lowest (a : U256) (i : Nat) : Nat := value a % 2 ^ (64 * i)

/-- No borrow arrives at a limb of all ones. -/
def BorrowsKept (a b : U256) : Prop :=
  ∀ i (h : i < 5), b[i] = m64 → lowest b i ≤ lowest a i

/-- The sum and the difference are those of the numbers. -/
structure LimbsExact (a b : U256) : Prop where
  add : value (Limbs.add a b) = (value a + value b) % 2 ^ 320
  sub : value b ≤ value a → value (Limbs.sub a b) = value a - value b

theorem lowest_lt (a : U256) (i : Nat) : lowest a i < 2 ^ (64 * i) :=
  Nat.mod_lt _ (Nat.two_pow_pos _)

theorem lowest_five (a : U256) : lowest a 5 = value a := by
  rw [lowest, show 64 * 5 = 320 from rfl]
  exact Nat.mod_eq_of_lt (value_lt a)

theorem lowest_succ (a : U256) (i : Nat) (h : i < 5) :
    lowest a (i + 1) = lowest a i + 2 ^ (64 * i) * a[i].toNat := by
  obtain ⟨h0, h1, h2, h3⟩ := limbs_lt a
  have h4 := a[4].toNat_lt
  unfold lowest value
  rcases i with _ | _ | _ | _ | _ | i
  · norm_num
    omega
  · norm_num
    omega
  · norm_num
    omega
  · norm_num
    omega
  · norm_num
    omega
  · omega

/-- The borrow that arrives at limb `i` of the subtrahend. -/
def borrow (a b : U256) : (i : Nat) → i ≤ 4 → UInt64
  | 0, _ => 0
  | i + 1, h => (subLimb a[i] (b[i] + borrow a b i (by omega))).2

theorem borrow_le (a b : U256) (i : Nat) (h : i ≤ 4) : (borrow a b i h).toNat ≤ 1 := by
  cases i with
  | zero => exact Nat.zero_le 1
  | succ i => exact (subLimb_spec a[i] (b[i] + borrow a b i (by omega))).2

/-- The borrow that is lost at limb `i`. -/
def lostAt (a b : U256) (i : Nat) (h : i ≤ 4) : Nat := lostBorrow b[i] (borrow a b i h)

/-- A limb of a difference. -/
theorem sub_limb (a b : U256) (i : Nat) (h : i < 4) :
    (sub a b)[i].toNat + b[i].toNat + (borrow a b i (by omega)).toNat
      = a[i].toNat + 2 ^ 64 * (borrow a b (i + 1) h).toNat
        + 2 ^ 64 * lostAt a b i (by omega) := by
  have limb : (sub a b)[i] = (subLimb a[i] (b[i] + borrow a b i (by omega))).1 := by
    have first : (subLimb a[0] (b[0] + 0)) = subLimb a[0] b[0] := by rw [UInt64.add_zero]
    rcases i with _ | _ | _ | _ | i
    · simp only [borrow, sub, first, Vector.getElem_mk, List.getElem_toArray,
        List.getElem_cons_zero]
    · simp only [borrow, sub, first, Vector.getElem_mk, List.getElem_toArray,
        List.getElem_cons_zero, List.getElem_cons_succ]
    · simp only [borrow, sub, first, Vector.getElem_mk, List.getElem_toArray,
        List.getElem_cons_zero, List.getElem_cons_succ]
    · simp only [borrow, sub, first, Vector.getElem_mk, List.getElem_toArray,
        List.getElem_cons_zero, List.getElem_cons_succ]
    · omega
  rw [limb]
  exact (subLimb_lost a[i] b[i] (borrow_le a b i (by omega))).1

/-- The last limb of a difference; what would be borrowed there is gone. -/
theorem sub_top (a b : U256) {i : Nat} (hi : i < 5) (top : i = 4) :
    ((sub a b)[i].toNat + b[i].toNat + (borrow a b i (Nat.le_of_lt_succ hi)).toNat) % 2 ^ 64
      = a[i].toNat := by
  subst top
  have first : (subLimb a[0] (b[0] + 0)) = subLimb a[0] b[0] := by rw [UInt64.add_zero]
  have limb : (sub a b)[4] = a[4] - (b[4] + borrow a b 4 (Nat.le_refl 4)) := by
    simp only [borrow, sub, first, Vector.getElem_mk, List.getElem_toArray,
      List.getElem_cons_zero, List.getElem_cons_succ]
  have ha := a[4].toNat_lt
  have hb := b[4].toNat_lt
  have hw := borrow_le a b 4 (Nat.le_refl 4)
  rw [limb, UInt64.toNat_sub, UInt64.toNat_add]
  omega

theorem lostAt_zero (a b : U256) : lostAt a b 0 (by omega) = 0 := if_neg fun h => by
  have zero : (0 : UInt64) = 1 := h.2
  exact absurd zero (by decide)

/-- What the borrows that are lost are worth. -/
def lostValue (a b : U256) : Nat :=
  2 ^ 128 * lostAt a b 1 (by omega) + 2 ^ 192 * lostAt a b 2 (by omega)
    + 2 ^ 256 * lostAt a b 3 (by omega)

/-- **SUBTRACTION**: the difference is too large by what is lost. -/
theorem value_sub_lost (a b : U256) :
    (value (sub a b) + value b) % 2 ^ 320 = (value a + lostValue a b) % 2 ^ 320 := by
  have h0 := sub_limb a b 0 (by omega)
  have h1 := sub_limb a b 1 (by omega)
  have h2 := sub_limb a b 2 (by omega)
  have h3 := sub_limb a b 3 (by omega)
  have h4 := sub_top a b (i := 4) (by omega) rfl
  have none : (borrow a b 0 (by omega)).toNat = 0 := rfl
  rw [lostAt_zero, none] at h0
  simp only [Nat.zero_add, Nat.reduceAdd] at h0 h1 h2 h3
  unfold value lostValue
  omega

theorem lostBorrow_eq_zero {y w : UInt64} (hw : w.toNat ≤ 1) :
    lostBorrow y w = 0 ↔ (y = m64 → w.toNat = 0) := by
  unfold lostBorrow
  by_cases lost : y = m64 ∧ w = 1
  · rw [if_pos lost, lost.2]
    exact iff_of_false Nat.one_ne_zero fun kept => absurd (kept lost.1) (by decide)
  · rw [if_neg lost]
    refine iff_of_true rfl fun hy => ?_
    have ne : w.toNat ≠ 1 := fun one => lost ⟨hy, UInt64.toNat_inj.mp one⟩
    omega

/-- The lowest limbs of a difference, as long as no borrow is lost. -/
theorem lowest_sub {a b : U256} (i : Nat) (h : i ≤ 4)
    (kept : ∀ j (hj : j < i), lostAt a b j (by omega) = 0) :
    lowest (sub a b) i + lowest b i = lowest a i + 2 ^ (64 * i) * (borrow a b i h).toNat := by
  induction i with
  | zero => simp only [lowest, Nat.mul_zero, Nat.pow_zero, Nat.mod_one, borrow, UInt64.toNat_zero]
  | succ i ih =>
      have low := ih (by omega) fun j hj => kept j (by omega)
      have limb := congrArg (2 ^ (64 * i) * ·) (sub_limb a b i (by omega))
      rw [kept i (by omega)] at limb
      simp only [Nat.mul_add, Nat.mul_zero, Nat.add_zero] at limb
      rw [lowest_succ _ i (by omega), lowest_succ _ i (by omega), lowest_succ _ i (by omega),
        Nat.mul_succ, Nat.pow_add, Nat.mul_assoc]
      omega

/-- Then a borrow arrives where the lower limbs of the subtrahend are larger. -/
theorem borrow_eq_zero {a b : U256} (i : Nat) (h : i ≤ 4)
    (kept : ∀ j (hj : j < i), lostAt a b j (by omega) = 0) :
    (borrow a b i h).toNat = 0 ↔ lowest b i ≤ lowest a i := by
  have low := lowest_sub i h kept
  have lt := lowest_lt (sub a b) i
  have lt_b := lowest_lt b i
  have le := borrow_le a b i h
  by_cases none : (borrow a b i h).toNat = 0
  · rw [none] at low
    omega
  · have one : (borrow a b i h).toNat = 1 := by omega
    rw [one] at low
    omega

/-- No borrow that arrives at the last limb is lost there, if the difference is not negative. -/
theorem borrowsKept_of {a b : U256} (h : value b ≤ value a)
    (kept : ∀ i (hi : i < 4), lostAt a b i (by omega) = 0) : BorrowsKept a b := by
  intro i hi ones
  rcases Nat.lt_or_eq_of_le (Nat.le_of_lt_succ hi) with lt | rfl
  · have none := (lostBorrow_eq_zero (borrow_le a b i (by omega))).mp (kept i lt) ones
    exact (borrow_eq_zero i (by omega) fun j hj => kept j (by omega)).mp none
  · have top : b[4].toNat = 2 ^ 64 - 1 := congrArg UInt64.toNat ones
    have lt := a[4].toNat_lt
    have la := lowest_succ a 4 (by omega)
    have lb := lowest_succ b 4 (by omega)
    simp only [Nat.reduceAdd, lowest_five] at la lb
    rw [top] at lb
    omega

theorem kept_of_borrowsKept {a b : U256} (h : BorrowsKept a b) (i : Nat) (hi : i < 4) :
    lostAt a b i (by omega) = 0 := by
  induction i using Nat.strong_induction_on with
  | _ i ih =>
      refine (lostBorrow_eq_zero (borrow_le a b i (by omega))).mpr fun ones => ?_
      exact (borrow_eq_zero i (by omega) fun j hj => ih j hj (by omega)).mpr (h i (by omega) ones)

/-- A borrow is lost exactly when one arrives at a limb of all ones. -/
theorem borrowsKept_iff {a b : U256} (h : value b ≤ value a) :
    BorrowsKept a b ↔ lostValue a b = 0 := by
  constructor
  · intro kept
    have k := kept_of_borrowsKept kept
    simp only [lostValue, k 1 (by omega), k 2 (by omega), k 3 (by omega), Nat.mul_zero]
  · intro none
    refine borrowsKept_of h fun i hi => ?_
    have k0 := lostAt_zero a b
    unfold lostValue at none
    have k1 : lostAt a b 1 (by omega) = 0 := by omega
    have k2 : lostAt a b 2 (by omega) = 0 := by omega
    have k3 : lostAt a b 3 (by omega) = 0 := by omega
    rcases i with _ | _ | _ | _ | i
    · exact k0
    · exact k1
    · exact k2
    · exact k3
    · omega

/-- **EXACT**: the sum always is, and the difference of a number and one that is not larger
    exactly when no borrow arrives at a limb of all ones. -/
theorem limbsExact_iff (a b : U256) :
    LimbsExact a b ↔ (value b ≤ value a → BorrowsKept a b) := by
  have lost := value_sub_lost a b
  have lt := value_lt (sub a b)
  have lt_a := value_lt a
  have worth : lostValue a b < 2 ^ 320 := by
    have l1 := lostBorrow_le b[1] (borrow a b 1 (by omega))
    have l2 := lostBorrow_le b[2] (borrow a b 2 (by omega))
    have l3 := lostBorrow_le b[3] (borrow a b 3 (by omega))
    unfold lostValue lostAt
    omega
  have exact_iff (h : value b ≤ value a) :
      value (sub a b) = value a - value b ↔ BorrowsKept a b := by
    rw [borrowsKept_iff h]
    omega
  exact ⟨fun ok h => (exact_iff h).mp (ok.sub h),
    fun kept => ⟨value_add_mod a b, fun h => (exact_iff h).mpr (kept h)⟩⟩

/-- The borrow of the first limb is lost at the second one. -/
theorem limbsExact_ones : ¬ ∀ a b : U256, LimbsExact a b := by
  intro h
  have wrong := (h #v[0, 0, 1, 0, 0] #v[1, m64, 0, 0, 0]).sub (by decide)
  exact absurd wrong (by decide)

/-! ## Comparison -/

/-- The loop of `isgteq` from limb `i - 1` down: the index at which it ends, and those it
    looks at.  Both limbs are read before the index is checked. -/
def isgteqLoop (a b : Int → UInt64) : Nat → Int × List Int
  | 0 => (-1, [-1])
  | i + 1 =>
      if a i = b i then ((isgteqLoop a b i).1, i :: (isgteqLoop a b i).2)
      else (i, [(i : Int)])

/-- `isgteq` with the indices it looks at; `a` and `b` are what is found at an index of the
    arrays, and beside them. -/
def isgteqReads (a b : Int → UInt64) : Bool × List Int :=
  let i := (isgteqLoop a b 5).1
  if i = -1 then (true, (isgteqLoop a b 5).2)
  else (a i > b i, (isgteqLoop a b 5).2 ++ [i])

/-- The five limbs of an array. -/
def limbsAt (a : Int → UInt64) : U256 := #v[a 0, a 1, a 2, a 3, a 4]

/-- The result is the order of the numbers, and only their limbs are looked at. -/
structure Compares (a b : Int → UInt64) : Prop where
  result : (isgteqReads a b).1 = true ↔ value (limbsAt b) ≤ value (limbsAt a)
  inside : ∀ i ∈ (isgteqReads a b).2, 0 ≤ i ∧ i ≤ 4

/-- The limbs below `n` are equal. -/
def EqualBelow (a b : Int → UInt64) (n : Nat) : Prop := ∀ i : Nat, i < n → a i = b i

/-- The loop ends in front of the first limb when all are equal, else at one that differs. -/
theorem isgteqLoop_end (a b : Int → UInt64) (n : Nat) :
    (EqualBelow a b n ∧ (isgteqLoop a b n).1 = -1 ∧ (-1 : Int) ∈ (isgteqLoop a b n).2) ∨
      ∃ i : Nat, i < n ∧ a i ≠ b i ∧ (isgteqLoop a b n).1 = i ∧
        ∀ j ∈ (isgteqLoop a b n).2, 0 ≤ j ∧ j < n := by
  induction n with
  | zero => exact .inl ⟨fun i hi => absurd hi (Nat.not_lt_zero i), rfl, List.mem_singleton_self _⟩
  | succ n ih =>
      rw [isgteqLoop]
      by_cases same : a n = b n
      · rw [if_pos same]
        rcases ih with ⟨equal, last, found⟩ | ⟨i, hi, differ, last, inside⟩
        · refine .inl ⟨fun j hj => ?_, last, List.mem_cons_of_mem _ found⟩
          rcases Nat.lt_succ_iff_lt_or_eq.mp hj with lt | rfl
          · exact equal j lt
          · exact same
        · refine .inr ⟨i, by omega, differ, last, List.forall_mem_cons.mpr ⟨by omega, ?_⟩⟩
          intro j hj
          have := inside j hj
          omega
      · rw [if_neg same]
        refine .inr ⟨n, by omega, same, rfl, fun j hj => ?_⟩
        rw [List.mem_singleton.mp hj]
        omega

theorem limbsAt_get (a : Int → UInt64) (i : Nat) (h : i < 5) : (limbsAt a)[i] = a i := by
  rcases i with _ | _ | _ | _ | _ | i
  · rfl
  · rfl
  · rfl
  · rfl
  · rfl
  · omega

/-- What is found at the end of the loop decides. -/
theorem isgteqFrom_loop (a b : Int → UInt64) (n : Nat) (h : n ≤ 5) :
    isgteqFrom (limbsAt a) (limbsAt b) n h
      = if (isgteqLoop a b n).1 = -1 then true
        else decide (a (isgteqLoop a b n).1 > b (isgteqLoop a b n).1) := by
  induction n with
  | zero => rfl
  | succ n ih =>
      rw [isgteqFrom, isgteqLoop, limbsAt_get, limbsAt_get]
      by_cases same : a n = b n
      · rw [if_pos same, if_pos same]
        exact ih (by omega)
      · have found : ¬ ((n : Int) = -1) := by omega
        simp only [if_neg same, if_neg found]

/-- The result is that of the loop over the limbs alone. -/
theorem isgteqReads_result (a b : Int → UInt64) :
    (isgteqReads a b).1 = isgteq (limbsAt a) (limbsAt b) := by
  rw [isgteq, isgteqFrom_loop, isgteqReads]
  by_cases equal : (isgteqLoop a b 5).1 = -1
  · simp only [if_pos equal]
  · simp only [if_neg equal]

theorem equalBelow_limbs (a b : Int → UInt64) : EqualBelow a b 5 ↔ limbsAt a = limbsAt b := by
  constructor
  · intro equal
    apply Vector.ext
    intro i hi
    rw [limbsAt_get, limbsAt_get]
    exact equal i hi
  · intro same i hi
    rw [← limbsAt_get a i hi, ← limbsAt_get b i hi, same]

/-- **COMPARISON** looks at the limbs alone exactly when they are not all equal. -/
theorem compares_iff (a b : Int → UInt64) : Compares a b ↔ limbsAt a ≠ limbsAt b := by
  have result : (isgteqReads a b).1 = true ↔ value (limbsAt b) ≤ value (limbsAt a) := by
    rw [isgteqReads_result, isgteq_iff]
  rw [Ne, ← equalBelow_limbs]
  rcases isgteqLoop_end a b 5 with ⟨equal, last, found⟩ | ⟨i, hi, differ, last, inside⟩
  · refine iff_of_false (fun compares => ?_) (not_not_intro equal)
    have out := compares.inside (-1) (by simp only [isgteqReads, if_pos last]; exact found)
    omega
  · refine iff_of_true ⟨result, fun j hj => ?_⟩ fun equal => differ (equal i hi)
    have here : ¬ ((i : Int) = -1) := by omega
    simp only [isgteqReads, last, if_neg here] at hj
    rcases List.mem_append.mp hj with hj | hj
    · have := inside j hj
      omega
    · rw [List.mem_singleton.mp hj]
      omega

/-- Two equal numbers: a limb in front of the first is read. -/
theorem compares_equal : ¬ ∀ a b : Int → UInt64, Compares a b := by
  intro h
  have inside := (h (fun _ => 1) fun _ => 1).inside (-1) (by decide)
  exact absurd inside.1 (by decide)

end PqDtls.Limbs
