import Mathlib.Data.Nat.Choose.Basic
import Mathlib.Data.List.Sort

/-! # Unranking subsets

    The `k`-element subsets of `{0, …, n - 1}`, numbered from `0` to
    `n.choose k - 1` by the walk down Pascal's triangle: the subsets that hold
    `n - 1` come first, and the others follow them.  A subset is the list of its
    elements, largest first.

    **`eq_of_unrank_subset`**: two numbers whose subsets are comparable are equal,
    so the subsets of different numbers are mutually non-contained. -/

namespace PqDtls.Ranking

/-- Subset number `m` of the `k`-element subsets of `{0, …, n - 1}`. -/
def unrank : (n k m : Nat) → List Nat
  | 0, _, _ => []
  | _ + 1, 0, _ => []
  | n + 1, k + 1, m =>
      if n.choose k ≤ m then unrank n (k + 1) (m - n.choose k) else n :: unrank n k m

@[simp] theorem unrank_zero (n m : Nat) : unrank n 0 m = [] := by
  cases n <;> rfl

theorem unrank_skip {n k m : Nat} (h : n.choose k ≤ m) :
    unrank (n + 1) (k + 1) m = unrank n (k + 1) (m - n.choose k) := by
  rw [unrank, if_pos h]

theorem unrank_take {n k m : Nat} (h : m < n.choose k) :
    unrank (n + 1) (k + 1) m = n :: unrank n k m := by
  rw [unrank, if_neg (Nat.not_le.mpr h)]

/-- The number left over after the subsets that hold `n`. -/
theorem skip_lt {n k m : Nat} (h : m < (n + 1).choose (k + 1)) (hskip : n.choose k ≤ m) :
    m - n.choose k < n.choose (k + 1) := by
  rw [Nat.choose_succ_succ'] at h
  omega

theorem lt_of_mem_unrank {n k m i : Nat} (h : i ∈ unrank n k m) : i < n := by
  induction n generalizing k m with
  | zero => cases h
  | succ n ih =>
      cases k with
      | zero => cases h
      | succ k =>
          rcases Nat.lt_or_ge m (n.choose k) with htake | hskip
          · rw [unrank_take htake] at h
            rcases List.mem_cons.mp h with rfl | hrest
            · exact Nat.lt_succ_self i
            · exact Nat.lt_succ_of_lt (ih hrest)
          · rw [unrank_skip hskip] at h
            exact Nat.lt_succ_of_lt (ih h)

/-- The elements are listed in falling order. -/
theorem unrank_sorted (n k m : Nat) : (unrank n k m).Pairwise (· > ·) := by
  induction n generalizing k m with
  | zero => exact List.Pairwise.nil
  | succ n ih =>
      cases k with
      | zero => exact List.Pairwise.nil
      | succ k =>
          rcases Nat.lt_or_ge m (n.choose k) with htake | hskip
          · rw [unrank_take htake]
            exact List.pairwise_cons.mpr ⟨fun i hi => lt_of_mem_unrank hi, ih k m⟩
          · rw [unrank_skip hskip]
            exact ih (k + 1) _

theorem length_unrank {n k m : Nat} (h : m < n.choose k) : (unrank n k m).length = k := by
  induction n generalizing k m with
  | zero =>
      cases k with
      | zero => rfl
      | succ k =>
          rw [Nat.choose_zero_succ] at h
          exact absurd h (Nat.not_lt_zero m)
  | succ n ih =>
      cases k with
      | zero => rfl
      | succ k =>
          rcases Nat.lt_or_ge m (n.choose k) with htake | hskip
          · rw [unrank_take htake, List.length_cons, ih htake]
          · rw [unrank_skip hskip]
            exact ih (skip_lt h hskip)

/-- A subset that holds `n` is none of those that do not. -/
theorem unrank_ne_cons {n k m : Nat} (rest : List Nat) : unrank n k m ≠ n :: rest := by
  intro heq
  have hmem : n ∈ unrank n k m := by
    rw [heq]
    exact List.mem_cons_self
  exact Nat.lt_irrefl n (lt_of_mem_unrank hmem)

/-- **Unranking is injective** on the numbers below `n.choose k`. -/
theorem unrank_inj {n k m m' : Nat} (h : m < n.choose k) (h' : m' < n.choose k)
    (heq : unrank n k m = unrank n k m') : m = m' := by
  induction n generalizing k m m' with
  | zero =>
      cases k with
      | zero =>
          rw [Nat.choose_self] at h h'
          omega
      | succ k =>
          rw [Nat.choose_zero_succ] at h
          exact absurd h (Nat.not_lt_zero m)
  | succ n ih =>
      cases k with
      | zero =>
          rw [Nat.choose_zero_right] at h h'
          omega
      | succ k =>
          rcases Nat.lt_or_ge m (n.choose k) with htake | hskip <;>
            rcases Nat.lt_or_ge m' (n.choose k) with htake' | hskip'
          · rw [unrank_take htake, unrank_take htake'] at heq
            exact ih htake htake' (List.cons.inj heq).2
          · rw [unrank_take htake, unrank_skip hskip'] at heq
            exact absurd heq.symm (unrank_ne_cons _)
          · rw [unrank_skip hskip, unrank_take htake'] at heq
            exact absurd heq (unrank_ne_cons _)
          · rw [unrank_skip hskip, unrank_skip hskip'] at heq
            have hsub := ih (skip_lt h hskip) (skip_lt h' hskip') heq
            omega

/-- **Different numbers, non-contained subsets.** -/
theorem eq_of_unrank_subset {n k m m' : Nat} (h : m < n.choose k) (h' : m' < n.choose k)
    (hsub : unrank n k m ⊆ unrank n k m') : m = m' := by
  have hnodup : (unrank n k m).Nodup := (unrank_sorted n k m).imp fun hgt => Nat.ne_of_gt hgt
  have hlen : (unrank n k m').length ≤ (unrank n k m).length := by
    rw [length_unrank h, length_unrank h']
  have hperm : (unrank n k m).Perm (unrank n k m') :=
    (List.subperm_of_subset hnodup hsub).perm_of_length_le hlen
  exact unrank_inj h h'
    (hperm.eq_of_pairwise (fun a b _ _ hab hba => absurd hab (Nat.lt_asymm hba))
      (unrank_sorted n k m) (unrank_sorted n k m'))

end PqDtls.Ranking
