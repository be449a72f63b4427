import Mathlib.Data.BitVec
import Mathlib.Tactic.Ring
import Mathlib.Tactic.Linarith

/-! # Walks over memory

    Accesses to memory as intervals of addresses, and loops given by their test, their
    turn, and what a turn touches.  There is a rule for each question about such a loop:
    what holds at every test, that it ends if a measure decreases, and that it does not
    if its test stays true.

    The last part is about the loop that counts a length down in steps while it moves on
    in memory, as parsers of lists do.  The counter may be of any ring, so a machine
    integer that wraps around is covered; **`stride_safe_iff`** says which lengths such a
    loop gets right. -/

namespace PqDtls.Walk

/-! ## Accesses -/

/-- `n` bytes from `offset` on. -/
structure Access where
  offset : Int
  n : Nat
deriving DecidableEq, Repr

/-- The bytes lie in the interval. -/
def Access.Inside (x : Access) (lo hi : Int) : Prop := lo ≤ x.offset ∧ x.offset + x.n ≤ hi

instance (x : Access) (lo hi : Int) : Decidable (x.Inside lo hi) :=
  inferInstanceAs (Decidable (_ ∧ _))

/-! ## Loops -/

/-- `while (test) { turn; next }`. -/
structure Loop (σ : Type) where
  test : σ → Bool
  next : σ → σ
  turn : σ → List Access

variable {σ : Type} {L : Loop σ} {s t : σ} {lo hi : Int}

/-- The states in which the test is made. -/
inductive Loop.Reach (L : Loop σ) (s : σ) : σ → Prop
  | start : L.Reach s s
  | turn {t : σ} : L.Reach s t → L.test t = true → L.Reach s (L.next t)

/-- The loop is left. -/
def Loop.Ends (L : Loop σ) (s : σ) : Prop := ∃ t, L.Reach s t ∧ L.test t = false

/-- What the loop touches lies in the interval. -/
def Loop.InBounds (L : Loop σ) (s : σ) (lo hi : Int) : Prop :=
  ∀ t, L.Reach s t → L.test t = true → ∀ x ∈ L.turn t, x.Inside lo hi

/-- The loop is left, and stays in the interval. -/
def Loop.Safe (L : Loop σ) (s : σ) (lo hi : Int) : Prop := L.Ends s ∧ L.InBounds s lo hi

/-- **INVARIANTS** of a loop. -/
theorem Loop.Reach.invariant {I : σ → Prop} (h : L.Reach s t) (hs : I s)
    (step : ∀ t, I t → L.test t = true → I (L.next t)) : I t := by
  induction h with
  | start => exact hs
  | turn _ ht ih => exact step _ ih ht

/-- A turn in front of a run. -/
theorem Loop.Reach.head (h : L.Reach (L.next s) t) (hs : L.test s = true) : L.Reach s t := by
  induction h with
  | start => exact .turn .start hs
  | turn _ ht ih => exact .turn ih ht

/-- **MEASURE**: from every state a loop whose measure decreases is left. -/
theorem Loop.ends_from (μ : σ → Nat) {I : σ → Prop}
    (step : ∀ t, I t → L.test t = true → I (L.next t) ∧ μ (L.next t) < μ t)
    (reach : L.Reach s t) (ht : I t) : L.Ends s := by
  induction hn : μ t using Nat.strong_induction_on generalizing t with
  | _ n ih =>
      cases test : L.test t with
      | false => exact ⟨t, reach, test⟩
      | true =>
          obtain ⟨kept, less⟩ := step t ht test
          exact ih _ (hn ▸ less) (.turn reach test) kept rfl

/-- **NO END**: an invariant under which the test stays true. -/
theorem Loop.endless {I : σ → Prop} (hs : I s)
    (step : ∀ t, I t → L.test t = true ∧ I (L.next t)) : ¬ L.Ends s := by
  rintro ⟨t, reach, left⟩
  have ht : I t := reach.invariant hs fun t ht _ => (step t ht).2
  rw [(step t ht).1] at left
  cases left

/-! ## Strides -/

/-- What is still to be done, where, and whether an item was found. -/
structure Cursor (κ : Type) where
  count : κ
  offset : Int
  found : Bool

variable {κ : Type} [CommRing κ] {width N : Nat} {hit : Int → Bool} {off : Int}

/-- `while (count && !found)`, over items of `width` bytes. -/
def stride (κ : Type) [CommRing κ] [DecidableEq κ] (width : Nat) (hit : Int → Bool) :
    Loop (Cursor κ) where
  test c := decide (c.count ≠ 0) && !c.found
  next c := ⟨c.count - width, c.offset + width, hit c.offset⟩
  turn c := [⟨c.offset, width⟩]

/-- The cursor after `k` turns, if no item was found. -/
def cursor (κ : Type) [CommRing κ] (width N : Nat) (off : Int) (k : Nat) : Cursor κ :=
  ⟨N - width * k, off + width * k, false⟩

/-- A whole item of the first `N` bytes is found. -/
def Hits (width N : Nat) (hit : Int → Bool) (off : Int) : Prop :=
  ∃ k : Nat, width * (k + 1) ≤ N ∧ hit (off + width * k) = true

theorem cursor_zero : cursor κ width N off 0 = ⟨N, off, false⟩ := by
  simp [cursor]

/-- Turns that end in the first `N` bytes: those of a list of whole items, and those up
    to an item that is found. -/
theorem turn_le {k : Nat} (h : width ∣ N ∨ Hits width N hit off)
    (before : ∀ j < k, (N : κ) ≠ width * j ∧ hit (off + width * j) = false)
    (more : (N : κ) ≠ width * k) : width * (k + 1) ≤ N := by
  rcases h with ⟨q, rfl⟩ | ⟨k', whole, now⟩
  · -- the counter is 0 after `q` turns
    refine Nat.mul_le_mul_left width (Nat.succ_le_of_lt ?_)
    by_contra hq
    rcases (not_lt.mp hq).lt_or_eq with hq | rfl
    · exact (before q hq).1 (by push_cast; rfl)
    · exact more (by push_cast; rfl)
  · have hk : k ≤ k' := by
      by_contra hk
      rw [(before k' (not_le.mp hk)).2] at now
      cases now
    exact (Nat.mul_le_mul_left width (Nat.succ_le_succ hk)).trans whole

variable [DecidableEq κ]

theorem next_cursor {k : Nat} (h : hit (off + width * k) = false) :
    (stride κ width hit).next (cursor κ width N off k) = cursor κ width N off (k + 1) := by
  simp only [stride, cursor, h, Nat.cast_add, Nat.cast_one, Cursor.mk.injEq, and_true]
  constructor <;> ring

theorem test_cursor {k : Nat} :
    (stride κ width hit).test (cursor κ width N off k) = true ↔ (N : κ) ≠ width * k := by
  simp only [stride, cursor, Bool.not_false, Bool.and_true, decide_eq_true_eq, ne_eq, sub_eq_zero]

/-- As long as no item is found, the cursor moves on. -/
theorem reach_cursor {k : Nat}
    (h : ∀ j < k, (N : κ) ≠ width * j ∧ hit (off + width * j) = false) :
    (stride κ width hit).Reach ⟨N, off, false⟩ (cursor κ width N off k) := by
  induction k with
  | zero =>
      rw [cursor_zero]
      exact .start
  | succ k ih =>
      obtain ⟨more, miss⟩ := h k k.lt_succ_self
      rw [← next_cursor miss]
      exact .turn (ih fun j hj => h j (hj.trans k.lt_succ_self)) (test_cursor.mpr more)

/-- A state of the loop: some turns were taken, and the last one may have found an item. -/
theorem reach_cases {c : Cursor κ} (h : (stride κ width hit).Reach ⟨N, off, false⟩ c) :
    (∃ k : Nat, c = cursor κ width N off k ∧
      ∀ j < k, (N : κ) ≠ width * j ∧ hit (off + width * j) = false) ∨ c.found = true := by
  refine h.invariant (I := fun c => (∃ k : Nat, c = cursor κ width N off k ∧
    ∀ j < k, (N : κ) ≠ width * j ∧ hit (off + width * j) = false) ∨ c.found = true)
    (.inl ⟨0, cursor_zero.symm, fun j hj => absurd hj j.not_lt_zero⟩) ?_
  rintro c (⟨k, rfl, before⟩ | found) test
  · cases now : hit (off + width * k) with
    | true => exact .inr now
    | false =>
        refine .inl ⟨k + 1, next_cursor now, fun j hj => ?_⟩
        rcases Nat.lt_succ_iff_lt_or_eq.mp hj with hj | rfl
        · exact before j hj
        · exact ⟨test_cursor.mp test, now⟩
  · simp only [stride, found, Bool.not_true, Bool.and_false, Bool.false_eq_true] at test

/-- **STRIDES**: a loop over the items of a list of `N` bytes is left, and stays in the list,
    exactly when the list consists of whole items or one of its whole items is found. -/
theorem stride_safe_iff (hw : 0 < width) (fits : ∀ m ≤ N, (m : κ) = N → m = N) :
    (stride κ width hit).Safe ⟨N, off, false⟩ off (off + N) ↔
      width ∣ N ∨ Hits width N hit off := by
  constructor
  · rintro ⟨-, inside⟩
    by_contra! h
    obtain ⟨part, missed⟩ := h
    have less (j : Nat) (hj : width * j ≤ N) : (N : κ) ≠ width * j := fun heq =>
      part ⟨j, (fits _ hj (by rw [heq]; push_cast; rfl)).symm⟩
    -- the turn that begins with the last, incomplete item is taken
    have last : width * (N / width) ≤ N := Nat.mul_div_le N width
    have reach := @reach_cursor κ _ width N hit off _ (N / width) fun j hj => by
      have whole : width * (j + 1) ≤ N :=
        (Nat.mul_le_mul_left width (Nat.succ_le_of_lt hj)).trans last
      refine ⟨less j ((Nat.mul_le_mul_left width j.le_succ).trans whole), ?_⟩
      exact Bool.eq_false_iff.mpr fun now => missed ⟨j, whole, now⟩
    have within := (inside _ reach (test_cursor.mpr (less _ last)) _ (List.mem_singleton_self _)).2
    have beyond := Nat.lt_mul_div_succ N hw
    have within' : width * (N / width) + width ≤ N := by
      simp only [cursor] at within
      push_cast at within
      exact_mod_cast (by linarith : (width * (N / width : Nat) + width : Int) ≤ N)
    rw [Nat.mul_add, Nat.mul_one] at beyond
    omega
  · intro h
    refine ⟨?_, ?_⟩
    · -- every turn takes the cursor further, and none beyond the list
      refine Loop.ends_from (fun c => (off + N - c.offset).toNat)
        (I := fun c => (stride κ width hit).Reach ⟨N, off, false⟩ c) ?_ .start .start
      intro c reach test
      refine ⟨.turn reach test, ?_⟩
      rcases reach_cases reach with ⟨k, rfl, before⟩ | found
      · have le := turn_le h before (test_cursor.mp test)
        have le' : ((width : Int) * k + width ≤ N) := by
          rw [Nat.mul_add, Nat.mul_one] at le
          exact_mod_cast le
        simp only [stride, cursor]
        omega
      · simp only [stride, found, Bool.not_true, Bool.and_false, Bool.false_eq_true] at test
    · intro c reach test x hx
      rcases reach_cases reach with ⟨k, rfl, before⟩ | found
      · have le := turn_le h before (test_cursor.mp test)
        have le' : ((width : Int) * k + width ≤ N) := by
          rw [Nat.mul_add, Nat.mul_one] at le
          exact_mod_cast le
        rw [List.mem_singleton.mp hx]
        have pos : (0 : Int) ≤ width * k := by positivity
        exact ⟨by simp only [cursor]; omega, by simp only [cursor]; omega⟩
      · simp only [stride, found, Bool.not_true, Bool.and_false, Bool.false_eq_true] at test

/-- **OVERRUN**: a counter that is no multiple of the step passes 0, and without an item to
    find there is no end. -/
theorem stride_endless (missed : ∀ k : Nat, hit (off + width * k) = false)
    (never : ∀ k : Nat, (N : κ) ≠ width * k) :
    ¬ (stride κ width hit).Ends ⟨N, off, false⟩ := by
  refine Loop.endless (I := fun c => ∃ k, c = cursor κ width N off k) ⟨0, cursor_zero.symm⟩ ?_
  rintro c ⟨k, rfl⟩
  exact ⟨test_cursor.mpr (never k), k + 1, next_cursor (missed k)⟩

end PqDtls.Walk
