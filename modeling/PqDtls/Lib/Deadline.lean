import Mathlib.Algebra.BigOperators.Intervals
import Mathlib.Algebra.Order.BigOperators.Group.Finset
import Mathlib.Tactic.Ring

/-! # Harmonic periodic tasks under a fixed budget

    Task `i` (for `i < N`) needs `2 ^ i` units of work for each of its jobs and
    may be released at the instants that are multiples of `2 ^ (i + 1)`; a job
    must be complete when the next such instant comes.  Between two instants a
    scheduler hands out `B` units, one at a time, to jobs that are not
    complete.

    The only thing assumed of the scheduler is FAIRNESS towards short jobs: a
    task `i` is served while a lower task `k` is pending only if less than
    `2 ^ k` units of `i`'s job are done.  `sched_deadline` shows that with
    `N ≤ 2 * B` every job then meets its deadline.  The bound is attained: the
    demand on a window of task `N - 1` is one unit below the supply. -/

namespace PqDtls.Deadline

/-- Units done of the current job of each task. -/
abbrev Progress := Nat → Nat

/-- The current job of task `i` is not complete. -/
def Pending (n : Progress) (i : Nat) : Prop := n i < 2 ^ i

/-- Task `i` may be served in `n`. -/
def Fair (N : Nat) (n : Progress) (i : Nat) : Prop :=
  i < N ∧ Pending n i ∧ ∀ k, k < i → Pending n k → n i < 2 ^ k

/-- One unit of work: idle only when nothing is pending. -/
inductive Slot (N : Nat) : Progress → Progress → Prop
  | idle {n : Progress} (h : ∀ i, i < N → ¬ Pending n i) : Slot N n n
  | serve {n : Progress} {i : Nat} (h : Fair N n i) :
      Slot N n (Function.update n i (n i + 1))

/-- `b` consecutive units. -/
inductive Slots (N : Nat) : Nat → Progress → Progress → Prop
  | none {n : Progress} : Slots N 0 n n
  | more {b : Nat} {n n' n'' : Progress} (h : Slots N b n n')
      (h' : Slot N n' n'') : Slots N (b + 1) n n''

theorem Slots.cons {N b : Nat} {n n' n'' : Progress} (h : Slot N n n')
    (h' : Slots N b n' n'') : Slots N (b + 1) n n'' := by
  induction h' with
  | none => exact .more .none h
  | more _ hlast ih => exact .more (ih h) hlast

/-- With nothing pending the budget is not used. -/
theorem Slots.idle {N : Nat} {n : Progress} (h : ∀ i, i < N → ¬ Pending n i) (b : Nat) :
    Slots N b n n := by
  induction b with
  | zero => exact .none
  | succ b ih => exact .more ih (.idle h)

/-- The releases at instant `s`: a task whose instant it is may start anew. -/
def Release (N s : Nat) (n n' : Progress) : Prop :=
  ∀ i, i < N → n' i = n i ∨ (2 ^ (i + 1) ∣ s ∧ n' i = 0)

/-- What happens at instant `s`: releases, then the budget. -/
def Call (N B s : Nat) (n n' : Progress) : Prop :=
  ∃ m, Release N s n m ∧ Slots N B m n'

/-! ## The account of one window

    `w i` is the work done on task `i` since the job of task `j` was released
    at `s₀`.  Lower tasks may have gone through several jobs meanwhile, higher
    tasks only work on the first `2 ^ j` units of one. -/

/-- While the job of `j` is pending, the `t` units spent since its release at
    `s₀` are accounted for by `w`. -/
def OnTrack (N j s₀ s t : Nat) (n : Progress) : Prop :=
  Pending n j → ∃ w : Nat → Nat,
    t = ∑ i ∈ Finset.range N, w i
      ∧ (∀ i, i < j → w i ≤ 2 ^ i * ((s - s₀) / 2 ^ (i + 1)) + n i)
      ∧ w j ≤ n j
      ∧ ∀ i, j < i → w i ≤ n i ∧ w i ≤ 2 ^ j

/-- No job is worked on beyond its end. -/
def Bounded (N : Nat) (n : Progress) : Prop := ∀ i, i < N → n i ≤ 2 ^ i

theorem Slot.bounded {N : Nat} {n n' : Progress} (h : Slot N n n')
    (hb : Bounded N n) : Bounded N n' := by
  cases h with
  | idle _ => exact hb
  | @serve i hf =>
      intro k hk
      by_cases hki : k = i
      · subst hki
        rw [Function.update_self]
        exact hf.2.1
      · rw [Function.update_of_ne hki]
        exact hb k hk

theorem Release.bounded {N s : Nat} {n n' : Progress} (h : Release N s n n')
    (hb : Bounded N n) : Bounded N n' := by
  intro i hi
  rcases h i hi with heq | ⟨-, heq⟩
  · rw [heq]; exact hb i hi
  · rw [heq]; exact Nat.zero_le _

/-- A complete job stays complete within a call. -/
theorem Slot.pending_of {N : Nat} {n n' : Progress} (h : Slot N n n') {j : Nat}
    (hj : Pending n' j) : Pending n j := by
  cases h with
  | idle _ => exact hj
  | @serve i hf =>
      by_cases hji : j = i
      · subst hji; exact hf.2.1
      · unfold Pending at hj ⊢
        rwa [Function.update_of_ne hji] at hj

theorem sum_update_succ (w : Nat → Nat) {i : Nat} {S : Finset Nat} (hi : i ∈ S) :
    ∑ k ∈ S, Function.update w i (w i + 1) k = ∑ k ∈ S, w k + 1 := by
  rw [Finset.sum_update_of_mem hi, Finset.sdiff_singleton_eq_erase,
    ← Finset.add_sum_erase S w hi]
  omega

/-- One unit of work is entered on the account of the task it served. -/
theorem OnTrack.slot {N j s₀ s t : Nat} {n n' : Progress} (hjN : j < N)
    (h : OnTrack N j s₀ s t n) (hs : Slot N n n') :
    OnTrack N j s₀ s (t + 1) n' := by
  intro hpend'
  have hpend := hs.pending_of hpend'
  obtain ⟨w, hsum, hlow, hself, hhigh⟩ := h hpend
  cases hs with
  | idle hidle => exact absurd hpend (hidle j hjN)
  | @serve i hf =>
      obtain ⟨hiN, -, hfair⟩ := hf
      refine ⟨Function.update w i (w i + 1), ?_, ?_, ?_, ?_⟩
      · rw [sum_update_succ w (Finset.mem_range.mpr hiN), hsum]
      · intro k hk
        have hw := hlow k hk
        by_cases hki : k = i
        · subst hki
          rw [Function.update_self, Function.update_self]
          omega
        · rw [Function.update_of_ne hki, Function.update_of_ne hki]
          exact hw
      · by_cases hji : j = i
        · subst hji
          rw [Function.update_self, Function.update_self]
          omega
        · rw [Function.update_of_ne hji, Function.update_of_ne hji]
          exact hself
      · intro k hk
        obtain ⟨hw, hw'⟩ := hhigh k hk
        by_cases hki : k = i
        · subst hki
          have hlt := hfair j hk hpend
          rw [Function.update_self, Function.update_self]
          omega
        · rw [Function.update_of_ne hki, Function.update_of_ne hki]
          exact ⟨hw, hw'⟩

theorem OnTrack.slots {N j s₀ s t b : Nat} {n n' : Progress} (hjN : j < N)
    (h : OnTrack N j s₀ s t n) (hs : Slots N b n n') :
    OnTrack N j s₀ s (t + b) n' := by
  induction hs with
  | none => exact h
  | more _ hslot ih => exact (ih h).slot hjN hslot

theorem Slots.bounded {N b : Nat} {n n' : Progress} (h : Slots N b n n')
    (hb : Bounded N n) : Bounded N n' := by
  induction h with
  | none => exact hb
  | more _ hslot ih => exact hslot.bounded (ih hb)

/-- Inside its window the job of `j` is not touched by a release, and the
    releases of lower tasks are what the account allows for. -/
theorem OnTrack.release {N j s₀ s t : Nat} {n n' : Progress} (hjN : j < N)
    (hb : Bounded N n) (h : OnTrack N j s₀ s t n) (hs₀ : s₀ ≤ s)
    (hdvd : 2 ^ (j + 1) ∣ s₀) (hin : ¬ 2 ^ (j + 1) ∣ s + 1)
    (hN : ∀ i, N ≤ i → n' i = n i) (hr : Release N (s + 1) n n') :
    OnTrack N j s₀ (s + 1) t n' := by
  have hsame : ∀ i, j ≤ i → n' i = n i := by
    intro i hi
    by_cases hiN : i < N
    · rcases hr i hiN with heq | ⟨hd, -⟩
      · exact heq
      · exact absurd ((Nat.pow_dvd_pow 2 (by omega)).trans hd) hin
    · exact hN i (by omega)
  intro hpend'
  have hpend : Pending n j := by
    unfold Pending at hpend' ⊢
    rwa [hsame j le_rfl] at hpend'
  obtain ⟨w, hsum, hlow, hself, hhigh⟩ := h hpend
  refine ⟨w, hsum, ?_, ?_, ?_⟩
  · intro i hi
    have hw := hlow i hi
    have hstep : s + 1 - s₀ = (s - s₀) + 1 := by omega
    rcases hr i (by omega) with heq | ⟨hd, heq⟩
    · rw [heq]
      have hmono : (s - s₀) / 2 ^ (i + 1) ≤ (s + 1 - s₀) / 2 ^ (i + 1) :=
        Nat.div_le_div_right (by omega)
      have := Nat.mul_le_mul_left (2 ^ i) hmono
      omega
    · have hd₀ : 2 ^ (i + 1) ∣ s₀ := (Nat.pow_dvd_pow 2 (by omega)).trans hdvd
      have hd' : 2 ^ (i + 1) ∣ (s - s₀) + 1 := by
        rw [← hstep]; exact Nat.dvd_sub hd hd₀
      have hbi := hb i (by omega)
      rw [heq, hstep, Nat.succ_div_of_dvd hd', Nat.mul_add]
      omega
  · rw [hsame j le_rfl]; exact hself
  · intro i hi
    rw [hsame i (by omega)]; exact hhigh i hi

/-- A job that is just released is on track with nothing spent. -/
theorem OnTrack.fresh (N j s : Nat) (n : Progress) : OnTrack N j s s 0 n := by
  intro _
  refine ⟨fun _ => 0, by simp, ?_, ?_, ?_⟩
  · intro i _; exact Nat.zero_le _
  · exact Nat.zero_le _
  · intro i _; exact ⟨Nat.zero_le _, Nat.zero_le _⟩

/-- At the end of the window the account does not cover the budget any more:
    the job must be complete. -/
theorem OnTrack.complete {N B j s₀ s : Nat} {n : Progress} (hjN : j < N)
    (hNB : N ≤ 2 * B) (hb : Bounded N n) (hs : s + 1 = s₀ + 2 ^ (j + 1))
    (h : OnTrack N j s₀ s (B * 2 ^ (j + 1)) n) : ¬ Pending n j := by
  intro hpend
  obtain ⟨w, hsum, hlow, hself, hhigh⟩ := h hpend
  have hw : ∀ i ∈ Finset.range N, w i ≤ 2 ^ j := by
    intro i hi
    have hiN := Finset.mem_range.mp hi
    rcases Nat.lt_trichotomy i j with hlt | heq | hgt
    · obtain ⟨d, rfl⟩ := Nat.exists_eq_add_of_lt hlt
      have hk : (s - s₀) / 2 ^ (i + 1) + 1 ≤ 2 ^ (d + 1) := by
        have hlt' : s - s₀ < 2 ^ (d + 1) * 2 ^ (i + 1) := by
          have hp : 2 ^ (i + d + 1 + 1) = 2 ^ (d + 1) * 2 ^ (i + 1) := by
            rw [← pow_add]; congr 1; omega
          have hpos := Nat.two_pow_pos (i + d + 1 + 1)
          omega
        exact Nat.div_lt_of_lt_mul (by rw [Nat.mul_comm]; exact hlt')
      have hk' := Nat.mul_le_mul_left (2 ^ i) hk
      have hbi := hb i hiN
      have hwi := hlow i hlt
      have hp : 2 ^ i * 2 ^ (d + 1) = 2 ^ (i + d + 1) := by
        rw [← pow_add]; congr 1
      rw [Nat.mul_add, hp] at hk'
      omega
    · subst heq
      exact hself.trans (Nat.le_of_lt hpend)
    · exact (hhigh i hgt).2
  have hstrict : ∑ i ∈ Finset.range N, w i < ∑ _i ∈ Finset.range N, 2 ^ j :=
    Finset.sum_lt_sum hw
      ⟨j, Finset.mem_range.mpr hjN, Nat.lt_of_le_of_lt hself hpend⟩
  rw [← hsum, Finset.sum_const_nat (fun _ _ => rfl), Finset.card_range] at hstrict
  have hsupply : N * 2 ^ j ≤ B * 2 ^ (j + 1) := by
    calc N * 2 ^ j ≤ 2 * B * 2 ^ j := Nat.mul_le_mul_right _ hNB
      _ = B * 2 ^ (j + 1) := by rw [pow_succ]; ring
  omega

/-! ## Whole runs -/

/-- The release instant of the window that instant `s` belongs to. -/
def windowStart (j s : Nat) : Nat := s / 2 ^ (j + 1) * 2 ^ (j + 1)

/-- **THE SCHEDULE INVARIANT** after the call at instant `s`. -/
structure Sched (N B s : Nat) (n : Progress) : Prop where
  bounded : Bounded N n
  onTrack : ∀ j, j < N →
    OnTrack N j (windowStart j s) s (B * (s + 1 - windowStart j s)) n

/-- Nothing is pending at the start. -/
theorem sched_init {N B s : Nat} {n : Progress} (h : ∀ i, i < N → n i = 2 ^ i) :
    Sched N B s n where
  bounded := fun i hi => le_of_eq (h i hi)
  onTrack := by
    intro j hj hpend
    unfold Pending at hpend
    rw [h j hj] at hpend
    exact absurd hpend (lt_irrefl _)

theorem windowStart_le (j s : Nat) : windowStart j s ≤ s := Nat.div_mul_le_self _ _

theorem windowStart_dvd (j s : Nat) : 2 ^ (j + 1) ∣ windowStart j s :=
  Nat.dvd_mul_left _ _

theorem windowStart_of_dvd {j s : Nat} (h : 2 ^ (j + 1) ∣ s) :
    windowStart j s = s := Nat.div_mul_cancel h

theorem windowStart_succ {j s : Nat} (h : ¬ 2 ^ (j + 1) ∣ s + 1) :
    windowStart j (s + 1) = windowStart j s := by
  unfold windowStart
  rw [Nat.succ_div_of_not_dvd h]

/-- The instant before the next release ends the window. -/
theorem windowStart_last {j s : Nat} (h : 2 ^ (j + 1) ∣ s + 1) :
    s + 1 = windowStart j s + 2 ^ (j + 1) := by
  have h1 : (s + 1) / 2 ^ (j + 1) * 2 ^ (j + 1) = s + 1 := Nat.div_mul_cancel h
  rw [Nat.succ_div_of_dvd h, Nat.add_mul, Nat.one_mul] at h1
  exact h1.symm

/-- **EVERY JOB MEETS ITS DEADLINE**: just before an instant of task `j`, its
    job is complete. -/
theorem sched_deadline {N B s j : Nat} {n : Progress} (hNB : N ≤ 2 * B)
    (h : Sched N B s n) (hjN : j < N) (hdvd : 2 ^ (j + 1) ∣ s + 1) :
    n j = 2 ^ j := by
  have hlast := windowStart_last hdvd
  have htrack := h.onTrack j hjN
  have hlen : s + 1 - windowStart j s = 2 ^ (j + 1) := by omega
  rw [hlen] at htrack
  have hdone := htrack.complete hjN hNB h.bounded hlast
  have hle := h.bounded j hjN
  unfold Pending at hdone
  omega

/-- The invariant is kept by the releases of the next instant (with nothing of
    its budget spent yet). -/
theorem sched_release {N B s : Nat} {n m : Progress}
    (h : Sched N B s n) (hN : ∀ i, N ≤ i → m i = n i)
    (hr : Release N (s + 1) n m) :
    Bounded N m ∧ ∀ j, j < N →
      OnTrack N j (windowStart j (s + 1)) (s + 1)
        (B * (s + 1 - windowStart j (s + 1))) m := by
  refine ⟨hr.bounded h.bounded, ?_⟩
  intro j hjN
  by_cases hdvd : 2 ^ (j + 1) ∣ s + 1
  · rw [windowStart_of_dvd hdvd, Nat.sub_self, Nat.mul_zero]
    exact OnTrack.fresh N j (s + 1) m
  · rw [windowStart_succ hdvd]
    exact (h.onTrack j hjN).release hjN h.bounded (windowStart_le j s)
      (windowStart_dvd j s) hdvd hN hr

/-- **STEP**: one call keeps the schedule invariant. -/
theorem sched_call {N B s : Nat} {n m n' : Progress}
    (h : Sched N B s n) (hN : ∀ i, N ≤ i → m i = n i)
    (hr : Release N (s + 1) n m) (hs : Slots N B m n') :
    Sched N B (s + 1) n' := by
  obtain ⟨hbm, htrack⟩ := sched_release h hN hr
  refine ⟨hs.bounded hbm, ?_⟩
  intro j hjN
  have hle := windowStart_le j (s + 1)
  have hlen : B * (s + 1 + 1 - windowStart j (s + 1))
      = B * (s + 1 - windowStart j (s + 1)) + B := by
    have : s + 1 + 1 - windowStart j (s + 1)
        = (s + 1 - windowStart j (s + 1)) + 1 := by omega
    rw [this, Nat.mul_add, Nat.mul_one]
  rw [hlen]
  exact (htrack j hjN).slots hjN hs

/-- Serving the least `Nat.log2` first, ties to the lowest task, is fair. -/
theorem fair_of_log2_least {N i : Nat} {n : Progress} (hiN : i < N)
    (hi : Pending n i)
    (hleast : ∀ k, k < i → Pending n k → Nat.log2 (n i) < Nat.log2 (n k)) :
    Fair N n i := by
  refine ⟨hiN, hi, ?_⟩
  intro k hk hpend
  have hlog := hleast k hk hpend
  by_cases hzero : n i = 0
  · rw [hzero]; exact Nat.two_pow_pos k
  · have hk0 : n k ≠ 0 := by
      intro h0
      rw [h0] at hlog
      simp at hlog
    have hlt : Nat.log2 (n k) < k := (Nat.log2_lt hk0).mpr hpend
    exact (Nat.log2_lt hzero).mp (hlog.trans hlt)

end PqDtls.Deadline
