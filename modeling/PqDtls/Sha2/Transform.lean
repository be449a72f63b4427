import PqDtls.Sha2.Context
import Mathlib.Tactic.IntervalCases

/-! # The transform is the compression function

    Reversed words are big endian ones, the tables are the constants of the standard, and
    the 16 words of `W256` are the last 16 of the schedule after every round. -/

namespace PqDtls.Sha2

open Dtls (Bytes Digest)
open Sha256 (Word Words wordOf wordAt schedule)

/-! ## Byte order -/

theorem getLsbD_wordOf (b₀ b₁ b₂ b₃ : UInt8) (i : Nat) : (wordOf b₀ b₁ b₂ b₃).getLsbD i
    = if i < 8 then b₃.toBitVec.getLsbD i
      else if i - 8 < 8 then b₂.toBitVec.getLsbD (i - 8)
      else if i - 8 - 8 < 8 then b₁.toBitVec.getLsbD (i - 8 - 8)
      else b₀.toBitVec.getLsbD (i - 8 - 8 - 8) := by
  show (b₀.toBitVec ++ b₁.toBitVec ++ b₂.toBitVec ++ b₃.toBitVec).getLsbD i = _
  rw [BitVec.getLsbD_append, BitVec.getLsbD_append, BitVec.getLsbD_append]

theorem reverse32_wordOf (b₀ b₁ b₂ b₃ : UInt8) :
    reverse32 (wordOf b₃ b₂ b₁ b₀) = wordOf b₀ b₁ b₂ b₃ := by
  unfold reverse32
  apply BitVec.eq_of_getLsbD_eq
  intro i hi
  interval_cases i <;> simp [getLsbD_wordOf, -BitVec.getLsbD_eq_getElem]

theorem reverse32_load (data : Bytes) (j : Nat) : reverse32 (load data j) = wordAt data j :=
  reverse32_wordOf _ _ _ _

theorem storedByte_reverse32 (w : Word) {i : Nat} (hi : i < 4) :
    storedByte (reverse32 w) i = Sha256.byteAt w i := by
  unfold storedByte Sha256.byteAt reverse32
  refine congrArg UInt8.ofBitVec (BitVec.eq_of_getLsbD_eq fun k hk => ?_)
  interval_cases i <;> interval_cases k <;> simp

theorem store_reverse32 (w : Word) : store (reverse32 w) = Sha256.wordBytes w := by
  unfold store Sha256.wordBytes
  rw [storedByte_reverse32 w (by decide), storedByte_reverse32 w (by decide),
    storedByte_reverse32 w (by decide), storedByte_reverse32 w (by decide)]

theorem storedByte_reverse64 (w : BitVec 64) {i : Nat} (hi : i < 8) :
    storedByte (reverse64 w) i = ⟨w.extractLsb' (56 - 8 * i) 8⟩ := by
  unfold storedByte reverse64
  refine congrArg UInt8.ofBitVec (BitVec.eq_of_getLsbD_eq fun k hk => ?_)
  interval_cases i <;> interval_cases k <;> simp

/-! ## Constants and functions -/

theorem K256_eq {t : Nat} (ht : t < 64) : K256.getD t 0 = Sha256.roundConstant t := by
  have table : ∀ t : Fin 64, K256.getD t.val 0 = Sha256.roundConstant t.val := by decide +kernel
  exact table ⟨t, ht⟩

theorem sha256InitialHashValue_eq : sha256InitialHashValue = Sha256.initial := by decide +kernel

theorem apply_eq (x : Words) (K W : Word) : apply x K W = Sha256.round x K W := rfl

theorem sigma0_eq (x : Word) : sigma0 x = Sha256.smallSigma 7 18 3 x := rfl

theorem sigma1_eq (x : Word) : sigma1 x = Sha256.smallSigma 17 19 10 x := rfl

/-! ## The rounds -/

variable {data : Bytes} {state : Words} {W₀ : Vector Word 16}

theorem slot_injOn {j k : Nat} (h : slot j = slot k) (hj : j < k + 16) (hk : k < j + 16) :
    j = k := by
  have same : j % 16 = k % 16 := congrArg Fin.val h
  omega

theorem get_set (W : Vector Word 16) (w : Word) (j k : Nat) :
    (W.set (slot j) w (slot j).isLt).get (slot k)
      = if slot j = slot k then w else W.get (slot k) := by
  have read := W.getElem_set (x := w) (slot j).isLt (slot k).isLt
  by_cases h : slot j = slot k
  · rw [if_pos (congrArg Fin.val h)] at read
    rw [if_pos h]
    exact read
  · rw [if_neg fun hv => h (Fin.ext hv)] at read
    rw [if_neg h]
    exact read

/-- After the rounds before `n` the last 16 words of the schedule are in their slots. -/
structure Follows (data : Bytes) (state : Words) (n : Nat) (s : Working) : Prop where
  words : ∀ k, k < n → n ≤ k + 16 → s.1.get (slot k) = schedule (wordAt data) k
  registers : s.2 = Sha256.rounds (wordAt data) state n

/-- A round that puts word `n` of the schedule into its slot. -/
theorem Follows.round {n : Nat} {s : Working} (h : Follows data state n s) (hn : n < 64) {w : Word}
    (hw : w = schedule (wordAt data) n) :
    Follows data state (n + 1) (s.1.set (slot n) w (slot n).isLt, apply s.2 (K256.getD n 0) w) := by
  refine ⟨fun k hk hk' => ?_, ?_⟩
  · show (s.1.set (slot n) w (slot n).isLt).get (slot k) = _
    rw [get_set]
    by_cases hs : slot n = slot k
    · obtain rfl : n = k := slot_injOn hs (by omega) (by omega)
      rw [if_pos rfl, hw]
    · rw [if_neg hs]
      refine h.words k ?_ (by omega)
      have : n ≠ k := fun h => hs (congrArg slot h)
      omega
  · rw [Sha256.rounds_succ, apply_eq, h.registers, hw, K256_eq hn]

theorem follows_first {n : Nat} (hn : n ≤ 16) :
    Follows data state n ((List.range n).foldl (firstRound data) (W₀, state)) := by
  induction n with
  | zero => exact ⟨fun k hk => absurd hk (Nat.not_lt_zero _), rfl⟩
  | succ n ih =>
      rw [List.range_succ, List.foldl_append]
      refine (ih (by omega)).round (by omega) ?_
      rw [reverse32_load, Sha256.schedule_first _ (by omega)]

theorem Follows.later {s : Working} (h : Follows data state 16 s) {n : Nat} (hn : n ≤ 48) :
    Follows data state (16 + n) ((List.range' 16 n).foldl laterRound s) := by
  induction n with
  | zero => exact h
  | succ n ih =>
      have before := ih (by omega)
      rw [List.range'_concat, List.foldl_append, Nat.one_mul]
      refine before.round (by omega) ?_
      -- the oldest of the 16 words is in the slot that is written
      have oldest : slot (16 + n) = slot n := Fin.ext (Nat.add_mod_left 16 n)
      have next (i : Nat) (hi : i < 16) : slot (16 + n + i) = slot (n + i) :=
        Fin.ext (by show (16 + n + i) % 16 = (n + i) % 16; omega)
      rw [oldest, next 1 (by decide), next 14 (by decide), next 9 (by decide),
        before.words n (by omega) (by omega), before.words (n + 1) (by omega) (by omega),
        before.words (n + 14) (by omega) (by omega), before.words (n + 9) (by omega) (by omega),
        sigma0_eq, sigma1_eq, Nat.add_comm 16 n, Sha256.schedule_next]
      exact BitVec.add_comm _ _

theorem transformed_rounds (W₀ : Vector Word 16) (state : Words) (data : Bytes) :
    (transformed W₀ state data).2 = Sha256.rounds (wordAt data) state 64 := by
  have first : Follows data state 16 ((List.range 16).foldl (firstRound data) (W₀, state)) :=
    follows_first le_rfl
  have done := first.later (n := 48) le_rfl
  exact done.registers

theorem words_add_comm (x y : Words) : x.add y = y.add x := by
  ext1 <;> exact BitVec.add_comm _ _

/-- **THE TRANSFORM** is the compression function of the standard. -/
theorem dtlsSha256Transform_state (ctx : Sha256Ctx) (data : Bytes) :
    (dtlsSha256Transform ctx data).state = Sha256.compress ctx.state data := by
  show ctx.state.add (transformed _ ctx.state data).2 = _
  rw [transformed_rounds, words_add_comm, Sha256.compress]

theorem dtlsSha256Transform_bitcount (ctx : Sha256Ctx) (data : Bytes) :
    (dtlsSha256Transform ctx data).bitcount = ctx.bitcount := by
  rw [dtlsSha256Transform]

end PqDtls.Sha2
