import Mathlib.Tactic.Common

/-! # Iterated block functions

    A function of a state and a block, run over an input that comes in pieces: whole
    blocks are absorbed when they are there, the rest waits.  `Streamed` is what such a
    state is after an input, however the input was cut, and `Streamed.closed` that an
    input with its padding behind it is absorbed as if it had been there at once. -/

namespace PqDtls

namespace BlockHash

variable {α S : Type} {n : Nat}

/-! ## Blocks -/

/-- The whole blocks of `n` elements in `l`. -/
def blocks (n : Nat) (l : List α) : List (List α) :=
  (List.range (l.length / n)).map fun i => (l.drop (n * i)).take n

theorem blocks_short {l : List α} (h : l.length < n) : blocks n l = [] := by
  rw [blocks, Nat.div_eq_of_lt h]
  rfl

theorem blocks_cons {b l : List α} (hn : 0 < n) (hb : b.length = n) :
    blocks n (b ++ l) = b :: blocks n l := by
  have count : (b ++ l).length / n = l.length / n + 1 := by
    rw [List.length_append, hb, Nat.add_comm, Nat.add_div_right _ hn]
  have later (i : Nat) : (b ++ l).drop (n * (i + 1)) = l.drop (n * i) := by
    have ahead : n * (i + 1) = b.length + n * i := by
      rw [hb, Nat.mul_succ, Nat.add_comm]
    rw [ahead, List.drop_length_add_append]
  rw [blocks, count, List.range_succ_eq_map, List.map_cons, List.map_map]
  refine congr (congrArg List.cons ?_) (List.map_congr_left fun i _ => ?_)
  · rw [Nat.mul_zero, List.drop_zero, ← hb, List.take_left]
  · exact congrArg (List.take n) (later i)

theorem blocks_single {b : List α} (hn : 0 < n) (hb : b.length = n) : blocks n b = [b] := by
  have whole := blocks_cons (l := []) hn hb
  rwa [List.append_nil, blocks_short (l := []) hn] at whole

theorem blocks_flatten {bs : List (List α)} {l : List α} (hn : 0 < n)
    (hbs : ∀ b ∈ bs, b.length = n) : blocks n (bs.flatten ++ l) = bs ++ blocks n l := by
  induction bs with
  | nil => rfl
  | cons b bs ih =>
      obtain ⟨hb, hbs⟩ := List.forall_mem_cons.mp hbs
      rw [List.flatten_cons, List.append_assoc, blocks_cons hn hb, ih hbs, List.cons_append]

/-! ## Streaming -/

variable {f : S → List α → S} {iv s : S} {msg rest : List α}

/-- What is absorbed of `msg` has led from `iv` to `s`, and `rest` waits for more. -/
structure Streamed (f : S → List α → S) (n : Nat) (iv : S) (msg : List α) (s : S)
    (rest : List α) : Prop where
  waiting : rest.length < n
  absorbed : ∃ bs : List (List α), (∀ b ∈ bs, b.length = n) ∧ msg = bs.flatten ++ rest ∧
    s = bs.foldl f iv

theorem streamed_nil (hn : 0 < n) : Streamed f n iv [] iv [] :=
  ⟨hn, [], List.forall_mem_nil _, rfl, rfl⟩

/-- As much waits as is over. -/
theorem Streamed.length (h : Streamed f n iv msg s rest) : rest.length = msg.length % n := by
  obtain ⟨waiting, bs, hbs, rfl, -⟩ := h
  have whole : n ∣ bs.flatten.length := by
    rw [List.length_flatten, List.map_congr_left hbs, List.map_const', List.sum_replicate_nat]
    exact Nat.dvd_mul_left n bs.length
  rw [List.length_append, Nat.add_mod, Nat.mod_eq_zero_of_dvd whole, Nat.zero_add, Nat.mod_mod,
    Nat.mod_eq_of_lt waiting]

/-- A piece that does not fill the block waits too. -/
theorem Streamed.wait (h : Streamed f n iv msg s rest) {d : List α}
    (hd : (rest ++ d).length < n) : Streamed f n iv (msg ++ d) s (rest ++ d) := by
  obtain ⟨-, bs, hbs, rfl, hs⟩ := h
  exact ⟨hd, bs, hbs, List.append_assoc .., hs⟩

/-- A piece that fills it is absorbed with what waited. -/
theorem Streamed.fill (h : Streamed f n iv msg s rest) {d : List α} (hn : 0 < n)
    (hd : (rest ++ d).length = n) : Streamed f n iv (msg ++ d) (f s (rest ++ d)) [] := by
  obtain ⟨-, bs, hbs, rfl, rfl⟩ := h
  refine ⟨hn, bs ++ [rest ++ d], ?_, ?_, ?_⟩
  · exact List.forall_mem_append.mpr ⟨hbs, List.forall_mem_singleton.mpr hd⟩
  · rw [List.flatten_append, List.flatten_singleton, List.append_nil, List.append_assoc]
  · rw [List.foldl_append, List.foldl_cons, List.foldl_nil]

/-- **CLOSING**: an input with a padding behind it, in terms of what waits. -/
theorem Streamed.closed (h : Streamed f n iv msg s rest) (hn : 0 < n) (pad : List α) :
    (blocks n (msg ++ pad)).foldl f iv = (blocks n (rest ++ pad)).foldl f s := by
  obtain ⟨-, bs, hbs, rfl, rfl⟩ := h
  rw [List.append_assoc, blocks_flatten hn hbs, List.foldl_append]

end BlockHash

end PqDtls
