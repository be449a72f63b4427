import Mathlib.Data.Nat.Log
import Mathlib.Algebra.Order.Ring.Nat
import Mathlib.Tactic.Ring

/-! # Addressed binary hash trees and the treehash stack

    A complete binary tree whose inner hash sees the ADDRESS of the node it
    computes (its height and its index on that height), over an arbitrary
    type of nodes.  Two programs on such trees are described here without
    reference to any particular scheme:

    * `climb` — recomputing the root from a leaf and a list of siblings;
    * `treehashPush` — adding one leaf to the stack of finished subtrees,
      merging as long as the top of the stack is the left sibling.

    A third one, `halve`, computes a layer from the layer below it in the same
    array.

    The stack invariant `Covers lo hi st` says that the stack is a tiling of
    the leaves `[lo, hi)` by true nodes with EVEN indices (left siblings that
    still wait for their right sibling).  Everything else follows from it:
    heights strictly grow towards the bottom, and the bottom node of a stack
    over `n` leaves has height `Nat.log2 n`. -/

namespace PqDtls.MerkleTree

variable {N : Type}

/-- The true node of height `h` and index `i`. -/
def node (leaf : Nat → N) (parent : Nat → Nat → N → N → N) : Nat → Nat → N
  | 0, i => leaf i
  | h + 1, i =>
      parent (h + 1) i (node leaf parent h (2 * i)) (node leaf parent h (2 * i + 1))

variable (leaf : Nat → N) (parent : Nat → Nat → N → N → N)

@[simp] theorem node_zero (i : Nat) : node leaf parent 0 i = leaf i := rfl

theorem node_succ (h i : Nat) :
    node leaf parent (h + 1) i
      = parent (h + 1) i (node leaf parent h (2 * i))
          (node leaf parent h (2 * i + 1)) := rfl

/-- The inner hash of an even node and its right neighbour is their parent. -/
theorem parent_of_even {h i : Nat} (hi : i % 2 = 0) :
    parent (h + 1) (i / 2) (node leaf parent h i) (node leaf parent h (i + 1))
      = node leaf parent (h + 1) (i / 2) := by
  have h2 : 2 * (i / 2) = i := by omega
  rw [node_succ, h2]

/-- The inner hash of the left neighbour of an odd node and that node is their
    parent. -/
theorem parent_of_odd {h i : Nat} (hi : i % 2 = 1) :
    parent (h + 1) (i / 2) (node leaf parent h (i - 1)) (node leaf parent h i)
      = node leaf parent (h + 1) (i / 2) := by
  have h2 : 2 * (i / 2) = i - 1 := by omega
  have h3 : i - 1 + 1 = i := by omega
  rw [node_succ, h2, h3]

/-! ## Climbing to the root -/

/-- One level of the climb: combine the node of index `i` with its sibling. -/
def climbStep (h : Nat) (sibling : N) (p : N × Nat) : N × Nat :=
  (if p.2 % 2 = 0 then parent (h + 1) (p.2 / 2) p.1 sibling
    else parent (h + 1) (p.2 / 2) sibling p.1, p.2 / 2)

/-- Recompute a node of height `n` from a leaf and its siblings `path`. -/
def climb (path : Nat → N) : Nat → N × Nat → N × Nat
  | 0, p => p
  | n + 1, p => climbStep parent n (path n) (climb path n p)

/-- The index of the sibling: the last bit flipped. -/
def sibling (i : Nat) : Nat := if i % 2 = 0 then i + 1 else i - 1

theorem sibling_eq_xor (i : Nat) : sibling i = i ^^^ 1 := by
  unfold sibling
  apply Nat.eq_of_testBit_eq
  intro k
  rw [Nat.testBit_xor]
  cases k with
  | zero =>
      rw [Nat.testBit_zero, Nat.testBit_zero]
      by_cases hi : i % 2 = 0
      · have h1 : (i + 1) % 2 = 1 := by omega
        simp [hi, h1]
      · have h1 : i % 2 = 1 := by omega
        have h2 : (i - 1) % 2 = 0 := by omega
        simp [h1, h2]
  | succ k =>
      have h1 : (1 : Nat).testBit (k + 1) = false := by
        rw [Nat.testBit_succ]; simp
      rw [h1, Bool.xor_false, Nat.testBit_succ, Nat.testBit_succ]
      congr 1
      split <;> omega

/-- One climbing step along the true sibling keeps the node true. -/
theorem climbStep_node (h i : Nat) :
    climbStep parent h (node leaf parent h (sibling i)) (node leaf parent h i, i)
      = (node leaf parent (h + 1) (i / 2), i / 2) := by
  unfold climbStep sibling
  by_cases hi : i % 2 = 0
  · simp only [hi, if_true]
    rw [parent_of_even leaf parent hi]
  · have hi1 : i % 2 = 1 := by omega
    simp only [hi, if_false]
    rw [parent_of_odd leaf parent hi1]

/-- **COMPLETENESS OF THE CLIMB**: along the true siblings of leaf `i` the
    climb of `n` levels arrives at the true node of height `n`. -/
theorem climb_node {path : Nat → N} {i n : Nat}
    (hpath : ∀ h, h < n → path h = node leaf parent h (sibling (i / 2 ^ h))) :
    climb parent path n (leaf i, i)
      = (node leaf parent n (i / 2 ^ n), i / 2 ^ n) := by
  induction n with
  | zero => simp [climb]
  | succ n ih =>
      have hprev := ih (fun h hh => hpath h (by omega))
      have hdiv : i / 2 ^ (n + 1) = i / 2 ^ n / 2 := by
        rw [pow_succ, Nat.div_div_eq_div_mul]
      rw [climb, hprev, hpath n (by omega), hdiv]
      exact climbStep_node leaf parent n (i / 2 ^ n)

/-! ## The treehash stack -/

/-- A subtree that has been computed: its root and that root's address. -/
structure Entry (N : Type) where
  key : N
  height : Nat
  indx : Nat

/-- Add a finished subtree: as long as the top of the stack has the same
    height, replace both by their parent. -/
def treehashPush : List (Entry N) → Entry N → List (Entry N)
  | [], e => [e]
  | t :: st, e =>
      if t.height = e.height then
        treehashPush st ⟨parent (e.height + 1) (e.indx / 2) t.key e.key,
          e.height + 1, e.indx / 2⟩
      else e :: t :: st

/-- An entry holds the true node of its address. -/
def Entry.True (e : Entry N) : Prop := e.key = node leaf parent e.height e.indx

/-- The stack (top first) tiles the leaves `[lo, hi)` by true left siblings. -/
def Covers (lo : Nat) : Nat → List (Entry N) → Prop
  | hi, [] => hi = lo
  | hi, e :: st =>
      e.True leaf parent ∧ e.indx % 2 = 0 ∧ hi = (e.indx + 1) * 2 ^ e.height
        ∧ Covers lo (e.indx * 2 ^ e.height) st

variable {leaf parent}

theorem Covers.le {lo hi : Nat} {st : List (Entry N)}
    (h : Covers leaf parent lo hi st) : lo ≤ hi := by
  induction st generalizing hi with
  | nil => exact le_of_eq h.symm
  | cons e st ih =>
      obtain ⟨-, -, hhi, hst⟩ := h
      have h1 := ih hst
      rw [hhi, Nat.add_mul]
      omega

/-- A stack that covers nothing is empty. -/
theorem Covers.nil_of_eq {lo : Nat} {st : List (Entry N)}
    (h : Covers leaf parent lo lo st) : st = [] := by
  cases st with
  | nil => rfl
  | cons e st =>
      obtain ⟨-, -, hhi, hst⟩ := h
      have hle := hst.le
      have hpos := Nat.two_pow_pos e.height
      rw [Nat.add_mul] at hhi
      omega

/-- Two odd multiples of powers of two are equal only for the same power. -/
theorem height_eq_of_odd_mul {a b h k : Nat} (ha : a % 2 = 1) (hb : b % 2 = 1)
    (heq : a * 2 ^ h = b * 2 ^ k) : h = k := by
  rcases Nat.lt_trichotomy h k with hlt | heq' | hgt
  · obtain ⟨d, rfl⟩ := Nat.exists_eq_add_of_lt hlt
    have h1 : a = b * 2 ^ d * 2 := by
      have : a * 2 ^ h = b * 2 ^ d * 2 * 2 ^ h := by rw [heq]; ring
      exact Nat.eq_of_mul_eq_mul_right (Nat.two_pow_pos h) this
    omega
  · exact heq'
  · obtain ⟨d, rfl⟩ := Nat.exists_eq_add_of_lt hgt
    have h1 : b = a * 2 ^ d * 2 := by
      have : b * 2 ^ k = a * 2 ^ d * 2 * 2 ^ k := by rw [← heq]; ring
      exact Nat.eq_of_mul_eq_mul_right (Nat.two_pow_pos k) this
    omega

/-- Pushing an ODD node: the top of the stack is its left sibling. -/
theorem Covers.top_of_odd {lo : Nat} {t : Entry N} {st : List (Entry N)}
    {h i : Nat} (hi : i % 2 = 1)
    (hc : Covers leaf parent lo (i * 2 ^ h) (t :: st)) :
    t.height = h ∧ t.indx = i - 1 := by
  obtain ⟨-, hev, hhi, -⟩ := hc
  have hodd : (t.indx + 1) % 2 = 1 := by omega
  have hh : h = t.height := height_eq_of_odd_mul hi hodd hhi
  subst hh
  have := Nat.eq_of_mul_eq_mul_right (Nat.two_pow_pos t.height) hhi
  exact ⟨rfl, by omega⟩

/-- Pushing an EVEN node: the top of the stack has another height. -/
theorem Covers.top_of_even {lo : Nat} {t : Entry N} {st : List (Entry N)}
    {h i : Nat} (hi : i % 2 = 0)
    (hc : Covers leaf parent lo (i * 2 ^ h) (t :: st)) : t.height ≠ h := by
  obtain ⟨-, hev, hhi, -⟩ := hc
  intro hh
  subst hh
  have := Nat.eq_of_mul_eq_mul_right (Nat.two_pow_pos t.height) hhi
  omega

/-- **MERGING** a true node with a top of its own height: the parent is true, ends where the node
    ended and leaves the rest of the stack. -/
theorem Covers.merged {lo : Nat} {t e : Entry N} {st : List (Entry N)}
    (hst : Covers leaf parent lo (e.indx * 2 ^ e.height) (t :: st))
    (he : e.True leaf parent) (hh : t.height = e.height) :
    Entry.True leaf parent
        ⟨parent (e.height + 1) (e.indx / 2) t.key e.key, e.height + 1, e.indx / 2⟩
      ∧ (e.indx / 2 + 1) * 2 ^ (e.height + 1) = (e.indx + 1) * 2 ^ e.height
      ∧ Covers leaf parent lo (e.indx / 2 * 2 ^ (e.height + 1)) st := by
  have hodd : e.indx % 2 = 1 := by
    by_contra heven
    exact hst.top_of_even (by omega) hh
  obtain ⟨-, hti⟩ := hst.top_of_odd hodd
  obtain ⟨htrue, -, -, hrest⟩ := hst
  have htk : t.key = node leaf parent e.height (e.indx - 1) := by
    rw [← hh, ← hti]; exact htrue
  have hek : e.key = node leaf parent e.height e.indx := he
  refine ⟨?_, ?_, ?_⟩
  · show parent (e.height + 1) (e.indx / 2) t.key e.key = _
    rw [htk, hek]
    exact parent_of_odd leaf parent hodd
  · have h2 : (e.indx / 2 + 1) * 2 = e.indx + 1 := by omega
    rw [pow_succ, ← h2]; ring
  · have h2 : e.indx / 2 * 2 = e.indx - 1 := by omega
    rw [pow_succ, Nat.mul_comm (2 ^ e.height) 2, ← Nat.mul_assoc, h2, ← hti, ← hh]
    exact hrest

/-- Heights strictly grow from the top of the stack to the bottom. -/
theorem Covers.height_lt {lo hi : Nat} {e t : Entry N} {st : List (Entry N)}
    (hc : Covers leaf parent lo hi (e :: t :: st)) : e.height < t.height := by
  obtain ⟨-, hev, -, -, htev, hthi, -⟩ := hc
  by_contra hle
  have hle' : t.height ≤ e.height := by omega
  obtain ⟨d, hd⟩ := Nat.exists_eq_add_of_le hle'
  rw [hd, pow_add] at hthi
  have h1 : e.indx * 2 ^ d = t.indx + 1 := by
    have : e.indx * 2 ^ d * 2 ^ t.height = (t.indx + 1) * 2 ^ t.height := by
      rw [← hthi]; ring
    exact Nat.eq_of_mul_eq_mul_right (Nat.two_pow_pos t.height) this
  have h2 : (e.indx * 2 ^ d) % 2 = 0 := by
    rw [Nat.mul_mod, hev]; simp
  omega

/-- The bottom entry's subtree fills at least half of what is covered: with
    `b` the bottom entry, `2 ^ b.height ≤ hi - lo < 2 ^ (b.height + 1)`.  The
    induction carries the gap of `2 ^ e.height` that the top leaves. -/
theorem Covers.bottom_bounds {lo hi : Nat} {e : Entry N} {st : List (Entry N)}
    (hc : Covers leaf parent lo hi (e :: st)) :
    2 ^ ((e :: st).getLast (List.cons_ne_nil e st)).height ≤ hi - lo
      ∧ hi - lo + 2 ^ e.height
          ≤ 2 ^ (((e :: st).getLast (List.cons_ne_nil e st)).height + 1) := by
  induction st generalizing hi e with
  | nil =>
      obtain ⟨-, -, hhi, hlo⟩ := hc
      have hlo' : e.indx * 2 ^ e.height = lo := hlo
      have hgap : hi - lo = 2 ^ e.height := by rw [hhi, Nat.add_mul]; omega
      rw [List.getLast_singleton, hgap, pow_succ]
      omega
  | cons t st ih =>
      have hlt := hc.height_lt
      obtain ⟨-, -, hhi, hst⟩ := hc
      obtain ⟨hlow, hup⟩ := ih hst
      have hle := hst.le
      have hgap : hi - lo = e.indx * 2 ^ e.height - lo + 2 ^ e.height := by
        rw [hhi, Nat.add_mul]; omega
      have hpow : 2 ^ (e.height + 1) ≤ 2 ^ t.height :=
        Nat.pow_le_pow_right (by omega) (by omega)
      rw [pow_succ] at hpow
      rw [List.getLast_cons (List.cons_ne_nil t st)]
      omega

/-- The bottom of a stack over `n` leaves has height `Nat.log2 n`. -/
theorem Covers.bottom_height {lo hi : Nat} {e : Entry N} {st : List (Entry N)}
    (hc : Covers leaf parent lo hi (e :: st)) :
    ((e :: st).getLast (List.cons_ne_nil e st)).height = Nat.log2 (hi - lo) := by
  obtain ⟨hlow, hup⟩ := hc.bottom_bounds
  have hpos := Nat.two_pow_pos e.height
  have hpos' :=
    Nat.two_pow_pos ((e :: st).getLast (List.cons_ne_nil e st)).height
  have hne : hi - lo ≠ 0 := by omega
  symm
  rw [Nat.log2_eq_iff hne]
  exact ⟨hlow, by omega⟩

/-- Every entry below the top is higher than the one above it. -/
theorem Covers.height_add_length_le {lo hi : Nat} {e : Entry N} {st : List (Entry N)}
    (hc : Covers leaf parent lo hi (e :: st)) :
    e.height + st.length ≤ ((e :: st).getLast (List.cons_ne_nil e st)).height := by
  induction st generalizing hi e with
  | nil => exact le_rfl
  | cons t st ih =>
      have hlt := hc.height_lt
      have hrest := ih hc.2.2.2
      rw [List.getLast_cons (List.cons_ne_nil t st), List.length_cons]
      omega

/-- A stack is no longer than the height of its bottom node allows. -/
theorem Covers.length_le {lo hi : Nat} {e : Entry N} {st : List (Entry N)}
    (hc : Covers leaf parent lo hi (e :: st)) : st.length ≤ Nat.log2 (hi - lo) := by
  have hbound := hc.height_add_length_le
  rw [hc.bottom_height] at hbound
  omega

variable (parent) in
/-- Pushing replaces a prefix of the stack by one entry. -/
theorem treehashPush_eq (st : List (Entry N)) (e : Entry N) :
    ∃ e' k, treehashPush parent st e = e' :: st.drop k := by
  induction st generalizing e with
  | nil => exact ⟨e, 0, rfl⟩
  | cons t st ih =>
      rw [treehashPush]
      by_cases hh : t.height = e.height
      · rw [if_pos hh]
        obtain ⟨e', k, h⟩ := ih ⟨parent (e.height + 1) (e.indx / 2) t.key e.key,
          e.height + 1, e.indx / 2⟩
        exact ⟨e', k + 1, h⟩
      · rw [if_neg hh]
        exact ⟨e, 0, rfl⟩

/-- **THE TREEHASH STEP**: pushing the next subtree onto a stack over the
    block of leaves `[c * 2 ^ K, (c + 1) * 2 ^ K)` either extends the tiling or,
    when the block is complete, leaves exactly its root `node K c`. -/
theorem treehashPush_covers {K c : Nat} {st : List (Entry N)} {e : Entry N}
    (hst : Covers leaf parent (c * 2 ^ K) (e.indx * 2 ^ e.height) st)
    (he : e.True leaf parent)
    (hK : (e.indx + 1) * 2 ^ e.height ≤ (c + 1) * 2 ^ K) :
    ((e.indx + 1) * 2 ^ e.height < (c + 1) * 2 ^ K →
        Covers leaf parent (c * 2 ^ K) ((e.indx + 1) * 2 ^ e.height)
          (treehashPush parent st e))
      ∧ ((e.indx + 1) * 2 ^ e.height = (c + 1) * 2 ^ K →
          treehashPush parent st e = [⟨node leaf parent K c, K, c⟩]) := by
  induction st generalizing e with
  | nil =>
      have hlo : e.indx * 2 ^ e.height = c * 2 ^ K := hst
      have hh : e.height ≤ K := by
        rw [Nat.add_mul, Nat.add_mul, hlo] at hK
        have hpow : 2 ^ e.height ≤ 2 ^ K := by omega
        exact (Nat.pow_le_pow_iff_right Nat.one_lt_two).mp hpow
      obtain ⟨d, rfl⟩ := Nat.exists_eq_add_of_le hh
      have hindx : e.indx = c * 2 ^ d := by
        have : e.indx * 2 ^ e.height = c * 2 ^ d * 2 ^ e.height := by
          rw [hlo, pow_add]; ring
        exact Nat.eq_of_mul_eq_mul_right (Nat.two_pow_pos _) this
      rw [Nat.add_mul, Nat.add_mul, hlo]
      cases d with
      | zero =>
          constructor
          · intro hlt; simp at hlt
          · intro _
            obtain ⟨key, height, indx⟩ := e
            have hkey : key = node leaf parent height indx := he
            have hc : indx = c := by simpa using hindx
            subst hc
            rw [hkey]
            rfl
      | succ d =>
          constructor
          · intro _
            refine ⟨he, ?_, ?_, hlo⟩
            · rw [hindx, pow_succ, ← Nat.mul_assoc]
              exact Nat.mul_mod_left _ _
            · rw [Nat.add_mul, hlo]
          · intro heq
            have h1 : 2 ^ e.height < 2 ^ (e.height + (d + 1)) :=
              Nat.pow_lt_pow_right (by omega) (by omega)
            omega
  | cons t st ih =>
      rw [treehashPush]
      by_cases hodd : e.indx % 2 = 1
      · have hth := (hst.top_of_odd hodd).1
        obtain ⟨htrue, hspan, hrest⟩ := hst.merged he hth
        rw [if_pos hth]
        rw [← hspan] at hK ⊢
        exact ih (e := ⟨_, e.height + 1, e.indx / 2⟩) hrest htrue hK
      · have heven : e.indx % 2 = 0 := by omega
        rw [if_neg (hst.top_of_even heven)]
        constructor
        · intro _; exact ⟨he, heven, rfl, hst⟩
        · intro heq
          -- a full block would leave nothing for `t` to cover
          have hle := hst.2.2.2.le
          have htop := hst.2.2.1
          rw [Nat.add_mul] at htop
          rw [Nat.add_mul, Nat.add_mul] at heq
          have hpos := Nat.two_pow_pos t.height
          have hlt : 2 ^ e.height < 2 ^ K := by omega
          have hhK : e.height < K := (Nat.pow_lt_pow_iff_right Nat.one_lt_two).mp hlt
          obtain ⟨d, rfl⟩ := Nat.exists_eq_add_of_lt hhK
          have h1 : e.indx + 1 = (c + 1) * 2 ^ d * 2 := by
            have : (e.indx + 1) * 2 ^ e.height
                = (c + 1) * 2 ^ d * 2 * 2 ^ e.height := by
              rw [Nat.add_mul, heq]; ring
            exact Nat.eq_of_mul_eq_mul_right (Nat.two_pow_pos _) this
          omega

/-! ## A layer in place -/

/-- Compute `n` nodes in place: node `i` from the entries `2 i` and `2 i + 1`. -/
def halve (f : Nat → N → N → N) (n : Nat) (a : Nat → N) : Nat → N :=
  (List.range n).foldl (fun a i => Function.update a i (f i (a (2 * i)) (a (2 * i + 1)))) a

/-- Write `n` entries from entry `k` on. -/
def fill (g : Nat → N) (k n : Nat) (a : Nat → N) : Nat → N :=
  (List.range n).foldl (fun a i => Function.update a (k + i) (g i)) a

theorem halve_succ (f : Nat → N → N → N) (n : Nat) (a : Nat → N) :
    halve f (n + 1) a = Function.update (halve f n a) n
      (f n (halve f n a (2 * n)) (halve f n a (2 * n + 1))) := by
  rw [halve, List.range_succ, List.foldl_append, List.foldl_cons, List.foldl_nil, ← halve]

theorem fill_succ (g : Nat → N) (k n : Nat) (a : Nat → N) :
    fill g k (n + 1) a = Function.update (fill g k n a) (k + n) (g n) := by
  rw [fill, List.range_succ, List.foldl_append, List.foldl_cons, List.foldl_nil, ← fill]

/-- **A node in place overwrites no entry that is still to be read**: after `n` nodes
    the first `n` entries are new, and the others old. -/
theorem halve_apply (f : Nat → N → N → N) (n : Nat) (a : Nat → N) (j : Nat) :
    halve f n a j = if j < n then f j (a (2 * j)) (a (2 * j + 1)) else a j := by
  induction n generalizing j with
  | zero => rw [if_neg (Nat.not_lt_zero j)]; rfl
  | succ n ih =>
      rw [halve_succ, Function.update_apply]
      by_cases hj : j = n
      · rw [if_pos hj, if_pos (by omega), ih (2 * n), ih (2 * n + 1), if_neg (by omega),
          if_neg (by omega), hj]
      · rw [if_neg hj, ih j]
        by_cases hlt : j < n
        · rw [if_pos hlt, if_pos (by omega)]
        · rw [if_neg hlt, if_neg (by omega)]

theorem fill_apply (g : Nat → N) (k n : Nat) (a : Nat → N) (j : Nat) :
    fill g k n a j = if k ≤ j ∧ j < k + n then g (j - k) else a j := by
  induction n with
  | zero => rw [if_neg (by omega)]; rfl
  | succ n ih =>
      rw [fill_succ, Function.update_apply]
      by_cases hj : j = k + n
      · rw [if_pos hj, if_pos (by omega), hj, Nat.add_sub_cancel_left]
      · rw [if_neg hj, ih]
        by_cases hin : k ≤ j ∧ j < k + n
        · rw [if_pos hin, if_pos (by omega)]
        · rw [if_neg hin, if_neg (by omega)]

end PqDtls.MerkleTree
