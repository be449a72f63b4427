import PqDtls.K2sn.U256
import PqDtls.Lib.Ranking
import Mathlib.Data.Nat.Choose.Bounds
import Mathlib.Data.Nat.Choose.Sum
import Mathlib.Data.Nat.Digits.Lemmas

/-! # The cover-free family: messages to subsets of component keys

    `cff` turns a 256-bit message into 131 of the 262 component keys by walking
    down the table of binomial coefficients.  The walk reads `binoTab` with an
    index that only the arithmetic keeps inside the table, so the model returns
    `none` for a read outside it; **`cff_isSome`** shows that this never happens.

    The invariant of the walk, with `rows` table rows still available and
    column `col`, is `value msg < (rows).choose (col + 1)`.  So the walk is the
    unranking of `Ranking`, and **`cff_ranking`** says what a subset is and that no
    message has its subset inside that of another one. -/

namespace PqDtls.Cff

open Limbs Ranking

def k2snT : Nat := 262

def tb2 : Nat := 131

/-! ## The table -/

/-- Row `0` of `binoTab`. -/
def binoRow0 : Vector U256 (tb2 + 1) :=
  Vector.ofFn fun m => if m.val = 0 then one256 else zero256

/-- Row `n` of `binoTab` from row `n - 1`: ones in column `0` and on the diagonal, sums of the
    row above between them, and the zeros of static storage elsewhere. -/
def binoRowNext (n : Nat) (prev : Vector U256 (tb2 + 1)) : Vector U256 (tb2 + 1) :=
  Vector.ofFn fun m =>
    if m.val = 0 then one256
    else if n ≤ tb2 ∧ m.val = n then one256
    else if n ≤ tb2 ∧ n < m.val then zero256
    else add (prev[m.val - 1]!) (prev[m.val]!)

/-- `set_binotable`: the rows of `binoTab`. -/
def binoTab : Nat → Vector U256 (tb2 + 1)
  | 0 => binoRow0
  | n + 1 => binoRowNext (n + 1) (binoTab n)

theorem value_zero256 : value zero256 = 0 := by decide

theorem value_one256 : value one256 = 1 := by decide

/-- **THE TABLE** holds the binomial coefficients. -/
theorem value_binoTab {n m : Nat} (hn : n < k2snT) (hm : m ≤ tb2) :
    value (binoTab n)[m]! = n.choose m := by
  have hm' : m < tb2 + 1 := by omega
  induction n generalizing m with
  | zero =>
      rw [getElem!_pos (binoTab _) _ hm']
      simp only [binoTab, binoRow0, Vector.getElem_ofFn]
      cases m with
      | zero => rw [if_pos rfl, value_one256, Nat.choose_zero_right]
      | succ m => rw [if_neg (by omega), value_zero256, Nat.choose_zero_succ]
  | succ n ih =>
      rw [getElem!_pos (binoTab _) _ hm']
      simp only [binoTab, binoRowNext, Vector.getElem_ofFn]
      cases m with
      | zero => rw [if_pos rfl, value_one256, Nat.choose_zero_right]
      | succ m =>
          rw [if_neg (by omega)]
          by_cases hdiag : n + 1 ≤ tb2 ∧ m + 1 = n + 1
          · rw [if_pos hdiag, hdiag.2, value_one256, Nat.choose_self]
          rw [if_neg hdiag]
          by_cases habove : n + 1 ≤ tb2 ∧ n + 1 < m + 1
          · rw [if_pos habove, value_zero256, Nat.choose_eq_zero_of_lt habove.2]
          rw [if_neg habove, Nat.choose_succ_succ', Nat.add_sub_cancel]
          have hl := ih (m := m) (by omega) (by omega) (by omega)
          have hr := ih (m := m + 1) (by omega) hm hm'
          have hsum : n.choose m + n.choose (m + 1) < 2 ^ 320 := by
            rw [← Nat.choose_succ_succ']
            calc (n + 1).choose (m + 1) ≤ 2 ^ (n + 1) := Nat.choose_le_two_pow _ _
              _ < 2 ^ 320 := Nat.pow_lt_pow_right Nat.one_lt_two (by unfold k2snT at hn; omega)
          rw [value_add (by rw [hl, hr]; exact hsum), hl, hr]

/-! ## No entry has a limb of all ones

    Checked by evaluation over the left halves of the rows, each row walked with
    the multiplicative recurrence of the binomial coefficients. -/

/-- A limb of all ones, on the number shifted down to that limb. -/
def allOnesLimb (x : Nat) : Bool := Nat.beq (x % 2 ^ 64) (2 ^ 64 - 1)

def limbsOk (x : Nat) : Bool :=
  !(allOnesLimb (x / 2 ^ 64) || allOnesLimb (x / 2 ^ 128) || allOnesLimb (x / 2 ^ 192)
    || allOnesLimb (x / 2 ^ 256))

/-- The entries `k, …, k + f - 1` of row `n`, the first being `x`. -/
def rowOk (n : Nat) : Nat → Nat → Nat → Bool
  | 0, _, _ => true
  | f + 1, k, x => cond (limbsOk x) (rowOk n f (k + 1) (x * (n - k) / (k + 1))) false

/-- The left halves of the rows below `n`. -/
def rowsOk : Nat → Bool
  | 0 => true
  | n + 1 => cond (rowOk n (n / 2 + 1) 0 1) (rowsOk n) false

theorem rowsOk_k2snT : rowsOk k2snT = true := by decide +kernel

theorem choose_next (n k : Nat) :
    n.choose k * (n - k) / (k + 1) = n.choose (k + 1) := by
  rw [← Nat.choose_succ_right_eq]
  exact Nat.mul_div_cancel _ (Nat.succ_pos k)

theorem limbsOk_of_rowOk {n f k j : Nat} (h : rowOk n f k (n.choose k) = true)
    (hkj : k ≤ j) (hj : j < k + f) : limbsOk (n.choose j) = true := by
  induction f generalizing k with
  | zero => omega
  | succ f ih =>
      rw [rowOk] at h
      cases hok : limbsOk (n.choose k) with
      | false => rw [hok] at h; exact nomatch h
      | true =>
          rw [hok, cond_true, choose_next] at h
          by_cases heq : j = k
          · rw [heq]; exact hok
          · exact ih h (by omega) (by omega)

theorem rowOk_of_rowsOk {n r : Nat} (h : rowsOk r = true) (hn : n < r) :
    rowOk n (n / 2 + 1) 0 (n.choose 0) = true := by
  rw [Nat.choose_zero_right]
  induction r with
  | zero => omega
  | succ r ih =>
      rw [rowsOk] at h
      cases hok : rowOk r (r / 2 + 1) 0 1 with
      | false => rw [hok] at h; exact nomatch h
      | true =>
          rw [hok, cond_true] at h
          by_cases heq : n = r
          · rw [heq]; exact hok
          · exact ih h (by omega)

/-- No binomial coefficient of the table has an upper limb of all ones. -/
theorem limbsOk_choose {n k : Nat} (hn : n < k2snT) : limbsOk (n.choose k) = true := by
  have hrow := rowOk_of_rowsOk rowsOk_k2snT hn
  by_cases hkn : k ≤ n
  · by_cases hhalf : k ≤ n / 2
    · exact limbsOk_of_rowOk hrow (Nat.zero_le k) (by omega)
    · rw [← Nat.choose_symm hkn]
      exact limbsOk_of_rowOk hrow (Nat.zero_le _) (by omega)
  · rw [Nat.choose_eq_zero_of_lt (by omega)]
    decide

theorem ne_of_allOnesLimb {x : Nat} (h : allOnesLimb x = false) :
    x % 2 ^ 64 ≠ 2 ^ 64 - 1 := Nat.ne_of_beq_eq_false h

/-- A limb that is all ones is seen by `allOnesLimb`. -/
theorem ne_m64 {x : Nat} {w : UInt64} (h : allOnesLimb x = false)
    (hw : x % 2 ^ 64 = w.toNat) : w ≠ m64 := by
  rintro rfl
  exact ne_of_allOnesLimb h hw

/-- A limb vector whose value passes `limbsOk` is safe to subtract. -/
theorem borrowSafe_of_limbsOk {b : U256} (h : limbsOk (value b) = true) : BorrowSafe b := by
  obtain ⟨h0, h1, h2, h3⟩ := limbs_lt b
  have h4 : b[4].toNat < 2 ^ 64 := UInt64.toNat_lt _
  unfold limbsOk at h
  simp only [Bool.not_eq_true', Bool.or_eq_false_iff] at h
  obtain ⟨⟨⟨g1, g2⟩, g3⟩, g4⟩ := h
  unfold value at g1 g2 g3 g4
  refine ⟨ne_m64 g1 ?_, ne_m64 g2 ?_, ne_m64 g3 ?_, ne_m64 g4 ?_⟩ <;> omega

theorem binoTab_borrowSafe {n m : Nat} (hn : n < k2snT) (hm : m ≤ tb2) :
    BorrowSafe (binoTab n)[m]! := by
  apply borrowSafe_of_limbsOk
  rw [value_binoTab hn hm]
  exact limbsOk_choose hn

/-! ## The encoding -/

/-- Limb `k` of `msg`: eight bytes of the message, least significant first. -/
def convertLimb (ms : Vector UInt8 32) (k : Nat) : UInt64 :=
  (List.range 8).foldl (fun v j => v ||| ((ms[8 * k + j]!).toUInt64 <<< (8 * j).toUInt64)) 0

def convertU82u256 (ms : Vector UInt8 32) : U256 :=
  #v[convertLimb ms 0, convertLimb ms 1, convertLimb ms 2, convertLimb ms 3, 0]

/-- The inner `while`: skip the rows whose entry is not above `msg`.  `rows` is `k2sn_t - q + 1`,
    the number of rows that the index `k2sn_t - q` may still go through. -/
def cffWhile (col : Nat) : Nat → U256 → Option (U256 × Nat)
  | 0, _ => none
  | rows + 1, msg =>
      if isgteq msg (binoTab rows)[col]! then
        cffWhile col rows (sub msg (binoTab rows)[col]!)
      else some (msg, rows + 1)

/-- The outer loop; the first argument counts the columns `tb2 - i` down from `tb2 - 1`, and
    `component_key[i - 1] = q - 1`. -/
def cffLoop : Nat → Nat → U256 → Option (List Nat)
  | 0, _, _ => some []
  | col + 1, rows, msg => do
      let (msg, rows) ← cffWhile col rows msg
      let rest ← cffLoop col (rows - 1) msg
      some ((k2snT - rows) :: rest)

/-- `convert_u82u256` followed by `cff`: the contents of `component_key`. -/
def cff (ms : Vector UInt8 32) : Option (List Nat) :=
  cffLoop tb2 k2snT (convertU82u256 ms)

/-- **THE WALK** stays in the table, finds the next element of the subset, and what remains of
    the message fits the next column. -/
theorem cffWhile_spec {col rows : Nat} {msg : U256} (hcol : col ≤ tb2) (hrows : rows ≤ k2snT)
    (h : value msg < rows.choose (col + 1)) :
    ∃ msg' rows', cffWhile col rows msg = some (msg', rows' + 1) ∧ rows' < rows
      ∧ value msg' < rows'.choose col
      ∧ unrank rows (col + 1) (value msg) = rows' :: unrank rows' col (value msg') := by
  induction rows generalizing msg with
  | zero =>
      rw [Nat.choose_zero_succ] at h
      exact absurd h (Nat.not_lt_zero _)
  | succ r ih =>
      have hval := value_binoTab (n := r) (by omega) hcol
      rw [cffWhile]
      by_cases hge : isgteq msg (binoTab r)[col]! = true
      · rw [if_pos hge]
        have hle := (isgteq_iff _ _).mp hge
        have hsub := value_sub (binoTab_borrowSafe (n := r) (by omega) hcol) hle
        rw [hval] at hle hsub
        have hlt : value (sub msg (binoTab r)[col]!) < r.choose (col + 1) := by
          rw [hsub]
          exact skip_lt h hle
        obtain ⟨msg', rows', heq, hr, hv, hrank⟩ := ih (by omega) hlt
        rw [hsub] at hrank
        exact ⟨msg', rows', heq, by omega, hv, by rw [unrank_skip hle, hrank]⟩
      · rw [if_neg hge]
        rw [isgteq_iff, hval, Nat.not_le] at hge
        exact ⟨msg, r, rfl, Nat.lt_succ_self r, hge, unrank_take hge⟩

/-- The component key of the table row whose entry exceeds the message. -/
def rowKey (row : Nat) : Nat := k2snT - (row + 1)

/-- **THE LOOP** lists the subset whose number the message is. -/
theorem cffLoop_eq {col rows : Nat} {msg : U256} (hcol : col ≤ tb2) (hrows : rows ≤ k2snT)
    (h : value msg < rows.choose col) :
    cffLoop col rows msg = some ((unrank rows col (value msg)).map rowKey) := by
  induction col generalizing rows msg with
  | zero => rw [cffLoop, unrank_zero, List.map_nil]
  | succ col ih =>
      obtain ⟨msg', rows', heq, hr, hv, hrank⟩ := cffWhile_spec (by omega) hrows h
      rw [cffLoop, heq, hrank, List.map_cons, ← Option.some_inj]
      simp [ih (by omega) (by omega) hv, rowKey]

/-- The loop returns one index below `k2sn_t` for each column. -/
theorem cffLoop_spec {col rows : Nat} {msg : U256} (hcol : col ≤ tb2) (hrows : rows ≤ k2snT)
    (h : value msg < rows.choose col) :
    ∃ keys, cffLoop col rows msg = some keys ∧ keys.length = col ∧ ∀ k ∈ keys, k < k2snT := by
  refine ⟨_, cffLoop_eq hcol hrows h, by rw [List.length_map, length_unrank h], ?_⟩
  intro k hk
  obtain ⟨row, -, rfl⟩ := List.mem_map.mp hk
  unfold rowKey k2snT
  omega

/-- `n.choose k` along the multiplicative recurrence. -/
def chooseMul (n : Nat) : Nat → Nat
  | 0 => 1
  | k + 1 => chooseMul n k * (n - k) / (k + 1)

theorem chooseMul_eq (n k : Nat) : chooseMul n k = n.choose k := by
  induction k with
  | zero => rw [chooseMul, Nat.choose_zero_right]
  | succ k ih => rw [chooseMul, ih, choose_next]

/-- There are enough subsets for all messages. -/
theorem two_pow_le_choose : 2 ^ 256 ≤ k2snT.choose tb2 := by
  rw [← chooseMul_eq]
  decide +kernel

theorem value_convertU82u256_lt (ms : Vector UInt8 32) : value (convertU82u256 ms) < 2 ^ 256 := by
  obtain ⟨h0, h1, h2, h3⟩ := limbs_lt (convertU82u256 ms)
  have h4 : (convertU82u256 ms)[4].toNat = 0 := rfl
  unfold value
  omega

/-- **`cff` IS TOTAL**: for every message it ends with 131 indices of component keys. -/
theorem cff_isSome (ms : Vector UInt8 32) :
    ∃ keys, cff ms = some keys ∧ keys.length = tb2 ∧ ∀ k ∈ keys, k < k2snT :=
  cffLoop_spec le_rfl le_rfl
    (Nat.lt_of_lt_of_le (value_convertU82u256_lt ms) two_pow_le_choose)

/-! ## The entries read -/

/-- An index pair inside `binoTab[k2sn_t][tb2 + 1]`. -/
def InTable (e : Int × Nat) : Prop := 0 ≤ e.1 ∧ e.1 < k2snT ∧ e.2 < tb2 + 1

/-- The entries `binoTab[k2sn_t - q][tb2 - i]` the inner `while` reads; with no row left the row
    index is `-1`. -/
def whileReads (col : Nat) : Nat → U256 → List (Int × Nat)
  | 0, _ => [(-1, col)]
  | rows + 1, msg =>
      ((rows : Int), col) :: if isgteq msg (binoTab rows)[col]! then
        whileReads col rows (sub msg (binoTab rows)[col]!) else []

/-- The entries the outer loop reads. -/
def loopReads : Nat → Nat → U256 → List (Int × Nat)
  | 0, _, _ => []
  | col + 1, rows, msg =>
      whileReads col rows msg ++
        match cffWhile col rows msg with
        | some (msg, rows) => loopReads col (rows - 1) msg
        | none => []

/-- The entries of `binoTab` read by `convert_u82u256` and `cff`. -/
def cffReads (ms : Vector UInt8 32) : List (Int × Nat) :=
  loopReads tb2 k2snT (convertU82u256 ms)

/-- A walk that ends has read rows of the table only. -/
theorem whileReads_inTable {col rows : Nat} {msg : U256} {r : U256 × Nat} (hcol : col ≤ tb2)
    (hrows : rows ≤ k2snT) (h : cffWhile col rows msg = some r) :
    ∀ e ∈ whileReads col rows msg, InTable e := by
  induction rows generalizing msg with
  | zero => cases h
  | succ n ih =>
      rw [cffWhile] at h
      intro e he
      rw [whileReads] at he
      rcases List.mem_cons.mp he with rfl | hrest
      · exact ⟨Int.natCast_nonneg n, by dsimp only; omega, by dsimp only; omega⟩
      · by_cases hge : isgteq msg (binoTab n)[col]! = true
        · rw [if_pos hge] at h hrest
          exact ih (by omega) h e hrest
        · rw [if_neg hge] at hrest
          cases hrest

theorem loopReads_inTable {col rows : Nat} {msg : U256} (hcol : col ≤ tb2) (hrows : rows ≤ k2snT)
    (h : value msg < rows.choose col) : ∀ e ∈ loopReads col rows msg, InTable e := by
  induction col generalizing rows msg with
  | zero =>
      intro e he
      cases he
  | succ col ih =>
      obtain ⟨msg', rows', heq, hr, hv, -⟩ := cffWhile_spec (by omega) hrows h
      intro e he
      rw [loopReads, heq] at he
      rcases List.mem_append.mp he with hwhile | hrest
      · exact whileReads_inTable (by omega) hrows heq e hwhile
      · exact ih (by omega) (by omega) hv e hrest

/-! ## The message as a number -/

/-- The bytes `ms[i], …, ms[i + n - 1]`. -/
def bytesFrom (ms : Vector UInt8 32) (i n : Nat) : List Nat :=
  (List.range n).map fun j => (ms[i + j]!).toNat

theorem bytesFrom_lt {ms : Vector UInt8 32} {i n x : Nat} (h : x ∈ bytesFrom ms i n) :
    x < 256 := by
  obtain ⟨j, -, rfl⟩ := List.mem_map.mp h
  exact UInt8.toNat_lt _

theorem length_bytesFrom (ms : Vector UInt8 32) (i n : Nat) : (bytesFrom ms i n).length = n := by
  rw [bytesFrom, List.length_map, List.length_range]

theorem bytesFrom_succ (ms : Vector UInt8 32) (i n : Nat) :
    bytesFrom ms i (n + 1) = bytesFrom ms i n ++ [(ms[i + n]!).toNat] := by
  rw [bytesFrom, List.range_succ, List.map_append, List.map_singleton, bytesFrom]

/-- One more byte goes into free bits of the limb. -/
theorem toNat_or_byte {v : UInt64} {b : UInt8} {j : Nat} (hj : j < 8)
    (hv : v.toNat < 256 ^ j) :
    (v ||| (b.toUInt64 <<< (8 * j).toUInt64)).toNat = v.toNat + 256 ^ j * b.toNat := by
  have hpow : (256 : Nat) ^ j = 2 ^ (8 * j) := by
    rw [pow_mul]
    norm_num
  have hb := b.toNat_lt
  have hfit : b.toNat * 2 ^ (8 * j) < 2 ^ 64 :=
    calc b.toNat * 2 ^ (8 * j) < 2 ^ 8 * 2 ^ (8 * j) :=
          Nat.mul_lt_mul_of_pos_right hb (Nat.two_pow_pos _)
      _ = 2 ^ (8 + 8 * j) := (pow_add 2 8 (8 * j)).symm
      _ ≤ 2 ^ 64 := Nat.pow_le_pow_right Nat.two_pos (by omega)
  have hshift : ((8 * j).toUInt64).toNat = 8 * j := by
    rw [Nat.toUInt64, UInt64.toNat_ofNat']
    omega
  rw [UInt64.toNat_or, UInt64.toNat_shiftLeft, hshift, UInt8.toNat_toUInt64,
    Nat.mod_eq_of_lt (by omega : 8 * j < 64), Nat.shiftLeft_eq, Nat.mod_eq_of_lt hfit, hpow,
    Nat.or_comm, Nat.mul_comm, ← Nat.two_pow_add_eq_or_of_lt (hpow ▸ hv), Nat.add_comm]

/-- A limb is the number of its eight bytes. -/
theorem toNat_convertLimb (ms : Vector UInt8 32) (k : Nat) :
    (convertLimb ms k).toNat = Nat.ofDigits 256 (bytesFrom ms (8 * k) 8) := by
  have hfold : ∀ n ≤ 8,
      ((List.range n).foldl
        (fun v j => v ||| ((ms[8 * k + j]!).toUInt64 <<< (8 * j).toUInt64)) 0).toNat
        = Nat.ofDigits 256 (bytesFrom ms (8 * k) n) := by
    intro n hn
    induction n with
    | zero => rfl
    | succ n ih =>
        have hlt : Nat.ofDigits 256 (bytesFrom ms (8 * k) n) < 256 ^ n := by
          have hdigits := Nat.ofDigits_lt_base_pow_length (b := 256) (by decide)
            (fun x (hx : x ∈ bytesFrom ms (8 * k) n) => bytesFrom_lt hx)
          rwa [length_bytesFrom] at hdigits
        rw [List.range_succ, List.foldl_append, List.foldl_cons, List.foldl_nil,
          toNat_or_byte (by omega) (by rw [ih (by omega)]; exact hlt), ih (by omega),
          bytesFrom_succ, Nat.ofDigits_append, length_bytesFrom, Nat.ofDigits_singleton]
  exact hfold 8 le_rfl

theorem bytesFrom_add (ms : Vector UInt8 32) (i m n : Nat) :
    bytesFrom ms i (m + n) = bytesFrom ms i m ++ bytesFrom ms (i + m) n := by
  simp only [bytesFrom, List.range_add, List.map_append, List.map_map, Function.comp_def,
    Nat.add_assoc]

/-- **THE CONVERSION** reads the message as a little-endian number. -/
theorem value_convertU82u256 (ms : Vector UInt8 32) :
    value (convertU82u256 ms) = Nat.ofDigits 256 (bytesFrom ms 0 32) := by
  have hsplit : bytesFrom ms 0 32
      = bytesFrom ms 0 8 ++ bytesFrom ms 8 8 ++ bytesFrom ms 16 8 ++ bytesFrom ms 24 8 := by
    rw [bytesFrom_add ms 0 24 8, bytesFrom_add ms 0 16 8, bytesFrom_add ms 0 8 8]
  have h0 := toNat_convertLimb ms 0
  have h1 := toNat_convertLimb ms 1
  have h2 := toNat_convertLimb ms 2
  have h3 := toNat_convertLimb ms 3
  have h4 : (0 : UInt64).toNat = 0 := rfl
  simp only [hsplit, Nat.ofDigits_append, List.length_append, length_bytesFrom]
  simp only [value, convertU82u256, Vector.getElem_mk, List.getElem_toArray,
    List.getElem_cons_zero, List.getElem_cons_succ, h0, h1, h2, h3, h4]
  ring

/-- Messages with one number are one message. -/
theorem convertU82u256_inj {ms ms' : Vector UInt8 32}
    (h : value (convertU82u256 ms) = value (convertU82u256 ms')) : ms = ms' := by
  rw [value_convertU82u256, value_convertU82u256] at h
  have hbytes := Nat.ofDigits_inj_of_len_eq (by decide)
    (by rw [length_bytesFrom, length_bytesFrom]) (fun x hx => bytesFrom_lt hx)
    (fun x hx => bytesFrom_lt hx) h
  ext i hi
  have hi' := congrArg (fun l => l[i]?) hbytes
  simpa [bytesFrom, hi] using hi'

/-! ## The ranking -/

/-- The number of a message is the number of a subset. -/
theorem value_lt_choose (ms : Vector UInt8 32) :
    value (convertU82u256 ms) < k2snT.choose tb2 :=
  Nat.lt_of_lt_of_le (value_convertU82u256_lt ms) two_pow_le_choose

/-- The subset of a message. -/
def subset (ms : Vector UInt8 32) : List Nat :=
  (unrank k2snT tb2 (value (convertU82u256 ms))).map rowKey

theorem cff_eq (ms : Vector UInt8 32) : cff ms = some (subset ms) :=
  cffLoop_eq le_rfl le_rfl (value_lt_choose ms)

theorem rowKey_inj {a b : Nat} (ha : a < k2snT) (hb : b < k2snT) (h : rowKey a = rowKey b) :
    a = b := by
  unfold rowKey at h
  omega

/-- Falling rows are rising keys. -/
theorem subset_sorted (ms : Vector UInt8 32) : (subset ms).Pairwise (· < ·) := by
  refine List.pairwise_map.mpr ((unrank_sorted _ _ _).imp_of_mem ?_)
  intro a b ha hb hgt
  have halt := lt_of_mem_unrank ha
  unfold rowKey
  omega

theorem subset_lt {ms : Vector UInt8 32} {k : Nat} (h : k ∈ subset ms) : k < k2snT := by
  obtain ⟨row, -, rfl⟩ := List.mem_map.mp h
  unfold rowKey k2snT
  omega

/-- No subset of a message contains that of another. -/
theorem eq_of_subset_subset {ms ms' : Vector UInt8 32} (h : subset ms ⊆ subset ms') :
    ms = ms' := by
  refine convertU82u256_inj
    (eq_of_unrank_subset (value_lt_choose ms) (value_lt_choose ms') ?_)
  intro row hrow
  obtain ⟨row', hrow', hkey⟩ := List.mem_map.mp (h (List.mem_map_of_mem hrow))
  rwa [← rowKey_inj (lt_of_mem_unrank hrow') (lt_of_mem_unrank hrow) hkey]

/-- **THE ENCODING** ends for every message, reads the table inside its bounds, leaves 131 rising
    indices of component keys, and no message's subset lies in that of another message. -/
theorem cff_ranking (ms : Vector UInt8 32) :
    (∀ e ∈ cffReads ms, InTable e)
      ∧ ∃ keys, cff ms = some keys ∧ keys.length = tb2 ∧ keys.Pairwise (· < ·)
        ∧ (∀ k ∈ keys, k < k2snT)
        ∧ ∀ ms' keys', cff ms' = some keys' → keys ⊆ keys' ∨ keys' ⊆ keys → ms' = ms := by
  refine ⟨loopReads_inTable le_rfl le_rfl (value_lt_choose ms), subset ms, cff_eq ms, ?_,
    subset_sorted ms, fun k hk => subset_lt hk, ?_⟩
  · rw [subset, List.length_map, length_unrank (value_lt_choose ms)]
  · intro ms' keys' hkeys' hsub
    rw [cff_eq, Option.some_inj] at hkeys'
    subst hkeys'
    rcases hsub with hsub | hsub
    · exact (eq_of_subset_subset hsub).symm
    · exact eq_of_subset_subset hsub

end PqDtls.Cff
