import PqDtls.K2sn.Ksnmss
import PqDtls.Lib.Deadline

/-! # The Merkle traversal of the signer over whole runs

    `ksnmss_sign` keeps the authentication path of the next leaf in `auth` and
    prepares the right siblings it will need in the treehash instances, doing
    `updateiter` leaves of work per signature.  **`traversal`** shows that from
    `key_generation` on, along every run of signatures `0, 1, 2, …`, the path is
    the path of true nodes and every instance that is popped is complete.

    The invariant `TraversalInv` has four parts: `auth` holds the true siblings,
    `keep` the true left siblings that will be merged, every treehash stack is a
    tiling of the leaves done so far (`MerkleTree.Covers`), and the leaves done
    are on schedule (`Deadline.Sched`).  The code's priority — the height of the
    bottom node — is `Nat.log2` of the leaves done, which is fair in the sense
    of the deadline argument. -/

namespace PqDtls.TraversalProofs

open Cff MerkleTree Ksnmss Deadline

variable (K : Prims)

/-- The inner hash of the Merkle tree: `h` is the height of the parent. -/
def parent (h i : Nat) (l r : Node) : Node := hashPair K l r i (h + llength)

/-- The true Merkle node of height `h` and index `i`. -/
def trueNode (h i : Nat) : Node := node (otsLeaf K) (parent K) h i

theorem usr_eq : usr = 2 ^ hlength := by decide

theorem infy_gt : hlength < infy := by decide

/-! ## Key generation -/

/-- A finished instance with the node `v`. -/
def Done (t : Treehash) : Prop := t.finalized = true ∧ t.treestack = [] ∧ t.lowheight = infy

/-- The nodes that key generation keeps, of those that are finished: `fin k h` for index `k` and
    height `h`. -/
structure Kept (fin : Nat → Nat → Prop) (s : SignerState) : Prop where
  auth : ∀ h, h < hlength → fin 1 h → s.auth h = trueNode K h 1
  instances : ∀ h, h < hlength - 2 → fin 3 h →
    Done (s.instances h) ∧ (s.instances h).v = trueNode K h 3
  retain : fin 3 (hlength - 2) → s.retain = trueNode K (hlength - 2) 3

/-- The subtree of index `k` and height `h` ends before `hi`, or at `hi` with a height below `g`. -/
def EndsBelow (hi g k h : Nat) : Prop := (k + 1) * 2 ^ h < hi ∨ ((k + 1) * 2 ^ h = hi ∧ h < g)

variable {K}

/-- The first half of `keepNode` writes `auth` at the node's height, if at all. -/
theorem keepNode_auth (n : MssNode) (s : SignerState) (h : Nat) :
    (keepNode n s).auth h = if n.indx = 1 ∧ h = n.height then n.key else s.auth h := by
  unfold keepNode
  by_cases h1 : n.indx = 1
  · by_cases hh : h = n.height
    · simp [h1, hh]
    · simp [h1, hh]
  · by_cases h3 : n.indx = 3
    · simp only [h3, if_neg (by decide : ¬ (3 = 1)), if_true]
      split
      · simp
      · split <;> simp
    · simp [h1, h3]

theorem keepNode_instances (n : MssNode) (s : SignerState) (h : Nat) :
    (keepNode n s).instances h
      = if n.indx = 3 ∧ n.height < hlength - 2 ∧ h = n.height then
          { s.instances h with v := n.key, finalized := true, lowheight := infy, treestack := [] }
        else s.instances h := by
  unfold keepNode
  by_cases h1 : n.indx = 1
  · simp [h1]
  · by_cases h3 : n.indx = 3
    · simp only [h3, if_neg (by decide : ¬ (3 = 1)), if_true, true_and]
      by_cases hlt : n.height < hlength - 2
      · rw [if_pos hlt]
        by_cases hh : h = n.height
        · subst hh; simp [hlt]
        · simp [hh]
      · rw [if_neg hlt]
        split <;> simp [hlt]
    · simp [h1, h3]

theorem keepNode_retain (n : MssNode) (s : SignerState) :
    (keepNode n s).retain
      = if n.indx = 3 ∧ n.height = hlength - 2 then n.key else s.retain := by
  unfold keepNode
  by_cases h1 : n.indx = 1
  · simp [h1]
  · by_cases h3 : n.indx = 3
    · simp only [h3, if_neg (by decide : ¬ (3 = 1)), if_true, true_and]
      by_cases hlt : n.height < hlength - 2
      · rw [if_pos hlt, if_neg (by omega)]
      · rw [if_neg hlt]
        split <;> simp
    · simp [h1, h3]

/-- A subtree that ends at `hi` and has the height and the end of another one has its index. -/
theorem indx_of_end {k h i hi : Nat} (hhi : hi = (i + 1) * 2 ^ h) (hk : (k + 1) * 2 ^ h = hi) :
    i = k := by
  have := Nat.eq_of_mul_eq_mul_right (Nat.two_pow_pos h) (hhi ▸ hk)
  omega

/-- Keeping a true node that ends at `hi` extends `Kept` to its height. -/
theorem Kept.keepNode {hi : Nat} {n : MssNode} {s : SignerState}
    (h : Kept K (EndsBelow hi n.height) s) (hn : n.True (otsLeaf K) (parent K))
    (hhi : hi = (n.indx + 1) * 2 ^ n.height) :
    Kept K (EndsBelow hi (n.height + 1)) (keepNode n s) := by
  have hkey : n.key = trueNode K n.height n.indx := hn
  refine ⟨?_, ?_, ?_⟩
  · intro g hg hend
    rw [keepNode_auth]
    by_cases hw : n.indx = 1 ∧ g = n.height
    · rw [if_pos hw, hkey, hw.1, hw.2]
    · rw [if_neg hw]
      apply h.auth g hg
      rcases hend with hlt | ⟨heq, hlt⟩
      · exact Or.inl hlt
      · refine Or.inr ⟨heq, ?_⟩
        by_contra hge
        have hgh : g = n.height := by omega
        subst hgh
        exact hw ⟨indx_of_end (k := 1) hhi heq, rfl⟩
  · intro g hg hend
    rw [keepNode_instances]
    by_cases hw : n.indx = 3 ∧ n.height < hlength - 2 ∧ g = n.height
    · rw [if_pos hw]
      refine ⟨⟨rfl, rfl, rfl⟩, ?_⟩
      show n.key = _
      rw [hkey, hw.1, hw.2.2]
    · rw [if_neg hw]
      apply h.instances g hg
      rcases hend with hlt | ⟨heq, hlt⟩
      · exact Or.inl hlt
      · refine Or.inr ⟨heq, ?_⟩
        by_contra hge
        have hgh : g = n.height := by omega
        subst hgh
        exact hw ⟨indx_of_end (k := 3) hhi heq, hg, rfl⟩
  · intro hend
    rw [keepNode_retain]
    by_cases hw : n.indx = 3 ∧ n.height = hlength - 2
    · rw [if_pos hw, hkey, hw.1, hw.2]
    · rw [if_neg hw]
      apply h.retain
      rcases hend with hlt | ⟨heq, hlt⟩
      · exact Or.inl hlt
      · refine Or.inr ⟨heq, ?_⟩
        by_contra hge
        have hgh : n.height = hlength - 2 := by omega
        rw [← hgh] at heq
        exact hw ⟨indx_of_end (k := 3) hhi heq, hgh⟩

/-- The loop of key generation builds the treehash stack. -/
theorem mergeLoop_stack (st : List MssNode) (n : MssNode) (s : SignerState) :
    (mergeLoop K st n s).1 = treehashPush (parent K) st n := by
  induction st generalizing n s with
  | nil => rfl
  | cons t st ih =>
      rw [mergeLoop, treehashPush]
      by_cases hh : t.height = n.height
      · rw [if_pos hh, if_pos hh, ih]
        rfl
      · rw [if_neg hh, if_neg hh]

/-- The loop of key generation keeps, of the subtrees that end with its leaf, all those below
    the node it leaves on top. -/
theorem mergeLoop_kept {lo hi : Nat} {st : List MssNode} {n : MssNode} {s : SignerState}
    (hst : Covers (otsLeaf K) (parent K) lo (n.indx * 2 ^ n.height) st)
    (hn : n.True (otsLeaf K) (parent K)) (hhi : hi = (n.indx + 1) * 2 ^ n.height)
    (hs : Kept K (EndsBelow hi n.height) s) :
    ∃ e st', (mergeLoop K st n s).1 = e :: st'
      ∧ Kept K (EndsBelow hi e.height) (mergeLoop K st n s).2 := by
  induction st generalizing n s with
  | nil => exact ⟨n, [], rfl, hs⟩
  | cons t st ih =>
      rw [mergeLoop]
      by_cases hh : t.height = n.height
      · rw [if_pos hh]
        obtain ⟨htrue, hspan, hrest⟩ := hst.merged hn hh
        exact ih (n := ⟨_, n.height + 1, n.indx / 2⟩) hrest htrue (hhi.trans hspan.symm)
          (hs.keepNode hn hhi)
      · rw [if_neg hh]
        exact ⟨n, t :: st, rfl, hs⟩

/-- The subtree of index `k` and height `h` ends at or before `hi`. -/
def EndsBy (hi k h : Nat) : Prop := (k + 1) * 2 ^ h ≤ hi

theorem Kept.mono {fin fin' : Nat → Nat → Prop} {s : SignerState} (h : Kept K fin s)
    (h1 : ∀ x, fin' 1 x → fin 1 x) (h3 : ∀ x, fin' 3 x → fin 3 x) : Kept K fin' s where
  auth := fun x hx hf => h.auth x hx (h1 x hf)
  instances := fun x hx hf => h.instances x hx (h3 x hf)
  retain := fun hf => h.retain (h3 _ hf)

/-- An even subtree that ends where `2 ^ (d + 1)` subtrees of height `h` end is higher than
    they are. -/
theorem height_lt_of_end {h g i d hi : Nat} (hhi : hi = (i + 1) * 2 ^ g) (heven : i % 2 = 0)
    (hd : 2 ^ (d + 1) * 2 ^ h = hi) : h < g := by
  have hodd : (i + 1) % 2 = 1 := by omega
  have heq : (i + 1) * 2 ^ g = 1 * 2 ^ (d + 1 + h) := by
    rw [← hhi, ← hd, Nat.one_mul, pow_add 2 (d + 1) h]
  have := height_eq_of_odd_mul hodd rfl heq
  omega

/-- With an even node on top, nothing that ends at `hi` is missing. -/
theorem Kept.all {hi g i : Nat} {s : SignerState} (h : Kept K (EndsBelow hi g) s)
    (hhi : hi = (i + 1) * 2 ^ g) (heven : i % 2 = 0) : Kept K (EndsBy hi) s := by
  refine h.mono ?_ ?_
  · intro x hx
    rcases Nat.lt_or_eq_of_le hx with hlt | heq
    · exact Or.inl hlt
    · exact Or.inr ⟨heq, height_lt_of_end (d := 0) hhi heven heq⟩
  · intro x hx
    rcases Nat.lt_or_eq_of_le hx with hlt | heq
    · exact Or.inl hlt
    · exact Or.inr ⟨heq, height_lt_of_end (d := 1) hhi heven heq⟩

/-- Before the next leaf is added, nothing is missing of what ends with it at a height below `0`. -/
theorem Kept.next {m : Nat} {s : SignerState} (h : Kept K (EndsBy m) s) :
    Kept K (EndsBelow (m + 1) 0) s := by
  refine h.mono ?_ ?_
  · rintro x (hlt | ⟨-, hlt⟩)
    · exact Nat.lt_succ_iff.mp hlt
    · exact absurd hlt (Nat.not_lt_zero _)
  · rintro x (hlt | ⟨-, hlt⟩)
    · exact Nat.lt_succ_iff.mp hlt
    · exact absurd hlt (Nat.not_lt_zero _)

theorem keyGenerationLoop_succ (K : Prims) (s : SignerState) (m : Nat) :
    keyGenerationLoop K s (m + 1) = keyGenerationLeaf K (keyGenerationLoop K s m) m := by
  unfold keyGenerationLoop
  rw [List.range_succ, List.foldl_append]
  rfl

/-- One leaf of key generation, on the stack and on what is kept. -/
theorem keyGenerationLeaf_spec {m : Nat} {p : List MssNode × SignerState} (hm : m < 2 ^ hlength)
    (hst : Covers (otsLeaf K) (parent K) 0 m p.1) (hkept : Kept K (EndsBy m) p.2) :
    (m + 1 < 2 ^ hlength →
        Covers (otsLeaf K) (parent K) 0 (m + 1) (keyGenerationLeaf K p m).1)
      ∧ (m + 1 = 2 ^ hlength →
        (keyGenerationLeaf K p m).1 = [⟨trueNode K hlength 0, hlength, 0⟩])
      ∧ Kept K (EndsBy (m + 1)) (keyGenerationLeaf K p m).2 := by
  have htrue : Entry.True (otsLeaf K) (parent K) ⟨otsLeaf K m, 0, m⟩ := rfl
  have hcov : Covers (otsLeaf K) (parent K) (0 * 2 ^ hlength) (m * 2 ^ 0) p.1 := by
    rw [Nat.zero_mul, pow_zero, Nat.mul_one]; exact hst
  obtain ⟨hext, hfull⟩ := treehashPush_covers hcov htrue (by simp; omega)
  rw [← mergeLoop_stack p.1 ⟨otsLeaf K m, 0, m⟩ p.2] at hext hfull
  simp only [Nat.zero_mul, pow_zero, Nat.mul_one, Nat.zero_add, Nat.one_mul] at hext hfull
  have hend : m + 1 = (m + 1) * 2 ^ 0 := by simp
  obtain ⟨e, st', hpop, hkept'⟩ := mergeLoop_kept hcov htrue hend hkept.next
  refine ⟨hext, hfull, ?_⟩
  -- the node left on top is even and ends with the leaf, also when it is the root
  rcases Nat.lt_or_eq_of_le hm with hlt | heq
  · have hcov' := hext hlt
    rw [hpop] at hcov'
    obtain ⟨-, heven, hend, -⟩ := hcov'
    exact hkept'.all hend heven
  · have hroot := hfull heq
    rw [hpop] at hroot
    obtain ⟨rfl, -⟩ := List.cons.inj hroot
    exact hkept'.all (i := 0) (by rw [Nat.zero_add, Nat.one_mul]; exact heq) rfl

/-- **KEY GENERATION, STEP BY STEP**: after the leaves below `m` the stack tiles them and all
    finished nodes the traversal starts from are kept. -/
theorem keyGenerationLoop_spec (K : Prims) (s : SignerState) {m : Nat} (hm : m < 2 ^ hlength) :
    Covers (otsLeaf K) (parent K) 0 m (keyGenerationLoop K s m).1
      ∧ Kept K (EndsBy m) (keyGenerationLoop K s m).2 := by
  induction m with
  | zero =>
      have hnone : ∀ k h, ¬ EndsBy 0 k h := by
        intro k h hf
        have hpos := Nat.mul_pos (Nat.succ_pos k) (Nat.two_pow_pos h)
        exact absurd hf (Nat.not_le_of_lt hpos)
      exact ⟨rfl, fun h _ hf => absurd hf (hnone 1 h), fun h _ hf => absurd hf (hnone 3 h),
        fun hf => absurd hf (hnone 3 _)⟩
  | succ m ih =>
      obtain ⟨hst, hkept⟩ := ih (by omega)
      obtain ⟨hext, -, hkept'⟩ := keyGenerationLeaf_spec (by omega) hst hkept
      rw [keyGenerationLoop_succ]
      exact ⟨hext hm, hkept'⟩

theorem Kept.setPublicKey {fin : Nat → Nat → Prop} {p : List MssNode × SignerState}
    (h : Kept K fin p.2) : Kept K fin (setPublicKey p) := by
  obtain ⟨st, s⟩ := p
  cases st with
  | nil => exact h
  | cons t st => exact ⟨h.auth, h.instances, h.retain⟩

theorem setPublicKey_MSSPK {p : List MssNode × SignerState} {t : MssNode} (h : p.1 = [t]) :
    (setPublicKey p).MSSPK = t.key := by
  obtain ⟨st, s⟩ := p
  obtain rfl : st = [t] := h
  rfl

/-- **KEY GENERATION**: the public key is the root, and the traversal starts from true nodes. -/
theorem keyGeneration_spec (K : Prims) (s : SignerState) :
    (keyGeneration K s).MSSPK = trueNode K hlength 0
      ∧ Kept K (EndsBy (2 ^ hlength)) (keyGeneration K s) := by
  obtain ⟨m, hm⟩ : ∃ m, m + 1 = 2 ^ hlength :=
    ⟨2 ^ hlength - 1, Nat.sub_add_cancel (Nat.two_pow_pos _)⟩
  obtain ⟨hst, hkept⟩ := keyGenerationLoop_spec K s (m := m) (by omega)
  obtain ⟨-, hfull, hkept'⟩ := keyGenerationLeaf_spec (by omega) hst hkept
  have husr : m + 1 = usr := hm.trans usr_eq.symm
  rw [← keyGenerationLoop_succ, husr] at hfull hkept'
  rw [← usr_eq] at hfull ⊢
  unfold keyGeneration
  exact ⟨setPublicKey_MSSPK (hfull rfl), hkept'.setPublicKey⟩

/-! ## One leaf of work on an instance -/

variable (K) in
/-- The instance works on the node of height `j` and index `c`; `n` leaves are done. -/
structure InProgress (c j n : Nat) (t : Treehash) : Prop where
  finalized : t.finalized = false
  startleaf : t.startleaf = c * 2 ^ j + n
  covers : Covers (otsLeaf K) (parent K) (c * 2 ^ j) (c * 2 ^ j + n) t.treestack
  lowheight : t.lowheight = Nat.log2 n

/-- The loop of an instance builds the treehash stack, its top apart. -/
theorem treehashLoop_stack (st : List MssNode) (n : MssNode) :
    treehashPush (parent K) st n = (treehashLoop K st n).2 :: (treehashLoop K st n).1 := by
  induction st generalizing n with
  | nil => rfl
  | cons t st ih =>
      rw [treehashLoop, treehashPush]
      by_cases hh : t.height = n.height
      · rw [if_pos hh, if_pos hh.symm, ← ih]
        rfl
      · rw [if_neg hh, if_neg (Ne.symm hh)]

/-- The height of the bottom node does not change while the stack below the new top is not
    empty. -/
theorem log2_succ_of_drop {lo n : Nat} {e : MssNode} {st st' : List MssNode} {k : Nat}
    (hst : Covers (otsLeaf K) (parent K) lo (lo + n) st)
    (hst' : Covers (otsLeaf K) (parent K) lo (lo + (n + 1)) (e :: st')) (hdrop : st' = st.drop k)
    (hne : st' ≠ []) : Nat.log2 (n + 1) = Nat.log2 n := by
  cases st with
  | nil => rw [List.drop_nil] at hdrop; exact absurd hdrop hne
  | cons t st =>
      have h := hst.bottom_height
      have h' := hst'.bottom_height
      rw [Nat.add_sub_cancel_left] at h h'
      rw [← h, ← h', List.getLast_cons hne]
      congr 1
      subst hdrop
      exact List.getLast_drop hne

/-- **ONE LEAF OF WORK** advances an instance by one leaf, and with its last leaf completes it
    with the true node. -/
theorem treehashUpdate_spec {c j n : Nat} {t : Treehash} (h : InProgress K c j n t)
    (hn : n < 2 ^ j) :
    (n + 1 < 2 ^ j → InProgress K c j (n + 1) (treehashUpdate K j t))
      ∧ (n + 1 = 2 ^ j →
          Done (treehashUpdate K j t) ∧ (treehashUpdate K j t).v = trueNode K j c) := by
  obtain ⟨hfin, hleaf, hcov, hlow⟩ := h
  by_cases hj : j = 0
  · subst hj
    have hn0 : n = 0 := by simpa using hn
    subst hn0
    rw [Nat.add_zero] at hcov
    have hnil := hcov.nil_of_eq
    unfold treehashUpdate
    rw [if_pos rfl]
    refine ⟨fun hlt => by simp at hlt, fun _ => ⟨⟨rfl, hnil, rfl⟩, ?_⟩⟩
    show otsLeaf K t.startleaf = _
    rw [hleaf, pow_zero, Nat.mul_one, Nat.add_zero]
    rfl
  · have htrue : Entry.True (otsLeaf K) (parent K) ⟨otsLeaf K t.startleaf, 0, t.startleaf⟩ := rfl
    have hcov' : Covers (otsLeaf K) (parent K) (c * 2 ^ j) (t.startleaf * 2 ^ 0) t.treestack := by
      rw [pow_zero, Nat.mul_one, hleaf]; exact hcov
    have hend : (t.startleaf + 1) * 2 ^ 0 = c * 2 ^ j + (n + 1) := by
      rw [pow_zero, Nat.mul_one, hleaf]; rfl
    have hblock : (c + 1) * 2 ^ j = c * 2 ^ j + 2 ^ j := by rw [Nat.add_mul, Nat.one_mul]
    have hpush := treehashPush_covers hcov' htrue (by rw [hend, hblock]; omega)
    rw [treehashLoop_stack, hend, hblock] at hpush
    obtain ⟨hext, hfull⟩ := hpush
    unfold treehashUpdate
    rw [if_neg hj]
    cases hst : t.treestack with
    | nil =>
        -- a single leaf: the stack was empty, so nothing was done before
        rw [hst] at hcov hext hfull
        have hn0 : n = 0 := by
          have : c * 2 ^ j + n = c * 2 ^ j := hcov
          omega
        subst hn0
        have htwo : 2 ^ 1 ≤ 2 ^ j := Nat.pow_le_pow_right (by omega) (by omega)
        refine ⟨fun hlt => ⟨hfin, ?_, hext (by omega), ?_⟩, fun heq => by omega⟩
        · show t.startleaf + 1 = _
          rw [hleaf]
        · show t.lowheight = _
          rw [hlow]
          rfl
    | cons e st =>
        rw [hst] at hext hfull hcov
        obtain ⟨e', k, hdrop⟩ := treehashPush_eq (parent K) (e :: st)
          ⟨otsLeaf K t.startleaf, 0, t.startleaf⟩
        rw [treehashLoop_stack] at hdrop
        have hrest := (List.cons.inj hdrop).2
        dsimp only
        rcases Nat.lt_or_eq_of_le (Nat.succ_le_of_lt hn) with hlt | heq
        · have hcovers := hext (by omega)
          -- the tile of the new top is inside the block, so it is not the target
          have hheight : (treehashLoop K (e :: st)
              ⟨otsLeaf K t.startleaf, 0, t.startleaf⟩).2.height ≠ j := by
            intro hh
            obtain ⟨-, -, hhi, hrst⟩ := hcovers
            have hle := hrst.le
            rw [Nat.add_mul, hh, Nat.one_mul] at hhi
            rw [hh] at hle
            omega
          rw [if_neg hheight]
          refine ⟨fun _ => ⟨hfin, ?_, hcovers, ?_⟩, fun heq => by omega⟩
          · show t.startleaf + 1 = _
            rw [hleaf]; rfl
          · dsimp only
            by_cases hemp : (treehashLoop K (e :: st)
                ⟨otsLeaf K t.startleaf, 0, t.startleaf⟩).1 = []
            · rw [if_pos hemp]
              have hbot := hcovers.bottom_height
              rw [Nat.add_sub_cancel_left] at hbot
              rw [← hbot]
              simp [hemp]
            · rw [if_neg hemp, hlow]
              exact (log2_succ_of_drop hcov hcovers hrest hemp).symm
        · have hroot := hfull (by omega)
          obtain ⟨htop, hemp⟩ := List.cons.inj hroot
          rw [htop]
          simp only [if_true]
          exact ⟨fun hlt => by omega, fun _ => ⟨⟨rfl, rfl, rfl⟩, rfl⟩⟩

/-! ## The instances of a whole signature -/

/-- The index of the node that instance `j` prepares while leaf `id` is current. -/
def target (id j : Nat) : Nat := 2 * (id / 2 ^ (j + 1)) + 3

variable (K) in
/-- Instance `j` with `n` leaves of its current job done. -/
structure InstanceOk (id j n : Nat) (t : Treehash) : Prop where
  work : n < 2 ^ j → InProgress K (target id j) j n t
  done : ¬ n < 2 ^ j → Done t ∧ (target id j * 2 ^ j < usr → t.v = trueNode K j (target id j))

variable (K) in
def InstancesOk (id : Nat) (n : Progress) (instances : Nat → Treehash) : Prop :=
  ∀ j, j < hlength - 2 → InstanceOk K id j (n j) (instances j)

/-- What `selectInstance` looks at: unfinished, with a height. -/
def AtWork (t : Treehash) : Prop := t.lowheight < infy ∧ t.finalized = false

theorem log2_lt_infy {j n : Nat} (hj : j < hlength) (hn : n < 2 ^ j) : Nat.log2 n < infy := by
  by_cases h0 : n = 0
  · subst h0; decide
  · have h1 : Nat.log2 n < j := (Nat.log2_lt h0).mpr hn
    have h2 := infy_gt
    omega

theorem InstanceOk.atWork_iff {id j n : Nat} {t : Treehash} (hj : j < hlength)
    (h : InstanceOk K id j n t) : AtWork t ↔ n < 2 ^ j := by
  constructor
  · rintro ⟨-, hfin⟩
    by_contra hn
    obtain ⟨⟨hdone, -⟩, -⟩ := h.done hn
    rw [hfin] at hdone
    exact nomatch hdone
  · intro hn
    have hw := h.work hn
    refine ⟨?_, hw.finalized⟩
    rw [hw.lowheight]
    exact log2_lt_infy hj hn

/-- One comparison of `selectInstance`. -/
def selectStep (instances : Nat → Treehash) (p : Nat × Nat) (j : Nat) : Nat × Nat :=
  if (instances j).lowheight ≠ infy ∧ (instances j).finalized = false
    ∧ p.1 > (instances j).lowheight then ((instances j).lowheight, j) else p

/-- The running minimum over the instances below `m`: none at work yet, or the first with the
    least height. -/
theorem selectStep_spec (instances : Nat → Treehash) (m : Nat) :
    let p := (List.range m).foldl (selectStep instances) (infy, 0)
    (p.1 = infy ∧ ∀ j, j < m → ¬ AtWork (instances j))
      ∨ (p.2 < m ∧ AtWork (instances p.2) ∧ p.1 = (instances p.2).lowheight
          ∧ ∀ j, j < m → AtWork (instances j) →
              p.1 < (instances j).lowheight ∨ (p.1 = (instances j).lowheight ∧ p.2 ≤ j)) := by
  induction m with
  | zero => exact Or.inl ⟨rfl, fun j hj => absurd hj (Nat.not_lt_zero j)⟩
  | succ m ih =>
      rw [List.range_succ, List.foldl_append]
      generalize (List.range m).foldl (selectStep instances) (infy, 0) = p at ih ⊢
      simp only [List.foldl_cons, List.foldl_nil, selectStep]
      have hbound : p.1 ≤ infy := by
        rcases ih with ⟨h, -⟩ | ⟨-, ⟨hw, -⟩, h, -⟩ <;> omega
      by_cases hsel : (instances m).lowheight ≠ infy ∧ (instances m).finalized = false
          ∧ p.1 > (instances m).lowheight
      · rw [if_pos hsel]
        obtain ⟨-, hfin, hgt⟩ := hsel
        refine Or.inr ⟨Nat.lt_succ_self m, ⟨Nat.lt_of_lt_of_le hgt hbound, hfin⟩, rfl, ?_⟩
        intro j hj hwork
        rcases Nat.lt_or_eq_of_le (Nat.lt_succ_iff.mp hj) with hlt | rfl
        · rcases ih with ⟨-, hnone⟩ | ⟨-, -, -, hleast⟩
          · exact absurd hwork (hnone j hlt)
          · rcases hleast j hlt hwork with h | ⟨h, -⟩
            · exact Or.inl (hgt.trans h)
            · exact Or.inl (Nat.lt_of_lt_of_eq hgt h)
        · exact Or.inr ⟨rfl, le_rfl⟩
      · rw [if_neg hsel]
        rcases ih with ⟨h, hnone⟩ | ⟨hlt, hwork, heq, hleast⟩
        · refine Or.inl ⟨h, ?_⟩
          intro j hj hw
          rcases Nat.lt_or_eq_of_le (Nat.lt_succ_iff.mp hj) with hlt | rfl
          · exact hnone j hlt hw
          · exact hsel ⟨Nat.ne_of_lt hw.1, hw.2, by rw [h]; exact hw.1⟩
        · refine Or.inr ⟨by omega, hwork, heq, ?_⟩
          intro j hj hw
          rcases Nat.lt_or_eq_of_le (Nat.lt_succ_iff.mp hj) with hlt' | rfl
          · exact hleast j hlt' hw
          · have hle : p.1 ≤ (instances j).lowheight := by
              by_contra hgt
              exact hsel ⟨Nat.ne_of_lt hw.1, hw.2, by omega⟩
            omega

/-- `selectInstance` finds the first unfinished instance of least height, if there is one. -/
theorem selectInstance_spec (instances : Nat → Treehash) :
    (selectInstance instances = none ∧ ∀ j, j < hlength - 2 → ¬ AtWork (instances j))
      ∨ ∃ i, selectInstance instances = some i ∧ i < hlength - 2 ∧ AtWork (instances i)
          ∧ ∀ j, j < i → AtWork (instances j) →
              (instances i).lowheight < (instances j).lowheight := by
  have h := selectStep_spec instances (hlength - 2)
  have hdef : selectInstance instances =
      if ((List.range (hlength - 2)).foldl (selectStep instances) (infy, 0)).1 < infy then
        some ((List.range (hlength - 2)).foldl (selectStep instances) (infy, 0)).2
      else none := rfl
  rw [hdef]
  generalize (List.range (hlength - 2)).foldl (selectStep instances) (infy, 0) = p at h ⊢
  rcases h with ⟨heq, hnone⟩ | ⟨hlt, hwork, heq, hleast⟩
  · rw [if_neg (by omega)]
    exact Or.inl ⟨rfl, hnone⟩
  · have hinfy : p.1 < infy := by rw [heq]; exact hwork.1
    rw [if_pos hinfy]
    refine Or.inr ⟨p.2, rfl, hlt, hwork, ?_⟩
    intro j hj hw
    rcases hleast j (by omega) hw with h | ⟨-, h⟩
    · rw [← heq]; exact h
    · omega

/-- One leaf of work keeps an instance in order. -/
theorem InstanceOk.update {id j n : Nat} {t : Treehash} (h : InstanceOk K id j n t)
    (hn : n < 2 ^ j) : InstanceOk K id j (n + 1) (treehashUpdate K j t) := by
  obtain ⟨hmore, hlast⟩ := treehashUpdate_spec (h.work hn) hn
  refine ⟨hmore, ?_⟩
  intro hdone
  obtain ⟨hd, hv⟩ := hlast (by omega)
  exact ⟨hd, fun _ => hv⟩

theorem InstancesOk.update {id i : Nat} {n : Progress} {instances : Nat → Treehash}
    (h : InstancesOk K id n instances) (hi : i < hlength - 2) (hn : n i < 2 ^ i) :
    InstancesOk K id (Function.update n i (n i + 1))
      (Function.update instances i (treehashUpdate K i (instances i))) := by
  intro j hj
  by_cases hji : j = i
  · subst hji
    rw [Function.update_self, Function.update_self]
    exact (h j hj).update hn
  · rw [Function.update_of_ne hji, Function.update_of_ne hji]
    exact h j hj

/-- **THE WORK OF A SIGNATURE** is a fair schedule of leaves, and keeps all instances in order. -/
theorem signUpdates_spec {id b : Nat} {s : SignerState} {n : Progress}
    (h : InstancesOk K id n s.instances) :
    ∃ n', Slots (hlength - 2) b n n' ∧ InstancesOk K id n' (signUpdates K b s).instances := by
  induction b generalizing s n with
  | zero => exact ⟨n, .none, h⟩
  | succ b ih =>
      have hiff : ∀ j, j < hlength - 2 → (AtWork (s.instances j) ↔ Pending n j) :=
        fun j hj => (h j hj).atWork_iff (by omega)
      rcases selectInstance_spec s.instances with ⟨heq, hnone⟩ | ⟨i, heq, hlt, hwork, hleast⟩
      · rw [signUpdates, heq]
        refine ⟨n, Slots.idle ?_ _, h⟩
        intro j hj hp
        exact hnone j hj ((hiff j hj).mpr hp)
      · rw [signUpdates, heq]
        have hpend := (hiff i hlt).mp hwork
        have hfair : Fair (hlength - 2) n i := by
          refine fair_of_log2_least hlt hpend ?_
          intro k hk hpk
          have hklt : k < hlength - 2 := by omega
          have hlow := hleast k hk ((hiff k hklt).mpr hpk)
          rw [((h i hlt).work hpend).lowheight, ((h k hklt).work hpk).lowheight] at hlow
          exact hlow
        have hstep := h.update hlt hpend
        obtain ⟨n', hslots, hok⟩ :=
          ih (s := { s with instances := Function.update s.instances i _ }) hstep
        exact ⟨n', Slots.cons (.serve hfair) hslots, hok⟩

/-- The work changes nothing but the instances. -/
theorem signUpdates_frame (b : Nat) (s : SignerState) :
    (signUpdates K b s).auth = s.auth ∧ (signUpdates K b s).keep = s.keep
      ∧ (signUpdates K b s).retain = s.retain ∧ (signUpdates K b s).MSSPK = s.MSSPK := by
  induction b generalizing s with
  | zero => exact ⟨rfl, rfl, rfl, rfl⟩
  | succ b ih =>
      rw [signUpdates]
      cases selectInstance s.instances with
      | none => exact ⟨rfl, rfl, rfl, rfl⟩
      | some j => exact ih _

/-! ## The step to the next leaf -/

theorem tauLoop_spec (fuel x tau : Nat) (hx : 0 < x) (hfuel : x < 2 ^ fuel) :
    ∃ k q, tauLoop fuel x tau = tau + k ∧ x = q * 2 ^ k ∧ q % 2 = 1 := by
  induction fuel generalizing x tau with
  | zero => omega
  | succ fuel ih =>
      rw [tauLoop, Nat.and_one_is_mod, Nat.shiftRight_one]
      by_cases heven : x % 2 = 0
      · rw [if_pos heven]
        rw [pow_succ] at hfuel
        obtain ⟨k, q, htau, hq, hodd⟩ := ih (x / 2) (tau + 1) (by omega) (by omega)
        refine ⟨k + 1, q, by omega, ?_, hodd⟩
        have h2 : x = x / 2 * 2 := by omega
        rw [h2, hq, pow_succ, Nat.mul_assoc]
      · rw [if_neg heven]
        exact ⟨0, x, rfl, by rw [pow_zero, Nat.mul_one], by omega⟩

/-- `tau` is the exponent of two in `id + 1`. -/
theorem signTau_spec {id : Nat} (hid : id < usr) :
    ∃ q, id + 1 = q * 2 ^ signTau id ∧ q % 2 = 1 := by
  unfold signTau
  rw [Nat.and_one_is_mod]
  by_cases heven : id % 2 = 0
  · rw [if_pos heven]
    exact ⟨id + 1, by rw [pow_zero, Nat.mul_one], by omega⟩
  · rw [if_neg heven]
    have hlt : id + 1 < 2 ^ 32 := by
      have : usr = 1048576 := rfl
      omega
    obtain ⟨k, q, htau, hq, hodd⟩ := tauLoop_spec 32 (id + 1) 0 (Nat.succ_pos id) hlt
    rw [htau, Nat.zero_add]
    exact ⟨q, hq, hodd⟩

/-- The heights below `tau` are those at which a block of leaves ends with `id`. -/
theorem dvd_iff_lt_tau {id j : Nat} (hid : id < usr) :
    2 ^ (j + 1) ∣ id + 1 ↔ j < signTau id := by
  obtain ⟨q, hq, hodd⟩ := signTau_spec hid
  constructor
  · intro hdvd
    by_contra hge
    have h1 : 2 ^ (signTau id + 1) ∣ q * 2 ^ signTau id := by
      rw [← hq]
      exact (Nat.pow_dvd_pow 2 (by omega)).trans hdvd
    rw [pow_succ, Nat.mul_comm (2 ^ signTau id) 2] at h1
    have h2 := Nat.dvd_of_mul_dvd_mul_right (Nat.two_pow_pos _) h1
    omega
  · intro hlt
    rw [hq]
    exact (Nat.pow_dvd_pow 2 (by omega)).trans (Nat.dvd_mul_left _ _)

/-- The next leaf's right sibling at a height where a block ends is what the instance prepared. -/
theorem sibling_of_dvd {id j : Nat} (h : 2 ^ (j + 1) ∣ id + 1) :
    sibling ((id + 1) / 2 ^ j) = target id j := by
  have hsucc := Nat.succ_div_of_dvd h
  obtain ⟨m, hm⟩ := h
  rw [hm, Nat.mul_div_cancel_left _ (Nat.two_pow_pos _)] at hsucc
  have hdiv : (id + 1) / 2 ^ j = 2 * m := by
    rw [hm, pow_succ, Nat.mul_assoc, Nat.mul_div_cancel_left _ (Nat.two_pow_pos j)]
  unfold sibling target
  rw [hdiv, if_pos (by omega)]
  omega

theorem target_succ_of_not_dvd {id j : Nat} (h : ¬ 2 ^ (j + 1) ∣ id + 1) :
    target (id + 1) j = target id j := by
  unfold target
  rw [Nat.succ_div_of_not_dvd h]

/-- The first leaf of the next job of instance `j`. -/
theorem target_succ_of_dvd {id j : Nat} (h : 2 ^ (j + 1) ∣ id + 1) :
    target (id + 1) j * 2 ^ j = id + 1 + 3 * 2 ^ j := by
  obtain ⟨m, hm⟩ := h
  unfold target
  rw [hm, Nat.mul_div_cancel_left _ (Nat.two_pow_pos _), pow_succ, Nat.add_mul]
  have : 2 ^ j * 2 * m = 2 * m * 2 ^ j := by
    rw [Nat.mul_assoc, Nat.mul_comm]
  rw [this]

theorem foldl_signPop (m : Nat) (s : SignerState) :
    (List.range m).foldl (fun s i => signPop i s) s
      = { s with auth := fun i => if i < m then poppedNode s i else s.auth i } := by
  induction m with
  | zero => simp
  | succ m ih =>
      rw [List.range_succ, List.foldl_append, ih]
      simp only [List.foldl_cons, List.foldl_nil, signPop]
      congr 1
      funext i
      by_cases him : i = m
      · subst him
        simp [poppedNode]
      · rw [Function.update_of_ne him]
        simp only [show i < m + 1 ↔ i < m by omega]

theorem foldl_signRelease (id m : Nat) (s : SignerState) :
    (List.range m).foldl (fun s i => signRelease id i s) s
      = { s with instances := fun i =>
            if i < m then releaseTreehash id i (s.instances i) else s.instances i } := by
  induction m with
  | zero => simp
  | succ m ih =>
      rw [List.range_succ, List.foldl_append, ih]
      simp only [List.foldl_cons, List.foldl_nil, signRelease]
      congr 1
      funext i
      by_cases him : i = m
      · subst him
        simp
      · rw [Function.update_of_ne him]
        simp only [show i < m + 1 ↔ i < m by omega]

theorem signKeep_eq (id tau : Nat) (s : SignerState) :
    signKeep id tau s = { s with keep := (signKeep id tau s).keep } := by
  unfold signKeep
  split <;> rfl

/-- `signPath` at an even leaf, field by field. -/
theorem signPath_even {id : Nat} {s : SignerState} (h : signTau id = 0) (heven : id % 2 = 0) :
    signPath K id s =
      { s with
        auth := Function.update s.auth 0 (otsLeaf K id)
        keep := (signKeep id 0 s).keep } := by
  unfold signPath
  rw [h]
  show signLeaf K id (signKeep id 0 s) = _
  rw [signKeep_eq]
  unfold signLeaf
  rw [Nat.and_one_is_mod, if_pos heven]
  rfl

/-- A signature leaves the root alone. -/
theorem ksnmssSign_MSSPK {s : SignerState} {id : Nat} {ms : Vector UInt8 k2snMsglen}
    {r : KsnmssSig × SignerState} (h : ksnmssSign K s id ms = some r) :
    r.2.MSSPK = s.MSSPK := by
  have keep (s : SignerState) : (signKeep id (signTau id) s).MSSPK = s.MSSPK := by
    unfold signKeep
    split <;> rfl
  have leaf (s : SignerState) : (signLeaf K id s).MSSPK = s.MSSPK := by
    unfold signLeaf
    split <;> rfl
  have path (s : SignerState) : (signPath K id s).MSSPK = s.MSSPK := by
    unfold signPath
    simp only
    split
    · rw [foldl_signRelease, foldl_signPop]
      exact (leaf _).trans (keep s)
    · exact (leaf _).trans (keep s)
  unfold ksnmssSign at h
  obtain ⟨componentKey, -, hr⟩ := Option.bind_eq_some_iff.mp h
  cases hr
  by_cases hid : id < usr
  · simp only [if_pos hid]
    rw [signAdvance, (signUpdates_frame updateiter _).2.2.2, path]
  · simp only [if_neg hid]

/-- `signPath` at an odd leaf, field by field. -/
theorem signPath_odd {id : Nat} {s : SignerState} (h : 0 < signTau id) (hodd : id % 2 = 1) :
    signPath K id s =
      { auth := fun i =>
          if i < signTau id then poppedNode s i
          else if i = signTau id then
            hashPair K (s.auth (signTau id - 1)) ((signKeep id (signTau id) s).keep (signTau id - 1))
              (id >>> signTau id) (signTau id + llength)
          else s.auth i
        keep := (signKeep id (signTau id) s).keep
        retain := s.retain
        instances := fun i =>
          if i < signTau id then releaseTreehash id i (s.instances i) else s.instances i
        MSSPK := s.MSSPK } := by
  have hleaf : ∀ s, signLeaf K id s = s := by
    intro s
    unfold signLeaf
    rw [Nat.and_one_is_mod, if_neg (by omega)]
  unfold signPath
  simp only [if_pos h, foldl_signPop, foldl_signRelease, hleaf]
  generalize signTau id = tau at h
  rw [signKeep_eq id tau s]
  simp only [signClimb, SignerState.mk.injEq, and_true]
  funext i
  by_cases hi : i < tau
  · rw [if_pos hi, if_pos hi]
    unfold poppedNode
    split
    · rfl
    · split
      · rfl
      · exact Function.update_of_ne (by omega) _ _
  · rw [if_neg hi, if_neg hi]
    by_cases heq : i = tau
    · subst heq
      rw [if_pos rfl, Function.update_self]
    · rw [if_neg heq, Function.update_of_ne heq]

variable (K) in
/-- **THE TRAVERSAL INVARIANT** before the signature for leaf `id`. -/
structure TraversalInv (id : Nat) (s : SignerState) : Prop where
  auth : ∀ h, h < hlength → s.auth h = trueNode K h (sibling (id / 2 ^ h))
  keep : ∀ h, h < hlength - 1 → id / 2 ^ h % 4 = 1 → s.keep h = trueNode K h (id / 2 ^ h)
  retain : s.retain = trueNode K (hlength - 2) 3
  instances : ∃ n, Sched (hlength - 2) updateiter id n ∧ InstancesOk K id n s.instances

theorem budget : hlength - 2 ≤ 2 * updateiter := by decide

/-- Key generation establishes the invariant, with no work pending. -/
theorem traversalInv_init (s : SignerState) : TraversalInv K 0 (keyGeneration K s) := by
  obtain ⟨-, hkept⟩ := keyGeneration_spec K s
  have hends : ∀ h k e, h + e ≤ hlength → k + 1 = 2 ^ e → EndsBy (2 ^ hlength) k h := by
    intro h k e hle hk
    unfold EndsBy
    rw [hk, ← pow_add]
    exact Nat.pow_le_pow_right (by omega) (by omega)
  have hH : 2 ≤ hlength := by decide
  refine ⟨?_, ?_, ?_, ?_⟩
  · intro h hh
    rw [Nat.zero_div]
    exact hkept.auth h hh (hends h 1 1 (by omega) rfl)
  · intro h _ hmod
    rw [Nat.zero_div] at hmod
    exact nomatch hmod
  · exact hkept.retain (hends _ 3 2 (by omega) rfl)
  · refine ⟨fun j => 2 ^ j, sched_init fun _ _ => rfl, ?_⟩
    intro j hj
    obtain ⟨hdone, hv⟩ := hkept.instances j hj (hends j 3 2 (by omega) rfl)
    refine ⟨fun hlt => absurd hlt (lt_irrefl _), fun _ => ⟨hdone, fun _ => ?_⟩⟩
    unfold target
    rw [Nat.zero_div]
    exact hv

/-- The instances whose block ends are complete and hold the next right siblings. -/
theorem TraversalInv.popped {id j : Nat} {s : SignerState} (h : TraversalInv K id s)
    (hj : j < hlength - 2) (hdvd : 2 ^ (j + 1) ∣ id + 1) :
    Done (s.instances j)
      ∧ (target id j * 2 ^ j < usr → (s.instances j).v = trueNode K j (target id j)) := by
  obtain ⟨n, hsched, hok⟩ := h.instances
  have hfull := sched_deadline budget hsched hj hdvd
  exact (hok j hj).done (by omega)

/-- The next right sibling is in the tree unless the leaf is the last one. -/
theorem target_lt_usr {id j : Nat} (hid : id + 1 < usr) (hj : j < hlength)
    (hdvd : 2 ^ (j + 1) ∣ id + 1) : target id j * 2 ^ j < usr := by
  obtain ⟨m, hm⟩ := hdvd
  have hsib := sibling_of_dvd ⟨m, hm⟩
  have hdiv : (id + 1) / 2 ^ j = 2 * m := by
    rw [hm, pow_succ, Nat.mul_assoc, Nat.mul_div_cancel_left _ (Nat.two_pow_pos j)]
  have htarget : target id j = 2 * m + 1 := by
    rw [← hsib, hdiv]
    unfold sibling
    rw [if_pos (by omega)]
  obtain ⟨d, hd⟩ : ∃ d, hlength = j + 1 + d := Nat.exists_eq_add_of_le hj
  have husr : usr = 2 ^ (j + 1) * 2 ^ d := by rw [usr_eq, hd, pow_add]
  have hlt : m < 2 ^ d := by
    rw [husr, hm] at hid
    exact Nat.lt_of_mul_lt_mul_left hid
  have hle : (m + 1) * 2 ^ (j + 1) ≤ 2 ^ d * 2 ^ (j + 1) := Nat.mul_le_mul_right _ hlt
  have hpos := Nat.two_pow_pos j
  rw [htarget, husr, Nat.mul_comm (2 ^ (j + 1))]
  refine Nat.lt_of_lt_of_le ?_ hle
  rw [pow_succ]
  have h1 : (m + 1) * (2 ^ j * 2) = (2 * m + 1) * 2 ^ j + 2 ^ j := by
    rw [Nat.mul_comm (2 ^ j) 2, ← Nat.mul_assoc, ← Nat.succ_mul]
    congr 1
    omega
  omega

/-- A complete instance is released on its next job, or stays complete when there is none. -/
theorem releaseTreehash_ok {id j n : Nat} {t : Treehash} (hdone : Done t) (hn : n = 2 ^ j)
    (hdvd : 2 ^ (j + 1) ∣ id + 1) :
    InstanceOk K (id + 1) j (if id + 1 + 3 * 2 ^ j < usr then 0 else n)
      (releaseTreehash id j t) := by
  have htarget := target_succ_of_dvd hdvd
  obtain ⟨hfin, hstack, hlow⟩ := hdone
  unfold releaseTreehash
  rw [Nat.one_shiftLeft]
  by_cases hlt : id + 1 + 3 * 2 ^ j < usr
  · simp only [if_pos hlt, hstack, if_true]
    refine ⟨fun _ => ⟨rfl, ?_, ?_, rfl⟩, fun h => absurd (Nat.two_pow_pos j) h⟩
    · exact htarget.symm
    · rfl
  · simp only [if_neg hlt]
    refine ⟨fun h => by omega, fun _ => ⟨⟨hfin, hstack, hlow⟩, fun h => ?_⟩⟩
    rw [htarget] at h
    exact absurd h hlt

/-- The job of an instance whose block goes on is the same for the next leaf. -/
theorem InstanceOk.succ {id j n : Nat} {t : Treehash} (h : InstanceOk K id j n t)
    (hdvd : ¬ 2 ^ (j + 1) ∣ id + 1) : InstanceOk K (id + 1) j n t := by
  refine ⟨?_, ?_⟩
  · rw [target_succ_of_not_dvd hdvd]; exact h.work
  · rw [target_succ_of_not_dvd hdvd]; exact h.done

/-- `tau` is zero exactly at even leaves. -/
theorem signTau_eq_zero_iff {id : Nat} (hid : id < usr) : signTau id = 0 ↔ id % 2 = 0 := by
  have h := dvd_iff_lt_tau (j := 0) hid
  rw [pow_one] at h
  omega

theorem signPath_instances {id : Nat} {s : SignerState} (hid : id < usr) :
    (signPath K id s).instances = fun i =>
      if i < signTau id then releaseTreehash id i (s.instances i) else s.instances i := by
  by_cases h0 : signTau id = 0
  · rw [signPath_even h0 ((signTau_eq_zero_iff hid).mp h0), h0]
    rfl
  · have hodd := (signTau_eq_zero_iff hid).not.mp h0
    rw [signPath_odd (by omega) (by omega)]

theorem signPath_retain {id : Nat} {s : SignerState} (hid : id < usr) :
    (signPath K id s).retain = s.retain := by
  by_cases h0 : signTau id = 0
  · rw [signPath_even h0 ((signTau_eq_zero_iff hid).mp h0)]
  · have hodd := (signTau_eq_zero_iff hid).not.mp h0
    rw [signPath_odd (by omega) (by omega)]

theorem signPath_keep {id : Nat} {s : SignerState} (hid : id < usr) :
    (signPath K id s).keep = (signKeep id (signTau id) s).keep := by
  by_cases h0 : signTau id = 0
  · rw [signPath_even h0 ((signTau_eq_zero_iff hid).mp h0), h0]
  · have hodd := (signTau_eq_zero_iff hid).not.mp h0
    rw [signPath_odd (by omega) (by omega)]

/-- The releases of a signature, in the schedule and in the instances. -/
theorem TraversalInv.release {id : Nat} {s : SignerState} (h : TraversalInv K id s)
    (hid : id < usr) :
    ∃ n m, Sched (hlength - 2) updateiter id n ∧ Release (hlength - 2) (id + 1) n m
      ∧ (∀ i, hlength - 2 ≤ i → m i = n i)
      ∧ InstancesOk K (id + 1) m (signPath K id s).instances := by
  obtain ⟨n, hsched, hok⟩ := h.instances
  refine ⟨n, fun i => if i < signTau id ∧ i < hlength - 2 then
      (if id + 1 + 3 * 2 ^ i < usr then 0 else n i) else n i, hsched, ?_, ?_, ?_⟩
  · intro i _
    dsimp only
    split
    · rename_i hi
      split
      · exact Or.inr ⟨(dvd_iff_lt_tau hid).mpr hi.1, rfl⟩
      · exact Or.inl rfl
    · exact Or.inl rfl
  · intro i hi
    dsimp only
    rw [if_neg (by omega)]
  · intro j hj
    rw [signPath_instances hid]
    dsimp only
    by_cases hlt : j < signTau id
    · have hdvd := (dvd_iff_lt_tau hid).mpr hlt
      rw [if_pos hlt, if_pos ⟨hlt, hj⟩]
      exact releaseTreehash_ok (h.popped hj hdvd).1 (sched_deadline budget hsched hj hdvd) hdvd
    · rw [if_neg hlt, if_neg (fun hc => hlt hc.1)]
      exact (hok j hj).succ (fun hdvd => hlt ((dvd_iff_lt_tau hid).mp hdvd))

/-- The quotients of `id` and `id + 1` at and below the height where the block ends. -/
theorem div_tau {id : Nat} (hid : id < usr) :
    (id + 1) / 2 ^ signTau id = id / 2 ^ signTau id + 1
      ∧ id / 2 ^ signTau id % 2 = 0 := by
  obtain ⟨q, hq, hodd⟩ := signTau_spec hid
  have hdvd : 2 ^ signTau id ∣ id + 1 := ⟨q, by rw [hq, Nat.mul_comm]⟩
  have hsucc := Nat.succ_div_of_dvd hdvd
  have hdiv : (id + 1) / 2 ^ signTau id = q := by
    rw [hq, Nat.mul_div_cancel _ (Nat.two_pow_pos _)]
  exact ⟨hsucc, by omega⟩

theorem div_below_tau {id tau : Nat} (h : (id + 1) / 2 ^ (tau + 1) = id / 2 ^ (tau + 1) + 1)
    (heven : id / 2 ^ (tau + 1) % 2 = 0) :
    id / 2 ^ tau % 4 = 1 ∧ id / 2 ^ tau / 2 = id / 2 ^ (tau + 1) := by
  have h1 : id / 2 ^ (tau + 1) = id / 2 ^ tau / 2 := by
    rw [pow_succ, Nat.div_div_eq_div_mul]
  have h2 : (id + 1) / 2 ^ (tau + 1) = (id + 1) / 2 ^ tau / 2 := by
    rw [pow_succ, Nat.div_div_eq_div_mul]
  have h3 : (id + 1) / 2 ^ tau ≤ id / 2 ^ tau + 1 := by
    rw [Nat.succ_div]
    split <;> omega
  exact ⟨by omega, h1.symm⟩

/-- Below `tau` the prepared node is the next right sibling. -/
theorem TraversalInv.poppedNode_eq {id g : Nat} {s : SignerState} (h : TraversalInv K id s)
    (hid : id + 1 < usr) (hg : g < hlength) (hdvd : 2 ^ (g + 1) ∣ id + 1) :
    poppedNode s g = trueNode K g (target id g) := by
  have hlt := target_lt_usr hid hg hdvd
  unfold poppedNode
  by_cases hinst : g < hlength - 2
  · rw [if_pos hinst]
    exact (h.popped hinst hdvd).2 hlt
  · have hH : hlength = 20 := rfl
    have hthree : 3 * 2 ^ g ≤ target id g * 2 ^ g :=
      Nat.mul_le_mul_right _ (Nat.le_add_left 3 _)
    have hg18 : g = hlength - 2 := by
      by_contra hne
      obtain rfl : g = 19 := by omega
      have : usr = 2 * 2 ^ 19 := rfl
      omega
    subst hg18
    have htarget : target id (hlength - 2) = 3 := by
      have husr : usr = 4 * 2 ^ (hlength - 2) := rfl
      rw [husr] at hlt
      have hlt4 := Nat.lt_of_mul_lt_mul_right hlt
      unfold target at hlt4 ⊢
      omega
    rw [if_neg hinst, if_pos rfl, h.retain, htarget]

/-- At `tau` the old sibling and the kept node give the next left sibling. -/
theorem TraversalInv.climb_eq {id tau : Nat} {s : SignerState} (h : TraversalInv K id s)
    (htau : tau + 1 < hlength) (hsucc : (id + 1) / 2 ^ (tau + 1) = id / 2 ^ (tau + 1) + 1)
    (heven : id / 2 ^ (tau + 1) % 2 = 0) :
    hashPair K (s.auth tau) ((signKeep id (tau + 1) s).keep tau) (id >>> (tau + 1))
        (tau + 1 + llength)
      = trueNode K (tau + 1) (id / 2 ^ (tau + 1)) := by
  obtain ⟨hmod, hhalf⟩ := div_below_tau hsucc heven
  have hkeep : (signKeep id (tau + 1) s).keep tau = trueNode K tau (id / 2 ^ tau) := by
    rw [← h.keep tau (by omega) hmod]
    unfold signKeep
    split
    · exact Function.update_of_ne (by omega) _ _
    · rfl
  have hsib : sibling (id / 2 ^ tau) = id / 2 ^ tau - 1 := by
    unfold sibling
    rw [if_neg (by omega)]
  rw [hkeep, h.auth tau (by omega), hsib, Nat.shiftRight_eq_div_pow, ← hhalf]
  exact parent_of_odd (otsLeaf K) (parent K) (by omega)

/-- **THE PATH**: after steps 1 to 4 `auth` holds the siblings of the next leaf. -/
theorem TraversalInv.signPath_auth {id g : Nat} {s : SignerState} (h : TraversalInv K id s)
    (hid : id + 1 < usr) (hg : g < hlength) :
    (signPath K id s).auth g = trueNode K g (sibling ((id + 1) / 2 ^ g)) := by
  have hid' : id < usr := by omega
  have habove : signTau id < g → (id + 1) / 2 ^ g = id / 2 ^ g := by
    intro hlt
    obtain ⟨g', rfl⟩ : ∃ g', g = g' + 1 := ⟨g - 1, by omega⟩
    refine Nat.succ_div_of_not_dvd fun hdvd => ?_
    have := (dvd_iff_lt_tau hid').mp hdvd
    omega
  obtain ⟨hsucc, heven⟩ := div_tau hid'
  have hleft : sibling (id / 2 ^ signTau id + 1) = id / 2 ^ signTau id := by
    unfold sibling
    rw [if_neg (by omega), Nat.add_sub_cancel]
  by_cases h0 : signTau id = 0
  · rw [signPath_even h0 ((signTau_eq_zero_iff hid').mp h0)]
    dsimp only
    by_cases hg0 : g = 0
    · subst hg0
      rw [h0, pow_zero, Nat.div_one] at hleft
      rw [pow_zero, Nat.div_one, hleft, Function.update_self]
      rfl
    · rw [habove (by omega), ← h.auth g hg]
      exact Function.update_of_ne hg0 _ _
  · have hodd := (signTau_eq_zero_iff hid').not.mp h0
    rw [signPath_odd (by omega) (by omega)]
    dsimp only
    rcases Nat.lt_trichotomy g (signTau id) with hlt | heq | hgt
    · have hdvd := (dvd_iff_lt_tau hid').mpr hlt
      rw [if_pos hlt, sibling_of_dvd hdvd]
      exact h.poppedNode_eq hid hg hdvd
    · subst heq
      rw [if_neg (lt_irrefl _), if_pos rfl, hsucc, hleft]
      obtain ⟨tau, htau⟩ : ∃ tau, signTau id = tau + 1 := ⟨signTau id - 1, by omega⟩
      rw [htau] at hsucc heven hg ⊢
      exact h.climb_eq hg hsucc heven
    · rw [if_neg (by omega), if_neg (by omega), habove hgt]
      exact h.auth g hg

/-- The kept nodes after steps 1 to 4. -/
theorem TraversalInv.signPath_keep {id g : Nat} {s : SignerState} (h : TraversalInv K id s)
    (hid : id < usr) (hg : g < hlength - 1) (hmod : (id + 1) / 2 ^ g % 4 = 1) :
    (signPath K id s).keep g = trueNode K g ((id + 1) / 2 ^ g) := by
  rw [TraversalProofs.signPath_keep hid]
  obtain ⟨hsucc, heven⟩ := div_tau hid
  unfold signKeep
  rcases Nat.lt_trichotomy g (signTau id) with hlt | heq | hgt
  · -- below `tau` the quotient is even
    obtain ⟨m, hm⟩ := (dvd_iff_lt_tau hid).mpr hlt
    rw [hm, pow_succ, Nat.mul_assoc, Nat.mul_div_cancel_left _ (Nat.two_pow_pos g)] at hmod
    omega
  · subst heq
    have hbit : id >>> (signTau id + 1) &&& 1 = 0 := by
      have h1 : id / 2 ^ (signTau id + 1) = id / 2 ^ signTau id / 2 := by
        rw [pow_succ, Nat.div_div_eq_div_mul]
      rw [Nat.shiftRight_eq_div_pow, Nat.and_one_is_mod, h1]
      omega
    have hsib : sibling (id / 2 ^ signTau id) = id / 2 ^ signTau id + 1 := by
      unfold sibling
      rw [if_pos heven]
    rw [if_pos ⟨hbit, hg⟩, hsucc, ← hsib, ← h.auth _ (by omega)]
    exact Function.update_self _ _ _
  · obtain ⟨g', rfl⟩ : ∃ g', g = g' + 1 := ⟨g - 1, by omega⟩
    have hsame : (id + 1) / 2 ^ (g' + 1) = id / 2 ^ (g' + 1) := by
      refine Nat.succ_div_of_not_dvd fun hdvd => ?_
      have := (dvd_iff_lt_tau hid).mp hdvd
      omega
    rw [hsame] at hmod ⊢
    rw [← h.keep _ hg hmod]
    split
    · exact Function.update_of_ne (by omega) _ _
    · rfl

/-- **STEP**: a signature leaves the globals ready for the next leaf. -/
theorem traversalInv_step {id : Nat} {s : SignerState} (h : TraversalInv K id s)
    (hid : id + 1 < usr) : TraversalInv K (id + 1) (signAdvance K id s) := by
  have hid' : id < usr := by omega
  obtain ⟨n, m, hsched, hrel, hN, hok⟩ := h.release hid'
  obtain ⟨n', hslots, hok'⟩ := signUpdates_spec (b := updateiter) hok
  obtain ⟨hauth, hkeep, hretain, -⟩ := signUpdates_frame (K := K) updateiter (signPath K id s)
  unfold signAdvance
  refine ⟨?_, ?_, ?_, n', sched_call hsched hN hrel hslots, hok'⟩
  · intro g hg
    rw [hauth]
    exact h.signPath_auth hid hg
  · intro g hg hmod
    rw [hkeep]
    exact h.signPath_keep hid' hg hmod
  · rw [hretain, signPath_retain hid']
    exact h.retain

/-! ## Whole runs -/

/-- `ksnmss_sign` for the leaves `0, …, n - 1` in order. -/
def signRun (K : Prims) (msgs : Nat → Vector UInt8 k2snMsglen) (s : SignerState) :
    Nat → Option (List KsnmssSig × SignerState)
  | 0 => some ([], s)
  | n + 1 =>
      (signRun K msgs s n).bind fun p =>
        (ksnmssSign K p.2 n (msgs n)).map fun q => (p.1 ++ [q.1], q.2)

theorem signRun_zero (msgs : Nat → Vector UInt8 k2snMsglen) (s : SignerState) :
    signRun K msgs s 0 = some ([], s) := rfl

/-- Signing does not fail: it returns a signature with the current path and moves on. -/
theorem ksnmssSign_eq (s : SignerState) {id : Nat} (hid : id < usr)
    (ms : Vector UInt8 k2snMsglen) :
    ∃ sig, ksnmssSign K s id ms = some (sig, signAdvance K id s)
      ∧ ∀ h : Fin hlength, sig.auth[h] = s.auth h := by
  obtain ⟨keys, hkeys, -, -⟩ := cff_isSome ms
  unfold ksnmssSign
  rw [hkeys]
  simp only [Option.bind_eq_bind, Option.bind_some, if_pos hid]
  refine ⟨_, rfl, ?_⟩
  intro h
  simp

variable (K) in
/-- The signatures `0, 1, …` carry the paths of true nodes. -/
def TruePaths (sigs : List KsnmssSig) : Prop :=
  ∀ (id : Nat) (sig : KsnmssSig), sigs[id]? = some sig → ∀ h : Fin hlength,
    sig.auth[h] = trueNode K h ((id >>> h.val) ^^^ 1)

theorem TruePaths.concat {sigs : List KsnmssSig} {sig : KsnmssSig} (h : TruePaths K sigs)
    (hsig : ∀ g : Fin hlength, sig.auth[g] = trueNode K g ((sigs.length >>> g.val) ^^^ 1)) :
    TruePaths K (sigs ++ [sig]) := by
  intro id sig' hget
  rcases Nat.lt_or_ge id sigs.length with hlt | hge
  · rw [List.getElem?_append_left hlt] at hget
    exact h id sig' hget
  · rw [List.getElem?_append_right hge] at hget
    have hid : id = sigs.length := by
      have := (List.getElem?_eq_some_iff.mp hget).1
      rw [List.length_singleton] at this
      omega
    subst hid
    rw [Nat.sub_self, List.getElem?_cons_zero] at hget
    obtain rfl := Option.some.inj hget
    exact hsig

/-- The next signature of a run in order. -/
theorem signRun_succ {msgs : Nat → Vector UInt8 k2snMsglen} {s s' : SignerState} {n : Nat}
    {sigs : List KsnmssSig} (hn : n < usr) (hrun : signRun K msgs s n = some (sigs, s'))
    (hinv : TraversalInv K n s') (hlen : sigs.length = n) (htrue : TruePaths K sigs) :
    ∃ sig, signRun K msgs s (n + 1) = some (sigs ++ [sig], signAdvance K n s')
      ∧ (sigs ++ [sig]).length = n + 1 ∧ TruePaths K (sigs ++ [sig]) := by
  obtain ⟨sig, hsign, hauth⟩ := ksnmssSign_eq (K := K) s' hn (msgs n)
  refine ⟨sig, ?_, ?_, ?_⟩
  · rw [signRun, hrun, Option.bind_some, hsign, Option.map_some]
  · rw [List.length_append, hlen]
    rfl
  · refine htrue.concat fun g => ?_
    rw [hauth, hinv.auth _ g.isLt, sibling_eq_xor, hlen, Nat.shiftRight_eq_div_pow]

/-- **RUN**: before leaf `n` the run has succeeded, the invariant holds, and the signatures carry
    the true paths. -/
theorem signRun_spec (msgs : Nat → Vector UInt8 k2snMsglen) (s : SignerState) {n : Nat}
    (hn : n < usr) :
    ∃ sigs s', signRun K msgs (keyGeneration K s) n = some (sigs, s') ∧ TraversalInv K n s'
      ∧ sigs.length = n ∧ TruePaths K sigs := by
  induction n with
  | zero =>
      refine ⟨[], keyGeneration K s, signRun_zero msgs _, traversalInv_init s, rfl, ?_⟩
      intro id sig hget
      exact nomatch hget
  | succ n ih =>
      obtain ⟨sigs, s', hrun, hinv, hlen, htrue⟩ := ih (by omega)
      obtain ⟨sig, hrun', hlen', htrue'⟩ := signRun_succ (by omega) hrun hinv hlen htrue
      exact ⟨_, _, hrun', traversalInv_step hinv hn, hlen', htrue'⟩

/-- **THE TRAVERSAL**: after `key_generation` every run of signatures for the leaves `0, …, n`
    carries the true authentication paths of the tree whose root is the public key, and every
    instance popped on the way was complete, with the true right sibling of the next leaf. -/
theorem traversal (K : Prims) (msgs : Nat → Vector UInt8 k2snMsglen) (s : SignerState) (n : Nat)
    (hn : n < usr) :
    (keyGeneration K s).MSSPK = trueNode K hlength 0
      ∧ (∃ sigs s', signRun K msgs (keyGeneration K s) (n + 1) = some (sigs, s')
          ∧ sigs.length = n + 1 ∧ TruePaths K sigs)
      ∧ ∀ id, id ≤ n → ∃ sigs s', signRun K msgs (keyGeneration K s) id = some (sigs, s')
          ∧ ∀ j, j < signTau id → j < hlength - 2 →
              Done (s'.instances j)
                ∧ (id + 1 < usr →
                    (s'.instances j).v = trueNode K j (((id + 1) >>> j) ^^^ 1)) := by
  refine ⟨(keyGeneration_spec K s).1, ?_, ?_⟩
  · obtain ⟨sigs, s', hrun, hinv, hlen, htrue⟩ := signRun_spec (K := K) msgs s hn
    obtain ⟨sig, hrun', hlen', htrue'⟩ := signRun_succ hn hrun hinv hlen htrue
    exact ⟨_, _, hrun', hlen', htrue'⟩
  · intro id hid
    obtain ⟨sigs, s', hrun, hinv, -, -⟩ := signRun_spec (K := K) msgs s (n := id) (by omega)
    refine ⟨sigs, s', hrun, ?_⟩
    intro j hj hj'
    have hdvd := (dvd_iff_lt_tau (by omega)).mpr hj
    obtain ⟨hdone, hv⟩ := hinv.popped hj' hdvd
    refine ⟨hdone, fun hnext => ?_⟩
    rw [hv (target_lt_usr hnext (by omega) hdvd), ← sibling_of_dvd hdvd, sibling_eq_xor,
      Nat.shiftRight_eq_div_pow]

/-- The first two signatures with constant primitives. -/
theorem traversal_two_leaves :
    ∃ sigs s', signRun constPrims (fun _ => Vector.replicate k2snMsglen 0)
        (keyGeneration constPrims zeroSigner) (1 + 1) = some (sigs, s')
      ∧ sigs.length = 1 + 1 ∧ TruePaths constPrims sigs := by
  have h := traversal constPrims (fun _ => Vector.replicate k2snMsglen 0) zeroSigner 1 (by decide)
  exact h.2.1

end PqDtls.TraversalProofs
