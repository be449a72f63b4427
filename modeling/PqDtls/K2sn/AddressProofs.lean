import PqDtls.K2sn.TraversalProofs

/-! # The hash addresses of key generation

    `set_Key` derives a SWIFFT key from an address, an index and a height, so that
    no two hash computations share one.  The calls of a whole key generation are
    listed here, loop by loop; **`keyGeneration_congr`** says that nothing but these
    addresses is used.  The layers of an L-tree are numbered from 0, which is the
    height that the component keys are hashed at: these are the pairs of
    computations with one address, and the only ones. -/

namespace PqDtls.AddressProofs

open MerkleTree Ksnmss TraversalProofs

variable {K K' : Prims}

/-! ## The calls of `set_Key` -/

/-- A hash computation: the component keys of a one-time key, a node of an L-tree, or a
    node of the Merkle tree, by its own height and index. -/
inductive HashSite
  | components (id : Nat)
  | ltree (id layer i : Nat)
  | merkle (height i : Nat)
deriving DecidableEq, Repr

/-- A computation and the address it is made at. -/
structure HashCall where
  site : HashSite
  indx : Nat
  height : Nat

def HashCall.address (c : HashCall) : Nat × Nat := (c.indx, c.height)

/-- The calls of one loop of `create_L_tree`: the nodes from `lo` on. -/
def layerCalls (id layer idT lo n : Nat) : List HashCall :=
  (List.range n).map fun i => ⟨.ltree id layer (lo + i), idT + (lo + i), layer⟩

def upperCalls (id : Nat) : Nat → Nat → Nat → Nat → List HashCall
  | 0, _, _, _ => []
  | k + 1, idT, w, l1 =>
      layerCalls id l1 (idT / 2) 0 w ++ upperCalls id k (idT / 2) (w >>> 1) (l1 + 1)

/-- The calls of `create_L_tree`. -/
def lTreeCalls (id : Nat) : List HashCall :=
  let idT := (id <<< llength) % 2 ^ 32
  layerCalls id 0 idT 0 6 ++ (layerCalls id 1 (idT / 2) 0 3 ++ (layerCalls id 1 (idT / 2) 6 125 ++
    upperCalls id (llength - 2) (idT / 2) (1 <<< (llength - 3)) 2))

variable (K) in
/-- The calls of the `while` loop of `key_generation`. -/
def mergeCalls : List MssNode → MssNode → List HashCall
  | [], _ => []
  | t :: st, n =>
      if t.height = n.height then
        ⟨.merkle (n.height + 1) (n.indx / 2), n.indx / 2, n.height + llength + 1⟩ ::
          mergeCalls st ⟨hashPair K t.key n.key (n.indx / 2) (n.height + llength + 1),
            n.height + 1, n.indx / 2⟩
      else []

variable (K) in
/-- The calls for leaf `id`. -/
def leafCalls (s : SignerState) (id : Nat) : List HashCall :=
  ⟨.components id, id, 0⟩ ::
    (lTreeCalls id ++ mergeCalls K (keyGenerationLoop K s id).1 ⟨otsLeaf K id, 0, id⟩)

variable (K) in
/-- The calls of `key_generation` for the leaves below `n`. -/
def keyGenerationCalls (s : SignerState) (n : Nat) : List HashCall :=
  (List.range n).flatMap (leafCalls K s)

/-! ## Nothing else is used -/

/-- Two families of primitives with the same keys and pads at the addresses of `calls`. -/
structure AgreeOn (K K' : Prims) (calls : List HashCall) : Prop where
  SWIFFT : K'.SWIFFT = K.SWIFFT
  secret : K'.generateSecretKeyOTS = K.generateSecretKeyOTS
  keys : ∀ c ∈ calls, K'.setKey c.indx c.height = K.setKey c.indx c.height
  pads : ∀ c ∈ calls, K'.setRandomPad c.indx c.height = K.setRandomPad c.indx c.height

theorem AgreeOn.mono {calls calls' : List HashCall} (h : AgreeOn K K' calls)
    (hsub : calls' ⊆ calls) : AgreeOn K K' calls' :=
  ⟨h.SWIFFT, h.secret, fun c hc => h.keys c (hsub hc), fun c hc => h.pads c (hsub hc)⟩

theorem AgreeOn.left {calls calls' : List HashCall} (h : AgreeOn K K' (calls ++ calls')) :
    AgreeOn K K' calls := h.mono (List.subset_append_left _ _)

theorem AgreeOn.right {calls calls' : List HashCall} (h : AgreeOn K K' (calls ++ calls')) :
    AgreeOn K K' calls' := h.mono (List.subset_append_right _ _)

theorem AgreeOn.hashPair {calls : List HashCall} {c : HashCall} (h : AgreeOn K K' calls)
    (hc : c ∈ calls) (left right : Node) :
    hashPair K' left right c.indx c.height = hashPair K left right c.indx c.height := by
  rw [Ksnmss.hashPair, Ksnmss.hashPair, h.keys c hc, h.pads c hc, h.SWIFFT]

theorem mem_layerCalls {id layer idT lo n i : Nat} (hi : i ∈ List.range n) :
    ⟨.ltree id layer (lo + i), idT + (lo + i), layer⟩ ∈ layerCalls id layer idT lo n :=
  List.mem_map.mpr ⟨i, hi, rfl⟩

theorem hashComponents_congr {id idT height lo n : Nat}
    (h : AgreeOn K K' (layerCalls id height idT lo n)) (pk : Vector Node Cff.k2snT) (k : Nat)
    (a : Nat → Node) :
    hashComponents K' pk idT height lo n k a = hashComponents K pk idT height lo n k a := by
  unfold hashComponents
  refine List.foldl_ext _ _ _ fun b i hi => ?_
  rw [h.hashPair (mem_layerCalls hi)]

theorem hashLayer_congr {id idT height n : Nat}
    (h : AgreeOn K K' (layerCalls id height idT 0 n)) (a : Nat → Node) :
    hashLayer K' idT height n a = hashLayer K idT height n a := by
  unfold hashLayer
  refine List.foldl_ext _ _ _ fun b i hi => ?_
  have hc := @mem_layerCalls id height idT 0 _ _ hi
  rw [Nat.zero_add] at hc
  rw [h.hashPair hc]

theorem upperLayers_congr {id k idT w l1 : Nat} (h : AgreeOn K K' (upperCalls id k idT w l1))
    (a : Nat → Node) : upperLayers K' k idT w l1 a = upperLayers K k idT w l1 a := by
  induction k generalizing idT w l1 a with
  | zero => rfl
  | succ k ih =>
      rw [upperCalls] at h
      rw [upperLayers, upperLayers, hashLayer_congr h.left, ih h.right]

theorem createLTree_congr {id : Nat} (h : AgreeOn K K' (lTreeCalls id))
    (pk : Vector Node Cff.k2snT) : createLTree K' pk id = createLTree K pk id := by
  simp only [lTreeCalls] at h
  simp only [createLTree]
  rw [hashComponents_congr h.left, hashLayer_congr h.right.left,
    hashComponents_congr h.right.right.left, upperLayers_congr h.right.right.right]

theorem mergeLoop_congr {st : List MssNode} {n : MssNode} (h : AgreeOn K K' (mergeCalls K st n))
    (s : SignerState) : mergeLoop K' st n s = mergeLoop K st n s := by
  induction st generalizing n s with
  | nil => rfl
  | cons t st ih =>
      rw [mergeCalls] at h
      rw [mergeLoop, mergeLoop]
      by_cases hh : t.height = n.height
      · rw [if_pos hh] at h ⊢
        have hnode := h.hashPair List.mem_cons_self t.key n.key
        rw [if_pos hh, hnode]
        exact ih (h.mono (List.subset_cons_self _ _)) _
      · rw [if_neg hh, if_neg hh]

theorem otsLeaf_congr {id : Nat} (h : AgreeOn K K' (⟨.components id, id, 0⟩ :: lTreeCalls id)) :
    otsLeaf K' id = otsLeaf K id := by
  have key : K'.setKey id 0 = K.setKey id 0 := h.keys _ List.mem_cons_self
  have ots : otsPublicKey K' id = otsPublicKey K id := by
    rw [otsPublicKey, otsPublicKey, key, h.secret]
    simp only [generatePublicKeyOTS, h.SWIFFT]
  rw [otsLeaf, otsLeaf, ots, createLTree_congr (h.mono (List.subset_cons_self _ _))]

theorem leafCalls_eq (s : SignerState) (id : Nat) :
    leafCalls K s id = (⟨.components id, id, 0⟩ :: lTreeCalls id) ++
      mergeCalls K (keyGenerationLoop K s id).1 ⟨otsLeaf K id, 0, id⟩ := rfl

theorem keyGenerationCalls_succ (s : SignerState) (n : Nat) :
    keyGenerationCalls K s (n + 1) = keyGenerationCalls K s n ++ leafCalls K s n := by
  rw [keyGenerationCalls, List.range_succ, List.flatMap_append, List.flatMap_singleton]
  rfl

theorem keyGenerationLoop_congr {s : SignerState} {n : Nat}
    (h : AgreeOn K K' (keyGenerationCalls K s n)) :
    keyGenerationLoop K' s n = keyGenerationLoop K s n := by
  induction n with
  | zero => rw [keyGenerationLoop, keyGenerationLoop, List.range_zero, List.foldl_nil, List.foldl_nil]
  | succ n ih =>
      rw [keyGenerationCalls_succ] at h
      have leaf := h.right
      rw [leafCalls_eq] at leaf
      rw [keyGenerationLoop_succ, keyGenerationLoop_succ, ih h.left, keyGenerationLeaf,
        keyGenerationLeaf, otsLeaf_congr leaf.left, mergeLoop_congr leaf.right]

/-- **THE ADDRESSES USED**: key generation depends on the keys and pads at the addresses
    of its calls only. -/
theorem keyGeneration_congr {s : SignerState} (h : AgreeOn K K' (keyGenerationCalls K s usr)) :
    keyGeneration K' s = keyGeneration K s := by
  rw [keyGeneration, keyGeneration, keyGenerationLoop_congr h]

/-! ## The address of a computation -/

/-- The number of nodes in a layer of an L-tree. -/
def layerWidth : Nat → Nat
  | 0 => 6
  | 1 => 131
  | layer => 2 ^ 8 / 2 ^ layer

def HashSite.address : HashSite → Nat × Nat
  | .components id => (id, 0)
  | .ltree id layer i => (id * 2 ^ (llength - layer) + i, layer)
  | .merkle height i => (i, height + llength)

/-- The computation is one of key generation. -/
def HashSite.Valid : HashSite → Prop
  | .components id => id < usr
  | .ltree id layer i => id < usr ∧ layer ≤ 8 ∧ i < layerWidth layer
  | .merkle height _ => 0 < height

/-- The leaf with which the computation is made. -/
def HashSite.leaf : HashSite → Nat
  | .components id => id
  | .ltree id _ _ => id
  | .merkle height i => (i + 1) * 2 ^ height - 1

/-- Two computations at one address: a node of layer 0 of an L-tree, and the components
    of the one-time key that has its index. -/
def Overlap : HashSite → HashSite → Prop
  | .components id', .ltree id layer i => layer = 0 ∧ id' = id * 2 ^ llength + i
  | .ltree id layer i, .components id' => layer = 0 ∧ id' = id * 2 ^ llength + i
  | _, _ => False

/-- The nodes of a layer are numbered below the power of two that separates the trees. -/
theorem layerWidth_le {layer : Nat} (h : layer ≤ 8) : layerWidth layer ≤ 2 ^ (llength - layer) := by
  have all : ∀ l < 9, layerWidth l ≤ 2 ^ (llength - l) := by decide
  exact all layer (Nat.lt_succ_of_le h)

theorem mul_add_inj {a b i j n : Nat} (hi : i < n) (hj : j < n) (h : a * n + i = b * n + j) :
    a = b ∧ i = j := by
  have hdiv := congrArg (· / n) h
  have hmod := congrArg (· % n) h
  simp only [Nat.mul_comm _ n, Nat.mul_add_div (Nat.zero_lt_of_lt hi), Nat.mul_add_mod,
    Nat.div_eq_of_lt hi, Nat.div_eq_of_lt hj, Nat.mod_eq_of_lt hi, Nat.mod_eq_of_lt hj,
    Nat.add_zero] at hdiv hmod
  exact ⟨hdiv, hmod⟩

/-- **SEPARATION**: two computations have one address only if they overlap. -/
theorem address_eq_iff {x y : HashSite} (hx : x.Valid) (hy : y.Valid) (hne : x ≠ y) :
    x.address = y.address ↔ Overlap x y := by
  have hl : llength = 9 := rfl
  cases x with
  | components id =>
      cases y with
      | components id' =>
          refine ⟨fun h => hne ?_, False.elim⟩
          rw [(Prod.mk.inj h).1]
      | ltree id' layer i =>
          constructor
          · intro h
            obtain ⟨hindx, rfl⟩ := Prod.mk.inj h
            exact ⟨rfl, hindx⟩
          · rintro ⟨rfl, rfl⟩
            rfl
      | merkle height i =>
          refine ⟨fun h => ?_, False.elim⟩
          have := (Prod.mk.inj h).2
          omega
  | ltree id layer i =>
      obtain ⟨-, hlayer, hi⟩ := hx
      cases y with
      | components id' =>
          constructor
          · intro h
            obtain ⟨hindx, rfl⟩ := Prod.mk.inj h
            exact ⟨rfl, hindx.symm⟩
          · rintro ⟨rfl, rfl⟩
            rfl
      | ltree id' layer' i' =>
          obtain ⟨-, -, hi'⟩ := hy
          refine ⟨fun h => hne ?_, False.elim⟩
          obtain ⟨hindx, rfl⟩ := Prod.mk.inj h
          have hw := layerWidth_le hlayer
          obtain ⟨rfl, rfl⟩ := mul_add_inj (by omega) (by omega) hindx
          rfl
      | merkle height i' =>
          refine ⟨fun h => ?_, False.elim⟩
          have hheight : 0 < height := hy
          have := (Prod.mk.inj h).2
          omega
  | merkle height i =>
      cases y with
      | components id =>
          refine ⟨fun h => ?_, False.elim⟩
          have := (Prod.mk.inj h).2
          omega
      | ltree id layer i' =>
          obtain ⟨-, hlayer, -⟩ := hy
          refine ⟨fun h => ?_, False.elim⟩
          have hheight : 0 < height := hx
          have := (Prod.mk.inj h).2
          omega
      | merkle height' i' =>
          refine ⟨fun h => hne ?_, False.elim⟩
          obtain ⟨rfl, hheight⟩ := Prod.mk.inj h
          rw [Nat.add_right_cancel hheight]

/-! ## Every call is made at the address of its computation -/

/-- The order of the computations of one leaf. -/
def HashSite.rank : HashSite → Nat
  | .components _ => 0
  | .ltree _ layer i => 2 ^ 8 * (layer + 1) + i
  | .merkle height _ => 2 ^ 16 + height

/-- A call for leaf `id`, made at the address of its computation. -/
structure HashCall.Sound (c : HashCall) (id : Nat) : Prop where
  address : c.address = c.site.address
  valid : c.site.Valid
  leaf : c.site.leaf = id

/-- Calls for leaf `id`, in the order of their computations from rank `lo` on, all below `hi`. -/
structure Ordered (id lo hi : Nat) (calls : List HashCall) : Prop where
  sound : ∀ c ∈ calls, c.Sound id
  order : calls.Pairwise fun c d => c.site.rank < d.site.rank
  bounds : ∀ c ∈ calls, lo ≤ c.site.rank ∧ c.site.rank < hi

theorem Ordered.append {id lo mid mid' hi : Nat} {calls calls' : List HashCall}
    (h : Ordered id lo mid calls) (h' : Ordered id mid' hi calls') (hmid : mid ≤ mid')
    (hlo : lo ≤ mid') (hhi : mid ≤ hi) : Ordered id lo hi (calls ++ calls') := by
  refine ⟨?_, ?_, ?_⟩
  · intro c hc
    exact (List.mem_append.mp hc).elim (h.sound c) (h'.sound c)
  · refine List.pairwise_append.mpr ⟨h.order, h'.order, fun c hc d hd => ?_⟩
    have := (h.bounds c hc).2
    have := (h'.bounds d hd).1
    omega
  · intro c hc
    rcases List.mem_append.mp hc with hc | hc
    · have := h.bounds c hc
      omega
    · have := h'.bounds c hc
      omega

theorem Ordered.mono {id lo hi hi' : Nat} {calls : List HashCall} (h : Ordered id lo hi calls)
    (hle : hi ≤ hi') : Ordered id lo hi' calls :=
  ⟨h.sound, h.order, fun c hc => ⟨(h.bounds c hc).1, (h.bounds c hc).2.trans_le hle⟩⟩

theorem ordered_layerCalls {id layer idT lo n : Nat} (hid : id < usr)
    (hidT : idT = id * 2 ^ (llength - layer)) (hlayer : layer ≤ 8)
    (hn : lo + n ≤ layerWidth layer) :
    Ordered id (2 ^ 8 * (layer + 1) + lo) (2 ^ 8 * (layer + 1) + (lo + n))
      (layerCalls id layer idT lo n) := by
  refine ⟨?_, ?_, ?_⟩
  · intro c hc
    obtain ⟨i, hi, rfl⟩ := List.mem_map.mp hc
    have hi' := List.mem_range.mp hi
    refine ⟨?_, ⟨hid, hlayer, by omega⟩, rfl⟩
    show (idT + (lo + i), layer) = _
    rw [hidT]
    rfl
  · refine List.pairwise_map.mpr (List.pairwise_lt_range.imp fun hij => ?_)
    simp only [HashSite.rank]
    omega
  · intro c hc
    obtain ⟨i, hi, rfl⟩ := List.mem_map.mp hc
    have hi' := List.mem_range.mp hi
    simp only [HashSite.rank]
    omega

theorem ordered_nil (id lo hi : Nat) : Ordered id lo hi [] :=
  ⟨List.forall_mem_nil _, .nil, List.forall_mem_nil _⟩

theorem ordered_upperCalls {id k idT w l1 : Nat} (hid : id < usr) (hk : l1 + k = 9)
    (hl1 : 2 ≤ l1) (hidT : idT = id * 2 ^ (llength + 1 - l1)) (hw : w = 2 ^ 8 / 2 ^ l1) :
    Ordered id (2 ^ 8 * (l1 + 1)) (2 ^ 8 * 11) (upperCalls id k idT w l1) := by
  induction k generalizing idT w l1 with
  | zero => exact ordered_nil _ _ _
  | succ k ih =>
      have hl : llength = 9 := rfl
      have half : idT / 2 = id * 2 ^ (llength - l1) := by
        have hexp : llength + 1 - l1 = llength - l1 + 1 := by omega
        rw [hidT, hexp, pow_succ, ← Nat.mul_assoc, Nat.mul_div_cancel _ Nat.two_pos]
      have width : layerWidth l1 = w := by
        obtain ⟨l, rfl⟩ := Nat.exists_eq_add_of_le' hl1
        rw [hw]
        rfl
      have small : w ≤ 2 ^ 8 := by
        rw [hw]
        exact Nat.div_le_self _ _
      have layer := @ordered_layerCalls _ _ _ 0 w hid half (by omega) (by omega)
      have rest := @ih (idT / 2) (w >>> 1) (l1 + 1) (by omega) (by omega)
        (by rw [half]; congr 2; omega)
        (by rw [Nat.shiftRight_one, hw, Nat.div_div_eq_div_mul, ← pow_succ])
      rw [upperCalls]
      exact layer.append rest (by omega) (by omega) (by omega)

theorem ordered_lTreeCalls {id : Nat} (hid : id < usr) :
    Ordered id (2 ^ 8) (2 ^ 8 * 11) (lTreeCalls id) := by
  have hl : llength = 9 := rfl
  have hidT : (id <<< llength) % 2 ^ 32 = id * 2 ^ llength := by
    have husr : usr = 1048576 := rfl
    rw [Nat.shiftLeft_eq, Nat.mod_eq_of_lt (by rw [hl]; omega)]
  have half : id * 2 ^ llength / 2 = id * 2 ^ (llength - 1) := by
    rw [hl]
    omega
  simp only [lTreeCalls, hidT, half]
  have bottom := @ordered_layerCalls id 0 (id * 2 ^ llength) 0 6 hid rfl
    (by decide) (by decide)
  have first := @ordered_layerCalls id 1 (id * 2 ^ (llength - 1)) 0 3 hid rfl
    (by decide) (by decide)
  have second := @ordered_layerCalls id 1 (id * 2 ^ (llength - 1)) 6 125 hid rfl
    (by decide) (by decide)
  have upper := @ordered_upperCalls id (llength - 2) (id * 2 ^ (llength - 1))
    (1 <<< (llength - 3)) 2 hid rfl (le_refl 2) rfl (by decide)
  exact bottom.append (first.append (second.append upper (by decide) (by decide) (by decide))
    (by decide) (by decide) (by decide)) (by decide) (by decide) (by decide)

/-- The nodes that a leaf completes lie on its path to the root. -/
theorem ordered_mergeCalls {lo id : Nat} {st : List MssNode} {n : MssNode}
    (hst : Covers (otsLeaf K) (parent K) lo (n.indx * 2 ^ n.height) st)
    (hn : n.True (otsLeaf K) (parent K)) (hend : (n.indx + 1) * 2 ^ n.height = id + 1) :
    ∃ hi, Ordered id (2 ^ 16 + n.height + 1) hi (mergeCalls K st n) := by
  induction st generalizing n with
  | nil => exact ⟨0, ordered_nil _ _ _⟩
  | cons t st ih =>
      rw [mergeCalls]
      by_cases hh : t.height = n.height
      · rw [if_pos hh]
        obtain ⟨htrue, hspan, hrest⟩ := hst.merged hn hh
        obtain ⟨hi, rest⟩ := ih (n := ⟨_, n.height + 1, n.indx / 2⟩) hrest htrue
          (hspan.trans hend)
        have first : Ordered id (2 ^ 16 + n.height + 1) (2 ^ 16 + n.height + 2)
            [⟨.merkle (n.height + 1) (n.indx / 2), n.indx / 2, n.height + llength + 1⟩] := by
          refine ⟨?_, List.pairwise_singleton _ _, ?_⟩
          · intro c hc
            rw [List.mem_singleton.mp hc]
            refine ⟨?_, Nat.succ_pos _, ?_⟩
            · show (n.indx / 2, n.height + llength + 1) = (n.indx / 2, n.height + 1 + llength)
              rw [Nat.add_right_comm]
            · show (n.indx / 2 + 1) * 2 ^ (n.height + 1) - 1 = id
              rw [hspan, hend, Nat.add_sub_cancel]
          · intro c hc
            rw [List.mem_singleton.mp hc]
            simp only [HashSite.rank]
            omega
        exact ⟨_, first.append (rest.mono (le_max_left hi (2 ^ 16 + n.height + 2))) (le_refl _)
          (Nat.le_succ _) (le_max_right _ _)⟩
      · rw [if_neg hh]
        exact ⟨0, ordered_nil _ _ _⟩

/-- The calls for one leaf. -/
theorem ordered_leafCalls (s : SignerState) {id : Nat} (hid : id < usr) :
    ∃ hi, Ordered id 0 hi (leafCalls K s id) := by
  have hstack := (keyGenerationLoop_spec K s (usr_eq ▸ hid)).1
  have hleaf : Entry.True (otsLeaf K) (parent K) ⟨otsLeaf K id, 0, id⟩ := rfl
  obtain ⟨hi, merged⟩ := @ordered_mergeCalls _ _ id _ ⟨otsLeaf K id, 0, id⟩
    (by simpa using hstack) hleaf (by simp)
  have components : Ordered id 0 1 [⟨.components id, id, 0⟩] := by
    refine ⟨?_, List.pairwise_singleton _ _, ?_⟩
    · intro c hc
      rw [List.mem_singleton.mp hc]
      exact ⟨rfl, hid, rfl⟩
    · intro c hc
      rw [List.mem_singleton.mp hc]
      exact ⟨le_refl 0, Nat.one_pos⟩
  have tree := ordered_lTreeCalls hid
  have upper : Ordered id (2 ^ 16 + 1) (max hi (2 ^ 16)) _ := merged.mono (le_max_left _ _)
  have last : 2 ^ 16 ≤ max hi (2 ^ 16) := le_max_right _ _
  have rest := tree.append upper (by decide) (by decide) (le_trans (by decide) last)
  exact ⟨_, components.append rest (by decide) (Nat.zero_le _) (le_trans (by decide) last)⟩

/-- Calls for different leaves are different computations, and so are two calls for one. -/
theorem sites_ne (s : SignerState) :
    (keyGenerationCalls K s usr).Pairwise fun c d => c.site ≠ d.site := by
  refine List.pairwise_flatMap.mpr ⟨fun id hid => ?_, List.pairwise_lt_range.imp_of_mem ?_⟩
  · obtain ⟨hi, leaf⟩ := ordered_leafCalls (K := K) s (List.mem_range.mp hid)
    exact leaf.order.imp fun hlt heq => absurd (heq ▸ hlt) (lt_irrefl _)
  · intro id id' hid hid' hlt c hc d hd heq
    obtain ⟨hi, leaf⟩ := ordered_leafCalls (K := K) s (List.mem_range.mp hid)
    obtain ⟨hi', leaf'⟩ := ordered_leafCalls (K := K) s (List.mem_range.mp hid')
    have := (leaf.sound c hc).leaf
    rw [heq, (leaf'.sound d hd).leaf] at this
    omega

/-- Every call of key generation is made at the address of its computation. -/
theorem keyGenerationCalls_sound (s : SignerState) {c : HashCall}
    (hc : c ∈ keyGenerationCalls K s usr) : c.address = c.site.address ∧ c.site.Valid := by
  obtain ⟨id, hid, hc⟩ := List.mem_flatMap.mp hc
  obtain ⟨hi, leaf⟩ := ordered_leafCalls (K := K) s (List.mem_range.mp hid)
  exact ⟨(leaf.sound c hc).address, (leaf.sound c hc).valid⟩

/-- **ADDRESS SEPARATION**: of the computations of key generation, all different, two have
    different addresses exactly when they are not a node of layer 0 and the components of
    the one-time key with its index. -/
theorem addresses_separated (K : Prims) (s : SignerState) :
    (keyGenerationCalls K s usr).Pairwise fun c d =>
      c.site ≠ d.site ∧ (c.address ≠ d.address ↔ ¬ Overlap c.site d.site) := by
  refine (sites_ne s).imp_of_mem fun hc hd hne => ⟨hne, ?_⟩
  obtain ⟨hca, hcv⟩ := keyGenerationCalls_sound s hc
  obtain ⟨hda, hdv⟩ := keyGenerationCalls_sound s hd
  rw [hca, hda, Ne, address_eq_iff hcv hdv hne]

/-- The components of the first one-time key and the first node of its L-tree share a key. -/
theorem addresses_shared :
    ¬ ∀ (K : Prims) (s : SignerState),
        (keyGenerationCalls K s usr).Pairwise fun c d => c.address ≠ d.address := by
  intro h
  have first := h constPrims zeroSigner
  obtain ⟨m, hm⟩ : ∃ m, usr = m + 1 := ⟨_, rfl⟩
  rw [keyGenerationCalls, hm, List.range_succ_eq_map, List.flatMap_cons, leafCalls, lTreeCalls,
    layerCalls, List.range_succ_eq_map] at first
  have distinct := (List.pairwise_cons.mp first).1 ⟨.ltree 0 0 0, 0, 0⟩ (by simp)
  exact distinct rfl

end PqDtls.AddressProofs
