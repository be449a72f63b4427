import PqDtls.K2sn.Ksnmss
import Mathlib.Tactic.Ring

/-! # The shape of the L-tree

    `create_L_tree` computes nine layers in one array, with three loops that place
    their nodes at different offsets.  The tree those layers are meant to be is the
    inductive `LTree`, a free term over the 262 component keys, so that a node that
    were dropped, repeated or overwritten too early would show in it.

    **`createLTree_shape`**: the code returns the root of that tree, for every hash
    of a pair, every contents of the array before the first loop and every one-time
    key; the tree has the component keys as its leaves, each once and in order. -/

namespace PqDtls.LTreeProofs

open Cff MerkleTree Ksnmss

/-- A tree over the component keys; a node carries the address it is hashed at. -/
inductive LTree
  | component (i : Nat)
  | pair (left right : LTree) (indx height : Nat)

namespace LTree

variable {N : Type} (hash : N → N → Nat → Nat → N) (pk : Nat → N)

/-- The value of the tree's root. -/
def root : LTree → N
  | component i => pk i
  | pair left right indx height => hash left.root right.root indx height

/-- The component keys of the tree, from left to right. -/
def components : LTree → List Nat
  | component i => [i]
  | pair left right _ _ => left.components ++ right.components

/-- The nodes hashed at `layer`, from left to right. -/
def layer (layer : Nat) : LTree → List LTree
  | component _ => []
  | pair left right indx height =>
      if height = layer then [pair left right indx height]
      else left.layer layer ++ right.layer layer

end LTree

/-- The pair `y_2i`, `y_2i+1` of component keys. -/
def componentPair (i indx height : Nat) : LTree :=
  .pair (.component (2 * i)) (.component (2 * i + 1)) indx height

/-- Node `i` of a layer of the L-tree of one-time key `id`.  Six pairs of component keys stand
    below three nodes of layer 1; the other nodes of layer 1 are pairs themselves, addressed by
    the number of the pair. -/
def layerNode (id : Nat) : Nat → Nat → LTree
  | 0, i => componentPair i (id * 2 ^ 9 + i) 0
  | 1, i =>
      if i < 3 then .pair (layerNode id 0 (2 * i)) (layerNode id 0 (2 * i + 1)) (id * 2 ^ 8 + i) 1
      else componentPair (i + 3) (id * 2 ^ 8 + (i + 3)) 1
  | h + 2, i =>
      .pair (layerNode id (h + 1) (2 * i)) (layerNode id (h + 1) (2 * i + 1))
        (id * 2 ^ (7 - h) + i) (h + 2)

theorem layerNode_low (id : Nat) {i : Nat} (hi : i < 3) :
    layerNode id 1 i
      = .pair (layerNode id 0 (2 * i)) (layerNode id 0 (2 * i + 1)) (id * 2 ^ 8 + i) 1 :=
  if_pos hi

theorem layerNode_high (id : Nat) {i : Nat} (hi : ¬ i < 3) :
    layerNode id 1 i = componentPair (i + 3) (id * 2 ^ 8 + (i + 3)) 1 :=
  if_neg hi

/-- The number of nodes of a layer. -/
def layerSize : Nat → Nat
  | 0 => 6
  | h + 1 => 2 ^ (7 - h)

/-! ## The code over an arbitrary hash -/

section Code

variable {N : Type} (hash : N → N → Nat → Nat → N) (pk : Nat → N)

/-- A loop over pairs of component keys. -/
def componentsOf (idT height lo n k : Nat) (internalNode : Nat → N) : Nat → N :=
  fill (fun i => hash (pk (2 * (lo + i))) (pk (2 * (lo + i) + 1)) (idT + (lo + i)) height) k n
    internalNode

/-- A loop over pairs of `internal_node`. -/
def layerOf (idT height n : Nat) (internalNode : Nat → N) : Nat → N :=
  halve (fun i left right => hash left right (idT + i) height) n internalNode

/-- The loop over the upper layers. -/
def upperOf : Nat → Nat → Nat → Nat → (Nat → N) → Nat → N
  | 0, _, _, _, a => a
  | k + 1, idT, w, l1, a =>
      upperOf k (idT / 2) (w >>> 1) (l1 + 1) (layerOf hash (idT / 2) l1 w a)

/-- `create_L_tree` over `hash`, with `internalNode` in the array before the first loop. -/
def createLTreeOf (internalNode : Nat → N) (id : Nat) : N :=
  let idT := (id <<< llength) % 2 ^ 32
  let a := componentsOf hash pk idT 0 0 6 0 internalNode
  let a := layerOf hash (idT / 2) 1 3 a
  let a := componentsOf hash pk (idT / 2) 1 6 125 3 a
  upperOf hash (llength - 2) (idT / 2) (1 <<< (llength - 3)) 2 a 0

end Code

theorem upperLayers_eq (K : Prims) (k idT w l1 : Nat) (a : Nat → Node) :
    upperLayers K k idT w l1 a = upperOf (hashPair K) k idT w l1 a := by
  induction k generalizing idT w l1 a with
  | zero => rfl
  | succ k ih => exact ih _ _ _ _

/-- The model's `create_L_tree` is the code over its own hash. -/
theorem createLTree_eq (K : Prims) (pk : Vector Node k2snT) (id : Nat) :
    createLTree K pk id = createLTreeOf (hashPair K) (fun i => pk[i]!)
      (fun _ => Vector.replicate pklen 0) id :=
  congrFun (upperLayers_eq K _ _ _ _ _) 0

/-! ## Layer by layer -/

section Layers

variable {N : Type} {hash : N → N → Nat → Nat → N} {pk : Nat → N} {id : Nat}

/-- The first loop leaves layer 0. -/
theorem componentsOf_zero (a : Nat → N) {j : Nat} (hj : j < 6) :
    componentsOf hash pk (id * 2 ^ 9) 0 0 6 0 a j = (layerNode id 0 j).root hash pk := by
  rw [componentsOf, fill_apply, if_pos (by omega)]
  simp only [Nat.zero_add, Nat.sub_zero]
  rfl

/-- The second and the third loop leave layer 1. -/
theorem layer_one {a : Nat → N} (ha : ∀ j < 6, a j = (layerNode id 0 j).root hash pk) {j : Nat}
    (hj : j < 2 ^ 7) :
    componentsOf hash pk (id * 2 ^ 8) 1 6 125 3 (layerOf hash (id * 2 ^ 8) 1 3 a) j
      = (layerNode id 1 j).root hash pk := by
  rw [componentsOf, fill_apply]
  by_cases hlow : j < 3
  · rw [if_neg (by omega), layerOf, halve_apply, if_pos hlow, ha _ (by omega), ha _ (by omega),
      layerNode_low id hlow, LTree.root]
  · have hpair : 6 + (j - 3) = j + 3 := by omega
    rw [if_pos (by omega), layerNode_high id hlow, hpair]
    rfl

/-- A loop over one upper layer leaves the next one. -/
theorem layerOf_succ {h w : Nat} {a : Nat → N}
    (ha : ∀ j < 2 * w, a j = (layerNode id (h + 1) j).root hash pk) {j : Nat} (hj : j < w) :
    layerOf hash (id * 2 ^ (7 - h)) (h + 2) w a j = (layerNode id (h + 2) j).root hash pk := by
  rw [layerOf, halve_apply, if_pos hj, ha _ (by omega), ha _ (by omega)]
  rfl

/-- **THE UPPER LAYERS** end with the root: each pass halves the layer. -/
theorem upperOf_root {k h w : Nat} (hk : k + h = 7) (hw : k ≠ 0 → w = 2 ^ (k - 1)) {a : Nat → N}
    (ha : ∀ j < 2 ^ k, a j = (layerNode id (h + 1) j).root hash pk) :
    upperOf hash k (id * 2 ^ (k + 1)) w (h + 2) a 0 = (layerNode id 8 0).root hash pk := by
  induction k generalizing h w a with
  | zero =>
      obtain rfl : h = 7 := by omega
      exact ha 0 Nat.one_pos
  | succ k ih =>
      obtain rfl : w = 2 ^ k := hw (Nat.succ_ne_zero k)
      have hidT : id * 2 ^ (k + 1 + 1) / 2 = id * 2 ^ (k + 1) := by
        rw [pow_succ, ← Nat.mul_assoc, Nat.mul_div_cancel _ Nat.two_pos]
      have hexp : k + 1 = 7 - h := by omega
      rw [upperOf, hidT]
      refine ih (by omega) ?_ ?_
      · intro hk0
        obtain ⟨k', rfl⟩ := Nat.exists_eq_succ_of_ne_zero hk0
        rw [Nat.shiftRight_one, Nat.pow_succ, Nat.mul_div_cancel _ Nat.two_pos,
          Nat.succ_sub_one]
      · intro j hj
        rw [hexp]
        refine layerOf_succ ?_ hj
        intro i hi
        exact ha i (by rw [pow_succ]; omega)

/-- **THE CODE RETURNS THE ROOT** of the tree of its comment. -/
theorem createLTreeOf_root (hash : N → N → Nat → Nat → N) (pk internalNode : Nat → N)
    (hid : id < usr) :
    createLTreeOf hash pk internalNode id = (layerNode id 8 0).root hash pk := by
  have hidT : (id <<< llength) % 2 ^ 32 = id * 2 ^ 9 := by
    have hsize : usr = 2 ^ 20 := rfl
    have hllength : llength = 9 := rfl
    rw [Nat.shiftLeft_eq, hllength]
    omega
  have hhalf : id * 2 ^ 9 / 2 = id * 2 ^ 8 := by omega
  unfold createLTreeOf
  simp only [hidT, hhalf]
  exact upperOf_root (k := 7) (h := 0) rfl (fun _ => rfl)
    (fun j hj => layer_one (fun i hi => componentsOf_zero _ hi) hj)

end Layers

/-! ## The tree -/

/-- A term evaluated in the free algebra is itself. -/
theorem root_pair (t : LTree) : t.root .pair .component = t := by
  induction t with
  | component i => rfl
  | pair left right indx height ihl ihr => rw [LTree.root, ihl, ihr]

/-- The `2 ^ d` blocks below node `i`, `d` layers up. -/
def blocks {α : Type} (f : Nat → List α) (d i : Nat) : List α :=
  (List.range (2 ^ d)).flatMap fun j => f (i * 2 ^ d + j)

theorem blocks_succ {α : Type} (f : Nat → List α) (d i : Nat) :
    blocks f (d + 1) i = blocks f d (2 * i) ++ blocks f d (2 * i + 1) := by
  have hleft : i * 2 ^ (d + 1) = 2 * i * 2 ^ d := by
    rw [pow_succ]
    ring
  have hright : ∀ j, 2 * i * 2 ^ d + (2 ^ d + j) = (2 * i + 1) * 2 ^ d + j := by
    intro j
    ring
  unfold blocks
  simp only [hleft]
  simp only [pow_succ, Nat.mul_two, List.range_add, List.flatMap_append, List.flatMap_map, hright]

/-- What splits at every node above layer `m + 1` is collected from the nodes of that layer. -/
theorem collect_layerNode {α : Type} {c : LTree → List α} {m : Nat}
    (hc : ∀ left right indx height, m + 1 < height →
      c (.pair left right indx height) = c left ++ c right) (id d i : Nat) :
    c (layerNode id (m + 1 + d) i) = blocks (fun j => c (layerNode id (m + 1) j)) d i := by
  induction d generalizing i with
  | zero => simp [blocks]
  | succ d ih =>
      have hnode : layerNode id (m + 1 + (d + 1)) i
          = .pair (layerNode id (m + 1 + d) (2 * i)) (layerNode id (m + 1 + d) (2 * i + 1))
              (id * 2 ^ (7 - (m + d)) + i) (m + 1 + (d + 1)) := by
        have hheight : m + 1 + (d + 1) = m + d + 2 := by omega
        have hbelow : m + 1 + d = m + d + 1 := by omega
        rw [hheight, hbelow, layerNode]
      rw [hnode, hc _ _ _ _ (by omega), ih, ih, blocks_succ]

/-- The component keys below a node of layer 1. -/
def lowComponents (i : Nat) : List Nat :=
  if i < 3 then [4 * i, 4 * i + 1, 4 * i + 2, 4 * i + 3] else [2 * (i + 3), 2 * (i + 3) + 1]

theorem components_one (id i : Nat) : (layerNode id 1 i).components = lowComponents i := by
  rw [lowComponents]
  by_cases hi : i < 3
  · rw [layerNode_low id hi, if_pos hi]
    simp only [layerNode, componentPair, LTree.components, List.cons_append, List.nil_append,
      List.cons.injEq, and_true]
    omega
  · rw [layerNode_high id hi, if_neg hi]
    rfl

/-- **EVERY COMPONENT KEY ONCE**, and in order. -/
theorem components_root (id : Nat) : (layerNode id 8 0).components = List.range k2snT := by
  have hsplit : (layerNode id 8 0).components
      = blocks (fun j => (layerNode id 1 j).components) 7 0 :=
    collect_layerNode (fun _ _ _ _ _ => rfl) id 7 0
  simp only [components_one] at hsplit
  have hlist : blocks lowComponents 7 0 = List.range k2snT := by decide +kernel
  exact hsplit.trans hlist

theorem layer_self (id l i : Nat) : (layerNode id l i).layer l = [layerNode id l i] := by
  rcases l with _ | _ | h
  · rfl
  · by_cases hi : i < 3
    · rw [layerNode_low id hi, LTree.layer, if_pos rfl]
    · rw [layerNode_high id hi, componentPair, LTree.layer, if_pos rfl]
  · rw [layerNode, LTree.layer, if_pos rfl]

/-- A node of layer 1 has its two nodes of layer 0, or none. -/
theorem layer_zero (id i : Nat) :
    (layerNode id 1 i).layer 0
      = if i < 3 then [layerNode id 0 (2 * i), layerNode id 0 (2 * i + 1)] else [] := by
  by_cases hi : i < 3
  · rw [layerNode_low id hi, if_pos hi]
    rfl
  · rw [layerNode_high id hi, if_neg hi]
    rfl

/-- **THE LAYERS** have 6, 128, 64, … nodes down to the root. -/
theorem layer_root (id : Nat) {l : Nat} (hl : l ≤ 8) :
    (layerNode id 8 0).layer l = (List.range (layerSize l)).map (layerNode id l) := by
  have hsplit : ∀ m, l ≤ m + 1 → ∀ left right indx height, m + 1 < height →
      (LTree.pair left right indx height).layer l = left.layer l ++ right.layer l := by
    intro m hm left right indx height hlt
    rw [LTree.layer, if_neg (by omega)]
  cases l with
  | zero =>
      have hnodes : (layerNode id 8 0).layer 0
          = blocks (fun j => (layerNode id 1 j).layer 0) 7 0 :=
        collect_layerNode (hsplit 0 (by omega)) id 7 0
      simp only [layer_zero] at hnodes
      exact hnodes
  | succ m =>
      obtain ⟨d, hd⟩ := Nat.exists_eq_add_of_le hl
      have hnodes := collect_layerNode (hsplit m le_rfl) id d 0
      have hsize : 7 - m = d := by omega
      simp only [layer_self, blocks, Nat.zero_mul, Nat.zero_add] at hnodes
      rw [← hd, ← List.map_eq_flatMap] at hnodes
      rw [hnodes, layerSize, hsize]

/-- **THE L-TREE** has the shape its comment gives: the code returns the root, whatever the hash
    of a pair and the array before the first loop are; the component keys are its leaves, each
    once and in order; its layers halve; and both entries of a pair are still those of the layer
    below when the pair is hashed. -/
theorem createLTree_shape {N : Type} (hash : N → N → Nat → Nat → N) (pk internalNode : Nat → N)
    {id : Nat} (hid : id < usr) :
    createLTreeOf hash pk internalNode id = (layerNode id 8 0).root hash pk
      ∧ (layerNode id 8 0).components = List.range k2snT
      ∧ (∀ l ≤ 8, (layerNode id 8 0).layer l = (List.range (layerSize l)).map (layerNode id l))
      ∧ (∀ (idT height i : Nat) (a : Nat → N),
          layerOf hash idT height i a (2 * i) = a (2 * i)
            ∧ layerOf hash idT height i a (2 * i + 1) = a (2 * i + 1))
      ∧ ∀ (K : Prims) (keys : Vector Node k2snT),
          createLTree K keys id = (layerNode id 8 0).root (hashPair K) (fun i => keys[i]!) := by
  refine ⟨createLTreeOf_root hash pk internalNode hid, components_root id,
    fun l hl => layer_root id hl, ?_, ?_⟩
  · intro idT height i a
    rw [layerOf, halve_apply, halve_apply, if_neg (by omega), if_neg (by omega)]
    exact ⟨rfl, rfl⟩
  · intro K keys
    rw [createLTree_eq]
    exact createLTreeOf_root _ _ _ hid

/-- In the free algebra the code of the first one-time key returns the tree itself. -/
theorem createLTree_shape_free :
    createLTreeOf LTree.pair LTree.component (fun _ => .component 0) 0 = layerNode 0 8 0 := by
  have hshape := createLTree_shape LTree.pair LTree.component (fun _ => .component 0)
    (by decide : 0 < usr)
  rw [hshape.1, root_pair]

end PqDtls.LTreeProofs
