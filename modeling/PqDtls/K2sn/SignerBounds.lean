import PqDtls.K2sn.TraversalProofs

/-! # The array accesses of the signer

    `ksnmss_sign` indexes `auth`, `keep`, `instance` and the treestacks with the
    height `tau` of the block that ends with the leaf and with the tops of the
    stacks.  The accesses are listed here in the order of the code, beside the
    functions of the model that make them.

    Two of them leave their arrays: for the last leaf `tau` is `hlength`, and step 4
    reads `keep[hlength - 1]` and writes `auth[hlength]`.  Step 2 guards its own use
    of `keep[tau]` against this leaf; step 4 does not.  **`accesses_inBounds_iff`**:
    a run stays inside the arrays if and only if it stops before that leaf. -/

namespace PqDtls.SignerBounds

open MerkleTree Ksnmss TraversalProofs

/-- An access to one of the signer's arrays. -/
inductive Access
  | auth (i : Nat)
  | keep (i : Nat)
  | instances (i : Nat)
  | treestack (i top : Nat)
deriving DecidableEq, Repr

/-- `auth[hlength]`, `keep[hlength-1]`, `instance[hlength-2]`, `treestack[hlength-1]`. -/
def Access.InBounds : Access → Prop
  | auth i => i < hlength
  | keep i => i < hlength - 1
  | instances i => i < hlength - 2
  | treestack i top => i < hlength - 2 ∧ top < hlength - 1

instance : DecidablePred Access.InBounds
  | .auth i => inferInstanceAs (Decidable (i < hlength))
  | .keep i => inferInstanceAs (Decidable (i < hlength - 1))
  | .instances i => inferInstanceAs (Decidable (i < hlength - 2))
  | .treestack i top => inferInstanceAs (Decidable (i < hlength - 2 ∧ top < hlength - 1))

/-! ## The accesses of one signature -/

/-- Step 2. -/
def keepAccesses (id tau : Nat) : List Access :=
  if (id >>> (tau + 1)) &&& 1 = 0 ∧ tau < hlength - 1 then [.auth tau, .keep tau] else []

/-- Step 3. -/
def leafAccesses (id : Nat) : List Access := if id &&& 1 = 0 then [.auth 0] else []

/-- Step 4: the node of height `tau`. -/
def climbAccesses (tau : Nat) : List Access := [.auth (tau - 1), .keep (tau - 1), .auth tau]

/-- Step 4: the right sibling of height `i`. -/
def popAccesses (i : Nat) : List Access :=
  if i < hlength - 2 then [.instances i, .auth i]
  else if i = hlength - 2 then [.auth i]
  else []

/-- Step 4: the release of instance `i`. -/
def releaseAccesses (id i : Nat) : List Access :=
  if id + 1 + 3 * (1 <<< i) < usr then [.instances i] else []

/-- Steps 2 to 4. -/
def pathAccesses (id : Nat) : List Access :=
  let tau := signTau id
  keepAccesses id tau ++ leafAccesses id ++
    if tau > 0 then
      climbAccesses tau ++ (List.range tau).flatMap popAccesses
        ++ (List.range tau).flatMap (releaseAccesses id)
    else []

/-- The comparison of all instances. -/
def selectAccesses : List Access := (List.range (hlength - 2)).map .instances

section Work

variable (K : Prims)

/-- The `while` loop of instance `j`: the height of the top, and its key when it is merged. -/
def loopAccesses (j : Nat) : List MssNode → MssNode → List Access
  | [], _ => []
  | t :: st, n =>
      .treestack j st.length ::
        if n.height = t.height then
          .treestack j st.length :: loopAccesses j st
            ⟨hashPair K t.key n.key (n.indx / 2) (n.height + 1 + llength),
              n.height + 1, n.indx / 2⟩
        else []

/-- One leaf of work on instance `j`. -/
def workAccesses (j : Nat) (t : Treehash) : List Access :=
  .instances j ::
    if j = 0 then []
    else
      match t.treestack with
      | [] => [.treestack j 0]
      | _ :: _ =>
          let leaf : MssNode := ⟨otsLeaf K t.startleaf, 0, t.startleaf⟩
          let (st, n) := treehashLoop K t.treestack leaf
          loopAccesses K j t.treestack leaf
            ++ if n.height = j then [] else [.treestack j st.length]

/-- The work of a signature. -/
def updateAccesses : Nat → SignerState → List Access
  | 0, _ => []
  | n + 1, s =>
      selectAccesses ++
        match selectInstance s.instances with
        | none => []
        | some j =>
            let t := treehashUpdate K j (s.instances j)
            workAccesses K j (s.instances j)
              ++ updateAccesses n { s with instances := Function.update s.instances j t }

/-- The accesses of `ksnmss_sign`, the copy of the path into the signature included. -/
def signAccesses (id : Nat) (s : SignerState) : List Access :=
  (List.range hlength).map .auth ++
    if id < usr then pathAccesses id ++ updateAccesses K updateiter (signPath K id s) else []

/-- The accesses of the signatures for the leaves `0, …, n - 1` in order. -/
def runAccesses (msgs : Nat → Vector UInt8 k2snMsglen) (s : SignerState) : Nat → List Access
  | 0 => []
  | n + 1 =>
      runAccesses msgs s n ++
        match signRun K msgs s n with
        | some (_, s') => signAccesses K n s'
        | none => []

end Work
/-! ## Steps 2 to 4 -/

variable {K : Prims}

/-- Before the last leaf `tau` is a height of the tree. -/
theorem signTau_lt {id : Nat} (hid : id + 1 < usr) : signTau id < hlength := by
  obtain ⟨q, hq, hodd⟩ := signTau_spec (Nat.lt_of_succ_lt hid)
  have hle : 2 ^ signTau id ≤ q * 2 ^ signTau id :=
    Nat.le_mul_of_pos_left _ (by omega)
  rw [← hq] at hle
  rw [usr_eq] at hid
  exact (Nat.pow_lt_pow_iff_right Nat.one_lt_two).mp (Nat.lt_of_le_of_lt hle hid)

theorem signTau_last : signTau (usr - 1) = hlength := by decide

/-- An instance that is released has a subtree of its height to its right. -/
theorem lt_of_release {id i : Nat} (hid : id < usr) (hi : i < signTau id)
    (hlt : id + 1 + 3 * (1 <<< i) < usr) : i < hlength - 2 := by
  have hdvd := (dvd_iff_lt_tau hid).mpr hi
  have hle : 2 ^ (i + 1) ≤ id + 1 := Nat.le_of_dvd (Nat.succ_pos id) hdvd
  rw [Nat.one_shiftLeft] at hlt
  by_contra hge
  have hpow : 2 ^ (hlength - 2) ≤ 2 ^ i := Nat.pow_le_pow_right Nat.two_pos (by omega)
  have husr : usr = 4 * 2 ^ (hlength - 2) := by decide
  rw [pow_succ] at hle
  omega

theorem popAccesses_inBounds {i : Nat} {a : Access} (ha : a ∈ popAccesses i) : a.InBounds := by
  have hsize : hlength - 2 < hlength := by decide
  unfold popAccesses at ha
  split at ha
  · rename_i hi
    rcases List.mem_pair.mp ha with rfl | rfl
    · exact hi
    · exact Nat.lt_trans hi hsize
  · split at ha
    · rename_i hi
      obtain rfl := List.mem_singleton.mp ha
      rw [hi]
      exact hsize
    · cases ha

theorem releaseAccesses_inBounds {id i : Nat} {a : Access} (hid : id < usr)
    (hi : i < signTau id) (ha : a ∈ releaseAccesses id i) : a.InBounds := by
  unfold releaseAccesses at ha
  split at ha
  · rename_i hlt
    obtain rfl := List.mem_singleton.mp ha
    exact lt_of_release hid hi hlt
  · cases ha

theorem keepAccesses_inBounds {id tau : Nat} {a : Access} (ha : a ∈ keepAccesses id tau) :
    a.InBounds := by
  unfold keepAccesses at ha
  split at ha
  · rename_i hguard
    rcases List.mem_pair.mp ha with rfl | rfl
    · exact Nat.lt_of_lt_of_le hguard.2 (Nat.sub_le _ _)
    · exact hguard.2
  · cases ha

theorem leafAccesses_inBounds {id : Nat} {a : Access} (ha : a ∈ leafAccesses id) :
    a.InBounds := by
  unfold leafAccesses at ha
  split at ha
  · obtain rfl := List.mem_singleton.mp ha
    decide
  · cases ha

/-- The node of height `tau` and its children, for a height of the tree. -/
theorem climbAccesses_inBounds {tau : Nat} {a : Access} (htau : tau < hlength)
    (hpos : 0 < tau) (ha : a ∈ climbAccesses tau) : a.InBounds := by
  simp only [climbAccesses, List.mem_cons, List.not_mem_nil, or_false] at ha
  rcases ha with rfl | rfl | rfl
  · exact Nat.lt_of_le_of_lt (Nat.sub_le _ _) htau
  · exact Nat.sub_lt_sub_right hpos htau
  · exact htau

/-- **STEPS 2 TO 4** stay inside the arrays before the last leaf. -/
theorem pathAccesses_inBounds {id : Nat} {a : Access} (hid : id + 1 < usr)
    (ha : a ∈ pathAccesses id) : a.InBounds := by
  have htau := signTau_lt hid
  rcases List.mem_append.mp ha with hfirst | hclimb
  · rcases List.mem_append.mp hfirst with hkeep | hleaf
    · exact keepAccesses_inBounds hkeep
    · exact leafAccesses_inBounds hleaf
  · split at hclimb
    · rename_i hpos
      rcases List.mem_append.mp hclimb with hleft | hrelease
      · rcases List.mem_append.mp hleft with hnode | hpop
        · exact climbAccesses_inBounds htau hpos hnode
        · obtain ⟨i, -, hi⟩ := List.mem_flatMap.mp hpop
          exact popAccesses_inBounds hi
      · obtain ⟨i, hrange, hi⟩ := List.mem_flatMap.mp hrelease
        exact releaseAccesses_inBounds (by omega) (List.mem_range.mp hrange) hi
    · cases hclimb

/-! ## The work on the instances -/

/-- The loop looks at entries of the stack. -/
theorem mem_loopAccesses {j : Nat} {st : List MssNode} {n : MssNode} {a : Access}
    (ha : a ∈ loopAccesses K j st n) : ∃ top < st.length, a = .treestack j top := by
  induction st generalizing n with
  | nil => cases ha
  | cons t st ih =>
      have hlast : st.length < (t :: st).length := Nat.lt_succ_self _
      rw [loopAccesses] at ha
      rcases List.mem_cons.mp ha with rfl | hmerge
      · exact ⟨_, hlast, rfl⟩
      · split at hmerge
        · rcases List.mem_cons.mp hmerge with rfl | hrest
          · exact ⟨_, hlast, rfl⟩
          · obtain ⟨top, htop, heq⟩ := ih hrest
            exact ⟨top, Nat.lt_trans htop hlast, heq⟩
        · cases hmerge

/-- The loop only takes entries off the stack. -/
theorem length_treehashLoop_le (st : List MssNode) (n : MssNode) :
    (treehashLoop K st n).1.length ≤ st.length := by
  induction st generalizing n with
  | nil => exact le_rfl
  | cons t st ih =>
      rw [treehashLoop]
      split
      · exact Nat.le_succ_of_le (ih _)
      · exact le_rfl

theorem workAccesses_inBounds {j : Nat} {t : Treehash} {a : Access} (hj : j < hlength - 2)
    (hst : t.treestack.length ≤ j) (ha : a ∈ workAccesses K j t) : a.InBounds := by
  have hsize : hlength - 2 < hlength - 1 := by decide
  rcases List.mem_cons.mp ha with rfl | hstack
  · exact hj
  · split at hstack
    · cases hstack
    · split at hstack
      · obtain rfl := List.mem_singleton.mp hstack
        exact ⟨hj, by decide⟩
      · rcases List.mem_append.mp hstack with hloop | htop
        · obtain ⟨top, htop, rfl⟩ := mem_loopAccesses hloop
          exact ⟨hj, by omega⟩
        · split at htop
          · cases htop
          · obtain rfl := List.mem_singleton.mp htop
            have hle := length_treehashLoop_le (K := K) t.treestack
              ⟨otsLeaf K t.startleaf, 0, t.startleaf⟩
            exact ⟨hj, by omega⟩

/-- A stack at work is no longer than the height of its target. -/
theorem length_le_of_inProgress {c j n : Nat} {t : Treehash} (h : InProgress K c j n t)
    (hn : n < 2 ^ j) : t.treestack.length ≤ j := by
  have hcov := h.covers
  cases hst : t.treestack with
  | nil => exact Nat.zero_le j
  | cons e st =>
      rw [hst] at hcov
      have hne : n ≠ 0 := by
        rintro rfl
        exact List.cons_ne_nil e st hcov.nil_of_eq
      have hlen := hcov.length_le
      rw [Nat.add_sub_cancel_left] at hlen
      exact Nat.lt_of_le_of_lt hlen ((Nat.log2_lt hne).mpr hn)

/-- **THE WORK** stays inside the arrays while the instances are in order. -/
theorem updateAccesses_inBounds {id b : Nat} {s : SignerState} {n : Deadline.Progress} {a : Access}
    (h : InstancesOk K id n s.instances) (ha : a ∈ updateAccesses K b s) : a.InBounds := by
  induction b generalizing s n with
  | zero => cases ha
  | succ b ih =>
      rcases List.mem_append.mp ha with hselect | hwork
      · obtain ⟨j, hj, rfl⟩ := List.mem_map.mp hselect
        exact List.mem_range.mp hj
      · rcases selectInstance_spec s.instances with ⟨heq, -⟩ | ⟨i, heq, hi, hatWork, -⟩
        · rw [heq] at hwork
          cases hwork
        · rw [heq] at hwork
          have hpend := ((h i hi).atWork_iff (by omega)).mp hatWork
          rcases List.mem_append.mp hwork with hleaf | hrest
          · exact workAccesses_inBounds hi
              (length_le_of_inProgress ((h i hi).work hpend) hpend) hleaf
          · exact ih (h.update hi hpend) hrest

/-! ## Runs -/

/-- **A SIGNATURE BEFORE THE LAST LEAF** stays inside the arrays. -/
theorem signAccesses_inBounds {id : Nat} {s : SignerState} {a : Access}
    (h : TraversalInv K id s) (hid : id + 1 < usr) (ha : a ∈ signAccesses K id s) :
    a.InBounds := by
  have hid' : id < usr := Nat.lt_of_succ_lt hid
  rcases List.mem_append.mp ha with hcopy | hsign
  · obtain ⟨i, hi, rfl⟩ := List.mem_map.mp hcopy
    exact List.mem_range.mp hi
  · rw [if_pos hid'] at hsign
    rcases List.mem_append.mp hsign with hpath | hwork
    · exact pathAccesses_inBounds hid hpath
    · obtain ⟨n, m, -, -, -, hok⟩ := h.release hid'
      exact updateAccesses_inBounds hok hwork

/-- **THE LAST LEAF** writes `auth[hlength]`. -/
theorem auth_mem_signAccesses (s : SignerState) :
    .auth hlength ∈ signAccesses K (usr - 1) s := by
  have hid : usr - 1 < usr := by decide
  have hpath : .auth hlength ∈ pathAccesses (usr - 1) := by
    have hclimb : .auth hlength ∈ climbAccesses hlength := by decide
    unfold pathAccesses
    rw [signTau_last]
    exact List.mem_append_right _
      (List.mem_append_left _ (List.mem_append_left _ hclimb))
  unfold signAccesses
  rw [if_pos hid]
  exact List.mem_append_right _ (List.mem_append_left _ hpath)

variable {msgs : Nat → Vector UInt8 k2snMsglen}

theorem runAccesses_succ {s s' : SignerState} {n : Nat} {sigs : List KsnmssSig}
    (h : signRun K msgs s n = some (sigs, s')) :
    runAccesses K msgs s (n + 1) = runAccesses K msgs s n ++ signAccesses K n s' := by
  rw [runAccesses, h]

/-- The accesses of a run are accesses of every longer one. -/
theorem runAccesses_mono {s : SignerState} {m n : Nat} {a : Access} (hmn : m ≤ n)
    (ha : a ∈ runAccesses K msgs s m) : a ∈ runAccesses K msgs s n := by
  induction n, hmn using Nat.le_induction with
  | base => exact ha
  | succ n _ ih => exact List.mem_append_left _ ih

theorem runAccesses_inBounds {s : SignerState} {n : Nat} {a : Access} (hn : n < usr)
    (ha : a ∈ runAccesses K msgs (keyGeneration K s) n) : a.InBounds := by
  induction n with
  | zero => cases ha
  | succ n ih =>
      obtain ⟨sigs, s', hrun, hinv, -, -⟩ :=
        signRun_spec (K := K) msgs s (Nat.lt_of_succ_lt hn)
      rw [runAccesses_succ hrun] at ha
      rcases List.mem_append.mp ha with hbefore | hsign
      · exact ih (Nat.lt_of_succ_lt hn) hbefore
      · exact signAccesses_inBounds hinv hn hsign

/-- A run that signs with the last leaf writes `auth[hlength]`. -/
theorem auth_mem_runAccesses (K : Prims) (msgs : Nat → Vector UInt8 k2snMsglen) (s : SignerState)
    {n : Nat} (hn : usr ≤ n) : .auth hlength ∈ runAccesses K msgs (keyGeneration K s) n := by
  obtain ⟨sigs, s', hrun, -, -, -⟩ :=
    signRun_spec (K := K) msgs s (n := usr - 1) (by decide)
  have hlast : .auth hlength ∈ runAccesses K msgs (keyGeneration K s) (usr - 1 + 1) := by
    rw [runAccesses_succ hrun]
    exact List.mem_append_right _ (auth_mem_signAccesses s')
  exact runAccesses_mono hn hlast

theorem not_inBounds_auth : ¬ (Access.auth hlength).InBounds := by decide

/-- **A RUN STAYS INSIDE THE ARRAYS** if and only if it stops before the last leaf. -/
theorem accesses_inBounds_iff (K : Prims) (msgs : Nat → Vector UInt8 k2snMsglen)
    (s : SignerState) (n : Nat) :
    (∀ a ∈ runAccesses K msgs (keyGeneration K s) n, a.InBounds) ↔ n < usr := by
  constructor
  · intro hall
    by_contra hge
    exact not_inBounds_auth (hall _ (auth_mem_runAccesses K msgs s (Nat.not_lt.mp hge)))
  · intro hn a ha
    exact runAccesses_inBounds hn ha

/-- The run over all leaves leaves the arrays. -/
theorem accesses_all_leaves :
    ¬ ∀ a ∈ runAccesses constPrims (fun _ => Vector.replicate k2snMsglen 0)
      (keyGeneration constPrims zeroSigner) usr, a.InBounds := by
  intro hall
  exact not_inBounds_auth (hall _ (auth_mem_runAccesses _ _ _ le_rfl))

end PqDtls.SignerBounds
