import PqDtls.K2sn.OneTimeProofs
import PqDtls.K2sn.TraversalProofs

/-! # Every signature of a run is accepted

    The traversal puts the true siblings into a signature and the one-time part
    passes its two tests; what is left is the climb of the verifier.  Its loop is
    `MerkleTree.climb` over the inner hash of the tree (**`authRoot_eq_climb`**),
    so that along the true siblings it arrives at the root, which is what
    `key_generation` left in `MSSPK`.

    **`scheme_complete`** puts the three together over whole runs: no signature
    for the leaves `0, …, n` of one tree is ever refused, up to the last leaf. -/

namespace PqDtls.Completeness

open Cff MerkleTree Ksnmss VerifyProofs OneTimeProofs TraversalProofs

variable {K : Prims}

/-! ## The verifier's climb -/

/-- One level of the verifier is one step of the climb. -/
theorem authStep_eq_climbStep (auth : Vector Node hlength) (p : Node × Nat) (i : Nat) :
    authStep K auth p i = climbStep (parent K) i (auth[i]!) p := by
  obtain ⟨present, id⟩ := p
  have haddr : i + llength + 1 = i + 1 + llength := by omega
  unfold authStep climbStep parent
  rw [haddr]
  by_cases hid : id % 2 = 0
  · simp only [hid, if_true]
  · simp only [hid, if_false]

theorem foldl_authStep (auth : Vector Node hlength) (p : Node × Nat) (n : Nat) :
    (List.range n).foldl (authStep K auth) p = climb (parent K) (fun i => auth[i]!) n p := by
  induction n with
  | zero => rfl
  | succ n ih =>
      rw [List.range_succ, List.foldl_append, ih]
      exact authStep_eq_climbStep auth _ n

/-- The verifier climbs from the L-tree of the signature along its path. -/
theorem authRoot_eq_climb (sig : KsnmssSig) (id : Nat) :
    authRoot K sig id
      = (climb (parent K) (fun i => sig.auth[i]!) hlength (createLTree K sig.pk id, id)).1 := by
  unfold authRoot
  rw [foldl_authStep]

/-- A path of true siblings. -/
def TruePath (K : Prims) (id : Nat) (sig : KsnmssSig) : Prop :=
  ∀ (h : Nat) (hh : h < hlength), sig.auth.get ⟨h, hh⟩ = trueNode K h ((id >>> h) ^^^ 1)

/-- **THE CLIMB ARRIVES**: the components of the one-time key and the true siblings of its leaf
    lead to the root. -/
theorem authRoot_of_truePath {id : Nat} {sig : KsnmssSig} (hid : id < usr)
    (hpk : sig.pk = otsPublicKey K id) (hpath : TruePath K id sig) :
    authRoot K sig id = trueNode K hlength 0 := by
  let path (h : Nat) : Node := sig.auth[h]!
  have hsibling : ∀ h, h < hlength →
      path h = node (otsLeaf K) (parent K) h (sibling (id / 2 ^ h)) := by
    intro h hh
    have hh' := hpath h hh
    rw [sibling_eq_xor, ← Nat.shiftRight_eq_div_pow, show path h = sig.auth[h] from
      getElem!_pos sig.auth h hh]
    exact hh'
  have hclimb := climb_node (otsLeaf K) (parent K) hsibling
  have hroot : id / 2 ^ hlength = 0 := Nat.div_eq_of_lt hid
  rw [hroot] at hclimb
  rw [authRoot_eq_climb, hpk]
  exact congrArg Prod.fst hclimb

/-! ## One signature -/

/-- A signature that carries its one-time key, the sum of the selected secrets and the true path
    is accepted. -/
theorem ksnmssVerify_of_true {id : Nat} {ms : Vector UInt8 k2snMsglen} {sig : KsnmssSig}
    {keys : List Nat} (tables : SwifftTables K (K.setKey id 0)) (hid : id < usr)
    (hkeys : cff ms = some keys)
    (hsksum : sig.sksum = sumSecrets (K.generateSecretKeyOTS (idu8 id)) keys)
    (hpk : sig.pk = otsPublicKey K id) (hpath : TruePath K id sig) :
    ksnmssVerify K (trueNode K hlength 0) id ms sig = some 0 := by
  obtain ⟨keys', hkeys', hlen, hlt⟩ := cff_isSome ms
  obtain rfl := Option.some.inj (hkeys'.symm.trans hkeys)
  have hsmall : CoeffsSmall sig := by
    intro k
    have hle := secretSum_le (K.generateSecretKeyOTS (idu8 id)) keys' k
    rw [← sumSecrets_spec _ hlen k, ← hsksum, hlen] at hle
    exact UInt8.le_iff_toNat_le.mpr hle
  have hagree : SumsAgree K id ms sig := by
    intro keys hkeys k
    obtain rfl := Option.some.inj (hkeys'.symm.trans hkeys)
    rw [pksum, hsksum, hpk]
    exact tables.sum_public _ hlen hlt k
  rw [ksnmssVerify_eq_zero_iff hkeys', (sumsAgree_iff hkeys' hlen).mp hagree,
    authRoot_of_truePath hid hpk hpath]
  exact ⟨hsmall, rfl, rfl⟩

/-- A signer that is ready for leaf `id` gives the true path of it. -/
theorem truePath_of_ready {id : Nat} {s s' : SignerState} {ms : Vector UInt8 k2snMsglen}
    {sig : KsnmssSig} (hid : id < usr) (ready : TraversalInv K id s)
    (hsign : ksnmssSign K s id ms = some (sig, s')) : TruePath K id sig := by
  obtain ⟨sig', hsign', hauth⟩ := ksnmssSign_eq (K := K) s hid ms
  obtain ⟨rfl, -⟩ := Prod.mk.inj (Option.some.inj (hsign'.symm.trans hsign))
  intro h hh
  have held : sig'.auth.get ⟨h, hh⟩ = s.auth h := hauth ⟨h, hh⟩
  rw [held, ready.auth _ hh, sibling_eq_xor, Nat.shiftRight_eq_div_pow]

/-- What `ksnmss_sign` returns is accepted when the signer is ready for the leaf. -/
theorem ksnmssSign_accepted {id : Nat} {s s' : SignerState} {ms : Vector UInt8 k2snMsglen}
    {sig : KsnmssSig} (tables : SwifftTables K (K.setKey id 0)) (hid : id < usr)
    (ready : TraversalInv K id s) (hsign : ksnmssSign K s id ms = some (sig, s')) :
    ksnmssVerify K (trueNode K hlength 0) id ms sig = some 0 := by
  have hpath := truePath_of_ready hid ready hsign
  obtain ⟨keys, hkeys, -, -⟩ := cff_isSome ms
  obtain ⟨sig', s'', hsign', hsksum, hpk⟩ := ksnmssSign_sig (K := K) s id hkeys
  obtain ⟨rfl, rfl⟩ := Prod.mk.inj (Option.some.inj (hsign'.symm.trans hsign))
  exact ksnmssVerify_of_true tables hid hkeys hsksum hpk hpath

/-! ## Whole runs -/

/-- The signatures `0, 1, …` are accepted under `MSSPK`. -/
def Accepted (K : Prims) (MSSPK : Node) (msgs : Nat → Vector UInt8 k2snMsglen)
    (sigs : List KsnmssSig) : Prop :=
  ∀ (id : Nat) (sig : KsnmssSig), sigs[id]? = some sig →
    ksnmssVerify K MSSPK id (msgs id) sig = some 0

theorem Accepted.concat {MSSPK : Node} {msgs : Nat → Vector UInt8 k2snMsglen}
    {sigs : List KsnmssSig} {sig : KsnmssSig} (h : Accepted K MSSPK msgs sigs)
    (hsig : ksnmssVerify K MSSPK sigs.length (msgs sigs.length) sig = some 0) :
    Accepted K MSSPK msgs (sigs ++ [sig]) := by
  intro id sig' hget
  rcases Nat.lt_or_ge id sigs.length with hlt | hge
  · rw [List.getElem?_append_left hlt] at hget
    exact h id sig' hget
  · rw [List.getElem?_append_right hge] at hget
    have hid : id = sigs.length := by
      have := (List.getElem?_eq_some_iff.mp hget).1
      rw [List.length_singleton] at this
      omega
    subst hid
    rw [Nat.sub_self, List.getElem?_cons_zero] at hget
    obtain rfl := Option.some.inj hget
    exact hsig

/-- **STEP**: the next signature of a run in order succeeds and is accepted. -/
theorem signRun_accepted_succ {msgs : Nat → Vector UInt8 k2snMsglen} {s s' : SignerState} {n : Nat}
    {sigs : List KsnmssSig} (tables : SwifftTables K (K.setKey n 0)) (hn : n < usr)
    (hrun : signRun K msgs s n = some (sigs, s')) (hinv : TraversalInv K n s')
    (hlen : sigs.length = n) (hacc : Accepted K (trueNode K hlength 0) msgs sigs) :
    ∃ sig, signRun K msgs s (n + 1) = some (sigs ++ [sig], signAdvance K n s')
      ∧ (sigs ++ [sig]).length = n + 1
      ∧ Accepted K (trueNode K hlength 0) msgs (sigs ++ [sig]) := by
  obtain ⟨sig, hsign, -⟩ := ksnmssSign_eq (K := K) s' hn (msgs n)
  refine ⟨sig, ?_, ?_, ?_⟩
  · rw [signRun, hrun, Option.bind_some, hsign, Option.map_some]
  · rw [List.length_append, hlen]
    rfl
  · refine hacc.concat ?_
    rw [hlen]
    exact ksnmssSign_accepted tables hn hinv hsign

/-- **RUN**: before leaf `n` all signatures are accepted and the traversal is ready for it. -/
theorem signRun_accepted (msgs : Nat → Vector UInt8 k2snMsglen) (s : SignerState) {n : Nat}
    (hn : n < usr) (tables : ∀ id, id < n → SwifftTables K (K.setKey id 0)) :
    ∃ sigs s', signRun K msgs (keyGeneration K s) n = some (sigs, s') ∧ TraversalInv K n s'
      ∧ sigs.length = n ∧ Accepted K (trueNode K hlength 0) msgs sigs := by
  induction n with
  | zero =>
      refine ⟨[], keyGeneration K s, signRun_zero msgs _, traversalInv_init s, rfl, ?_⟩
      intro id sig hget
      rw [List.getElem?_nil] at hget
      cases hget
  | succ n ih =>
      obtain ⟨sigs, s', hrun, hinv, hlen, hacc⟩ :=
        ih (by omega) (fun id hid => tables id (by omega))
      obtain ⟨sig, hrun', hlen', hacc'⟩ :=
        signRun_accepted_succ (tables n (by omega)) (by omega) hrun hinv hlen hacc
      exact ⟨_, _, hrun', traversalInv_step hinv hn, hlen', hacc'⟩

/-- **COMPLETENESS OF THE SCHEME**: with one tree from `key_generation`, signing any messages with
    the leaves `0, …, n` in order succeeds, and `ksnmss_verify` accepts every one of these
    signatures for its leaf and its message under the public key, also the one of the last
    leaf of the tree. -/
theorem scheme_complete (K : Prims) (msgs : Nat → Vector UInt8 k2snMsglen) (s : SignerState)
    (n : Nat) (hn : n < usr) (tables : ∀ id, id ≤ n → SwifftTables K (K.setKey id 0)) :
    ∃ sigs s', signRun K msgs (keyGeneration K s) (n + 1) = some (sigs, s')
      ∧ sigs.length = n + 1
      ∧ ∀ (id : Nat) (sig : KsnmssSig), sigs[id]? = some sig →
          ksnmssVerify K (keyGeneration K s).MSSPK id (msgs id) sig = some 0 := by
  obtain ⟨sigs, s', hrun, hinv, hlen, hacc⟩ :=
    signRun_accepted msgs s hn (fun id hid => tables id (by omega))
  obtain ⟨sig, hrun', hlen', hacc'⟩ :=
    signRun_accepted_succ (tables n (by omega)) hn hrun hinv hlen hacc
  rw [(keyGeneration_spec K s).1]
  exact ⟨_, _, hrun', hlen', hacc'⟩

/-- The two signatures of a run with zero secrets. -/
theorem scheme_complete_zero :
    ∃ sigs s', signRun zeroPrims (fun _ => Vector.replicate k2snMsglen 0)
        (keyGeneration zeroPrims zeroSigner) (1 + 1) = some (sigs, s')
      ∧ sigs.length = 1 + 1
      ∧ ∀ (id : Nat) (sig : KsnmssSig), sigs[id]? = some sig →
          ksnmssVerify zeroPrims (keyGeneration zeroPrims zeroSigner).MSSPK id
            (Vector.replicate k2snMsglen 0) sig = some 0 :=
  scheme_complete zeroPrims (fun _ => Vector.replicate k2snMsglen 0) zeroSigner 1 (by decide)
    (fun id _ => zeroPrims_tables (zeroPrims.setKey id 0))

end PqDtls.Completeness
