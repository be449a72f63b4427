import PqDtls.K2sn.Completeness
import PqDtls.Dtls.Reconnect
import PqDtls.Lib.History

/-! # The signatures of a client over its runs

    A client signs its ClientKeyExchange with leaf `0`, whatever it has signed before,
    and sends the root that is in `MSSPK`.  The signer moves on to the next leaf with
    every signature, `dtls_connect_peer` starts it anew with `key_generation`, and
    the server's part of the engine writes the root of the other side to the same
    `MSSPK`.  What a signature is worth therefore depends on the run:

    * `unsigned` — since the last `key_generation` nothing has been signed;
    * `rootInPlace` — since the last `key_generation` no signature has been verified.

    **`clientSignatures`** is the invariant of all runs: a signature of the first kind
    is accepted for its hash and leaf `0` under the root of the tree, and with the
    second that root is the one the message will carry. -/

namespace PqDtls.Dtls

open Ksnmss TraversalProofs Completeness OneTimeProofs

variable {env : Env} {w w' : World}

/-! ## Events of the signer -/

/-- An event that moves the signer, or writes its root. -/
def Event.ofSigner : Event → Bool
  | .keyGeneration | .sign .. | .verify .. => true
  | _ => false

/-- Nothing has been signed since the last `key_generation`. -/
def unsigned : List Event → Bool
  | [] => false
  | .keyGeneration :: _ => true
  | .sign .. :: _ => false
  | _ :: l => unsigned l

/-- Nothing has been verified since the last `key_generation`. -/
def rootInPlace : List Event → Bool
  | [] => false
  | .keyGeneration :: _ => true
  | .verify .. :: _ => false
  | _ :: l => rootInPlace l

theorem Event.ofSigner_outside {e : Event} (h : e.outside) : e.ofSigner = false := by
  cases e with
  | sent | write | event | interval => rfl
  | _ => exact h.elim

theorem unsigned_append {l l' : List Event} (h : ∀ e ∈ l, e.ofSigner = false) :
    unsigned (l ++ l') = unsigned l' := by
  induction l with
  | nil => rfl
  | cons e l ih =>
      obtain ⟨he, hl⟩ := List.forall_mem_cons.mp h
      cases e with
      | keyGeneration | sign | verify => cases he
      | _ => exact ih hl

theorem rootInPlace_append {l l' : List Event} (h : ∀ e ∈ l, e.ofSigner = false) :
    rootInPlace (l ++ l') = rootInPlace l' := by
  induction l with
  | nil => rfl
  | cons e l ih =>
      obtain ⟨he, hl⟩ := List.forall_mem_cons.mp h
      cases e with
      | keyGeneration | sign | verify => cases he
      | _ => exact ih hl

/-- **WHAT A STEP DOES TO THE SIGNER**: nothing, or it signs, generates keys or overwrites the
    root. -/
theorem Step.signer_cases (h : Step env w w') :
    (∃ l, w'.log = l ++ w.log ∧ (∀ e ∈ l, e.ofSigner = false) ∧ w'.signer = w.signer) ∨
      (∃ hash sig, ksnmssSign env.ksnmss w.signer 0 hash = some (sig, w'.signer) ∧
        w'.log = .sign 0 hash sig :: w.log) ∨
      (w'.signer = Ksnmss.keyGeneration env.ksnmss w.signer ∧ w'.log = .keyGeneration :: w.log) ∨
      ∃ key hash result, w'.signer = { w.signer with MSSPK := key } ∧
        w'.log = .verify hash result :: w.log := by
  have none' (hlog : w'.log = w.log) (hsigner : w'.signer = w.signer) :
      ∃ l, w'.log = l ++ w.log ∧ (∀ e ∈ l, e.ofSigner = false) ∧ w'.signer = w.signer :=
    ⟨[], hlog, List.forall_mem_nil _, hsigner⟩
  have one {e : Event} (he : e.ofSigner = false) (hlog : w'.log = e :: w.log)
      (hsigner : w'.signer = w.signer) :
      ∃ l, w'.log = l ++ w.log ∧ (∀ e ∈ l, e.ofSigner = false) ∧ w'.signer = w.signer := by
    refine ⟨[e], hlog, ?_, hsigner⟩
    intro e' he'
    rwa [List.mem_singleton.mp he']
  cases h with
  | quiet q =>
      obtain ⟨l, hl, ho⟩ := q.log
      exact .inl ⟨l, hl, fun e he => Event.ofSigner_outside (ho e he), q.signer⟩
  | storage heap signer log => exact .inl (none' log signer)
  | newPeer a session => exact .inl (none' rfl rfl)
  | edit a p watched => exact .inl (none' rfl rfl)
  | params a o fresh => exact .inl (none' rfl rfl)
  | buffer a buf fresh => exact .inl (none' rfl rfl)
  | sign hash r hr => exact .inr (.inl ⟨hash, r.1, hr, rfl⟩)
  | keyGeneration =>
      -- the keys are a variable from here on, so that nothing evaluates them
      generalize Ksnmss.keyGeneration env.ksnmss w.signer = signer
      exact .inr (.inr (.inl ⟨rfl, rfl⟩))
  | verify c rtt hash result hc hk => exact .inr (.inr (.inr ⟨_, hash, result, rfl, rfl⟩))
  | state a s entered => exact .inl (one rfl rfl rfl)
  | tesla head data len => exact .inl (one rfl rfl rfl)
  | read session data len r a p readable => exact .inl (one rfl rfl rfl)
  | record r before => exact .inl (one rfl rfl rfl)
  | replay a => exact .inl (one rfl rfl rfl)
  | message c before origin => exact .inl (one rfl rfl rfl)
  | handled res => exact .inl (one rfl rfl rfl)
  | fragment a header buf data dataLength before fits => exact .inl (one rfl rfl rfl)
  | deliver c rest last before whole => exact .inl (one rfl rfl rfl)

/-! ## The invariant -/

/-- A signature of leaf `0` that the other side accepts, whatever the globals were when the tree
    was generated. -/
def AcceptedFirst (K : Prims) (hash : Digest) (sig : KsnmssSig) : Prop :=
  ∀ s, ksnmssVerify K (keyGeneration K s).MSSPK 0 hash sig = some 0

theorem usr_pos : 0 < usr := by decide

/-- A signer at leaf `0` makes such a signature. -/
theorem acceptedFirst_of_ready {K : Prims} {s s' : SignerState} {hash : Digest} {sig : KsnmssSig}
    (tables : SwifftTables K (K.setKey 0 0)) (ready : TraversalInv K 0 s)
    (hsign : ksnmssSign K s 0 hash = some (sig, s')) : AcceptedFirst K hash sig := by
  intro s₀
  rw [(keyGeneration_spec K s₀).1]
  exact ksnmssSign_accepted tables usr_pos ready hsign

/-- What is known of the signer in a world of a run. -/
structure SignerKnown (env : Env) (w : World) : Prop where
  ready : unsigned w.log = true → TraversalInv env.ksnmss 0 w.signer
  root : rootInPlace w.log = true → w.signer.MSSPK = trueNode env.ksnmss hlength 0
  accepted : ∀ id hash sig earlier, .sign id hash sig :: earlier <:+ w.log →
    unsigned earlier = true → id = 0 ∧ AcceptedFirst env.ksnmss hash sig

theorem signerKnown_initial (h : w.log = []) : SignerKnown env w := by
  refine ⟨?_, ?_, ?_⟩
  · intro hu
    rw [h] at hu
    cases hu
  · intro hr
    rw [h] at hr
    cases hr
  · intro id hash sig earlier hs
    rw [h, List.suffix_nil] at hs
    cases hs

/-- **STEP**: every step keeps what is known of the signer. -/
theorem signerKnown_step (tables : SwifftTables env.ksnmss (env.ksnmss.setKey 0 0))
    (w w' : World) (h : Step env w w') (hw : SignerKnown env w) : SignerKnown env w' := by
  rcases h.signer_cases with ⟨l, hlog, hl, hsigner⟩ | ⟨hash, sig, hsign, hlog⟩ | ⟨hsigner, hlog⟩ |
    ⟨key, hash, result, hsigner, hlog⟩
  · refine ⟨?_, ?_, ?_⟩
    · rw [hlog, unsigned_append hl, hsigner]
      exact hw.ready
    · rw [hlog, rootInPlace_append hl, hsigner]
      exact hw.root
    · intro id hash sig earlier hs
      rw [hlog] at hs
      exact hw.accepted id hash sig earlier (History.suffix_of_not hl Bool.noConfusion hs)
  · refine ⟨?_, ?_, ?_⟩
    · intro hu
      rw [hlog] at hu
      cases hu
    · intro hr
      rw [hlog] at hr
      rw [ksnmssSign_MSSPK hsign]
      exact hw.root hr
    · -- the new signature, or an earlier one
      intro id hash' sig' earlier hs fresh
      rw [hlog] at hs
      rcases List.suffix_cons_iff.mp hs with heq | hs
      · obtain ⟨hevent, rfl⟩ := List.cons.inj heq
        obtain ⟨rfl, rfl, rfl⟩ := Event.sign.inj hevent
        exact ⟨rfl, acceptedFirst_of_ready tables (hw.ready fresh) hsign⟩
      · exact hw.accepted id hash' sig' earlier hs fresh
  · refine ⟨?_, ?_, ?_⟩
    · intro _
      rw [hsigner]
      exact traversalInv_init w.signer
    · intro _
      rw [hsigner]
      exact (keyGeneration_spec env.ksnmss w.signer).1
    · intro id hash sig earlier hs
      rw [hlog] at hs
      rcases List.suffix_cons_iff.mp hs with heq | hs
      · cases (List.cons.inj heq).1
      · exact hw.accepted id hash sig earlier hs
  · refine ⟨?_, ?_, ?_⟩
    · intro hu
      rw [hlog] at hu
      -- the root is no part of the traversal
      obtain ⟨auth, keep, retain, instances⟩ := hw.ready hu
      rw [hsigner]
      exact ⟨auth, keep, retain, instances⟩
    · intro hr
      rw [hlog] at hr
      cases hr
    · intro id hash' sig earlier hs
      rw [hlog] at hs
      rcases List.suffix_cons_iff.mp hs with heq | hs
      · cases (List.cons.inj heq).1
      · exact hw.accepted id hash' sig earlier hs

/-- **RUN**: it is known in every reachable world. -/
theorem signerKnown_run (tables : SwifftTables env.ksnmss (env.ksnmss.setKey 0 0))
    (h : Reachable env w) : SignerKnown env w :=
  h.invariant (signerKnown_step tables) fun _ initial => signerKnown_initial initial.log

/-- **THE SIGNATURES OF A CLIENT**: in every run, whatever the application calls and the network
    brings, each signature made first after a `key_generation` is one of leaf `0` and is accepted
    for its hash under the root of the tree; the next one will be, as long as nothing has been
    signed; and the root in `MSSPK` is that of the tree as long as nothing has been verified. -/
theorem clientSignatures (env : Env) (w : World) (h : Reachable env w)
    (tables : SwifftTables env.ksnmss (env.ksnmss.setKey 0 0)) :
    (∀ id hash sig earlier, .sign id hash sig :: earlier <:+ w.log → unsigned earlier = true →
        id = 0 ∧ AcceptedFirst env.ksnmss hash sig) ∧
      (unsigned w.log = true → ∀ hash, ∃ sig s,
        ksnmssSign env.ksnmss w.signer 0 hash = some (sig, s) ∧
          AcceptedFirst env.ksnmss hash sig) ∧
      (rootInPlace w.log = true → ∀ s, w.signer.MSSPK = (keyGeneration env.ksnmss s).MSSPK) := by
  have known := signerKnown_run tables h
  refine ⟨known.accepted, ?_, ?_⟩
  · intro fresh hash
    obtain ⟨sig, hsign, -⟩ := ksnmssSign_eq (K := env.ksnmss) w.signer usr_pos hash
    exact ⟨sig, _, hsign, acceptedFirst_of_ready tables (known.ready fresh) hsign⟩
  · intro fresh s
    rw [known.root fresh, (keyGeneration_spec env.ksnmss s).1]

/-- Surroundings in which all hashes are zero. -/
def zeroEnv : Env := { sampleEnv with ksnmss := zeroPrims }

/-- A process that has called `dtls_connect`. -/
def connecting : World :=
  (runInputs zeroEnv [.app (.connect (sampleSession 1))] sampleWorld).2

/-- It has a fresh tree: the signature it will make is accepted, under the root it will send. -/
theorem clientSignatures_connecting :
    ∃ sig s, ksnmssSign zeroPrims connecting.signer 0 (Vector.replicate 32 0) = some (sig, s)
      ∧ ksnmssVerify zeroPrims connecting.signer.MSSPK 0 (Vector.replicate 32 0) sig
          = some 0 := by
  obtain ⟨-, next, root⟩ := clientSignatures zeroEnv connecting ⟨_, _, sampleWorld_initial, rfl⟩
    (zeroPrims_tables _)
  obtain ⟨sig, s, hsign, accepted⟩ := next (by decide +kernel) (Vector.replicate 32 0)
  refine ⟨sig, s, hsign, ?_⟩
  rw [root (by decide +kernel) zeroSigner]
  exact accepted zeroSigner

end PqDtls.Dtls
