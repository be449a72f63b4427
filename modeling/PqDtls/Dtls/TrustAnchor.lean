import PqDtls.K2sn.TraversalProofs
import PqDtls.Dtls.Codec

/-! # What a ClientKeyExchange is trusted with

    A ClientKeyExchange brings the root key that its own signature is verified with,
    and the nonce that was to tie it to this handshake.  Neither is compared with
    what the server holds: the key in the last 72 bytes replaces `MSSPK`, and the
    nonce is stored.  So the anchor and the freshness hold exactly as far as the
    messages that get this far happen to carry the right values. -/

namespace PqDtls.Dtls

open Program (get gets modify stop ofOption when Keeps Same keeps_pure keeps_modify)
open Cff Ksnmss

variable {env : Env} {w w' : World} {a : Addr} {h : HandshakeParameters} {peer : Option Addr}
  {session : Session} {role : DtlsPeerType} {state : DtlsState} {data data' : Ptr}
  {dataLength : Nat}

/-! ## The outcomes of the verification -/

/-- The outcomes of the calls of `ksnmss_verify`, the last one first. -/
def verifications : List Event → List (Option Nat)
  | [] => []
  | .verify _ result :: l => result :: verifications l
  | _ :: l => verifications l

/-- The root key, and what it has been used for. -/
def World.trust (w : World) : Node × List (Option Nat) := (w.signer.MSSPK, verifications w.log)

theorem verifications_outside {l l' : List Event} (h : ∀ e ∈ l, e.outside) :
    verifications (l ++ l') = verifications l' := by
  induction l with
  | nil => rfl
  | cons e l ih =>
      obtain ⟨he, hl⟩ := List.forall_mem_cons.mp h
      cases e with
      | verify hash result => exact he.elim
      | _ => exact ih hl

theorem Quiet.trust (q : Quiet w w') : w'.trust = w.trust := by
  obtain ⟨l, hl, ho⟩ := q.log
  rw [World.trust, World.trust, q.signer, hl, verifications_outside ho]

theorem trust_of_quiet {α : Type} {m : M α} (hm : Keeps Quiet m) : Keeps (Same World.trust) m :=
  hm.mono fun _ _ => Quiet.trust

theorem trust_setState (a : Addr) (s : DtlsState) : Keeps (Same World.trust) (setState a s) :=
  fun _ => rfl

theorem trust_finishMessage (o : Outcome) : Keeps (Same World.trust) (finishMessage o) := by
  cases o with
  | ret err => exact keeps_pure _
  | done peer err =>
      cases peer with
      | none => exact keeps_pure _
      | some a =>
          refine Keeps.bind (Keeps.when fun _ => ?_) fun _ => keeps_pure _
          exact fun w => rfl

/-- The message has got as far as its verification: the server waits for it, and the
    packets queued for retransmission belong to peers. -/
structure KeyExchangeReached (w : World) (peer : Option Addr) (state : DtlsState) : Prop where
  waiting : state = .waitClientKeyExchange
  queue : ∀ n ∈ w.sendqueue, n.peer.isSome = true
  params : ∃ a, peer = some a ∧ (w.heap a).handshakeParams.isSome = true

theorem handleClientKeyExchange_trust (hp : (w.heap a).handshakeParams = some h) :
    (handleClientKeyExchange env (some a) .waitClientKeyExchange data dataLength w).2.trust
      = (keyExchangeKey data dataLength,
          keyExchangeVerified env data dataLength :: w.trust.2) := by
  obtain ⟨w₁, hcheck⟩ := @checkClientKeyExchange_returns _ _ _ data dataLength hp
  have quiet : Quiet w w₁ := by
    have := quietTacit.still.checkClientKeyExchange a h data dataLength w
    rwa [hcheck] at this
  rw [handleClientKeyExchange, if_neg (by decide), withHandshake, getPeer_bind]
  simp only [hp]
  rw [Program.bind_ok hcheck, ← quiet.trust]
  generalize keyExchangeError h.cipher data dataLength = err
  generalize readTeslaSync (data.add (teslaSyncOffset dataLength)) = tsync
  generalize keyExchangeKey data dataLength = pk
  generalize keyExchangeHash env data dataLength = hash
  generalize keyExchangeVerified env data dataLength = verified
  -- what follows the verification leaves the key and the outcome alone
  have rest : Keeps (Same World.trust) (if err < 0 then pure (.ret err)
      else do
      updateHsHash a (data.bytes dataLength)
      let h ← getHandshake a
      setState a (keyExchanged env h)
      pure (.done (some a) err) : M Outcome) := by
    refine Keeps.ite (fun _ => keeps_pure _) fun _ => ?_
    refine (trust_of_quiet (quietTacit.still.updateHsHash a _)).bind fun _ => ?_
    refine (trust_of_quiet (quietTacit.still.getHandshake a)).bind fun h => ?_
    exact (trust_setState a _).bind fun _ => keeps_pure _
  have take : takeTeslaSync tsync pk hash verified w₁
      = (.ok (), (takeTeslaSync tsync pk hash verified w₁).2) := rfl
  rw [Program.bind_ok take]
  exact rest _

theorem handleClientKeyExchange_untouched
    (hno : state ≠ .waitClientKeyExchange ∨
      ∀ a, peer = some a → (w.heap a).handshakeParams = none) :
    (handleClientKeyExchange env peer state data dataLength w).2 = w := by
  cases peer with
  | some a => exact handleClientKeyExchange_refused (hno.imp_right fun h => h a rfl)
  | none =>
      by_cases hs : state ≠ .waitClientKeyExchange
      · rw [handleClientKeyExchange, if_pos hs]
        rfl
      · rw [handleClientKeyExchange, if_neg hs]
        rfl

/-- A ClientKeyExchange in any state of the server: the key and the outcomes are
    those that the handler leaves. -/
theorem handleHandshakeMsg_trust (ht : data.uint8 = dtlsHtClientKeyExchange)
    (hq : peer = none ∨ ∀ n ∈ w.sendqueue, n.peer.isSome = true) :
    ∃ w₁, w₁.heap = w.heap ∧ w₁.trust = w.trust ∧
      (handleHandshakeMsg env peer session role state data dataLength w).2.trust
        = (handleClientKeyExchange env peer state data dataLength w₁).2.trust := by
  let call : HandshakeCall := ⟨peer, role, state, peer.map w.heap, data, dataLength⟩
  obtain ⟨q, hstop⟩ : ∃ q, stopRetransmissionOf peer (w.emitted (.message call))
      = (.ok (), { w.emitted (.message call) with sendqueue := q }) := by
    cases peer with
    | none => exact ⟨_, rfl⟩
    | some a => exact stopRetransmission_ok (w := w.emitted (.message call)) (hq.resolve_left nofun)
  refine ⟨{ w.emitted (.message call) with sendqueue := q }, rfl, rfl, ?_⟩
  rw [handleHandshakeMsg, Program.gets_bind, emit_bind, Program.bind_ok hstop,
    dispatchMessage_keyExchange peer ht]
  rcases hd : handleClientKeyExchange env peer state data dataLength
    { w.emitted (.message call) with sendqueue := q } with ⟨e | o, w₂⟩
  · rw [Program.bind_error hd]
  · rw [Program.bind_ok hd]
    have rest : Keeps (Same World.trust) (do
        let res ← finishMessage o
        emit (.handled res)
        pure res : M Int) := by
      refine (trust_finishMessage o).bind fun res => Keeps.bind ?_ fun _ => keeps_pure _
      exact fun w => rfl
    exact rest w₂

/-- A message that is reached replaces the key, and is verified with its own. -/
theorem trust_reached (ht : data.uint8 = dtlsHtClientKeyExchange)
    (hr : KeyExchangeReached w peer state) :
    (handleHandshakeMsg env peer session role state data dataLength w).2.trust
      = (keyExchangeKey data dataLength,
          keyExchangeVerified env data dataLength :: w.trust.2) := by
  obtain ⟨w₁, hheap, htrust, hafter⟩ := @handleHandshakeMsg_trust env _ peer session role state _
    dataLength ht (.inr hr.queue)
  obtain ⟨a, rfl, hp⟩ := hr.params
  obtain ⟨h, hp⟩ := Option.isSome_iff_exists.mp hp
  rw [hafter, hr.waiting, handleClientKeyExchange_trust (h := h) (by rw [hheap, hp]), htrust]

/-- Any other changes nothing. -/
theorem trust_unreached (ht : data.uint8 = dtlsHtClientKeyExchange)
    (hr : ¬ KeyExchangeReached w peer state) :
    (handleHandshakeMsg env peer session role state data dataLength w).2.trust = w.trust := by
  by_cases hq : peer = none ∨ ∀ n ∈ w.sendqueue, n.peer.isSome = true
  · obtain ⟨w₁, hheap, htrust, hafter⟩ := @handleHandshakeMsg_trust env _ peer session role state _
      dataLength ht hq
    rw [hafter, handleClientKeyExchange_untouched, htrust]
    refine or_iff_not_imp_left.mpr fun hs a ha => ?_
    rw [hheap]
    by_contra hp
    exact hr ⟨not_not.mp hs, hq.resolve_left (by rw [ha]; nofun), a, ha,
      Option.isSome_iff_ne_none.mpr hp⟩
  · -- the orphaned packet is dereferenced before the message is looked at
    obtain ⟨hpeer, hqueue⟩ := not_or.mp hq
    obtain ⟨a, rfl⟩ := Option.ne_none_iff_exists'.mp hpeer
    rw [handleHandshakeMsg, Program.gets_bind, emit_bind, stopRetransmissionOf,
      Program.bind_error (stopRetransmission_orphan (w := w.emitted _) hqueue)]
    rfl

/-! ## Two messages with one beginning -/

theorem add_congr {p q : Ptr} {n : Nat} {k : Int} {m : Nat} (hk : 0 ≤ k) (hm : k + m ≤ n)
    (h : ∀ i : Nat, i < n → p i = q i) : ∀ i : Nat, i < m → p.add k i = q.add k i := by
  intro i hi
  have at_k := h (i + k.toNat) (by omega)
  rw [Nat.cast_add, Int.toNat_of_nonneg hk] at at_k
  exact at_k

theorem array_congr {p q : Ptr} {n : Nat} (h : ∀ i : Nat, i < n → p i = q i) :
    p.array n = q.array n := by
  ext i hi
  rw [Ptr.array, Ptr.array, Vector.getElem_ofFn, Vector.getElem_ofFn, h i hi]

/-- The synchronisation is in its 113 bytes. -/
theorem readTeslaSync_congr {p q : Ptr}
    (h : ∀ i : Nat, i < dtlsTeslaSynLength → p i = q i) : readTeslaSync p = readTeslaSync q := by
  have bytes {k : Int} {m : Nat} (hk : 0 ≤ k) (hm : k + m ≤ dtlsTeslaSynLength) :
      (p.add k).bytes m = (q.add k).bytes m := Ptr.bytes_congr (add_congr hk hm h)
  have array {k : Int} {m : Nat} (hk : 0 ≤ k) (hm : k + m ≤ dtlsTeslaSynLength) :
      (p.add k).array m = (q.add k).array m := array_congr (add_congr hk hm h)
  have first : p.array 32 = q.array 32 := array_congr fun i hi => h i (hi.trans (by decide))
  unfold readTeslaSync
  rw [first, bytes (by decide) (by decide), bytes (by decide) (by decide),
    bytes (by decide) (by decide), bytes (by decide) (by decide), bytes (by decide) (by decide),
    bytes (by decide) (by decide), bytes (by decide) (by decide), array (by decide) (by decide)]

/-- The signature is in its 21368 bytes. -/
theorem readKsnmssSig_congr {p q : Ptr} (h : ∀ i : Nat, i < ksnmssSigLength → p i = q i) :
    readKsnmssSig p = readKsnmssSig q := by
  have hlen : ksnmssSigLength = 21368 := rfl
  have id : p.uint64 = q.uint64 := by
    rw [Ptr.uint64, Ptr.uint64, Ptr.bytes_congr fun i hi => h i (hi.trans (by decide))]
  have array {k : Int} {m : Nat} (hk : 0 ≤ k) (hm : k + m ≤ ksnmssSigLength) :
      (p.add k).array m = (q.add k).array m := array_congr (add_congr hk hm h)
  have pk (it : Fin k2snT) : (p.add (1064 + 72 * it.val)).array pklen
      = (q.add (1064 + 72 * it.val)).array pklen := by
    have hit : it.val < 262 := it.isLt
    exact array (by omega) (by show _ + (72 : Int) ≤ _; omega)
  have auth (it : Fin hlength) : (p.add (19928 + 72 * it.val)).array pklen
      = (q.add (19928 + 72 * it.val)).array pklen := by
    have hit : it.val < 20 := it.isLt
    exact array (by omega) (by show _ + (72 : Int) ≤ _; omega)
  unfold readKsnmssSig
  simp only [id, pk, auth, array (k := 8) (m := k2snMsglen) (by decide) (by decide),
    array (k := 40) (m := sklen * 8) (by decide) (by decide)]

/-- Two messages that agree up to their keys, and in these. -/
theorem keyExchange_bytes
    (hsame : ∀ i : Int, i < (dataLength : Int) - 72 → data i = data' i)
    (hkey : keyExchangeKey data dataLength = keyExchangeKey data' dataLength) :
    ∀ i : Int, i < dataLength → data i = data' i := by
  intro i hi
  by_cases hpre : i < (dataLength : Int) - 72
  · exact hsame i hpre
  obtain ⟨j, hj⟩ := Int.eq_ofNat_of_zero_le (a := i - (dataLength - 72)) (by omega)
  have at_j := congrArg (fun v : Vector UInt8 72 => v.toArray[j]?) hkey
  have hlt : j < 72 := by omega
  simp only [keyExchangeKey, Ptr.array, Ptr.add, Vector.toArray_ofFn, Array.getElem?_ofFn, hlt,
    dif_pos, Option.some.injEq, teslaSyncOffset] at at_j
  have hi' : (j : Int) + ((dataLength : Int) - dtlsTeslaSynLength - ksnmssSigLength - 72
      + dtlsTeslaSynLength + ksnmssSigLength) = i := by omega
  rwa [hi'] at at_j

/-- Messages that agree have one outcome. -/
theorem keyExchangeVerified_congr
    (hsame : ∀ i : Int, i < (dataLength : Int) - 72 → data i = data' i)
    (hkey : keyExchangeKey data dataLength = keyExchangeKey data' dataLength) :
    keyExchangeVerified env data dataLength = keyExchangeVerified env data' dataLength := by
  have same := keyExchange_bytes hsame hkey
  have tsync : readTeslaSync (data.add (teslaSyncOffset dataLength))
      = readTeslaSync (data'.add (teslaSyncOffset dataLength)) :=
    readTeslaSync_congr fun i hi => same _ (by unfold teslaSyncOffset; omega)
  have sig : readKsnmssSig (data.add (teslaSyncOffset dataLength + dtlsTeslaSynLength))
      = readKsnmssSig (data'.add (teslaSyncOffset dataLength + dtlsTeslaSynLength)) :=
    readKsnmssSig_congr fun i hi => same _ (by unfold teslaSyncOffset; omega)
  rw [keyExchangeVerified, keyExchangeVerified, keyExchangeHash, keyExchangeHash, hkey, tsync, sig]

/-- **ONE MESSAGE**: for two messages that differ in their last 72 bytes only, the
    outcomes are the same and the root key stays as it is exactly when both carry the
    key that the server holds, if it gets as far as verifying them. -/
theorem anchor_iff (ht : data.uint8 = dtlsHtClientKeyExchange)
    (ht' : data'.uint8 = dtlsHtClientKeyExchange)
    (hsame : ∀ i : Int, i < (dataLength : Int) - 72 → data i = data' i) :
    (verifications
          (handleHandshakeMsg env peer session role state data dataLength w).2.log
        = verifications (handleHandshakeMsg env peer session role state data' dataLength w).2.log ∧
      (handleHandshakeMsg env peer session role state data dataLength w).2.signer.MSSPK
        = w.signer.MSSPK ∧
      (handleHandshakeMsg env peer session role state data' dataLength w).2.signer.MSSPK
        = w.signer.MSSPK) ↔
      (KeyExchangeReached w peer state →
        keyExchangeKey data dataLength = w.signer.MSSPK ∧
          keyExchangeKey data' dataLength = w.signer.MSSPK) := by
  by_cases hr : KeyExchangeReached w peer state
  · have after := Prod.mk.inj (@trust_reached env _ _ session role _ _ dataLength ht hr)
    have after' := Prod.mk.inj (@trust_reached env _ _ session role _ _ dataLength ht' hr)
    rw [after.1, after.2, after'.1, after'.2]
    refine ⟨fun hkeys _ => hkeys.2, fun hkeys => ⟨?_, hkeys hr⟩⟩
    rw [keyExchangeVerified_congr hsame ((hkeys hr).1.trans (hkeys hr).2.symm)]
  · have after := Prod.mk.inj (@trust_unreached env _ _ session role _ _ dataLength ht hr)
    have after' := Prod.mk.inj (@trust_unreached env _ _ session role _ _ dataLength ht' hr)
    rw [after.1, after.2, after'.1, after'.2]
    exact ⟨fun _ hr' => absurd hr' hr, fun _ => ⟨rfl, rfl, rfl⟩⟩

/-! ## Runs -/

/-- Where the root key comes from in a step: it stays, it is generated, or it is the
    one in the message that is being handled. -/
theorem Step.anchor_cases (h : Step env w w') :
    ∃ l, w'.log = l ++ w.log ∧
      (w'.signer.MSSPK = w.signer.MSSPK ∨ .keyGeneration ∈ l ∨
        ∃ c, currentMessage w.log = some c ∧ c.IsKeyExchange ∧
          w'.signer.MSSPK = keyExchangeKey c.data c.dataLength) := by
  cases h with
  | quiet q =>
      obtain ⟨l, hl, ho⟩ := q.log
      exact ⟨l, hl, .inl (by rw [q.signer])⟩
  | storage heap signer log => exact ⟨[], log, .inl (by rw [signer])⟩
  | sign hash r hr => exact ⟨[_], rfl, .inl (TraversalProofs.ksnmssSign_MSSPK hr)⟩
  | keyGeneration => exact ⟨[_], rfl, .inr (.inl List.mem_cons_self)⟩
  | verify c rtt hash result hc hk => exact ⟨[_], rfl, .inr (.inr ⟨c, hc, hk, rfl⟩)⟩
  | newPeer a session => exact ⟨[], rfl, .inl rfl⟩
  | edit a p watched => exact ⟨[], rfl, .inl rfl⟩
  | params a o fresh => exact ⟨[], rfl, .inl rfl⟩
  | buffer a buf fresh => exact ⟨[], rfl, .inl rfl⟩
  | read session data len r a p readable => exact ⟨[_], rfl, .inl rfl⟩
  | state a s entered => exact ⟨[_], rfl, .inl rfl⟩
  | tesla head data len => exact ⟨[_], rfl, .inl rfl⟩
  | record r before => exact ⟨[_], rfl, .inl rfl⟩
  | replay a => exact ⟨[_], rfl, .inl rfl⟩
  | message c before origin => exact ⟨[_], rfl, .inl rfl⟩
  | handled res => exact ⟨[_], rfl, .inl rfl⟩
  | fragment a header buf data dataLength before fits => exact ⟨[_], rfl, .inl rfl⟩
  | deliver c rest last before whole => exact ⟨[_], rfl, .inl rfl⟩

/-- No key was generated, and every ClientKeyExchange that the server waited for came
    with the key `K`. -/
structure Anchored (K : Node) (log : List Event) : Prop where
  generated : .keyGeneration ∉ log
  carried : ∀ c, .message c ∈ log → c.IsKeyExchange → keyExchangeKey c.data c.dataLength = K

theorem Anchored.suffix {K : Node} {l l' : List Event} (h : Anchored K (l' ++ l)) :
    Anchored K l :=
  ⟨fun hk => h.generated (List.mem_append_right l' hk),
    fun c hc => h.carried c (List.mem_append_right l' hc)⟩

/-- **STEP**: the root key. -/
theorem anchored_step (K : Node) (w w' : World) (h : Step env w w')
    (hw : Anchored K w.log → w.signer.MSSPK = K) : Anchored K w'.log → w'.signer.MSSPK = K := by
  intro anchored
  obtain ⟨l, hl, hkey⟩ := h.anchor_cases
  rw [hl] at anchored
  rcases hkey with hkey | hkey | ⟨c, hc, hk, hkey⟩
  · rw [hkey, hw anchored.suffix]
  · exact absurd (List.mem_append_left _ hkey) anchored.generated
  · rw [hkey, anchored.suffix.carried c (mem_log_of_currentMessage hc) hk]

theorem anchored_run (w₀ : World) (is : List Input)
    (h : Anchored w₀.signer.MSSPK (runInputs env is w₀).2.log) :
    (runInputs env is w₀).2.signer.MSSPK = w₀.signer.MSSPK :=
  (steps_runInputs is w₀).invariant (anchored_step w₀.signer.MSSPK) (fun _ => rfl) h

/-- The forged message with another key. -/
def rekeyedKeyExchange : Ptr := fun i =>
  if i < (forgedLength : Int) - 72 then forgedKeyExchange i else 0

/-- The nonce of the last ServerHello that was sent to `session`: its last 32 bytes. -/
def helloNonce (session : Session) : List Event → Option Bytes
  | [] => none
  | .sent dst type payload :: l =>
      if dst = session ∧ type = dtlsCtHandshake ∧ (Ptr.ofBytes payload).uint8 = dtlsHtServerHello then
        some (payload.drop (payload.length - dtlsTeslaReqLength))
      else helloNonce session l
  | _ :: l => helloNonce session l

/-- The nonce of a ServerHello is the one that was drawn for it. -/
theorem helloNonce_sent {w : World} {hs : HandshakeParameters}
    (hp : (w.heap a).handshakeParams = some hs) (h : HandshakeParameters) (nonce : Digest) :
    ∃ r w', dtlsSendHandshakeMsg env a dtlsHtServerHello (serverHello h nonce) w = (.ok r, w') ∧
      helloNonce (w.heap a).session w'.log = some nonce.toList := by
  obtain ⟨front, hfront⟩ : ∃ front, serverHello h nonce = front ++ nonce.toList := ⟨_, rfl⟩
  have hlen : (serverHello h nonce).length < dtlsMaxHsPayload := by
    have size : dtlsMaxHsPayload = 1252 := rfl
    have ext : serverHelloExtensions.length = 18 := rfl
    rw [size, serverHello]
    split <;> split <;>
      simp only [List.length_append, length_randomServer, ext, Vector.length_toList,
        dtlsIntToUint16, length_intToBytes, List.length_cons, List.length_nil] <;> omega
  obtain ⟨r, w', d, hrun, hlog⟩ := @sendHandshakeMsg_short env dtlsHtServerHello _ _ _ _ hp hlen
  refine ⟨r, w', hrun, ?_⟩
  have type : (Ptr.ofBytes (wholeMessage dtlsHtServerHello hs.mseqS (serverHello h nonce))).uint8
      = dtlsHtServerHello := by
    have := congrArg HandshakeHeader.msgType (handshakeHeader_message dtlsHtServerHello
      (serverHello h nonce).length hs.mseqS 0 (serverHello h nonce).length (serverHello h nonce))
    exact this
  rw [hlog]
  simp only [helloNonce, type, and_self, if_true, Option.some.injEq]
  rw [wholeMessage, hfront, ← List.append_assoc]
  refine List.drop_left' ?_
  simp only [List.length_append, Vector.length_toList]
  exact (Nat.add_sub_cancel _ _).symm

/-- The messages that were handled, each with the events before it; the last one first. -/
def calls : List Event → List (HandshakeCall × List Event)
  | [] => []
  | .message c :: l => (c, l) :: calls l
  | _ :: l => calls l

/-- The ClientKeyExchanges with which a peer moved on to the next state. -/
def acceptances : List Event → List (HandshakeCall × List Event)
  | [] => []
  | .state _ _ s :: l =>
      if s = .waitChangeCipherSpec ∨ s = .waitCertificateVerify then
        ((calls l).head?.filter fun x => x.1.data.uint8 = dtlsHtClientKeyExchange).toList ++
          acceptances l
      else acceptances l
  | _ :: l => acceptances l

/-- The message carries the nonce of the ServerHello that its peer was sent. -/
def FreshExchange (x : HandshakeCall × List Event) : Prop :=
  ∃ p, x.1.before = some p ∧
    helloNonce p.session x.2
      = some (readTeslaSync (x.1.data.add (teslaSyncOffset x.1.dataLength))).nonce.toList

theorem currentMessage_eq_head (l : List Event) :
    currentMessage l = (calls l).head?.map Prod.fst := by
  induction l with
  | nil => rfl
  | cons e l ih =>
      cases e with
      | message c => rfl
      | _ => exact ih

theorem calls_mono (l l' : List Event) : calls l ⊆ calls (l' ++ l) := by
  induction l' with
  | nil => exact fun _ h => h
  | cons e l' ih =>
      cases e with
      | message c => exact fun x hx => List.mem_cons_of_mem _ (ih hx)
      | _ => exact ih

theorem acceptances_outside {l l' : List Event} (h : ∀ e ∈ l, e.outside) :
    acceptances (l ++ l') = acceptances l' := by
  induction l with
  | nil => rfl
  | cons e l ih =>
      obtain ⟨he, hl⟩ := List.forall_mem_cons.mp h
      cases e with
      | state a old s => exact he.elim
      | _ => exact ih hl

/-- What was accepted was waited for, and as long as its cipher suite asks for. -/
def Accepted (w : World) : Prop :=
  ∀ x ∈ acceptances w.log, x ∈ calls w.log ∧ ∃ a, x.1.IsExchange a

/-- **STEP**: what is accepted. -/
theorem accepted_step (w w' : World) (h : Step env w w') (hw : Accepted w) : Accepted w' := by
  have same {l : List Event} (hl : w'.log = l ++ w.log)
      (ha : acceptances w'.log = acceptances w.log) : Accepted w' := by
    intro x hx
    rw [ha] at hx
    exact ⟨hl ▸ calls_mono _ _ (hw x hx).1, (hw x hx).2⟩
  rcases h.known with ⟨l, hl, ho⟩ | ⟨e, he, known⟩
  · exact same hl (by rw [hl, acceptances_outside ho])
  cases e with
  | state a old s =>
      by_cases hs : s = .waitChangeCipherSpec ∨ s = .waitCertificateVerify
      · intro x hx
        rw [he, acceptances, if_pos hs, List.mem_append, Option.mem_toList,
          Option.filter_eq_some_iff] at hx
        rcases hx with ⟨hx, htype⟩ | hx
        · have hc : currentMessage w.log = some x.1 := by
            rw [currentMessage_eq_head, hx]
            rfl
          refine ⟨?_, a, known.2.exchanged hs x.1 hc (of_decide_eq_true htype)⟩
          rw [he]
          exact List.mem_of_mem_head? hx
        · exact ⟨he ▸ (hw x hx).1, (hw x hx).2⟩
      · exact same (l := [_]) he (by rw [he, acceptances, if_neg hs])
  | _ => exact same (l := [_]) he (by rw [he]; rfl)

theorem accepted_initial (w : World) (h : Initial w) : Accepted w := by
  unfold Accepted
  rw [h.log]
  exact List.forall_mem_nil _

/-- A message for the peer at `a` carries the nonce of the ServerHello it was sent. -/
def CarriesNonce (w : World) (a : Addr) (data : Ptr) (dataLength : Nat) : Prop :=
  helloNonce (w.heap a).session w.log
    = some (readTeslaSync (data.add (teslaSyncOffset dataLength))).nonce.toList

theorem acceptances_fresh (hw : Reachable env w)
    (hall : ∀ x ∈ calls w.log, (∃ a, x.1.IsExchange a) → FreshExchange x) :
    ∀ x ∈ acceptances w.log, FreshExchange x := by
  intro x hx
  obtain ⟨hcall, hex⟩ := hw.invariant accepted_step accepted_initial x hx
  exact hall x hcall hex

end PqDtls.Dtls
