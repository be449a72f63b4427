import PqDtls.Dtls.Runs

/-! # The signature of a ClientKeyExchange

    A server that waits for a ClientKeyExchange verifies the signature in it, prints
    the outcome and goes on: what decides is the length check of
    `check_client_keyexchange` alone.  `movesOn_iff` is this, for every message;
    the gate that the signature was meant to be follows where the two agree. -/

namespace PqDtls.Dtls

open Program (get gets modify stop ofOption when Keeps)
open Ksnmss

variable {env : Env} {w w' : World} {a : Addr} {h : HandshakeParameters} {session : Session}
  {role : DtlsPeerType} {state : DtlsState} {data : Ptr} {dataLength : Nat}

/-- The peer has left the state in which it waits for a ClientKeyExchange. -/
def MovesOn (w w' : World) (a : Addr) : Prop :=
  (w.heap a).state = .waitClientKeyExchange ∧
    ((w'.heap a).state = .waitChangeCipherSpec ∨ (w'.heap a).state = .waitCertificateVerify)

/-- A server waits for the message, and it is as long as its cipher suite asks for.
    (Every packet queued for retransmission belongs to a peer.) -/
structure KeyExchangeAccepted (w : World) (a : Addr) (state : DtlsState) (data : Ptr)
    (dataLength : Nat) : Prop where
  waiting : state = .waitClientKeyExchange ∧ (w.heap a).state = .waitClientKeyExchange
  queue : ∀ n ∈ w.sendqueue, n.peer.isSome = true
  lengths : ∃ h, (w.heap a).handshakeParams = some h ∧
    0 ≤ keyExchangeError h.cipher data dataLength

/-! ## Running the handler -/

/-- The length check does not stop. -/
theorem checkClientKeyExchange_returns (hp : (w.heap a).handshakeParams = some h) :
    ∃ w', checkClientKeyExchange a h data dataLength w
      = (.ok (keyExchangeError h.cipher data dataLength), w') := by
  have returns : ∃ err w', checkClientKeyExchange a h data dataLength w = (.ok err, w') := by
    have write (f : HandshakeParameters → HandshakeParameters) :
        ∃ err w', (modifyHandshake a f >>= fun _ => (pure 0 : M Int)) w = (.ok err, w') :=
      ⟨0, _, Program.bind_ok (modifyHandshake_some f hp) _⟩
    unfold checkClientKeyExchange
    split
    · split
      · exact ⟨_, _, rfl⟩
      split
      · exact ⟨_, _, rfl⟩
      split
      · exact ⟨_, _, rfl⟩
      · exact write _
    split
    · split
      · exact ⟨_, _, rfl⟩
      simp only
      split
      · exact ⟨_, _, rfl⟩
      split
      · exact ⟨_, _, rfl⟩
      · exact write _
    · exact ⟨_, _, rfl⟩
  obtain ⟨err, w', hrun⟩ := returns
  exact ⟨w', by rw [hrun, checkClientKeyExchange_ok hrun]⟩

/-- The rest of the branch, whatever the verification said. -/
theorem keyExchange_rest (tsync : TeslaSync) (pk : Node) (hash : Digest)
    (verified : Option Nat) (err : Int) (hp : (w.heap a).handshakeParams = some h) :
    ∃ h' w', (do
        takeTeslaSync tsync pk hash verified
        if err < 0 then pure (.ret err)
        else do
        updateHsHash a (data.bytes dataLength)
        let h ← getHandshake a
        setState a (keyExchanged env h)
        pure (.done (some a) err) : M Outcome) w
      = (.ok (if err < 0 then .ret err else .done (some a) err), w') ∧
      (w'.heap a).state = if err < 0 then (w.heap a).state else keyExchanged env h' := by
  let w₁ := (takeTeslaSync tsync pk hash verified w).2
  have take : takeTeslaSync tsync pk hash verified w = (.ok (), w₁) := rfl
  have hp₁ : (w₁.heap a).handshakeParams = some h := hp
  rw [Program.bind_ok take]
  by_cases hneg : err < 0
  · simp only [if_pos hneg]
    exact ⟨h, w₁, rfl, rfl⟩
  · simp only [if_neg hneg]
    rw [updateHsHash, Program.bind_ok (modifyHandshake_some _ hp₁),
      Program.bind_ok (getHandshake_apply (by rw [heap_setPeer])), setState_bind]
    refine ⟨{ h with hsHash := h.hsHash ++ data.bytes dataLength }, _, rfl, ?_⟩
    rw [heap_setPeer]

theorem handleClientKeyExchange_state (hp : (w.heap a).handshakeParams = some h) :
    ∃ o w' h', handleClientKeyExchange env (some a) .waitClientKeyExchange data dataLength w
        = (.ok o, w') ∧
      (w'.heap a).state = if keyExchangeError h.cipher data dataLength < 0 then (w.heap a).state
        else keyExchanged env h' := by
  obtain ⟨w₁, hcheck⟩ := @checkClientKeyExchange_returns _ _ _ data dataLength hp
  have quiet : Quiet w w₁ := by
    have := quietTacit.still.checkClientKeyExchange a h data dataLength w
    rwa [hcheck] at this
  obtain ⟨h₁, hp₁, -⟩ := quiet.params hp
  obtain ⟨h', w', hrest, hstate⟩ := @keyExchange_rest env _ _ _ data dataLength
    (readTeslaSync (data.add (teslaSyncOffset dataLength))) (keyExchangeKey data dataLength)
    (keyExchangeHash env data dataLength) (keyExchangeVerified env data dataLength)
    (keyExchangeError h.cipher data dataLength) hp₁
  refine ⟨if keyExchangeError h.cipher data dataLength < 0 then
    .ret (keyExchangeError h.cipher data dataLength)
    else .done (some a) (keyExchangeError h.cipher data dataLength), w', h', ?_, ?_⟩
  · rw [handleClientKeyExchange, if_neg (by decide), withHandshake, getPeer_bind]
    simp only [hp]
    rw [Program.bind_ok hcheck]
    exact hrest
  · rw [hstate, quiet.peerState]

/-- Without handshake parameters, or in another state, the message is refused. -/
theorem handleClientKeyExchange_refused
    (hno : state ≠ .waitClientKeyExchange ∨ (w.heap a).handshakeParams = none) :
    (handleClientKeyExchange env (some a) state data dataLength w).2 = w := by
  by_cases hs : state ≠ .waitClientKeyExchange
  · rw [handleClientKeyExchange, if_pos hs]
    rfl
  · have hp := hno.resolve_left hs
    rw [handleClientKeyExchange, if_neg hs, withHandshake, getPeer_bind]
    simp only [hp]
    rfl

theorem dispatchMessage_keyExchange (peer : Option Addr)
    (ht : data.uint8 = dtlsHtClientKeyExchange) :
    dispatchMessage env peer session role state data dataLength
      = handleClientKeyExchange env peer state data dataLength := by
  unfold dispatchMessage
  simp only [ht]
  rfl

theorem finishMessage_state (o : Outcome) (w : World) (a : Addr) :
    (((finishMessage o w).2).heap a).state = (w.heap a).state := by
  cases o with
  | ret err => rfl
  | done peer err =>
      cases peer with
      | none => rfl
      | some b =>
          simp only [finishMessage, when]
          split
          · rw [modifyPeer_bind]
            show ((w.setPeer b _).heap a).state = _
            by_cases hb : a = b
            · subst hb
              rw [heap_setPeer]
              rfl
            · rw [heap_setPeer_ne _ hb]
          · rfl

theorem stopRetransmission_ok (hq : ∀ n ∈ w.sendqueue, n.peer.isSome = true) :
    ∃ q, dtlsStopRetransmission a w = (.ok (), { w with sendqueue := q }) := by
  have queued : ¬ (w.sendqueue.any (·.peer.isNone) = true) := by
    rw [List.any_eq_true]
    rintro ⟨n, hn, hnone⟩
    rw [Option.isNone_iff_eq_none] at hnone
    have hsome := hq n hn
    rw [hnone] at hsome
    exact nomatch hsome
  rw [dtlsStopRetransmission, Program.get_bind, if_neg queued]
  exact ⟨_, rfl⟩

theorem stopRetransmission_orphan (hq : ¬ ∀ n ∈ w.sendqueue, n.peer.isSome = true) :
    dtlsStopRetransmission a w = (.error .nullDeref, w) := by
  have orphan : w.sendqueue.any (·.peer.isNone) = true := by
    rw [List.any_eq_true]
    by_contra hno
    refine hq fun n hn => ?_
    cases hp : n.peer with
    | none => exact absurd ⟨n, hn, by rw [hp]; rfl⟩ hno
    | some a => rfl
  rw [dtlsStopRetransmission, Program.get_bind, if_pos orphan]
  rfl

/-- The state of a peer after a message is what the handler leaves. -/
theorem handleHandshakeMsg_state (hq : ∀ n ∈ w.sendqueue, n.peer.isSome = true) :
    ∃ w₁, w₁.heap = w.heap ∧
      ((handleHandshakeMsg env (some a) session role state data dataLength w).2.heap a).state
        = (((dispatchMessage env (some a) session role state data dataLength w₁).2).heap a).state := by
  let call : HandshakeCall := ⟨some a, role, state, some (w.heap a), data, dataLength⟩
  obtain ⟨q, hstop⟩ := stopRetransmission_ok (w := w.emitted (.message call)) (a := a) hq
  refine ⟨{ w.emitted (.message call) with sendqueue := q }, rfl, ?_⟩
  rw [handleHandshakeMsg, Program.gets_bind, emit_bind, stopRetransmissionOf]
  show ((((dtlsStopRetransmission a >>= _) (w.emitted (.message call))).2).heap a).state = _
  rw [Program.bind_ok hstop, Program.bind_apply]
  rcases hd : dispatchMessage env (some a) session role state data dataLength
    { w.emitted (.message call) with sendqueue := q } with ⟨e | o, w₂⟩
  · rfl
  · simp only [Program.bind_apply (finishMessage o)]
    have hstate := finishMessage_state o w₂ a
    rcases hf : finishMessage o w₂ with ⟨e | res, w₃⟩
    · rw [hf] at hstate
      exact hstate
    · rw [hf] at hstate
      exact hstate

theorem keyExchanged_next (h : HandshakeParameters) :
    keyExchanged env h = .waitChangeCipherSpec ∨ keyExchanged env h = .waitCertificateVerify :=
  (keyExchanged_cases h).symm

/-- A message that is refused leaves the peer where it is. -/
theorem not_movesOn (hstate : ((w'.heap a).state) = (w.heap a).state) : ¬ MovesOn w w' a := by
  rintro ⟨hwait, hnext | hnext⟩
  · rw [hstate, hwait] at hnext
    exact nomatch hnext
  · rw [hstate, hwait] at hnext
    exact nomatch hnext

/-! ## What decides -/

/-- **What decides is the length check.** -/
theorem movesOn_iff (ht : data.uint8 = dtlsHtClientKeyExchange) :
    MovesOn w (handleHandshakeMsg env (some a) session role state data dataLength w).2 a ↔
      KeyExchangeAccepted w a state data dataLength := by
  by_cases hq : ∀ n ∈ w.sendqueue, n.peer.isSome = true
  swap
  · -- the orphaned packet is dereferenced before the message is looked at
    have hstop : (handleHandshakeMsg env (some a) session role state data dataLength w).2.heap
        = w.heap := by
      rw [handleHandshakeMsg, Program.gets_bind, emit_bind, stopRetransmissionOf,
        Program.bind_error (stopRetransmission_orphan (w := w.emitted _) hq)]
      rfl
    exact ⟨fun hm => absurd hm (not_movesOn (by rw [hstop])), fun ha => absurd ha.queue hq⟩
  obtain ⟨w₁, hheap, hstate⟩ := @handleHandshakeMsg_state env w a session role state data
    dataLength hq
  rw [dispatchMessage_keyExchange (some a) ht] at hstate
  by_cases hs : state = .waitClientKeyExchange
  swap
  · rw [handleClientKeyExchange_refused (.inl hs), hheap] at hstate
    exact ⟨fun hm => absurd hm (not_movesOn hstate), fun ha => absurd ha.waiting.1 hs⟩
  subst hs
  cases hp : (w.heap a).handshakeParams with
  | none =>
      rw [handleClientKeyExchange_refused (.inr (by rw [hheap, hp])), hheap] at hstate
      refine ⟨fun hm => absurd hm (not_movesOn hstate), fun ha => ?_⟩
      obtain ⟨h, hsome, -⟩ := ha.lengths
      cases hp.symm.trans hsome
  | some h =>
      obtain ⟨o, w₂, h', hrun, hafter⟩ := @handleClientKeyExchange_state env w₁ a h data
        dataLength (by rw [hheap, hp])
      rw [hrun] at hstate
      replace hstate := hstate.trans hafter
      constructor
      · intro hm
        refine ⟨⟨rfl, hm.1⟩, hq, h, hp, not_lt.mp fun hneg => ?_⟩
        rw [if_pos hneg, hheap] at hstate
        exact not_movesOn hstate hm
      · intro ha
        obtain ⟨h₀, hp₀, hlen⟩ := ha.lengths
        cases hp.symm.trans hp₀
        rw [if_neg (not_lt.mpr hlen)] at hstate
        refine ⟨ha.waiting.2, ?_⟩
        rw [hstate]
        exact keyExchanged_next h'

/-- A ClientKeyExchange for the identity of length 0; the signature is all ones. -/
def forgedKeyExchange : Ptr := fun i =>
  if i = 0 then UInt8.ofNat dtlsHtClientKeyExchange else if i < 14 then 0 else 255

def forgedLength : Nat :=
  dtlsHsLength + dtlsCkxpskLengthMin + dtlsTeslaSynLength + ksnmssSigLength + 72

theorem helloReceived_accepts :
    KeyExchangeAccepted (runInputs sampleEnv helloReceived sampleWorld).2 0
      .waitClientKeyExchange forgedKeyExchange forgedLength := by
  have state : ((runInputs sampleEnv helloReceived sampleWorld).2.heap 0).state
      = .waitClientKeyExchange := by decide +kernel
  have queue : ∀ n ∈ (runInputs sampleEnv helloReceived sampleWorld).2.sendqueue,
      n.peer.isSome = true := by decide +kernel
  have cipher : ((runInputs sampleEnv helloReceived sampleWorld).2.heap 0).handshakeParams.map
      (·.cipher) = some tlsPskWithAes128Ccm8 := by decide +kernel
  obtain ⟨h, hp, hcipher⟩ := Option.map_eq_some_iff.mp cipher
  refine ⟨⟨rfl, state⟩, queue, h, hp, ?_⟩
  rw [hcipher]
  decide +kernel

theorem forged_rejected :
    keyExchangeVerified sampleEnv forgedKeyExchange forgedLength = some 3 := by
  have large : (readKsnmssSig (forgedKeyExchange.add
      (teslaSyncOffset forgedLength + dtlsTeslaSynLength))).sksum.any (· > 131) = true := by
    rw [Vector.any_eq_true]
    refine ⟨0, by decide, ?_⟩
    simp only [readKsnmssSig, Ptr.array, Vector.getElem_ofFn]
    decide
  unfold keyExchangeVerified ksnmssVerify
  rw [if_pos large]

end PqDtls.Dtls
