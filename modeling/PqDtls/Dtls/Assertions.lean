import PqDtls.Dtls.Suites

/-! # Assertions

    The rest of the engine around the handlers, and runs: **`assertions_hold`** says
    that only a CertificateRequest in a PSK handshake makes an assertion fail. -/

namespace PqDtls.Dtls

open Program (get gets modify stop ofOption when Confined ConfinedFrom confined_pure
  confinedFrom_pure confined_get confined_gets confined_stop)

variable {env : Env} {α : Type} {w w' : World} {a : Addr} {X : World → Prop} {P : Suites → Prop}
  {peer : Option Addr} {session : Session} {role : DtlsPeerType} {state : DtlsState} {data : Ptr}
  {dataLength : Nat}

/-! ## Calls of the application -/

theorem sound_handshakeNew (hw : Suited Certified w) (hs : (w.suites a).1.certified = false) :
    SoundFrom X (dtlsHandshakeNew env a) w := by
  rw [SoundFrom, ConfinedFrom, handshakeNew_eq]
  refine ⟨fun h => ?_, ?_⟩
  · cases h
  rw [Suited, suites_setPeer]
  exact certified_other hw a hs

theorem sound_sendClientHello (a : Addr) : Sound X P (dtlsSendClientHello env a []) :=
  confined_sendClientHello (guard_assert P a) []

/-- A ClientHello is sent, and the peer waits for the answer. -/
theorem sound_startHandshake (a : Addr) :
    Sound X Certified (do
      let err ← dtlsSendClientHello env a []
      when (0 ≤ err) (setState a .clientHello)
      pure err : M Int) :=
  (sound_sendClientHello a).bind fun _ => (Confined.when fun _ => sound_setState rfl).bind fun _ =>
    confined_pure _

theorem sound_renegotiate (dst : Session) : Sound X Certified (dtlsRenegotiate env dst) := by
  refine (confined_gets _).bind fun peer => ?_
  cases peer with
  | none => exact confined_pure _
  | some a =>
      intro w hw
      refine (confined_gets _ w hw).bind (fun _ => id) fun p w₁ hok hw₁ => ?_
      cases hok
      refine ConfinedFrom.ite (fun _ => confinedFrom_pure hw) fun hstate => ?_
      have connected : (w.suites a).1 = .connected := not_not.mp hstate
      refine (sound_handshakeNew hw ?_).bind (fun _ => id) fun found w₂ _ hw₂ => ?_
      · rw [connected]
        rfl
      refine ConfinedFrom.ite (fun _ => confinedFrom_pure hw₂) fun _ => ?_
      refine ConfinedFrom.ite (fun _ => sound_startHandshake a w₂ hw₂) fun _ => ?_
      refine (confined_gets _ w₂ hw₂).bind (fun _ => id) fun p w₃ _ hw₃ => ?_
      refine confined_sendHandshakeMsgHash ?_ w₃ hw₃
      exact nofun

/-- Equal sessions are equal to the same sessions. -/
theorem sessionEquals_congr {x y : Session} (h : dtlsSessionEquals x y = true) (z : Session) :
    dtlsSessionEquals z x = dtlsSessionEquals z y := by
  unfold dtlsSessionEquals at h ⊢
  split at h
  · cases h
  rename_i same
  obtain ⟨ifindex, same⟩ := not_or.mp same
  obtain ⟨size, family⟩ := not_or.mp same
  rw [not_not.mp ifindex, not_not.mp size, not_not.mp family]
  rw [not_not.mp family] at h
  split
  · rfl
  rename_i differs
  have family : z.family = y.family := not_not.mp (not_or.mp (not_or.mp differs).2).2
  rw [family]
  split at h
  · rename_i hinet
    obtain ⟨port, addr⟩ := of_decide_eq_true h
    rw [if_pos hinet, if_pos hinet, port, addr]
  split at h
  · rename_i hinet hinet6
    obtain ⟨port, addr⟩ := of_decide_eq_true h
    rw [if_neg hinet, if_pos hinet6, if_neg hinet, if_pos hinet6, port, addr]
  · cases h

/-- A peer that was found is found by its own session. -/
theorem getPeer_again {dst : Session} (h : dtlsGetPeer dst w = (.ok (some a), w)) :
    dtlsGetPeer (w.heap a).session w = (.ok (some a), w) := by
  have found : w.peers.find? (fun b => dtlsSessionEquals (w.heap b).session dst) = some a :=
    Except.ok.inj (Prod.mk.inj h).1
  have equal := List.find?_some found
  have same : (fun b => dtlsSessionEquals (w.heap b).session (w.heap a).session)
      = fun b => dtlsSessionEquals (w.heap b).session dst :=
    funext fun b => sessionEquals_congr equal _
  rw [← same] at found
  exact congrArg (fun r => (Except.ok r, w)) found

theorem sound_connectPeer (hw : Suited Certified w)
    (ha : dtlsGetPeer (w.heap a).session w = (.ok (some a), w) ∨
      (w.suites a).1.certified = false) :
    SoundFrom X (dtlsConnectPeer env a) w := by
  refine (confined_gets _ w hw).bind (fun _ => id) fun p w₁ hok hw₁ => ?_
  cases hok
  refine (confined_gets _ w hw).bind (fun _ => id) fun found w₁ hok hw₁ => ?_
  refine ConfinedFrom.ite (fun _ => sound_renegotiate _ w₁ hw₁) fun hnew => ?_
  have state : (w.suites a).1.certified = false := by
    rcases ha with ha | ha
    · cases hok.symm.trans ha
      exact absurd rfl hnew
    · exact ha
  cases hok
  have hboth : Suited (CertifiedIn a (w.suites a).1) w := ⟨hw, rfl⟩
  refine (confined_modifyPeer ?_ w hboth).bind (fun _ h => h.1) fun _ w₁ _ hw₁ => ?_
  · exact fun _ => rfl
  refine ConfinedFrom.bind (confined_globals ?_ w₁ hw₁) (fun _ h => h.1) fun _ w₂ _ hw₂ => ?_
  · exact fun _ => rfl
  refine ConfinedFrom.bind (confined_globals ?_ w₂ hw₂) (fun _ h => h.1) fun _ w₃ _ hw₃ => ?_
  · exact fun _ => rfl
  refine (confined_emit _ w₃ hw₃).bind (fun _ h => h.1) fun _ w₄ _ hw₄ => ?_
  refine (sound_handshakeNew hw₄.1 ?_).bind (fun _ => id) fun found w₅ _ hw₅ => ?_
  · rw [hw₄.2]
    exact state
  refine ConfinedFrom.ite (fun _ => confinedFrom_pure hw₅) fun _ => ?_
  refine (confined_ticks w₅ hw₅).bind (fun _ => id) fun startRtt w₆ _ hw₆ => ?_
  refine ConfinedFrom.bind (confined_globals ?_ w₆ hw₆) (fun _ => id) fun _ w₇ _ hw₇ => ?_
  · exact fun _ => rfl
  exact (confined_ticks w₇ hw₇).bind (fun _ => id) fun _ w₈ _ hw₈ => sound_startHandshake a w₈ hw₈

theorem sound_connect (dst : Session) : Sound X Certified (dtlsConnect env dst) := by
  intro w hw
  -- the peer is an old one, which renegotiates, or a new one
  have target : ConfinedFrom .assertFailed X (Suited Certified) (connectTarget env dst) w ∧
      ∀ a w', connectTarget env dst w = (.ok (some a), w') →
        dtlsGetPeer (w'.heap a).session w' = (.ok (some a), w') ∨
          (w'.suites a).1.certified = false := by
    unfold connectTarget
    rcases hfound : w.peers.find? fun b => dtlsSessionEquals (w.heap b).session dst with _ | b
    · have none : dtlsGetPeer dst w = (.ok none, w) := congrArg (fun r => (Except.ok r, w)) hfound
      refine ⟨?_, fun a w' h => ?_⟩
      · rw [ConfinedFrom, Program.bind_ok none]
        exact confined_newPeer fresh_certified dst w hw
      · rw [Program.bind_ok none] at h
        refine .inr ?_
        rw [newPeer_init h]
        rfl
    · have some : dtlsGetPeer dst w = (.ok (some b), w) := congrArg (fun r => (Except.ok r, w)) hfound
      refine ⟨?_, fun a w' h => ?_⟩
      · rw [ConfinedFrom, Program.bind_ok some]
        exact confinedFrom_pure hw
      · rw [Program.bind_ok some] at h
        cases h
        exact .inl (getPeer_again some)
  refine target.1.bind (fun _ => id) fun peer w₁ hok hw₁ => ?_
  cases peer with
  | none => exact confinedFrom_pure hw₁
  | some a =>
      refine (sound_connectPeer hw₁ (target.2 a w₁ hok)).bind (fun _ => id) fun res w₂ _ hw₂ => ?_
      refine (confined_gets _ w₂ hw₂).bind (fun _ => id) fun p w₃ _ hw₃ => ?_
      exact ((Confined.when fun _ => sound_callEvent _ _ _).bind fun _ =>
        (Confined.when fun _ => sound_callEvent _ _ _).bind fun _ => confined_pure _) w₃ hw₃

theorem sound_teslaPayload (head : Addr) (buf : Ptr) (len : Nat) :
    Sound X P (teslaPayload env head buf len) := by
  refine confined_get.bind fun w => Confined.ite (fun _ => confined_pure _) fun _ => ?_
  exact Confined.bind (confined_modifyPeer fun _ => rfl) fun _ => confined_pure _

theorem sound_writeConnected (a : Addr) (buf : Ptr) (len : Nat) :
    Sound X P (writeConnected env a buf len) := by
  refine (confined_gets _).bind fun peers => (sound_deref _).bind fun head => ?_
  refine (confined_gets _).bind fun p => Confined.ite (fun _ => confined_stop nofun) fun _ => ?_
  refine (sound_teslaPayload head buf len).bind fun payload => ?_
  exact Confined.bind (confined_modifyPeer fun _ => rfl) fun _ => sound_send a _ _

theorem sound_write (dst : Session) (buf : Ptr) (len : Nat) :
    Sound X Certified (dtlsWrite env dst buf len) := by
  refine (confined_gets _).bind fun peer => ?_
  cases peer with
  | none => exact (sound_connect dst).bind fun _ => confined_pure _
  | some a =>
      exact (confined_gets _).bind fun p => Confined.ite (fun _ => confined_pure _) fun _ =>
        sound_writeConnected a buf len

theorem sound_close (remote : Session) : Sound X Certified (dtlsClose env remote) := by
  refine (confined_gets _).bind fun peer => ?_
  cases peer with
  | none => exact confined_pure _
  | some a =>
      exact (sound_sendAlert a _ _).bind fun _ => (sound_setState rfl).bind fun _ => confined_pure _

theorem sound_destroyPeer (a : Addr) : Sound X Certified (dtlsDestroyPeer env a) := by
  refine (confined_gets _).bind fun p => Confined.bind (Confined.when fun _ => ?_) fun _ => ?_
  · exact (sound_close p.session).bind fun _ => confined_pure _
  refine Confined.bind ?_ fun _ => confined_freePeer (by decide) a
  exact confined_globals fun _ => rfl

theorem sound_runAppCall (call : AppCall) : Sound X Certified (runAppCall env call) := by
  cases call with
  | write session buf len => exact (sound_write session buf len).bind fun _ => confined_pure _
  | connect session => exact (sound_connect session).bind fun _ => confined_pure _
  | renegotiate session => exact (sound_renegotiate session).bind fun _ => confined_pure _
  | close session => exact (sound_close session).bind fun _ => confined_pure _

theorem sound_runAppCalls (calls : List AppCall) : Sound X Certified (runAppCalls env calls) := by
  induction calls with
  | nil => exact confined_pure _
  | cons call calls ih => exact (sound_runAppCall call).bind fun _ => ih

/-! ## Records -/

theorem sound_handleCcs (peer : Option Addr) (data : Ptr) (dataLength : Nat) :
    Sound X Certified (handleCcs env peer data dataLength) := by
  cases peer with
  | none => exact confined_pure _
  | some a =>
      refine (confined_gets _).bind fun p => Confined.ite (fun _ => confined_pure _) fun _ => ?_
      refine Confined.ite (fun _ => confined_pure _) fun _ => Confined.bind ?_ fun err => ?_
      · exact Confined.ite (fun _ => confined_pure _) fun _ => sound_calculateKeyBlock a _
      · exact Confined.ite (fun _ => confined_pure _) fun _ =>
          (sound_setState rfl).bind fun _ => confined_pure _

theorem sound_answerClose (a : Addr) : Sound X Certified (answerClose env a) := by
  refine (confined_gets _).bind fun p => Confined.ite (fun _ => ?_) fun _ => sound_setState rfl
  exact (sound_setState rfl).bind fun _ => (sound_sendAlert a _ _).bind fun _ => confined_pure _

theorem sound_handleAlert (peer : Option Addr) (data : Ptr) (dataLength : Nat) :
    Sound X Certified (handleAlert env peer data dataLength) := by
  refine Confined.ite (fun _ => confined_pure _) fun _ => ?_
  cases peer with
  | none => exact confined_pure _
  | some a =>
      refine Confined.bind (Confined.when fun _ => ?_) fun _ => (confined_gets _).bind fun p => ?_
      · exact confined_globals fun _ => rfl
      refine (sound_callEvent _ _ _).bind fun _ => ?_
      refine (Confined.when fun _ => sound_answerClose a).bind fun _ => ?_
      refine Confined.ite (fun _ => ?_) fun _ => confined_pure _
      exact (sound_stopRetransmission a).bind fun _ => (sound_destroyPeer a).bind fun _ =>
        confined_pure _

theorem sound_alertSendFromErr (peer : Option Addr) (session : Session) (err : Int) :
    Sound X Certified (dtlsAlertSendFromErr env peer session err) := by
  unfold dtlsAlertSendFromErr
  cases alertFromErr err with
  | none => exact confined_pure _
  | some alert =>
      refine (confined_gets _).bind fun found => ?_
      cases peer <|> found with
      | none => exact confined_pure _
      | some a => exact (sound_setState rfl).bind fun _ => sound_sendAlert a _ _

theorem sound_receiveTesla (data : Ptr) (len : Int) : Sound X P (receiveTesla env data len) := by
  refine (confined_gets _).bind fun peers => (sound_deref _).bind fun head => ?_
  refine (confined_gets _).bind fun p => Confined.bind ?_ fun _ => ?_
  · exact confined_timeofday.bind fun _ => confined_get.bind fun _ => confined_emit _
  refine Confined.ite (fun _ => confined_stop nofun) fun _ => (confined_emit _).bind fun _ => ?_
  exact confined_modifyPeer fun _ => rfl

theorem sound_handleApplicationData (a : Addr) (data : Ptr) (dataLength : Nat) :
    Sound X Certified (handleApplicationData env a data dataLength) := by
  refine (sound_stopRetransmission a).bind fun _ => (sound_receiveTesla data _).bind fun _ => ?_
  refine (confined_gets _).bind fun p => confined_nextTick.bind fun t => ?_
  exact (confined_emit _).bind fun _ => sound_runAppCalls _

theorem sound_rejectRecord (a : Addr) (p : Peer) : Sound X Certified (rejectRecord env a p) := by
  refine Confined.ite (fun _ => ?_) fun _ => confined_pure _
  refine (sound_alertSendFromErr _ _ _).bind fun _ => (sound_setState rfl).bind fun _ => ?_
  exact (sound_stopRetransmission a).bind fun _ => (sound_destroyPeer a).bind
    fun _ => confined_pure _

theorem sound_openPeerRecord (peer : Option Addr) (msg : Ptr) (rlen : Nat) :
    Sound X Certified (openPeerRecord env peer msg rlen) := by
  cases peer with
  | none => exact confined_pure _
  | some a =>
      refine (sound_decryptVerify a msg rlen).bind fun opened => (confined_gets _).bind fun p => ?_
      refine Confined.ite (fun _ => Confined.ite (fun _ => confined_pure _) fun _ => ?_) fun _ =>
        confined_pure _
      exact (sound_rejectRecord a p).bind fun _ => confined_pure _

/-- A record of a known peer is taken for the start of a handshake in one state only. -/
theorem openPeerRecord_inState {msg : Ptr} {rlen : Nat} {r : OpenRecord}
    (hrun : openPeerRecord env peer msg rlen w = (.ok (.ok r), w')) :
    InState peer r.state w'.suites := by
  intro a hpeer
  subst hpeer
  obtain ⟨p', hopened, -, -, -⟩ := @decryptVerify_apply env a msg rlen w
  rw [openPeerRecord, Program.bind_ok hopened, getPeer_bind, heap_setPeer] at hrun
  split at hrun
  · split at hrun
    · rename_i hattempt
      cases hrun
      refine .inr ⟨rfl, ?_⟩
      rw [World.suites, heap_setPeer]
      exact hsAttempt_connected hattempt
    · rw [Program.bind_apply] at hrun
      split at hrun
      · cases (Prod.mk.inj hrun).1
      · cases (Prod.mk.inj hrun).1
  · cases hrun
    refine .inl ?_
    rw [World.suites, heap_setPeer]
    rfl

theorem checkEpoch_inState {r r' : OpenRecord} (hf : InState peer r.state w.suites)
    (hrun : checkEpoch peer r w = (.ok (some r'), w')) :
    w' = w ∧ InState peer r'.state w.suites := by
  cases peer with
  | none =>
      cases hrun
      exact ⟨rfl, hf⟩
  | some a =>
      rw [checkEpoch, getPeer_bind] at hrun
      cases hs : (w.heap a).security0 with
      | none =>
          rw [hs] at hrun
          cases hrun
          exact ⟨rfl, hf⟩
      | some s =>
          simp only [hs] at hrun
          split at hrun
          · cases hrun
            exact ⟨rfl, hf⟩
          split at hrun
          · rename_i hattempt
            cases hrun
            refine ⟨rfl, fun b hb => .inr ⟨rfl, ?_⟩⟩
            cases hb
            exact hsAttempt_connected hattempt
          · cases (Prod.mk.inj hrun).1

theorem sound_handshakeHandled (peer : Option Addr) (session : Session) (err : Int) :
    Sound X Certified (handshakeHandled env peer session err) := by
  refine Confined.ite (fun _ => confined_pure _) fun _ => Confined.ite (fun _ => ?_) fun _ => ?_
  · exact (sound_alertSendFromErr peer session err).bind fun _ => confined_pure _
  cases peer with
  | none => exact confined_pure _
  | some a =>
      refine (confined_gets _).bind fun p => Confined.bind (Confined.when fun _ => ?_) fun _ =>
        confined_pure _
      exact (sound_stopRetransmission a).bind fun _ => sound_callEvent _ _ _

theorem sound_handleHandshakeRecord (hint : HintFits env) {r : OpenRecord}
    (hw : Suited Certified w) (hf : InState peer r.state w.suites) :
    SoundFrom Asserted (handleHandshakeRecord env peer session r) w := by
  have epoch : SoundFrom Asserted (checkEpoch peer r) w := by
    refine Sound.from ?_ (fun _ => id) hw
    cases peer with
    | none => exact confined_pure _
    | some a =>
        refine (confined_gets _).bind fun p => ?_
        cases p.security0 with
        | none => exact confined_pure _
        | some s =>
            exact Confined.ite (fun _ => confined_pure _) fun _ =>
              Confined.ite (fun _ => confined_pure _) fun _ => confined_pure _
  refine epoch.bind (fun _ => id) fun r' w₁ hok hw₁ => ?_
  cases r' with
  | none => exact confinedFrom_pure hw₁
  | some r' =>
      obtain ⟨rfl, hf'⟩ := checkEpoch_inState hf hok
      have handled : SoundFrom Asserted
          (handleHandshake env peer session r'.role r'.state r'.data r'.dataLength) w₁ :=
        sound_handleHandshake hint ⟨hw₁, hf'⟩
      exact handled.bind (fun _ => id)
        fun err w₂ _ hw₂ => sound_handshakeHandled peer session err w₂ hw₂

theorem sound_handleCcsRecord (peer : Option Addr) (session : Session) (r : OpenRecord) :
    Sound X Certified (handleCcsRecord env peer session r) := by
  refine (sound_stopRetransmissionOf peer).bind fun _ => (sound_handleCcs peer _ _).bind
    fun err => ?_
  refine Confined.ite (fun _ => confined_pure _) fun _ => ?_
  refine (sound_alertSendFromErr peer session err).bind fun _ => ?_
  cases peer with
  | none => exact confined_pure _
  | some a => exact (sound_destroyPeer a).bind fun _ => confined_pure _

theorem sound_handleAlertRecord (peer : Option Addr) (r : OpenRecord) :
    Sound X Certified (handleAlertRecord env peer r) :=
  (sound_stopRetransmissionOf peer).bind fun _ => (sound_handleAlert peer _ _).bind fun _ =>
    confined_pure _

theorem sound_handleApplicationRecord (peer : Option Addr) (r : OpenRecord) :
    Sound X Certified (handleApplicationRecord env peer r) := by
  cases peer with
  | none => exact confined_pure _
  | some a => exact (sound_handleApplicationData a _ _).bind fun _ => confined_pure _

theorem sound_dispatchRecord (hint : HintFits env) {r : OpenRecord} (hw : Suited Certified w)
    (hf : InState peer r.state w.suites) :
    SoundFrom Asserted (dispatchRecord env peer session r) w := by
  refine ConfinedFrom.ite (fun _ => sound_handleCcsRecord peer session r w hw) fun _ => ?_
  refine ConfinedFrom.ite (fun _ => sound_handleAlertRecord peer r w hw) fun _ => ?_
  refine ConfinedFrom.ite (fun _ => sound_handleHandshakeRecord hint hw hf) fun _ => ?_
  refine ConfinedFrom.ite (fun _ => sound_handleApplicationRecord peer r w hw) fun _ => ?_
  exact confinedFrom_pure hw

theorem sound_handleRecord (hint : HintFits env) (peer : Option Addr) (session : Session)
    (msg : Ptr) (rlen : Nat) :
    Sound Asserted Certified (handleRecord env peer session msg rlen) := by
  refine (confined_gets _).bind fun before => (confined_emit _).bind fun _ w hw => ?_
  refine (sound_openPeerRecord peer msg rlen w hw).bind (fun _ => id) fun opened w₁ hok hw₁ => ?_
  cases opened with
  | error err => exact confinedFrom_pure hw₁
  | ok r =>
      have dispatched : SoundFrom Asserted (dispatchRecord env peer session r) w₁ :=
        sound_dispatchRecord hint hw₁ (openPeerRecord_inState hok)
      exact dispatched.bind (fun _ => id) fun res w₂ _ hw₂ => confinedFrom_pure hw₂

theorem sound_handleRecords (hint : HintFits env) (peer : Option Addr) (session : Session)
    (fuel : Nat) (msg : Ptr) (msglen : Nat) :
    Sound Asserted Certified (handleRecords env peer session fuel msg msglen) := by
  induction fuel generalizing msg msglen with
  | zero => exact confined_pure _
  | succ fuel ih =>
      refine Confined.ite (fun _ => confined_pure _) fun _ => ?_
      refine (sound_handleRecord hint peer session msg _).bind fun next => ?_
      cases next with
      | error err => exact confined_pure _
      | ok msg => exact ih msg _

/-! ## Runs -/

theorem sound_runInput (hint : HintFits env) (i : Input) :
    Sound Asserted Certified (runInput env i) := by
  cases i with
  | handleMessage session msg msglen =>
      refine Confined.bind ?_ fun _ => confined_pure _
      exact (confined_gets _).bind fun peer => sound_handleRecords hint peer session _ msg msglen
  | checkRetransmit all => exact sound_checkRetransmit all
  | app call => exact sound_runAppCall call
  | resetPeer session =>
      refine (confined_gets _).bind fun peer => ?_
      cases peer with
      | none => exact confined_pure _
      | some a => exact (sound_stopRetransmission a).bind fun _ => sound_destroyPeer a

theorem sound_runInputs (hint : HintFits env) (is : List Input) :
    Sound Asserted Certified (runInputs env is) := by
  induction is with
  | nil => exact confined_pure _
  | cons i is ih => exact (sound_runInput hint i).bind fun _ => ih

theorem certified_initial (h : Initial w) : Suited Certified w := by
  intro b c _ hc
  obtain ⟨session, hb⟩ := h.heap b
  rw [World.suites, hb] at hc
  cases hc

theorem handleHandshakeMsg_fails {h : HandshakeParameters}
    (hp : (w.heap a).handshakeParams = some h)
    (hc : isTlsEcdheEcdsaWithAes128Ccm8 h.cipher = false)
    (ht : data.uint8 = dtlsHtCertificateRequest) (hq : Owned w.sendqueue) :
    (handleHandshakeMsg env (some a) session role .waitServerHelloDone data dataLength w).1
      = .error .assertFailed := by
  obtain ⟨q, hstopped⟩ := stopRetransmission_ok (a := a) (w := w.emitted
    (.message ⟨some a, role, .waitServerHelloDone, some (w.heap a), data, dataLength⟩)) hq
  rw [handleHandshakeMsg, Program.gets_bind, emit_bind]
  refine (congrArg Prod.fst (Program.bind_ok hstopped _)).trans ?_
  generalize hw₁ : { w.emitted _ with sendqueue := q } = w₁
  have hp₁ : (w₁.heap a).handshakeParams = some h := by
    subst hw₁
    exact hp
  obtain ⟨w', hrun, -⟩ := checkCertificateRequest_fails hp₁ hc data dataLength
  have dispatched : dispatchMessage env (some a) session role .waitServerHelloDone data dataLength w₁
      = (.error .assertFailed, w') := by
    unfold dispatchMessage
    rw [ht]
    exact Program.bind_error hrun _
  exact congrArg Prod.fst (Program.bind_error dispatched _)

/-- **ASSERTIONS**: in a run without a misplaced CertificateRequest no assertion fails; each
    one that is handled makes an assertion fail, unless a packet without a peer is met first. -/
theorem assertions_hold (env : Env) (hint : HintFits env) :
    (∀ (w₀ : World) (is : List Input), Initial w₀ →
        (∀ c, .message c ∈ (runInputs env is w₀).2.log → ¬ c.Misplaced) →
        (runInputs env is w₀).1 ≠ .error .assertFailed) ∧
      ∀ (w : World) (a : Addr) (h : HandshakeParameters) (session : Session) (role : DtlsPeerType)
        (data : Ptr) (dataLength : Nat), (w.heap a).handshakeParams = some h →
        isTlsEcdheEcdsaWithAes128Ccm8 h.cipher = false → data.uint8 = dtlsHtCertificateRequest →
        Owned w.sendqueue →
        (handleHandshakeMsg env (some a) session role .waitServerHelloDone data dataLength w).1
          = .error .assertFailed := by
  constructor
  · intro w₀ is h₀ hno hfails
    obtain ⟨c, hc, misplaced⟩ := (sound_runInputs hint is w₀ (certified_initial h₀)).1 hfails
    exact hno c (mem_log_of_currentMessage hc) misplaced
  · intro w a h session role data dataLength hp hc ht hq
    exact handleHandshakeMsg_fails hp hc ht hq

theorem hintFits_sampleEnv : HintFits sampleEnv := by
  intro f hf t session
  cases hf
  show (1 : Int) ≤ dtlsPskMaxClientIdentityLen
  decide

/-- No message of a run waits for a ServerHelloDone. -/
def noneWaiting (log : List Event) : Bool :=
  log.all fun e => match e with
    | .message c => c.state ≠ .waitServerHelloDone
    | _ => true

theorem assertions_hold_server :
    (runInputs sampleEnv helloReceived sampleWorld).1 ≠ .error .assertFailed := by
  have none : noneWaiting (runInputs sampleEnv helloReceived sampleWorld).2.log = true := by
    decide +kernel
  refine (assertions_hold sampleEnv hintFits_sampleEnv).1 sampleWorld helloReceived sampleWorld_initial
    fun c hc misplaced => ?_
  have waiting := List.all_eq_true.mp none _ hc
  exact of_decide_eq_true waiting misplaced.state

/-- The ServerHello of a server that takes the PSK suite. -/
def pskServerHello : Bytes :=
  dtlsIntToUint16 dtlsVersion ++ List.replicate 32 0 ++ [0] ++
    dtlsIntToUint16 tlsPskWithAes128Ccm8 ++ [0] ++ List.replicate 32 0

/-- A client that connects, and is sent a ServerHello and a CertificateRequest. -/
def certificateRequested : List Input :=
  [.app (.connect (sampleSession 0)),
    arrival (sampleSession 0) (fragmentRecord dtlsHtServerHello pskServerHello.length 0 0
      pskServerHello.length pskServerHello),
    arrival (sampleSession 0) (fragmentRecord dtlsHtCertificateRequest 0 1 0 0 [])]

/-- How a program stopped. -/
def crash : Except Crash α → Option Crash
  | .ok _ => none
  | .error c => some c

/-- A client with a PSK is stopped by two datagrams from anywhere. -/
theorem assertion_reached :
    ¬ ∀ (env : Env) (w₀ : World) (is : List Input), HintFits env → Initial w₀ →
        (runInputs env is w₀).1 ≠ .error .assertFailed := by
  intro h
  have fails : crash (runInputs sampleEnv certificateRequested sampleWorld).1
      = some .assertFailed := by decide +kernel
  refine h sampleEnv sampleWorld certificateRequested hintFits_sampleEnv
    sampleWorld_initial ?_
  cases hrun : (runInputs sampleEnv certificateRequested sampleWorld).1 with
  | ok u =>
      rw [hrun] at fails
      exact nomatch fails
  | error c =>
      rw [hrun] at fails
      cases fails
      rfl

end PqDtls.Dtls
