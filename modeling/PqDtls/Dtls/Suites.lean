import PqDtls.Dtls.Sound
import PqDtls.Dtls.Cookies

/-! # Suites and states

    The handlers of messages assert that the cipher suite is the one their message
    belongs to.  `Certified` is what the state machine keeps up for this; every handler
    keeps it, and all but one meet their assertion by it (`sound_handleHandshake`). -/

namespace PqDtls.Dtls

open Program (get gets modify stop ofOption when Confined ConfinedFrom confined_pure
  confinedFrom_pure confined_get confined_gets confined_stop)

variable {env : Env} {α : Type} {w w' : World} {a : Addr} {X : World → Prop} {P : Suites → Prop}

/-! ## The invariant -/

/-- The states in which a certificate or its signature is expected. -/
def DtlsState.certified : DtlsState → Bool
  | waitServerCertificate | waitClientCertificate | waitCertificateVerify => true
  | _ => false

/-- In these states the suite is the one with certificates. -/
def Certified (v : Suites) : Prop :=
  ∀ b c, (v b).1.certified = true → (v b).2 = some c → isTlsEcdheEcdsaWithAes128Ccm8 c = true

theorem certified_update {v : Suites} {x : DtlsState × Option Nat} (hv : Certified v) (b : Addr)
    (hx : ∀ c, x.1.certified = true → x.2 = some c → isTlsEcdheEcdsaWithAes128Ccm8 c = true) :
    Certified (Function.update v b x) := by
  intro b' c hs hc
  by_cases hb : b' = b
  · subst hb
    rw [Function.update_self] at hs hc
    exact hx c hs hc
  · rw [Function.update_of_ne hb] at hs hc
    exact hv b' c hs hc

/-- The other states allow everything. -/
theorem certified_other {v : Suites} {x : DtlsState × Option Nat} (hv : Certified v) (b : Addr)
    (hx : x.1.certified = false) : Certified (Function.update v b x) :=
  certified_update hv b fun _ hs => absurd (hs.symm.trans hx) nofun

theorem fresh_certified : Fresh Certified := fun _ b hv => certified_other hv b rfl

/-- The invariant, with the state of one peer. -/
def CertifiedIn (a : Addr) (s : DtlsState) (v : Suites) : Prop := Certified v ∧ (v a).1 = s

theorem only_certified {s : DtlsState} (hs : s.certified = true) :
    Only isTlsEcdheEcdsaWithAes128Ccm8 (CertifiedIn a s) a :=
  fun _ c hv hc => hv.1 a c (by rw [hv.2, hs]) hc

theorem free_certified {s : DtlsState} (hs : s.certified = false) : Free (CertifiedIn a s) a := by
  intro v c hv
  refine ⟨certified_other hv.1 a ?_, ?_⟩
  · rw [hv.2]
    exact hs
  · rw [Function.update_self, hv.2]

/-- The invariant, with the suite of one peer. -/
def CertifiedWith (a : Addr) (c : Nat) (v : Suites) : Prop := Certified v ∧ (v a).2 = some c

theorem only_with {f : Nat → Bool} {c : Nat} (hc : f c = true) : Only f (CertifiedWith a c) a := by
  intro v c' hv hc'
  cases hv.2.symm.trans hc'
  exact hc

/-! ## Handlers -/

/-- From `w`, no assertion fails but in a world of `X`, and the invariant is kept. -/
abbrev SoundFrom (X : World → Prop) (m : M α) (w : World) : Prop :=
  ConfinedFrom .assertFailed X (Suited Certified) m w

theorem Sound.from {m : M α} (h : Sound X P m) (hP : ∀ v, P v → Certified v) (hw : P w.suites) :
    SoundFrom X m w := (h w hw).mono fun _ => hP _

theorem sound_enter {s : DtlsState} (r : α) (hs : s.certified = false) (hw : Suited Certified w) :
    SoundFrom X (do
      setState a s
      pure r : M α) w :=
  confined_enter r (certified_other hw a hs)

theorem sound_setState {s : DtlsState} (hs : s.certified = false) :
    Sound X Certified (setState a s) := by
  intro w hw
  refine ⟨nofun, ?_⟩
  rw [Suited, suites_setState]
  exact certified_other hw a hs

variable {peer : Option Addr} {session : Session} {role : DtlsPeerType} {state : DtlsState}
  {data : Ptr} {dataLength : Nat}

/-- The state a record is handled in is that of the peer, or the record is taken for
    the start of a handshake. -/
def InState (peer : Option Addr) (state : DtlsState) (v : Suites) : Prop :=
  ∀ a, peer = some a → (v a).1 = state ∨ state = .waitClientHello ∧ (v a).1 = .connected

theorem InState.same {v : Suites} (h : InState (some a) state v) (hs : state ≠ .waitClientHello) :
    (v a).1 = state := by
  cases h a rfl with
  | inl h => exact h
  | inr h => exact absurd h.1 hs

/-- A branch that goes on from the handshake parameters it finds. -/
theorem sound_withHandshake {k : Addr → HandshakeParameters → M Outcome} (hw : Suited Certified w)
    (hk : ∀ a h, peer = some a → (w.heap a).handshakeParams = some h → SoundFrom X (k a h) w) :
    SoundFrom X (withHandshake peer k) w := by
  cases peer with
  | none => exact confinedFrom_pure hw
  | some a =>
      rw [withHandshake]
      refine (confined_gets _ w hw).bind (fun _ => id) fun p w₁ hok hw₁ => ?_
      cases hok
      cases hp : (w.heap a).handshakeParams with
      | none => exact confinedFrom_pure hw
      | some h => exact hk a h rfl hp

theorem sound_handleHelloVerifyRequest (hw : Suited Certified w) :
    SoundFrom X (handleHelloVerifyRequest env peer state data dataLength) w := by
  refine Sound.from (Confined.ite (fun _ => confined_pure _) fun _ => ?_) (fun _ => id) hw
  refine Confined.bind ?_ fun err => ?_
  · refine Confined.ite (fun _ => confined_pure _) fun _ => ?_
    cases peer with
    | none => exact confined_pure _
    | some a => exact confined_sendClientHello (guard_assert _ a) _
  refine Confined.ite (fun _ => confined_pure _) fun _ => confined_ticks.bind fun _ => ?_
  refine Confined.bind ?_ fun _ => confined_pure _
  exact confined_globals fun _ => rfl

theorem sound_serverHelloSuite (free : Free P a) (data : Ptr) (dataLength : Nat) :
    Sound X P (serverHelloSuite env a data dataLength) := by
  unfold serverHelloSuite
  cases skipVarField data dataLength with
  | none => exact confined_pure _
  | some rest =>
      refine confined_setSuite (guard_assert P a) free fun _ => ?_
      refine Confined.ite (fun _ => confined_pure _)
        fun _ => Confined.ite (fun _ => confined_pure _) fun _ => ?_
      refine Confined.bind ?_ fun _ => confined_pure _
      exact confined_globals fun _ => rfl

theorem sound_checkServerHello (free : Free P a) (data : Ptr) (dataLength : Nat) :
    Sound X P (checkServerHello env a data dataLength) := by
  refine (confined_gets _).bind fun p => Confined.ite (fun _ => confined_pure _) fun _ => ?_
  refine Confined.ite (fun _ => confined_pure _) fun _ => (sound_updateHsHash a _).bind fun _ => ?_
  exact Confined.ite (fun _ => confined_pure _) fun _ =>
    confined_modifyHandshake_bind (guard_assert P a) (fun _ => cipher_writeTmp _ _ _) fun _ =>
      sound_serverHelloSuite free _ _

/-- The next state asks for a certificate with the suite that has them. -/
theorem sound_handleServerHello (hw : Suited Certified w) (hf : InState peer state w.suites) :
    SoundFrom X (handleServerHello env peer state data dataLength) w := by
  refine ConfinedFrom.ite (fun _ => confinedFrom_pure hw) fun hstate => ?_
  cases not_not.mp hstate
  refine sound_withHandshake hw fun a h hpeer hp => ?_
  subst hpeer
  have hin : CertifiedIn a .clientHello w.suites := ⟨hw, hf.same nofun⟩
  refine (sound_checkServerHello (free_certified rfl) data dataLength w hin).bind (fun _ h => h.1)
    fun err w₁ _ hw₁ => ?_
  refine ConfinedFrom.ite (fun _ => confinedFrom_pure hw₁.1) fun _ => ?_
  refine confined_settle _ (guard_assert _ a) (fun _ h => h.1) (fun v h hv hc => ?_) hw₁
  refine certified_update hv.1 a fun c hs hc' => ?_
  cases hc.symm.trans hc'
  by_cases hec : isTlsEcdheEcdsaWithAes128Ccm8 h.cipher = true
  · exact hec
  · rw [if_neg hec] at hs
    exact nomatch hs

theorem sound_handleCertificate (hw : Suited Certified w) (hf : InState peer state w.suites) :
    SoundFrom X (handleCertificate env peer role state data dataLength) w := by
  refine ConfinedFrom.ite (fun _ => confinedFrom_pure hw) fun hstate => ?_
  have waiting : state = .waitServerCertificate ∨ state = .waitClientCertificate := by
    cases role with
    | client => exact .inl (by simpa using hstate)
    | server => exact .inr (by simpa using hstate)
  cases peer with
  | none => exact confinedFrom_pure hw
  | some a =>
      have hs : state.certified = true ∧ state ≠ .waitClientHello := by
        rcases waiting with rfl | rfl <;> exact ⟨rfl, nofun⟩
      have hin : CertifiedIn a state w.suites := ⟨hw, hf.same hs.2⟩
      refine (sound_checkServerCertificate (only_certified hs.1) data dataLength w hin).bind
        (fun _ h => h.1) fun err w₁ _ hw₁ => ?_
      refine ConfinedFrom.ite (fun _ => confinedFrom_pure hw₁.1) fun _ => sound_enter _ ?_ hw₁.1
      cases role <;> rfl

theorem sound_serverKeyExchangeChecked (a : Addr) (err : Int) (hw : Suited Certified w) :
    SoundFrom X (serverKeyExchangeChecked a err) w :=
  ConfinedFrom.ite (fun _ => confinedFrom_pure hw) fun _ => sound_enter _ rfl hw

/-- The suite is looked at before the message is. -/
theorem sound_handleServerKeyExchange (hw : Suited Certified w) :
    SoundFrom X (handleServerKeyExchange env peer state data dataLength) w := by
  refine sound_withHandshake hw fun a h hpeer hp => ?_
  have hwith : CertifiedWith a h.cipher w.suites := ⟨hw, suites_params hp⟩
  refine ConfinedFrom.ite (fun hec => ?_) fun _ => ConfinedFrom.ite (fun hpsk => ?_) fun _ =>
    sound_serverKeyExchangeChecked a 0 hw
  · refine ConfinedFrom.ite (fun _ => confinedFrom_pure hw) fun _ => ?_
    exact (sound_checkServerKeyExchangeEcdsa (only_with hec) data dataLength w hwith).bind
      (fun _ h => h.1) fun err w₁ _ hw₁ => sound_serverKeyExchangeChecked a err hw₁.1
  · refine ConfinedFrom.ite (fun _ => confinedFrom_pure hw) fun _ => ?_
    exact (sound_checkServerKeyExchangePsk (only_with hpsk) data dataLength w hwith).bind
      (fun _ h => h.1) fun err w₁ _ hw₁ => sound_serverKeyExchangeChecked a err hw₁.1

theorem sound_handleServerHelloDone (hw : Suited Certified w) :
    SoundFrom X (handleServerHelloDone env peer state data dataLength) w := by
  refine ConfinedFrom.ite (fun _ => confinedFrom_pure hw) fun _ => ?_
  cases peer with
  | none => exact confinedFrom_pure hw
  | some a =>
      refine (sound_checkServerHellodone a data dataLength w hw).bind (fun _ => id)
        fun err w₁ _ hw₁ => ?_
      exact ConfinedFrom.ite (fun _ => confinedFrom_pure hw₁) fun _ => sound_enter _ rfl hw₁

theorem sound_answerFinished (a : Addr) (role : DtlsPeerType) (data : Ptr) (dataLength : Nat) :
    Sound X P (answerFinished env a role data dataLength) := by
  refine Confined.ite (fun _ => confined_pure _) fun _ => (sound_updateHsHash a _).bind fun _ => ?_
  refine (sound_send a _ _).bind fun err => Confined.ite (fun _ => confined_pure _) fun _ => ?_
  exact (sound_securityParamsSwitch a).bind fun _ => sound_sendFinished a _

/-- Handshake parameters are replaced by none. -/
theorem sound_dropParams (a : Addr) :
    Sound X Certified (modifyPeer a fun p => { p with handshakeParams := none }) := by
  refine fun w hw => ⟨nofun, ?_⟩
  show Certified (w.setPeer a { w.heap a with handshakeParams := none }).suites
  rw [suites_setPeer]
  exact certified_update hw a nofun

theorem sound_handleFinished (hw : Suited Certified w) :
    SoundFrom X (handleFinished env peer role state data dataLength) w := by
  refine ConfinedFrom.ite (fun _ => confinedFrom_pure hw) fun _ => ?_
  refine sound_withHandshake hw fun a h hpeer hp => ?_
  refine (confined_gets _ w hw).bind (fun _ => id) fun p w₁ _ hw₁ => ?_
  refine ConfinedFrom.ite (fun _ => confinedFrom_pure hw₁) fun _ => ?_
  refine (sound_answerFinished a role data dataLength w₁ hw₁).bind (fun _ => id)
    fun err w₂ _ hw₂ => ?_
  refine ConfinedFrom.ite (fun _ => confinedFrom_pure hw₂) fun _ => ?_
  refine (sound_dropParams a w₂ hw₂).bind (fun _ => id) fun _ w₃ _ hw₃ => ?_
  exact (confined_ticks w₃ hw₃).bind (fun _ => id) fun _ w₄ _ hw₄ => sound_enter _ rfl hw₄

theorem sound_handleClientKeyExchange (hw : Suited Certified w) :
    SoundFrom X (handleClientKeyExchange env peer state data dataLength) w := by
  refine ConfinedFrom.ite (fun _ => confinedFrom_pure hw) fun _ => ?_
  refine sound_withHandshake hw fun a h hpeer hp => ?_
  refine (sound_checkClientKeyExchange a h data dataLength w hw).bind (fun _ => id)
    fun err w₁ _ hw₁ => ?_
  refine (sound_takeTeslaSync _ _ _ _ w₁ hw₁).bind (fun _ => id) fun _ w₂ _ hw₂ => ?_
  refine ConfinedFrom.ite (fun _ => confinedFrom_pure hw₂) fun _ => ?_
  refine (sound_updateHsHash a _ w₂ hw₂).bind (fun _ => id) fun _ w₃ _ hw₃ => ?_
  refine confined_settle _ (guard_assert _ a) (fun _ => id) (fun v h hv hc => ?_) hw₃
  refine certified_update hv a fun c hs hc' => ?_
  cases hc.symm.trans hc'
  by_cases hec : isTlsEcdheEcdsaWithAes128Ccm8 h.cipher = true
  · exact hec
  · rw [keyExchanged, if_neg fun h => hec h.1] at hs
    exact nomatch hs

theorem sound_handleCertificateVerify (hw : Suited Certified w) (hf : InState peer state w.suites) :
    SoundFrom X (handleCertificateVerify env peer state data dataLength) w := by
  refine ConfinedFrom.ite (fun _ => confinedFrom_pure hw) fun hstate => ?_
  cases not_not.mp hstate
  refine sound_withHandshake hw fun a h hpeer hp => ?_
  subst hpeer
  have hin : CertifiedIn a .waitCertificateVerify w.suites := ⟨hw, hf.same nofun⟩
  refine (sound_checkClientCertificateVerify (only_certified rfl) data dataLength w hin).bind
    (fun _ h => h.1) fun err w₁ _ hw₁ => ?_
  refine ConfinedFrom.ite (fun _ => confinedFrom_pure hw₁.1) fun _ => ?_
  have hw₁ : Suited Certified w₁ := hw₁.1
  exact (sound_updateHsHash a _ w₁ hw₁).bind (fun _ => id) fun _ w₂ _ hw₂ => sound_enter _ rfl hw₂

/-! ## CertificateRequest -/

/-- A CertificateRequest that the state machine lets through without a look at the suite. -/
structure HandshakeCall.Misplaced (c : HandshakeCall) : Prop where
  type : c.data.uint8 = dtlsHtCertificateRequest
  state : c.state = .waitServerHelloDone
  suite : ∃ p h, c.before = some p ∧ p.handshakeParams = some h ∧
    isTlsEcdheEcdsaWithAes128Ccm8 h.cipher = false

/-- Such a message is being handled. -/
def Asserted (w : World) : Prop := ∃ c, currentMessage w.log = some c ∧ c.Misplaced

/-- With another suite the assertion fails, before anything else is looked at. -/
theorem checkCertificateRequest_fails {h : HandshakeParameters}
    (hp : (w.heap a).handshakeParams = some h)
    (hc : isTlsEcdheEcdsaWithAes128Ccm8 h.cipher = false) (data : Ptr) (dataLength : Nat) :
    ∃ w', checkCertificateRequest a data dataLength w = (.error .assertFailed, w') ∧
      w'.log = w.log ∧ w'.suites = w.suites := by
  let h' : HandshakeParameters := { h with hsHash := h.hsHash ++ data.bytes dataLength }
  let w₁ := w.setPeer a { w.heap a with handshakeParams := some h' }
  have hashed : updateHsHash a (data.bytes dataLength) w = (.ok (), w₁) := modifyHandshake_some _ hp
  have hp₁ : (w₁.heap a).handshakeParams = some h' := by rw [heap_setPeer]
  have fails : assertEcdhe a w₁ = (.error .assertFailed, w₁) := by
    rw [assertEcdhe, Program.bind_ok (getHandshake_apply hp₁), assertThat, if_neg]
    · rfl
    · rw [hc]
      exact Bool.false_ne_true
  refine ⟨w₁, ?_, rfl, suites_setPeer_same ?_⟩
  · rw [checkCertificateRequest, getPeer_bind, hp]
    simp only [Option.isNone_some, Bool.false_eq_true, if_false]
    rw [Program.bind_ok hashed, Program.bind_error fails]
  · simp only [Peer.suite, hp, Option.map_some, h']

theorem sound_handleCertificateRequest (hw : Suited Certified w)
    (hc : currentMessage w.log = some ⟨peer, role, state, peer.map w.heap, data, dataLength⟩)
    (ht : data.uint8 = dtlsHtCertificateRequest) :
    SoundFrom Asserted (handleCertificateRequest peer state data dataLength) w := by
  refine ConfinedFrom.ite (fun _ => confinedFrom_pure hw) fun hstate => ?_
  cases peer with
  | none => exact confinedFrom_pure hw
  | some a =>
      have checked (P : Suites → Prop) (only : Only isTlsEcdheEcdsaWithAes128Ccm8 P a)
          (hP : ∀ v, P v → Certified v) (hw : Suited P w) :
          SoundFrom Asserted (checkCertificateRequest a data dataLength) w :=
        Sound.from (sound_checkCertificateRequest only data dataLength) hP hw
      have check : SoundFrom Asserted (checkCertificateRequest a data dataLength) w := by
        cases hp : (w.heap a).handshakeParams with
        | none =>
            have absent : (w.suites a).2 = none := by
              rw [World.suites, Peer.suite, hp, Option.map_none]
            refine checked (fun v => Certified v ∧ (v a).2 = none) ?_ (fun _ h => h.1) ⟨hw, absent⟩
            intro v c hv hc
            cases hv.2.symm.trans hc
        | some h =>
            cases hec : isTlsEcdheEcdsaWithAes128Ccm8 h.cipher with
            | true =>
                exact checked (CertifiedWith a h.cipher) (only_with hec) (fun _ h => h.1)
                  ⟨hw, suites_params hp⟩
            | false =>
                obtain ⟨w', hrun, hlog, hsuites⟩ :=
                  checkCertificateRequest_fails hp hec data dataLength
                rw [SoundFrom, ConfinedFrom, hrun]
                refine ⟨fun _ => ⟨_, (congrArg currentMessage hlog).trans hc, ht, not_not.mp hstate,
                  w.heap a, h, rfl, hp, hec⟩, ?_⟩
                rw [Suited, hsuites]
                exact hw
      exact check.bind (fun _ => id) fun err w₁ _ hw₁ =>
        ConfinedFrom.ite (fun _ => confinedFrom_pure hw₁) fun _ => confinedFrom_pure hw₁

/-! ## ClientHello and HelloRequest -/

/-- A ClientHello for which a cookie was computed has the length that is asserted later. -/
theorem verifyPeer_length {err : Int}
    (hrun : dtlsVerifyPeer env peer session state data dataLength w = (.ok err, w'))
    (herr : ¬ err < 0) : dataLength > dtlsHsLength + dtlsChLength := by
  rw [dtlsVerifyPeer, dtlsCreateCookie] at hrun
  cases hc : cookieInput session data dataLength with
  | ok input => exact cookieInput_length hc
  | error e =>
      rw [hc] at hrun
      cases hrun
      exact absurd (cookieInput_error hc) herr

theorem newPeer_init (hrun : dtlsNewPeer env session w = (.ok (some a), w')) :
    (w'.suites a).1 = .init := by
  simp only [dtlsNewPeer, nextTick_bind, malloc_bind, Program.gets_bind] at hrun
  split at hrun
  · exact absurd (Except.ok.inj (Prod.mk.inj hrun).1) nofun
  · rw [modifyPeer_bind, setLive, Program.modify_bind] at hrun
    cases hrun
    show ((w.asked.asked.setPeer _ (emptyPeer session)).suites _).1 = .init
    rw [suites_setPeer, Function.update_self]
    rfl

/-- The peer of a ClientHello that starts over is new. -/
theorem serverPeer_init (hrun : serverPeer env none session w = (.ok (some a), w')) :
    (w'.suites a).1 = .init := by
  rw [serverPeer, Program.bind_apply] at hrun
  rcases hnew : dtlsNewPeer env session w with ⟨e | new, w₁⟩ <;> rw [hnew] at hrun
  · cases hrun
  cases new with
  | none => cases hrun
  | some b =>
      simp only at hrun
      rw [modifyPeer_bind, dtlsAddPeer, modifyPeers, Program.modify_bind] at hrun
      cases hrun
      have init := newPeer_init hnew
      show ((w₁.setPeer a { w₁.heap a with role := _, security0 := _ }).suites a).1 = .init
      rw [suites_setPeer, Function.update_self]
      exact init

/-- The next state asks for a certificate with the suite that has them. -/
theorem sound_acceptClientHello {s : DtlsState} (hs : s.certified = false) (hint : HintFits env)
    (hlen : dataLength > dtlsHsLength + dtlsChLength) (hin : CertifiedIn a s w.suites) :
    SoundFrom X (acceptClientHello env a data dataLength) w := by
  obtain ⟨found, c, w', hrun, hsuites⟩ :=
    ensureHandshake_suites env a (handshakeHeader data).messageSeq 1 w
  have hin' : CertifiedIn a s w'.suites := by
    rw [hsuites]
    refine ⟨certified_other hin.1 a ?_, ?_⟩
    · rw [hin.2]
      exact hs
    · rw [Function.update_self, hin.2]
  have ensured : ConfinedFrom .assertFailed X (Suited (CertifiedIn a s))
      (ensureHandshake env a (handshakeHeader data).messageSeq 1) w := by
    rw [ConfinedFrom, hrun]
    refine ⟨fun h => ?_, hin'⟩
    cases h
  rw [acceptClientHello_eq]
  refine ensured.bind (fun _ h => h.1) fun found w₁ _ hw₁ => ?_
  refine ConfinedFrom.ite (fun _ => confinedFrom_pure hw₁.1) fun _ => ?_
  refine confined_beginHandshake (by decide) (guard_assert _ a) (free_certified hs) (fun _ => hint)
    (fun _ => hlen) (fun _ h => h.1) (fun v h hv hc => ?_) hw₁
  refine certified_update hv.1 a fun c hs hc' => ?_
  cases hc.symm.trans hc'
  by_cases hec : isTlsEcdheEcdsaWithAes128Ccm8 h.cipher = true
  · exact hec
  · rw [flightSent, if_neg fun h => hec h.1] at hs
    cases hs

theorem sound_newServerPeer (hint : HintFits env)
    (hlen : dataLength > dtlsHsLength + dtlsChLength) (hw : Suited Certified w) :
    SoundFrom X (do
      let peer ← serverPeer env none session
      match peer with
      | none => internalError
      | some a => acceptClientHello env a data dataLength : M Outcome) w := by
  refine (confined_serverPeer fresh_certified none session w hw).bind (fun _ => id)
    fun new w₁ hok hw₁ => ?_
  cases new with
  | none => exact confinedFrom_pure hw₁
  | some a => exact sound_acceptClientHello rfl hint hlen ⟨hw₁, serverPeer_init hok⟩

theorem sound_handleClientHello (hint : HintFits env) (hw : Suited Certified w)
    (hf : InState peer state w.suites) :
    SoundFrom X (handleClientHello env peer session state data dataLength) w := by
  refine ConfinedFrom.ite (fun _ => confinedFrom_pure hw) fun hstate => ?_
  have hboth : Suited (fun v => Certified v ∧ InState peer state v) w := ⟨hw, hf⟩
  refine (confined_verifyPeer (by decide) peer session state data dataLength w hboth).bind
    (fun _ h => h.1) fun err w₁ hok hw₁ => ?_
  refine ConfinedFrom.ite (fun _ => confinedFrom_pure hw₁.1) fun hneg => ?_
  refine ConfinedFrom.ite (fun _ => confinedFrom_pure hw₁.1) fun _ => ?_
  have hlen := verifyPeer_length hok hneg
  obtain ⟨hw₁, hf₁⟩ := hw₁
  have hw₁ : Suited Certified w₁ := hw₁
  cases peer with
  | none => exact sound_newServerPeer hint hlen hw₁
  | some a =>
      by_cases hnew : state = .waitClientHello
      · rw [dropPeer, if_pos hnew, bind_assoc]
        refine ConfinedFrom.bind (confined_globals ?_ w₁ hw₁) (fun _ => id) fun _ w₂ _ hw₂ => ?_
        · exact fun _ => rfl
        rw [bind_assoc]
        refine (confined_freePeer (by decide) a w₂ hw₂).bind (fun _ => id) fun _ w₃ _ hw₃ => ?_
        exact sound_newServerPeer hint hlen hw₃
      · have hconnected : state = .connected := by
          by_contra hne
          exact hstate (.inl ⟨rfl, hne, hnew⟩)
        rw [dropPeer, if_neg hnew]
        subst hconnected
        exact sound_acceptClientHello rfl hint hlen ⟨hw₁, hf₁.same nofun⟩

theorem sound_handleHelloRequest (hw : Suited Certified w) (hf : InState peer state w.suites) :
    SoundFrom X (handleHelloRequest env peer state) w := by
  refine ConfinedFrom.ite (fun _ => confinedFrom_pure hw) fun hstate => ?_
  cases not_not.mp hstate
  cases peer with
  | none => exact confinedFrom_pure hw
  | some a =>
      obtain ⟨found, c, w', hrun, hsuites⟩ := ensureHandshake_suites env a 0 0 w
      have ensured : SoundFrom X (ensureHandshake env a 0 0) w := by
        rw [SoundFrom, ConfinedFrom, hrun]
        refine ⟨fun h => ?_, ?_⟩
        · cases h
        rw [Suited, hsuites]
        refine certified_other hw a ?_
        rw [hf.same fun h => by cases h]
        rfl
      refine ensured.bind (fun _ => id) fun found w₁ _ hw₁ => ?_
      refine ConfinedFrom.ite (fun _ => confinedFrom_pure hw₁) fun _ => ?_
      refine (confined_sendClientHello (guard_assert _ a) [] w₁ hw₁).bind (fun _ => id)
        fun err w₂ _ hw₂ => ?_
      exact ConfinedFrom.ite (fun _ => confinedFrom_pure hw₂) fun _ => sound_enter _ rfl hw₂

/-! ## `handle_handshake_msg` -/

theorem sound_dispatchMessage (hint : HintFits env) (hw : Suited Certified w)
    (hf : InState peer state w.suites)
    (hc : currentMessage w.log = some ⟨peer, role, state, peer.map w.heap, data, dataLength⟩) :
    SoundFrom Asserted (dispatchMessage env peer session role state data dataLength) w := by
  unfold dispatchMessage
  refine ConfinedFrom.ite (fun _ => sound_handleHelloVerifyRequest hw) fun _ => ?_
  refine ConfinedFrom.ite (fun _ => sound_handleServerHello hw hf) fun _ => ?_
  refine ConfinedFrom.ite (fun _ => sound_handleCertificate hw hf) fun _ => ?_
  refine ConfinedFrom.ite (fun _ => sound_handleServerKeyExchange hw) fun _ => ?_
  refine ConfinedFrom.ite (fun _ => sound_handleServerHelloDone hw) fun _ => ?_
  refine ConfinedFrom.ite (fun ht => sound_handleCertificateRequest hw hc ht) fun _ => ?_
  refine ConfinedFrom.ite (fun _ => sound_handleFinished hw) fun _ => ?_
  refine ConfinedFrom.ite (fun _ => sound_handleClientKeyExchange hw) fun _ => ?_
  refine ConfinedFrom.ite (fun _ => sound_handleCertificateVerify hw hf) fun _ => ?_
  refine ConfinedFrom.ite (fun _ => sound_handleClientHello hint hw hf) fun _ => ?_
  refine ConfinedFrom.ite (fun _ => sound_handleHelloRequest hw hf) fun _ => ?_
  exact confinedFrom_pure hw

/-- **ONE MESSAGE**: an assertion fails for a misplaced CertificateRequest only. -/
theorem sound_handleHandshakeMsg (hint : HintFits env) (hw : Suited Certified w)
    (hf : InState peer state w.suites) :
    SoundFrom Asserted (handleHandshakeMsg env peer session role state data dataLength) w := by
  refine (confined_gets _ w hw).bind (fun _ => id) fun before w₁ hok hw₁ => ?_
  cases hok
  refine (confined_emit _ w hw).bind (fun _ => id) fun _ w₁ hok hw₁ => ?_
  cases hok
  refine (sound_stopRetransmissionOf peer _ hw₁).bind (fun _ => id) fun _ w₂ hok hw₂ => ?_
  obtain ⟨heap, log⟩ := stopRetransmissionOf_ok hok
  have same : w₂.suites = w.suites := by
    funext b
    rw [World.suites, heap]
    rfl
  have dispatched : SoundFrom Asserted
      (dispatchMessage env peer session role state data dataLength) w₂ := by
    refine sound_dispatchMessage hint hw₂ (same.symm ▸ hf) ?_
    rw [log, heap]
    rfl
  refine dispatched.bind (fun _ => id) fun o w₃ _ hw₃ => ?_
  refine (confined_finishMessage o w₃ hw₃).bind (fun _ => id) fun res w₄ _ hw₄ => ?_
  exact (confined_emit _ w₄ hw₄).bind (fun _ => id) fun _ w₅ _ hw₅ => confinedFrom_pure hw₅

/-! ## Fragments and queued messages -/

theorem sound_freeReassembleBuffer (a : Addr) : Sound X P (dtlsFreeReassembleBuffer a) := by
  refine (confined_gets _).bind fun p => ?_
  cases p.handshakeParams.bind (·.reassembleBuf) with
  | none => exact confined_pure _
  | some buf =>
      exact Confined.ite (fun _ => confined_stop nofun) fun _ =>
        confined_modifyHandshake (guard_assert P a) fun _ => rfl

theorem sound_initReassembleBuffer (a : Addr) (n : Nat) :
    Sound X P (dtlsInitReassembleBuffer env a n) := by
  refine confined_nextTick.bind fun t => Confined.ite (fun _ => confined_pure _) fun _ => ?_
  refine confined_malloc.bind fun found => Confined.ite (fun _ => ?_) fun _ => ?_
  · exact confined_modifyHandshake_bind (guard_assert P a) (fun _ => rfl) fun _ => confined_pure _
  · exact confined_modifyHandshake_bind (guard_assert P a) (fun _ => rfl) fun _ => confined_pure _

theorem sound_firstFragment (a : Addr) (header : HandshakeHeader) :
    Sound X P (firstFragment env a header) :=
  Confined.ite (fun _ => (sound_freeReassembleBuffer a).bind fun _ => sound_initReassembleBuffer a _)
    fun _ => confined_pure _

theorem sound_appendFragment (a : Addr) (header : HandshakeHeader) (buf : HsReassemble) (data : Ptr)
    (dataLength : Nat) : Sound X P (appendFragment a header buf data dataLength) := by
  refine (confined_emit _).bind fun _ => ?_
  refine confined_modifyHandshake_bind (guard_assert P a) (fun _ => rfl) fun _ => ?_
  refine Confined.ite (fun _ => confined_pure _) fun _ => ?_
  exact confined_modifyHandshake_bind (guard_assert P a) (fun _ => rfl) fun _ =>
    (confined_emit _).bind fun _ => confined_pure _

theorem sound_reassemble (peer : Option Addr) (header : HandshakeHeader) (data : Ptr)
    (dataLength : Nat) : Sound X P (reassemble env peer header data dataLength) := by
  refine Confined.ite (fun _ => confined_pure _) fun _ => Confined.ite (fun _ => confined_pure _)
    fun _ => ?_
  refine (sound_deref peer).bind fun a => (sound_firstFragment a header).bind fun found => ?_
  refine Confined.ite (fun _ => confined_pure _) fun _ => ?_
  refine (confined_getHandshake (guard_assert P a)).bind fun h => ?_
  cases h.reassembleBuf with
  | none => exact confined_pure _
  | some buf => exact Confined.ite (fun _ => confined_pure _) fun _ => sound_appendFragment a _ _ _ _

theorem sound_queueMessage (a : Addr) (h : HandshakeParameters) (data : Ptr) (dataLength : Nat) :
    Sound X P (queueMessage env a h data dataLength) := by
  refine Confined.ite (fun _ => confined_pure _) fun _ => Confined.ite (fun _ => confined_pure _)
    fun _ => ?_
  refine confined_malloc.bind fun found => Confined.bind (Confined.when fun _ => ?_) fun _ =>
    confined_pure _
  exact confined_modifyHandshake (guard_assert P a) fun _ => rfl

theorem sound_replayMessage (hint : HintFits env) (a : Addr) (session : Session)
    (role : DtlsPeerType) (node : Netq) :
    Sound Asserted Certified (replayMessage env a session role node) := by
  refine confined_modifyHandshake_bind (guard_assert _ a) (fun _ => rfl) fun _ w hw => ?_
  refine (confined_gets _ w hw).bind (fun _ => id) fun p w₁ hok hw₁ => ?_
  cases hok
  refine (confined_emit _ w hw).bind (fun _ => id) fun _ w₁ hok hw₁ => ?_
  cases hok
  refine sound_handleHandshakeMsg hint hw₁ fun b hb => .inl ?_
  cases hb
  rfl

theorem sound_replayQueue (hint : HintFits env) (a : Addr) (session : Session)
    (role : DtlsPeerType) (fuel : Nat) (res : Int) :
    Sound Asserted Certified (replayQueue env a session role fuel res) := by
  induction fuel generalizing res with
  | zero => exact confined_pure _
  | succ fuel ih =>
      refine (confined_gets _).bind fun p => ?_
      cases p.handshakeParams with
      | none => exact confined_pure _
      | some h =>
          simp only
          cases h.reorderQueue.find? h.isNext with
          | none => exact confined_pure _
          | some node =>
              exact (sound_replayMessage hint a session role node).bind fun res =>
                Confined.ite (fun _ => confined_pure _) fun _ => ih res

/-! ## `handle_handshake` -/

/-- The invariant, with the state a record is handled in. -/
def CertifiedFor (peer : Option Addr) (state : DtlsState) (v : Suites) : Prop :=
  Certified v ∧ InState peer state v

theorem sound_handleInSequence (hint : HintFits env) (h : HandshakeParameters)
    (hw : Suited (CertifiedFor (some a) state) w) :
    SoundFrom Asserted (handleInSequence env a h session role state data dataLength) w := by
  refine ConfinedFrom.ite (fun _ => confinedFrom_pure hw.1) fun _ => ?_
  refine ConfinedFrom.ite (fun _ => Sound.from (sound_queueMessage a h data dataLength)
    (fun _ => id) hw.1) fun _ => ?_
  refine (sound_freeReassembleBuffer a w hw).bind (fun _ h => h.1) fun _ w₁ _ hw₁ => ?_
  refine (sound_handleHandshakeMsg hint hw₁.1 hw₁.2).bind (fun _ => id) fun res w₂ _ hw₂ => ?_
  refine ConfinedFrom.ite (fun _ => confinedFrom_pure hw₂) fun _ => ?_
  exact (confined_gets _ w₂ hw₂).bind (fun _ => id) fun p w₃ _ hw₃ =>
    sound_replayQueue hint a session role _ res w₃ hw₃

theorem sound_handleOutside (hint : HintFits env) (hw : Suited (CertifiedFor peer state) w) :
    SoundFrom Asserted (handleOutside env peer session role state data dataLength) w :=
  ConfinedFrom.ite (fun _ => confinedFrom_pure hw.1) fun _ =>
    ConfinedFrom.ite (fun _ => sound_handleHandshakeMsg hint hw.1 hw.2) fun _ =>
      confinedFrom_pure hw.1

theorem sound_handleWhole (hint : HintFits env) (hw : Suited (CertifiedFor peer state) w) :
    SoundFrom Asserted (handleWhole env peer session role state data dataLength) w := by
  cases peer with
  | none => exact sound_handleOutside hint hw
  | some a =>
      refine (confined_gets _ w hw).bind (fun _ h => h.1) fun p w₁ _ hw₁ => ?_
      cases p.handshakeParams with
      | none => exact sound_handleOutside hint hw₁
      | some h => exact sound_handleInSequence hint h hw₁

theorem sound_handleHandshake (hint : HintFits env) (hw : Suited (CertifiedFor peer state) w) :
    SoundFrom Asserted (handleHandshake env peer session role state data dataLength) w := by
  refine ConfinedFrom.ite (fun _ => confinedFrom_pure hw.1) fun _ => ?_
  refine ConfinedFrom.ite (fun _ => ?_) fun _ => sound_handleWhole hint hw
  refine (sound_reassemble peer _ data dataLength w hw).bind (fun _ h => h.1)
    fun whole w₁ _ hw₁ => ?_
  cases whole with
  | error res => exact confinedFrom_pure hw₁.1
  | ok m => exact sound_handleWhole hint hw₁

end PqDtls.Dtls
