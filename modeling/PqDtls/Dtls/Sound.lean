import PqDtls.Dtls.Stops

/-! # Functions that assert

    Records, keys, the ClientKeyExchange and the checks of messages: where one of
    them asserts something, it holds, or it is about the cipher suite and left to
    the caller as `Only`. -/

namespace PqDtls.Dtls

open Program (get gets modify stop ofOption when Confined ConfinedFrom confined_pure
  confinedFrom_pure confined_get confined_gets confined_stop confined_ofOption)
open Ksnmss

variable {env : Env} {α : Type} {w w' : World} {a : Addr} {X : World → Prop} {P : Suites → Prop}

/-- No assertion fails but in a world of `X`, and `P` is kept. -/
abbrev Sound (X : World → Prop) (P : Suites → Prop) (m : M α) : Prop :=
  Confined .assertFailed X (Suited P) m

theorem guard_assert (P : Suites → Prop) (a : Addr) : Guard .assertFailed P a := nofun

/-- A pointer that may be NULL is no assertion. -/
theorem sound_deref (o : Option α) : Sound X P (ofOption .nullDeref o) :=
  confined_ofOption (by decide) o

/-! ## Records -/

theorem sound_modifyQueue (f : World → List Netq) : Sound X P (modifyQueue f) :=
  confined_globals fun _ => rfl

theorem sound_callEvent (session : Session) (level code : Nat) :
    Sound X P (callEvent session level code) := confined_emit _

theorem sound_callWrite (session : Session) (type : Nat) (payload b : Bytes) :
    Sound X P (callWrite env session type payload b) :=
  confined_nextTick.bind fun _ => (confined_emit _).bind fun _ => (confined_emit _).bind fun _ =>
    confined_pure _

theorem suite_setSecurity (p : Peer) (s : SecurityParameters) (slot : Slot) :
    (p.setSecurity s slot).suite = p.suite := by
  cases slot <;> rfl

theorem sound_setRecordHeader (type : Nat) (security : Option SecRef) :
    Sound X P (dtlsSetRecordHeader type security) := by
  cases security with
  | none => exact confined_pure _
  | some r =>
      refine Confined.bind ?_ fun s => ?_
      · exact (confined_gets _).bind fun p => sound_deref _
      · exact (confined_modifyPeer fun p => suite_setSecurity p _ _).bind fun _ => confined_pure _

theorem sound_prepareRecord (peer : Option Addr) (security : Option SecRef) (type : Nat)
    (dataArray : List Bytes) (rlen : Nat) :
    Sound X P (dtlsPrepareRecord env peer security type dataArray rlen) :=
  Confined.ite (fun _ => confined_pure _) fun _ =>
    (sound_setRecordHeader type security).bind fun _ => confined_get.bind fun _ => confined_pure _

theorem sound_queuePacket (peer : Option Addr) (security : Option SecRef) (type : Nat)
    (bufArray : List Bytes) : Sound X P (queuePacket env peer security type bufArray) :=
  confined_malloc.bind fun _ => Confined.ite (fun _ => confined_pure _) fun _ =>
    confined_ticks.bind fun _ => sound_modifyQueue _

theorem sound_sendMulti (peer : Option Addr) (security : Option SecRef) (session : Session)
    (type : Nat) (bufArray : List Bytes) :
    Sound X P (dtlsSendMulti env peer security session type bufArray) := by
  refine (sound_prepareRecord peer security type bufArray dtlsMaxBuf).bind fun record => ?_
  cases record with
  | error res => exact confined_pure _
  | ok sendbuf =>
      exact (Confined.when fun _ => sound_queuePacket peer security type bufArray).bind fun _ =>
        (sound_callWrite session type _ _).bind fun _ => confined_pure _

theorem sound_send (a : Addr) (type : Nat) (buf : Bytes) : Sound X P (dtlsSend env a type buf) := by
  refine Confined.bind ?_ fun _ => (confined_gets _).bind fun _ => sound_sendMulti _ _ _ _ _
  exact (confined_gets _).bind fun _ => confined_pure _

theorem sound_sendAlert (a : Addr) (level description : Nat) :
    Sound X P (dtlsSendAlert env a level description) :=
  (sound_send a _ _).bind fun _ => confined_pure _

theorem sound_stopRetransmission (a : Addr) : Sound X P (dtlsStopRetransmission a) :=
  confined_get.bind fun _ => Confined.ite (fun _ => confined_stop nofun) fun _ => sound_modifyQueue _

theorem sound_stopRetransmissionOf (peer : Option Addr) :
    Sound X P (stopRetransmissionOf peer) := by
  cases peer with
  | none => exact confined_pure ()
  | some a => exact sound_stopRetransmission a

theorem sound_retransmit (node : Netq) : Sound X P (dtlsRetransmit env node) := by
  unfold dtlsRetransmit
  cases node.peer with
  | none => exact confined_pure _
  | some a =>
      refine Confined.ite (fun _ => confined_pure _) fun _ => ?_
      refine (confined_gets _).bind fun p => confined_ticks.bind fun now => ?_
      refine (sound_modifyQueue _).bind fun _ => (sound_prepareRecord _ _ _ _ _).bind
        fun record => ?_
      cases record with
      | error res => exact confined_pure _
      | ok sendbuf => exact (sound_callWrite _ _ _ _).bind fun _ => confined_pure _

theorem sound_checkRetransmitLoop (now : Nat) (all : Bool) (fuel : Nat) :
    Sound X P (checkRetransmitLoop env now all fuel) := by
  induction fuel with
  | zero => exact confined_pure _
  | succ fuel ih =>
      refine confined_get.bind fun w => ?_
      cases w.sendqueue with
      | nil => exact confined_pure _
      | cons node rest =>
          refine Confined.ite (fun _ => confined_pure _) fun _ => (sound_modifyQueue _).bind
            fun _ => ?_
          exact (sound_retransmit node).bind fun _ => Confined.ite (fun _ => confined_pure _)
            fun _ => ih

theorem sound_checkRetransmit (all : Bool) : Sound X P (dtlsCheckRetransmit env all) :=
  confined_ticks.bind fun _ => confined_get.bind fun _ => sound_checkRetransmitLoop _ _ _

/-! ## Keys -/

theorem sound_securityParamsNext (a : Addr) : Sound X P (dtlsSecurityParamsNext env a) := by
  refine confined_malloc.bind fun found => Confined.ite (fun _ => ?_) fun _ => ?_
  · exact Confined.bind (confined_modifyPeer fun _ => rfl) fun _ => confined_pure _
  · refine (confined_gets _).bind fun p => (sound_deref _).bind fun s => ?_
    exact Confined.bind (confined_modifyPeer fun _ => rfl) fun _ => confined_pure _

theorem sound_preMasterSecret (h : HandshakeParameters) (session : Session) :
    Sound X P (preMasterSecret env h session) := by
  refine Confined.ite (fun _ => ?_) fun _ => Confined.ite (fun _ => confined_pure _)
    fun _ => confined_pure _
  exact (confined_callGetPskInfo _ _ _ _).bind fun _ =>
    Confined.ite (fun _ => confined_pure _) fun _ => confined_pure _

theorem suite_installKeyBlock (C : Primitives) (h : HandshakeParameters) (preMaster : Bytes)
    (p : Peer) : (installKeyBlock C h preMaster p).suite = p.suite := by
  simp only [installKeyBlock, Peer.suite]
  cases p.handshakeParams with
  | none => simp only [Option.map_none]
  | some h' => simp only [Option.map_some, cipher_writeTmp]

theorem sound_calculateKeyBlock (a : Addr) (session : Session) :
    Sound X P (calculateKeyBlock env a session) := by
  refine (confined_gets _).bind fun p => ?_
  cases p.handshakeParams with
  | none => exact confined_pure _
  | some h =>
      refine (sound_securityParamsNext a).bind fun found => Confined.ite (fun _ => confined_pure _)
        fun _ => ?_
      refine (sound_preMasterSecret h session).bind fun secret => ?_
      cases secret with
      | error err => exact confined_pure _
      | ok preMaster =>
          exact (confined_modifyPeer (suite_installKeyBlock _ _ _)).bind fun _ => confined_pure _

theorem sound_securityParamsSwitch (a : Addr) : Sound X P (dtlsSecurityParamsSwitch a) :=
  confined_modifyPeer fun _ => rfl

theorem suite_freeOther (p : Peer) : p.freeOther.suite = p.suite :=
  freeOther_view (fun _ => rfl) p

theorem sound_decryptVerify (a : Addr) (packet : Ptr) (length : Nat) :
    Sound X P (decryptVerify env a packet length) :=
  (confined_gets _).bind fun _ =>
    (Confined.when fun _ => confined_modifyPeer suite_freeOther).bind fun _ => confined_pure _

/-! ## Key exchange -/

theorem sound_clientKeyShare (a : Addr) (p : Peer) (h : HandshakeParameters) :
    Sound X P (clientKeyShare env a p h) := by
  refine Confined.ite (fun _ => ?_) fun _ => Confined.ite (fun _ => ?_) fun _ => confined_pure _
  · refine (confined_callGetPskInfo _ _ _ _).bind fun r => ?_
    refine Confined.ite (fun _ => confined_pure _) fun _ => Confined.ite (fun _ => ?_) fun _ => ?_
    · exact confined_modifyHandshake_bind (guard_assert P a) (fun _ => rfl) fun _ => confined_pure _
    · exact Confined.ite (fun _ => confined_stop nofun) fun _ =>
        confined_modifyHandshake_bind (guard_assert P a) (fun _ => rfl) fun _ => confined_pure _
  · exact confined_nextTick.bind fun _ =>
      confined_modifyHandshake_bind (guard_assert P a) (fun _ => rfl) fun _ => confined_pure _

theorem length_clientKeyShare {p : Peer} {h : HandshakeParameters} {share : Bytes}
    (hrun : clientKeyShare env a p h w = (.ok (.ok share), w')) : share.length ≤ 66 := by
  by_cases hpsk : isTlsPskWithAes128Ccm8 h.cipher = true
  · obtain ⟨identity, hlen, rfl⟩ := clientKeyShare_psk (of_decide_eq_true hpsk) hrun
    have max : dtlsPskMaxClientIdentityLen = 32 := rfl
    have min : dtlsCkxpskLengthMin = 2 := rfl
    rw [length_identityShare]
    omega
  rw [clientKeyShare, if_neg hpsk] at hrun
  by_cases hec : isTlsEcdheEcdsaWithAes128Ccm8 h.cipher = true
  · rw [if_pos hec, nextTick_bind] at hrun
    have share := Except.ok.inj (modifyHandshake_pure_ok hrun)
    rw [share]
    simp only [List.length_append, Vector.length_toList, dtlsIntToUint8, length_intToBytes]
    exact le_refl 66
  · rw [if_neg hec] at hrun
    cases hrun

theorem sized_startTesla {tsync : TeslaSync} (hrun : startTesla env a w = (.ok tsync, w')) :
    tsync.Sized := by
  simp only [startTesla, Program.gets_bind, gettimeofday_bind, dtlsFillRandom_bind,
    Program.modify_bind, modifyPeer_bind, Program.pure_apply] at hrun
  rw [← Except.ok.inj (Prod.mk.inj hrun).1]
  constructor <;>
    simp only [timevalBytes, dtlsIntToUint64, dtlsIntToUint32, dtlsIntToUint8, List.length_append,
      length_intToBytes]

theorem sound_startTesla (a : Addr) : Sound X P (startTesla env a) := by
  refine (confined_gets _).bind fun nonce => confined_timeofday.bind fun tv1 => ?_
  refine confined_timeofday.bind fun tv => (confined_fillRandom _).bind fun _ => ?_
  refine (confined_fillRandom _).bind fun hmacKey1 => (confined_fillRandom _).bind fun seed => ?_
  refine Confined.bind ?_ fun _ => Confined.bind ?_ fun _ => Confined.bind ?_
    fun _ => confined_pure _
  · exact confined_globals fun _ => rfl
  · exact confined_modifyPeer fun _ => rfl
  · exact confined_globals fun _ => rfl

theorem sound_signed (id : Nat) (hash : Digest) (r : Option (KsnmssSig × SignerState)) :
    Sound X P (signed id hash r) := by
  cases r with
  | none => exact confined_stop nofun
  | some r =>
      refine Confined.bind ?_ fun _ => (confined_emit _).bind fun _ => confined_pure _
      exact confined_globals fun _ => rfl

theorem sound_signHash (id : Nat) (hash : Digest) : Sound X P (signHash env id hash) :=
  (confined_gets _).bind fun _ => sound_signed id hash _

/-- The ClientKeyExchange fits into its buffer. -/
theorem length_keyExchangeBody {share : Bytes} {tsync : TeslaSync} (hshare : share.length ≤ 66)
    (ht : tsync.Sized) (sig : KsnmssSig) (root : Node) :
    (keyExchangeBody share tsync sig root).length ≤ dtlsCkxecLength := by
  have size : dtlsCkxecLength = 66 + dtlsTeslaSynLength + ksnmssSigLength + pklen := rfl
  simp only [keyExchangeBody, List.length_append, ht.length_bytes, length_ksnmssSigBytes,
    Vector.length_toList]
  omega

theorem sound_sendKeyExchange {share : Bytes} (hshare : share.length ≤ 66) :
    Sound X P (sendKeyExchange env a share) := by
  intro w hw
  refine (sound_startTesla a w hw).bind (fun _ => id) fun tsync w₁ hrun hw₁ => ?_
  refine ((sound_signHash _ _).bind fun sig => (confined_gets _).bind fun root => ?_) w₁ hw₁
  refine (confined_assertThat fun _ => ?_).bind
    fun _ => confined_sendHandshakeMsg (guard_assert P a)
  exact length_keyExchangeBody hshare (sized_startTesla hrun) sig root

theorem sound_sendClientKeyExchange (a : Addr) : Sound X P (dtlsSendClientKeyExchange env a) := by
  rw [sendClientKeyExchange_eq]
  refine (confined_fillRandom _).bind fun _ => (confined_gets _).bind fun p => ?_
  cases p.handshakeParams with
  | none => exact confined_pure _
  | some h =>
      intro w hw
      refine (sound_clientKeyShare a p h w hw).bind (fun _ => id) fun share w₁ hrun hw₁ => ?_
      cases share with
      | error err => exact confinedFrom_pure hw₁
      | ok share => exact sound_sendKeyExchange (length_clientKeyShare hrun) w₁ hw₁

theorem sound_sendFinished (a : Addr) (label : Bytes) : Sound X P
    (dtlsSendFinished env a label) := by
  refine (confined_gets _).bind fun p => ?_
  cases p.handshakeParams with
  | none => exact confined_pure _
  | some h => exact confined_sendHandshakeMsg (guard_assert P a)

theorem sound_changeKeys (a : Addr) : Sound X P (changeKeys env a) := by
  refine (confined_gets _).bind fun p => ?_
  refine (sound_calculateKeyBlock a _).bind fun res => Confined.ite (fun _ => confined_pure _)
    fun _ => ?_
  refine (sound_send a _ _).bind fun res => Confined.ite (fun _ => confined_pure _) fun _ => ?_
  exact (sound_securityParamsSwitch a).bind fun _ => sound_sendFinished a _

theorem sound_updateHsHash (a : Addr) (data : Bytes) : Sound X P (updateHsHash a data) :=
  confined_updateHsHash (guard_assert P a) data

theorem sound_checkServerHellodone (a : Addr) (data : Ptr) (dataLength : Nat) :
    Sound X P (checkServerHellodone env a data dataLength) := by
  refine (confined_gets _).bind fun p => Confined.ite (fun _ => confined_pure _) fun _ => ?_
  refine (sound_updateHsHash a _).bind fun _ => (sound_sendClientKeyExchange a).bind fun _ => ?_
  exact Confined.ite (fun _ => confined_pure _) fun _ => sound_changeKeys a

theorem sound_checkClientKeyExchange (a : Addr) (h : HandshakeParameters) (data : Ptr)
    (length : Nat) : Sound X P (checkClientKeyExchange a h data length) := by
  refine Confined.ite (fun _ => ?_) fun _ => Confined.ite (fun _ => ?_) fun _ => confined_pure _
  · refine Confined.ite (fun _ => confined_pure _) fun _ => Confined.ite (fun _ => confined_pure _)
      fun _ => ?_
    exact Confined.ite (fun _ => confined_pure _) fun _ =>
      confined_modifyHandshake_bind (guard_assert P a) (fun _ => rfl) fun _ => confined_pure _
  · refine Confined.ite (fun _ => confined_pure _) fun _ => Confined.ite (fun _ => confined_pure _)
      fun _ => ?_
    exact Confined.ite (fun _ => confined_pure _) fun _ =>
      confined_modifyHandshake_bind (guard_assert P a) (fun _ => rfl) fun _ => confined_pure _

theorem sound_takeTeslaSync (tsync : TeslaSync) (MSSPK : Node) (hash : Digest)
    (verified : Option Nat) : Sound X P (takeTeslaSync tsync MSSPK hash verified) := by
  refine Confined.bind ?_ fun _ => confined_emit _
  exact confined_globals fun _ => rfl

/-! ## Asserted suites -/

/-- The handshake of `a` has a suite of the kind `f`. -/
def Only (f : Nat → Bool) (P : Suites → Prop) (a : Addr) : Prop :=
  ∀ v c, P v → (v a).2 = some c → f c = true

theorem sound_assertSuite {f : Nat → Bool} {k : M α} (only : Only f P a) (hk : Sound X P k) :
    Sound X P (do
      let h ← getHandshake a
      assertThat (f h.cipher = true)
      k : M α) := by
  intro w hw
  refine (confined_getHandshake (guard_assert P a) w hw).bind (fun _ => id) fun h w₁ hok hw₁ => ?_
  obtain ⟨rfl, hp⟩ := getHandshake_ok hok
  exact ((confined_assertThat fun _ => only _ _ hw₁ (suites_params hp)).bind fun _ => hk) w₁ hw₁

theorem sound_assertEcdhe {k : M α} (only : Only isTlsEcdheEcdsaWithAes128Ccm8 P a)
    (hk : Sound X P k) :
    Sound X P (do
      assertEcdhe a
      k : M α) := by
  rw [assertEcdhe, bind_assoc]
  exact sound_assertSuite only hk

theorem sound_checkServerCertificate (only : Only isTlsEcdheEcdsaWithAes128Ccm8 P a) (data : Ptr)
    (dataLength : Nat) : Sound X P (checkServerCertificate env a data dataLength) := by
  refine (confined_gets _).bind fun p => Confined.ite (fun _ => confined_pure _) fun _ => ?_
  refine (sound_updateHsHash a _).bind fun _ => ?_
  refine sound_assertEcdhe only ?_
  refine Confined.ite (fun _ => confined_pure _) fun _ => Confined.ite (fun _ => confined_pure _)
    fun _ => ?_
  refine confined_modifyHandshake_bind (guard_assert P a) (fun _ => rfl) fun _ =>
    confined_nextTick.bind fun _ => ?_
  cases env.verifyEcdsaKey with
  | none => exact confined_pure _
  | some f => exact confined_pure _

theorem sound_checkClientCertificateVerify (only : Only isTlsEcdheEcdsaWithAes128Ccm8 P a)
    (data : Ptr) (dataLength : Nat) :
    Sound X P (checkClientCertificateVerify env a data dataLength) := by
  refine (confined_gets _).bind fun p => ?_
  cases p.handshakeParams with
  | none => exact confined_pure _
  | some h =>
      exact sound_assertEcdhe only
        (Confined.ite (fun _ => confined_pure _) fun _ => confined_pure _)

theorem sound_serverKeyShare (a : Addr) (data : Ptr) (dataLength : Nat) :
    Sound X P (serverKeyShare env a data dataLength) := by
  refine Confined.ite (fun _ => confined_pure _) fun _ => Confined.ite (fun _ => confined_pure _)
    fun _ => ?_
  refine Confined.ite (fun _ => confined_pure _) fun _ => Confined.ite (fun _ => confined_pure _)
    fun _ => ?_
  exact confined_modifyHandshake_bind (guard_assert P a) (fun _ => rfl) fun _ =>
    (confined_getHandshake (guard_assert P a)).bind fun _ => confined_pure _

theorem sound_checkServerKeyExchangeEcdsa (only : Only isTlsEcdheEcdsaWithAes128Ccm8 P a)
    (data : Ptr) (dataLength : Nat) :
    Sound X P (checkServerKeyExchangeEcdsa env a data dataLength) := by
  refine (confined_gets _).bind fun p => Confined.ite (fun _ => confined_pure _) fun _ => ?_
  refine (sound_updateHsHash a _).bind fun _ => ?_
  exact sound_assertEcdhe only
    (Confined.ite (fun _ => confined_pure _) fun _ => sound_serverKeyShare a _ _)

theorem sound_checkServerKeyExchangePsk (only : Only isTlsPskWithAes128Ccm8 P a) (data : Ptr)
    (dataLength : Nat) : Sound X P (checkServerKeyExchangePsk a data dataLength) := by
  refine (confined_gets _).bind fun p => Confined.ite (fun _ => confined_pure _) fun _ => ?_
  refine (sound_updateHsHash a _).bind fun _ => sound_assertSuite only ?_
  refine Confined.ite (fun _ => confined_pure _) fun _ => Confined.ite (fun _ => confined_pure _)
    fun _ => ?_
  exact Confined.ite (fun _ => confined_pure _) fun _ =>
    confined_modifyHandshake_bind (guard_assert P a) (fun _ => rfl) fun _ => confined_pure _

theorem sound_checkSignatureAlgorithms (a : Addr) (data : Ptr) (dataLength : Nat) :
    Sound X P (checkSignatureAlgorithms a data dataLength) := by
  refine Confined.ite (fun _ => confined_pure _)
    fun _ => Confined.ite (fun _ => confined_stop nofun) fun _ => ?_
  refine Confined.ite (fun _ => ?_) fun _ => confined_pure _
  exact confined_modifyHandshake_bind (guard_assert P a) (fun _ => rfl) fun _ => confined_pure _

theorem sound_checkCertificateRequest (only : Only isTlsEcdheEcdsaWithAes128Ccm8 P a) (data : Ptr)
    (dataLength : Nat) : Sound X P (checkCertificateRequest a data dataLength) := by
  refine (confined_gets _).bind fun p => Confined.ite (fun _ => confined_pure _) fun _ => ?_
  refine (sound_updateHsHash a _).bind fun _ => ?_
  refine sound_assertEcdhe only ?_
  refine Confined.ite (fun _ => confined_pure _) fun _ => Confined.ite (fun _ => confined_pure _)
    fun _ => ?_
  exact Confined.ite (fun _ => confined_pure _) fun _ => sound_checkSignatureAlgorithms a _ _

end PqDtls.Dtls
