import PqDtls.Dtls.Frames

/-! # Frames of the state machine

    The functions that only make moves which any relation between the worlds of a run
    has to allow: peers and handshakes come and go, messages are counted, a signature is
    made, and a peer enters a state to which no particular message leads.  `EngineFrame`
    lists these moves, and there is one lemma a function; the handlers need less, which is
    `Handler` for those that answer nothing and `Answer` for those that answer their peer,
    and `Assembler` is for putting messages together.  What is left are the functions
    that install, switch or drop keys, and the handlers of the messages that a state
    waits for. -/

namespace PqDtls.Dtls

open Program (get gets modify stop ofOption when Keeps keeps_pure keeps_get keeps_gets keeps_stop
  keeps_ofOption keeps_modify)
open Ksnmss

/-! ## The moves -/

/-- No handshake, or one without queued or partial messages. -/
def FreshHandshake : Option HandshakeParameters → Prop
  | none => True
  | some h => h.reorderQueue = [] ∧ h.reassembleBuf = none

/-- A state to which no particular message leads. -/
def DtlsState.plain : DtlsState → Bool
  | connected | waitChangeCipherSpec | waitCertificateVerify | waitClientHello | waitFinished =>
      false
  | _ => true

/-- A relation that allows what the handlers of messages do that send nothing. -/
structure Handler (env : Env) (R : World → World → Prop) : Prop extends Still R where
  params {w : World} {a : Addr} {o : Option HandshakeParameters} :
    (FreshHandshake o ∨
        o.bind (·.reassembleBuf) = (w.heap a).handshakeParams.bind (·.reassembleBuf)) →
      R w (w.setPeer a { w.heap a with handshakeParams := o })
  state (a : Addr) (s : DtlsState) : s.plain = true → Keeps R (setState a s)
  sign (hash : Digest) : Keeps R (signHash env 0 hash)

/-- A relation that allows what the handlers of messages of the peer `dst` do. -/
structure Answer (env : Env) (dst : Option Addr) (R : World → World → Prop) : Prop
    extends Handler env R, Sender env dst R

/-- A relation that allows these moves, and what `Frame` allows. -/
structure EngineFrame (env : Env) (R : World → World → Prop) : Prop extends Frame env R where
  storage {w w' : World} : w'.heap = w.heap → w'.signer = w.signer → w'.log = w.log → R w w'
  params {w : World} {a : Addr} {o : Option HandshakeParameters} :
    (FreshHandshake o ∨
        o.bind (·.reassembleBuf) = (w.heap a).handshakeParams.bind (·.reassembleBuf)) →
      R w (w.setPeer a { w.heap a with handshakeParams := o })
  state (a : Addr) (s : DtlsState) : s.plain = true → Keeps R (setState a s)
  created (w : World) (a : Addr) (session : Session) : R w (w.setPeer a (emptyPeer session))
  newServer (session : Session) : Keeps R (serverPeer env none session)
  asClient (a : Addr) : Keeps R (modifyPeer a fun p => { p with role := .client })
  newKeys (w : World) :
    R w { w with signer := keyGeneration env.ksnmss w.signer, log := .keyGeneration :: w.log }
  sign (hash : Digest) : Keeps R (signHash env 0 hash)
  writeConnected (a : Addr) (buf : Ptr) (len : Nat) : Keeps R (writeConnected env a buf len)

/-- An event of putting a message together. -/
def Event.assembly : Event → Prop
  | .fragment _ | .deliver .. => True
  | _ => False

/-- A relation that allows any write through `handshake_params`, and these events. -/
structure Assembler (R : World → World → Prop) : Prop extends Still R where
  writes (a : Addr) (f : HandshakeParameters → HandshakeParameters) : Keeps R (modifyHandshake a f)
  assembled {w : World} {e : Event} : e.assembly → R w (w.emitted e)

variable {R : World → World → Prop} {env : Env}

protected theorem EngineFrame.handler (F : EngineFrame env R) : Handler env R where
  toStill := F.still
  params := F.params
  state := F.state
  sign := F.sign

protected theorem EngineFrame.answer (F : EngineFrame env R) (dst : Option Addr) :
    Answer env dst R where
  toHandler := F.handler
  sendMulti := (F.sender dst).sendMulti

protected theorem EngineFrame.stored (F : EngineFrame env R) {f : World → World}
    (heap : ∀ w, (f w).heap = w.heap) (signer : ∀ w, (f w).signer = w.signer)
    (log : ∀ w, (f w).log = w.log) : Keeps R (modify f : M Unit) :=
  fun w => F.storage (heap w) (signer w) (log w)

theorem buffer_writeTmp (h : HandshakeParameters) (off : Nat) (b : Bytes) :
    (h.writeTmp off b).reassembleBuf = h.reassembleBuf := by
  simp only [HandshakeParameters.writeTmp]

protected theorem EngineFrame.setLive (F : EngineFrame env R) (a : Addr) (inUse : Bool) : Keeps R
    (setLive a inUse) :=
  F.stored (fun _ => rfl) (fun _ => rfl) fun _ => rfl

protected theorem EngineFrame.modifyPeers (F : EngineFrame env R) (f : List Addr → List Addr) :
    Keeps R (modifyPeers f) :=
  F.stored (fun _ => rfl) (fun _ => rfl) fun _ => rfl

protected theorem Handler.countMessage (H : Handler env R) (a : Addr) :
    Keeps R (modifyPeer a Peer.countMessage) := by
  refine fun w => H.params (.inr ?_)
  cases (w.heap a).handshakeParams with
  | none => rfl
  | some h => rfl

variable [IsPreorder World R]

/-- A write through `handshake_params` that leaves the buffer alone. -/
protected theorem Handler.handshake (H : Handler env R) {a : Addr}
    {f : HandshakeParameters → HandshakeParameters}
    (hf : ∀ h, (f h).reassembleBuf = h.reassembleBuf) : Keeps R (modifyHandshake a f) := by
  intro w
  cases hp : (w.heap a).handshakeParams with
  | none =>
      rw [modifyHandshake_none f hp]
      exact refl_of R w
  | some h =>
      rw [modifyHandshake_some f hp]
      refine H.params (.inr ?_)
      rw [hp, Option.bind_some, Option.bind_some, hf]

/-- Such a write, in front of a program. -/
protected theorem Handler.handshake_bind (H : Handler env R) {α : Type} {a : Addr}
    {f : HandshakeParameters → HandshakeParameters} {k : Unit → M α}
    (hf : ∀ h, (f h).reassembleBuf = h.reassembleBuf) (hk : ∀ u, Keeps R (k u)) :
    Keeps R (modifyHandshake a f >>= k) := (H.handshake hf).bind hk

protected theorem Handler.handshakeNew (H : Handler env R) (a : Addr) : Keeps R
    (dtlsHandshakeNew env a) := by
  refine (H.malloc env).bind fun found =>
    Keeps.bind (fun w => H.params (.inl ?_)) fun _ => keeps_pure _
  cases found with
  | false => trivial
  | true => exact ⟨rfl, rfl⟩

/-! ## Peers come and go -/

protected theorem EngineFrame.newPeer (F : EngineFrame env R) (session : Session) : Keeps R
    (dtlsNewPeer env session) := by
  refine (F.still.nextTick).bind fun t => ?_
  refine (F.still.malloc env).bind fun found => (keeps_gets _).bind fun inUse => ?_
  refine Keeps.ite (fun _ => keeps_pure _) fun _ => Keeps.bind ?_ fun _ =>
    (F.setLive _ _).bind fun _ => keeps_pure _
  exact fun w => F.created w _ session

protected theorem EngineFrame.freePeer (F : EngineFrame env R) (a : Addr) : Keeps R
    (dtlsFreePeer a) :=
  (keeps_gets _).bind fun _ => Keeps.ite (fun _ => keeps_stop _) fun _ => F.setLive a false

protected theorem EngineFrame.close (F : EngineFrame env R) (remote : Session) : Keeps R
    (dtlsClose env remote) := by
  refine (F.still.getPeerOf remote).bind fun peer => ?_
  cases peer with
  | none => exact keeps_pure _
  | some a =>
      exact ((F.sender _).sendAlert _ _).bind fun _ =>
        (F.state a .closing rfl).bind fun _ => keeps_pure _

protected theorem EngineFrame.destroyPeer (F : EngineFrame env R) (a : Addr) : Keeps R
    (dtlsDestroyPeer env a) := by
  refine (F.still.getPeer a).bind fun p => Keeps.bind ?_ fun _ =>
    (F.modifyPeers _).bind fun _ => F.freePeer a
  exact Keeps.when fun _ => (F.close p.session).bind fun _ => keeps_pure _

/-! ## Handlers of messages -/

theorem keeps_withHandshake (peer : Option Addr)
    {k : Addr → HandshakeParameters → M Outcome} (hk : ∀ a h, Keeps R (k a h)) :
    Keeps R (withHandshake peer k) := by
  cases peer with
  | none => exact keeps_pure _
  | some a =>
      refine (keeps_gets _).bind fun p => ?_
      cases p.handshakeParams with
      | none => exact keeps_pure _
      | some h => exact hk a h

protected theorem Answer.sendClientKeyExchange {a : Addr} (A : Answer env (some a) R) :
    Keeps R (dtlsSendClientKeyExchange env a) := by
  refine (A.fillRandom env 32).bind fun _ => ?_
  refine (A.getPeer a).bind fun p => ?_
  cases p.handshakeParams with
  | none => exact keeps_pure _
  | some h =>
      refine (A.clientKeyShare a p h).bind fun share => ?_
      cases share with
      | error err => exact keeps_pure _
      | ok share =>
          exact (A.startTesla a).bind fun _ =>
            (A.sign _).bind fun _ => (keeps_gets _).bind fun _ =>
              (A.assertThat _).bind fun _ =>
                A.sendHandshakeMsg _ _

protected theorem Answer.handleHelloVerifyRequest {peer : Option Addr} (A : Answer env peer R)
    (state : DtlsState) (data : Ptr)
    (dataLength : Nat) :
    Keeps R (handleHelloVerifyRequest env peer state data dataLength) := by
  refine Keeps.ite (fun _ => keeps_pure _) fun _ => ?_
  refine (A.checkServerHelloVerifyRequest _ _).bind fun err => ?_
  refine Keeps.ite (fun _ => keeps_pure _) fun _ => (A.ticks env).bind fun _ => ?_
  refine Keeps.bind ?_ fun _ => keeps_pure _
  exact keeps_modify fun _ => A.world rfl rfl rfl rfl rfl rfl

protected theorem Handler.serverHelloSuite (H : Handler env R) (a : Addr) (data : Ptr)
    (dataLength : Nat) :
    Keeps R (serverHelloSuite env a data dataLength) := by
  unfold serverHelloSuite
  cases skipVarField data dataLength with
  | none => exact keeps_pure _
  | some rest =>
      refine H.handshake_bind (fun _ => rfl) fun _ => ?_
      refine Keeps.ite (fun _ => keeps_pure _) fun _ =>
        Keeps.ite (fun _ => keeps_pure _) fun _ => ?_
      exact (H.setNonce fun _ => _).bind fun _ => keeps_pure _

protected theorem Handler.checkServerHello (H : Handler env R) (a : Addr) (data : Ptr)
    (dataLength : Nat) :
    Keeps R (checkServerHello env a data dataLength) := by
  refine (keeps_gets _).bind fun p => Keeps.ite (fun _ => keeps_pure _) fun _ => ?_
  refine Keeps.ite (fun _ => keeps_pure _) fun _ =>
    (H.updateHsHash a _).bind fun _ => ?_
  exact Keeps.ite (fun _ => keeps_pure _) fun _ =>
    H.handshake_bind (fun _ => buffer_writeTmp _ _ _) fun _ => H.serverHelloSuite a _ _

protected theorem Handler.handleServerHello (H : Handler env R) (peer : Option Addr)
    (state : DtlsState) (data : Ptr)
    (dataLength : Nat) : Keeps R (handleServerHello env peer state data dataLength) := by
  refine Keeps.ite (fun _ => keeps_pure _) fun _ => keeps_withHandshake peer fun a _ => ?_
  refine (H.checkServerHello a _ _).bind fun err => ?_
  refine Keeps.ite (fun _ => keeps_pure _) fun _ => ?_
  refine (H.getHandshake a).bind fun h => Keeps.bind ?_ fun _ => keeps_pure _
  by_cases hc : isTlsEcdheEcdsaWithAes128Ccm8 h.cipher
  · rw [if_pos hc]; exact H.state a _ rfl
  · rw [if_neg hc]; exact H.state a _ rfl

protected theorem Handler.handleCertificate (H : Handler env R) (peer : Option Addr)
    (role : DtlsPeerType) (state : DtlsState)
    (data : Ptr) (dataLength : Nat) :
    Keeps R (handleCertificate env peer role state data dataLength) := by
  refine Keeps.ite (fun _ => keeps_pure _) fun _ => ?_
  cases peer with
  | none => exact keeps_pure _
  | some a =>
      refine (H.checkServerCertificate a _ _).bind fun err => ?_
      refine Keeps.ite (fun _ => keeps_pure _) fun _ => Keeps.bind ?_ fun _ => keeps_pure _
      cases role with
      | client => exact H.state a _ rfl
      | server => exact H.state a _ rfl

protected theorem Handler.serverKeyExchangeChecked (H : Handler env R) (a : Addr)
    (err : Int) :
    Keeps R (serverKeyExchangeChecked a err) :=
  Keeps.ite (fun _ => keeps_pure _) fun _ =>
    (H.state a .waitServerHelloDone rfl).bind fun _ => keeps_pure _

protected theorem Handler.handleServerKeyExchange (H : Handler env R) (peer : Option Addr)
    (state : DtlsState) (data : Ptr)
    (dataLength : Nat) :
    Keeps R (handleServerKeyExchange env peer state data dataLength) := by
  refine keeps_withHandshake peer fun a h => Keeps.ite (fun _ => ?_) fun _ =>
    Keeps.ite (fun _ => ?_) fun _ => H.serverKeyExchangeChecked a 0
  · exact Keeps.ite (fun _ => keeps_pure _) fun _ =>
      (H.checkServerKeyExchangeEcdsa a _ _).bind fun _ =>
        H.serverKeyExchangeChecked a _
  · exact Keeps.ite (fun _ => keeps_pure _) fun _ =>
      (H.checkServerKeyExchangePsk a _ _).bind fun _ =>
        H.serverKeyExchangeChecked a _

protected theorem Handler.handleCertificateRequest (H : Handler env R) (peer : Option Addr)
    (state : DtlsState) (data : Ptr)
    (dataLength : Nat) :
    Keeps R (handleCertificateRequest peer state data dataLength) := by
  refine Keeps.ite (fun _ => keeps_pure _) fun _ => ?_
  cases peer with
  | none => exact keeps_pure _
  | some a =>
      exact (H.checkCertificateRequest a _ _).bind fun _ =>
        Keeps.ite (fun _ => keeps_pure _) fun _ => keeps_pure _

/-! ## Messages that are put together -/

protected theorem Assembler.freeReassembleBuffer (A : Assembler R) (a : Addr) :
    Keeps R (dtlsFreeReassembleBuffer a) := by
  refine (keeps_gets _).bind fun p => ?_
  cases p.handshakeParams.bind (·.reassembleBuf) with
  | none => exact keeps_pure _
  | some buf => exact Keeps.ite (fun _ => keeps_stop _) fun _ => A.writes a _

protected theorem Assembler.firstFragment (A : Assembler R) (a : Addr) (header : HandshakeHeader) :
    Keeps R (firstFragment env a header) := by
  refine Keeps.ite (fun _ => (A.freeReassembleBuffer a).bind fun _ => ?_) fun _ => keeps_pure _
  refine A.nextTick.bind fun t => Keeps.ite (fun _ => keeps_pure _) fun _ => ?_
  exact (A.malloc env).bind fun found => Keeps.ite
    (fun _ => (A.writes a _).bind fun _ => keeps_pure _)
    fun _ => (A.writes a _).bind fun _ => keeps_pure _

protected theorem Assembler.reassemble (A : Assembler R) (peer : Option Addr)
    (header : HandshakeHeader) (data : Ptr) (dataLength : Nat) :
    Keeps R (reassemble env peer header data dataLength) := by
  have told {e : Event} (he : e.assembly) : Keeps R (emit e) := fun _ => A.assembled he
  refine Keeps.ite (fun _ => keeps_pure _) fun _ => Keeps.ite (fun _ => keeps_pure _) fun _ => ?_
  refine (keeps_ofOption _ _).bind fun a => (A.firstFragment a header).bind fun found => ?_
  refine Keeps.ite (fun _ => keeps_pure _) fun _ => (A.getHandshake a).bind fun h => ?_
  cases h.reassembleBuf with
  | none => exact keeps_pure _
  | some buf =>
      refine Keeps.ite (fun _ => keeps_pure _) fun _ => (told (by trivial)).bind fun _ => ?_
      refine (A.writes a _).bind fun _ => Keeps.ite (fun _ => keeps_pure _) fun _ => ?_
      exact (A.writes a _).bind fun _ => (told (by trivial)).bind fun _ => keeps_pure _

/-! ## Hellos -/

protected theorem EngineFrame.dropPeer (F : EngineFrame env R) (peer : Option Addr)
    (state : DtlsState) :
    Keeps R (dropPeer peer state) := by
  cases peer with
  | none => exact keeps_pure _
  | some a =>
      refine Keeps.ite (fun _ => ?_) fun _ => keeps_pure _
      exact (F.modifyPeers _).bind fun _ => (F.freePeer a).bind fun _ => keeps_pure _

protected theorem EngineFrame.serverPeer (F : EngineFrame env R) (peer : Option Addr)
    (session : Session) :
    Keeps R (serverPeer env peer session) := by
  cases peer with
  | none => exact F.newServer session
  | some a => exact keeps_pure _

protected theorem Handler.ensureHandshake (H : Handler env R) (a : Addr)
    (mseqR mseqS : Nat) :
    Keeps R (ensureHandshake env a mseqR mseqS) := by
  refine (keeps_gets _).bind fun p => Keeps.ite (fun _ => keeps_pure _) fun _ => ?_
  refine (H.handshakeNew a).bind fun found => Keeps.bind ?_ fun _ => keeps_pure _
  exact Keeps.when fun _ => H.handshake fun _ => rfl

protected theorem Handler.updateSuites (H : Handler env R) (a : Addr) (error : Int)
    (data : Ptr) (dataLength : Nat) :
    Keeps R (updateSuites env a error data dataLength) := by
  refine (keeps_gets _).bind fun p => Keeps.ite (fun _ => ?_) fun _ => ?_
  · cases p.security0 with
    | none => exact keeps_pure _
    | some s =>
        exact Keeps.ite (fun _ => keeps_pure _) fun _ =>
          H.handshake_bind (fun _ => rfl) fun _ => keeps_pure _
  · cases suiteLoop env 32768 data.uint16 (data.add 2) with
    | runaway => exact keeps_stop _
    | missing => exact H.handshake_bind (fun _ => rfl) fun _ => keeps_pure _
    | found cipher i data =>
        exact H.handshake_bind (fun _ => rfl) fun _ =>
          H.updateCompression a _ _ _

protected theorem Handler.updateParameters (H : Handler env R) (a : Addr) (data : Ptr)
    (dataLength : Nat) :
    Keeps R (dtlsUpdateParameters env a data dataLength) := by
  refine (keeps_gets _).bind fun p => Keeps.ite (fun _ => keeps_pure _) fun _ => ?_
  refine (H.assertThat _).bind fun _ =>
    H.handshake_bind (fun _ => buffer_writeTmp _ _ _) fun _ => ?_
  cases skipSessionCookie (data.add (dtlsHsLength + dtlsChLength))
      (dataLength - (dtlsHsLength + dtlsChLength)) with
  | none => exact keeps_pure _
  | some rest => exact H.updateSuites a _ _ _

protected theorem Answer.acceptClientHello {a : Addr} (A : Answer env (some a) R) (data : Ptr)
    (dataLength : Nat) :
    Keeps R (acceptClientHello env a data dataLength) := by
  refine (A.ensureHandshake a _ _).bind fun found => Keeps.ite (fun _ => keeps_pure _) fun _ => ?_
  refine (A.clearHsHash a).bind fun _ => ?_
  refine (A.updateParameters a _ _).bind fun err => Keeps.ite (fun _ => keeps_pure _) fun _ => ?_
  refine (A.updateHsHash a _).bind fun _ => ?_
  refine (A.timeofday env).bind fun now => Keeps.bind ?_ fun _ => ?_
  · exact keeps_modify fun _ => A.world rfl rfl rfl rfl rfl rfl
  refine (A.sendServerHelloMsgs).bind fun err =>
    Keeps.ite (fun _ => keeps_pure _) fun _ => ?_
  refine (A.getHandshake a).bind fun h => Keeps.bind ?_ fun _ => keeps_pure _
  unfold flightSent
  split
  · exact A.state a _ rfl
  · exact A.state a _ rfl

protected theorem EngineFrame.handleClientHello (F : EngineFrame env R) (peer : Option Addr)
    (session : Session) (state : DtlsState)
    (data : Ptr) (dataLength : Nat) :
    Keeps R (handleClientHello env peer session state data dataLength) := by
  refine Keeps.ite (fun _ => keeps_pure _) fun _ => ?_
  refine (F.verifyPeer peer session state _ _).bind fun err => ?_
  refine Keeps.ite (fun _ => keeps_pure _) fun _ => Keeps.ite (fun _ => keeps_pure _) fun _ => ?_
  refine (F.dropPeer peer state).bind fun kept => (F.serverPeer kept session).bind fun a => ?_
  cases a with
  | none => exact keeps_pure _
  | some a => exact (F.answer _).acceptClientHello data _

protected theorem Answer.handleHelloRequest {peer : Option Addr} (A : Answer env peer R)
    (state : DtlsState) :
    Keeps R (handleHelloRequest env peer state) := by
  refine Keeps.ite (fun _ => keeps_pure _) fun _ => ?_
  cases peer with
  | none => exact keeps_pure _
  | some a =>
      refine (A.ensureHandshake a 0 0).bind fun found =>
        Keeps.ite (fun _ => keeps_pure _) fun _ => ?_
      exact (A.sendClientHello []).bind fun err =>
        Keeps.ite (fun _ => keeps_pure _) fun _ =>
          (A.state a .clientHello rfl).bind fun _ => keeps_pure _

protected theorem Handler.finishMessage (H : Handler env R) (o : Outcome) : Keeps R
    (finishMessage o) := by
  cases o with
  | ret err => exact keeps_pure _
  | done peer err =>
      cases peer with
      | none => exact keeps_pure _
      | some a => exact (Keeps.when fun _ => H.countMessage a).bind fun _ => keeps_pure _

/-! ## Calls of the application -/

protected theorem EngineFrame.renegotiate (F : EngineFrame env R) (dst : Session) : Keeps R
    (dtlsRenegotiate env dst) := by
  refine (keeps_gets _).bind fun peer => ?_
  cases peer with
  | none => exact keeps_pure _
  | some a =>
      refine (keeps_gets _).bind fun p => Keeps.ite (fun _ => keeps_pure _) fun _ => ?_
      refine (F.handler.handshakeNew a).bind fun found => Keeps.ite (fun _ => keeps_pure _)
        fun _ => ?_
      refine Keeps.ite (fun _ => ?_) fun _ => (F.sender _).sendHelloRequest
      refine ((F.sender _).sendClientHello []).bind fun err =>
        Keeps.bind ?_ fun _ => keeps_pure _
      exact Keeps.when fun _ => F.state a .clientHello rfl

/-- New key material, in front of a program. -/
protected theorem EngineFrame.keyGeneration_bind (F : EngineFrame env R) {α : Type} {m : M α}
    (hm : Keeps R m) :
    Keeps R ((modify fun w : World =>
      { w with signer := keyGeneration env.ksnmss w.signer }) >>= fun _ =>
        emit .keyGeneration >>= fun _ => m) := by
  intro w
  have step := F.newKeys w
  rw [Program.modify_bind, emit_bind]
  -- the new signer is a variable from here on, so that nothing evaluates it
  generalize keyGeneration env.ksnmss w.signer = signer at step ⊢
  exact trans_of R step (hm _)

protected theorem EngineFrame.connectPeer (F : EngineFrame env R) (a : Addr) : Keeps R
    (dtlsConnectPeer env a) := by
  refine (keeps_gets _).bind fun p => (keeps_gets _).bind fun found => ?_
  refine Keeps.ite (fun _ => F.renegotiate _) fun _ => ?_
  refine (F.asClient a).bind fun _ => ?_
  refine (F.modifyPeers _).bind fun _ => ?_
  refine F.keyGeneration_bind ?_
  refine (F.handler.handshakeNew a).bind fun found => Keeps.ite (fun _ => keeps_pure _) fun _ => ?_
  refine (F.still.ticks env).bind fun startRtt => Keeps.bind ?_ fun _ => ?_
  · exact F.stored (fun _ => rfl) (fun _ => rfl) fun _ => rfl
  refine (F.still.ticks env).bind fun _ => ?_
  refine ((F.sender _).sendClientHello []).bind fun res =>
    Keeps.bind ?_ fun _ => keeps_pure _
  exact Keeps.when fun _ => F.state a .clientHello rfl

protected theorem EngineFrame.connectTarget (F : EngineFrame env R) (dst : Session) : Keeps R
    (connectTarget env dst) := by
  refine (keeps_gets _).bind fun peer => ?_
  cases peer with
  | none => exact F.newPeer dst
  | some a => exact keeps_pure _

protected theorem EngineFrame.connect (F : EngineFrame env R) (dst : Session) : Keeps R
    (dtlsConnect env dst) := by
  refine (F.connectTarget dst).bind fun peer => ?_
  cases peer with
  | none => exact keeps_pure _
  | some a =>
      refine (F.connectPeer a).bind fun res => (keeps_gets _).bind fun p => ?_
      exact (Keeps.when fun _ => F.still.callEvent _ _ _).bind fun _ =>
        (Keeps.when fun _ => F.still.callEvent _ _ _).bind fun _ => keeps_pure _

protected theorem EngineFrame.write (F : EngineFrame env R) (dst : Session) (buf : Ptr)
    (len : Nat) :
    Keeps R (dtlsWrite env dst buf len) := by
  refine (keeps_gets _).bind fun peer => ?_
  cases peer with
  | none => exact (F.connect dst).bind fun _ => keeps_pure _
  | some a =>
      exact (keeps_gets _).bind fun p => Keeps.ite (fun _ => keeps_pure _) fun _ =>
        F.writeConnected a buf len

protected theorem EngineFrame.runAppCall (F : EngineFrame env R) (call : AppCall) : Keeps R
    (runAppCall env call) := by
  cases call with
  | write session buf len => exact (F.write session buf len).bind fun _ => keeps_pure _
  | connect session => exact (F.connect session).bind fun _ => keeps_pure _
  | renegotiate session => exact (F.renegotiate session).bind fun _ => keeps_pure _
  | close session => exact (F.close session).bind fun _ => keeps_pure _

protected theorem EngineFrame.runAppCalls (F : EngineFrame env R) (calls : List AppCall) : Keeps R
    (runAppCalls env calls) := by
  induction calls with
  | nil => exact keeps_pure _
  | cons call calls ih => exact (F.runAppCall call).bind fun _ => ih

/-! ## Alerts -/

protected theorem EngineFrame.answerClose (F : EngineFrame env R) (a : Addr) : Keeps R
    (answerClose env a) := by
  refine (keeps_gets _).bind fun p => Keeps.ite (fun _ => ?_) fun _ => F.state a .closed rfl
  exact (F.state a .closing rfl).bind fun _ =>
    ((F.sender _).sendAlert _ _).bind fun _ => keeps_pure _

protected theorem EngineFrame.handleAlert (F : EngineFrame env R) (peer : Option Addr) (data : Ptr)
    (dataLength : Nat) :
    Keeps R (handleAlert env peer data dataLength) := by
  refine Keeps.ite (fun _ => keeps_pure _) fun _ => ?_
  cases peer with
  | none => exact keeps_pure _
  | some a =>
      refine (Keeps.when fun _ => F.modifyPeers _).bind fun _ => (keeps_gets _).bind fun p => ?_
      refine (F.still.callEvent _ _ _).bind fun _ => ?_
      refine (Keeps.when fun _ => F.answerClose a).bind fun _ => ?_
      refine Keeps.ite (fun _ => ?_) fun _ => keeps_pure _
      exact (F.stopRetransmission a).bind fun _ => (F.destroyPeer a).bind fun _ =>
        keeps_pure _

protected theorem EngineFrame.alertSendFromErr (F : EngineFrame env R) (peer : Option Addr)
    (session : Session) (err : Int) :
    Keeps R (dtlsAlertSendFromErr env peer session err) := by
  unfold dtlsAlertSendFromErr
  cases alertFromErr err with
  | none => exact keeps_pure _
  | some alert =>
      refine (keeps_gets _).bind fun found => ?_
      cases peer <|> found with
      | none => exact keeps_pure _
      | some a =>
          exact (F.state a .closing rfl).bind fun _ =>
            (F.sender _).sendAlert _ _

protected theorem EngineFrame.rejectRecord (F : EngineFrame env R) (a : Addr) (p : Peer) : Keeps R
    (rejectRecord env a p) := by
  refine Keeps.ite (fun _ => ?_) fun _ => keeps_pure _
  refine (F.alertSendFromErr _ _ _).bind fun _ => (F.state a .closed rfl).bind fun _ => ?_
  exact (F.stopRetransmission a).bind fun _ => (F.destroyPeer a).bind fun _ => keeps_pure _

protected theorem Handler.queueMessage (H : Handler env R) (a : Addr)
    (h : HandshakeParameters) (data : Ptr)
    (dataLength : Nat) : Keeps R (queueMessage env a h data dataLength) := by
  refine Keeps.ite (fun _ => keeps_pure _) fun _ => Keeps.ite (fun _ => keeps_pure _) fun _ => ?_
  refine (H.malloc env).bind fun found => Keeps.bind ?_ fun _ => keeps_pure _
  exact Keeps.when fun _ => H.handshake fun _ => rfl

end PqDtls.Dtls
