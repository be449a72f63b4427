import PqDtls.Dtls.Engine

/-! # Frames of the engine

    Most functions of the engine build, send or parse messages.  They touch the
    randoms, hashes and counters of a handshake, the queue of sent packets and the
    record sequence numbers, and are seen from outside through the callbacks, but
    they leave alone what the state machine rests on: the list of peers, and for
    each peer its role, state, keys, place in the message sequence, buffers, suite
    and TESLA state.  `Quiet` is this frame; one lemma a function says who keeps it.

    The lemmas ask of a frame no more than the function needs: `Still` for those that
    neither send nor touch the queue, `Sender` for those that send to one peer, and
    `Frame` for all of them. -/

namespace PqDtls.Dtls

open Program (get gets modify stop ofOption when Keeps keeps_pure keeps_get keeps_gets keeps_stop
  keeps_ofOption keeps_modify)

/-! ## The frame -/

/-- The place of a handshake in the sequence of messages, its buffers, and its suite. -/
structure HandshakeCore where
  mseqR : Nat
  reorderQueue : List Netq
  reassembleBuf : Option HsReassemble
  cipher : Nat

def HandshakeParameters.core (h : HandshakeParameters) : HandshakeCore :=
  ⟨h.mseqR, h.reorderQueue, h.reassembleBuf, h.cipher⟩

theorem core_eq {h h' : HandshakeParameters} (mseqR : h'.mseqR = h.mseqR)
    (queue : h'.reorderQueue = h.reorderQueue) (buf : h'.reassembleBuf = h.reassembleBuf)
    (cipher : h'.cipher = h.cipher) : h'.core = h.core := by
  simp only [HandshakeParameters.core, mseqR, queue, buf, cipher]

theorem core_writeTmp (h : HandshakeParameters) (off : Nat) (b : Bytes) :
    (h.writeTmp off b).core = h.core := by
  simp only [HandshakeParameters.core, HandshakeParameters.writeTmp]

/-- Security parameters without the record sequence number. -/
structure SecurityCore where
  compression : Nat
  cipher : Nat
  epoch : Nat
  keyBlock : KeyBlock

def SecurityParameters.core (s : SecurityParameters) : SecurityCore :=
  ⟨s.compression, s.cipher, s.epoch, s.keyBlock⟩

/-- What the state machine rests on in a peer. -/
structure PeerCore where
  session : Session
  role : DtlsPeerType
  state : DtlsState
  security0 : Option SecurityCore
  security1 : Option SecurityCore
  handshake : Option HandshakeCore
  intIndex : Nat
  teslaPs : PacketStore

def Peer.core (p : Peer) : PeerCore where
  session := p.session
  role := p.role
  state := p.state
  security0 := p.security0.map SecurityParameters.core
  security1 := p.security1.map SecurityParameters.core
  handshake := p.handshakeParams.map HandshakeParameters.core
  intIndex := p.intIndex
  teslaPs := p.teslaPs

/-- An event of a callback, or a message on the terminal. -/
def Event.outside : Event → Prop
  | .sent .. | .write .. | .event .. | .interval .. => True
  | _ => False

/-- The frame of a function that leaves the state machine alone. -/
structure Quiet (w w' : World) : Prop where
  heap : ∀ a, (w'.heap a).core = (w.heap a).core
  peers : w'.peers = w.peers
  live : w'.live = w.live
  signer : w'.signer = w.signer
  log : ∃ l, w'.log = l ++ w.log ∧ ∀ e ∈ l, e.outside

instance : IsPreorder World Quiet where
  refl w := ⟨fun _ => rfl, rfl, rfl, rfl, [], rfl, List.forall_mem_nil _⟩
  trans := by
    rintro w₁ w₂ w₃ ⟨h, hp, hl, hs, l, hlog, ho⟩ ⟨h', hp', hl', hs', l', hlog', ho'⟩
    refine ⟨fun a => (h' a).trans (h a), hp'.trans hp, hl'.trans hl, hs'.trans hs,
      l' ++ l, ?_, ?_⟩
    · rw [hlog', hlog, List.append_assoc]
    · intro e he
      cases List.mem_append.mp he with
      | inl he => exact ho' e he
      | inr he => exact ho e he

theorem quiet_refl (w : World) : Quiet w w := refl_of Quiet w

/-- A change of nothing but globals and the queue of sent packets. -/
theorem Quiet.globals {w w' : World} (heap : w'.heap = w.heap) (peers : w'.peers = w.peers)
    (live : w'.live = w.live) (signer : w'.signer = w.signer) (log : w'.log = w.log) :
    Quiet w w' :=
  ⟨fun a => by rw [heap], peers, live, signer, [], log, List.forall_mem_nil _⟩

@[simp] theorem heap_setPeer (w : World) (a : Addr) (p : Peer) :
    (w.setPeer a p).heap a = p := by
  simp only [World.setPeer, Function.update_self]

theorem heap_setPeer_ne {w : World} {a b : Addr} (p : Peer) (h : b ≠ a) :
    (w.setPeer a p).heap b = w.heap b := by
  simp only [World.setPeer, Function.update_of_ne h]

/-- A write to one peer that leaves the core alone. -/
theorem Quiet.peer {w : World} {a : Addr} {p : Peer} (h : p.core = (w.heap a).core) :
    Quiet w (w.setPeer a p) := by
  refine ⟨fun b => ?_, rfl, rfl, rfl, [], rfl, List.forall_mem_nil _⟩
  by_cases hb : b = a
  · subst hb
    rw [heap_setPeer, h]
  · rw [heap_setPeer_ne p hb]

/-! ## Handshake parameters -/

theorem getHandshake_apply {a : Addr} {w : World} {h : HandshakeParameters}
    (hp : (w.heap a).handshakeParams = some h) : getHandshake a w = (.ok h, w) := by
  simp only [getHandshake, getPeer_bind, hp, ofOption, Program.pure_apply]

theorem modifyHandshake_none {a : Addr} {w : World} (f : HandshakeParameters → HandshakeParameters)
    (h : (w.heap a).handshakeParams = none) :
    modifyHandshake a f w = (.error .nullDeref, w) := by
  simp only [modifyHandshake, getHandshake, getPeer, Program.bind_apply, Program.gets_apply, h,
    ofOption, Program.stop_apply]

theorem modifyHandshake_some {a : Addr} {w : World} {h : HandshakeParameters}
    (f : HandshakeParameters → HandshakeParameters) (hp : (w.heap a).handshakeParams = some h) :
    modifyHandshake a f w
      = (.ok (), w.setPeer a { w.heap a with handshakeParams := some (f h) }) := by
  simp only [modifyHandshake, getHandshake, getPeer, Program.bind_apply, Program.gets_apply, hp,
    ofOption, Program.pure_apply]
  rfl

theorem Quiet.peerState {w w' : World} (q : Quiet w w') (a : Addr) :
    (w'.heap a).state = (w.heap a).state :=
  congrArg PeerCore.state (q.heap a)

theorem Quiet.params {w w' : World} {a : Addr} {h : HandshakeParameters} (q : Quiet w w')
    (hp : (w.heap a).handshakeParams = some h) :
    ∃ h', (w'.heap a).handshakeParams = some h' ∧ h'.core = h.core := by
  have hs : (w'.heap a).handshakeParams.map HandshakeParameters.core
      = (w.heap a).handshakeParams.map HandshakeParameters.core :=
    congrArg PeerCore.handshake (q.heap a)
  rw [hp, Option.map_some] at hs
  exact Option.map_eq_some_iff.mp hs

/-! ## Frames -/

/-- What a function may change that neither sends nor touches the list of peers. -/
def Peer.frame (p : Peer) : PeerCore × Option SecurityParameters × Option SecurityParameters :=
  (p.core, p.security0, p.security1)

/-- An event of a callback that is no record. -/
def Event.told : Event → Prop
  | .event .. | .interval .. => True
  | _ => False

theorem Event.outside_of_told {e : Event} (h : e.told) : e.outside := by
  cases e <;> trivial

/-- A relation that allows what the functions do that neither send nor touch the queue. -/
structure Still (R : World → World → Prop) : Prop where
  world {w w' : World} : w'.heap = w.heap → w'.peers = w.peers → w'.live = w.live →
    w'.signer = w.signer → w'.log = w.log → w'.sendqueue = w.sendqueue → R w w'
  peer {w : World} {a : Addr} {p : Peer} : p.frame = (w.heap a).frame → R w (w.setPeer a p)
  told {w : World} {e : Event} : e.told → R w (w.emitted e)

/-- A relation that allows any change of the queue, too. -/
structure Tacit (R : World → World → Prop) : Prop where
  world {w w' : World} : w'.heap = w.heap → w'.peers = w.peers → w'.live = w.live →
    w'.signer = w.signer → w'.log = w.log → R w w'
  peer {w : World} {a : Addr} {p : Peer} : p.frame = (w.heap a).frame → R w (w.setPeer a p)
  told {w : World} {e : Event} : e.told → R w (w.emitted e)

/-- A relation that allows sending to the peer `dst`. -/
structure Sender (env : Env) (dst : Option Addr) (R : World → World → Prop) : Prop
    extends Still R where
  sendMulti {security : Option SecRef} (own : ∀ r, security = some r → dst = some r.peer)
    (session : Session) (type : Nat) (bufArray : List Bytes) :
    Keeps R (dtlsSendMulti env dst security session type bufArray)

/-- A relation that allows sending and retransmission, too. -/
structure Frame (env : Env) (R : World → World → Prop) : Prop extends Tacit R where
  sendMulti {peer : Option Addr} {security : Option SecRef}
    (own : ∀ r, security = some r → peer = some r.peer) (session : Session) (type : Nat)
    (bufArray : List Bytes) : Keeps R (dtlsSendMulti env peer security session type bufArray)
  retransmit (node : Netq) : Keeps R (dtlsRetransmit env node)

variable {R : World → World → Prop} {env : Env}

protected theorem Tacit.still (T : Tacit R) : Still R where
  world heap peers live signer log _ := T.world heap peers live signer log
  peer := T.peer
  told := T.told

protected theorem Frame.sender (F : Frame env R) (peer : Option Addr) : Sender env peer R where
  toStill := F.still
  sendMulti := F.sendMulti

protected theorem Still.modifyPeer (T : Still R) {a : Addr} {f : Peer → Peer}
    (h : ∀ p, (f p).frame = p.frame) : Keeps R (modifyPeer a f) :=
  fun w => T.peer (h (w.heap a))

protected theorem Tacit.modifyQueue (T : Tacit R) (f : World → List Netq) : Keeps R
    (modifyQueue f) := keeps_modify fun _ => T.world rfl rfl rfl rfl rfl

protected theorem Still.setNonce (T : Still R) (f : World → Digest) :
    Keeps R (modify fun w => { w with treqNonce := f w } : M Unit) :=
  keeps_modify fun _ => T.world rfl rfl rfl rfl rfl rfl

protected theorem Still.callEvent (T : Still R) (session : Session) (level code : Nat) :
    Keeps R (callEvent session level code) := keeps_modify fun _ => T.told trivial

/-- The parameters that `dtls_security_params` selects are those of the peer. -/
theorem keeps_securityParams_bind {α : Type} (a : Addr) {k : Option SecRef → M α}
    (hk : ∀ security, (∀ r, security = some r → some a = some r.peer) → Keeps R (k security)) :
    Keeps R (dtlsSecurityParams a >>= k) := by
  intro w
  show R w (k ((w.heap a).security0.map fun _ => ⟨a, .zero⟩) w).2
  refine hk _ (fun r hr => ?_) w
  obtain ⟨s, -, rfl⟩ := Option.map_eq_some_iff.mp hr
  rfl

variable [IsPreorder World R]

/-! ## Functions that send nothing -/

protected theorem Still.nextTick (T : Still R) : Keeps R nextTick := by
  refine (keeps_gets _).bind fun _ => Keeps.bind ?_ fun _ => keeps_pure _
  exact keeps_modify fun _ => T.world rfl rfl rfl rfl rfl rfl

protected theorem Still.getPeer (_ : Still R) (a : Addr) : Keeps R (getPeer a) := keeps_gets _

protected theorem Still.getHandshake (T : Still R) (a : Addr) : Keeps R (getHandshake a) :=
  (T.getPeer a).bind fun _ => keeps_ofOption _ _

/-- A write through `handshake_params` that leaves the sequence and the buffers alone;
    the pointer is not NULL when it is made. -/
protected theorem Still.modifyHandshake (T : Still R) {a : Addr}
    {f : HandshakeParameters → HandshakeParameters} (hf : ∀ h, (f h).core = h.core) :
    Keeps R (modifyHandshake a f) := by
  intro w
  cases hp : (w.heap a).handshakeParams with
  | none =>
      rw [modifyHandshake_none f hp]
      exact refl_of R w
  | some h =>
      rw [modifyHandshake_some f hp]
      refine T.peer ?_
      simp only [Peer.frame, Peer.core, hp, Option.map_some, hf]

/-- Such a write to the peer, in front of a program. -/
protected theorem Still.modifyPeer_bind (T : Still R) {α : Type} {a : Addr} {f : Peer → Peer}
    {k : Unit → M α} (h : ∀ p, (f p).frame = p.frame) (hk : ∀ u, Keeps R (k u)) :
    Keeps R (modifyPeer a f >>= k) := (T.modifyPeer h).bind hk

/-- Such a write, in front of a program. -/
protected theorem Still.modifyHandshake_bind (T : Still R) {α : Type} {a : Addr}
    {f : HandshakeParameters → HandshakeParameters} {k : Unit → M α}
    (hf : ∀ h, (f h).core = h.core) (hk : ∀ u, Keeps R (k u)) :
    Keeps R (modifyHandshake a f >>= k) := (T.modifyHandshake hf).bind hk

protected theorem Still.fillRandom (T : Still R) (env : Env) (n : Nat) : Keeps R
    (dtlsFillRandom env n) :=
  T.nextTick.bind fun _ => keeps_pure _

protected theorem Still.ticks (T : Still R) (env : Env) : Keeps R (dtlsTicks env) :=
  T.nextTick.bind fun _ => keeps_pure _

protected theorem Still.timeofday (T : Still R) (env : Env) : Keeps R (gettimeofday env) :=
  T.nextTick.bind fun _ => keeps_pure _

protected theorem Still.malloc (T : Still R) (env : Env) : Keeps R (malloc env) :=
  T.nextTick.bind fun _ => keeps_pure _

protected theorem Still.callGetPskInfo (T : Still R) (env : Env) (session : Session)
    (type : CredentialsType)
    (desc : Bytes) (n : Nat) : Keeps R (callGetPskInfo env session type desc n) :=
  T.nextTick.bind fun _ => by cases env.getPskInfo <;> exact keeps_pure _

protected theorem Tacit.stopRetransmission (T : Tacit R) (a : Addr) : Keeps R
    (dtlsStopRetransmission a) :=
  keeps_get.bind fun _ => Keeps.ite (fun _ => keeps_stop _) fun _ => T.modifyQueue _

protected theorem Tacit.stopRetransmissionOf (T : Tacit R) (peer : Option Addr) :
    Keeps R (stopRetransmissionOf peer) := by
  cases peer with
  | none => exact keeps_pure ()
  | some a => exact T.stopRetransmission a

protected theorem Tacit.queuePacket (T : Tacit R) (peer : Option Addr) (security : Option SecRef)
    (type : Nat)
    (bufArray : List Bytes) : Keeps R (queuePacket env peer security type bufArray) :=
  (T.still.malloc env).bind fun _ => Keeps.ite (fun _ => keeps_pure _) fun _ =>
    (T.still.ticks env).bind fun _ => T.modifyQueue _

protected theorem Still.getPeerOf (_ : Still R) (session : Session) : Keeps R
    (dtlsGetPeer session) := keeps_gets _

protected theorem Still.updateHsHash (T : Still R) (a : Addr) (data : Bytes) : Keeps R
    (updateHsHash a data) :=
  T.modifyHandshake fun _ => rfl

protected theorem Still.clearHsHash (T : Still R) (a : Addr) : Keeps R (clearHsHash a) :=
  T.modifyHandshake fun _ => rfl

protected theorem Still.nextMessageSeq (T : Still R) (peer : Option Addr) (inc : Bool) :
    Keeps R (nextMessageSeq peer inc) := by
  cases peer with
  | none => exact keeps_pure _
  | some a =>
      refine (T.getPeer a).bind fun p => ?_
      cases p.handshakeParams with
      | none => exact keeps_pure _
      | some h =>
          have count : Keeps R
              (modifyHandshake a fun h => { h with mseqS := (h.mseqS + 1) % 2 ^ 16 }) :=
            T.modifyHandshake fun _ => rfl
          exact (Keeps.when fun _ => count).bind fun _ => keeps_pure _

protected theorem Still.setHandshakeHeader (T : Still R) (type : Nat) (peer : Option Addr)
    (l o f : Nat) (inc : Bool) :
    Keeps R (dtlsSetHandshakeHeader type peer l o f inc) :=
  (T.nextMessageSeq peer inc).bind fun _ => keeps_pure _

protected theorem Still.hashMessage (T : Still R) (type : Nat) (peer : Option Addr) (data : Bytes) :
    Keeps R (hashMessage type peer data) :=
  (T.setHandshakeHeader _ _ _ _ _ _).bind fun _ => (keeps_ofOption _ _).bind fun _ =>
    T.updateHsHash _ _

protected theorem Still.assertThat (_ : Still R) (c : Prop) [Decidable c] : Keeps R
    (assertThat c) :=
  Keeps.ite (fun _ => keeps_pure _) fun _ => keeps_stop _

protected theorem Still.createCookie (_ : Still R) (session : Session) (msg : Ptr) (msglen : Nat) :
    Keeps R (dtlsCreateCookie env session msg msglen) := by
  unfold dtlsCreateCookie
  cases cookieInput session msg msglen with
  | error err => exact keeps_pure _
  | ok input =>
      exact (keeps_ofOption _ _).bind fun _ => (keeps_gets _).bind fun _ => keeps_pure _

protected theorem Still.updateCompression (T : Still R) (a : Addr) (error : Int) (data : Ptr)
    (dataLength : Int) :
    Keeps R (updateCompression a error data dataLength) := by
  refine (T.getPeer a).bind fun p => Keeps.ite (fun _ => ?_) fun _ => ?_
  · exact T.modifyHandshake_bind (fun _ => core_eq rfl rfl rfl rfl) fun _ => keeps_pure _
  · refine Keeps.ite (fun _ => keeps_pure _) fun _ => ?_
    cases compressionLoop data.uint8 (data.add 1) with
    | none => exact keeps_pure _
    | some rest =>
        exact T.modifyHandshake_bind (fun _ => core_eq rfl rfl rfl rfl) fun _ =>
          (T.getPeer a).bind fun _ => keeps_pure _

protected theorem Still.freshClientRandom (T : Still R) (a : Addr) : Keeps R
    (freshClientRandom env a) :=
  (T.ticks env).bind fun _ => (T.fillRandom env _).bind fun _ =>
    T.modifyHandshake fun _ => core_writeTmp _ _ _

protected theorem Still.preMasterSecret (T : Still R) (h : HandshakeParameters)
    (session : Session) :
    Keeps R (preMasterSecret env h session) := by
  refine Keeps.ite (fun _ => ?_) fun _ => Keeps.ite (fun _ => keeps_pure _) fun _ => keeps_pure _
  exact (T.callGetPskInfo env _ _ _ _).bind fun _ =>
    Keeps.ite (fun _ => keeps_pure _) fun _ => keeps_pure _

protected theorem Still.clientKeyShare (T : Still R) (a : Addr) (p : Peer)
    (h : HandshakeParameters) :
    Keeps R (clientKeyShare env a p h) := by
  refine Keeps.ite (fun _ => ?_) fun _ => Keeps.ite (fun _ => ?_) fun _ => keeps_pure _
  · refine (T.callGetPskInfo env _ _ _ _).bind fun r => ?_
    refine Keeps.ite (fun _ => keeps_pure _) fun _ => Keeps.ite (fun _ => ?_) fun _ => ?_
    · exact T.modifyHandshake_bind (fun _ => core_eq rfl rfl rfl rfl) fun _ => keeps_pure _
    · exact Keeps.ite (fun _ => keeps_stop _) fun _ =>
        T.modifyHandshake_bind (fun _ => core_eq rfl rfl rfl rfl) fun _ => keeps_pure _
  · exact T.nextTick.bind fun _ =>
      T.modifyHandshake_bind (fun _ => core_eq rfl rfl rfl rfl) fun _ => keeps_pure _

protected theorem Still.startTesla (T : Still R) (a : Addr) : Keeps R (startTesla env a) := by
  refine (keeps_gets _).bind fun nonce => (T.timeofday env).bind fun tv1 => ?_
  refine (T.timeofday env).bind fun tv => (T.fillRandom env _).bind fun _ => ?_
  refine (T.fillRandom env _).bind fun hmacKey1 => (T.fillRandom env _).bind fun seed => ?_
  refine Keeps.bind ?_ fun _ => Keeps.bind ?_ fun _ => Keeps.bind ?_ fun _ => keeps_pure _
  · exact keeps_modify fun _ => T.world rfl rfl rfl rfl rfl rfl
  · exact T.modifyPeer fun _ => rfl
  · exact keeps_modify fun _ => T.world rfl rfl rfl rfl rfl rfl

protected theorem Still.checkClientKeyExchange (T : Still R) (a : Addr) (h : HandshakeParameters)
    (data : Ptr)
    (length : Nat) : Keeps R (checkClientKeyExchange a h data length) := by
  refine Keeps.ite (fun _ => ?_) fun _ => Keeps.ite (fun _ => ?_) fun _ => keeps_pure _
  · refine Keeps.ite (fun _ => keeps_pure _) fun _ => Keeps.ite (fun _ => keeps_pure _) fun _ => ?_
    exact Keeps.ite (fun _ => keeps_pure _) fun _ =>
      T.modifyHandshake_bind (fun _ => core_eq rfl rfl rfl rfl) fun _ => keeps_pure _
  · refine Keeps.ite (fun _ => keeps_pure _) fun _ => Keeps.ite (fun _ => keeps_pure _) fun _ => ?_
    exact Keeps.ite (fun _ => keeps_pure _) fun _ =>
      T.modifyHandshake_bind (fun _ => core_eq rfl rfl rfl rfl) fun _ => keeps_pure _

protected theorem Still.assertEcdhe (T : Still R) (a : Addr) : Keeps R (assertEcdhe a) :=
  (T.getHandshake a).bind fun _ => T.assertThat _

protected theorem Still.checkServerCertificate (T : Still R) (a : Addr) (data : Ptr)
    (dataLength : Nat) :
    Keeps R (checkServerCertificate env a data dataLength) := by
  refine (T.getPeer a).bind fun p => Keeps.ite (fun _ => keeps_pure _) fun _ => ?_
  refine (T.updateHsHash a _).bind fun _ => (T.assertEcdhe a).bind fun _ => ?_
  refine Keeps.ite (fun _ => keeps_pure _) fun _ => Keeps.ite (fun _ => keeps_pure _) fun _ => ?_
  refine T.modifyHandshake_bind (fun _ => core_eq rfl rfl rfl rfl) fun _ =>
    T.nextTick.bind fun _ => ?_
  cases env.verifyEcdsaKey with
  | none => exact keeps_pure _
  | some f => exact keeps_pure _

protected theorem Still.checkClientCertificateVerify (T : Still R) (a : Addr) (data : Ptr)
    (dataLength : Nat) :
    Keeps R (checkClientCertificateVerify env a data dataLength) := by
  refine (T.getPeer a).bind fun p => ?_
  cases p.handshakeParams with
  | none => exact keeps_pure _
  | some h =>
      exact (T.assertEcdhe a).bind fun _ =>
        Keeps.ite (fun _ => keeps_pure _) fun _ => keeps_pure _

protected theorem Still.serverKeyShare (T : Still R) (a : Addr) (data : Ptr) (dataLength : Nat) :
    Keeps R (serverKeyShare env a data dataLength) := by
  refine Keeps.ite (fun _ => keeps_pure _) fun _ => Keeps.ite (fun _ => keeps_pure _) fun _ => ?_
  refine Keeps.ite (fun _ => keeps_pure _) fun _ => Keeps.ite (fun _ => keeps_pure _) fun _ => ?_
  exact T.modifyHandshake_bind (fun _ => core_eq rfl rfl rfl rfl) fun _ =>
    (T.getHandshake a).bind fun _ => keeps_pure _

protected theorem Still.checkServerKeyExchangeEcdsa (T : Still R) (a : Addr) (data : Ptr)
    (dataLength : Nat) :
    Keeps R (checkServerKeyExchangeEcdsa env a data dataLength) := by
  refine (T.getPeer a).bind fun p => Keeps.ite (fun _ => keeps_pure _) fun _ => ?_
  refine (T.updateHsHash a _).bind fun _ => (T.assertEcdhe a).bind fun _ => ?_
  exact Keeps.ite (fun _ => keeps_pure _) fun _ => T.serverKeyShare a _ _

protected theorem Still.checkServerKeyExchangePsk (T : Still R) (a : Addr) (data : Ptr)
    (dataLength : Nat) :
    Keeps R (checkServerKeyExchangePsk a data dataLength) := by
  refine (T.getPeer a).bind fun p => Keeps.ite (fun _ => keeps_pure _) fun _ => ?_
  refine (T.updateHsHash a _).bind fun _ => (T.getHandshake a).bind fun h => ?_
  refine (T.assertThat _).bind fun _ => Keeps.ite (fun _ => keeps_pure _) fun _ => ?_
  refine Keeps.ite (fun _ => keeps_pure _) fun _ => Keeps.ite (fun _ => keeps_pure _) fun _ => ?_
  exact T.modifyHandshake_bind (fun _ => core_eq rfl rfl rfl rfl) fun _ => keeps_pure _

protected theorem Still.checkSignatureAlgorithms (T : Still R) (a : Addr) (data : Ptr)
    (dataLength : Nat) :
    Keeps R (checkSignatureAlgorithms a data dataLength) := by
  refine Keeps.ite (fun _ => keeps_pure _) fun _ => Keeps.ite (fun _ => keeps_stop _) fun _ => ?_
  refine Keeps.ite (fun _ => ?_) fun _ => keeps_pure _
  exact T.modifyHandshake_bind (fun _ => core_eq rfl rfl rfl rfl) fun _ => keeps_pure _

protected theorem Still.checkCertificateRequest (T : Still R) (a : Addr) (data : Ptr)
    (dataLength : Nat) :
    Keeps R (checkCertificateRequest a data dataLength) := by
  refine (T.getPeer a).bind fun p => Keeps.ite (fun _ => keeps_pure _) fun _ => ?_
  refine (T.updateHsHash a _).bind fun _ => (T.assertEcdhe a).bind fun _ => ?_
  refine Keeps.ite (fun _ => keeps_pure _) fun _ => Keeps.ite (fun _ => keeps_pure _) fun _ => ?_
  exact Keeps.ite (fun _ => keeps_pure _) fun _ => T.checkSignatureAlgorithms a _ _

protected theorem Still.checkInterval (T : Still R) (index : Nat) :
    Keeps R (checkInterval env index) :=
  (T.timeofday env).bind fun _ => keeps_get.bind fun _ => keeps_modify fun _ => T.told trivial

protected theorem Still.teslaPayload (T : Still R) (head : Addr) (buf : Ptr) (len : Nat) :
    Keeps R (teslaPayload env head buf len) :=
  keeps_get.bind fun _ => Keeps.ite (fun _ => keeps_pure _) fun _ =>
    T.modifyPeer_bind (fun _ => rfl) fun _ => keeps_pure _

/-! ## Functions that send -/

protected theorem Sender.send {a : Addr} (S : Sender env (some a) R) (type : Nat) (buf : Bytes) :
    Keeps R (dtlsSend env a type buf) :=
  keeps_securityParams_bind a fun _ own => (S.getPeer a).bind fun _ => S.sendMulti own _ _ _

protected theorem Sender.sendAlert {a : Addr} (S : Sender env (some a) R)
    (level description : Nat) :
    Keeps R (dtlsSendAlert env a level description) :=
  (S.send _ _).bind fun _ => keeps_pure _

protected theorem Sender.sendFragments {peer : Option Addr} (S : Sender env peer R)
    {security : Option SecRef} (own : ∀ r, security = some r → peer = some r.peer)
    (session : Session) (type : Nat) (data : Bytes) (fuel remaining : Nat) (ret : Int) :
    Keeps R (sendFragments env peer security session type data fuel remaining ret) := by
  induction fuel generalizing remaining ret with
  | zero => exact keeps_pure _
  | succ fuel ih =>
      exact (S.setHandshakeHeader _ _ _ _ _ _).bind fun _ =>
        (S.sendMulti own _ _ _).bind fun _ => Keeps.ite (fun _ => keeps_pure _) fun _ => ih _ _

protected theorem Sender.sendHandshakeMsgHash {peer : Option Addr} (S : Sender env peer R)
    (session : Session) (type : Nat) (data : Bytes) (addHash : Bool) :
    Keeps R (dtlsSendHandshakeMsgHash env peer session type data addHash) := by
  have tail (security : Option SecRef) (own : ∀ r, security = some r → peer = some r.peer) :
      Keeps R (do
        when (addHash = true) (hashMessage type peer data)
        sendFragments env peer security session type data (data.length + 1) data.length 0) :=
    (Keeps.when fun _ => S.hashMessage _ _ _).bind fun _ => S.sendFragments own _ _ _ _ _ _
  cases peer with
  | none => exact tail none nofun
  | some a => exact keeps_securityParams_bind a tail

protected theorem Sender.sendHandshakeMsg {a : Addr} (S : Sender env (some a) R) (type : Nat)
    (data : Bytes) :
    Keeps R (dtlsSendHandshakeMsg env a type data) :=
  (S.getPeer a).bind fun _ => S.sendHandshakeMsgHash _ _ _ _

protected theorem Sender.sendServerHello {a : Addr} (S : Sender env (some a) R) : Keeps R
    (dtlsSendServerHello env a) := by
  refine (S.getPeer a).bind fun p => Keeps.ite (fun _ => keeps_pure _) fun _ => ?_
  refine (S.ticks env).bind fun _ => (S.fillRandom env _).bind fun _ => ?_
  refine S.modifyHandshake_bind (fun _ => core_writeTmp _ _ _) fun _ =>
    (S.fillRandom env _).bind fun n => ?_
  exact (S.setNonce fun _ => n).bind fun _ => (S.getHandshake a).bind fun _ =>
    (S.assertThat _).bind fun _ => S.sendHandshakeMsg _ _

protected theorem Sender.sendServerKeyExchangePsk {a : Addr} (S : Sender env (some a) R)
    (hint : Ptr)
    (len : Nat) :
    Keeps R (dtlsSendServerKeyExchangePsk env a hint len) :=
  (S.assertThat _).bind fun _ => S.sendHandshakeMsg _ _

protected theorem Sender.sendPskHint {a : Addr} (S : Sender env (some a) R) (cipher : Nat) : Keeps R
    (sendPskHint env a cipher) :=
  Keeps.ite (fun _ => keeps_pure _) fun _ => (S.getPeer a).bind fun _ =>
    (S.callGetPskInfo env _ _ _ _).bind fun _ =>
      Keeps.ite (fun _ => keeps_pure _) fun _ => S.sendServerKeyExchangePsk _ _

protected theorem Sender.sendServerHelloMsgs {a : Addr} (S : Sender env (some a) R) : Keeps R
    (dtlsSendServerHelloMsgs env a) := by
  refine (S.sendServerHello).bind fun res => Keeps.ite (fun _ => keeps_pure _) fun _ => ?_
  refine (S.getPeer a).bind fun p => ?_
  cases p.handshakeParams with
  | none => exact keeps_pure _
  | some h =>
      refine (S.sendPskHint _).bind fun res => ?_
      exact Keeps.ite (fun _ => keeps_pure _) fun _ =>
        (S.sendHandshakeMsg _ _).bind fun _ => keeps_pure _

protected theorem Sender.sendClientHello {a : Addr} (S : Sender env (some a) R) (cookie : Bytes) :
    Keeps R (dtlsSendClientHello env a cookie) := by
  refine (S.getPeer a).bind fun p => Keeps.ite (fun _ => keeps_pure _) fun _ => ?_
  refine Keeps.ite (fun _ => keeps_pure _) fun _ => ?_
  refine (Keeps.when fun _ => S.freshClientRandom a).bind fun _ => ?_
  exact (S.getHandshake a).bind fun _ => (S.assertThat _).bind fun _ =>
    (Keeps.when fun _ => S.clearHsHash a).bind fun _ =>
      S.sendHandshakeMsgHash _ _ _ _

protected theorem Sender.checkServerHelloVerifyRequest {peer : Option Addr} (S : Sender env peer R)
    (data : Ptr)
    (dataLength : Nat) :
    Keeps R (checkServerHelloVerifyRequest env peer data dataLength) := by
  refine Keeps.ite (fun _ => keeps_pure _) fun _ => ?_
  cases peer with
  | none => exact keeps_pure _
  | some a => exact S.sendClientHello _

protected theorem Sender.sendHelloRequest {a : Addr} (S : Sender env (some a) R) : Keeps R
    (dtlsSendHelloRequest env a) :=
  (S.getPeer a).bind fun _ => S.sendHandshakeMsgHash _ _ _ _

protected theorem Sender.sendFinished {a : Addr} (S : Sender env (some a) R) (label : Bytes) :
    Keeps R (dtlsSendFinished env a label) := by
  refine (S.getPeer a).bind fun p => ?_
  cases p.handshakeParams with
  | none => exact keeps_pure _
  | some h => exact S.sendHandshakeMsg _ _

protected theorem Sender.sendCcs {a : Addr} (S : Sender env (some a) R) : Keeps R
    (dtlsSendCcs env a) := S.send _ _

/-! ## Functions that retransmit, or send without a peer -/

protected theorem Frame.checkRetransmitLoop (F : Frame env R) (now : Nat) (all : Bool)
    (fuel : Nat) :
    Keeps R (checkRetransmitLoop env now all fuel) := by
  induction fuel with
  | zero => exact keeps_pure _
  | succ fuel ih =>
      refine keeps_get.bind fun w => ?_
      cases w.sendqueue with
      | nil => exact keeps_pure _
      | cons node rest =>
          refine Keeps.ite (fun _ => keeps_pure _) fun _ => (F.modifyQueue _).bind fun _ => ?_
          exact (F.retransmit node).bind fun _ => Keeps.ite (fun _ => keeps_pure _) fun _ => ih

protected theorem Frame.checkRetransmit (F : Frame env R) (all : Bool) : Keeps R
    (dtlsCheckRetransmit env all) :=
  (F.still.ticks env).bind fun _ => keeps_get.bind fun _ => F.checkRetransmitLoop _ _ _

protected theorem Frame.verifyPeer (F : Frame env R) (peer : Option Addr) (session : Session)
    (state : DtlsState)
    (data : Ptr) (dataLength : Nat) :
    Keeps R (dtlsVerifyPeer env peer session state data dataLength) := by
  refine (F.still.createCookie session data dataLength).bind fun mycookie => ?_
  cases mycookie with
  | error err => exact keeps_pure _
  | ok mycookie =>
      cases dtlsGetCookie data dataLength with
      | error err => exact keeps_pure _
      | ok cookie =>
          exact Keeps.ite (fun _ => keeps_pure _) fun _ => (F.sender _).sendHandshakeMsgHash _ _ _ _

/-! ## The quiet frame -/

theorem quietTacit : Tacit Quiet where
  world := Quiet.globals
  peer h := Quiet.peer (congrArg Prod.fst h)
  told h := by
    refine ⟨fun _ => rfl, rfl, rfl, rfl, [_], rfl, ?_⟩
    intro e he
    rw [List.mem_singleton.mp he]
    exact Event.outside_of_told h

theorem quiet_emit {e : Event} (h : e.outside) : Keeps Quiet (emit e) := by
  refine keeps_modify fun w => ⟨fun _ => rfl, rfl, rfl, rfl, [e], rfl, ?_⟩
  intro e' he
  rwa [List.mem_singleton.mp he]

theorem quiet_callWrite (env : Env) (session : Session) (type : Nat) (payload b : Bytes) :
    Keeps Quiet (callWrite env session type payload b) := by
  have sent : Keeps Quiet (emit (.sent session type payload)) := quiet_emit trivial
  have write : Keeps Quiet (emit (.write session b)) := quiet_emit trivial
  exact quietTacit.still.nextTick.bind fun _ => sent.bind fun _ => write.bind fun _ => keeps_pure _

variable (env : Env)

theorem core_setSecurity {p : Peer} {s : SecurityParameters} {slot : Slot} {n : Nat}
    (h : p.security slot = some s) : (p.setSecurity { s with rseq := n } slot).core = p.core := by
  cases slot with
  | zero =>
      have h : p.security0 = some s := h
      simp only [Peer.core, Peer.setSecurity, h, Option.map_some, SecurityParameters.core]
  | one =>
      have h : p.security1 = some s := h
      simp only [Peer.core, Peer.setSecurity, h, Option.map_some, SecurityParameters.core]

theorem quiet_setRecordHeader (type : Nat) (security : Option SecRef) :
    Keeps Quiet (dtlsSetRecordHeader type security) := by
  cases security with
  | none => exact keeps_pure _
  | some r =>
      intro w
      unfold dtlsSetRecordHeader getSecurity getPeer
      cases hs : (w.heap r.peer).security r.slot with
      | none =>
          simp only [Program.bind_apply, Program.gets_apply, hs, ofOption, Program.stop_apply]
          exact quiet_refl w
      | some s =>
          simp only [Program.bind_apply, Program.gets_apply, hs, ofOption, Program.pure_apply]
          exact Quiet.peer (core_setSecurity hs)

theorem quiet_prepareRecord (peer : Option Addr) (security : Option SecRef) (type : Nat)
    (dataArray : List Bytes) (rlen : Nat) :
    Keeps Quiet (dtlsPrepareRecord env peer security type dataArray rlen) :=
  Keeps.ite (fun _ => keeps_pure _) fun _ =>
    (quiet_setRecordHeader type security).bind fun _ => keeps_get.bind fun _ => keeps_pure _

theorem quiet_sendMulti (peer : Option Addr) (security : Option SecRef) (session : Session)
    (type : Nat) (bufArray : List Bytes) :
    Keeps Quiet (dtlsSendMulti env peer security session type bufArray) := by
  refine (quiet_prepareRecord env peer security type bufArray dtlsMaxBuf).bind fun record => ?_
  cases record with
  | error res => exact keeps_pure _
  | ok sendbuf =>
      exact (Keeps.when fun _ => quietTacit.queuePacket peer security type bufArray).bind fun _ =>
        (quiet_callWrite env session type _ _).bind fun _ => keeps_pure _

theorem quiet_retransmit (node : Netq) : Keeps Quiet (dtlsRetransmit env node) := by
  unfold dtlsRetransmit
  cases node.peer with
  | none => exact keeps_pure _
  | some a =>
      refine Keeps.ite (fun _ => keeps_pure _) fun _ => ?_
      refine (quietTacit.still.getPeer a).bind fun p =>
        (quietTacit.still.ticks env).bind fun now => ?_
      refine (quietTacit.modifyQueue _).bind fun _ =>
        (quiet_prepareRecord env _ _ _ _ _).bind fun record => ?_
      cases record with
      | error res => exact keeps_pure _
      | ok sendbuf => exact (quiet_callWrite env _ _ _ _).bind fun _ => keeps_pure _

/-- Everything that is sent, and what sends nothing, is quiet. -/
theorem quietFrame : Frame env Quiet where
  toTacit := quietTacit
  sendMulti _ := quiet_sendMulti env _ _
  retransmit := quiet_retransmit env

end PqDtls.Dtls
