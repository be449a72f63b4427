import PqDtls.Dtls.Steps

/-! # The place of a handshake in the sequence of messages

    `mseq_r` is the number of the message a peer waits for, and the reorder queue holds
    what came ahead of its turn.  Most functions leave both alone, or give the peer new
    handshake parameters, with an empty queue.  `Shelved` is this frame; with it come
    that no peer starts to wait for a Finished, and that no message is handed over.

    The frames of `EngineFrames` do not see the queue, so the functions that write to
    the handshake parameters have their lemma here; what only sends or checks is
    `Quiet`, and that is enough. -/

namespace PqDtls.Dtls

open Program (get gets modify stop ofOption when Keeps keeps_pure keeps_get keeps_gets keeps_stop
  keeps_ofOption keeps_modify)
open Ksnmss

/-! ## The frame -/

def HandshakeParameters.place (h : HandshakeParameters) : Nat × List Netq :=
  (h.mseqR, h.reorderQueue)

/-- The number of the message that is waited for, and what is queued. -/
def Peer.place (p : Peer) : Option (Nat × List Netq) :=
  p.handshakeParams.map HandshakeParameters.place

/-- Nothing is queued. -/
def Blank (p : Peer) : Prop := ∀ m q, p.place = some (m, q) → q = []

/-- An event other than that a record or a message is taken up. -/
def Event.mild : Event → Prop
  | .record _ | .message _ | .replay .. => False
  | _ => True

theorem Event.mild_of_outside {e : Event} (h : e.outside) : e.mild := by
  cases e <;> trivial

theorem Event.mild_of_assembly {e : Event} (h : e.assembly) : e.mild := by
  cases e <;> trivial

/-- The places are kept or blank, no peer starts to wait for a Finished, and nothing is taken
    up. -/
structure Shelved (w w' : World) : Prop where
  place : ∀ a, Blank (w'.heap a) ∨ (w'.heap a).place = (w.heap a).place
  waits : ∀ a, (w'.heap a).state = .waitFinished → (w.heap a).state = .waitFinished
  log : ∃ l, w'.log = l ++ w.log ∧ ∀ e ∈ l, e.mild

theorem Blank.of_place {p p' : Peer} (h : Blank p) (hp : p'.place = p.place) : Blank p' := by
  intro m q hq
  rw [hp] at hq
  exact h m q hq

theorem blank_of_none {p : Peer} (h : p.handshakeParams = none) : Blank p := by
  intro m q hq
  rw [Peer.place, h] at hq
  cases hq

theorem blank_of_fresh {p : Peer} (h : FreshHandshake p.handshakeParams) : Blank p := by
  intro m q hq
  rw [Peer.place] at hq
  cases hp : p.handshakeParams with
  | none =>
      rw [hp] at hq
      cases hq
  | some hs =>
      rw [hp] at hq h
      cases hq
      exact h.1

/-- What is blank stays blank. -/
theorem Shelved.blank {w w' : World} (h : Shelved w w') {a : Addr} (hb : Blank (w.heap a)) :
    Blank (w'.heap a) := (h.place a).elim id fun same => hb.of_place same

instance : IsPreorder World Shelved where
  refl _ := ⟨fun _ => .inr rfl, fun _ => id, [], rfl, List.forall_mem_nil _⟩
  trans := by
    rintro w₁ w₂ w₃ h h'
    refine ⟨fun a => ?_, fun a => h.waits a ∘ h'.waits a, ?_⟩
    · rcases h'.place a with blank | same
      · exact .inl blank
      · rcases h.place a with blank | same'
        · exact .inl (blank.of_place same)
        · exact .inr (same.trans same')
    · obtain ⟨l, hl, hm⟩ := h.log
      obtain ⟨l', hl', hm'⟩ := h'.log
      refine ⟨l' ++ l, ?_, List.forall_mem_append.mpr ⟨hm', hm⟩⟩
      rw [hl', hl, List.append_assoc]

theorem shelved_refl (w : World) : Shelved w w := refl_of Shelved w

theorem Quiet.place {w w' : World} (q : Quiet w w') (a : Addr) :
    (w'.heap a).place = (w.heap a).place := by
  have same : (w'.heap a).handshakeParams.map HandshakeParameters.core
      = (w.heap a).handshakeParams.map HandshakeParameters.core :=
    congrArg PeerCore.handshake (q.heap a)
  have view (p : Peer) : p.place
      = (p.handshakeParams.map HandshakeParameters.core).map
          fun c => (c.mseqR, c.reorderQueue) := by
    rw [Option.map_map]
    rfl
  rw [view, view, same]

theorem Quiet.shelved {w w' : World} (q : Quiet w w') : Shelved w w' := by
  obtain ⟨l, hl, ho⟩ := q.log
  refine ⟨fun a => .inr (q.place a), fun a h => ?_, l, hl, fun e he => ?_⟩
  · rw [← q.peerState a]
    exact h
  · exact Event.mild_of_outside (ho e he)

theorem shelved_of_quiet {α : Type} {m : M α} (h : Keeps Quiet m) : Keeps Shelved m :=
  h.mono fun _ _ => Quiet.shelved

/-- A change around the peers. -/
theorem Shelved.around {w w' : World} (heap : w'.heap = w.heap) (log : w'.log = w.log) :
    Shelved w w' := by
  refine ⟨fun a => .inr ?_, fun a h => ?_, [], log, List.forall_mem_nil _⟩
  · rw [heap]
  · rwa [heap] at h

/-- A write to one peer. -/
theorem Shelved.peer {w : World} {a : Addr} {p : Peer}
    (place : Blank p ∨ p.place = (w.heap a).place)
    (waits : p.state = .waitFinished → (w.heap a).state = .waitFinished) :
    Shelved w (w.setPeer a p) := by
  refine ⟨fun b => ?_, fun b hb => ?_, [], rfl, List.forall_mem_nil _⟩
  · by_cases hb : b = a
    · subst hb
      rw [heap_setPeer]
      exact place
    · rw [heap_setPeer_ne p hb]
      exact .inr rfl
  · by_cases hba : b = a
    · subst hba
      rw [heap_setPeer] at hb
      exact waits hb
    · rwa [heap_setPeer_ne p hba] at hb

theorem shelved_emit {e : Event} (h : e.mild) : Keeps Shelved (emit e) := by
  refine keeps_modify fun w => ⟨fun _ => .inr rfl, fun _ => id, [e], rfl, ?_⟩
  intro e' he
  rwa [List.mem_singleton.mp he]

theorem shelved_storage {f : World → World} (heap : ∀ w, (f w).heap = w.heap)
    (log : ∀ w, (f w).log = w.log) : Keeps Shelved (modify f : M Unit) :=
  fun w => Shelved.around (heap w) (log w)

theorem shelved_modifyPeer {a : Addr} {f : Peer → Peer} (place : ∀ p, (f p).place = p.place)
    (state : ∀ p, (f p).state = p.state) : Keeps Shelved (modifyPeer a f) := by
  refine fun w => Shelved.peer (.inr (place _)) fun h => ?_
  rwa [state] at h

/-- Such a write, in front of a program. -/
theorem shelved_modifyPeer_bind {α : Type} {a : Addr} {f : Peer → Peer} {k : Unit → M α}
    (place : ∀ p, (f p).place = p.place) (state : ∀ p, (f p).state = p.state)
    (hk : ∀ u, Keeps Shelved (k u)) : Keeps Shelved (modifyPeer a f >>= k) :=
  (shelved_modifyPeer place state).bind hk

/-- A write through `handshake_params` that leaves the place alone. -/
theorem shelved_handshake {a : Addr} {f : HandshakeParameters → HandshakeParameters}
    (hf : ∀ h, (f h).place = h.place) : Keeps Shelved (modifyHandshake a f) := by
  intro w
  cases hp : (w.heap a).handshakeParams with
  | none =>
      rw [modifyHandshake_none f hp]
      exact shelved_refl w
  | some h =>
      rw [modifyHandshake_some f hp]
      refine Shelved.peer (.inr ?_) id
      simp only [Peer.place, hp, Option.map_some, hf]

theorem shelved_handshake_bind {α : Type} {a : Addr}
    {f : HandshakeParameters → HandshakeParameters} {k : Unit → M α}
    (hf : ∀ h, (f h).place = h.place) (hk : ∀ u, Keeps Shelved (k u)) :
    Keeps Shelved (modifyHandshake a f >>= k) := (shelved_handshake hf).bind hk

/-- A peer enters a state in which it does not wait for a Finished. -/
theorem shelved_setState {a : Addr} {s : DtlsState} (hs : s ≠ .waitFinished) :
    Keeps Shelved (setState a s) := by
  intro w
  have set : Shelved w (w.setPeer a { w.heap a with state := s }) :=
    Shelved.peer (.inr rfl) fun h => absurd h hs
  exact trans_of Shelved set (shelved_emit (e := .state a (w.heap a).state s) trivial _)

theorem place_writeTmp (h : HandshakeParameters) (off : Nat) (b : Bytes) :
    (h.writeTmp off b).place = h.place := by
  simp only [HandshakeParameters.place, HandshakeParameters.writeTmp]

theorem shelved_withHandshake (peer : Option Addr) {k : Addr → HandshakeParameters → M Outcome}
    (hk : ∀ a h, Keeps Shelved (k a h)) : Keeps Shelved (withHandshake peer k) :=
  keeps_withHandshake peer hk

variable {env : Env}

/-! ## Peers and handshakes come and go -/

theorem shelved_handshakeNew (a : Addr) : Keeps Shelved (dtlsHandshakeNew env a) := by
  refine (shelved_of_quiet (quietTacit.still.malloc env)).bind fun found =>
    Keeps.bind (fun w => ?_) fun _ => keeps_pure _
  refine Shelved.peer (.inl (blank_of_fresh ?_)) id
  cases found with
  | false => trivial
  | true => exact ⟨rfl, rfl⟩

theorem shelved_newPeer (session : Session) : Keeps Shelved (dtlsNewPeer env session) := by
  refine (shelved_of_quiet quietTacit.still.nextTick).bind fun t =>
    (shelved_of_quiet (quietTacit.still.malloc env)).bind fun found => ?_
  refine (keeps_gets _).bind fun inUse => Keeps.ite (fun _ => keeps_pure _) fun _ => ?_
  refine Keeps.bind (fun w => ?_) fun _ => Keeps.bind ?_ fun _ => keeps_pure _
  · exact Shelved.peer (.inl (blank_of_none rfl)) fun h => by cases h
  · exact shelved_storage (fun _ => rfl) fun _ => rfl

theorem shelved_modifyPeers (f : List Addr → List Addr) : Keeps Shelved (modifyPeers f) :=
  shelved_storage (fun _ => rfl) fun _ => rfl

theorem shelved_freePeer (a : Addr) : Keeps Shelved (dtlsFreePeer a) :=
  (keeps_gets _).bind fun _ => Keeps.ite (fun _ => keeps_stop _) fun _ =>
    shelved_storage (fun _ => rfl) fun _ => rfl

theorem shelved_close (remote : Session) : Keeps Shelved (dtlsClose env remote) := by
  refine (keeps_gets _).bind fun peer => ?_
  cases peer with
  | none => exact keeps_pure _
  | some a =>
      refine (shelved_of_quiet (((quietFrame env).sender _).sendAlert _ _)).bind fun _ => ?_
      exact (shelved_setState (s := .closing) nofun).bind fun _ => keeps_pure _

theorem shelved_destroyPeer (a : Addr) : Keeps Shelved (dtlsDestroyPeer env a) := by
  refine (keeps_gets _).bind fun p => Keeps.bind ?_ fun _ =>
    (shelved_modifyPeers _).bind fun _ => shelved_freePeer a
  exact Keeps.when fun _ => (shelved_close p.session).bind fun _ => keeps_pure _

/-! ## Keys -/

theorem place_installKeyBlock (C : Primitives) (h : HandshakeParameters) (preMaster : Bytes)
    (p : Peer) : (installKeyBlock C h preMaster p).place = p.place := by
  unfold installKeyBlock Peer.place
  cases p.handshakeParams with
  | none => rfl
  | some h' => simp only [Option.map_some, place_writeTmp]

theorem shelved_securityParamsNext (a : Addr) : Keeps Shelved (dtlsSecurityParamsNext env a) := by
  refine (shelved_of_quiet (quietTacit.still.malloc env)).bind fun found =>
    Keeps.ite (fun _ => ?_) fun _ => ?_
  · exact shelved_modifyPeer_bind (fun _ => rfl) (fun _ => rfl) fun _ => keeps_pure _
  · refine (keeps_gets _).bind fun p => (keeps_ofOption _ _).bind fun s => ?_
    exact shelved_modifyPeer_bind (fun _ => rfl) (fun _ => rfl) fun _ => keeps_pure _

theorem shelved_calculateKeyBlock (a : Addr) (session : Session) :
    Keeps Shelved (calculateKeyBlock env a session) := by
  refine (keeps_gets _).bind fun p => ?_
  cases p.handshakeParams with
  | none => exact keeps_pure _
  | some h =>
      refine (shelved_securityParamsNext a).bind fun found => Keeps.ite (fun _ => keeps_pure _)
        fun _ => ?_
      refine (shelved_of_quiet (quietTacit.still.preMasterSecret h session)).bind fun secret => ?_
      cases secret with
      | error err => exact keeps_pure _
      | ok preMaster =>
          exact shelved_modifyPeer_bind (place_installKeyBlock _ _ _) (fun _ => rfl)
            fun _ => keeps_pure _

theorem shelved_securityParamsSwitch (a : Addr) : Keeps Shelved (dtlsSecurityParamsSwitch a) :=
  shelved_modifyPeer (fun _ => rfl) fun _ => rfl

theorem shelved_decryptVerify (a : Addr) (packet : Ptr) (length : Nat) :
    Keeps Shelved (decryptVerify env a packet length) := by
  refine (keeps_gets _).bind fun p => Keeps.bind ?_ fun _ => keeps_pure _
  exact Keeps.when fun _ =>
    shelved_modifyPeer (freeOther_view fun _ => rfl) (freeOther_view fun _ => rfl)

theorem shelved_signHash (id : Nat) (hash : Digest) : Keeps Shelved (signHash env id hash) := by
  refine (keeps_gets _).bind fun signer => ?_
  -- the outcome is a variable from here on, so that nothing evaluates it
  generalize ksnmssSign env.ksnmss signer id hash = r
  cases r with
  | none => exact keeps_stop _
  | some r =>
      have moved : Keeps Shelved (modify fun w : World => { w with signer := r.2 } : M Unit) :=
        shelved_storage (fun _ => rfl) fun _ => rfl
      exact moved.bind fun _ =>
        (shelved_emit (e := .sign id hash r.1) trivial).bind fun _ => keeps_pure _

theorem shelved_sendClientKeyExchange (a : Addr) :
    Keeps Shelved (dtlsSendClientKeyExchange env a) := by
  refine (shelved_of_quiet (quietTacit.still.fillRandom env 32)).bind fun _ => ?_
  refine (keeps_gets _).bind fun p => ?_
  cases p.handshakeParams with
  | none => exact keeps_pure _
  | some h =>
      refine (shelved_of_quiet (quietTacit.still.clientKeyShare a p h)).bind fun share => ?_
      cases share with
      | error err => exact keeps_pure _
      | ok share =>
          refine (shelved_of_quiet (quietTacit.still.startTesla a)).bind fun _ =>
            (shelved_signHash _ _).bind fun _ => (keeps_gets _).bind fun _ => ?_
          exact (shelved_of_quiet (quietTacit.still.assertThat _)).bind fun _ =>
            shelved_of_quiet (((quietFrame env).sender _).sendHandshakeMsg _ _)

theorem shelved_changeKeys (a : Addr) : Keeps Shelved (changeKeys env a) := by
  have sender := (quietFrame env).sender (some a)
  refine (keeps_gets _).bind fun p => (shelved_calculateKeyBlock a _).bind fun res =>
    Keeps.ite (fun _ => keeps_pure _) fun _ => ?_
  refine (shelved_of_quiet sender.sendCcs).bind fun res => Keeps.ite (fun _ => keeps_pure _)
    fun _ => ?_
  exact (shelved_securityParamsSwitch a).bind fun _ => shelved_of_quiet (sender.sendFinished _)

/-! ## Handlers of messages -/

theorem shelved_handleHelloVerifyRequest (peer : Option Addr) (state : DtlsState) (data : Ptr)
    (dataLength : Nat) :
    Keeps Shelved (handleHelloVerifyRequest env peer state data dataLength) := by
  have sender := (quietFrame env).sender peer
  refine Keeps.ite (fun _ => keeps_pure _) fun _ => ?_
  refine (shelved_of_quiet (sender.checkServerHelloVerifyRequest _ _)).bind fun err => ?_
  refine Keeps.ite (fun _ => keeps_pure _) fun _ =>
    (shelved_of_quiet (quietTacit.still.ticks env)).bind fun _ => ?_
  exact Keeps.bind (shelved_storage (fun _ => rfl) fun _ => rfl) fun _ => keeps_pure _

theorem shelved_serverHelloSuite (a : Addr) (data : Ptr) (dataLength : Nat) :
    Keeps Shelved (serverHelloSuite env a data dataLength) := by
  unfold serverHelloSuite
  cases skipVarField data dataLength with
  | none => exact keeps_pure _
  | some rest =>
      refine shelved_handshake_bind (fun _ => rfl) fun _ => ?_
      refine Keeps.ite (fun _ => keeps_pure _) fun _ =>
        Keeps.ite (fun _ => keeps_pure _) fun _ => ?_
      exact Keeps.bind (shelved_storage (fun _ => rfl) fun _ => rfl) fun _ => keeps_pure _

theorem shelved_checkServerHello (a : Addr) (data : Ptr) (dataLength : Nat) :
    Keeps Shelved (checkServerHello env a data dataLength) := by
  refine (keeps_gets _).bind fun p => Keeps.ite (fun _ => keeps_pure _) fun _ => ?_
  refine Keeps.ite (fun _ => keeps_pure _) fun _ =>
    (shelved_of_quiet (quietTacit.still.updateHsHash a _)).bind fun _ => ?_
  exact Keeps.ite (fun _ => keeps_pure _) fun _ =>
    shelved_handshake_bind (fun _ => place_writeTmp _ _ _) fun _ => shelved_serverHelloSuite a _ _

theorem shelved_handleServerHello (peer : Option Addr) (state : DtlsState) (data : Ptr)
    (dataLength : Nat) : Keeps Shelved (handleServerHello env peer state data dataLength) := by
  refine Keeps.ite (fun _ => keeps_pure _) fun _ => shelved_withHandshake peer fun a _ => ?_
  refine (shelved_checkServerHello a _ _).bind fun err => Keeps.ite (fun _ => keeps_pure _)
    fun _ => ?_
  refine (shelved_of_quiet (quietTacit.still.getHandshake a)).bind fun h =>
    Keeps.bind (shelved_setState ?_) fun _ => keeps_pure _
  split
  · exact nofun
  · exact nofun

theorem shelved_handleCertificate (peer : Option Addr) (role : DtlsPeerType) (state : DtlsState)
    (data : Ptr) (dataLength : Nat) :
    Keeps Shelved (handleCertificate env peer role state data dataLength) := by
  refine Keeps.ite (fun _ => keeps_pure _) fun _ => ?_
  cases peer with
  | none => exact keeps_pure _
  | some a =>
      refine (shelved_of_quiet (quietTacit.still.checkServerCertificate a _ _)).bind fun err => ?_
      refine Keeps.ite (fun _ => keeps_pure _) fun _ =>
        Keeps.bind (shelved_setState ?_) fun _ => keeps_pure _
      split
      · exact nofun
      · exact nofun

theorem shelved_serverKeyExchangeChecked (a : Addr) (err : Int) :
    Keeps Shelved (serverKeyExchangeChecked a err) :=
  Keeps.ite (fun _ => keeps_pure _) fun _ =>
    (shelved_setState (s := .waitServerHelloDone) nofun).bind fun _ => keeps_pure _

theorem shelved_handleServerKeyExchange (peer : Option Addr) (state : DtlsState) (data : Ptr)
    (dataLength : Nat) :
    Keeps Shelved (handleServerKeyExchange env peer state data dataLength) := by
  refine shelved_withHandshake peer fun a h => Keeps.ite (fun _ => ?_) fun _ =>
    Keeps.ite (fun _ => ?_) fun _ => shelved_serverKeyExchangeChecked a 0
  · exact Keeps.ite (fun _ => keeps_pure _) fun _ =>
      (shelved_of_quiet (quietTacit.still.checkServerKeyExchangeEcdsa a _ _)).bind fun _ =>
        shelved_serverKeyExchangeChecked a _
  · exact Keeps.ite (fun _ => keeps_pure _) fun _ =>
      (shelved_of_quiet (quietTacit.still.checkServerKeyExchangePsk a _ _)).bind fun _ =>
        shelved_serverKeyExchangeChecked a _

theorem shelved_handleServerHelloDone (peer : Option Addr) (state : DtlsState) (data : Ptr)
    (dataLength : Nat) :
    Keeps Shelved (handleServerHelloDone env peer state data dataLength) := by
  refine Keeps.ite (fun _ => keeps_pure _) fun _ => ?_
  cases peer with
  | none => exact keeps_pure _
  | some a =>
      have checked : Keeps Shelved (checkServerHellodone env a data dataLength) := by
        refine (keeps_gets _).bind fun p => Keeps.ite (fun _ => keeps_pure _) fun _ => ?_
        refine (shelved_of_quiet (quietTacit.still.updateHsHash a _)).bind fun _ => ?_
        exact (shelved_sendClientKeyExchange a).bind fun _ =>
          Keeps.ite (fun _ => keeps_pure _) fun _ => shelved_changeKeys a
      exact checked.bind fun err => Keeps.ite (fun _ => keeps_pure _) fun _ =>
        (shelved_setState (s := .waitChangeCipherSpec) nofun).bind fun _ => keeps_pure _

theorem shelved_handleCertificateRequest (peer : Option Addr) (state : DtlsState) (data : Ptr)
    (dataLength : Nat) :
    Keeps Shelved (handleCertificateRequest peer state data dataLength) := by
  refine Keeps.ite (fun _ => keeps_pure _) fun _ => ?_
  cases peer with
  | none => exact keeps_pure _
  | some a =>
      exact (shelved_of_quiet (quietTacit.still.checkCertificateRequest a _ _)).bind fun _ =>
        Keeps.ite (fun _ => keeps_pure _) fun _ => keeps_pure _

theorem shelved_answerFinished (a : Addr) (role : DtlsPeerType) (data : Ptr) (dataLength : Nat) :
    Keeps Shelved (answerFinished env a role data dataLength) := by
  have sender := (quietFrame env).sender (some a)
  refine Keeps.ite (fun _ => keeps_pure _) fun _ =>
    (shelved_of_quiet (quietTacit.still.updateHsHash a _)).bind fun _ => ?_
  refine (shelved_of_quiet sender.sendCcs).bind fun err => Keeps.ite (fun _ => keeps_pure _)
    fun _ => ?_
  exact (shelved_securityParamsSwitch a).bind fun _ => shelved_of_quiet (sender.sendFinished _)

theorem shelved_handleFinished (peer : Option Addr) (role : DtlsPeerType) (state : DtlsState)
    (data : Ptr) (dataLength : Nat) :
    Keeps Shelved (handleFinished env peer role state data dataLength) := by
  refine Keeps.ite (fun _ => keeps_pure _) fun _ => shelved_withHandshake peer fun a _ => ?_
  refine (keeps_gets _).bind fun p => Keeps.ite (fun _ => keeps_pure _) fun _ => ?_
  refine (shelved_answerFinished a role data _).bind fun err => Keeps.ite (fun _ => keeps_pure _)
    fun _ => Keeps.bind (fun w => ?_) fun _ => ?_
  · exact Shelved.peer (.inl (blank_of_none rfl)) id
  · exact (shelved_of_quiet (quietTacit.still.ticks env)).bind fun _ =>
      (shelved_setState (s := .connected) nofun).bind fun _ => keeps_pure _

theorem shelved_handleClientKeyExchange (peer : Option Addr) (state : DtlsState) (data : Ptr)
    (dataLength : Nat) :
    Keeps Shelved (handleClientKeyExchange env peer state data dataLength) := by
  refine Keeps.ite (fun _ => keeps_pure _) fun _ => shelved_withHandshake peer fun a h => ?_
  refine (shelved_of_quiet (quietTacit.still.checkClientKeyExchange a h data _)).bind
    fun err => ?_
  have taken (tsync : TeslaSync) (key : Node) (hash : Digest) (verified : Option Nat) :
      Keeps Shelved (takeTeslaSync tsync key hash verified) := by
    refine Keeps.bind ?_ fun _ => shelved_emit (e := .verify hash verified) trivial
    exact shelved_storage (fun _ => rfl) fun _ => rfl
  refine (taken _ _ _ _).bind fun _ => Keeps.ite (fun _ => keeps_pure _) fun _ => ?_
  refine (shelved_of_quiet (quietTacit.still.updateHsHash a _)).bind fun _ =>
    (shelved_of_quiet (quietTacit.still.getHandshake a)).bind fun h =>
      Keeps.bind (shelved_setState ?_) fun _ => keeps_pure _
  rcases keyExchanged_cases h with hs | hs
  · rw [hs]
    exact nofun
  · rw [hs]
    exact nofun

theorem shelved_handleCertificateVerify (peer : Option Addr) (state : DtlsState) (data : Ptr)
    (dataLength : Nat) :
    Keeps Shelved (handleCertificateVerify env peer state data dataLength) := by
  refine Keeps.ite (fun _ => keeps_pure _) fun _ => shelved_withHandshake peer fun a _ => ?_
  refine (shelved_of_quiet (quietTacit.still.checkClientCertificateVerify a data _)).bind
    fun err => Keeps.ite (fun _ => keeps_pure _) fun _ => ?_
  exact (shelved_of_quiet (quietTacit.still.updateHsHash a _)).bind fun _ =>
    (shelved_setState (s := .waitChangeCipherSpec) nofun).bind fun _ => keeps_pure _

/-! ## Hellos -/

theorem shelved_dropPeer (peer : Option Addr) (state : DtlsState) :
    Keeps Shelved (dropPeer peer state) := by
  cases peer with
  | none => exact keeps_pure _
  | some a =>
      refine Keeps.ite (fun _ => ?_) fun _ => keeps_pure _
      exact (shelved_modifyPeers _).bind fun _ => (shelved_freePeer a).bind fun _ => keeps_pure _

theorem shelved_serverPeer (peer : Option Addr) (session : Session) :
    Keeps Shelved (serverPeer env peer session) := by
  cases peer with
  | some a => exact keeps_pure _
  | none =>
      refine (shelved_newPeer session).bind fun new => ?_
      cases new with
      | none => exact keeps_pure _
      | some a =>
          refine shelved_modifyPeer_bind (fun _ => rfl) (fun _ => rfl) fun _ => ?_
          exact (shelved_modifyPeers _).bind fun _ => keeps_pure _

/-- A handshake in which nothing is queued may be numbered anew. -/
theorem shelved_renumber {a : Addr} {f : HandshakeParameters → HandshakeParameters} {w : World}
    (blank : Blank (w.heap a)) (hf : ∀ h, (f h).reorderQueue = h.reorderQueue) :
    Shelved w (modifyHandshake a f w).2 := by
  cases hp : (w.heap a).handshakeParams with
  | none =>
      rw [modifyHandshake_none f hp]
      exact shelved_refl w
  | some h =>
      rw [modifyHandshake_some f hp]
      refine Shelved.peer (.inl ?_) id
      intro m q hq
      cases hq
      rw [hf]
      refine blank h.mseqR h.reorderQueue ?_
      rw [Peer.place, hp]
      rfl

theorem handshakeNew_blank {a : Addr} {found : Bool} {w w' : World}
    (h : dtlsHandshakeNew env a w = (.ok found, w')) : Blank (w'.heap a) := by
  rw [dtlsHandshakeNew, malloc_bind, modifyPeer_bind] at h
  cases h
  rw [heap_setPeer]
  refine blank_of_fresh ?_
  show FreshHandshake (if env.malloc w.tick = true then some emptyHandshake else none)
  split
  · exact ⟨rfl, rfl⟩
  · trivial

theorem shelved_ensureHandshake (a : Addr) (mseqR mseqS : Nat) :
    Keeps Shelved (ensureHandshake env a mseqR mseqS) := by
  refine (keeps_gets _).bind fun p => Keeps.ite (fun _ => keeps_pure _) fun _ w => ?_
  refine Program.bind_keeps_from (shelved_handshakeNew a w) fun found w' hnew => ?_
  refine Program.bind_keeps_from ?_ fun _ w'' _ => shelved_refl w''
  unfold when
  split
  · exact shelved_renumber (handshakeNew_blank hnew) fun _ => rfl
  · exact shelved_refl w'

theorem shelved_updateSuites (a : Addr) (error : Int) (data : Ptr) (dataLength : Nat) :
    Keeps Shelved (updateSuites env a error data dataLength) := by
  refine (keeps_gets _).bind fun p => Keeps.ite (fun _ => ?_) fun _ => ?_
  · cases p.security0 with
    | none => exact keeps_pure _
    | some s =>
        exact Keeps.ite (fun _ => keeps_pure _) fun _ =>
          shelved_handshake_bind (fun _ => rfl) fun _ => keeps_pure _
  · cases suiteLoop env 32768 data.uint16 (data.add 2) with
    | runaway => exact keeps_stop _
    | missing => exact shelved_handshake_bind (fun _ => rfl) fun _ => keeps_pure _
    | found cipher i data =>
        exact shelved_handshake_bind (fun _ => rfl) fun _ =>
          shelved_of_quiet (quietTacit.still.updateCompression a _ _ _)

theorem shelved_updateParameters (a : Addr) (data : Ptr) (dataLength : Nat) :
    Keeps Shelved (dtlsUpdateParameters env a data dataLength) := by
  refine (keeps_gets _).bind fun p => Keeps.ite (fun _ => keeps_pure _) fun _ => ?_
  refine (shelved_of_quiet (quietTacit.still.assertThat _)).bind fun _ =>
    shelved_handshake_bind (fun _ => place_writeTmp _ _ _) fun _ => ?_
  cases skipSessionCookie (data.add (dtlsHsLength + dtlsChLength))
      (dataLength - (dtlsHsLength + dtlsChLength)) with
  | none => exact keeps_pure _
  | some rest => exact shelved_updateSuites a _ _ _

theorem shelved_acceptClientHello (a : Addr) (data : Ptr) (dataLength : Nat) :
    Keeps Shelved (acceptClientHello env a data dataLength) := by
  have still := quietTacit.still
  have sender := (quietFrame env).sender (some a)
  refine (shelved_ensureHandshake a _ _).bind fun found => Keeps.ite (fun _ => keeps_pure _)
    fun _ => (shelved_of_quiet (still.clearHsHash a)).bind fun _ => ?_
  refine (shelved_updateParameters a _ _).bind fun err => Keeps.ite (fun _ => keeps_pure _)
    fun _ => (shelved_of_quiet (still.updateHsHash a _)).bind fun _ => ?_
  refine (shelved_of_quiet (still.timeofday env)).bind fun now =>
    Keeps.bind (shelved_storage (fun _ => rfl) fun _ => rfl) fun _ => ?_
  refine (shelved_of_quiet sender.sendServerHelloMsgs).bind fun err =>
    Keeps.ite (fun _ => keeps_pure _) fun _ => ?_
  refine (shelved_of_quiet (still.getHandshake a)).bind fun h =>
    Keeps.bind (shelved_setState ?_) fun _ => keeps_pure _
  unfold flightSent
  split
  · exact nofun
  · exact nofun

theorem shelved_handleClientHello (peer : Option Addr) (session : Session) (state : DtlsState)
    (data : Ptr) (dataLength : Nat) :
    Keeps Shelved (handleClientHello env peer session state data dataLength) := by
  refine Keeps.ite (fun _ => keeps_pure _) fun _ => ?_
  refine (shelved_of_quiet ((quietFrame env).verifyPeer peer session state _ _)).bind fun err => ?_
  refine Keeps.ite (fun _ => keeps_pure _) fun _ => Keeps.ite (fun _ => keeps_pure _) fun _ => ?_
  refine (shelved_dropPeer peer state).bind fun kept =>
    (shelved_serverPeer kept session).bind fun new => ?_
  cases new with
  | none => exact keeps_pure _
  | some a => exact shelved_acceptClientHello a data _

theorem shelved_handleHelloRequest (peer : Option Addr) (state : DtlsState) :
    Keeps Shelved (handleHelloRequest env peer state) := by
  refine Keeps.ite (fun _ => keeps_pure _) fun _ => ?_
  cases peer with
  | none => exact keeps_pure _
  | some a =>
      refine (shelved_ensureHandshake a 0 0).bind fun found => Keeps.ite (fun _ => keeps_pure _)
        fun _ => ?_
      refine (shelved_of_quiet (((quietFrame env).sender (some a)).sendClientHello [])).bind
        fun err => Keeps.ite (fun _ => keeps_pure _) fun _ => ?_
      exact (shelved_setState (s := .clientHello) nofun).bind fun _ => keeps_pure _

/-- **THE HANDLERS** keep the places or make blank ones. -/
theorem shelved_dispatchMessage (peer : Option Addr) (session : Session) (role : DtlsPeerType)
    (state : DtlsState) (data : Ptr) (dataLength : Nat) :
    Keeps Shelved (dispatchMessage env peer session role state data dataLength) := by
  refine Keeps.ite (fun _ => shelved_handleHelloVerifyRequest _ _ _ _) fun _ => ?_
  refine Keeps.ite (fun _ => shelved_handleServerHello _ _ _ _) fun _ => ?_
  refine Keeps.ite (fun _ => shelved_handleCertificate _ _ _ _ _) fun _ => ?_
  refine Keeps.ite (fun _ => shelved_handleServerKeyExchange _ _ _ _) fun _ => ?_
  refine Keeps.ite (fun _ => shelved_handleServerHelloDone _ _ _ _) fun _ => ?_
  refine Keeps.ite (fun _ => shelved_handleCertificateRequest _ _ _ _) fun _ => ?_
  refine Keeps.ite (fun _ => shelved_handleFinished _ _ _ _ _) fun _ => ?_
  refine Keeps.ite (fun _ => shelved_handleClientKeyExchange _ _ _ _) fun _ => ?_
  refine Keeps.ite (fun _ => shelved_handleCertificateVerify _ _ _ _) fun _ => ?_
  refine Keeps.ite (fun _ => shelved_handleClientHello _ _ _ _ _) fun _ => ?_
  exact Keeps.ite (fun _ => shelved_handleHelloRequest _ _) fun _ => keeps_pure _

/-! ## Calls of the application -/

theorem shelved_renegotiate (dst : Session) : Keeps Shelved (dtlsRenegotiate env dst) := by
  refine (keeps_gets _).bind fun peer => ?_
  cases peer with
  | none => exact keeps_pure _
  | some a =>
      have sender := (quietFrame env).sender (some a)
      refine (keeps_gets _).bind fun p => Keeps.ite (fun _ => keeps_pure _) fun _ => ?_
      refine (shelved_handshakeNew a).bind fun found => Keeps.ite (fun _ => keeps_pure _)
        fun _ => Keeps.ite (fun _ => ?_) fun _ => shelved_of_quiet sender.sendHelloRequest
      exact (shelved_of_quiet (sender.sendClientHello [])).bind fun err =>
        (Keeps.when fun _ => shelved_setState (s := .clientHello) nofun).bind fun _ => keeps_pure _

theorem shelved_connectPeer (a : Addr) : Keeps Shelved (dtlsConnectPeer env a) := by
  have sender := (quietFrame env).sender (some a)
  have still := quietTacit.still
  refine (keeps_gets _).bind fun p => (keeps_gets _).bind fun found =>
    Keeps.ite (fun _ => shelved_renegotiate _) fun _ => ?_
  refine shelved_modifyPeer_bind (fun _ => rfl) (fun _ => rfl) fun _ =>
    (shelved_modifyPeers _).bind fun _ => ?_
  refine Keeps.bind (shelved_storage (fun _ => rfl) fun _ => rfl) fun _ =>
    (shelved_emit (e := .keyGeneration) trivial).bind fun _ => ?_
  refine (shelved_handshakeNew a).bind fun found => Keeps.ite (fun _ => keeps_pure _) fun _ => ?_
  refine (shelved_of_quiet (still.ticks env)).bind fun startRtt =>
    Keeps.bind (shelved_storage (fun _ => rfl) fun _ => rfl) fun _ => ?_
  refine (shelved_of_quiet (still.ticks env)).bind fun _ =>
    (shelved_of_quiet (sender.sendClientHello [])).bind fun res => ?_
  exact (Keeps.when fun _ => shelved_setState (s := .clientHello) nofun).bind fun _ => keeps_pure _

theorem shelved_connect (dst : Session) : Keeps Shelved (dtlsConnect env dst) := by
  have target : Keeps Shelved (connectTarget env dst) := by
    refine (keeps_gets _).bind fun peer => ?_
    cases peer with
    | none => exact shelved_newPeer dst
    | some a => exact keeps_pure _
  refine target.bind fun peer => ?_
  cases peer with
  | none => exact keeps_pure _
  | some a =>
      refine (shelved_connectPeer a).bind fun res => (keeps_gets _).bind fun p => ?_
      exact (Keeps.when fun _ => shelved_of_quiet (quietTacit.still.callEvent _ _ _)).bind fun _ =>
        (Keeps.when fun _ => shelved_of_quiet (quietTacit.still.callEvent _ _ _)).bind
          fun _ => keeps_pure _

theorem shelved_write (dst : Session) (buf : Ptr) (len : Nat) :
    Keeps Shelved (dtlsWrite env dst buf len) := by
  refine (keeps_gets _).bind fun peer => ?_
  cases peer with
  | none => exact (shelved_connect dst).bind fun _ => keeps_pure _
  | some a =>
      refine (keeps_gets _).bind fun p => Keeps.ite (fun _ => keeps_pure _) fun _ => ?_
      refine (keeps_gets _).bind fun peers => (keeps_ofOption _ _).bind fun head =>
        (keeps_gets _).bind fun p => Keeps.ite (fun _ => keeps_stop _) fun _ => ?_
      refine (shelved_of_quiet (quietTacit.still.teslaPayload head buf len)).bind fun payload => ?_
      exact shelved_modifyPeer_bind (fun _ => rfl) (fun _ => rfl) fun _ =>
        shelved_of_quiet (((quietFrame env).sender _).send _ _)

theorem shelved_runAppCall (call : AppCall) : Keeps Shelved (runAppCall env call) := by
  cases call with
  | write session buf len => exact (shelved_write session buf len).bind fun _ => keeps_pure _
  | connect session => exact (shelved_connect session).bind fun _ => keeps_pure _
  | renegotiate session => exact (shelved_renegotiate session).bind fun _ => keeps_pure _
  | close session => exact (shelved_close session).bind fun _ => keeps_pure _

theorem shelved_runAppCalls (calls : List AppCall) : Keeps Shelved (runAppCalls env calls) := by
  induction calls with
  | nil => exact keeps_pure _
  | cons call calls ih => exact (shelved_runAppCall call).bind fun _ => ih

/-! ## Records that hold no message -/

theorem shelved_handleAlert (peer : Option Addr) (data : Ptr) (dataLength : Nat) :
    Keeps Shelved (handleAlert env peer data dataLength) := by
  refine Keeps.ite (fun _ => keeps_pure _) fun _ => ?_
  cases peer with
  | none => exact keeps_pure _
  | some a =>
      have answer : Keeps Shelved (answerClose env a) := by
        refine (keeps_gets _).bind fun p => Keeps.ite (fun _ => ?_) fun _ => shelved_setState nofun
        exact (shelved_setState (s := .closing) nofun).bind fun _ =>
          (shelved_of_quiet (((quietFrame env).sender _).sendAlert _ _)).bind fun _ => keeps_pure _
      refine (Keeps.when fun _ => shelved_modifyPeers _).bind fun _ => (keeps_gets _).bind
        fun p => ?_
      refine (shelved_of_quiet (quietTacit.still.callEvent _ _ _)).bind fun _ =>
        (Keeps.when fun _ => answer).bind fun _ => Keeps.ite (fun _ => ?_) fun _ => keeps_pure _
      exact (shelved_of_quiet (quietTacit.stopRetransmission a)).bind fun _ =>
        (shelved_destroyPeer a).bind fun _ => keeps_pure _

theorem shelved_alertSendFromErr (peer : Option Addr) (session : Session) (err : Int) :
    Keeps Shelved (dtlsAlertSendFromErr env peer session err) := by
  unfold dtlsAlertSendFromErr
  cases alertFromErr err with
  | none => exact keeps_pure _
  | some alert =>
      refine (keeps_gets _).bind fun found => ?_
      cases peer <|> found with
      | none => exact keeps_pure _
      | some a =>
          exact (shelved_setState (s := .closing) nofun).bind fun _ =>
            shelved_of_quiet (((quietFrame env).sender _).sendAlert _ _)

theorem shelved_rejectRecord (a : Addr) (p : Peer) : Keeps Shelved (rejectRecord env a p) := by
  refine Keeps.ite (fun _ => ?_) fun _ => keeps_pure _
  refine (shelved_alertSendFromErr _ _ _).bind fun _ =>
    (shelved_setState (s := .closed) nofun).bind fun _ => ?_
  exact (shelved_of_quiet (quietTacit.stopRetransmission a)).bind fun _ =>
    (shelved_destroyPeer a).bind fun _ => keeps_pure _

theorem shelved_openPeerRecord (peer : Option Addr) (msg : Ptr) (rlen : Nat) :
    Keeps Shelved (openPeerRecord env peer msg rlen) := by
  cases peer with
  | none => exact keeps_pure _
  | some a =>
      refine (shelved_decryptVerify a msg rlen).bind fun opened => (keeps_gets _).bind fun p => ?_
      refine Keeps.ite (fun _ => Keeps.ite (fun _ => keeps_pure _) fun _ => ?_)
        fun _ => keeps_pure _
      exact (shelved_rejectRecord a p).bind fun _ => keeps_pure _

theorem shelved_receiveTesla (data : Ptr) (len : Int) :
    Keeps Shelved (receiveTesla env data len) := by
  refine (keeps_gets _).bind fun peers => (keeps_ofOption _ _).bind fun head =>
    (keeps_gets _).bind fun p => ?_
  refine (shelved_of_quiet (quietTacit.still.checkInterval _)).bind fun _ =>
    Keeps.ite (fun _ => keeps_stop _) fun _ => ?_
  exact (shelved_emit (e := .tesla _) trivial).bind fun _ =>
    shelved_modifyPeer (fun _ => rfl) fun _ => rfl

theorem shelved_handleApplicationData (a : Addr) (data : Ptr) (dataLength : Nat) :
    Keeps Shelved (handleApplicationData env a data dataLength) := by
  refine (shelved_of_quiet (quietTacit.stopRetransmission a)).bind fun _ =>
    (shelved_receiveTesla data _).bind fun _ => (keeps_gets _).bind fun p => ?_
  exact (shelved_of_quiet quietTacit.still.nextTick).bind fun t =>
    (shelved_emit (e := .read _ _ _) trivial).bind fun _ => shelved_runAppCalls _

end PqDtls.Dtls
