import PqDtls.Dtls.RetransmitQueue
import PqDtls.Dtls.Slots

/-! # The moves of the queue and of the list of peers

    The engine seen from the queue of packets to retransmit, the list of peers and their
    storage.  `QueueMove` lists what a step of a run can do to them; its label `QueueOp` names
    the source's function.  A move that is not named leaves all of them alone.

    Most functions are idle.  Those that answer a message may queue packets of its peer, and
    `Inside` says that they do nothing else: peers come and go only where a ClientHello is
    accepted, a record or an alert ends a session, or the application asks for it. -/

namespace PqDtls.Dtls

open Program (get gets modify stop ofOption when Keeps keeps_pure keeps_get keeps_gets keeps_stop
  keeps_ofOption keeps_modify)
open History (Reaches Path)
open Ksnmss

variable {env : Env} {α : Type}

/-! ## Moves -/

/-- An event that does not begin or end the handling of a message. -/
def Event.aside : Event → Prop
  | .message _ | .handled _ => False
  | _ => True

/-- The queue, the list of peers, their storage and their sessions are left alone. -/
structure Idle (w w' : World) : Prop where
  queue : w'.sendqueue = w.sendqueue
  peers : w'.peers = w.peers
  live : w'.live = w.live
  session : ∀ a, (w'.heap a).session = (w.heap a).session
  log : ∃ l, w'.log = l ++ w.log ∧ ∀ e ∈ l, e.aside

instance : IsPreorder World Idle where
  refl _ := ⟨rfl, rfl, rfl, fun _ => rfl, [], rfl, List.forall_mem_nil _⟩
  trans := by
    rintro w₁ w₂ w₃ ⟨queue, peers, live, session, l, log, aside⟩
      ⟨queue', peers', live', session', l', log', aside'⟩
    refine ⟨queue'.trans queue, peers'.trans peers, live'.trans live,
      fun a => (session' a).trans (session a), l' ++ l, ?_, ?_⟩
    · rw [log', log, List.append_assoc]
    · exact List.forall_mem_append.mpr ⟨aside', aside⟩

/-- What a step does: nothing of interest; a message is taken up, or has been handled; a packet
    is queued by `dtls_send_multi`, or those of a session are dropped by
    `dtls_stop_retransmission`; the first packet is popped and given to `dtls_retransmit`; a
    peer is made, enters the list, leaves it, or is released. -/
inductive QueueOp
  | idle
  | message (peer : Option Addr)
  | handled (peer : Option Addr) (res : Int)
  | send (peer : Option Addr)
  | stop (a : Addr)
  | pop
  | newPeer (a : Addr)
  | link (a : Addr)
  | unlink (a : Addr)
  | free (a : Addr)

/-- What `dtls_send_multi` queues. -/
structure Netq.Sent (node : Netq) : Prop where
  counter : node.retransmitCnt = 0
  timeout : node.timeout = 2 * dtlsTicksPerSecond

/-- Is the packet one of another session than that of `a`? -/
def World.otherSession (w : World) (a : Addr) (node : Netq) : Bool :=
  !dtlsSessionEquals (w.heap (node.peer.getD 0)).session (w.heap a).session

/-- What the steps do to the world, and what is known when they are taken. -/
inductive QueueMove : World → QueueOp → World → Prop
  | idle {w w' : World} : Idle w w' → QueueMove w .idle w'
  | message (w : World) (c : HandshakeCall) :
      QueueMove w (.message c.peer) (w.emitted (.message c))
  | handled (w : World) (c : HandshakeCall) (res : Int) : currentMessage w.log = some c →
      QueueMove w (.handled c.peer res) (w.emitted (.handled res))
  | send (w : World) (node : Netq) : node.Sent →
      QueueMove w (.send node.peer) { w with sendqueue := netqInsertNode w.sendqueue node }
  | stop (w : World) (a : Addr) :
      QueueMove w (.stop a) { w with sendqueue := w.sendqueue.filter (w.otherSession a) }
  | pop {w w' : World} (node : Netq) (rest : List Netq) (now : Nat) :
      w.sendqueue = node :: rest →
      Idle { w with sendqueue := (node.retry now).elim rest (netqInsertNode rest) } w' →
      QueueMove w .pop w'
  | newPeer (w : World) (a : Addr) (session : Session) : w.live a = false →
      QueueMove w (.newPeer a)
        { w.setPeer a (emptyPeer session) with live := Function.update w.live a true }
  | link (w : World) (a : Addr) : QueueMove w (.link a) { w with peers := a :: w.peers }
  | unlink (w : World) (a : Addr) : QueueMove w (.unlink a) { w with peers := w.peers.erase a }
  | free (w : World) (a : Addr) :
      QueueMove w (.free a) { w with live := Function.update w.live a false }

/-- The moves of an answer to a message of `peer`. -/
def QueueOp.inside (peer : Option Addr) : QueueOp → Prop
  | .idle => True
  | .send p => p = peer
  | _ => False

/-- A run of these moves. -/
def Inside (peer : Option Addr) : World → World → Prop := Reaches QueueMove (QueueOp.inside peer)

instance (peer : Option Addr) : IsPreorder World (Inside peer) :=
  inferInstanceAs (IsPreorder World (Reaches QueueMove (QueueOp.inside peer)))

variable {peer : Option Addr}

theorem Idle.inside {w w' : World} (h : Idle w w') : Inside peer w w' :=
  Reaches.single (QueueMove.idle h) trivial

theorem inside_of_idle {m : M α} (h : Keeps Idle m) : Keeps (Inside peer) m :=
  h.mono fun _ _ => Idle.inside

/-! ## Idle functions -/

/-- A change of the world around the queue and the peers. -/
theorem Idle.around {w w' : World} (queue : w'.sendqueue = w.sendqueue) (peers : w'.peers = w.peers)
    (live : w'.live = w.live) (heap : w'.heap = w.heap) (log : w'.log = w.log) : Idle w w' :=
  ⟨queue, peers, live, fun a => by rw [heap], [], log, List.forall_mem_nil _⟩

theorem Idle.setPeer {w : World} {a : Addr} {p : Peer} (h : p.session = (w.heap a).session) :
    Idle w (w.setPeer a p) := by
  refine ⟨rfl, rfl, rfl, fun b => ?_, [], rfl, List.forall_mem_nil _⟩
  by_cases hb : b = a
  · subst hb
    rw [heap_setPeer, h]
  · rw [heap_setPeer_ne p hb]

theorem Idle.emitted (w : World) {e : Event} (h : e.aside) : Idle w (w.emitted e) := by
  refine ⟨rfl, rfl, rfl, fun _ => rfl, [e], rfl, fun e' he => ?_⟩
  rwa [List.mem_singleton.mp he]

theorem idle_emit {e : Event} (h : e.aside) : Keeps Idle (emit e) := fun w => Idle.emitted w h

theorem idle_modifyPeer {a : Addr} {f : Peer → Peer} (h : ∀ p, (f p).session = p.session) :
    Keeps Idle (modifyPeer a f) := fun w => Idle.setPeer (h (w.heap a))

/-- Such a write, in front of a program. -/
theorem idle_modifyPeer_bind {a : Addr} {f : Peer → Peer} {k : Unit → M α}
    (h : ∀ p, (f p).session = p.session) (hk : ∀ u, Keeps Idle (k u)) :
    Keeps Idle (modifyPeer a f >>= k) := (idle_modifyPeer h).bind hk

theorem idleStill : Still Idle where
  world heap peers live _ log queue := Idle.around queue peers live heap log
  peer h := Idle.setPeer (congrArg (fun f => f.1.session) h)
  told {w e} h := Idle.emitted w (by cases e <;> trivial)

/-- Any write through `handshake_params`. -/
theorem idle_modifyHandshake (a : Addr) (f : HandshakeParameters → HandshakeParameters) :
    Keeps Idle (modifyHandshake a f) := by
  intro w
  cases hp : (w.heap a).handshakeParams with
  | none =>
      rw [modifyHandshake_none f hp]
      exact refl_of _ _
  | some h =>
      rw [modifyHandshake_some f hp]
      exact Idle.setPeer rfl

theorem idle_setState (a : Addr) (s : DtlsState) : Keeps Idle (setState a s) :=
  (keeps_gets _).bind fun p => by
    have told : Keeps Idle (emit (.state a p.state s)) := idle_emit trivial
    exact told.bind fun _ => idle_modifyPeer fun _ => rfl

theorem idle_sign (hash : Digest) : Keeps Idle (signHash env 0 hash) := by
  refine (keeps_gets _).bind fun signer => ?_
  -- the outcome is a variable from here on, so that nothing evaluates it
  generalize ksnmssSign env.ksnmss signer 0 hash = r
  cases r with
  | none => exact keeps_stop _
  | some r => exact fun w => ⟨rfl, rfl, rfl, fun _ => rfl, [.sign 0 hash r.1], rfl,
      fun e he => by rw [List.mem_singleton.mp he]; trivial⟩

theorem idleHandler : Handler env Idle where
  toStill := idleStill
  params _ := Idle.setPeer rfl
  state a s _ := idle_setState a s
  sign := idle_sign

/-! ## Records -/

theorem idle_callWrite (session : Session) (type : Nat) (payload b : Bytes) :
    Keeps Idle (callWrite env session type payload b) := by
  have sent : Keeps Idle (emit (.sent session type payload)) := idle_emit trivial
  have write : Keeps Idle (emit (.write session b)) := idle_emit trivial
  exact idleStill.nextTick.bind fun _ => sent.bind fun _ => write.bind fun _ => keeps_pure _

theorem session_setSecurity (p : Peer) (s : SecurityParameters) (slot : Slot) :
    (p.setSecurity s slot).session = p.session := by
  cases slot <;> rfl

theorem idle_setRecordHeader (type : Nat) (security : Option SecRef) :
    Keeps Idle (dtlsSetRecordHeader type security) := by
  cases security with
  | none => exact keeps_pure _
  | some r =>
      refine Keeps.bind ?_ fun s => ?_
      · exact (keeps_gets _).bind fun _ => keeps_ofOption _ _
      · exact (idle_modifyPeer fun p => session_setSecurity p _ _).bind fun _ => keeps_pure _

theorem idle_prepareRecord (peer : Option Addr) (security : Option SecRef) (type : Nat)
    (dataArray : List Bytes) (rlen : Nat) :
    Keeps Idle (dtlsPrepareRecord env peer security type dataArray rlen) :=
  Keeps.ite (fun _ => keeps_pure _) fun _ =>
    (idle_setRecordHeader type security).bind fun _ => keeps_get.bind fun _ => keeps_pure _

/-- A record of a type that is not queued. -/
theorem idle_sendMulti (peer : Option Addr) (security : Option SecRef) (session : Session)
    {type : Nat} {bufArray : List Bytes} (h : mustQueue type bufArray ≠ true) :
    Keeps Idle (dtlsSendMulti env peer security session type bufArray) := by
  refine (idle_prepareRecord peer security type bufArray dtlsMaxBuf).bind fun record => ?_
  cases record with
  | error res => exact keeps_pure _
  | ok sendbuf =>
      refine Keeps.bind ?_ fun _ => (idle_callWrite session type _ _).bind fun _ => keeps_pure _
      exact Keeps.when fun queued => absurd queued h

theorem idle_send (a : Addr) {type : Nat} (buf : Bytes) (handshake : type ≠ dtlsCtHandshake)
    (ccs : type ≠ dtlsCtChangeCipherSpec) : Keeps Idle (dtlsSend env a type buf) := by
  have kept : mustQueue type [buf] ≠ true := by
    rw [mustQueue, Ne, decide_eq_true_iff]
    rintro (⟨same, -⟩ | same)
    · exact handshake same
    · exact ccs same
  exact (keeps_gets _).bind fun _ => (keeps_gets _).bind fun _ => idle_sendMulti _ _ _ kept

theorem idle_sendAlert (a : Addr) (level description : Nat) :
    Keeps Idle (dtlsSendAlert env a level description) :=
  (idle_send a _ (by decide) (by decide)).bind fun _ => keeps_pure _

theorem idle_decryptVerify (a : Addr) (packet : Ptr) (length : Nat) :
    Keeps Idle (decryptVerify env a packet length) :=
  (keeps_gets _).bind fun _ =>
    (Keeps.when fun _ => idle_modifyPeer (freeOther_view fun _ => rfl)).bind fun _ => keeps_pure _

/-- A packet for the queue. -/
theorem inside_queuePacket (peer : Option Addr) (security : Option SecRef) (type : Nat)
    (bufArray : List Bytes) : Keeps (Inside peer) (queuePacket env peer security type bufArray) := by
  refine (inside_of_idle (idleStill.malloc env)).bind fun found =>
    Keeps.ite (fun _ => keeps_pure _) fun _ => ?_
  refine (inside_of_idle (idleStill.ticks env)).bind fun now w => ?_
  exact Reaches.single (QueueMove.send w _ ⟨rfl, rfl⟩) rfl

theorem inside_sendMulti (peer : Option Addr) (security : Option SecRef) (session : Session)
    (type : Nat) (bufArray : List Bytes) :
    Keeps (Inside peer) (dtlsSendMulti env peer security session type bufArray) := by
  refine (inside_of_idle (idle_prepareRecord _ security type bufArray dtlsMaxBuf)).bind
    fun record => ?_
  cases record with
  | error res => exact keeps_pure _
  | ok sendbuf =>
      refine (Keeps.when fun _ => inside_queuePacket peer security type bufArray).bind fun _ => ?_
      exact (inside_of_idle (idle_callWrite session type _ _)).bind fun _ => keeps_pure _

/-- **ANSWERS**: the handlers that `Answer` speaks of queue packets of their peer. -/
theorem insideAnswer (peer : Option Addr) : Answer env peer (Inside peer) where
  world heap peers live signer log queue := (idleStill.world heap peers live signer log queue).inside
  peer h := (idleStill.peer h).inside
  told h := (idleStill.told h).inside
  params h := ((@idleHandler env).params h).inside
  state a s _ := inside_of_idle (idle_setState a s)
  sign hash := inside_of_idle (idle_sign hash)
  sendMulti _ := inside_sendMulti peer _

/-! ## Keys -/

theorem idle_securityParamsNext (a : Addr) : Keeps Idle (dtlsSecurityParamsNext env a) := by
  refine (idleStill.malloc env).bind fun found => Keeps.ite (fun _ => ?_) fun _ => ?_
  · exact idle_modifyPeer_bind (fun _ => rfl) fun _ => keeps_pure _
  · refine (keeps_gets _).bind fun p => (keeps_ofOption _ _).bind fun s => ?_
    exact idle_modifyPeer_bind (fun _ => rfl) fun _ => keeps_pure _

theorem idle_calculateKeyBlock (a : Addr) (session : Session) :
    Keeps Idle (calculateKeyBlock env a session) := by
  refine (keeps_gets _).bind fun p => ?_
  cases p.handshakeParams with
  | none => exact keeps_pure _
  | some h =>
      refine (idle_securityParamsNext a).bind fun found => Keeps.ite (fun _ => keeps_pure _)
        fun _ => ?_
      refine (idleStill.preMasterSecret h session).bind fun secret => ?_
      cases secret with
      | error err => exact keeps_pure _
      | ok preMaster => exact idle_modifyPeer_bind (fun _ => rfl) fun _ => keeps_pure _

theorem idle_handleCcs (peer : Option Addr) (data : Ptr) (dataLength : Nat) :
    Keeps Idle (handleCcs env peer data dataLength) := by
  cases peer with
  | none => exact keeps_pure _
  | some a =>
      refine (keeps_gets _).bind fun p => Keeps.ite (fun _ => keeps_pure _) fun _ => ?_
      refine Keeps.ite (fun _ => keeps_pure _) fun _ => Keeps.bind ?_ fun err => ?_
      · exact Keeps.ite (fun _ => keeps_pure _) fun _ => idle_calculateKeyBlock a _
      · exact Keeps.ite (fun _ => keeps_pure _) fun _ =>
          (idle_setState a _).bind fun _ => keeps_pure _

/-- New keys for what is sent next: the ChangeCipherSpec, the switch and the Finished. -/
theorem inside_sendFinished (a : Addr) (label : Bytes) : Keeps (Inside (some a)) (do
    let err ← dtlsSendCcs env a
    if err < 0 then pure err
    else do
    dtlsSecurityParamsSwitch a
    dtlsSendFinished env a label) := by
  have answer : Answer env (some a) (Inside (some a)) := insideAnswer (some a)
  refine answer.sendCcs.bind fun err => Keeps.ite (fun _ => keeps_pure _) fun _ => ?_
  have switched : Keeps Idle (dtlsSecurityParamsSwitch a) := idle_modifyPeer fun _ => rfl
  exact (inside_of_idle switched).bind fun _ => answer.sendFinished label

theorem inside_changeKeys (a : Addr) : Keeps (Inside (some a)) (changeKeys env a) := by
  refine (keeps_gets _).bind fun p => (inside_of_idle (idle_calculateKeyBlock a _)).bind
    fun res => ?_
  exact Keeps.ite (fun _ => keeps_pure _) fun _ => inside_sendFinished a _

/-! ## Handlers of messages -/

theorem inside_handleServerHelloDone (peer : Option Addr) (state : DtlsState) (data : Ptr)
    (dataLength : Nat) :
    Keeps (Inside peer) (handleServerHelloDone env peer state data dataLength) := by
  refine Keeps.ite (fun _ => keeps_pure _) fun _ => ?_
  cases peer with
  | none => exact keeps_pure _
  | some a =>
      have answer : Answer env (some a) (Inside (some a)) := insideAnswer (some a)
      have checked : Keeps (Inside (some a)) (checkServerHellodone env a data dataLength) := by
        refine (keeps_gets _).bind fun p => Keeps.ite (fun _ => keeps_pure _) fun _ => ?_
        refine (answer.updateHsHash a _).bind fun _ => answer.sendClientKeyExchange.bind
          fun res => ?_
        exact Keeps.ite (fun _ => keeps_pure _) fun _ => inside_changeKeys a
      refine checked.bind fun err => Keeps.ite (fun _ => keeps_pure _) fun _ => ?_
      exact (inside_of_idle (idle_setState a _)).bind fun _ => keeps_pure _

theorem inside_handleFinished (peer : Option Addr) (role : DtlsPeerType) (state : DtlsState)
    (data : Ptr) (dataLength : Nat) :
    Keeps (Inside peer) (handleFinished env peer role state data dataLength) := by
  refine Keeps.ite (fun _ => keeps_pure _) fun _ => ?_
  cases peer with
  | none => exact keeps_pure _
  | some a =>
      refine (keeps_gets _).bind fun p => ?_
      cases p.handshakeParams with
      | none => exact keeps_pure _
      | some h =>
          refine (keeps_gets _).bind fun p => Keeps.ite (fun _ => keeps_pure _) fun _ => ?_
          refine Keeps.bind ?_ fun err => Keeps.ite (fun _ => keeps_pure _) fun _ => ?_
          · refine Keeps.ite (fun _ => keeps_pure _) fun _ => ?_
            exact (inside_of_idle (idleStill.updateHsHash a _)).bind
              fun _ => inside_sendFinished a _
          · refine inside_of_idle ?_
            exact idle_modifyPeer_bind (fun _ => rfl) fun _ => (idleStill.ticks env).bind fun _ =>
              (idle_setState a _).bind fun _ => keeps_pure _

theorem idle_handleClientKeyExchange (peer : Option Addr) (state : DtlsState) (data : Ptr)
    (dataLength : Nat) : Keeps Idle (handleClientKeyExchange env peer state data dataLength) := by
  have taken (tsync : TeslaSync) (MSSPK : Node) (hash : Digest) (verified : Option Nat) :
      Keeps Idle (takeTeslaSync tsync MSSPK hash verified) := by
    have told : Keeps Idle (emit (.verify hash verified)) := idle_emit trivial
    exact Keeps.bind (keeps_modify fun _ => Idle.around rfl rfl rfl rfl rfl) fun _ => told
  refine Keeps.ite (fun _ => keeps_pure _) fun _ => keeps_withHandshake peer fun a h => ?_
  refine (idleStill.checkClientKeyExchange a h _ _).bind fun err => ?_
  refine (taken _ _ _ _).bind fun _ => Keeps.ite (fun _ => keeps_pure _) fun _ => ?_
  refine (idleStill.updateHsHash a _).bind fun _ => (idleStill.getHandshake a).bind fun h => ?_
  exact (idle_setState a _).bind fun _ => keeps_pure _

theorem idle_handleCertificateVerify (peer : Option Addr) (state : DtlsState) (data : Ptr)
    (dataLength : Nat) : Keeps Idle (handleCertificateVerify env peer state data dataLength) := by
  refine Keeps.ite (fun _ => keeps_pure _) fun _ => keeps_withHandshake peer fun a _ => ?_
  refine (idleStill.checkClientCertificateVerify a _ _).bind fun err => ?_
  refine Keeps.ite (fun _ => keeps_pure _) fun _ => (idleStill.updateHsHash a _).bind fun _ => ?_
  exact (idle_setState a _).bind fun _ => keeps_pure _

/-- **MESSAGES** of all types but a ClientHello are answered by packets of their peer. -/
theorem inside_dispatchMessage (peer : Option Addr) (session : Session) (role : DtlsPeerType)
    (state : DtlsState) (data : Ptr) (dataLength : Nat) (h : data.uint8 ≠ dtlsHtClientHello) :
    Keeps (Inside peer) (dispatchMessage env peer session role state data dataLength) := by
  have answer : Answer env peer (Inside peer) := insideAnswer peer
  refine Keeps.ite (fun _ => answer.handleHelloVerifyRequest _ _ _) fun _ => ?_
  refine Keeps.ite (fun _ => answer.handleServerHello _ _ _ _) fun _ => ?_
  refine Keeps.ite (fun _ => answer.handleCertificate _ _ _ _ _) fun _ => ?_
  refine Keeps.ite (fun _ => answer.handleServerKeyExchange _ _ _ _) fun _ => ?_
  refine Keeps.ite (fun _ => inside_handleServerHelloDone _ _ _ _) fun _ => ?_
  refine Keeps.ite (fun _ => answer.handleCertificateRequest _ _ _ _) fun _ => ?_
  refine Keeps.ite (fun _ => inside_handleFinished _ _ _ _ _) fun _ => ?_
  refine Keeps.ite (fun _ => inside_of_idle (idle_handleClientKeyExchange _ _ _ _)) fun _ => ?_
  refine Keeps.ite (fun _ => inside_of_idle (idle_handleCertificateVerify _ _ _ _)) fun _ => ?_
  refine Keeps.ite (fun hello => absurd hello h) fun _ => ?_
  exact Keeps.ite (fun _ => answer.handleHelloRequest _) fun _ => keeps_pure _

/-! ## Retransmission -/

/-- `dtls_retransmit` inserts the packet again, or drops it. -/
theorem idle_retransmit (node : Netq) (w : World) :
    Idle
      { w with
        sendqueue := (node.retry (env.ticks w.tick)).elim w.sendqueue (netqInsertNode w.sendqueue) }
      (dtlsRetransmit env node w).2 := by
  by_cases h : node.Retried
  · rw [Netq.retry, if_pos h]
    obtain ⟨t, timeout, peer, epoch, type, cnt, data⟩ := node
    obtain ⟨a, ha⟩ := Option.isSome_iff_exists.mp h.1
    obtain rfl : peer = some a := ha
    have later (queue : List Netq) : Idle { w with sendqueue := queue }
        (w.later (w.tick + 1) queue) := Idle.around rfl rfl rfl rfl rfl
    have few : cnt < dtlsDefaultMaxRetransmit := h.2
    refine trans_of Idle (later _) ?_
    unfold dtlsRetransmit
    simp only [if_neg (not_not.mpr few), getPeer_bind, dtlsTicks_bind, modifyQueue_bind]
    refine (idle_prepareRecord _ _ _ _ _).bind (fun record => ?_) _
    cases record with
    | error res => exact keeps_pure _
    | ok sendbuf => exact (idle_callWrite _ _ _ _).bind fun _ => keeps_pure _
  · rw [Netq.retry, if_neg h, retransmit_dropped h]
    exact refl_of Idle w

theorem move_retransmit {w : World} {node : Netq} {rest : List Netq}
    (h : w.sendqueue = node :: rest) :
    QueueMove w .pop (dtlsRetransmit env node { w with sendqueue := rest }).2 :=
  QueueMove.pop node rest _ h (idle_retransmit node { w with sendqueue := rest })

end PqDtls.Dtls
