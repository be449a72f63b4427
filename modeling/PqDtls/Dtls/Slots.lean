import PqDtls.Dtls.Sending
import PqDtls.Lib.History

/-! # The moves of the key slots

    The engine seen from the two slots of security parameters of each peer.  `Move`
    lists what a step of a run can do to the slots, the role, the state and the TESLA
    index of the peers, and to the datagrams on the wire; its label `Op` names the
    source's function.  A move that is not named changes none of these.

    Most functions only make calm moves: no keys are made, switched or dropped, and no
    peer starts to wait for a Finished.  `calmFrame` says so of all of them at once. -/

namespace PqDtls.Dtls

open Program (get gets modify stop ofOption when Keeps keeps_pure keeps_get keeps_gets keeps_stop
  keeps_ofOption keeps_modify)
open History Ksnmss

/-! ## Moves -/

/-- The role, the state, the slots and the TESLA index. -/
structure View where
  role : DtlsPeerType
  state : DtlsState
  security0 : Option SecurityParameters
  security1 : Option SecurityParameters
  intIndex : Nat

def Peer.view (p : Peer) : View := ⟨p.role, p.state, p.security0, p.security1, p.intIndex⟩

/-- An event that is neither a datagram nor a change of state. -/
def Event.hidden : Event → Prop
  | .sent .. | .write .. | .state .. => False
  | _ => True

theorem Event.hidden_of_told {e : Event} (h : e.told) : e.hidden := by
  cases e <;> trivial

/-- Nothing is seen of this change. -/
structure Silent (w w' : World) : Prop where
  view : ∀ a, (w'.heap a).view = (w.heap a).view
  log : ∃ l, w'.log = l ++ w.log ∧ ∀ e ∈ l, e.hidden

/-- What a step does: nothing to be seen; a peer is made, accepted as that of a server,
    made a client's, or enters a state; a record is written under the parameters of a
    slot, or its number is used up for nothing, or it is written without parameters;
    slot 1 gets parameters of the next epoch, or there is no storage for them, and a key
    block is installed in it; the other parameters are released, or the slots are
    switched; the TESLA index moves on. -/
inductive Op
  | quiet
  | newPeer (a : Addr)
  | accept (a : Addr)
  | asClient (a : Addr)
  | enter (a : Addr) (s : DtlsState)
  | send (a : Addr) (slot : Slot) (s : SecurityParameters) (session : Session) (type : Nat)
      (payload : Bytes)
  | spend (a : Addr) (slot : Slot) (s : SecurityParameters)
  | sendPlain (session : Session) (type : Nat) (payload : Bytes)
  | next (a : Addr)
  | noNext (a : Addr)
  | install (a : Addr)
  | freeOther (a : Addr)
  | switch (a : Addr)
  | index (a : Addr)

/-- A cipher suite that keys can be made for. -/
def Keyed (cipher : Nat) : Prop :=
  isTlsPskWithAes128Ccm8 cipher = true ∨ isTlsEcdheEcdsaWithAes128Ccm8 cipher = true

/-- What the steps do to the world, and what is known when they are taken. -/
inductive Move (env : Env) : World → Op → World → Prop
  | quiet {w w' : World} : Silent w w' → Move env w .quiet w'
  | newPeer (w : World) (a : Addr) (session : Session) :
      Move env w (.newPeer a) (w.setPeer a (emptyPeer session))
  | accept (w : World) (a : Addr) (session : Session) : w.heap a = emptyPeer session →
      Move env w (.accept a) (w.setPeer a { emptyPeer session with
        role := .server, security0 := some { dtlsSecurityNew with rseq := 1 } })
  | asClient (w : World) (a : Addr) :
      Move env w (.asClient a) (w.setPeer a { w.heap a with role := .client })
  | enter (w : World) (a : Addr) (s : DtlsState) : Move env w (.enter a s) (setState a s w).2
  | send (w : World) (a : Addr) (slot : Slot) (s : SecurityParameters) (session : Session)
      (type : Nat) (payload : Bytes) : (w.heap a).security slot = some s →
      Move env w (.send a slot s session type payload)
        ((w.setPeer a ((w.heap a).countRecord s slot)).wrote session type payload
          (sealed env.prims (w.heap a).role s type payload))
  | spend (w : World) (a : Addr) (slot : Slot) (s : SecurityParameters) :
      (w.heap a).security slot = some s →
      Move env w (.spend a slot s) (w.setPeer a ((w.heap a).countRecord s slot))
  | sendPlain (w : World) (session : Session) (type : Nat) (payload : Bytes) :
      Move env w (.sendPlain session type payload) (w.wrote session type payload
        (sealed env.prims .client dtlsSecurityNew type payload))
  | next (w : World) (a : Addr) (s : SecurityParameters) : (w.heap a).security0 = some s →
      Move env w (.next a) (w.setPeer a { w.heap a with
        security1 := some { dtlsSecurityNew with epoch := (s.epoch + 1) % 2 ^ 16 } })
  | noNext (w : World) (a : Addr) :
      Move env w (.noNext a) (w.setPeer a { w.heap a with security1 := none })
  | install (w : World) (a : Addr) (h : HandshakeParameters) (preMaster : Bytes) :
      Keyed h.cipher →
      Move env w (.install a) (w.setPeer a (installKeyBlock env.prims h preMaster (w.heap a)))
  | freeOther (w : World) (a : Addr) :
      Move env w (.freeOther a) (w.setPeer a (w.heap a).freeOther)
  | switch (w : World) (a : Addr) : Move env w (.switch a) (dtlsSecurityParamsSwitch a w).2
  | index (w : World) (a : Addr) : (w.heap a).intIndex < teslaKeys →
      Move env w (.index a) (w.setPeer a { w.heap a with
        intIndex := ((w.heap a).intIndex + 1) % 2 ^ 32 })

/-- No keys are made, switched or dropped, and no peer starts to wait for a Finished. -/
def Op.calm : Op → Prop
  | .next _ | .noNext _ | .install _ | .freeOther _ | .switch _ => False
  | .enter _ s => s ≠ .waitFinished
  | _ => True

/-- A run of calm moves. -/
def Calmly (env : Env) : World → World → Prop := Reaches (Move env) Op.calm

variable {env : Env}

instance : IsPreorder World (Calmly env) :=
  inferInstanceAs (IsPreorder World (Reaches (Move env) Op.calm))

theorem Move.calmly {w w' : World} {op : Op} (h : Move env w op w') (hop : op.calm) :
    Calmly env w w' := Reaches.single h hop

/-! ## Silent functions -/

instance : IsPreorder World Silent where
  refl _ := ⟨fun _ => rfl, [], rfl, List.forall_mem_nil _⟩
  trans := by
    rintro w₁ w₂ w₃ ⟨view, l, log, hidden⟩ ⟨view', l', log', hidden'⟩
    refine ⟨fun a => (view' a).trans (view a), l' ++ l, ?_, ?_⟩
    · rw [log', log, List.append_assoc]
    · exact List.forall_mem_append.mpr ⟨hidden', hidden⟩

theorem Silent.calmly {w w' : World} (h : Silent w w') : Calmly env w w' :=
  (Move.quiet h).calmly trivial

theorem calmly_of_silent {α : Type} {m : M α} (h : Keeps Silent m) : Keeps (Calmly env) m :=
  h.mono fun _ _ => Silent.calmly

/-- A change of the world around the peers. -/
theorem Silent.around {w w' : World} (heap : w'.heap = w.heap) (log : w'.log = w.log) :
    Silent w w' :=
  ⟨fun a => by rw [heap], [], log, List.forall_mem_nil _⟩

/-- A write to one peer. -/
theorem Silent.peer {w : World} {a : Addr} {p : Peer} (h : p.view = (w.heap a).view) :
    Silent w (w.setPeer a p) := by
  refine ⟨fun b => ?_, [], rfl, List.forall_mem_nil _⟩
  by_cases hb : b = a
  · subst hb
    rw [heap_setPeer, h]
  · rw [heap_setPeer_ne p hb]

/-- One event. -/
theorem Silent.emitted {w w' : World} {e : Event} (heap : w'.heap = w.heap)
    (log : w'.log = e :: w.log) (h : e.hidden) : Silent w w' := by
  refine ⟨fun a => by rw [heap], [e], log, ?_⟩
  intro e' he
  rwa [List.mem_singleton.mp he]

theorem silentTacit : Tacit Silent where
  world heap _ _ _ log := Silent.around heap log
  peer {w a p} h := by
    refine Silent.peer ?_
    have core : p.core = (w.heap a).core := congrArg Prod.fst h
    have zero : p.security0 = (w.heap a).security0 := congrArg (fun f => f.2.1) h
    have one : p.security1 = (w.heap a).security1 := congrArg (fun f => f.2.2) h
    have role : p.role = (w.heap a).role := congrArg PeerCore.role core
    have state : p.state = (w.heap a).state := congrArg PeerCore.state core
    have index : p.intIndex = (w.heap a).intIndex := congrArg PeerCore.intIndex core
    simp only [Peer.view, zero, one, role, state, index]
  told h := Silent.emitted rfl rfl (Event.hidden_of_told h)

/-! ## Calm functions -/

theorem calmTacit : Tacit (Calmly env) where
  world heap peers live signer log := (silentTacit.world heap peers live signer log).calmly
  peer h := (silentTacit.peer h).calmly
  told h := (silentTacit.told h).calmly

/-- The pieces that fit are copied one after the other. -/
theorem flatten_of_copyPieces {rlen res : Nat} {pieces : List Bytes} {payload : Bytes}
    (h : copyPieces rlen res pieces = some payload) : payload = pieces.flatten := by
  induction pieces generalizing res payload with
  | nil => exact (Option.some.inj h).symm
  | cons d ds ih =>
      rw [copyPieces] at h
      split at h
      · cases h
      · obtain ⟨rest, hrest, rfl⟩ := Option.map_eq_some_iff.mp h
        rw [List.flatten_cons, ih hrest]

/-- What `dtls_prepare_record` makes of a payload, if it makes a record of it. -/
theorem fillRecord_sealed {p : Peer} {s : SecurityParameters} {n type rlen : Nat}
    {pieces : List Bytes} {d : Bytes}
    (h : fillRecord env.prims (some p) (some { s with rseq := n }) (recordHeader type s) pieces
      rlen = .ok d) : d = sealed env.prims p.role s type pieces.flatten := by
  simp only [fillRecord] at h
  unfold sealed
  by_cases hc : s.cipher = tlsNullWithNullNull
  · rw [if_pos hc, plainRecord] at h
    rw [if_pos hc]
    split at h
    · cases h
    · rename_i payload hp
      rw [← flatten_of_copyPieces hp]
      exact (Except.ok.inj h).symm
  · rw [if_neg hc, cipherRecord] at h
    rw [if_neg hc]
    split at h
    · cases h
    · rename_i payload hp
      rw [← flatten_of_copyPieces hp]
      exact (Except.ok.inj h).symm

/-- Without parameters the record is one in the clear, of epoch 0 and number 0. -/
theorem fillRecord_plain {p : Option Peer} {type rlen : Nat} {pieces : List Bytes} {d : Bytes}
    (h : fillRecord env.prims p none (recordHeader type dtlsSecurityNew) pieces rlen = .ok d) :
    d = sealed env.prims .client dtlsSecurityNew type pieces.flatten := by
  rw [fillRecord, plainRecord] at h
  split at h
  · cases h
  · rename_i payload hp
    rw [← flatten_of_copyPieces hp]
    exact (Except.ok.inj h).symm

/-- How `dtls_prepare_record` ends: it stops at NULL; it fails, and a number is used up;
    or there is a record to be written. -/
inductive Prepared (env : Env) (type : Nat) (payload : Bytes) (w : World) :
    Except Crash (Except Int Bytes) × World → Prop
  | stopped (c : Crash) : Prepared env type payload w (.error c, w)
  | failed (err : Int) (w' : World) : Calmly env w w' →
      Prepared env type payload w (.ok (.error err), w')
  | made (d : Bytes) (w' : World) :
      (∀ session, Calmly env w (w'.wrote session type payload d)) →
      Prepared env type payload w (.ok (.ok d), w')

theorem prepareRecord_cases {peer : Option Addr} {security : Option SecRef}
    (own : ∀ r, security = some r → peer = some r.peer) (type : Nat) (pieces : List Bytes)
    (rlen : Nat) (w : World) :
    Prepared env type pieces.flatten w
      (dtlsPrepareRecord env peer security type pieces rlen w) := by
  by_cases fits : rlen < dtlsRhLength
  · rw [dtlsPrepareRecord, if_pos fits]
    exact .failed _ _ (refl_of _ _)
  rw [dtlsPrepareRecord, if_neg fits]
  cases security with
  | none =>
      show Prepared env type pieces.flatten w (.ok (fillRecord env.prims (peer.map w.heap) none
        (recordHeader type dtlsSecurityNew) pieces rlen), w)
      rcases hd : fillRecord env.prims (peer.map w.heap) none (recordHeader type dtlsSecurityNew)
        pieces rlen with err | d
      · exact .failed _ _ (refl_of _ _)
      · refine .made _ _ fun session => ?_
        rw [fillRecord_plain hd]
        exact (Move.sendPlain w session type pieces.flatten).calmly trivial
  | some r =>
      obtain rfl := own r rfl
      cases hs : (w.heap r.peer).security r.slot with
      | none =>
          have get : getSecurity r w = (.error .nullDeref, w) := by
            simp only [getSecurity, getPeer_bind, hs, ofOption, Program.stop_apply]
          rw [dtlsSetRecordHeader, Program.bind_error (Program.bind_error get _)]
          exact .stopped _
      | some s =>
          rw [Program.bind_ok (setRecordHeader_eq type hs), Program.get_bind]
          simp only [Option.map_some, Option.bind_some, heap_setPeer, security_countRecord]
          rcases hd : fillRecord env.prims (some ((w.heap r.peer).countRecord s r.slot))
            (some { s with rseq := (s.rseq + 1) % 2 ^ 64 }) (recordHeader type s) pieces rlen
            with err | d
          · exact .failed _ _ ((Move.spend w r.peer r.slot s hs).calmly trivial)
          · refine .made _ _ fun session => ?_
            rw [fillRecord_sealed hd, role_countRecord]
            exact (Move.send w r.peer r.slot s session type pieces.flatten hs).calmly trivial

/-- Nothing but the queue and the number of questions changes around a datagram. -/
theorem Silent.later {w : World} {session : Session} {type : Nat} {payload d : Bytes}
    (t : Nat) (q : List Netq) :
    Silent (w.wrote session type payload d) ((w.later t q).wrote session type payload d) :=
  Silent.around rfl rfl

theorem calm_sendMulti {peer : Option Addr} {security : Option SecRef}
    (own : ∀ r, security = some r → peer = some r.peer) (session : Session) (type : Nat)
    (pieces : List Bytes) :
    Keeps (Calmly env) (dtlsSendMulti env peer security session type pieces) := by
  intro w
  have prepared := @prepareRecord_cases env _ _ own type pieces dtlsMaxBuf w
  rw [dtlsSendMulti]
  rcases hrun : dtlsPrepareRecord env peer security type pieces dtlsMaxBuf w with ⟨c | res, w'⟩
  · rw [hrun] at prepared
    rw [Program.bind_error hrun]
    cases prepared
    exact refl_of _ _
  rw [hrun] at prepared
  rw [Program.bind_ok hrun]
  cases prepared with
  | failed err _ moves => exact moves
  | made d _ moves =>
      refine trans_of (Calmly env) (moves session) ?_
      by_cases hq : mustQueue type pieces = true
      · obtain ⟨t, q, hqueue, -⟩ := @queuePacket_eq env peer security type pieces w'
        simp only
        rw [when, if_pos hq, Program.bind_ok hqueue, callWrite_bind]
        exact (Silent.later (t + 1) q).calmly
      · simp only
        rw [when, if_neg hq]
        exact (Silent.later (w'.tick + 1) w'.sendqueue).calmly

theorem calm_retransmit (node : Netq) : Keeps (Calmly env) (dtlsRetransmit env node) := by
  rw [dtlsRetransmit]
  cases node.peer with
  | none => exact keeps_pure _
  | some a =>
      refine Keeps.ite (fun _ => keeps_pure _) fun _ => (keeps_gets _).bind fun p => ?_
      refine (calmTacit.still.ticks env).bind fun now => (calmTacit.modifyQueue _).bind
        fun _ w => ?_
      have own : ∀ r, ((dtlsSecurityParamsEpoch p node.epoch).map fun s => (⟨a, s⟩ : SecRef))
          = some r → some a = some r.peer := by
        intro r hr
        obtain ⟨s, -, rfl⟩ := Option.map_eq_some_iff.mp hr
        rfl
      have prepared := @prepareRecord_cases env _ _ own node.type [node.data] dtlsMaxBuf w
      rcases hrun : dtlsPrepareRecord env (some a) ((dtlsSecurityParamsEpoch p node.epoch).map
        fun s => ⟨a, s⟩) node.type [node.data] dtlsMaxBuf w with ⟨c | res, w'⟩
      · rw [hrun] at prepared
        rw [Program.bind_error hrun]
        cases prepared
        exact refl_of _ _
      rw [hrun] at prepared
      rw [Program.bind_ok hrun]
      cases prepared with
      | failed err _ moves => exact moves
      | made d _ moves =>
          rw [List.flatten_cons, List.flatten_nil, List.append_nil] at moves
          refine trans_of (Calmly env) (moves p.session) ?_
          exact (Silent.later (w'.tick + 1) w'.sendqueue).calmly

theorem calm_around {w w' : World} (heap : w'.heap = w.heap) (log : w'.log = w.log) :
    Calmly env w w' := (Silent.around heap log).calmly

/-- A peer enters a state that is not `waitFinished`. -/
theorem calm_state (a : Addr) {s : DtlsState} (h : s ≠ .waitFinished) :
    Keeps (Calmly env) (setState a s) := fun w => (Move.enter w a s).calmly h

/-- A new peer, or none. -/
theorem newPeer_cases (session : Session) (w : World) :
    (∃ w', dtlsNewPeer env session w = (.ok none, w') ∧ Calmly env w w') ∨
      ∃ a w', dtlsNewPeer env session w = (.ok (some a), w') ∧ Calmly env w w' ∧
        w'.heap a = emptyPeer session := by
  simp only [dtlsNewPeer, nextTick_bind, malloc_bind, Program.gets_bind]
  by_cases found : (!env.malloc w.asked.tick || w.asked.asked.live (env.peerStorage w.tick)) = true
  · rw [if_pos found]
    exact .inl ⟨_, rfl, calm_around rfl rfl⟩
  · rw [if_neg found]
    refine .inr ⟨env.peerStorage w.tick, _, rfl, ?_, heap_setPeer w.asked.asked _ _⟩
    have asked : Calmly env w w.asked.asked := calm_around rfl rfl
    have new : Calmly env w.asked.asked
        (w.asked.asked.setPeer (env.peerStorage w.tick) (emptyPeer session)) :=
      (Move.newPeer _ _ session).calmly trivial
    refine trans_of _ (trans_of _ asked new) ?_
    exact calm_around rfl rfl

theorem calm_newServer (session : Session) :
    Keeps (Calmly env) (serverPeer env none session) := by
  intro w
  rw [serverPeer]
  rcases @newPeer_cases env session w with ⟨w', hrun, calm⟩ | ⟨a, w', hrun, calm, empty⟩ <;>
    rw [Program.bind_ok hrun]
  · exact calm
  · have server := (Move.accept w' a session empty : Move env _ _ _).calmly trivial
    simp only [modifyPeer_bind, empty]
    refine trans_of _ (trans_of _ calm server) ?_
    exact calm_around rfl rfl

/-- A write counts the interval of the head of the list of peers. -/
theorem calm_writeConnected (send : ∀ a type buf, Keeps (Calmly env) (dtlsSend env a type buf))
    (a : Addr) (buf : Ptr) (len : Nat) : Keeps (Calmly env) (writeConnected env a buf len) := by
  refine (keeps_gets _).bind fun peers => (keeps_ofOption _ _).bind fun head w => ?_
  rw [getPeer_bind]
  by_cases full : (w.heap head).intIndex ≥ teslaKeys
  · rw [if_pos full]
    exact refl_of _ _
  rw [if_neg full]
  refine Program.bind_keeps_from (calmTacit.still.teslaPayload head buf len w)
    fun payload w' hrun => ?_
  have index : (w'.heap head).intIndex = (w.heap head).intIndex := by
    have silent : Silent w (teslaPayload env head buf len w).2 :=
      silentTacit.still.teslaPayload head buf len w
    rw [hrun] at silent
    exact congrArg View.intIndex (silent.view head)
  rw [modifyPeer_bind]
  refine trans_of _ ((Move.index w' head ?_).calmly trivial) (send a _ payload _)
  omega

/-- A step that is one event. -/
theorem calm_emitted {w w' : World} {e : Event} (heap : w'.heap = w.heap)
    (log : w'.log = e :: w.log) (h : e.hidden) : Calmly env w w' :=
  (Silent.emitted heap log h).calmly

theorem calm_sign (hash : Digest) : Keeps (Calmly env) (signHash env 0 hash) := by
  refine (keeps_gets _).bind fun signer => ?_
  cases ksnmssSign env.ksnmss signer 0 hash with
  | none => exact keeps_stop _
  | some r => exact fun w => calm_emitted rfl rfl trivial

theorem calmBase : Frame env (Calmly env) where
  toTacit := calmTacit
  sendMulti := calm_sendMulti
  retransmit := calm_retransmit

/-- **CALM FUNCTIONS**: all that `EngineFrame` speaks of. -/
theorem calmFrame : EngineFrame env (Calmly env) where
  toFrame := calmBase
  storage heap _ log := calm_around heap log
  params {w a o} _ := (Silent.peer (p := { w.heap a with handshakeParams := o }) rfl).calmly
  state a s plain := calm_state a (by rintro rfl; exact Bool.false_ne_true plain)
  created w a session := (Move.newPeer w a session).calmly trivial
  newServer := calm_newServer
  asClient a w := (Move.asClient w a).calmly trivial
  newKeys w := calm_emitted rfl rfl trivial
  sign := calm_sign
  writeConnected := calm_writeConnected fun a type buf => (calmBase.sender (some a)).send type buf

/-! ## Messages and records -/

theorem silent_emit {e : Event} (h : e.hidden) : Keeps Silent (emit e) :=
  fun _ => Silent.emitted rfl rfl h

theorem calm_emit {e : Event} (h : e.hidden) : Keeps (Calmly env) (emit e) :=
  calmly_of_silent (silent_emit h)

/-- Any write through `handshake_params`. -/
theorem silent_modifyHandshake (a : Addr) (f : HandshakeParameters → HandshakeParameters) :
    Keeps Silent (modifyHandshake a f) := by
  intro w
  cases hp : (w.heap a).handshakeParams with
  | none =>
      rw [modifyHandshake_none f hp]
      exact refl_of _ _
  | some h =>
      rw [modifyHandshake_some f hp]
      exact Silent.peer rfl

theorem calm_takeTeslaSync (tsync : TeslaSync) (MSSPK : Node) (hash : Digest)
    (verified : Option Nat) : Keeps (Calmly env) (takeTeslaSync tsync MSSPK hash verified) :=
  Keeps.bind (keeps_modify fun _ => calm_around rfl rfl) fun _ => calm_emit trivial

theorem calm_handleClientKeyExchange (peer : Option Addr) (state : DtlsState) (data : Ptr)
    (dataLength : Nat) :
    Keeps (Calmly env) (handleClientKeyExchange env peer state data dataLength) := by
  refine Keeps.ite (fun _ => keeps_pure _) fun _ => keeps_withHandshake peer fun a h => ?_
  refine (calmTacit.still.checkClientKeyExchange a h _ _).bind fun err => ?_
  refine (calm_takeTeslaSync _ _ _ _).bind fun _ => Keeps.ite (fun _ => keeps_pure _) fun _ => ?_
  refine (calmTacit.still.updateHsHash a _).bind fun _ => (calmTacit.still.getHandshake a).bind
    fun h => ?_
  refine Keeps.bind (calm_state a ?_) fun _ => keeps_pure _
  unfold keyExchanged
  split <;> decide

theorem calm_handleCertificateVerify (peer : Option Addr) (state : DtlsState) (data : Ptr)
    (dataLength : Nat) :
    Keeps (Calmly env) (handleCertificateVerify env peer state data dataLength) := by
  refine Keeps.ite (fun _ => keeps_pure _) fun _ => keeps_withHandshake peer fun a _ => ?_
  refine (calmTacit.still.checkClientCertificateVerify a _ _).bind fun err => ?_
  refine Keeps.ite (fun _ => keeps_pure _) fun _ => (calmTacit.still.updateHsHash a _).bind
    fun _ => ?_
  exact (calm_state a (by decide)).bind fun _ => keeps_pure _

theorem silentAssembler : Assembler Silent where
  toStill := silentTacit.still
  writes := silent_modifyHandshake
  assembled {w e} h := Silent.emitted rfl rfl (by cases e <;> trivial)

theorem calm_receiveTesla (data : Ptr) (len : Int) :
    Keeps (Calmly env) (receiveTesla env data len) := by
  refine (keeps_gets _).bind fun peers => (keeps_ofOption _ _).bind fun head => ?_
  refine (keeps_gets _).bind fun p => (calmTacit.still.checkInterval _).bind fun _ => ?_
  refine Keeps.ite (fun _ => keeps_stop _) fun _ => (calm_emit (by trivial)).bind fun _ w => ?_
  exact (Silent.peer (p := { w.heap head with
    teslaPs := storePacket (w.heap head).teslaPs (w.heap head).intIndex data len }) rfl).calmly

theorem calm_handleApplicationData (a : Addr) (data : Ptr) (dataLength : Nat) :
    Keeps (Calmly env) (handleApplicationData env a data dataLength) := by
  refine (calmTacit.stopRetransmission a).bind fun _ => (calm_receiveTesla _ _).bind fun _ => ?_
  refine (keeps_gets _).bind fun p => calmTacit.still.nextTick.bind fun t => ?_
  exact (calm_emit (by trivial)).bind fun _ => calmFrame.runAppCalls _

theorem calm_handshakeHandled (peer : Option Addr) (session : Session) (err : Int) :
    Keeps (Calmly env) (handshakeHandled env peer session err) := by
  refine Keeps.ite (fun _ => keeps_pure _) fun _ => Keeps.ite (fun _ => ?_) fun _ => ?_
  · exact (calmFrame.alertSendFromErr _ _ _).bind fun _ => keeps_pure _
  cases peer with
  | none => exact keeps_pure _
  | some a =>
      refine (keeps_gets _).bind fun p => Keeps.bind (Keeps.when fun _ => ?_) fun _ => keeps_pure _
      exact (calmTacit.stopRetransmission a).bind fun _ => calmTacit.still.callEvent _ _ _

theorem calm_handleApplicationRecord (peer : Option Addr) (r : OpenRecord) :
    Keeps (Calmly env) (handleApplicationRecord env peer r) := by
  cases peer with
  | none => exact keeps_pure _
  | some a => exact (calm_handleApplicationData a _ _).bind fun _ => keeps_pure _

theorem calm_handleAlertRecord (peer : Option Addr) (r : OpenRecord) :
    Keeps (Calmly env) (handleAlertRecord env peer r) :=
  (calmTacit.stopRetransmissionOf peer).bind fun _ =>
    (calmFrame.handleAlert peer _ _).bind fun _ => keeps_pure _

/-- Calls of the application, retransmission, and the release of a peer. -/
theorem calm_runInput {i : Input}
    (h : ∀ session msg msglen, i ≠ .handleMessage session msg msglen) :
    Keeps (Calmly env) (runInput env i) := by
  cases i with
  | handleMessage session msg msglen => exact absurd rfl (h session msg msglen)
  | checkRetransmit all => exact calmFrame.checkRetransmit all
  | app call => exact calmFrame.runAppCall call
  | resetPeer session =>
      refine (keeps_gets _).bind fun peer => ?_
      cases peer with
      | none => exact keeps_pure _
      | some a =>
          exact (calmTacit.stopRetransmission a).bind fun _ => calmFrame.destroyPeer a

end PqDtls.Dtls
