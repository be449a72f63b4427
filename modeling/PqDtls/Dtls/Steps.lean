import PqDtls.Dtls.EngineFrames
import Mathlib.Logic.Relation

/-! # Steps of the engine

    The engine as a transition relation: `Step` lists what one elementary step of a
    run can do to the world, each with what is known when it happens.  That every
    function of the engine is a sequence of such steps (`steps_runInputs` at the
    end) is proved once; an invariant of all runs is then one case per step.

    A step may depend on what is being handled.  The ghost record of events says
    what that is: the last record taken from a datagram, and the last message
    handed to `handle_handshake_msg`. -/

namespace PqDtls.Dtls

open Program (get gets modify stop ofOption when Keeps Under keeps_pure keeps_get keeps_gets
  keeps_stop keeps_ofOption keeps_modify)
open Ksnmss Relation

variable (env : Env)

/-! ## What is being handled -/

def currentMessage : List Event → Option HandshakeCall
  | [] => none
  | .message c :: _ => some c
  | _ :: l => currentMessage l

def currentRecord : List Event → Option RecordCall
  | [] => none
  | .record r :: _ => some r
  | _ :: l => currentRecord l

/-- An event inside the handling of a message. -/
def Event.inner : Event → Prop
  | .record _ | .message _ => False
  | _ => True

theorem Event.inner_of_outside {e : Event} (h : e.outside) : e.inner := by
  cases e <;> trivial

theorem currentMessage_append {l l' : List Event} (h : ∀ e ∈ l, e.inner) :
    currentMessage (l ++ l') = currentMessage l' := by
  induction l with
  | nil => rfl
  | cons e l ih =>
      obtain ⟨he, hl⟩ := List.forall_mem_cons.mp h
      cases e with
      | message c => exact he.elim
      | _ => exact ih hl

theorem mem_log_of_currentMessage {l : List Event} {c : HandshakeCall}
    (h : currentMessage l = some c) : .message c ∈ l := by
  induction l with
  | nil => exact nomatch h
  | cons e l ih =>
      cases e with
      | message c' =>
          cases h
          exact List.mem_cons_self
      | _ => exact List.mem_cons_of_mem _ (ih h)

theorem currentRecord_append {l l' : List Event} (h : ∀ e ∈ l, e.inner) :
    currentRecord (l ++ l') = currentRecord l' := by
  induction l with
  | nil => rfl
  | cons e l ih =>
      obtain ⟨he, hl⟩ := List.forall_mem_cons.mp h
      cases e with
      | record c => exact he.elim
      | _ => exact ih hl

/-- The payload of a record: what was decrypted, or what follows the header of a
    record that is taken for the start of a handshake. -/
def RecordCall.payload (r : RecordCall) : Ptr × Nat :=
  match r.before with
  | none => (r.packet.add dtlsRhLength, r.length - dtlsRhLength)
  | some p =>
      let opened := decryptPacket env.prims p r.packet r.length
      if opened.length < 0 then (opened.packet.add dtlsRhLength, r.length - dtlsRhLength)
      else (opened.data, opened.length.toNat)

/-- A message that is only a part of a longer one. -/
def Fragmented (m : Ptr) : Prop :=
  (handshakeHeader m).fragmentLength < (handshakeHeader m).length

/-- The record `r` was opened with the keys of the peer `p` at `a`, in the epoch that
    the role and the state of the peer ask for. -/
structure Admitted (r : RecordCall) (role : DtlsPeerType) (state : DtlsState) (a : Addr)
    (p : Peer) : Prop where
  peer : r.peer = some a
  before : r.before = some p
  sameRole : role = p.role
  sameState : state = p.state
  opened : 0 ≤ (decryptPacket env.prims p r.packet r.length).length
  epoch : ∀ s, p.security0 = some s → expectedEpoch s role state = dtlsGetEpoch r.packet

/-- Where a message that is handled comes from. -/
inductive Origin (w : World) (c : HandshakeCall) : Prop
  | direct (r : RecordCall) (record : currentRecord w.log = some r)
      (payload : (c.data, c.dataLength) = r.payload env) (whole : ¬ Fragmented c.data)
      (peer : c.peer = r.peer)
      (admitted : c.state = .waitClientHello ∨ ∃ a p, Admitted env r c.role c.state a p)
  | assembled (r : RecordCall) (record : currentRecord w.log = some r)
      (fragment : Fragmented (r.payload env).1)
  | replayed (a : Addr) (rest : List Event) (log : w.log = .replay a c.state :: rest)
      (peer : c.peer = some a)

/-! ## The steps -/

/-- A ClientKeyExchange that the server waits for. -/
structure HandshakeCall.IsKeyExchange (c : HandshakeCall) : Prop where
  type : c.data.uint8 = dtlsHtClientKeyExchange
  state : c.state = .waitClientKeyExchange

/-- One for the peer at `a`, as long as its cipher suite asks for. -/
structure HandshakeCall.IsExchange (c : HandshakeCall) (a : Addr) : Prop extends
    c.IsKeyExchange where
  peer : c.peer = some a
  lengths : ∃ p h, c.before = some p ∧ p.handshakeParams = some h ∧
    0 ≤ keyExchangeError h.cipher c.data c.dataLength

/-- What is known when the peer at `a` enters the state `s`. -/
structure Entered (w : World) (a : Addr) (s : DtlsState) : Prop where
  connected : s = .connected → ∃ c p, currentMessage w.log = some c ∧ c.peer = some a ∧
    c.before = some p ∧ c.data.uint8 = dtlsHtFinished ∧ c.state = .waitFinished ∧
    p.handshakeParams.isSome = true ∧ checkFinished env p c.data c.dataLength = 0
  exchanged : s = .waitChangeCipherSpec ∨ s = .waitCertificateVerify →
    ∀ c, currentMessage w.log = some c → c.data.uint8 = dtlsHtClientKeyExchange → c.IsExchange a
  peer : s ≠ .waitClientHello

/-- No buffer, an empty one, or one whose storage is gone. -/
def FreshBuffer : Option HsReassemble → Prop
  | none => True
  | some buf => buf.live = false ∧ buf.size = 0 ∨
      buf.live = true ∧ buf.lastOffset = 0 ∧ buf.size = buf.packetLength + dtlsHsLength

/-- What is known when a fragment is copied. -/
structure Fits (header : HandshakeHeader) (buf : HsReassemble) (data : Ptr) : Prop where
  parsed : header = handshakeHeader data
  next : buf.lastOffset = header.fragmentOffset
  part : header.fragmentLength < header.length
  inside : header.fragmentOffset + header.fragmentLength ≤ header.length
  max : header.length ≤ dtlsMaxBuf
  first : header.fragmentOffset = 0 → buf.packetLength = header.length ∧ buf.live = true

/-- What is known when data is handed to the read callback. -/
structure Readable (w : World) (data : Ptr) (len : Nat) (r : RecordCall) (a : Addr)
    (p : Peer) : Prop where
  record : currentRecord w.log = some r
  peer : r.peer = some a
  before : r.before = some p
  type : r.packet.uint8 = dtlsCtApplicationData
  opened : 0 ≤ (decryptPacket env.prims p r.packet r.length).length
  data : data = (decryptPacket env.prims p r.packet r.length).data
  length : len =
    sizeT ((decryptPacket env.prims p r.packet r.length).length - (teslaExtension : Nat))

/-- The peer with its buffer replaced. -/
def Peer.setBuffer (p : Peer) (buf : Option HsReassemble) : Peer :=
  { p with handshakeParams := p.handshakeParams.map fun h => { h with reassembleBuf := buf } }

def Peer.buffer (p : Peer) : Option HsReassemble := p.handshakeParams.bind (·.reassembleBuf)

/-- What an edit of a peer leaves alone. -/
def Peer.watched (p : Peer) : DtlsState × Option HsReassemble × PacketStore :=
  (p.state, p.buffer, p.teslaPs)

/-- One elementary step. -/
inductive Step : World → World → Prop
  | quiet {w w' : World} : Quiet w w' → Step w w'
  | storage {w w' : World} : w'.heap = w.heap → w'.signer = w.signer → w'.log = w.log → Step w w'
  | newPeer (w : World) (a : Addr) (session : Session) : Step w (w.setPeer a (emptyPeer session))
  | edit (w : World) (a : Addr) (p : Peer) : p.watched = (w.heap a).watched →
      Step w (w.setPeer a p)
  | params (w : World) (a : Addr) (o : Option HandshakeParameters) : FreshHandshake o →
      Step w (w.setPeer a { w.heap a with handshakeParams := o })
  | state (w : World) (a : Addr) (s : DtlsState) : Entered env w a s → Step w (setState a s w).2
  | sign (w : World) (hash : Digest) (r : KsnmssSig × SignerState) :
      ksnmssSign env.ksnmss w.signer 0 hash = some r →
      Step w { w with signer := r.2, log := .sign 0 hash r.1 :: w.log }
  | keyGeneration (w : World) :
      Step w { w with signer := keyGeneration env.ksnmss w.signer, log := .keyGeneration :: w.log }
  | verify (w : World) (c : HandshakeCall) (rtt : Rat) (hash : Digest) (result : Option Nat) :
      currentMessage w.log = some c → c.IsKeyExchange →
      Step w { w with
        tsync := readTeslaSync (c.data.add (teslaSyncOffset c.dataLength))
        rtt := rtt
        signer := { w.signer with MSSPK := keyExchangeKey c.data c.dataLength }
        log := .verify hash result :: w.log }
  | tesla (w : World) (head : Addr) (data : Ptr) (len : Int) :
      Step w ((w.emitted (.tesla (receivedPacket env.prims head (w.heap head) data len))).setPeer
        head { w.heap head with
          teslaPs := storePacket (w.heap head).teslaPs (w.heap head).intIndex data len })
  | read (w : World) (session : Session) (data : Ptr) (len : Nat) (r : RecordCall) (a : Addr)
      (p : Peer) : Readable env w data len r a p → Step w (emit (.read session data len) w).2
  | record (w : World) (r : RecordCall) : r.before = r.peer.map w.heap →
      Step w (emit (.record r) w).2
  | replay (w : World) (a : Addr) : Step w (emit (.replay a (w.heap a).state) w).2
  | message (w : World) (c : HandshakeCall) : c.before = c.peer.map w.heap → Origin env w c →
      Step w (emit (.message c) w).2
  | handled (w : World) (res : Int) : Step w (emit (.handled res) w).2
  | buffer (w : World) (a : Addr) (buf : Option HsReassemble) : FreshBuffer buf →
      Step w (w.setPeer a ((w.heap a).setBuffer buf))
  | fragment (w : World) (a : Addr) (header : HandshakeHeader) (buf : HsReassemble) (data : Ptr)
      (dataLength : Nat) : (w.heap a).buffer = some buf → Fits header buf data →
      Step w { w.setPeer a ((w.heap a).setBuffer
          (some (fragmentCopy a header buf data dataLength).result)) with
        log := .fragment (fragmentCopy a header buf data dataLength) :: w.log }
  | deliver (w : World) (c : FragmentCopy) (rest : List Event) : w.log = .fragment c :: rest →
      (w.heap c.peer).buffer = some c.result → c.header.length ≤ c.result.lastOffset →
      Step w { w.setPeer c.peer ((w.heap c.peer).setBuffer (some c.result.rewriteHeader)) with
        log := .deliver c.peer c.result.packetLength c.result.rewriteHeader.data :: w.log }

/-- A sequence of steps. -/
def Steps : World → World → Prop := ReflTransGen (Step env)

instance : IsPreorder World (Steps env) where
  refl _ := .refl
  trans _ _ _ := ReflTransGen.trans

variable {env}

theorem Step.steps {w w' : World} (h : Step env w w') : Steps env w w' := .single h

/-- What is known of the world in which an event happens. -/
def Event.Known (env : Env) (w : World) : Event → Prop
  | .read _ data len => ∃ r a p, Readable env w data len r a p
  | .state a old s => old = (w.heap a).state ∧ Entered env w a s
  | .record r => r.before = r.peer.map w.heap
  | .message c => c.before = c.peer.map w.heap ∧ Origin env w c
  | .replay a s => s = (w.heap a).state
  | .sign id hash sig => id = 0 ∧ ∃ s, ksnmssSign env.ksnmss w.signer 0 hash = some (sig, s)
  | .verify _ _ => ∃ c, currentMessage w.log = some c ∧ c.IsKeyExchange
  | .tesla t => ∃ data len, t = receivedPacket env.prims t.peer (w.heap t.peer) data len
  | .fragment c => (w.heap c.peer).buffer = some c.buffer ∧ Fits c.header c.buffer c.record
  | _ => True

/-- The events of a step: some that can be seen from outside, or one that is known. -/
theorem Step.known {w w' : World} (h : Step env w w') :
    (∃ l, w'.log = l ++ w.log ∧ ∀ e ∈ l, e.outside) ∨
      ∃ e, w'.log = e :: w.log ∧ e.Known env w := by
  have silent (hlog : w'.log = w.log) : ∃ l, w'.log = l ++ w.log ∧ ∀ e ∈ l, e.outside :=
    ⟨[], hlog, List.forall_mem_nil _⟩
  cases h with
  | quiet q => exact .inl q.log
  | storage heap signer log => exact .inl (silent log)
  | newPeer a session => exact .inl (silent rfl)
  | edit a p watched => exact .inl (silent rfl)
  | params a o fresh => exact .inl (silent rfl)
  | buffer a buf fresh => exact .inl (silent rfl)
  | state a s entered => exact .inr ⟨_, rfl, rfl, entered⟩
  | sign hash r hr => exact .inr ⟨_, rfl, rfl, r.2, hr⟩
  | keyGeneration => exact .inr ⟨_, rfl, trivial⟩
  | verify c rtt hash result hc hk => exact .inr ⟨_, rfl, c, hc, hk⟩
  | tesla head data len => exact .inr ⟨_, rfl, data, len, rfl⟩
  | read session data len r a p readable => exact .inr ⟨_, rfl, r, a, p, readable⟩
  | record r before => exact .inr ⟨_, rfl, before⟩
  | replay a => exact .inr ⟨_, rfl, rfl⟩
  | message c before origin => exact .inr ⟨_, rfl, before, origin⟩
  | handled res => exact .inr ⟨_, rfl, trivial⟩
  | fragment a header buf data dataLength before fits => exact .inr ⟨_, rfl, before, fits⟩
  | deliver c rest last before whole => exact .inr ⟨_, rfl, trivial⟩

theorem Quiet.steps {w w' : World} (h : Quiet w w') : Steps env w w' := (Step.quiet h).steps

/-- **Invariants of runs**: what every step keeps, a sequence of steps keeps. -/
theorem Steps.invariant {I : World → Prop} (step : ∀ w w', Step env w w' → I w → I w')
    {w w' : World} (h : Steps env w w') (hw : I w) : I w' := by
  induction h with
  | refl => exact hw
  | tail _ last ih => exact step _ _ last ih

/-- Steps inside the handling of a message. -/
structure Inner (env : Env) (w w' : World) : Prop where
  steps : Steps env w w'
  log : ∃ l, w'.log = l ++ w.log ∧ ∀ e ∈ l, e.inner

instance : IsPreorder World (Inner env) where
  refl w := ⟨.refl, [], rfl, List.forall_mem_nil _⟩
  trans := by
    rintro w₁ w₂ w₃ ⟨h, l, hl, hi⟩ ⟨h', l', hl', hi'⟩
    refine ⟨h.trans h', l' ++ l, ?_, ?_⟩
    · rw [hl', hl, List.append_assoc]
    · intro e he
      cases List.mem_append.mp he with
      | inl he => exact hi' e he
      | inr he => exact hi e he

theorem Quiet.inner {w w' : World} (h : Quiet w w') : Inner env w w' := by
  obtain ⟨l, hl, ho⟩ := h.log
  exact ⟨h.steps, l, hl, fun e he => Event.inner_of_outside (ho e he)⟩

/-- A step that is not seen in the record of events. -/
theorem Step.silent {w w' : World} (h : Step env w w') (hlog : w'.log = w.log) :
    Inner env w w' := ⟨h.steps, [], hlog, List.forall_mem_nil _⟩

/-- A step that is one inner event. -/
theorem Step.event {w w' : World} {e : Event} (h : Step env w w') (hlog : w'.log = e :: w.log)
    (he : e.inner) : Inner env w w' := by
  refine ⟨h.steps, [e], hlog, ?_⟩
  intro e' he'
  rwa [List.mem_singleton.mp he']

theorem Inner.message {w w' : World} (h : Inner env w w') :
    currentMessage w'.log = currentMessage w.log := by
  obtain ⟨l, hl, hi⟩ := h.log
  rw [hl, currentMessage_append hi]

theorem Inner.record {w w' : World} (h : Inner env w w') :
    currentRecord w'.log = currentRecord w.log := by
  obtain ⟨l, hl, hi⟩ := h.log
  rw [hl, currentRecord_append hi]

theorem Inner.rfl (w : World) : Inner env w w := refl_of (Inner env) w

/-- A quiet function. -/
theorem inner_of_quiet {α : Type} {m : M α} (h : Keeps Quiet m) : Keeps (Inner env) m :=
  h.mono fun _ _ => Quiet.inner

/-! ## Writes to peers -/

theorem inner_modifyPeer {a : Addr} {f : Peer → Peer} (h : ∀ p, (f p).watched = p.watched) :
    Keeps (Inner env) (modifyPeer a f) :=
  fun w => (Step.edit w a _ (h _)).silent rfl

/-- Such a write, in front of a program. -/
theorem inner_modifyPeer_bind {α : Type} {a : Addr} {f : Peer → Peer} {k : Unit → M α}
    (h : ∀ p, (f p).watched = p.watched) (hk : ∀ u, Keeps (Inner env) (k u)) :
    Keeps (Inner env) (modifyPeer a f >>= k) :=
  (inner_modifyPeer h).bind hk

/-- A state that is reached by way of a particular message, or by no message. -/
def DtlsState.milestone : DtlsState → Bool
  | connected | waitChangeCipherSpec | waitCertificateVerify | waitClientHello => true
  | _ => false

theorem entered_other {w : World} {a : Addr} {s : DtlsState} (h : s.milestone = false) :
    Entered env w a s := by
  refine ⟨?_, ?_, ?_⟩
  · rintro rfl
    exact nomatch h
  · rintro (rfl | rfl)
    · exact nomatch h
    · exact nomatch h
  · rintro rfl
    exact nomatch h

theorem step_setState {w : World} {a : Addr} {s : DtlsState} (h : Entered env w a s) :
    Inner env w (setState a s w).2 :=
  (Step.state w a s h).event rfl trivial

theorem inner_storage {f : World → World} (heap : ∀ w, (f w).heap = w.heap)
    (signer : ∀ w, (f w).signer = w.signer) (log : ∀ w, (f w).log = w.log) :
    Keeps (Inner env) (modify f : M Unit) :=
  fun w => (Step.storage (heap w) (signer w) (log w)).silent (log w)

theorem DtlsState.milestone_of_plain {s : DtlsState} (h : s.plain = true) :
    s.milestone = false := by
  cases s with
  | connected | waitChangeCipherSpec | waitCertificateVerify | waitClientHello | waitFinished =>
      exact absurd h nofun
  | _ => rfl

/-! ## The moves of any engine function -/

theorem signHash_apply (w : World) (id : Nat) (hash : Digest) :
    signHash env id hash w = signed id hash (ksnmssSign env.ksnmss w.signer id hash) w := by
  rw [signHash, Program.gets_bind]

theorem inner_signed_none (hash : Digest) (w : World) :
    Inner env w (signed 0 hash none w).2 := Inner.rfl w

theorem inner_signed_some {hash : Digest} {w : World} {r : KsnmssSig × SignerState}
    (h : ksnmssSign env.ksnmss w.signer 0 hash = some r) :
    Inner env w (signed 0 hash (some r) w).2 :=
  (Step.sign w hash r h).event rfl trivial

theorem inner_signHash (hash : Digest) : Keeps (Inner env) (signHash env 0 hash) := by
  intro w
  rw [signHash_apply]
  -- the outcome is a variable from here on, so that nothing evaluates it
  generalize hr : ksnmssSign env.ksnmss w.signer 0 hash = r
  cases r with
  | none => exact inner_signed_none hash w
  | some r => exact inner_signed_some hr

theorem innerTacit : Tacit (Inner env) where
  world heap peers live signer log := (quietTacit.world heap peers live signer log).inner
  peer h := (quietTacit.peer h).inner
  told h := (quietTacit.told h).inner

theorem inner_newServer (session : Session) : Keeps (Inner env) (serverPeer env none session) := by
  refine Keeps.bind ?_ fun new => ?_
  · refine innerTacit.still.nextTick.bind fun t => (innerTacit.still.malloc env).bind
      fun found => ?_
    refine (keeps_gets _).bind fun inUse => Keeps.ite (fun _ => keeps_pure _) fun _ =>
      Keeps.bind ?_ fun _ => Keeps.bind ?_ fun _ => keeps_pure _
    · exact fun w => (Step.newPeer w _ session).silent rfl
    · exact inner_storage (fun _ => rfl) (fun _ => rfl) fun _ => rfl
  cases new with
  | none => exact keeps_pure _
  | some a =>
      refine inner_modifyPeer_bind (fun _ => rfl) fun _ => Keeps.bind ?_ fun _ => keeps_pure _
      exact inner_storage (fun _ => rfl) (fun _ => rfl) fun _ => rfl

theorem inner_writeConnected (a : Addr) (buf : Ptr) (len : Nat) :
    Keeps (Inner env) (writeConnected env a buf len) := by
  have quiet := quietFrame env
  refine (keeps_gets _).bind fun peers => (keeps_ofOption _ _).bind fun head => ?_
  refine (keeps_gets _).bind fun p => Keeps.ite (fun _ => keeps_stop _) fun _ => ?_
  refine (innerTacit.still.teslaPayload head buf len).bind fun payload => ?_
  exact inner_modifyPeer_bind (fun _ => rfl) fun _ => inner_of_quiet ((quiet.sender _).send _ _)

/-- Every step is allowed that a frame has to allow. -/
theorem innerFrame : EngineFrame env (Inner env) where
  toTacit := innerTacit
  sendMulti own session type bufArray :=
    inner_of_quiet ((quietFrame env).sendMulti own session type bufArray)
  retransmit node := inner_of_quiet ((quietFrame env).retransmit node)
  storage heap signer log := (Step.storage heap signer log).silent log
  params h := by
    cases h with
    | inl fresh => exact (Step.params _ _ _ fresh).silent rfl
    | inr same =>
        refine (Step.edit _ _ _ ?_).silent rfl
        simp only [Peer.watched, Peer.buffer, same]
  state a s h _ := step_setState (entered_other (DtlsState.milestone_of_plain h))
  created w a session := (Step.newPeer w a session).silent rfl
  newServer := inner_newServer
  asClient a := inner_modifyPeer fun _ => rfl
  newKeys w := (Step.keyGeneration w).event rfl trivial
  sign := inner_signHash
  writeConnected := inner_writeConnected

/-! ## Keys -/

theorem inner_securityParamsNext (a : Addr) :
    Keeps (Inner env) (dtlsSecurityParamsNext env a) := by
  refine (innerFrame.still.malloc env).bind fun found => Keeps.ite (fun _ => ?_) fun _ => ?_
  · exact inner_modifyPeer_bind (fun _ => rfl) fun _ => keeps_pure _
  · refine (innerFrame.still.getPeer a).bind fun p => (keeps_ofOption _ _).bind fun s => ?_
    exact inner_modifyPeer_bind (fun _ => rfl) fun _ => keeps_pure _

theorem watched_installKeyBlock (C : Primitives) (h : HandshakeParameters) (preMaster : Bytes)
    (p : Peer) : (installKeyBlock C h preMaster p).watched = p.watched := by
  simp only [installKeyBlock, Peer.watched, Peer.buffer, HandshakeParameters.writeTmp]
  cases p.handshakeParams with
  | none => simp only [Option.map_none]
  | some h' => simp only [Option.map_some, Option.bind_some]

theorem inner_calculateKeyBlock (a : Addr) (session : Session) :
    Keeps (Inner env) (calculateKeyBlock env a session) := by
  refine (innerFrame.still.getPeer a).bind fun p => ?_
  cases p.handshakeParams with
  | none => exact keeps_pure _
  | some h =>
      refine (inner_securityParamsNext a).bind fun found => Keeps.ite (fun _ => keeps_pure _)
        fun _ => ?_
      refine (innerFrame.still.preMasterSecret h session).bind fun secret => ?_
      cases secret with
      | error err => exact keeps_pure _
      | ok preMaster =>
          exact inner_modifyPeer_bind (watched_installKeyBlock _ _ _) fun _ => keeps_pure _

theorem inner_securityParamsSwitch (a : Addr) : Keeps (Inner env) (dtlsSecurityParamsSwitch a) :=
  inner_modifyPeer fun _ => rfl

theorem freeOther_cases (p : Peer) :
    p.freeOther = p ∨ p.freeOther = { p with security1 := none } := by
  unfold Peer.freeOther
  split
  · split
    · exact .inl rfl
    · exact .inr rfl
  · exact .inl rfl

/-- What does not look at slot 1. -/
theorem freeOther_view {β : Type} {f : Peer → β}
    (h : ∀ p : Peer, f { p with security1 := none } = f p) (p : Peer) : f p.freeOther = f p := by
  rcases freeOther_cases p with same | dropped
  · rw [same]
  · rw [dropped, h]

theorem watched_freeOther (p : Peer) : p.freeOther.watched = p.watched :=
  freeOther_view (fun _ => rfl) p

theorem inner_securityParamsFreeOther (a : Addr) :
    Keeps (Inner env) (dtlsSecurityParamsFreeOther a) :=
  inner_modifyPeer watched_freeOther

theorem inner_decryptVerify (a : Addr) (packet : Ptr) (length : Nat) :
    Keeps (Inner env) (decryptVerify env a packet length) :=
  (innerFrame.still.getPeer a).bind fun _ =>
    (Keeps.when fun _ => inner_securityParamsFreeOther a).bind fun _ => keeps_pure _

/-! ## Handlers of messages -/

theorem inner_changeKeys (a : Addr) : Keeps (Inner env) (changeKeys env a) := by
  refine (innerFrame.still.getPeer a).bind fun p => ?_
  refine (inner_calculateKeyBlock a _).bind fun res => Keeps.ite (fun _ => keeps_pure _) fun _ => ?_
  refine ((innerFrame.sender _).sendCcs).bind fun res =>
    Keeps.ite (fun _ => keeps_pure _) fun _ => ?_
  exact (inner_securityParamsSwitch a).bind fun _ => (innerFrame.sender _).sendFinished _

theorem inner_checkServerHellodone (a : Addr) (data : Ptr) (dataLength : Nat) :
    Keeps (Inner env) (checkServerHellodone env a data dataLength) := by
  refine (innerFrame.still.getPeer a).bind fun p => Keeps.ite (fun _ => keeps_pure _) fun _ => ?_
  refine (innerFrame.still.updateHsHash a _).bind fun _ => ?_
  exact ((innerFrame.answer _).sendClientKeyExchange).bind fun _ =>
    Keeps.ite (fun _ => keeps_pure _) fun _ => inner_changeKeys a

/-! ## Handlers that depend on the message -/

/-- Inside the handling of the message `c`. -/
def During (env : Env) (c : HandshakeCall) : World → World → Prop :=
  Under (fun w => currentMessage w.log = some c) (Inner env)

instance (c : HandshakeCall) : IsPreorder World (During env c) :=
  inferInstanceAs (IsPreorder World (Under _ (Inner env)))

variable {c : HandshakeCall}

theorem during_of_inner {α : Type} {m : M α} (h : Keeps (Inner env) m) :
    Keeps (During env c) m := by
  intro w hc
  refine ⟨h w, ?_⟩
  show currentMessage _ = some c
  rw [(h w).message, hc]

theorem during_setState {a : Addr} {s : DtlsState}
    (h : ∀ w, currentMessage w.log = some c → Entered env w a s) :
    Keeps (During env c) (setState a s) :=
  fun w hc => ⟨step_setState (h w hc), hc⟩

/-- A message of another type says nothing about a key exchange. -/
theorem entered_of_type {w : World} {a : Addr} {s : DtlsState}
    (hc : currentMessage w.log = some c) (ht : c.data.uint8 ≠ dtlsHtClientKeyExchange)
    (hs : s ≠ .connected) (hw : s ≠ .waitClientHello) : Entered env w a s := by
  refine ⟨fun h => absurd h hs, fun _ c' hc' ht' => ?_, hw⟩
  rw [hc] at hc'
  cases hc'
  exact absurd ht' ht

theorem during_handleServerHelloDone (peer : Option Addr) (state : DtlsState) (data : Ptr)
    (dataLength : Nat) (ht : c.data.uint8 ≠ dtlsHtClientKeyExchange) :
    Keeps (During env c) (handleServerHelloDone env peer state data dataLength) := by
  refine Keeps.ite (fun _ => keeps_pure _) fun _ => ?_
  cases peer with
  | none => exact keeps_pure _
  | some a =>
      refine (during_of_inner (inner_checkServerHellodone a data _)).bind fun err => ?_
      refine Keeps.ite (fun _ => keeps_pure _) fun _ => Keeps.bind ?_ fun _ => keeps_pure _
      exact during_setState fun w hc => entered_of_type hc ht nofun nofun

theorem during_handleCertificateVerify (peer : Option Addr) (state : DtlsState) (data : Ptr)
    (dataLength : Nat) (ht : c.data.uint8 ≠ dtlsHtClientKeyExchange) :
    Keeps (During env c) (handleCertificateVerify env peer state data dataLength) := by
  refine Keeps.ite (fun _ => keeps_pure _) fun _ => keeps_withHandshake peer fun a _ => ?_
  refine (during_of_inner (innerFrame.still.checkClientCertificateVerify a data _)).bind
    fun err => ?_
  refine Keeps.ite (fun _ => keeps_pure _) fun _ => ?_
  refine (during_of_inner (innerFrame.still.updateHsHash a _)).bind fun _ => Keeps.bind ?_
    fun _ => keeps_pure _
  exact during_setState fun w hc => entered_of_type hc ht nofun nofun

theorem checkFinished_eq_zero {p : Peer} {data : Ptr} {dataLength : Nat}
    (h : ¬ checkFinished env p data dataLength < 0) : checkFinished env p data dataLength = 0 := by
  unfold checkFinished at h ⊢
  split at h
  · exact absurd (dtlsAlertFatalCreate_neg _) h
  · rename_i hlen
    rw [if_neg hlen]
    cases hp : p.handshakeParams with
    | none =>
        simp only [hp] at h
        exact absurd (dtlsAlertFatalCreate_neg _) h
    | some hs =>
        simp only [hp] at h ⊢
        split at h
        · rename_i hv
          rw [if_pos hv]
        · exact absurd (dtlsAlertFatalCreate_neg _) h

theorem inner_answerFinished (a : Addr) (role : DtlsPeerType) (data : Ptr) (dataLength : Nat) :
    Keeps (Inner env) (answerFinished env a role data dataLength) := by
  refine Keeps.ite (fun _ => keeps_pure _) fun _ => ?_
  refine (innerFrame.still.updateHsHash a _).bind fun _ => ?_
  refine ((innerFrame.sender _).sendCcs).bind fun err =>
    Keeps.ite (fun _ => keeps_pure _) fun _ => ?_
  exact (inner_securityParamsSwitch a).bind fun _ => (innerFrame.sender _).sendFinished _

variable {peer : Option Addr} {role : DtlsPeerType} {state : DtlsState} {data : Ptr}
  {dataLength : Nat} {w : World}

/-- A branch that goes on from the handshake parameters it finds. -/
theorem inner_withHandshake {k : Addr → HandshakeParameters → M Outcome}
    (hk : ∀ a h, peer = some a → (w.heap a).handshakeParams = some h → Inner env w (k a h w).2) :
    Inner env w (withHandshake peer k w).2 := by
  cases peer with
  | none => exact Inner.rfl w
  | some a =>
      simp only [withHandshake, getPeer, Program.gets_bind]
      cases hp : (w.heap a).handshakeParams with
      | none => exact Inner.rfl w
      | some h => exact hk a h rfl hp

theorem inner_handleFinished
    (hc : currentMessage w.log = some ⟨peer, role, state, peer.map w.heap, data, dataLength⟩)
    (ht : data.uint8 = dtlsHtFinished) :
    Inner env w (handleFinished env peer role state data dataLength w).2 := by
  by_cases hstate : state ≠ .waitFinished
  · rw [handleFinished, if_pos hstate]
    exact Inner.rfl w
  rw [handleFinished, if_neg hstate]
  refine inner_withHandshake fun a h hpeer hp => ?_
  subst hpeer
  rw [getPeer, Program.gets_bind]
  by_cases hcheck : checkFinished env (w.heap a) data dataLength < 0
  · rw [if_pos hcheck]
    exact Inner.rfl w
  rw [if_neg hcheck]
  -- the rest of the branch, in any world that still handles this message
  have rest : Keeps (During env ⟨some a, role, state, some (w.heap a), data, dataLength⟩) (do
      let err ← answerFinished env a role data dataLength
      if err < 0 then pure (.ret err)
      else do
      modifyPeer a fun p => { p with handshakeParams := none }
      let _ ← dtlsTicks env
      setState a .connected
      pure (.ret err) : M Outcome) := by
    refine (during_of_inner (inner_answerFinished a role data _)).bind fun err => ?_
    refine Keeps.ite (fun _ => keeps_pure _) fun _ => ?_
    have none : FreshHandshake none := trivial
    refine (during_of_inner fun _ => innerFrame.params (.inl none)).bind fun _ => ?_
    refine (during_of_inner (innerFrame.still.ticks env)).bind fun _ => Keeps.bind ?_
      fun _ => keeps_pure _
    refine during_setState fun w' hw' => ⟨fun _ => ?_, fun h => ?_, fun h => ?_⟩
    · refine ⟨_, w.heap a, hw', rfl, rfl, ht, not_not.mp hstate, ?_, checkFinished_eq_zero hcheck⟩
      rw [hp, Option.isSome_some]
    · rcases h with h | h <;> cases h
    · cases h
  exact (rest w hc).1

/-- A write through the handshake parameters and a fixed result afterwards. -/
theorem modifyHandshake_pure_ok {α : Type} {a : Addr}
    {f : HandshakeParameters → HandshakeParameters} {w w' : World} {res err : α}
    (h : (modifyHandshake a f >>= fun _ => (pure res : M α)) w = (.ok err, w')) : err = res := by
  cases hp : (w.heap a).handshakeParams with
  | none =>
      rw [Program.bind_error (modifyHandshake_none f hp)] at h
      exact absurd (Prod.mk.inj h).1 nofun
  | some hs =>
      rw [Program.bind_ok (modifyHandshake_some f hp)] at h
      cases h
      rfl

theorem checkClientKeyExchange_ok {a : Addr} {h : HandshakeParameters} {w' : World} {err : Int}
    (hok : checkClientKeyExchange a h data dataLength w = (.ok err, w')) :
    err = keyExchangeError h.cipher data dataLength := by
  have done {res : Int} {w'' : World} (h : (pure res : M Int) w = (.ok err, w'')) : err = res := by
    cases h
    rfl
  unfold checkClientKeyExchange at hok
  unfold keyExchangeError
  by_cases hec : isTlsEcdheEcdsaWithAes128Ccm8 h.cipher
  · simp only [hec, if_true] at hok ⊢
    split at hok
    · rw [done hok, if_pos (by omega)]
    split at hok
    · rw [done hok, if_pos (by omega)]
    split at hok
    · rw [done hok, if_pos (by omega)]
    rw [modifyHandshake_pure_ok hok, if_neg (by omega)]
  by_cases hpsk : isTlsPskWithAes128Ccm8 h.cipher
  · simp only [hec, hpsk, if_true, if_false, Bool.false_eq_true] at hok ⊢
    split at hok
    · rw [done hok, if_pos (by omega)]
    split at hok
    · rw [done hok, if_pos (by omega)]
    split at hok
    · rename_i hlong
      rw [done hok, if_neg (by omega), if_pos hlong]
    · rename_i hlong
      rw [modifyHandshake_pure_ok hok, if_neg (by omega), if_neg hlong]
  · simp only [hec, hpsk, if_false, Bool.false_eq_true] at hok ⊢
    exact done hok

theorem keyExchanged_cases (h : HandshakeParameters) :
    keyExchanged env h = .waitCertificateVerify ∨ keyExchanged env h = .waitChangeCipherSpec := by
  unfold keyExchanged
  split
  · exact .inl rfl
  · exact .inr rfl

theorem during_takeTeslaSync (hash : Digest) (verified : Option Nat) (hk : c.IsKeyExchange) :
    Keeps (During env c) (takeTeslaSync (readTeslaSync (c.data.add (teslaSyncOffset c.dataLength)))
      (keyExchangeKey c.data c.dataLength) hash verified) := by
  intro w hc
  have step := @Step.verify env w c
    (teslaRtt (readTeslaSync (c.data.add (teslaSyncOffset c.dataLength))) w.tR) hash verified hc hk
  -- what is stored does not matter from here on
  generalize readTeslaSync (c.data.add (teslaSyncOffset c.dataLength)) = tsync at step ⊢
  generalize keyExchangeKey c.data c.dataLength = pk at step ⊢
  exact ⟨step.event rfl trivial, hc⟩

theorem inner_handleClientKeyExchange
    (hc : currentMessage w.log = some ⟨peer, role, state, peer.map w.heap, data, dataLength⟩)
    (ht : data.uint8 = dtlsHtClientKeyExchange) :
    Inner env w (handleClientKeyExchange env peer state data dataLength w).2 := by
  by_cases hstate : state ≠ .waitClientKeyExchange
  · rw [handleClientKeyExchange, if_pos hstate]
    exact Inner.rfl w
  rw [handleClientKeyExchange, if_neg hstate]
  refine inner_withHandshake fun a h hpeer hp => ?_
  subst hpeer
  refine Program.bind_keeps_from ((quietTacit.still.checkClientKeyExchange a h data dataLength).mono
    (fun _ _ => Quiet.inner) w) fun err w₁ hok => ?_
  have herr := checkClientKeyExchange_ok hok
  have hc₁ : currentMessage w₁.log
      = some ⟨some a, role, state, some (w.heap a), data, dataLength⟩ := by
    have := @Quiet.inner env _ _ (quietTacit.still.checkClientKeyExchange a h data dataLength w)
    rw [hok] at this
    exact this.message.trans hc
  have rest (hash : Digest) (verified : Option Nat) :
      Keeps (During env ⟨some a, role, state, some (w.heap a), data, dataLength⟩) (do
        takeTeslaSync (readTeslaSync (data.add (teslaSyncOffset dataLength)))
          (keyExchangeKey data dataLength) hash verified
        if err < 0 then pure (.ret err)
        else do
        updateHsHash a (data.bytes dataLength)
        let h ← getHandshake a
        setState a (keyExchanged env h)
        pure (.done (some a) err) : M Outcome) := by
    refine (during_takeTeslaSync (c := ⟨some a, role, state, some (w.heap a), data, dataLength⟩) hash
      verified ⟨ht, not_not.mp hstate⟩).bind fun _ => ?_
    refine Keeps.ite (fun _ => keeps_pure _) fun hneg => ?_
    refine (during_of_inner (innerFrame.still.updateHsHash a _)).bind fun _ => ?_
    refine (during_of_inner (innerFrame.still.getHandshake a)).bind fun hs => Keeps.bind ?_
      fun _ => keeps_pure _
    refine during_setState fun w' hw' => ⟨fun hconn => ?_, fun _ c hc' _ => ?_, fun hwait => ?_⟩
    · cases @keyExchanged_cases env hs with
      | inl hk => exact absurd (hk.symm.trans hconn) nofun
      | inr hk => exact absurd (hk.symm.trans hconn) nofun
    · have hw' : currentMessage w'.log = _ := hw'
      rw [hw'] at hc'
      cases hc'
      rw [herr] at hneg
      exact ⟨⟨ht, not_not.mp hstate⟩, rfl, w.heap a, h, rfl, hp, not_lt.mp hneg⟩
    · cases @keyExchanged_cases env hs with
      | inl hk => exact absurd (hk.symm.trans hwait) nofun
      | inr hk => exact absurd (hk.symm.trans hwait) nofun
  exact (rest _ _ _ hc₁).1

/-! ## `handle_handshake_msg` -/

theorem inner_dispatchMessage (session : Session)
    (hc : currentMessage w.log = some ⟨peer, role, state, peer.map w.heap, data, dataLength⟩) :
    Inner env w (dispatchMessage env peer session role state data dataLength w).2 := by
  have other (ht : data.uint8 ≠ dtlsHtClientKeyExchange) {m : M Outcome}
      (hm : Keeps (During env ⟨peer, role, state, peer.map w.heap, data, dataLength⟩) m) :
      Inner env w (m w).2 := (hm w hc).1
  unfold dispatchMessage
  split
  · exact (innerFrame.answer _).handleHelloVerifyRequest _ _ _ w
  split
  · exact innerFrame.handler.handleServerHello _ _ _ _ w
  split
  · exact innerFrame.handler.handleCertificate _ _ _ _ _ w
  split
  · exact innerFrame.handler.handleServerKeyExchange _ _ _ _ w
  split
  · rename_i ht
    have ht : data.uint8 ≠ dtlsHtClientKeyExchange := by rw [ht]; decide
    exact other ht (during_handleServerHelloDone peer state data dataLength ht)
  split
  · exact innerFrame.handler.handleCertificateRequest _ _ _ _ w
  split
  · rename_i ht
    exact inner_handleFinished hc ht
  split
  · rename_i ht
    exact inner_handleClientKeyExchange hc ht
  split
  · rename_i ht
    have ht : data.uint8 ≠ dtlsHtClientKeyExchange := by rw [ht]; decide
    exact other ht (during_handleCertificateVerify peer state data dataLength ht)
  split
  · exact innerFrame.handleClientHello _ _ _ _ _ w
  split
  · exact (innerFrame.answer _).handleHelloRequest _ w
  · exact Inner.rfl w

/-- Steps inside the handling of a record. -/
structure Within (env : Env) (w w' : World) : Prop where
  steps : Steps env w w'
  record : currentRecord w'.log = currentRecord w.log

instance : IsPreorder World (Within env) where
  refl _ := ⟨.refl, rfl⟩
  trans _ _ _ h h' := ⟨h.steps.trans h'.steps, h'.record.trans h.record⟩

theorem Inner.within {w w' : World} (h : Inner env w w') : Within env w w' :=
  ⟨h.steps, h.record⟩

theorem within_of_inner {α : Type} {m : M α} (h : Keeps (Inner env) m) : Keeps (Within env) m :=
  h.mono fun _ _ => Inner.within

/-- The queue of sent packets is no part of a peer. -/
theorem stopRetransmissionOf_ok {w w' : World}
    (h : stopRetransmissionOf peer w = (.ok (), w')) : w'.heap = w.heap ∧ w'.log = w.log := by
  cases peer with
  | none =>
      cases h
      exact ⟨rfl, rfl⟩
  | some a =>
      simp only [stopRetransmissionOf, dtlsStopRetransmission, Program.get_bind] at h
      split at h
      · cases h
      · cases h
        exact ⟨rfl, rfl⟩

/-- After the event of the message, its handling is inside it. -/
theorem inner_handleHandshakeMsg (session : Session) :
    Inner env (w.emitted (.message ⟨peer, role, state, peer.map w.heap, data, dataLength⟩))
      (handleHandshakeMsg env peer session role state data dataLength w).2 := by
  rw [handleHandshakeMsg, Program.gets_bind, emit_bind]
  refine Program.bind_keeps_from (innerFrame.stopRetransmissionOf peer _) fun _ w' hw' => ?_
  obtain ⟨heap, log⟩ := stopRetransmissionOf_ok hw'
  refine Program.bind_keeps_from (inner_dispatchMessage session ?_) fun o w₁ _ => ?_
  · rw [log, heap]
    rfl
  · exact ((innerFrame.handler.finishMessage o).bind fun res => Keeps.bind
      (fun w => (Step.handled w res).event rfl trivial) fun _ => keeps_pure _) w₁

theorem within_handleHandshakeMsg (session : Session)
    (ho : ∀ before, Origin env w ⟨peer, role, state, before, data, dataLength⟩) :
    Within env w (handleHandshakeMsg env peer session role state data dataLength w).2 := by
  have message : Within env w
      (w.emitted (.message ⟨peer, role, state, peer.map w.heap, data, dataLength⟩)) :=
    ⟨(Step.message w _ rfl (ho _)).steps, rfl⟩
  exact trans_of (Within env) message (inner_handleHandshakeMsg session).within

end PqDtls.Dtls
