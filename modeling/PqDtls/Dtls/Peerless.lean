import PqDtls.Dtls.Stops

/-! # Messages without a handshake

    `handle_handshake` for a peer that is not known, or that has no handshake
    parameters.  The check for both stands behind the branch for fragments, which
    uses them: **`peerless_safe`** says for which messages a NULL pointer is read. -/

namespace PqDtls.Dtls

open Program (get gets modify stop ofOption when Confined ConfinedFrom confined_pure
  confinedFrom_pure confined_gets)

variable {env : Env} {w w' : World} {a : Addr} {peer : Option Addr} {session : Session}
  {role : DtlsPeerType} {state : DtlsState} {data : Ptr} {dataLength : Nat}
  {header : HandshakeHeader}

/-! ## Where a pointer is read -/

/-- The fragments that get as far as the reassembly buffer: the first one of a known
    peer needs storage before its parameters are used. -/
structure FragmentDeref (env : Env) (w : World) (peer : Option Addr) (header : HandshakeHeader) :
    Prop where
  part : header.fragmentLength < header.length
  max : header.length ≤ dtlsMaxBuf
  inside : header.fragmentOffset + header.fragmentLength ≤ header.length
  used : peer = none ∨ header.fragmentOffset ≠ 0 ∨ env.malloc w.tick = true

/-- The messages that start a handshake of a known peer; the search for its packets in
    the queue looks at the peer of every packet. -/
structure OrphanDeref (w : World) (peer : Option Addr) (header : HandshakeHeader) : Prop where
  whole : header.length ≤ header.fragmentLength
  known : peer.isSome = true
  type : header.msgType = dtlsHtClientHello ∨ header.msgType = dtlsHtHelloRequest
  orphan : ¬ Owned w.sendqueue

/-- No peer, or one without handshake parameters. -/
def Peerless (w : World) (peer : Option Addr) : Prop :=
  ∀ a, peer = some a → (w.heap a).handshakeParams = none

/-! ## Fragments -/

theorem freeReassembleBuffer_absent (hp : (w.heap a).handshakeParams = none) :
    dtlsFreeReassembleBuffer a w = (.ok (), w) := by
  rw [dtlsFreeReassembleBuffer, getPeer_bind, hp]
  rfl

/-- Without parameters there is storage for no buffer, or the pointer is used. -/
theorem initReassembleBuffer_absent (hp : (w.heap a).handshakeParams = none) (n : Nat) :
    (env.malloc w.tick = false ∧ dtlsInitReassembleBuffer env a n w = (.ok false, w.asked)) ∨
      (env.malloc w.tick = true ∧
        ∃ w', dtlsInitReassembleBuffer env a n w = (.error .nullDeref, w')) := by
  rw [dtlsInitReassembleBuffer, nextTick_bind]
  cases env.malloc w.tick with
  | false => exact .inl ⟨rfl, rfl⟩
  | true =>
      refine .inr ⟨rfl, ?_⟩
      simp only [Bool.not_true, Bool.false_eq_true, if_false, malloc_bind]
      have absent : (w.asked.asked.heap a).handshakeParams = none := hp
      cases env.malloc w.asked.tick with
      | false => exact ⟨_, Program.bind_error (modifyHandshake_none _ absent) _⟩
      | true => exact ⟨_, Program.bind_error (modifyHandshake_none _ absent) _⟩

theorem getHandshake_absent (hp : (w.heap a).handshakeParams = none) :
    getHandshake a w = (.error .nullDeref, w) := by
  rw [getHandshake, getPeer_bind, hp]
  rfl

/-- **FRAGMENTS**: without parameters, a fragment is refused, or a pointer is read. -/
theorem reassemble_absent (habs : Peerless w peer)
    (hpart : header.fragmentLength < header.length) :
    (FragmentDeref env w peer header ∧
        ∃ w', reassemble env peer header data dataLength w = (.error .nullDeref, w')) ∨
      (¬ FragmentDeref env w peer header ∧
        ∃ err w', reassemble env peer header data dataLength w = (.ok (.error err), w')) := by
  unfold reassemble
  by_cases hmax : header.length > dtlsMaxBuf
  · rw [if_pos hmax]
    exact .inr ⟨fun d => absurd d.max (not_le.mpr hmax), _, _, rfl⟩
  rw [if_neg hmax]
  by_cases hin : header.fragmentOffset + header.fragmentLength > header.length
  · rw [if_pos hin]
    exact .inr ⟨fun d => absurd d.inside (not_le.mpr hin), _, _, rfl⟩
  rw [if_neg hin]
  have hmax := not_lt.mp hmax
  have hin := not_lt.mp hin
  cases peer with
  | none => exact .inl ⟨⟨hpart, hmax, hin, .inl rfl⟩, w, rfl⟩
  | some a =>
      have hp := habs a rfl
      rw [ofOption, pure_bind, firstFragment]
      by_cases hfirst : header.fragmentOffset = 0
      · rw [if_pos hfirst, bind_assoc, Program.bind_ok (freeReassembleBuffer_absent hp)]
        rcases @initReassembleBuffer_absent env _ _ hp header.length with
          ⟨hm, hrun⟩ | ⟨hm, w', hrun⟩
        · refine .inr ⟨fun d => ?_, _, _, Program.bind_ok hrun _⟩
          rcases d.used with h | h | h
          · cases h
          · exact h hfirst
          · rw [hm] at h
            cases h
        · exact .inl ⟨⟨hpart, hmax, hin, .inr (.inr hm)⟩, w', Program.bind_error hrun _⟩
      · rw [if_neg hfirst, pure_bind]
        simp only [Bool.not_true, Bool.false_eq_true, if_false]
        exact .inl ⟨⟨hpart, hmax, hin, .inr (.inl hfirst)⟩, w,
          Program.bind_error (getHandshake_absent hp) _⟩

/-! ## Whole messages -/

/-- From `w`, `m` reads no NULL pointer. -/
def Safe {α : Type} (m : M α) (w : World) : Prop :=
  ConfinedFrom .nullDeref (fun _ => False) (Suited fun _ => True) m w

theorem safe_of_ok {α : Type} {m : M α} {r : α} (h : m w = (.ok r, w')) : Safe m w :=
  ⟨fun he => absurd (h ▸ he) nofun, trivial⟩

/-- The invariant of a handshake that has been started. -/
def Started (a : Addr) (v : Suites) : Prop := (v a).2.isSome = true

theorem guard_started (a : Addr) : Guard .nullDeref (Started a) a := fun _ _ => id

theorem free_started (a : Addr) : Free (Started a) a := by
  intro v c _
  rw [Started, Function.update_self]
  rfl

theorem safe_acceptClientHello (a : Addr) (data : Ptr) (dataLength : Nat) :
    Safe (acceptClientHello env a data dataLength) w := by
  obtain ⟨found, c, w', hrun, hsuites⟩ :=
    ensureHandshake_suites env a (handshakeHeader data).messageSeq 1 w
  rw [acceptClientHello_eq]
  refine ConfinedFrom.bind (safe_of_ok hrun) (fun _ => id) fun b w₁ hok _ => ?_
  cases hrun.symm.trans hok
  cases found with
  | false => exact confinedFrom_pure trivial
  | true =>
      have bounds : Crash.nullDeref ≠ .outOfBounds := nofun
      refine confined_beginHandshake bounds (guard_started a) (free_started a) nofun nofun
        (fun _ _ => trivial) (fun _ _ _ _ => trivial) ?_
      rw [Started, hsuites, Function.update_self]
      rfl

theorem safe_handleClientHello (peer : Option Addr) (session : Session) (state : DtlsState)
    (data : Ptr) (dataLength : Nat) :
    Safe (handleClientHello env peer session state data dataLength) w := by
  refine ConfinedFrom.ite (fun _ => confinedFrom_pure trivial) fun _ => ?_
  have bounds : Crash.nullDeref ≠ .outOfBounds := nofun
  have free : Crash.nullDeref ≠ .doubleFree := nofun
  have anything : Suited (fun _ => True) w := trivial
  refine (confined_verifyPeer bounds peer session state data dataLength w anything).bind
    (fun _ => id) fun err w₁ _ hw₁ => ?_
  refine ConfinedFrom.ite (fun _ => confinedFrom_pure trivial) fun _ => ?_
  refine ConfinedFrom.ite (fun _ => confinedFrom_pure trivial) fun _ => ?_
  refine (confined_dropPeer free peer state w₁ hw₁).bind (fun _ => id) fun kept w₂ _ hw₂ => ?_
  refine (confined_serverPeer (fun _ _ => id) kept session w₂ hw₂).bind (fun _ => id)
    fun new w₃ _ _ => ?_
  cases new with
  | none => exact confinedFrom_pure trivial
  | some a => exact safe_acceptClientHello a data dataLength

theorem safe_handleHelloRequest (peer : Option Addr) (state : DtlsState) :
    Safe (handleHelloRequest env peer state) w := by
  refine ConfinedFrom.ite (fun _ => confinedFrom_pure trivial) fun _ => ?_
  cases peer with
  | none => exact confinedFrom_pure trivial
  | some a =>
      obtain ⟨found, c, w', hrun, hsuites⟩ := ensureHandshake_suites env a 0 0 w
      refine ConfinedFrom.bind (safe_of_ok hrun) (fun _ => id) fun b w₁ hok _ => ?_
      cases hrun.symm.trans hok
      cases found with
      | false => exact confinedFrom_pure trivial
      | true =>
          have started : Started a w'.suites := by
            rw [Started, hsuites, Function.update_self]
            rfl
          refine (confined_sendClientHello (guard_started a) [] w' started).bind
            (fun _ _ => trivial) fun err w₂ _ _ => ?_
          exact ConfinedFrom.ite (fun _ => confinedFrom_pure trivial) fun _ =>
            confined_enter _ trivial

/-- **WHOLE MESSAGES**: only the queue of sent packets can hold a NULL pointer. -/
theorem safe_handleHandshakeMsg (peer : Option Addr) (session : Session) (role : DtlsPeerType)
    (state : DtlsState) (data : Ptr) (dataLength : Nat)
    (ht : data.uint8 = dtlsHtClientHello ∨ data.uint8 = dtlsHtHelloRequest)
    (hq : peer.isSome = true → Owned w.sendqueue) :
    Safe (handleHandshakeMsg env peer session role state data dataLength) w := by
  have stopped : ∃ w', stopRetransmissionOf peer
      (w.emitted (.message ⟨peer, role, state, peer.map w.heap, data, dataLength⟩))
        = (.ok (), w') := by
    cases peer with
    | none => exact ⟨_, rfl⟩
    | some a =>
        obtain ⟨q, hrun⟩ := stopRetransmission_ok (a := a) (w := w.emitted
          (.message ⟨some a, role, state, some (w.heap a), data, dataLength⟩)) (hq rfl)
        exact ⟨_, hrun⟩
  obtain ⟨w', hstopped⟩ := stopped
  have dispatched (w : World) :
      Safe (dispatchMessage env peer session role state data dataLength) w := by
    unfold dispatchMessage
    rcases ht with ht | ht <;> rw [ht]
    · exact safe_handleClientHello peer session state data dataLength
    · exact safe_handleHelloRequest peer state
  unfold Safe handleHandshakeMsg
  refine ConfinedFrom.bind (safe_of_ok rfl) (fun _ => id) fun before w₁ hok _ => ?_
  cases hok
  refine ConfinedFrom.bind (safe_of_ok rfl) (fun _ => id) fun _ w₁ hok _ => ?_
  cases hok
  refine ConfinedFrom.bind (safe_of_ok hstopped) (fun _ => id) fun _ w₁ _ _ => ?_
  refine ConfinedFrom.bind (dispatched w₁) (fun _ => id) fun o w₂ _ hw₂ => ?_
  refine (confined_finishMessage o w₂ hw₂).bind (fun _ => id) fun res w₃ _ hw₃ => ?_
  exact (confined_emit _ w₃ hw₃).bind (fun _ => id) fun _ w₄ _ hw₄ => confinedFrom_pure hw₄

theorem handleHandshakeMsg_orphan (a : Addr) (session : Session) (role : DtlsPeerType)
    (state : DtlsState) (data : Ptr) (dataLength : Nat) (hq : ¬ Owned w.sendqueue) :
    (handleHandshakeMsg env (some a) session role state data dataLength w).1
      = .error .nullDeref := by
  have stopped := stopRetransmission_orphan (a := a) (w := w.emitted
    (.message ⟨some a, role, state, some (w.heap a), data, dataLength⟩)) hq
  rw [handleHandshakeMsg, Program.gets_bind, emit_bind]
  exact congrArg Prod.fst (Program.bind_error stopped _)

theorem handleWhole_absent (habs : Peerless w peer) :
    handleWhole env peer session role state data dataLength w
      = handleOutside env peer session role state data dataLength w := by
  cases peer with
  | none => rfl
  | some a => rw [handleWhole, getPeer_bind, habs a rfl]

theorem handleOutside_safe (hwhole : (handshakeHeader data).length
      ≤ (handshakeHeader data).fragmentLength) :
    (handleOutside env peer session role state data dataLength w).1 ≠ .error .nullDeref ↔
      ¬ OrphanDeref w peer (handshakeHeader data) := by
  have returns {m : M Int} {res : Int} (h : m w = (.ok res, w)) : (m w).1 ≠ .error .nullDeref := by
    rw [h]
    exact nofun
  unfold handleOutside
  by_cases hinit : (handshakeHeader data).msgType ≠ dtlsHtClientHello ∧ peer.isNone
  · simp only [if_pos hinit]
    refine ⟨fun _ d => ?_, fun _ => returns rfl⟩
    rw [Option.isNone_iff_eq_none] at hinit
    rw [hinit.2] at d
    exact nomatch d.known
  simp only [if_neg hinit]
  by_cases ht : (handshakeHeader data).msgType = dtlsHtClientHello ∨
      (handshakeHeader data).msgType = dtlsHtHelloRequest
  · simp only [if_pos ht]
    by_cases horphan : OrphanDeref w peer (handshakeHeader data)
    · refine ⟨fun h => absurd ?_ h, fun h => absurd horphan h⟩
      obtain ⟨a, rfl⟩ := Option.isSome_iff_exists.mp horphan.known
      exact handleHandshakeMsg_orphan a session role state data dataLength horphan.orphan
    · refine ⟨fun _ => horphan, fun _ he => ?_⟩
      refine (safe_handleHandshakeMsg peer session role state data dataLength ht fun hk => ?_).1 he
      by_contra hq
      exact horphan ⟨hwhole, hk, ht, hq⟩
  · simp only [if_neg ht]
    exact ⟨fun _ d => ht d.type, fun _ => returns rfl⟩

/-! ## `handle_handshake` -/

/-- **WITHOUT A HANDSHAKE**: a message for an unknown peer, or one without handshake
    parameters, is handled without a NULL pointer exactly when it is not a fragment that
    reaches the reassembly buffer, and does not find a packet without a peer. -/
theorem peerless_safe (hlen : dtlsHsLength ≤ dataLength) (habs : Peerless w peer) :
    (handleHandshake env peer session role state data dataLength w).1 ≠ .error .nullDeref ↔
      ¬ FragmentDeref env w peer (handshakeHeader data) ∧
        ¬ OrphanDeref w peer (handshakeHeader data) := by
  rw [handleHandshake, if_neg (not_lt.mpr hlen)]
  by_cases hpart : (handshakeHeader data).length > (handshakeHeader data).fragmentLength
  · rw [if_pos hpart]
    have whole : ¬ OrphanDeref w peer (handshakeHeader data) :=
      fun d => absurd d.whole (not_le.mpr hpart)
    rcases @reassemble_absent env _ _ data dataLength _ habs hpart with
      ⟨hderef, w', hrun⟩ | ⟨hno, err, w', hrun⟩
    · rw [Program.bind_error hrun]
      exact ⟨fun h => absurd rfl h, fun h => absurd hderef h.1⟩
    · rw [Program.bind_ok hrun]
      exact ⟨fun _ => ⟨hno, whole⟩, fun _ => nofun⟩
  · rw [if_neg hpart, handleWhole_absent habs, handleOutside_safe (not_lt.mp hpart)]
    exact ⟨fun h => ⟨fun d => hpart d.part, h⟩, fun h => h.2⟩

/-- A ClientHello of two bytes, of which the first one comes. -/
def helloFragment : Ptr := Ptr.ofBytes [1, 0, 0, 2, 0, 0, 0, 0, 0, 0, 0, 1, 0]

theorem peerless_safe_fragment :
    (handleHandshake sampleEnv none (sampleSession 0) .server .waitClientHello helloFragment 13
        sampleWorld).1 ≠ .error .nullDeref ↔
      ¬ FragmentDeref sampleEnv sampleWorld none (handshakeHeader helloFragment) ∧
        ¬ OrphanDeref sampleWorld none (handshakeHeader helloFragment) :=
  peerless_safe (by decide) nofun

/-- One datagram with such a fragment, from anywhere, and the server reads through NULL. -/
theorem peerless_deref :
    ¬ ∀ (env : Env) (w : World) (peer : Option Addr) (session : Session) (role : DtlsPeerType)
        (state : DtlsState) (data : Ptr) (dataLength : Nat), dtlsHsLength ≤ dataLength →
        Peerless w peer →
        (handleHandshake env peer session role state data dataLength w).1 ≠ .error .nullDeref := by
  intro h
  exact h sampleEnv sampleWorld none (sampleSession 0) .server .waitClientHello helloFragment 13
    (by decide) nofun rfl

/-- The same fragment in a datagram. -/
example : (runInputs sampleEnv [arrival (sampleSession 0) (fragmentRecord dtlsHtClientHello
    2 0 0 1 [0])] sampleWorld).1 = .error .nullDeref := rfl

end PqDtls.Dtls
