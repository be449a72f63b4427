import PqDtls.Dtls.Codec

/-! # Stops of the engine

    Where a function can stop with a NULL pointer or a failed assertion, as far as
    that depends on two things a peer has: its state, and the cipher suite of its
    handshake, if there is one.  `Suited P` is an invariant of these; one lemma a
    function says that it is kept, and that the stop is confined to where the
    function before it left that open. -/

namespace PqDtls.Dtls

open Program (get gets modify stop ofOption when Keeps Confined ConfinedFrom keeps_pure
  confined_pure confinedFrom_pure confined_get confined_gets confined_stop confined_ofOption
  confined_modify)

variable {env : Env} {α : Type} {w w' : World} {a : Addr}

/-! ## States and suites -/

/-- The states of all peers and the suites of their handshakes. -/
abbrev Suites := Addr → DtlsState × Option Nat

def Peer.suite (p : Peer) : DtlsState × Option Nat :=
  (p.state, p.handshakeParams.map (·.cipher))

def World.suites (w : World) : Suites := fun b => (w.heap b).suite

/-- An invariant of states and suites. -/
def Suited (P : Suites → Prop) (w : World) : Prop := P w.suites

theorem suites_setPeer (w : World) (a : Addr) (p : Peer) :
    (w.setPeer a p).suites = Function.update w.suites a p.suite := by
  funext b
  by_cases hb : b = a
  · subst hb
    rw [Function.update_self, World.suites, heap_setPeer]
  · rw [Function.update_of_ne hb, World.suites, heap_setPeer_ne p hb]
    rfl

theorem suites_params {h : HandshakeParameters} (hp : (w.heap a).handshakeParams = some h) :
    (w.suites a).2 = some h.cipher := by
  rw [World.suites, Peer.suite, hp, Option.map_some]

/-- A write to a peer that leaves its state and its suite alone. -/
theorem suites_setPeer_same {p : Peer} (h : p.suite = (w.heap a).suite) :
    (w.setPeer a p).suites = w.suites := by
  rw [suites_setPeer, h]
  exact Function.update_eq_self a w.suites

theorem suite_of_core {p p' : Peer} (h : p'.core = p.core) : p'.suite = p.suite := by
  have state : p'.state = p.state := congrArg PeerCore.state h
  have params : p'.handshakeParams.map HandshakeParameters.core
      = p.handshakeParams.map HandshakeParameters.core := congrArg PeerCore.handshake h
  have cipher (p : Peer) : p.handshakeParams.map (·.cipher)
      = (p.handshakeParams.map HandshakeParameters.core).map HandshakeCore.cipher := by
    rw [Option.map_map]
    rfl
  rw [Peer.suite, Peer.suite, state, cipher, cipher, params]

theorem Quiet.suites (q : Quiet w w') : w'.suites = w.suites :=
  funext fun b => suite_of_core (q.heap b)

/-! ## The rules -/

variable {e : Crash} {X : World → Prop} {P : Suites → Prop} {m : M α}

/-- A function inside the frame, by what is known of its stops. -/
theorem confined_of_quiet (hq : Keeps Quiet m) (hm : ∀ w, P w.suites → (m w).1 ≠ .error e) :
    Confined e X (Suited P) m := by
  refine Confined.of_keeps hq (fun w w' q h => ?_) hm
  rw [Suited, q.suites]
  exact h

theorem confined_modifyPeer {f : Peer → Peer} (h : ∀ p, (f p).suite = p.suite) :
    Confined e X (Suited P) (modifyPeer a f) := by
  refine confined_modify fun w hw => ?_
  rw [Suited, suites_setPeer_same (h _)]
  exact hw

theorem confined_nextTick : Confined e X (Suited P) nextTick := fun _ hw => ⟨nofun, hw⟩

theorem confined_emit (ev : Event) : Confined e X (Suited P) (emit ev) := fun _ hw => ⟨nofun, hw⟩

theorem confined_fillRandom (n : Nat) : Confined e X (Suited P) (dtlsFillRandom env n) :=
  confined_nextTick.bind fun _ => confined_pure _

theorem confined_ticks : Confined e X (Suited P) (dtlsTicks env) :=
  confined_nextTick.bind fun _ => confined_pure _

theorem confined_timeofday : Confined e X (Suited P) (gettimeofday env) :=
  confined_nextTick.bind fun _ => confined_pure _

theorem confined_malloc : Confined e X (Suited P) (malloc env) :=
  confined_nextTick.bind fun _ => confined_pure _

theorem confined_callGetPskInfo (session : Session) (type : CredentialsType) (desc : Bytes)
    (n : Nat) : Confined e X (Suited P) (callGetPskInfo env session type desc n) :=
  confined_nextTick.bind fun _ => by cases env.getPskInfo <;> exact confined_pure _

/-- A write to the globals. -/
theorem confined_globals {f : World → World} (heap : ∀ w, (f w).heap = w.heap) :
    Confined e X (Suited P) (modify f : M Unit) := by
  refine confined_modify fun w hw => ?_
  have same : (f w).suites = w.suites := by
    funext b
    show ((f w).heap b).suite = (w.heap b).suite
    rw [heap]
  rw [Suited, same]
  exact hw

/-- Only a stop with an assertion depends on `c`. -/
theorem confined_assertThat {c : Prop} [Decidable c] (h : e = .assertFailed → c) :
    Confined e X (Suited P) (assertThat c) := by
  refine Confined.ite (fun _ => confined_pure ()) fun hc => confined_stop ?_
  rintro rfl
  exact hc (h rfl)

/-- A stop at a NULL `handshake_params` of `a` does not count, or `P` excludes it. -/
def Guard (e : Crash) (P : Suites → Prop) (a : Addr) : Prop :=
  e = .nullDeref → ∀ v, P v → (v a).2.isSome = true

theorem Guard.params (g : Guard e P a) (he : e = .nullDeref) (hw : P w.suites) :
    ∃ h, (w.heap a).handshakeParams = some h := by
  have hs : ((w.heap a).handshakeParams.map (·.cipher)).isSome = true := g he _ hw
  rw [Option.isSome_map] at hs
  exact Option.isSome_iff_exists.mp hs

theorem confined_getHandshake (g : Guard e P a) : Confined e X (Suited P) (getHandshake a) := by
  refine confined_of_quiet (quietTacit.still.getHandshake a) fun w hw he => ?_
  cases hp : (w.heap a).handshakeParams with
  | some h =>
      rw [getHandshake_apply hp] at he
      cases he
  | none =>
      simp only [getHandshake, getPeer_bind, hp, ofOption, Program.stop_apply] at he
      obtain ⟨h, hs⟩ := g.params (Except.error.inj he).symm hw
      rw [hp] at hs
      cases hs

/-- The suites after a write through `handshake_params`. -/
theorem suites_modifyHandshake {f : HandshakeParameters → HandshakeParameters}
    {h : HandshakeParameters} (hp : (w.heap a).handshakeParams = some h) :
    (modifyHandshake a f w).2.suites
      = Function.update w.suites a ((w.suites a).1, some (f h).cipher) := by
  rw [modifyHandshake_some f hp, suites_setPeer]
  rfl

/-- A write through `handshake_params`; the new suite has to fit. -/
theorem confined_writeHandshake {f : HandshakeParameters → HandshakeParameters}
    (g : Guard e P a)
    (hf : ∀ v h, P v → (v a).2 = some h.cipher →
      P (Function.update v a ((v a).1, some (f h).cipher))) :
    Confined e X (Suited P) (modifyHandshake a f) := by
  intro w hw
  cases hp : (w.heap a).handshakeParams with
  | none =>
      rw [ConfinedFrom, modifyHandshake_none f hp]
      refine ⟨fun he => ?_, hw⟩
      obtain ⟨h, hs⟩ := g.params (Except.error.inj he).symm hw
      rw [hp] at hs
      exact nomatch hs
  | some h =>
      refine ⟨fun he => ?_, ?_⟩
      · rw [modifyHandshake_some f hp] at he
        exact nomatch he
      · rw [Suited, suites_modifyHandshake hp]
        exact hf _ _ hw (suites_params hp)

/-- A write that leaves the suite alone. -/
theorem confined_modifyHandshake {f : HandshakeParameters → HandshakeParameters}
    (g : Guard e P a) (hf : ∀ h, (f h).cipher = h.cipher) :
    Confined e X (Suited P) (modifyHandshake a f) := by
  refine confined_writeHandshake g fun v h hv hc => ?_
  rw [hf, ← hc]
  exact (Function.update_eq_self a v).symm ▸ hv

/-- Such a write, in front of a program. -/
theorem confined_modifyHandshake_bind {f : HandshakeParameters → HandshakeParameters}
    {k : Unit → M α} (g : Guard e P a) (hf : ∀ h, (f h).cipher = h.cipher)
    (hk : ∀ u, Confined e X (Suited P) (k u)) :
    Confined e X (Suited P) (modifyHandshake a f >>= k) :=
  (confined_modifyHandshake g hf).bind hk

theorem cipher_writeTmp (h : HandshakeParameters) (off : Nat) (b : Bytes) :
    (h.writeTmp off b).cipher = h.cipher := by
  simp only [HandshakeParameters.writeTmp]

/-! ## Sending -/

/-- Sending a handshake message stops at a NULL `handshake_params` at most, and that when
    the message is hashed. -/
theorem confined_sendHandshakeMsgHash {peer : Option Addr} {session : Session} {type : Nat}
    {data : Bytes} {addHash : Bool} (g : addHash = true → ∃ a, peer = some a ∧ Guard e P a) :
    Confined e X (Suited P) (dtlsSendHandshakeMsgHash env peer session type data addHash) := by
  refine confined_of_quiet (((quietFrame env).sender _).sendHandshakeMsgHash _ _ _ _)
    fun w hw he => ?_
  by_cases hash : CanHash w peer addHash
  · obtain ⟨r, w', hrun, -⟩ := @sendHandshakeMsgHash_eq env peer session type data addHash _ hash
    rw [hrun] at he
    cases he
  · obtain ⟨hadd, hnone⟩ := Classical.not_imp.mp hash
    obtain ⟨a, rfl, ga⟩ := g hadd
    have params : (w.heap a).handshakeParams = none := by
      cases hp : (w.heap a).handshakeParams with
      | none => rfl
      | some h => exact absurd ⟨a, h, rfl, hp⟩ hnone
    -- the hash is what stops it
    have stop : dtlsSendHandshakeMsgHash env (some a) session type data addHash w
        = (.error .nullDeref, w) := by
      have hashed : hashMessage type (some a) data w = (.error .nullDeref, w) := by
        rw [hashMessage, Program.bind_ok (setHandshakeHeader_eq _ _ _ _ _ _ _)]
        exact modifyHandshake_none _ params
      rw [dtlsSendHandshakeMsgHash, hadd]
      exact Program.bind_error hashed _
    rw [stop] at he
    obtain ⟨h, hs⟩ := ga.params (Except.error.inj he).symm hw
    rw [params] at hs
    cases hs

theorem confined_sendHandshakeMsg {type : Nat} {data : Bytes} (g : Guard e P a) :
    Confined e X (Suited P) (dtlsSendHandshakeMsg env a type data) :=
  (confined_gets _).bind fun _ => confined_sendHandshakeMsgHash fun _ => ⟨a, rfl, g⟩

/-! ## Hello messages -/

theorem confined_updateHsHash (g : Guard e P a) (data : Bytes) :
    Confined e X (Suited P) (updateHsHash a data) := confined_modifyHandshake g fun _ => rfl

theorem confined_clearHsHash (g : Guard e P a) : Confined e X (Suited P) (clearHsHash a) :=
  confined_modifyHandshake g fun _ => rfl

/-- The ClientHello fits into its buffer. -/
theorem length_clientHello (h : HandshakeParameters) {cookie : Bytes}
    (hc : cookie.length ≤ dtlsCookieLengthMax) :
    (clientHello env h cookie).length ≤ dtlsChLengthMax := by
  have random : h.randomClient.length = 32 := by
    rw [HandshakeParameters.randomClient, List.length_take, Vector.length_toList]
    rfl
  -- two suites at most
  have suites : (offeredSuites env).length ≤ 4 := by
    unfold offeredSuites
    split <;> split <;> decide
  have extensions : (if isEcdsaSupported env true then clientHelloExtensions else []).length
      ≤ 28 := by
    split <;> decide
  have max : dtlsCookieLengthMax = 32 := rfl
  have size : dtlsChLengthMax = 104 := rfl
  simp only [clientHello, List.length_append, dtlsIntToUint16, dtlsIntToUint8, length_intToBytes,
    random, List.length_cons, List.length_nil]
  omega

theorem confined_freshClientRandom (g : Guard e P a) :
    Confined e X (Suited P) (freshClientRandom env a) :=
  confined_ticks.bind fun _ => (confined_fillRandom _).bind fun _ =>
    confined_modifyHandshake g fun _ => cipher_writeTmp _ _ _

theorem confined_sendClientHello (g : Guard e P a) (cookie : Bytes) :
    Confined e X (Suited P) (dtlsSendClientHello env a cookie) := by
  refine (confined_gets _).bind fun p => Confined.ite (fun _ => confined_pure _) fun _ => ?_
  refine Confined.ite (fun _ => confined_pure _) fun hlen => ?_
  refine (Confined.when fun _ => confined_freshClientRandom g).bind fun _ => ?_
  refine (confined_getHandshake g).bind fun h => ?_
  refine (confined_assertThat fun _ => length_clientHello h (not_lt.mp hlen)).bind fun _ => ?_
  exact (Confined.when fun _ => confined_clearHsHash g).bind fun _ =>
    confined_sendHandshakeMsgHash fun _ => ⟨a, rfl, g⟩

/-- The ServerHello fits into its buffer. -/
theorem length_serverHello (h : HandshakeParameters) (nonce : Digest) :
    (serverHello h nonce).length ≤ dtlsShLength + 2 + 5 + 5 + 8 + 6 := by
  have suite : (if h.cipher ≠ tlsNullWithNullNull then
      dtlsIntToUint16 h.cipher ++ [compressionMethods.getD h.compression 0] else []).length ≤ 3 := by
    split
    · rw [List.length_append, dtlsIntToUint16, length_intToBytes]
      exact le_refl 3
    · exact Nat.zero_le 3
  have extensions : (if isTlsEcdheEcdsaWithAes128Ccm8 h.cipher then serverHelloExtensions
      else []).length ≤ 18 := by
    split <;> decide
  have size : dtlsShLength = 70 := rfl
  simp only [serverHello, List.length_append, dtlsIntToUint16, length_intToBytes,
    length_randomServer, List.length_cons, List.length_nil, Vector.length_toList] at suite ⊢
  omega

theorem confined_sendServerHello (g : Guard e P a) :
    Confined e X (Suited P) (dtlsSendServerHello env a) := by
  refine (confined_gets _).bind fun p => Confined.ite (fun _ => confined_pure _) fun _ => ?_
  refine confined_ticks.bind fun _ => (confined_fillRandom _).bind fun _ => ?_
  refine confined_modifyHandshake_bind g (fun _ => cipher_writeTmp _ _ _) fun _ => ?_
  refine (confined_fillRandom _).bind fun nonce => Confined.bind ?_ fun _ => ?_
  · exact confined_globals fun _ => rfl
  refine (confined_getHandshake g).bind fun h => ?_
  exact (confined_assertThat fun _ => length_serverHello h nonce).bind fun _ =>
    confined_sendHandshakeMsg g

/-- The identity hint of the application fits into the buffer it is given. -/
def HintFits (env : Env) : Prop :=
  ∀ f, env.getPskInfo = some f → ∀ t session,
    (f t session .pskHint [] dtlsPskMaxClientIdentityLen).1 ≤ dtlsPskMaxClientIdentityLen

theorem callGetPskInfo_hint (hint : HintFits env) {session : Session} {r : Int × Ptr}
    (hr : callGetPskInfo env session .pskHint [] dtlsPskMaxClientIdentityLen w = (.ok r, w')) :
    r.1 ≤ dtlsPskMaxClientIdentityLen := by
  rw [callGetPskInfo, nextTick_bind] at hr
  cases hf : env.getPskInfo with
  | none =>
      rw [hf] at hr
      cases hr
      decide
  | some f =>
      rw [hf] at hr
      cases hr
      exact hint f hf _ _

theorem confined_sendPskHint (g : Guard e P a) (hint : e = .assertFailed → HintFits env)
    (cipher : Nat) : Confined e X (Suited P) (sendPskHint env a cipher) := by
  refine Confined.ite (fun _ => confined_pure _) fun _ => (confined_gets _).bind fun p => ?_
  intro w hw
  refine (confined_callGetPskInfo _ _ _ _ w hw).bind (fun _ => id) fun r w₁ hr hw₁ => ?_
  refine ConfinedFrom.ite (fun _ => confinedFrom_pure hw₁) fun _ => ?_
  refine ((confined_assertThat fun he => ?_).bind fun _ => confined_sendHandshakeMsg g) w₁ hw₁
  have fits := callGetPskInfo_hint (hint he) hr
  omega

theorem confined_sendServerHelloMsgs (g : Guard e P a) (hint : e = .assertFailed → HintFits env) :
    Confined e X (Suited P) (dtlsSendServerHelloMsgs env a) := by
  refine (confined_sendServerHello g).bind fun res => Confined.ite (fun _ => confined_pure _)
    fun _ => ?_
  refine (confined_gets _).bind fun p => ?_
  cases p.handshakeParams with
  | none => exact confined_pure _
  | some h =>
      refine (confined_sendPskHint g hint _).bind fun res => ?_
      exact Confined.ite (fun _ => confined_pure _) fun _ =>
        (confined_sendHandshakeMsg g).bind fun _ => confined_pure _

/-! ## A ClientHello, taken over -/

/-- The invariant allows every suite for `a`. -/
def Free (P : Suites → Prop) (a : Addr) : Prop :=
  ∀ v c, P v → P (Function.update v a ((v a).1, some c))

theorem confined_setSuite {f : HandshakeParameters → HandshakeParameters} {k : Unit → M α}
    (g : Guard e P a) (free : Free P a) (hk : ∀ u, Confined e X (Suited P) (k u)) :
    Confined e X (Suited P) (modifyHandshake a f >>= k) :=
  (confined_writeHandshake g fun v _ hv _ => free v _ hv).bind hk

theorem confined_updateCompression (g : Guard e P a) (error : Int) (data : Ptr)
    (dataLength : Int) :
    Confined e X (Suited P) (updateCompression a error data dataLength) := by
  refine (confined_gets _).bind fun p => Confined.ite (fun _ => ?_) fun _ => ?_
  · exact confined_modifyHandshake_bind g (fun _ => rfl) fun _ => confined_pure _
  · refine Confined.ite (fun _ => confined_pure _) fun _ => ?_
    cases compressionLoop data.uint8 (data.add 1) with
    | none => exact confined_pure _
    | some rest =>
        exact confined_modifyHandshake_bind g (fun _ => rfl) fun _ =>
          (confined_gets _).bind fun _ => confined_pure _

theorem confined_updateSuites (hb : e ≠ .outOfBounds) (g : Guard e P a) (free : Free P a)
    (error : Int) (data : Ptr) (dataLength : Nat) :
    Confined e X (Suited P) (updateSuites env a error data dataLength) := by
  refine (confined_gets _).bind fun p => Confined.ite (fun _ => ?_) fun _ => ?_
  · cases p.security0 with
    | none => exact confined_pure _
    | some s =>
        exact Confined.ite (fun _ => confined_pure _) fun _ =>
          confined_setSuite g free fun _ => confined_pure _
  · cases suiteLoop env 32768 data.uint16 (data.add 2) with
    | runaway => exact confined_stop hb.symm
    | missing => exact confined_setSuite g free fun _ => confined_pure _
    | found cipher i data =>
        exact confined_setSuite g free fun _ => confined_updateCompression g _ _ _

theorem confined_updateParameters (hb : e ≠ .outOfBounds) (g : Guard e P a) (free : Free P a)
    {data : Ptr} {dataLength : Nat}
    (hlen : e = .assertFailed → dataLength > dtlsHsLength + dtlsChLength) :
    Confined e X (Suited P) (dtlsUpdateParameters env a data dataLength) := by
  refine (confined_gets _).bind fun p => Confined.ite (fun _ => confined_pure _) fun _ => ?_
  refine (confined_assertThat hlen).bind fun _ =>
    confined_modifyHandshake_bind g (fun _ => cipher_writeTmp _ _ _) fun _ => ?_
  cases skipSessionCookie (data.add (dtlsHsLength + dtlsChLength))
      (dataLength - (dtlsHsLength + dtlsChLength)) with
  | none => exact confined_pure _
  | some rest => exact confined_updateSuites hb g free _ _ _

theorem suites_setState (a : Addr) (s : DtlsState) (w : World) :
    (setState a s w).2.suites = Function.update w.suites a (s, (w.suites a).2) := by
  show ((w.emitted _).setPeer a { w.heap a with state := s }).suites = _
  rw [suites_setPeer]
  rfl

variable {Q : Suites → Prop}

/-- The peer enters a state, under another invariant from then on. -/
theorem confined_enter {s : DtlsState} (r : α)
    (hw : Q (Function.update w.suites a (s, (w.suites a).2))) :
    ConfinedFrom e X (Suited Q) (do
      setState a s
      pure r : M α) w := by
  refine ⟨nofun, ?_⟩
  rw [← suites_setState] at hw
  exact hw

theorem getHandshake_ok {h : HandshakeParameters} (hok : getHandshake a w = (.ok h, w')) :
    w' = w ∧ (w.heap a).handshakeParams = some h := by
  cases hp : (w.heap a).handshakeParams with
  | some hs =>
      rw [getHandshake_apply hp] at hok
      cases hok
      exact ⟨rfl, rfl⟩
  | none =>
      simp only [getHandshake, getPeer_bind, hp, ofOption, Program.stop_apply] at hok
      cases hok

/-- The peer enters a state that depends on its handshake. -/
theorem confined_settle {s : HandshakeParameters → DtlsState} (r : α) (g : Guard e P a)
    (hPQ : ∀ v, P v → Q v)
    (hs : ∀ v h, P v → (v a).2 = some h.cipher → Q (Function.update v a (s h, (v a).2)))
    (hw : P w.suites) :
    ConfinedFrom e X (Suited Q) (do
      let h ← getHandshake a
      setState a (s h)
      pure r : M α) w := by
  refine (confined_getHandshake g w hw).bind (fun _ => hPQ _) fun h w₁ hok hw₁ => ?_
  obtain ⟨rfl, hp⟩ := getHandshake_ok hok
  exact confined_enter r (hs _ h hw₁ (suites_params hp))

/-- `acceptClientHello`, once there are handshake parameters. -/
def beginHandshake (env : Env) (a : Addr) (data : Ptr) (dataLength : Nat) : M Outcome := do
  clearHsHash a
  let err ← dtlsUpdateParameters env a data dataLength
  if err < 0 then pure (.ret err)
  else do
  updateHsHash a (data.bytes dataLength)
  let now ← gettimeofday env
  modify fun w => { w with tR := now }
  let err ← dtlsSendServerHelloMsgs env a
  if err < 0 then pure (.ret err)
  else do
  let h ← getHandshake a
  setState a (flightSent env h)
  pure (.done (some a) err)

theorem acceptClientHello_eq (env : Env) (a : Addr) (data : Ptr) (dataLength : Nat) :
    acceptClientHello env a data dataLength = (do
      let found ← ensureHandshake env a (handshakeHeader data).messageSeq 1
      if !found then internalError
      else beginHandshake env a data dataLength) := rfl

theorem confined_beginHandshake (hb : e ≠ .outOfBounds) (g : Guard e P a) (free : Free P a)
    (hint : e = .assertFailed → HintFits env) {data : Ptr} {dataLength : Nat}
    (hlen : e = .assertFailed → dataLength > dtlsHsLength + dtlsChLength)
    (hPQ : ∀ v, P v → Q v)
    (hs : ∀ v h, P v → (v a).2 = some h.cipher →
      Q (Function.update v a (flightSent env h, (v a).2)))
    (hw : P w.suites) :
    ConfinedFrom e X (Suited Q) (beginHandshake env a data dataLength) w := by
  have weaken (w : World) (hw : Suited P w) : Suited Q w := hPQ _ hw
  refine (confined_clearHsHash g w hw).bind weaken fun _ w hok hw => ?_
  refine (confined_updateParameters hb g free hlen w hw).bind weaken fun err w hok hw => ?_
  refine ConfinedFrom.ite (fun _ => confinedFrom_pure (weaken w hw)) fun _ => ?_
  refine (confined_updateHsHash g _ w hw).bind weaken fun _ w hok hw => ?_
  refine (confined_timeofday w hw).bind weaken fun now w hok hw => ?_
  refine ConfinedFrom.bind (confined_globals ?_ w hw) weaken fun _ w hok hw => ?_
  · exact fun _ => rfl
  refine (confined_sendServerHelloMsgs g hint w hw).bind weaken fun err w hok hw => ?_
  refine ConfinedFrom.ite (fun _ => confinedFrom_pure (weaken w hw)) fun _ => ?_
  exact confined_settle _ g hPQ hs hw

theorem handshakeNew_eq (env : Env) (a : Addr) (w : World) :
    dtlsHandshakeNew env a w = (.ok (env.malloc w.tick), w.asked.setPeer a { w.heap a with
      handshakeParams := if env.malloc w.tick = true then some emptyHandshake else none }) := rfl

/-- Handshake parameters are found or made, with some suite, or there is no storage. -/
theorem ensureHandshake_suites (env : Env) (a : Addr) (mseqR mseqS : Nat) (w : World) :
    ∃ found c w', ensureHandshake env a mseqR mseqS w = (.ok found, w') ∧
      w'.suites = Function.update w.suites a
        ((w.suites a).1, if found = true then some c else none) := by
  cases hp : (w.heap a).handshakeParams with
  | some h =>
      refine ⟨true, h.cipher, w, ?_, ?_⟩
      · rw [ensureHandshake, getPeer_bind, hp]
        rfl
      · rw [if_pos rfl, ← suites_params hp]
        exact (Function.update_eq_self a w.suites).symm
  | none =>
      have run : ensureHandshake env a mseqR mseqS w = (do
          when (env.malloc w.tick = true)
            (modifyHandshake a fun h => { h with mseqR := mseqR, mseqS := mseqS })
          pure (env.malloc w.tick) : M Bool) (dtlsHandshakeNew env a w).2 := by
        rw [ensureHandshake, getPeer_bind, hp]
        exact Program.bind_ok (handshakeNew_eq env a w) _
      rw [run, handshakeNew_eq]
      cases env.malloc w.tick with
      | false =>
          refine ⟨false, 0, _, rfl, ?_⟩
          rw [suites_setPeer]
          rfl
      | true =>
          have new : ((w.asked.setPeer a { w.heap a with
              handshakeParams := some emptyHandshake }).heap a).handshakeParams
              = some emptyHandshake := by rw [heap_setPeer]
          refine ⟨true, emptyHandshake.cipher, _, Program.bind_ok (modifyHandshake_some _ new) _, ?_⟩
          rw [suites_setPeer, suites_setPeer, Function.update_idem, heap_setPeer]
          rfl

/-! ## The peer of a ClientHello -/

theorem confined_createCookie (hb : e ≠ .outOfBounds) (session : Session) (msg : Ptr)
    (msglen : Nat) : Confined e X (Suited P) (dtlsCreateCookie env session msg msglen) := by
  unfold dtlsCreateCookie
  cases cookieInput session msg msglen with
  | error err => exact confined_pure _
  | ok input =>
      exact (confined_ofOption hb.symm _).bind fun _ => (confined_gets _).bind
        fun _ => confined_pure _

theorem confined_verifyPeer (hb : e ≠ .outOfBounds) (peer : Option Addr) (session : Session)
    (state : DtlsState) (data : Ptr) (dataLength : Nat) :
    Confined e X (Suited P) (dtlsVerifyPeer env peer session state data dataLength) := by
  refine (confined_createCookie hb session data dataLength).bind fun mycookie => ?_
  cases mycookie with
  | error err => exact confined_pure _
  | ok mycookie =>
      cases dtlsGetCookie data dataLength with
      | error err => exact confined_pure _
      | ok cookie =>
          exact Confined.ite (fun _ => confined_pure _) fun _ =>
            confined_sendHandshakeMsgHash nofun

theorem confined_freePeer (hd : e ≠ .doubleFree) (a : Addr) :
    Confined e X (Suited P) (dtlsFreePeer a) :=
  (confined_gets _).bind fun _ => Confined.ite (fun _ => confined_stop hd.symm) fun _ =>
    confined_globals fun _ => rfl

theorem confined_dropPeer (hd : e ≠ .doubleFree) (peer : Option Addr) (state : DtlsState) :
    Confined e X (Suited P) (dropPeer peer state) := by
  cases peer with
  | none => exact confined_pure _
  | some a =>
      refine Confined.ite (fun _ => ?_) fun _ => confined_pure _
      refine Confined.bind ?_ fun _ => (confined_freePeer hd a).bind fun _ => confined_pure _
      exact confined_globals fun _ => rfl

/-- The invariant allows a new peer anywhere. -/
def Fresh (P : Suites → Prop) : Prop :=
  ∀ v b, P v → P (Function.update v b (.init, none))

theorem confined_newPeer (fresh : Fresh P) (session : Session) :
    Confined e X (Suited P) (dtlsNewPeer env session) := by
  refine confined_nextTick.bind fun t => confined_malloc.bind fun found => ?_
  refine (confined_gets _).bind fun inUse => Confined.ite (fun _ => confined_pure _) fun _ => ?_
  refine Confined.bind (fun w hw => ⟨nofun, ?_⟩) fun _ => Confined.bind ?_ fun _ => confined_pure _
  · show P (w.setPeer _ (emptyPeer session)).suites
    rw [suites_setPeer]
    exact fresh _ _ hw
  · exact confined_globals fun _ => rfl

theorem confined_serverPeer (fresh : Fresh P) (peer : Option Addr) (session : Session) :
    Confined e X (Suited P) (serverPeer env peer session) := by
  cases peer with
  | some a => exact confined_pure _
  | none =>
      refine (confined_newPeer fresh session).bind fun new => ?_
      cases new with
      | none => exact confined_pure _
      | some a =>
          refine Confined.bind (confined_modifyPeer ?_) fun _ => Confined.bind ?_
            fun _ => confined_pure _
          · exact fun _ => rfl
          · exact confined_globals fun _ => rfl

theorem confined_finishMessage (o : Outcome) : Confined e X (Suited P) (finishMessage o) := by
  cases o with
  | ret err => exact confined_pure _
  | done peer err =>
      cases peer with
      | none => exact confined_pure _
      | some a =>
          refine Confined.bind (Confined.when fun _ => confined_modifyPeer fun p => ?_) fun _ =>
            confined_pure _
          simp only [Peer.suite, Peer.countMessage, Option.map_map]
          rfl

end PqDtls.Dtls
