import PqDtls.Dtls.Fragmentation
import PqDtls.Dtls.Stops

/-! # A second attempt to connect

    `dtls_connect` links the new peer before it is known whether a ClientHello can be
    sent, and leaves it there if not.  The next attempt finds it, takes the way of a
    renegotiation, and is refused because the peer is not connected.
    **`retried_iff`** says after which failures there is another try. -/

namespace PqDtls.Dtls

open Program (get gets modify stop ofOption when Keeps)
open Ksnmss

variable {env : Env} {w w' : World} {a : Addr} {dst : Session} {res : Int}

/-! ## Attempts -/

/-- No peer has the session. -/
def NoPeer (w : World) (dst : Session) : Prop :=
  ∀ a ∈ w.peers, dtlsSessionEquals (w.heap a).session dst = false

instance (w : World) (dst : Session) : Decidable (NoPeer w dst) :=
  inferInstanceAs (Decidable (∀ a ∈ w.peers, _))

/-- There is no storage for a new peer. -/
def NoStorage (env : Env) (w : World) : Prop :=
  env.malloc w.asked.tick = false ∨ w.live (env.peerStorage w.tick) = true

/-- The surroundings send what they are given, and find storage, for a new peer where it is
    not in use. -/
structure Cooperative (env : Env) (dst : Session) (w : World) : Prop where
  write : ∀ t session datagram, env.write t session datagram = datagram.length
  malloc : ∀ t, env.malloc t = true
  storage : NoPeer w dst →
    w.live (env.peerStorage w.tick) = false ∧ env.peerStorage w.tick ∉ w.peers

/-- Connecting starts a handshake: there is a peer that waits for the answer to its
    ClientHello. -/
def StartsHandshake (env : Env) (dst : Session) (w : World) : Prop :=
  ∃ res w' a, dtlsConnect env dst w = (.ok res, w') ∧ 0 < res ∧ a ∈ w'.peers ∧
    (w'.heap a).session = dst ∧ (w'.heap a).state = .clientHello

/-- As soon as the surroundings cooperate, connecting starts a handshake. -/
def Retried (dst : Session) (w : World) : Prop :=
  ∀ env : Env, Cooperative env dst w → StartsHandshake env dst w

/-! ## A new peer -/

/-- The world after storage at `b` was handed out for a peer. -/
def World.provided (w : World) (b : Addr) (dst : Session) : World :=
  { w.setPeer b (emptyPeer dst) with live := Function.update w.live b true }

theorem getPeer_fresh (fresh : NoPeer w dst) : dtlsGetPeer dst w = (.ok none, w) := by
  have none' : w.peers.find? (fun a => dtlsSessionEquals (w.heap a).session dst) = none := by
    rw [List.find?_eq_none]
    intro a ha
    rw [fresh a ha]
    exact Bool.false_ne_true
  rw [dtlsGetPeer, Program.gets_apply, none']

/-- Without storage, only the surroundings were asked. -/
theorem connect_noStorage (env : Env) (fresh : NoPeer w dst) (h : NoStorage env w) :
    dtlsConnect env dst w = (.ok (-1), w.asked.asked) := by
  have refused : (!env.malloc w.asked.tick || w.live (env.peerStorage w.tick)) = true := by
    rcases h with h | h
    · rw [h]
      rfl
    · rw [h, Bool.or_true]
  have none' : connectTarget env dst w = (.ok none, w.asked.asked) := by
    rw [connectTarget, Program.bind_ok (getPeer_fresh fresh)]
    show dtlsNewPeer env dst w = _
    rw [dtlsNewPeer, nextTick_bind, malloc_bind, Program.gets_bind]
    show (if (!env.malloc w.asked.tick || w.live (env.peerStorage w.tick)) = true then _ else _ :
      M (Option Addr)) w.asked.asked = _
    rw [if_pos refused]
    rfl
  rw [dtlsConnect, Program.bind_ok none']
  rfl

/-- With storage, there is a peer to connect. -/
theorem connectTarget_new (fresh : NoPeer w dst) (h : ¬ NoStorage env w) :
    connectTarget env dst w
      = (.ok (some (env.peerStorage w.tick)),
          w.asked.asked.provided (env.peerStorage w.tick) dst) := by
  have granted : (!env.malloc w.asked.tick || w.live (env.peerStorage w.tick)) = false := by
    unfold NoStorage at h
    push Not at h
    rw [Bool.eq_true_of_not_eq_false h.1, Bool.eq_false_iff.mpr h.2]
    rfl
  rw [connectTarget, Program.bind_ok (getPeer_fresh fresh)]
  show dtlsNewPeer env dst w = _
  rw [dtlsNewPeer, nextTick_bind, malloc_bind, Program.gets_bind]
  show (if (!env.malloc w.asked.tick || w.live (env.peerStorage w.tick)) = true then _ else _ :
    M (Option Addr)) w.asked.asked = _
  rw [if_neg (Bool.eq_false_iff.mp granted)]
  rfl

/-- The peer as it is linked, with what storage there was for its handshake. -/
def linkedPeer (dst : Session) (handshake : Option HandshakeParameters) : Peer :=
  { emptyPeer dst with handshakeParams := handshake }

/-- The world when the peer at `b` is in the list, and there are keys. -/
def World.listed (w : World) (env : Env) (b : Addr) : World :=
  let w := { w with peers := b :: w.peers }
  { w with signer := keyGeneration env.ksnmss w.signer }.emitted .keyGeneration

/-- The world when the peer at `b` has been linked. -/
def World.linked (w : World) (env : Env) (b : Addr) (dst : Session) : World :=
  (w.listed env b).asked.setPeer b
    (linkedPeer dst (if env.malloc w.tick then some emptyHandshake else none))

/-- What follows when the peer has been linked. -/
def firstHello (env : Env) (a : Addr) : M Int := do
  let startRtt ← dtlsTicks env
  modify fun w => { w with startRtt := startRtt }
  let _ ← dtlsTicks env
  let res ← dtlsSendClientHello env a []
  when (0 ≤ res) (setState a .clientHello)
  pure res

theorem connectPeer_new {b : Addr} (hp : w.heap b = emptyPeer dst)
    (new : (dtlsGetPeer dst w).1 ≠ .ok (some b)) :
    dtlsConnectPeer env b w = if env.malloc w.tick then firstHello env b (w.linked env b dst)
      else (.ok (-1), w.linked env b dst) := by
  have other : ¬ w.peers.find? (fun a => dtlsSessionEquals (w.heap a).session dst) = some b :=
    fun found => new (congrArg Except.ok found)
  have same : w.setPeer b (emptyPeer dst) = w := by
    rw [← hp, World.setPeer, Function.update_eq_self]
  have handshake : dtlsHandshakeNew env b (w.listed env b)
      = (.ok (env.malloc w.tick), w.linked env b dst) := by
    have before : (w.listed env b).asked.heap b = emptyPeer dst := hp
    rw [dtlsHandshakeNew, malloc_bind, modifyPeer_bind, before]
    rfl
  have listed : dtlsConnectPeer env b w = (do
      let found ← dtlsHandshakeNew env b
      if !found then pure (-1) else firstHello env b : M Int) (w.listed env b) := by
    rw [dtlsConnectPeer, getPeer_bind, hp]
    show (dtlsGetPeer dst >>= fun found => _) w = _
    rw [dtlsGetPeer, Program.gets_bind, if_neg other, modifyPeer_bind, hp]
    show _ = (_ : M Int) _
    have role : { emptyPeer dst with role := .client } = emptyPeer dst := rfl
    rw [role, same, dtlsAddPeer, modifyPeers, Program.modify_bind, Program.modify_bind, emit_bind]
    unfold World.listed firstHello
    rfl
  rw [listed, Program.bind_ok handshake]
  by_cases hm : env.malloc w.tick = true
  · rw [hm, if_pos rfl]
    rfl
  · rw [Bool.eq_false_iff.mpr hm, if_neg Bool.false_ne_true]
    rfl

/-! ## The ClientHello -/

/-- A short message that is written is counted in full. -/
theorem sendShort_returns {s : SecurityParameters} {data : Bytes} (session : Session) (type : Nat)
    (hs : (w.heap a).security0 = some s) (hlen : data.length < dtlsMaxHsPayload)
    (write : ∀ t session datagram, env.write t session datagram = datagram.length) :
    ∃ w', dtlsSendHandshakeMsgHash env (some a) session type data false w
      = (.ok (12 + data.length : Nat), w') := by
  obtain ⟨t, q, tick, hrun, -⟩ := @sendShort_eq env w a s data session type hs hlen
  rw [write, sentLength_all _ (by rw [length_sealed]; omega), wholeMessage, List.length_append,
    length_messageHeader] at hrun
  exact ⟨_, hrun⟩

theorem sendClientHello_returns {h : HandshakeParameters} {s : SecurityParameters}
    (hp : (w.heap a).handshakeParams = some h) (hs : (w.heap a).security0 = some s)
    (write : ∀ t session datagram, env.write t session datagram = datagram.length) :
    ∃ (n : Nat) (w' : World), dtlsSendClientHello env a [] w = (.ok n, w') ∧ 0 < n := by
  have chMax : dtlsChLengthMax = 104 := rfl
  have size : dtlsMaxHsPayload = 1252 := rfl
  have present : ¬ (w.heap a).handshakeParams.isNone = true := by
    rw [hp]
    exact Bool.false_ne_true
  let draw (h : HandshakeParameters) : HandshakeParameters :=
    h.writeTmp 0 (dtlsIntToUint32 (env.ticks w.tick / dtlsTicksPerSecond) ++
      (Vector.ofFn fun i : Fin 28 => env.random (w.tick + 1) i.val).toList)
  let w₀ := w.asked.asked.setPeer a { w.heap a with handshakeParams := some (draw h) }
  have fresh : freshClientRandom env a w = (.ok (), w₀) := by
    rw [freshClientRandom, dtlsTicks_bind, dtlsFillRandom_bind]
    exact modifyHandshake_some (w := w.asked.asked) draw hp
  have hp₀ : (w₀.heap a).handshakeParams = some (draw h) := by rw [heap_setPeer]
  have hs₀ : (w₀.heap a).security0 = some s := by rw [heap_setPeer, hs]
  have fits : (clientHello env (draw h) []).length ≤ dtlsChLengthMax :=
    length_clientHello (draw h) (Nat.zero_le _)
  obtain ⟨w', hrun⟩ := @sendShort_returns env w₀ a _ (clientHello env (draw h) [])
    (w.heap a).session dtlsHtClientHello hs₀ (by omega) write
  refine ⟨12 + (clientHello env (draw h) []).length, w', ?_, by omega⟩
  rw [dtlsSendClientHello, getPeer_bind, if_neg present, if_neg (by decide), when,
    if_pos List.length_nil, Program.bind_ok fresh, Program.bind_ok (getHandshake_apply hp₀)]
  rw [assertThat, if_pos fits, pure_bind, when, if_neg (not_not.mpr List.length_nil), pure_bind]
  exact hrun

/-- The times of the start are taken, and then the ClientHello is sent. -/
theorem firstHello_run (env : Env) (a : Addr) (w : World) : ∃ w₁, Quiet w w₁ ∧
    w₁.heap = w.heap ∧ firstHello env a w = (do
      let res ← dtlsSendClientHello env a []
      when (0 ≤ res) (setState a .clientHello)
      pure res : M Int) w₁ :=
  ⟨({ w.asked with startRtt := env.ticks w.tick } : World).asked,
    Quiet.globals rfl rfl rfl rfl rfl, rfl, rfl⟩

/-- If it cannot be sent, that is all. -/
theorem firstHello_failed (h : firstHello env a w = (.ok res, w')) (hres : res < 0) :
    Quiet w w' := by
  obtain ⟨w₁, quiet, -, hrun⟩ := firstHello_run env a w
  have frame : Frame env Quiet := quietFrame env
  have sent := (frame.sender (some a)).sendClientHello [] w₁
  rw [hrun] at h
  rcases hsend : dtlsSendClientHello env a [] w₁ with ⟨e | r, w₂⟩
  · rw [Program.bind_error hsend] at h
    cases h
  · rw [hsend] at sent
    rw [Program.bind_ok hsend, when] at h
    by_cases hr : 0 ≤ r
    · rw [if_pos hr, setState_bind] at h
      cases h
      exact absurd hres (not_lt.mpr hr)
    · rw [if_neg hr, pure_bind] at h
      cases h
      exact Trans.trans quiet sent

/-- If it can, the peer waits for the answer. -/
theorem firstHello_sent {h : HandshakeParameters} {s : SecurityParameters}
    (hp : (w.heap a).handshakeParams = some h) (hs : (w.heap a).security0 = some s)
    (write : ∀ t session datagram, env.write t session datagram = datagram.length) :
    ∃ res w', firstHello env a w = (.ok res, w') ∧ 0 < res ∧ w'.peers = w.peers ∧
      (w'.heap a).session = (w.heap a).session ∧ (w'.heap a).state = .clientHello := by
  obtain ⟨w₁, quiet, heap, hrun⟩ := firstHello_run env a w
  obtain ⟨n, w₂, hsend, positive⟩ := @sendClientHello_returns env w₁ a h s (by rw [heap, hp])
    (by rw [heap, hs]) write
  have frame : Frame env Quiet := quietFrame env
  have sent := (frame.sender (some a)).sendClientHello [] w₁
  rw [hsend] at sent
  have both : Quiet w w₂ := Trans.trans quiet sent
  rw [hrun, Program.bind_ok hsend, when, if_pos (Int.natCast_nonneg n), setState_bind]
  refine ⟨n, _, rfl, by omega, both.peers, ?_, ?_⟩
  · rw [heap_setPeer]
    exact congrArg PeerCore.session (both.heap a)
  · rw [heap_setPeer]

/-! ## The first attempt -/

/-- What a failed attempt leaves behind: a peer for the session that has done nothing. -/
structure LeftBehind (b : Addr) (dst : Session) (w w' : World) : Prop where
  member : b ∈ w'.peers
  others : ∀ c ∈ w'.peers, c ≠ b → c ∈ w.peers ∧ (w'.heap c).session = (w.heap c).session
  session : (w'.heap b).session = dst
  state : (w'.heap b).state = .init

theorem LeftBehind.quiet {b : Addr} {w₁ : World} (left : LeftBehind b dst w w₁)
    (q : Quiet w₁ w') : LeftBehind b dst w w' where
  member := by
    rw [q.peers]
    exact left.member
  others c hc hne := by
    rw [q.peers] at hc
    obtain ⟨mem, session⟩ := left.others c hc hne
    exact ⟨mem, (congrArg PeerCore.session (q.heap c)).trans session⟩
  session := (congrArg PeerCore.session (q.heap b)).trans left.session
  state := (q.peerState b).trans left.state

theorem leftBehind_linked (w : World) (env : Env) (b : Addr) (dst : Session) :
    LeftBehind b dst w ((w.asked.asked.provided b dst).linked env b dst) := by
  refine ⟨List.mem_cons_self, fun c hc hne => ⟨?_, ?_⟩, ?_, ?_⟩
  · exact (List.mem_cons.mp hc).resolve_left hne
  · rw [World.linked, heap_setPeer_ne _ hne]
    exact congrArg Peer.session (heap_setPeer_ne _ hne)
  · rw [World.linked, heap_setPeer]
    rfl
  · rw [World.linked, heap_setPeer]
    rfl

/-- The application hears of an attempt that did not fail, and of no other. -/
theorem connect_new (fresh : NoPeer w dst) (storage : ¬ NoStorage env w) {r : Int} {w₂ : World}
    (hrun : dtlsConnectPeer env (env.peerStorage w.tick)
      (w.asked.asked.provided (env.peerStorage w.tick) dst) = (.ok r, w₂)) :
    ∃ w₃, dtlsConnect env dst w = (.ok r, w₃) ∧ w₃.heap = w₂.heap ∧ w₃.peers = w₂.peers ∧
      (r < 0 → w₃ = w₂) := by
  rw [dtlsConnect, Program.bind_ok (connectTarget_new fresh storage)]
  simp only
  rw [Program.bind_ok hrun, getPeer_bind]
  rcases lt_trichotomy r 0 with neg | zero | pos
  · rw [when, if_neg (not_lt.mpr neg.le), pure_bind, when, if_neg neg.ne]
    exact ⟨w₂, rfl, rfl, rfl, fun _ => rfl⟩
  · rw [when, if_neg zero.not_gt, pure_bind, when, if_pos zero]
    exact ⟨_, rfl, rfl, rfl, fun neg => absurd zero neg.ne⟩
  · rw [when, if_pos pos, callEvent_bind, when, if_neg pos.ne']
    exact ⟨_, rfl, rfl, rfl, fun neg => absurd pos neg.not_gt⟩

/-- A peer that is there and not connected is refused. -/
theorem connectPeer_unconnected {b : Addr} (found : dtlsGetPeer dst w = (.ok (some b), w))
    (session : (w.heap b).session = dst) (state : (w.heap b).state = .init) :
    dtlsConnectPeer env b w = (.ok (-1), w) := by
  have unconnected : (w.heap b).state ≠ .connected := by
    rw [state]
    decide
  rw [dtlsConnectPeer, getPeer_bind, session, Program.bind_ok found, if_pos rfl, dtlsRenegotiate,
    Program.bind_ok found]
  simp only [getPeer_bind]
  rw [if_pos unconnected]
  rfl

/-- Where storage was found, a failed attempt leaves a peer. -/
theorem connect_leftBehind (fresh : NoPeer w dst) (storage : ¬ NoStorage env w)
    (failed : dtlsConnect env dst w = (.ok res, w')) (hres : res < 0) :
    LeftBehind (env.peerStorage w.tick) dst w w' := by
  let b := env.peerStorage w.tick
  let w₁ := w.asked.asked.provided b dst
  have hp : w₁.heap b = emptyPeer dst := heap_setPeer _ _ _
  have connected : dtlsConnectPeer env b w₁ = (.ok res, w') := by
    rcases hrun : dtlsConnectPeer env b w₁ with ⟨e | r, w₂⟩
    · rw [dtlsConnect, Program.bind_ok (connectTarget_new fresh storage)] at failed
      simp only at failed
      rw [Program.bind_error hrun] at failed
      cases failed
    · obtain ⟨w₃, hconnect, -, -, same⟩ := connect_new fresh storage hrun
      cases hconnect.symm.trans failed
      rw [same hres]
  by_cases new : (dtlsGetPeer dst w₁).1 = .ok (some b)
  · -- the storage was that of a peer in the list
    have found : dtlsGetPeer dst w₁ = (.ok (some b), w₁) := Prod.ext new rfl
    rw [connectPeer_unconnected found (by rw [hp]; rfl) (by rw [hp]; rfl)] at connected
    have same : w' = w₁ := (Prod.mk.inj connected).2.symm
    rw [same]
    refine ⟨List.mem_of_find?_eq_some (Except.ok.inj new), fun c hc hne => ⟨hc, ?_⟩, ?_, ?_⟩
    · exact congrArg Peer.session (heap_setPeer_ne _ hne)
    · rw [hp]
      rfl
    · rw [hp]
      rfl
  · rw [connectPeer_new hp new] at connected
    by_cases hm : env.malloc w₁.tick = true
    · rw [if_pos hm] at connected
      exact (leftBehind_linked w env b dst).quiet (firstHello_failed connected hres)
    · rw [if_neg hm] at connected
      cases connected
      exact leftBehind_linked w env b dst

/-! ## The next attempt -/

/-- The peer that was left is the one that is found. -/
theorem LeftBehind.found {b : Addr} (left : LeftBehind b dst w w') (fresh : NoPeer w dst)
    (hdst : dtlsSessionEquals dst dst = true) : dtlsGetPeer dst w' = (.ok (some b), w') := by
  have self : dtlsSessionEquals (w'.heap b).session dst = true := by
    rw [left.session]
    exact hdst
  rcases hfind : w'.peers.find? (fun c => dtlsSessionEquals (w'.heap c).session dst) with _ | c
  · have missed := List.find?_eq_none.mp hfind b left.member
    exact absurd self missed
  · have equals := List.find?_some hfind
    have same : c = b := by
      by_contra hne
      obtain ⟨mem, session⟩ := left.others c (List.mem_of_find?_eq_some hfind) hne
      rw [session, fresh c mem] at equals
      cases equals
    rw [dtlsGetPeer, Program.gets_apply, hfind, same]

/-- A peer whose session is not even equal to itself is never found. -/
theorem LeftBehind.noPeer {b : Addr} (left : LeftBehind b dst w w') (fresh : NoPeer w dst)
    (hdst : dtlsSessionEquals dst dst = false) : NoPeer w' dst := by
  intro c hc
  by_cases hne : c = b
  · rw [hne, left.session]
    exact hdst
  · obtain ⟨mem, session⟩ := left.others c hc hne
    rw [session]
    exact fresh c mem

/-- **CONNECTING**: without a peer for the destination, a handshake is started. -/
theorem connect_starts (fresh : NoPeer w dst) (c : Cooperative env dst w) :
    StartsHandshake env dst w := by
  obtain ⟨unused, unlisted⟩ := c.storage fresh
  let b := env.peerStorage w.tick
  let w₁ := w.asked.asked.provided b dst
  have storage : ¬ NoStorage env w := by
    rintro (none' | used)
    · rw [c.malloc] at none'
      cases none'
    · rw [unused] at used
      cases used
  have hp : w₁.heap b = emptyPeer dst := heap_setPeer _ _ _
  have new : (dtlsGetPeer dst w₁).1 ≠ .ok (some b) := fun found =>
    unlisted (List.mem_of_find?_eq_some (Except.ok.inj found))
  have linked : (w₁.linked env b dst).heap b = linkedPeer dst (some emptyHandshake) := by
    rw [World.linked, heap_setPeer, c.malloc, if_pos rfl]
  obtain ⟨res, w₂, hello, positive, peers, session, state⟩ :=
    @firstHello_sent env (w₁.linked env b dst) b emptyHandshake dtlsSecurityNew
      (by rw [linked]; rfl) (by rw [linked]; rfl) c.write
  have connected : dtlsConnectPeer env b w₁ = (.ok res, w₂) := by
    rw [connectPeer_new hp new, if_pos (c.malloc _), hello]
  obtain ⟨w₃, hconnect, heap, peers', -⟩ := connect_new fresh storage connected
  refine ⟨res, w₃, b, hconnect, positive, ?_, ?_, ?_⟩
  · rw [peers', peers]
    exact List.mem_cons_self
  · rw [heap, session, linked]
    rfl
  · rw [heap, state]

/-- Connecting again to a peer that was left behind is refused. -/
theorem LeftBehind.refused {b : Addr} (left : LeftBehind b dst w w') (fresh : NoPeer w dst)
    (hdst : dtlsSessionEquals dst dst = true) (env : Env) : ¬ StartsHandshake env dst w' := by
  rintro ⟨res, w₂, a, hconnect, positive, -⟩
  have found := left.found fresh hdst
  have target : connectTarget env dst w' = (.ok (some b), w') := by
    rw [connectTarget, Program.bind_ok found]
    rfl
  rw [dtlsConnect, Program.bind_ok target] at hconnect
  simp only at hconnect
  rw [Program.bind_ok (connectPeer_unconnected found left.session left.state)] at hconnect
  cases hconnect
  exact absurd positive (by decide)

/-- There are surroundings that cooperate, and it is refused all the same. -/
theorem LeftBehind.not_retried {b : Addr} (left : LeftBehind b dst w w') (fresh : NoPeer w dst)
    (hdst : dtlsSessionEquals dst dst = true) : ¬ Retried dst w' := by
  intro retried
  refine left.refused fresh hdst sampleEnv (retried sampleEnv ⟨fun _ _ _ => rfl, fun _ => rfl, ?_⟩)
  intro none'
  have unequal := none' _ left.member
  rw [left.session, hdst] at unequal
  cases unequal

/-- **A SECOND ATTEMPT** after one that failed starts a handshake exactly when the first one
    found no storage for a peer, or the destination is no address by which a peer is found. -/
theorem retried_iff (env : Env) (w w' : World) (dst : Session) (res : Int) (fresh : NoPeer w dst)
    (failed : dtlsConnect env dst w = (.ok res, w')) (hres : res < 0) :
    Retried dst w' ↔ NoStorage env w ∨ dtlsSessionEquals dst dst = false := by
  constructor
  · intro retried
    by_contra! h
    obtain ⟨storage, hdst⟩ := h
    exact (connect_leftBehind fresh storage failed hres).not_retried fresh
      (Bool.eq_true_of_not_eq_false hdst) retried
  · intro h env' c
    by_cases storage : NoStorage env w
    · rw [connect_noStorage env fresh storage] at failed
      cases failed
      exact connect_starts fresh c
    · have left := connect_leftBehind fresh storage failed hres
      exact connect_starts (left.noPeer fresh (h.resolve_left storage)) c

/-- Surroundings in which nothing can be sent. -/
def mutedEnv : Env := { sampleEnv with write := fun _ _ _ => -1 }

/-- The world after an attempt in these surroundings. -/
def mutedWorld : World := (dtlsConnect mutedEnv (sampleSession 0) sampleWorld).2

theorem mutedWorld_failed :
    dtlsConnect mutedEnv (sampleSession 0) sampleWorld = (.ok (-1), mutedWorld) := by
  have res : (dtlsConnect mutedEnv (sampleSession 0) sampleWorld).1 = .ok (-1) := by
    decide +kernel
  have returned {m : Except Crash Int × World} (h : m.1 = .ok (-1)) : m = (.ok (-1), m.2) :=
    Prod.ext h rfl
  exact returned res

theorem noPeer_sample : NoPeer sampleWorld (sampleSession 0) := by
  rintro a ⟨⟩

theorem retried_iff_muted :
    Retried (sampleSession 0) mutedWorld ↔
      NoStorage mutedEnv sampleWorld ∨
        dtlsSessionEquals (sampleSession 0) (sampleSession 0) = false :=
  retried_iff mutedEnv sampleWorld mutedWorld (sampleSession 0) (-1) noPeer_sample
    mutedWorld_failed (by decide)

/-- The write callback failed once, and the destination stays out of reach. -/
theorem retried_muted :
    ¬ ∀ (env : Env) (w w' : World) (dst : Session) (res : Int), Reachable env w → NoPeer w dst →
        dtlsConnect env dst w = (.ok res, w') → res < 0 → Retried dst w' := by
  intro h
  have retried := h mutedEnv sampleWorld mutedWorld (sampleSession 0) (-1)
    ⟨_, [], sampleWorld_initial, rfl⟩ noPeer_sample mutedWorld_failed (by decide)
  have storage : ¬ NoStorage mutedEnv sampleWorld := by
    rintro (none' | used)
    · cases none'
    · cases used
  exact (connect_leftBehind noPeer_sample storage mutedWorld_failed (by decide)).not_retried
    noPeer_sample (by decide +kernel) retried

end PqDtls.Dtls
