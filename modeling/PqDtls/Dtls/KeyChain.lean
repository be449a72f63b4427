import PqDtls.Dtls.Trailer

/-! # The length of the key chain

    `dtls_send_client_key_exchange` generates as many keys as a peer has room for, and
    announces another number.  `dtls_write` takes the key of the next interval whether
    there is one or not.  **`keyChain_overrun`** is about any number of writes. -/

namespace PqDtls.Dtls

open Program (get gets modify stop ofOption when)

variable {env : Env} {w w' : World} {a head : Addr} {dst : Session}

/-! ## The chain -/

/-- The row of interval `t` was written when the chain was made. -/
def Generated (t : Nat) : Prop := t < teslaKeys

instance (t : Nat) : Decidable (Generated t) := inferInstanceAs (Decidable (_ < _))

/-- `key_chain_len` of a synchronisation. -/
def TeslaSync.announced (t : TeslaSync) : Nat := bytesToInt t.keyChainLen

/-- The chain of the peer at `a` was made by `dtls_send_client_key_exchange`, and announced. -/
def ChainMade (env : Env) (a : Addr) (w : World) : Prop :=
  ∃ w₀ w₁, startTesla env a w₀ = (.ok w.tsync, w₁) ∧ (w.heap a).K = (w₁.heap a).K

theorem startTesla_run (env : Env) (a : Addr) (w : World) :
    startTesla env a w = (.ok (startTesla env a w).2.tsync, (startTesla env a w).2) := rfl

/-- What is generated is hashed from the seed; the other rows stay. -/
theorem startTesla_keys {w₀ w₁ : World} {tsync : TeslaSync}
    (h : startTesla env a w₀ = (.ok tsync, w₁)) :
    ∃ hmacKey seed, ∀ t, (w₁.heap a).K t =
      if Generated t then chainKey env.prims hmacKey seed (teslaKeys - t) else (w₀.heap a).K t := by
  simp only [startTesla, Program.gets_bind, gettimeofday_bind, dtlsFillRandom_bind,
    Program.modify_bind, modifyPeer_bind, Program.pure_apply] at h
  rw [← (Prod.mk.inj h).2]
  refine ⟨Vector.ofFn fun i => env.random (w₀.tick + 3) i.val,
    Vector.ofFn fun i => env.random (w₀.tick + 4) i.val, fun t => ?_⟩
  show ((Function.update w₀.heap a _) a).K t = _
  rw [Function.update_self]
  rfl

theorem startTesla_announced {w₀ w₁ : World} {tsync : TeslaSync}
    (h : startTesla env a w₀ = (.ok tsync, w₁)) : tsync.announced = teslaKeychainLen := by
  simp only [startTesla, Program.gets_bind, gettimeofday_bind, dtlsFillRandom_bind,
    Program.modify_bind, modifyPeer_bind, Program.pure_apply] at h
  rw [← Except.ok.inj (Prod.mk.inj h).1]
  exact bytesToInt_intToBytes_of_lt (by decide)

/-! ## Writes -/

/-- The peer at `a` is connected for the session `dst`; `head` is the first peer, by whose
    state `dtls_write` goes, and a client. -/
structure Writing (a head : Addr) (dst : Session) (w : World) : Prop where
  found : dtlsGetPeer dst w = (.ok (some a), w)
  connected : (w.heap a).state = .connected
  first : w.peers.head? = some head
  client : (w.heap head).role = .client

/-- The rows that the MACs of the packets come from, one write after the other; after a stop
    there are none. -/
def packetRows (env : Env) (head : Addr) (dst : Session) : List (Ptr × Nat) → World → List Nat
  | [], _ => []
  | write :: writes, w =>
      (w.heap head).intIndex ::
        match dtlsWrite env dst write.1 write.2 w with
        | (.ok _, w') => packetRows env head dst writes w'
        | (.error _, _) => []

/-- Every packet has a row that was generated, and every row that is announced was. -/
structure KeyChainRespected (env : Env) (head : Addr) (dst : Session) (writes : List (Ptr × Nat))
    (w : World) : Prop where
  rows : ∀ t ∈ packetRows env head dst writes w, Generated t
  announced : ∀ t < w.tsync.announced, Generated t

/-- A peer is found by the sessions of the peers alone. -/
theorem getPeer_same (found : dtlsGetPeer dst w = (.ok (some a), w)) (peers : w'.peers = w.peers)
    (session : ∀ b, (w'.heap b).session = (w.heap b).session) :
    dtlsGetPeer dst w' = (.ok (some a), w') := by
  have first : w.peers.find? (fun b => dtlsSessionEquals (w.heap b).session dst) = some a :=
    Except.ok.inj (Prod.mk.inj found).1
  rw [dtlsGetPeer, Program.gets_apply, peers]
  simp only [session]
  rw [first]

/-- **STEP**: a write with a key ends the interval, and nothing else that matters. -/
theorem Writing.step (h : Writing a head dst w) (hidx : Generated (w.heap head).intIndex)
    (write : Ptr × Nat) : ∃ r w', dtlsWrite env dst write.1 write.2 w = (.ok r, w') ∧
      Writing a head dst w' ∧ (w'.heap head).intIndex = (w.heap head).intIndex + 1 ∧
      w'.tsync = w.tsync := by
  have keys : teslaKeys = 1000 := rfl
  obtain ⟨plain, mac, -, hrun⟩ := @writeConnected_sent env w head a write.1 write.2 h.first hidx
  rw [dtlsWrite_connected h.found h.connected, hrun]
  let p := { w.heap head with
    teslaMac := mac
    intIndex := ((w.heap head).intIndex + 1) % 2 ^ 32 }
  obtain ⟨r, s, tick, log, hsend, -⟩ :=
    @send_unqueued env a dtlsCtApplicationData plain (w.setPeer head p) rfl
  -- neither the packet nor the record touches what `Writing` looks at
  have kept (b : Addr) : let q := ((w.setPeer head p).afterData a s tick log).heap b
      q.session = (w.heap b).session ∧ q.state = (w.heap b).state ∧ q.role = (w.heap b).role ∧
        q.intIndex = ((w.setPeer head p).heap b).intIndex := by
    have packet : ((w.setPeer head p).heap b).session = (w.heap b).session ∧
        ((w.setPeer head p).heap b).state = (w.heap b).state ∧
        ((w.setPeer head p).heap b).role = (w.heap b).role := by
      by_cases hb : b = head
      · subst hb
        rw [heap_setPeer]
        exact ⟨rfl, rfl, rfl⟩
      · rw [heap_setPeer_ne _ hb]
        exact ⟨rfl, rfl, rfl⟩
    by_cases hb : b = a
    · subst hb
      simp only [World.afterData, heap_setPeer]
      exact ⟨packet.1, packet.2.1, packet.2.2, trivial⟩
    · simp only [World.afterData, heap_setPeer_ne _ hb]
      exact ⟨packet.1, packet.2.1, packet.2.2, trivial⟩
  refine ⟨r, _, hsend, ⟨?_, ?_, h.first, ?_⟩, ?_, rfl⟩
  · exact getPeer_same h.found rfl fun b => (kept b).1
  · rw [(kept a).2.1, h.connected]
  · rw [(kept head).2.2.1, h.client]
  · rw [(kept head).2.2.2, heap_setPeer]
    unfold Generated at hidx
    exact Nat.mod_eq_of_lt (by omega)

/-- Without a key the process leaves the array. -/
theorem Writing.stops (h : Writing a head dst w) (hidx : ¬ Generated (w.heap head).intIndex)
    (write : Ptr × Nat) : dtlsWrite env dst write.1 write.2 w = (.error .outOfBounds, w) := by
  rw [dtlsWrite_connected h.found h.connected]
  exact (writeConnected_stops a write.1 write.2 h.first (not_lt.mp hidx)).2

/-- **RUN**: every packet of a run of writes has a key exactly when there are keys for so
    many intervals. -/
theorem Writing.rows_iff (h : Writing a head dst w) (writes : List (Ptr × Nat)) :
    (∀ t ∈ packetRows env head dst writes w, Generated t) ↔
      writes = [] ∨ (w.heap head).intIndex + writes.length ≤ teslaKeys := by
  induction writes generalizing w with
  | nil => exact iff_of_true (List.forall_mem_nil _) (.inl rfl)
  | cons write writes ih =>
      rw [packetRows, List.forall_mem_cons, List.length_cons]
      by_cases hidx : Generated (w.heap head).intIndex
      · obtain ⟨r, w', hrun, after, next, -⟩ := @Writing.step env _ _ _ _ h hidx write
        rw [hrun, ih after, next]
        unfold Generated at hidx ⊢
        constructor
        · rintro ⟨-, rfl | more⟩
          · exact .inr hidx
          · exact .inr (by omega)
        · rintro (none' | all)
          · cases none'
          · exact ⟨hidx, .inr (by omega)⟩
      · refine iff_of_false (fun all => hidx all.1) ?_
        unfold Generated at hidx
        rintro (none' | all)
        · cases none'
        · omega

/-- The chain is shorter than it was announced. -/
theorem ChainMade.announces {writes : List (Ptr × Nat)} (made : ChainMade env head w) :
    ¬ KeyChainRespected env head dst writes w := by
  intro respected
  obtain ⟨w₀, w₁, hrun, -⟩ := made
  have less : teslaKeys < w.tsync.announced := by
    rw [startTesla_announced hrun]
    decide
  exact lt_irrefl _ (respected.announced teslaKeys less)

/-- **THE KEY CHAIN** is never as long as it was announced; and the packets have their keys
    only as long as there are rows for all the intervals from the current one on. -/
theorem keyChain_overrun (env : Env) (a head : Addr) (dst : Session) (w : World)
    (writes : List (Ptr × Nat)) (connected : Writing a head dst w) (made : ChainMade env head w) :
    ¬ KeyChainRespected env head dst writes w ∧
      ((∀ t ∈ packetRows env head dst writes w, Generated t) ↔
        writes = [] ∨ (w.heap head).intIndex + writes.length ≤ teslaKeys) :=
  ⟨made.announces, connected.rows_iff writes⟩

/-- A client that has made its chain, and is connected. -/
def chainWorld : World :=
  (startTesla sampleEnv 0 ({ sampleWorld with peers := [0] }.setPeer 0
    { emptyPeer (sampleSession 0) with state := .connected })).2

theorem chainWorld_made : ChainMade sampleEnv 0 chainWorld :=
  ⟨_, _, startTesla_run sampleEnv 0 _, rfl⟩

theorem chainWorld_writing : Writing 0 0 (sampleSession 0) chainWorld where
  found := Prod.ext (by decide +kernel) rfl
  connected := by decide +kernel
  first := by decide +kernel
  client := by decide +kernel

theorem keyChain_overrun_one :
    ¬ KeyChainRespected sampleEnv 0 (sampleSession 0) [(fun _ => 0, 5)] chainWorld ∧
      ((∀ t ∈ packetRows sampleEnv 0 (sampleSession 0) [(fun _ => 0, 5)] chainWorld, Generated t) ↔
        [((fun _ => 0 : Ptr), 5)] = [] ∨ (chainWorld.heap 0).intIndex + 1 ≤ teslaKeys) :=
  keyChain_overrun sampleEnv 0 0 (sampleSession 0) chainWorld [(fun _ => 0, 5)] chainWorld_writing
    chainWorld_made

/-- The first row that is announced and not there. -/
theorem keyChain_short :
    ¬ ∀ (env : Env) (a head : Addr) (dst : Session) (w : World) (writes : List (Ptr × Nat)),
        Writing a head dst w → ChainMade env head w →
          KeyChainRespected env head dst writes w := by
  intro h
  exact chainWorld_made.announces
    (h sampleEnv 0 0 (sampleSession 0) chainWorld [] chainWorld_writing chainWorld_made)

end PqDtls.Dtls
