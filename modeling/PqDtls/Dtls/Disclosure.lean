import PqDtls.Dtls.KeyChain
import PqDtls.Dtls.Codec

/-! # The keys that packets disclose

    A client's chain runs backwards from its seed, so each packet discloses the key that
    the one before it was authenticated with, and hashing it leads on to the commitment.
    The index that counts the packets belongs to the peer, and a new chain does not set it
    back: **`disclosure_iff`**. -/

namespace PqDtls.Dtls

open Program (get gets modify stop ofOption when Keeps keeps_pure keeps_get keeps_gets keeps_stop
  keeps_ofOption keeps_modify bind_returned)

variable {env : Env} {w w' : World} {a : Addr} {dst : Session} {C : Primitives}
  {hmacKey seed : Digest}

/-! ## The chain of a key exchange -/

/-- The chain hash. -/
def chainHash (C : Primitives) (hmacKey key : Digest) : Digest :=
  dtlsHmac C hmacKey.toList key.toList

/-- The chain of the peer at `a`, and its commitment, come from this seed. -/
structure SentChain (C : Primitives) (hmacKey seed : Digest) (a : Addr) (w : World) : Prop where
  rows : ∀ t < teslaKeys, (w.heap a).K t = chainKey C hmacKey seed (teslaKeys - t)
  commitment : w.tsync.KeyComm = chainKey C hmacKey seed (teslaKeys + 1)

/-- The key that interval `t` discloses. -/
def intervalKey (C : Primitives) (hmacKey seed : Digest) (t : Nat) : Digest :=
  chainKey C hmacKey seed (teslaKeys + 1 - t)

theorem iterate_chainHash (C : Primitives) (hmacKey seed : Digest) (n t : Nat) :
    (chainHash C hmacKey)^[t] (chainKey C hmacKey seed n) = chainKey C hmacKey seed (n + t) := by
  induction t with
  | zero => rfl
  | succ t ih =>
      rw [Function.iterate_succ_apply', ih]
      rfl

/-- Nothing of the chain changes. -/
structure ChainKept (w w' : World) : Prop where
  rows : ∀ b, (w'.heap b).K = (w.heap b).K
  tsync : w'.tsync = w.tsync

instance : IsPreorder World ChainKept where
  refl _ := ⟨fun _ => rfl, rfl⟩
  trans _ _ _ h h' := ⟨fun b => (h'.rows b).trans (h.rows b), h'.tsync.trans h.tsync⟩

theorem SentChain.kept (h : SentChain C hmacKey seed a w) (k : ChainKept w w') :
    SentChain C hmacKey seed a w' := by
  refine ⟨fun t ht => ?_, ?_⟩
  · rw [k.rows a]
    exact h.rows t ht
  · rw [k.tsync]
    exact h.commitment

/-- `dtls_send_client_key_exchange` draws the key and the seed. -/
theorem startTesla_chain {tsync : TeslaSync} (h : startTesla env a w = (.ok tsync, w')) :
    ∃ seed, SentChain env.prims w'.hmacKey1 seed a w' := by
  simp only [startTesla, Program.gets_bind, gettimeofday_bind, dtlsFillRandom_bind,
    Program.modify_bind, modifyPeer_bind, Program.pure_apply] at h
  rw [← (Prod.mk.inj h).2]
  refine ⟨Vector.ofFn fun i => env.random (w.tick + 4) i.val, fun t ht => ?_, rfl⟩
  show ((Function.update w.heap a _) a).K t = _
  rw [Function.update_self]
  exact if_pos ht

/-! ### It stays as it is while the message is sent -/

theorem ChainKept.peer {w : World} {a : Addr} {p : Peer} (h : p.K = (w.heap a).K) :
    ChainKept w (w.setPeer a p) := by
  refine ⟨fun b => ?_, rfl⟩
  by_cases hb : b = a
  · subst hb
    rw [heap_setPeer, h]
  · rw [heap_setPeer_ne p hb]

/-- A change of the world around the peers. -/
theorem ChainKept.around {w w' : World} (heap : w'.heap = w.heap) (tsync : w'.tsync = w.tsync) :
    ChainKept w w' := ⟨fun b => by rw [heap], tsync⟩

theorem chainKept_modifyHandshake (a : Addr) (f : HandshakeParameters → HandshakeParameters) :
    Keeps ChainKept (modifyHandshake a f) := by
  intro w
  cases hp : (w.heap a).handshakeParams with
  | none =>
      rw [modifyHandshake_none f hp]
      exact refl_of _ _
  | some h =>
      rw [modifyHandshake_some f hp]
      exact ChainKept.peer rfl

theorem chainKept_setHandshakeHeader (type : Nat) (peer : Option Addr)
    (length offset fragmentLength : Nat) (inc : Bool) :
    Keeps ChainKept (dtlsSetHandshakeHeader type peer length offset fragmentLength inc) := by
  intro w
  rw [setHandshakeHeader_eq]
  have counted : ChainKept w (w.countedMessage peer) := by
    cases peer with
    | none => exact refl_of _ _
    | some a =>
        simp only [World.countedMessage]
        cases (w.heap a).handshakeParams with
        | none => exact refl_of ChainKept w
        | some h => exact ChainKept.peer rfl
  cases inc with
  | false => exact refl_of _ _
  | true => exact counted

theorem chainKept_prepareRecord (peer : Option Addr) (security : Option SecRef) (type : Nat)
    (pieces : List Bytes) (rlen : Nat) :
    Keeps ChainKept (dtlsPrepareRecord env peer security type pieces rlen) := by
  have header : Keeps ChainKept (dtlsSetRecordHeader type security) := by
    cases security with
    | none => exact keeps_pure _
    | some r =>
        have read : Keeps ChainKept (getSecurity r) :=
          (keeps_gets _).bind fun p => keeps_ofOption _ _
        refine read.bind fun s => Keeps.bind (keeps_modify fun w => ?_) fun _ => keeps_pure _
        refine ChainKept.peer ?_
        cases r.slot <;> rfl
  exact Keeps.ite (fun _ => keeps_pure _) fun _ =>
    header.bind fun _ => keeps_get.bind fun _ => keeps_pure _

theorem chainKept_sendMulti (peer : Option Addr) (security : Option SecRef) (session : Session)
    (type : Nat) (pieces : List Bytes) :
    Keeps ChainKept (dtlsSendMulti env peer security session type pieces) := by
  refine (chainKept_prepareRecord peer security type pieces dtlsMaxBuf).bind fun record => ?_
  cases record with
  | error res => exact keeps_pure _
  | ok d =>
      have queued : Keeps ChainKept (queuePacket env peer security type pieces) := by
        intro w
        obtain ⟨t, q, hrun, -⟩ := @queuePacket_eq env peer security type pieces w
        rw [hrun]
        exact ChainKept.around rfl rfl
      have written : Keeps ChainKept (callWrite env session type pieces.flatten d) :=
        fun w => ChainKept.around rfl rfl
      exact (Keeps.when fun _ => queued).bind fun _ => written.bind fun _ => keeps_pure _

theorem chainKept_sendFragments (peer : Option Addr) (security : Option SecRef)
    (session : Session) (type : Nat) (data : Bytes) (fuel remaining : Nat) (ret : Int) :
    Keeps ChainKept (sendFragments env peer security session type data fuel remaining ret) := by
  induction fuel generalizing remaining ret with
  | zero => exact keeps_pure _
  | succ fuel ih =>
      refine (chainKept_setHandshakeHeader _ _ _ _ _ _).bind fun header => ?_
      refine (chainKept_sendMulti _ _ _ _ _).bind fun res => ?_
      exact Keeps.ite (fun _ => keeps_pure _) fun _ => ih _ _

theorem chainKept_sendHandshakeMsg (a : Addr) (type : Nat) (data : Bytes) :
    Keeps ChainKept (dtlsSendHandshakeMsg env a type data) := by
  have security : Keeps ChainKept (dtlsSecurityParams a) :=
    (keeps_gets _).bind fun _ => keeps_pure _
  have hash : Keeps ChainKept (hashMessage type (some a) data) :=
    (chainKept_setHandshakeHeader _ _ _ _ _ _).bind fun _ =>
      (keeps_ofOption _ _).bind fun b => chainKept_modifyHandshake b _
  refine (keeps_gets _).bind fun p => security.bind fun s => ?_
  exact (Keeps.when fun _ => hash).bind fun _ => chainKept_sendFragments _ _ _ _ _ _ _ _

/-- The key share is there, or the error is negative. -/
theorem clientKeyShare_error {p : Peer} {h : HandshakeParameters} {err : Int}
    (hrun : clientKeyShare env a p h w = (.ok (.error err), w')) : err < 0 := by
  unfold clientKeyShare at hrun
  split at hrun
  · obtain ⟨r, w₁, -, hrun⟩ := bind_returned hrun
    split at hrun
    · cases hrun
      assumption
    split at hrun
    · obtain ⟨-, w₂, -, hrun⟩ := bind_returned hrun
      cases hrun
      exact dtlsAlertFatalCreate_neg _
    split at hrun
    · cases hrun
    · obtain ⟨-, w₂, -, hrun⟩ := bind_returned hrun
      cases hrun
  · split at hrun
    · obtain ⟨t, w₁, -, hrun⟩ := bind_returned hrun
      obtain ⟨-, w₂, -, hrun⟩ := bind_returned hrun
      cases hrun
    · cases hrun
      exact dtlsAlertFatalCreate_neg _

theorem chainKept_signHash (hash : Digest) : Keeps ChainKept (signHash env 0 hash) := by
  refine (keeps_gets _).bind fun signer => ?_
  cases Ksnmss.ksnmssSign env.ksnmss signer 0 hash with
  | none => exact keeps_stop _
  | some r => exact fun w => ChainKept.around rfl rfl

/-- **THE KEY EXCHANGE** of a client leaves a chain. -/
theorem keyExchange_chain {r : Int} (h : dtlsSendClientKeyExchange env a w = (.ok r, w'))
    (sent : 0 ≤ r) : ∃ hmacKey seed, SentChain env.prims hmacKey seed a w' := by
  rw [sendClientKeyExchange_eq] at h
  obtain ⟨-, w₁, -, h⟩ := bind_returned h
  rw [getPeer_bind] at h
  cases hp : (w₁.heap a).handshakeParams with
  | none =>
      rw [hp] at h
      cases h
      exact absurd sent (not_le.mpr (dtlsAlertFatalCreate_neg _))
  | some hs =>
      rw [hp] at h
      obtain ⟨share, w₂, hshare, h⟩ := bind_returned h
      cases share with
      | error err =>
          cases h
          exact absurd sent (not_le.mpr (clientKeyShare_error hshare))
      | ok share =>
          obtain ⟨tsync, w₃, hchain, h⟩ := bind_returned h
          obtain ⟨seed, chain⟩ := startTesla_chain hchain
          have kept : Keeps ChainKept (do
              let sig ← signHash env 0 (env.prims.sha256 tsync.hashInput)
              let MSSPK ← gets fun w => w.signer.MSSPK
              assertThat ((keyExchangeBody share tsync sig MSSPK).length ≤ dtlsCkxecLength)
              dtlsSendHandshakeMsg env a dtlsHtClientKeyExchange
                (keyExchangeBody share tsync sig MSSPK)) := by
            refine (chainKept_signHash _).bind fun sig => (keeps_gets _).bind fun root => ?_
            refine Keeps.bind (Keeps.ite (fun _ => keeps_pure _) fun _ => keeps_stop _) ?_
            exact fun _ => chainKept_sendHandshakeMsg a _ _
          exact ⟨_, seed, chain.kept (kept.of_run h)⟩

/-! ## The packets -/

/-- A packet, with the payload that it was made of. -/
structure Packet where
  payload : Bytes
  bytes : Bytes

/-- What its MAC is over. -/
def Packet.content (p : Packet) : Bytes := p.bytes.take (p.payload.length + 36)

/-- The index that it carries. -/
def Packet.index (p : Packet) : Nat := bytesToInt ((p.bytes.drop p.payload.length).take 4)

/-- The key that it discloses. -/
def Packet.key (p : Packet) : Bytes := (p.bytes.drop (p.payload.length + 4)).take 32

def Packet.mac (p : Packet) : Bytes := p.bytes.drop (p.payload.length + 36)

/-- The packets of a run of writes, up to a stop. -/
def packets (env : Env) (a : Addr) (dst : Session) : List (Ptr × Nat) → World → List Packet
  | [], _ => []
  | write :: writes, w =>
      match dtlsWrite env dst write.1 write.2 w with
      | (.ok _, w') =>
          ⟨write.1.bytes write.2, teslaPacket env.prims (w.heap a) w.tsync
            (write.1.bytes write.2)⟩ :: packets env a dst writes w'
      | (.error _, _) => []

/-- Each of `n` writes makes a packet; the packets are numbered from 0 on, and disclose
    keys of the chain for `keyComm`, each for the MAC of the one before it and none earlier. -/
structure Disciplined (C : Primitives) (hmacKey keyComm : Digest) (n : Nat) (sent : List Packet) :
    Prop where
  all : sent.length = n
  index : ∀ t (p : Packet), sent[t]? = some p → p.index = t
  chain : ∀ t (p : Packet), sent[t]? = some p →
    ∃ key : Digest, p.key = key.toList ∧ (chainHash C hmacKey)^[t] key = keyComm
  mac : ∀ t (p q : Packet), sent[t]? = some p → sent[t + 1]? = some q →
    p.mac = (dtlsHmac C (dtlsHmac C hmacKey2 q.key).toList p.content).toList
  first : ∀ s t (p q : Packet), s ≤ t → sent[s]? = some p → sent[t + 1]? = some q →
    p.key ≠ q.key

/-- The parts of what `dtls_write` builds. -/
theorem teslaPacket_parts (C : Primitives) (p : Peer) (tsync : TeslaSync) (payload : Bytes)
    (hidx : p.intIndex < 2 ^ 32) :
    Packet.index ⟨payload, teslaPacket C p tsync payload⟩ = p.intIndex ∧
      Packet.key ⟨payload, teslaPacket C p tsync payload⟩ = (disclosedKey p tsync).toList ∧
      Packet.content ⟨payload, teslaPacket C p tsync payload⟩ = teslaContent p tsync payload ∧
      Packet.mac ⟨payload, teslaPacket C p tsync payload⟩
        = (teslaMac C (p.K p.intIndex) (teslaContent p tsync payload)).toList := by
  have length4 : (dtlsIntToUint32 p.intIndex).length = 4 := length_intToBytes 4 _
  have length32 : (disclosedKey p tsync).toList.length = 32 := Vector.length_toList
  have content : (teslaContent p tsync payload).length = payload.length + 36 := by
    rw [teslaContent, List.length_append, List.length_append, length4, length32]
  have whole : teslaPacket C p tsync payload = payload ++ (dtlsIntToUint32 p.intIndex ++
      ((disclosedKey p tsync).toList ++
        (teslaMac C (p.K p.intIndex) (teslaContent p tsync payload)).toList)) := by
    rw [teslaPacket, teslaContent, List.append_assoc, List.append_assoc]
  refine ⟨?_, ?_, ?_, ?_⟩
  · rw [Packet.index, whole]
    simp only
    rw [List.drop_left, List.take_left' length4]
    exact bytesToInt_intToBytes_of_lt hidx
  · rw [Packet.key, whole]
    simp only
    rw [← List.drop_drop, List.drop_left, List.drop_left' length4, List.take_left' length32]
  · rw [Packet.content, teslaPacket]
    simp only
    exact List.take_left' content
  · rw [Packet.mac, teslaPacket]
    simp only
    exact List.drop_left' content

/-- **RUN**: as long as there are keys, each write makes the packet of the next interval. -/
theorem packets_get (sole : SoleClient w a dst) (writes : List (Ptr × Nat))
    (keys : (w.heap a).intIndex + writes.length ≤ teslaKeys) :
    (packets env a dst writes w).length = writes.length ∧
      ∀ t p, (packets env a dst writes w)[t]? = some p → ∃ q payload,
        q.intIndex = (w.heap a).intIndex + t ∧ q.K = (w.heap a).K ∧
        p = ⟨payload, teslaPacket env.prims q w.tsync payload⟩ := by
  induction writes generalizing w with
  | nil => exact ⟨rfl, fun t p h => by cases h⟩
  | cons write writes ih =>
      have keys1000 : teslaKeys = 1000 := rfl
      rw [List.length_cons] at keys
      obtain ⟨r, w', hrun, written⟩ := @write_eq env w a dst sole (by omega) write.1 write.2
      have index : (w'.heap a).intIndex = (w.heap a).intIndex + 1 := by
        rw [written.index]
        omega
      have sole' : SoleClient w' a dst := by
        refine ⟨written.peers.trans sole.peers, ?_, written.role.trans sole.role,
          written.state.trans sole.connected⟩
        rw [written.session]
        exact sole.session
      obtain ⟨length, get⟩ := ih sole' (by omega)
      rw [packets, hrun]
      refine ⟨congrArg (· + 1) length, fun t p h => ?_⟩
      cases t with
      | zero =>
          cases h
          exact ⟨w.heap a, _, rfl, rfl, rfl⟩
      | succ t =>
          obtain ⟨q, payload, hidx, hK, hp⟩ := get t p h
          refine ⟨q, payload, ?_, hK.trans written.keys, by rw [hp, written.tsync]⟩
          rw [hidx, index, Nat.add_assoc, Nat.add_comm 1]

/-! ## The discipline -/

/-- Up to the last interval, the key that is disclosed is the one of the interval. -/
theorem disclosedKey_eq (chain : SentChain C hmacKey seed a w) {q : Peer} {t : Nat}
    (hK : q.K = (w.heap a).K) (hidx : q.intIndex = t) (ht : t ≤ teslaKeys) :
    disclosedKey q w.tsync = intervalKey C hmacKey seed t := by
  cases t with
  | zero =>
      rw [disclosedKey, if_pos hidx]
      exact chain.commitment
  | succ t =>
      rw [disclosedKey, if_neg (by omega), hK, hidx, Nat.add_sub_cancel, chain.rows t ht,
        intervalKey, Nat.add_sub_add_right]

theorem SoleClient.writing (h : SoleClient w a dst) : Writing a a dst w where
  found := h.found
  connected := h.connected
  first := by
    rw [h.peers]
    rfl
  client := h.role

/-- A client that has begun to count. -/
theorem Disciplined.starts {keyComm : Digest} {write : Ptr × Nat} {writes : List (Ptr × Nat)}
    (sole : SoleClient w a dst) (h : Disciplined env.prims hmacKey keyComm (writes.length + 1)
      (packets env a dst (write :: writes) w)) : (w.heap a).intIndex = 0 := by
  have keys1000 : teslaKeys = 1000 := rfl
  by_cases hidx : (w.heap a).intIndex < teslaKeys
  · obtain ⟨r, w', hrun, -⟩ := @write_eq env w a dst sole hidx write.1 write.2
    have first := h.index 0
    rw [packets, hrun] at first
    have index := first _ rfl
    rwa [(teslaPacket_parts _ _ _ _ (by omega)).1] at index
  · have stops := @Writing.stops env _ _ _ _ sole.writing hidx write
    have all := h.all
    rw [packets, stops] at all
    cases all

/-- The packets of a client that begins with its chain. -/
theorem packets_chain (sole : SoleClient w a dst) (chain : SentChain env.prims hmacKey seed a w)
    (zero : (w.heap a).intIndex = 0) {writes : List (Ptr × Nat)}
    (few : writes.length ≤ teslaKeys) {t : Nat} {p : Packet}
    (h : (packets env a dst writes w)[t]? = some p) : p.index = t ∧
      p.key = (intervalKey env.prims hmacKey seed t).toList ∧
      p.mac = (teslaMac env.prims (intervalKey env.prims hmacKey seed (t + 1)) p.content).toList := by
  have keys1000 : teslaKeys = 1000 := rfl
  obtain ⟨length, get⟩ := @packets_get env _ _ _ sole writes (by omega)
  have ht : t < writes.length := length ▸ (List.getElem?_eq_some_iff.mp h).1
  obtain ⟨q, payload, hidx, hK, rfl⟩ := get t p h
  rw [zero, Nat.zero_add] at hidx
  obtain ⟨index, key, content, mac⟩ := teslaPacket_parts env.prims q w.tsync payload (by omega)
  refine ⟨index.trans hidx, ?_, ?_⟩
  · rw [key, disclosedKey_eq chain hK hidx (by omega)]
  · rw [mac, content, hidx, hK, chain.rows t (by omega), intervalKey, Nat.add_sub_add_right]

/-- **DISCIPLINE**: the packets of a chain are numbered from 0 on, and withhold each key until
    its MAC was sent, exactly if nothing was written before there was the chain, and no key
    of theirs repeats another one. -/
theorem disclosure_iff (env : Env) (a : Addr) (dst : Session) (hmacKey seed : Digest) (w : World)
    (writes : List (Ptr × Nat)) (sole : SoleClient w a dst)
    (chain : SentChain env.prims hmacKey seed a w) (few : writes.length < teslaKeys) :
    Disciplined env.prims hmacKey w.tsync.KeyComm writes.length (packets env a dst writes w) ↔
      writes = [] ∨ ((w.heap a).intIndex = 0 ∧ ∀ s t, s < t → t < writes.length →
        intervalKey env.prims hmacKey seed s ≠ intervalKey env.prims hmacKey seed t) := by
  have keys1000 : teslaKeys = 1000 := rfl
  constructor
  · intro h
    cases writes with
    | nil => exact .inl rfl
    | cons write writes =>
        have zero := h.starts sole
        refine .inr ⟨zero, fun s t hst ht same => ?_⟩
        obtain ⟨t, rfl⟩ := Nat.exists_eq_succ_of_ne_zero (Nat.ne_of_gt (s.zero_le.trans_lt hst))
        have made (k : Nat) (hk : k < (write :: writes).length) :
            ∃ p, (packets env a dst (write :: writes) w)[k]? = some p :=
          ⟨_, List.getElem?_eq_getElem (h.all.symm ▸ hk)⟩
        obtain ⟨p, hp⟩ := made s (hst.trans ht)
        obtain ⟨q, hq⟩ := made (t + 1) ht
        refine h.first s t p q (Nat.le_of_lt_succ hst) hp hq ?_
        rw [(packets_chain sole chain zero few.le hp).2.1,
          (packets_chain sole chain zero few.le hq).2.1, same]
  · rintro (rfl | ⟨zero, distinct⟩)
    · have none_sent (k : Nat) (p : Packet) : (packets env a dst [] w)[k]? ≠ some p := by
        intro hp
        cases hp
      exact ⟨rfl, fun t p hp => absurd hp (none_sent t p), fun t p hp => absurd hp (none_sent t p),
        fun t p _ hp => absurd hp (none_sent t p), fun s _ p _ _ hp => absurd hp (none_sent s p)⟩
    · obtain ⟨length, -⟩ := @packets_get env w a dst sole writes (by omega)
      refine ⟨length, fun t p hp => ?_, fun t p hp => ?_, fun t p q hp hq => ?_,
        fun s t p q hst hp hq same => ?_⟩
      · exact (packets_chain sole chain zero few.le hp).1
      · refine ⟨_, (packets_chain sole chain zero few.le hp).2.1, ?_⟩
        have ht : t < writes.length := length ▸ (List.getElem?_eq_some_iff.mp hp).1
        rw [intervalKey, iterate_chainHash, chain.commitment, Nat.sub_add_cancel (by omega)]
      · rw [(packets_chain sole chain zero few.le hp).2.2,
          (packets_chain sole chain zero few.le hq).2.1]
        rfl
      · have ht : t + 1 < writes.length := length ▸ (List.getElem?_eq_some_iff.mp hq).1
        rw [(packets_chain sole chain zero few.le hp).2.1,
          (packets_chain sole chain zero few.le hq).2.1] at same
        exact distinct s (t + 1) (Nat.lt_succ_of_le hst) ht (Vector.toList_inj.mp same)

/-- A connected client, with the index `n`, that makes a chain. -/
def chainFrom (n : Nat) : World :=
  (startTesla sampleEnv 0 ({ sampleWorld with peers := [0] }.setPeer 0
    { emptyPeer (sampleSession 0) with state := .connected, intIndex := n })).2

theorem chainFrom_sole (n : Nat) : SoleClient (chainFrom n) 0 (sampleSession 0) where
  peers := rfl
  session := by
    show dtlsSessionEquals (sampleSession 0) (sampleSession 0) = true
    decide +kernel
  role := rfl
  connected := rfl

theorem chainFrom_chain (n : Nat) :
    ∃ seed, SentChain sampleEnv.prims (chainFrom n).hmacKey1 seed 0 (chainFrom n) :=
  startTesla_chain (startTesla_run sampleEnv 0 _)

theorem disclosure_iff_one : ∃ seed,
    Disciplined sampleEnv.prims (chainFrom 0).hmacKey1 (chainFrom 0).tsync.KeyComm 1
        (packets sampleEnv 0 (sampleSession 0) [(fun _ => 0, 5)] (chainFrom 0)) ↔
      [((fun _ => 0 : Ptr), 5)] = [] ∨ (((chainFrom 0).heap 0).intIndex = 0 ∧ ∀ s t, s < t → t < 1 →
        intervalKey sampleEnv.prims (chainFrom 0).hmacKey1 seed s ≠
          intervalKey sampleEnv.prims (chainFrom 0).hmacKey1 seed t) := by
  obtain ⟨seed, chain⟩ := chainFrom_chain 0
  exact ⟨seed, disclosure_iff sampleEnv 0 (sampleSession 0) (chainFrom 0).hmacKey1 seed (chainFrom 0)
    [(fun _ => 0, 5)] (chainFrom_sole 0) chain (by decide)⟩

/-- A chain that is made after a packet was written: the next packet is not its first one. -/
theorem disclosure_restarted :
    ¬ ∀ (env : Env) (a : Addr) (dst : Session) (hmacKey seed : Digest) (w : World)
        (writes : List (Ptr × Nat)), SoleClient w a dst → SentChain env.prims hmacKey seed a w →
        writes.length < teslaKeys → Disciplined env.prims hmacKey w.tsync.KeyComm writes.length
          (packets env a dst writes w) := by
  intro h
  obtain ⟨seed, chain⟩ := chainFrom_chain 1
  have disciplined := h sampleEnv 0 (sampleSession 0) _ seed (chainFrom 1) [(fun _ => 0, 5)]
    (chainFrom_sole 1) chain (by decide)
  have zero : ((chainFrom 1).heap 0).intIndex = 0 := disciplined.starts (chainFrom_sole 1)
  have one : ((chainFrom 1).heap 0).intIndex = 1 := rfl
  rw [one] at zero
  cases zero

end PqDtls.Dtls
