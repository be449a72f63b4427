import PqDtls.Lib.Walk
import PqDtls.Dtls.Codec
import PqDtls.Dtls.Tesla
import PqDtls.Dtls.TeslaSender

/-! # The TESLA part of a packet

    Whoever receives application data takes its last 68 bytes for an index, a key and a
    MAC, however long it is and whoever sent it.  **`trailerRespected_iff`** says for which
    lengths the receiver stays in its buffers, **`writtenAgreed_iff`** for which senders
    there is such a part. -/

namespace PqDtls.Dtls

open Program (get gets modify stop ofOption when)
open Walk

variable {env : Env} {w : World} {a head : Addr} {data buf : Ptr} {n len : Nat}

/-! ## What the receiver touches -/

/-- The reads of the part: all of it is printed, then the key and the MAC are copied. -/
def trailerReads (n : Nat) : List Access :=
  [⟨payloadLength n, teslaExtension⟩, ⟨payloadLength n + 4, 32⟩, ⟨payloadLength n + 36, 32⟩]

/-- The accesses to `t_msg`: the stored packet is hashed, unless it is the first one, and
    the new one takes its place.  Both lengths are converted to `size_t`. -/
def storeAccesses (p : Peer) (n : Nat) : List Access :=
  (if p.intIndex = 0 then [] else [⟨0, sizeT (payloadLength n + 36)⟩]) ++
    [⟨0, sizeT (payloadLength n + 36)⟩]

/-- A plaintext of `n` bytes is taken apart, and stored in place of the last packet, within
    the plaintext and the store; the length that the application is told is not negative. -/
structure TrailerRespected (p : Peer) (n : Nat) : Prop where
  reads : ∀ x ∈ trailerReads n, x.Inside 0 n
  payload : 0 ≤ payloadLength n
  store : ∀ x ∈ storeAccesses p n, x.Inside 0 tMsgSize

/-- What is copied is the packet without its MAC, if that is no negative length. -/
theorem storeAccesses_inside_iff (p : Peer) (hn : n < 2 ^ 31) :
    (∀ x ∈ storeAccesses p n, x.Inside 0 tMsgSize) ↔ Storable (payloadLength n) := by
  have size : tMsgSize = 10000 := rfl
  have ext : teslaExtension = 68 := rfl
  have copy : Access.Inside ⟨0, sizeT (payloadLength n + 36)⟩ 0 tMsgSize
      ↔ Storable (payloadLength n) := by
    unfold Access.Inside Storable sizeT payloadLength
    simp only
    omega
  rw [storeAccesses, List.forall_mem_append, List.forall_mem_singleton, copy]
  refine and_iff_right_of_imp fun storable => ?_
  split
  · exact List.forall_mem_nil _
  · rw [List.forall_mem_singleton, copy]
    exact storable

/-- **TRAILERS**: the receiver stays in its buffers exactly when the plaintext has room for
    the TESLA part, and the rest of it for the store. -/
theorem trailerRespected_iff (p : Peer) (n : Nat) (hn : n < 2 ^ 31) :
    TrailerRespected p n ↔ teslaExtension ≤ n ∧ n ≤ tMsgSize + 32 := by
  have size : tMsgSize = 10000 := rfl
  have ext : teslaExtension = 68 := rfl
  constructor
  · rintro ⟨-, payload, store⟩
    have storable := (storeAccesses_inside_iff p hn).mp store
    unfold Storable payloadLength at storable
    unfold payloadLength at payload
    omega
  · rintro ⟨least, most⟩
    refine ⟨?_, by unfold payloadLength; omega, (storeAccesses_inside_iff p hn).mpr ?_⟩
    · refine List.forall_mem_cons.mpr ⟨?_, List.forall_mem_cons.mpr
        ⟨?_, List.forall_mem_singleton.mpr ?_⟩⟩
      all_goals
        unfold Access.Inside payloadLength
        simp only
        omega
    · unfold Storable payloadLength
      omega

theorem trailerRespected_least :
    TrailerRespected (emptyPeer (sampleSession 0)) 68 ↔
      teslaExtension ≤ 68 ∧ 68 ≤ tMsgSize + 32 :=
  trailerRespected_iff (emptyPeer (sampleSession 0)) 68 (by decide)

/-- A record without data is taken for one with a TESLA part. -/
theorem trailerRespected_empty : ¬ ∀ (p : Peer) (n : Nat), n < 2 ^ 31 → TrailerRespected p n := by
  intro h
  have payload := (h (emptyPeer (sampleSession 0)) 0 (by decide)).payload
  exact absurd payload (by decide)

/-- A packet that is respected is handed on without its TESLA part. -/
theorem handleApplicationData_respected (hq : ∀ m ∈ w.sendqueue, m.peer.isSome = true)
    (hpeers : w.peers.head? = some head) (hn : n < 2 ^ 31)
    (h : TrailerRespected (w.heap head) n) :
    ∃ w', handleApplicationData env a data n w
      = callRead env (w'.heap a).session data (n - teslaExtension) w' := by
  obtain ⟨q, hrun⟩ := @handleApplicationData_eq env w a head data n hq hpeers
    ((storeAccesses_inside_iff _ hn).mp h.store)
  have length : sizeT (payloadLength n) = n - teslaExtension := by
    have payload := h.payload
    unfold payloadLength at payload
    unfold sizeT payloadLength
    omega
  rw [length] at hrun
  exact ⟨_, hrun⟩

/-! ## What the sender builds -/

/-- The plaintext that `dtls_write` passes to `dtls_send` for a connected peer. -/
def writtenPlaintext (env : Env) (w : World) (buf : Ptr) (len : Nat) : Except Crash Bytes :=
  match w.peers.head? with
  | none => .error .nullDeref
  | some head =>
      if (w.heap head).intIndex ≥ teslaKeys then .error .outOfBounds
      else (teslaPayload env head buf len w).1

theorem dtlsWrite_connected {dst : Session} (found : dtlsGetPeer dst w = (.ok (some a), w))
    (connected : (w.heap a).state = .connected) (buf : Ptr) (len : Nat) :
    dtlsWrite env dst buf len w = writeConnected env a buf len w := by
  rw [dtlsWrite, Program.bind_ok found]
  simp only [getPeer_bind]
  rw [if_neg (not_not.mpr connected)]

/-- With a key for the interval it is what is sent; the interval of the first peer ends. -/
theorem writeConnected_sent (a : Addr) (buf : Ptr) (len : Nat) (hpeers : w.peers.head? = some head)
    (hidx : (w.heap head).intIndex < teslaKeys) :
    ∃ plain mac, writtenPlaintext env w buf len = .ok plain ∧
      writeConnected env a buf len w = dtlsSend env a dtlsCtApplicationData plain
        (w.setPeer head { w.heap head with
          teslaMac := mac
          intIndex := ((w.heap head).intIndex + 1) % 2 ^ 32 }) := by
  have found : (ofOption .nullDeref w.peers.head? : M Addr) w = (.ok head, w) := by
    rw [hpeers]
    rfl
  have built : ∃ plain mac, teslaPayload env head buf len w
      = (.ok plain, w.setPeer head { w.heap head with teslaMac := mac }) := by
    rw [teslaPayload, Program.get_bind]
    by_cases hrole : (w.heap head).role ≠ .client
    · refine ⟨buf.bytes (len + teslaExtension), (w.heap head).teslaMac, ?_⟩
      have same : w.setPeer head { w.heap head with teslaMac := (w.heap head).teslaMac } = w :=
        congrArg (fun heap => { w with heap := heap }) (Function.update_eq_self head w.heap)
      rw [same]
      exact congrFun (if_pos hrole) w
    · exact ⟨_, _, congrFun (if_neg hrole) w⟩
  obtain ⟨plain, mac, hrun⟩ := built
  refine ⟨plain, mac, ?_, ?_⟩
  · simp only [writtenPlaintext, hpeers]
    rw [if_neg (not_le.mpr hidx), hrun]
  · rw [writeConnected, Program.gets_bind, Program.bind_ok found, getPeer_bind,
      if_neg (not_le.mpr hidx), Program.bind_ok hrun, modifyPeer_bind, heap_setPeer]
    simp only [World.setPeer, Function.update_idem]

/-- Without one, nothing happens. -/
theorem writeConnected_stops (a : Addr) (buf : Ptr) (len : Nat)
    (hpeers : w.peers.head? = some head) (hidx : teslaKeys ≤ (w.heap head).intIndex) :
    writtenPlaintext env w buf len = .error .outOfBounds ∧
      writeConnected env a buf len w = (.error .outOfBounds, w) := by
  have found : (ofOption .nullDeref w.peers.head? : M Addr) w = (.ok head, w) := by
    rw [hpeers]
    rfl
  constructor
  · simp only [writtenPlaintext, hpeers]
    exact if_pos hidx
  · rw [writeConnected, Program.gets_bind, Program.bind_ok found, getPeer_bind, if_pos hidx]
    rfl

/-- `plain` is the payload with a TESLA part of the peer `p` behind it, as a receiver takes
    it apart. -/
structure Laid (C : Primitives) (p : Peer) (tsync : TeslaSync) (payload plain : Bytes) : Prop where
  length : payloadLength plain.length = payload.length
  front : (Ptr.ofBytes plain).bytes payload.length = payload
  index : packetIndex (Ptr.ofBytes plain) payload.length = p.intIndex
  key : packetKey (Ptr.ofBytes plain) payload.length = disclosedKey p tsync
  mac : packetMac (Ptr.ofBytes plain) payload.length
    = teslaMac C (p.K p.intIndex) (teslaContent p tsync payload)

/-- The two sides agree on a packet of `len` bytes, whatever lies behind them. -/
def WrittenAgreed (env : Env) (w : World) (buf : Ptr) (len : Nat) : Prop :=
  ∀ buf' : Ptr, buf'.bytes len = buf.bytes len → ∃ head plain, w.peers.head? = some head ∧
    writtenPlaintext env w buf' len = .ok plain ∧
    Laid env.prims (w.heap head) w.tsync (buf.bytes len) plain

/-- The packet of a client is laid out as the receiver expects it. -/
theorem laid_teslaPacket (C : Primitives) {p : Peer} (tsync : TeslaSync) (payload : Bytes)
    (hidx : p.intIndex < 2 ^ 32) : Laid C p tsync payload (teslaPacket C p tsync payload) := by
  have key : (disclosedKey p tsync).toList.length = 32 := Vector.length_toList
  have holds := ofBytes_holds (teslaPacket C p tsync payload)
  unfold teslaPacket teslaContent at holds
  have behind := holds.first.first.next rfl
  refine ⟨?_, ?_, ?_, ?_, ?_⟩
  · unfold teslaPacket teslaContent payloadLength teslaExtension
    simp only [List.length_append, dtlsIntToUint32, length_intToBytes, Vector.length_toList]
    omega
  · exact holds.first.first.first.bytes rfl
  · rw [packetIndex]
    exact (number_of_holds behind).trans (Nat.mod_eq_of_lt hidx)
  · have disclosed := holds.first.next (n := payload.length + 4) (by
      rw [List.length_append, dtlsIntToUint32, length_intToBytes])
    exact array_of_holds disclosed
  · have mac := holds.next (n := payload.length + 36) (by
      rw [List.length_append, List.length_append, key, dtlsIntToUint32, length_intToBytes])
    exact array_of_holds mac

/-- A server's packet is what lies in its buffer. -/
theorem writtenPlaintext_server (hpeers : w.peers.head? = some head)
    (hidx : (w.heap head).intIndex < teslaKeys) (hrole : (w.heap head).role ≠ .client) :
    writtenPlaintext env w buf len = .ok (buf.bytes (len + teslaExtension)) := by
  simp only [writtenPlaintext, hpeers]
  rw [if_neg (not_le.mpr hidx), teslaPayload, Program.get_bind, if_pos hrole]
  rfl

theorem writtenPlaintext_client (hpeers : w.peers.head? = some head)
    (hidx : (w.heap head).intIndex < teslaKeys) (hrole : (w.heap head).role = .client) :
    writtenPlaintext env w buf len
      = .ok (teslaPacket env.prims (w.heap head) w.tsync (buf.bytes len)) := by
  simp only [writtenPlaintext, hpeers]
  rw [if_neg (not_le.mpr hidx), teslaPayload, Program.get_bind, if_neg (not_not.mpr hrole)]
  rfl

/-- The index that a receiver reads in what lies in a buffer. -/
theorem packetIndex_bytes (buf : Ptr) (len : Nat) :
    packetIndex (Ptr.ofBytes (buf.bytes (len + teslaExtension))) len
      = bytesToInt ((buf.add len).bytes 4) := by
  have parts : buf.bytes (len + teslaExtension)
      = buf.bytes len ++ ((buf.add len).bytes 4 ++ ((buf.add len).add 4).bytes 64) := by
    rw [Ptr.bytes_add]
    exact congrArg _ (Ptr.bytes_add _ 4 64)
  have holds := ofBytes_holds (buf.bytes (len + teslaExtension))
  nth_rewrite 2 [parts] at holds
  rw [packetIndex, (holds.next (Ptr.length_bytes _ _)).first.bytes (Ptr.length_bytes _ _).symm]

/-- The payload, and `x` in every byte behind it. -/
def padded (buf : Ptr) (len : Nat) (x : UInt8) : Ptr := fun i => if i < len then buf i else x

theorem padded_bytes (buf : Ptr) (len : Nat) (x : UInt8) :
    (padded buf len x).bytes len = buf.bytes len :=
  Ptr.bytes_congr fun _ hi => if_pos (Int.ofNat_lt.mpr hi)

theorem padded_behind (buf : Ptr) (len : Nat) (x : UInt8) :
    ((padded buf len x).add len).bytes 4 = List.replicate 4 x := by
  have behind (i : Nat) : ((padded buf len x).add len) i = x := if_neg (by omega)
  refine List.eq_replicate_iff.mpr ⟨Ptr.length_bytes _ _, fun y hy => ?_⟩
  obtain ⟨i, -, rfl⟩ := List.mem_map.mp hy
  exact behind i

/-- Without a client's state, the index is any number that the buffer happens to hold. -/
theorem WrittenAgreed.client (agreed : WrittenAgreed env w buf len) :
    ∃ head, w.peers.head? = some head ∧ (w.heap head).role = .client ∧
      (w.heap head).intIndex < teslaKeys := by
  obtain ⟨head, plain, hpeers, built, -⟩ := agreed buf rfl
  have hidx : (w.heap head).intIndex < teslaKeys := by
    by_contra hidx
    simp only [writtenPlaintext, hpeers] at built
    rw [if_pos (not_lt.mp hidx)] at built
    cases built
  refine ⟨head, hpeers, ?_, hidx⟩
  by_contra hrole
  have index (x : UInt8) : (w.heap head).intIndex = bytesToInt (List.replicate 4 x) := by
    obtain ⟨head', plain, hpeers', built, laid⟩ := agreed (padded buf len x) (padded_bytes _ _ _)
    cases hpeers.symm.trans hpeers'
    rw [writtenPlaintext_server hpeers hidx hrole] at built
    cases built
    have read := laid.index
    rw [Ptr.length_bytes, packetIndex_bytes, padded_behind] at read
    exact read.symm
  have differ : bytesToInt (List.replicate 4 0) ≠ bytesToInt (List.replicate 4 255) := by decide
  exact differ ((index 0).symm.trans (index 255))

/-- **WRITER AND READER** agree exactly when the state that `dtls_write` goes by, that of the
    first peer, is a client's and its interval has a key. -/
theorem writtenAgreed_iff (env : Env) (w : World) (buf : Ptr) (len : Nat) :
    WrittenAgreed env w buf len ↔ ∃ head, w.peers.head? = some head ∧
      (w.heap head).role = .client ∧ (w.heap head).intIndex < teslaKeys := by
  constructor
  · exact WrittenAgreed.client
  · rintro ⟨head, hpeers, hrole, hidx⟩ buf' same
    refine ⟨head, _, hpeers, writtenPlaintext_client hpeers hidx hrole, ?_⟩
    rw [same]
    have keys : teslaKeys = 1000 := rfl
    exact laid_teslaPacket env.prims w.tsync (buf.bytes len) (by omega)

/-- A connected server sends no TESLA part. -/
theorem writtenAgreed_server :
    ¬ ∀ (env : Env) (w : World) (a : Addr), Reachable env w → a ∈ w.peers →
        (w.heap a).state = .connected → ∀ (buf : Ptr) (len : Nat), WrittenAgreed env w buf len := by
  intro h
  obtain ⟨hpeers, -, hstate, hrole, -⟩ := packetsWorld_facts
  have agreed := h answeringEnv packetsWorld 0 packetsWorld_reachable
    (List.mem_of_mem_head? hpeers) hstate (fun _ => 0) 0
  obtain ⟨head, hhead, client, -⟩ := agreed.client
  cases hpeers.symm.trans hhead
  cases hrole.symm.trans client

end PqDtls.Dtls
