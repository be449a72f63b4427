import PqDtls.Dtls.Runs

/-! # Sending and opening records

    What `dtls_send_multi` does to the world, exactly, and what becomes of its record
    on the other side: it is one record, and it opens to its payload, in the clear or
    under the keys that both sides have. -/

namespace PqDtls.Dtls

open Program (get gets modify stop ofOption when)

variable {env : Env} {w : World} {a : Addr} {s : SecurityParameters}

/-! ## The record -/

/-- The header of a record, with a length of zero. -/
def recordHeader (type : Nat) (s : SecurityParameters) : Bytes :=
  dtlsIntToUint8 type ++ dtlsIntToUint16 dtlsVersion ++ dtlsIntToUint16 s.epoch ++
    dtlsIntToUint48 s.rseq ++ [0, 0]

/-- The record for a payload under the parameters `s`. -/
def sealed (C : Primitives) (role : DtlsPeerType) (s : SecurityParameters) (type : Nat)
    (payload : Bytes) : Bytes :=
  let header := recordHeader type s
  if s.cipher = tlsNullWithNullNull then
    header.take 11 ++ dtlsIntToUint16 payload.length ++ payload
  else
    let start := (header.drop 3).take 8
    let body := dtlsEncrypt C payload (padBlock (dtlsKbLocalIv s.keyBlock role ++ start))
      (dtlsKbLocalWriteKey s.keyBlock role) (additionalData header payload.length)
    header.take 11 ++ dtlsIntToUint16 (8 + body.length) ++ start ++ body

/-- The world after a record under the parameters in slot 0 was counted. -/
def World.counted (w : World) (a : Addr) (s : SecurityParameters) : World :=
  w.setPeer a { w.heap a with security0 := some { s with rseq := (s.rseq + 1) % 2 ^ 64 } }

theorem copyPieces_eq (rlen res : Nat) (pieces : List Bytes)
    (h : res + dtlsRhLength + pieces.flatten.length ≤ rlen) :
    copyPieces rlen res pieces = some pieces.flatten := by
  induction pieces generalizing res with
  | nil => rfl
  | cons d ds ih =>
      rw [List.flatten_cons, List.length_append] at h
      rw [copyPieces, if_neg (by omega), ih _ (by omega), Option.map_some, List.flatten_cons]

/-- A payload that fits is sealed. -/
theorem fillRecord_eq (p : Peer) (s : SecurityParameters) (n type : Nat) (pieces : List Bytes)
    {rlen : Nat} (h : pieces.flatten.length + 21 ≤ rlen) :
    fillRecord env.prims (some p) (some { s with rseq := n }) (recordHeader type s) pieces rlen
      = .ok (sealed env.prims p.role s type pieces.flatten) := by
  have rh : dtlsRhLength = 13 := rfl
  simp only [fillRecord, sealed]
  by_cases hc : s.cipher = tlsNullWithNullNull
  · rw [if_pos hc, if_pos hc, plainRecord, copyPieces_eq _ _ _ (by omega)]
  · rw [if_neg hc, if_neg hc, cipherRecord, copyPieces_eq _ _ _ (by omega)]

/-- The peer after a record under the parameters `s` in a slot was counted. -/
def Peer.countRecord (p : Peer) (s : SecurityParameters) (slot : Slot) : Peer :=
  p.setSecurity { s with rseq := (s.rseq + 1) % 2 ^ 64 } slot

theorem security_countRecord (p : Peer) (s : SecurityParameters) (slot : Slot) :
    (p.countRecord s slot).security slot = some { s with rseq := (s.rseq + 1) % 2 ^ 64 } := by
  cases slot <;> rfl

theorem role_countRecord (p : Peer) (s : SecurityParameters) (slot : Slot) :
    (p.countRecord s slot).role = p.role := by
  cases slot <;> rfl

theorem setRecordHeader_eq (type : Nat) {r : SecRef}
    (hs : (w.heap r.peer).security r.slot = some s) :
    dtlsSetRecordHeader type (some r) w
      = (.ok (recordHeader type s), w.setPeer r.peer ((w.heap r.peer).countRecord s r.slot)) := by
  have get : getSecurity r w = (.ok s, w) := by
    simp only [getSecurity, getPeer_bind, hs, ofOption, Program.pure_apply]
  rw [dtlsSetRecordHeader, Program.bind_ok get]
  rfl

/-- **A record**: what `dtls_prepare_record` makes of pieces that fit, with the parameters
    of a slot of the peer. -/
theorem prepareRecord_sealed (type : Nat) (pieces : List Bytes) {slot : Slot} {rlen : Nat}
    (hs : (w.heap a).security slot = some s) (h : pieces.flatten.length + 21 ≤ rlen) :
    dtlsPrepareRecord env (some a) (some ⟨a, slot⟩) type pieces rlen w
      = (.ok (.ok (sealed env.prims (w.heap a).role s type pieces.flatten)),
          w.setPeer a ((w.heap a).countRecord s slot)) := by
  have rh : dtlsRhLength = 13 := rfl
  rw [dtlsPrepareRecord, if_neg (by omega),
    Program.bind_ok (setRecordHeader_eq type (r := ⟨a, slot⟩) hs), Program.get_bind]
  simp only [Option.map_some, Option.bind_some, heap_setPeer, security_countRecord]
  rw [fillRecord_eq _ s _ type pieces h, role_countRecord]
  rfl

theorem prepareRecord_eq (type : Nat) (pieces : List Bytes)
    (hs : (w.heap a).security0 = some s) (h : pieces.flatten.length ≤ dtlsMaxBuf - 21) :
    dtlsPrepareRecord env (some a) (some ⟨a, .zero⟩) type pieces dtlsMaxBuf w
      = (.ok (.ok (sealed env.prims (w.heap a).role s type pieces.flatten)), w.counted a s) := by
  have max : dtlsMaxBuf = 30000 := rfl
  exact @prepareRecord_sealed _ _ _ _ type pieces .zero _ hs (by omega)

/-! ## The world after sending -/

/-- Every packet that is kept for retransmission belongs to a peer. -/
def Owned (q : List Netq) : Prop := ∀ n ∈ q, n.peer.isSome = true

theorem owned_insert {q : List Netq} {n : Netq} (hq : Owned q) (hn : n.peer.isSome = true) :
    Owned (netqInsertNode q n) := by
  intro m hm
  rw [netqInsertNode, List.mem_append, List.mem_cons] at hm
  rcases hm with hm | rfl | hm
  · exact hq m (List.takeWhile_subset _ hm)
  · exact hn
  · exact hq m (List.dropWhile_subset _ hm)

/-- The world, with another number of questions asked and another queue of sent
    packets. -/
def World.later (w : World) (tick : Nat) (queue : List Netq) : World :=
  { w with tick := tick, sendqueue := queue }

/-- The world after a datagram with one record. -/
def World.wrote (w : World) (session : Session) (type : Nat) (payload datagram : Bytes) : World :=
  { w with log := .write session datagram :: .sent session type payload :: w.log }

theorem queuePacket_eq (peer : Option Addr) (security : Option SecRef) (type : Nat)
    (pieces : List Bytes) (w : World) :
    ∃ t q, queuePacket env peer security type pieces w = (.ok (), w.later t q) ∧
      (peer.isSome = true → Owned w.sendqueue → Owned q) := by
  rw [queuePacket, malloc_bind]
  cases env.malloc w.tick with
  | false => exact ⟨w.tick + 1, w.sendqueue, rfl, fun _ => id⟩
  | true =>
      simp only [Bool.not_true, Bool.false_eq_true, if_false]
      rw [dtlsTicks_bind]
      exact ⟨_, _, rfl, fun hpeer hq => owned_insert hq hpeer⟩

/-- What `dtls_send_multi` returns for `res` bytes written of a record. -/
def sentLength (payload datagram : Bytes) (res : Int) : Int :=
  if res ≤ 0 then res else (payload.length : Int) - ((datagram.length : Int) - res)

/-- All of a record is written. -/
theorem sentLength_all (payload : Bytes) {datagram : Bytes} (h : 0 < datagram.length) :
    sentLength payload datagram datagram.length = payload.length := by
  have positive : ¬ ((datagram.length : Int) ≤ 0) := by omega
  rw [sentLength, if_neg positive, sub_self, sub_zero]

/-- **SENDING**: one datagram is written; apart from that, the number of the next record
    moves on, and the packet may be queued. -/
theorem sendMulti_eq (session : Session) (type : Nat) (pieces : List Bytes)
    (hs : (w.heap a).security0 = some s) (h : pieces.flatten.length ≤ dtlsMaxBuf - 21) :
    ∃ t q tick, dtlsSendMulti env (some a) (some ⟨a, .zero⟩) session type pieces w
        = (.ok (sentLength pieces.flatten
              (sealed env.prims (w.heap a).role s type pieces.flatten)
              (env.write tick session (sealed env.prims (w.heap a).role s type pieces.flatten))),
            ((w.counted a s).wrote session type pieces.flatten
              (sealed env.prims (w.heap a).role s type pieces.flatten)).later t q) ∧
      (Owned w.sendqueue → Owned q) := by
  rw [dtlsSendMulti, Program.bind_ok (prepareRecord_eq type pieces hs h)]
  simp only
  by_cases hq : mustQueue type pieces = true
  · obtain ⟨t, q, hrun, howned⟩ := @queuePacket_eq env (some a) (some ⟨a, .zero⟩) type
      pieces (w.counted a s)
    rw [when, if_pos hq, Program.bind_ok hrun, callWrite_bind]
    exact ⟨t + 1, q, t, rfl, howned rfl⟩
  · rw [when, if_neg hq]
    exact ⟨w.tick + 1, w.sendqueue, w.tick, rfl, id⟩

/-- The parameters that `dtls_security_params` selects for sending. -/
def sendSecurity (w : World) (peer : Option Addr) : Option SecRef :=
  peer.bind fun a => (w.heap a).security0.map fun _ => ⟨a, .zero⟩

theorem counted_handshakeParams (w : World) (a b : Addr) (s : SecurityParameters) :
    ((w.counted a s).heap b).handshakeParams = (w.heap b).handshakeParams := by
  unfold World.counted
  by_cases hb : b = a
  · subst hb
    rw [heap_setPeer]
  · rw [heap_setPeer_ne _ hb]

/-- Sending, for a peer that may be NULL or without parameters: the payload is handed
    to the write callback in one datagram, and handshakes are not touched. -/
theorem sendMulti_sent (peer : Option Addr) (session : Session) (type : Nat)
    (pieces : List Bytes) (h : pieces.flatten.length ≤ dtlsMaxBuf - 21) :
    ∃ r w' d, dtlsSendMulti env peer (sendSecurity w peer) session type pieces w = (.ok r, w') ∧
      w'.log = .write session d :: .sent session type pieces.flatten :: w.log ∧
      (∀ b, (w'.heap b).handshakeParams = (w.heap b).handshakeParams) ∧
      sendSecurity w' peer = sendSecurity w peer := by
  -- without parameters the record has an empty header
  have plain (peer : Option Addr) : ∃ r w' d,
      dtlsSendMulti env peer none session type pieces w = (.ok r, w') ∧
        w'.log = .write session d :: .sent session type pieces.flatten :: w.log ∧
        w'.heap = w.heap := by
    have max : dtlsMaxBuf = 30000 := rfl
    have rh : dtlsRhLength = 13 := rfl
    have prepare : ∃ d, dtlsPrepareRecord env peer none type pieces dtlsMaxBuf w
        = (.ok (.ok d), w) := by
      rw [dtlsPrepareRecord, if_neg (by decide)]
      refine ⟨(dtlsIntToUint8 type ++ dtlsIntToUint16 dtlsVersion ++ List.replicate 10 0).take 11 ++
        dtlsIntToUint16 pieces.flatten.length ++ pieces.flatten, ?_⟩
      show (Except.ok (fillRecord env.prims _ none _ pieces dtlsMaxBuf), w) = _
      rw [fillRecord, plainRecord, copyPieces_eq _ _ _ (by omega)]
    obtain ⟨d, hprepare⟩ := prepare
    rw [dtlsSendMulti, Program.bind_ok hprepare]
    simp only
    by_cases hq : mustQueue type pieces = true
    · obtain ⟨t, q, hrun, -⟩ := @queuePacket_eq env peer none type pieces w
      rw [when, if_pos hq, Program.bind_ok hrun, callWrite_bind]
      exact ⟨_, _, d, rfl, rfl, rfl⟩
    · rw [when, if_neg hq]
      exact ⟨_, _, d, rfl, rfl, rfl⟩
  cases peer with
  | none =>
      obtain ⟨r, w', d, hrun, hlog, hheap⟩ := plain none
      exact ⟨r, w', d, hrun, hlog, fun b => by rw [hheap], rfl⟩
  | some a =>
      cases hs : (w.heap a).security0 with
      | none =>
          obtain ⟨r, w', d, hrun, hlog, hheap⟩ := plain (some a)
          have none' : sendSecurity w (some a) = none := by
            simp only [sendSecurity, Option.bind_some, hs, Option.map_none]
          refine ⟨r, w', d, by rw [none']; exact hrun, hlog, fun b => by rw [hheap], ?_⟩
          simp only [sendSecurity, hheap]
      | some s =>
          have zero : sendSecurity w (some a) = some ⟨a, .zero⟩ := by
            simp only [sendSecurity, Option.bind_some, hs, Option.map_some]
          obtain ⟨t, q, tick, hrun, -⟩ := @sendMulti_eq env _ _ _ session type pieces hs h
          refine ⟨_, _, _, by rw [zero]; exact hrun, rfl, fun b => ?_, ?_⟩
          · exact counted_handshakeParams w a b s
          · rw [zero, sendSecurity, Option.bind_some]
            show ((w.counted a s).heap a).security0.map _ = _
            rw [World.counted, heap_setPeer]
            rfl

/-! ## Reading a buffer -/

/-- A number that fits is read as it was written. -/
theorem bytesToInt_intToBytes_of_lt {n v : Nat} (h : v < 256 ^ n) :
    bytesToInt (intToBytes n v) = v := by
  rw [bytesToInt_intToBytes, Nat.mod_eq_of_lt h]

/-- Bytes in the middle of a buffer. -/
theorem ofBytes_middle (front middle back : Bytes) {n : Nat} (hn : n = middle.length) :
    ((Ptr.ofBytes (front ++ middle ++ back)).add front.length).bytes n = middle := by
  subst hn
  rw [List.append_assoc, Ptr.ofBytes_append_bytes, Ptr.ofBytes_prefix_bytes]

/-- The same, with the offset as a number. -/
theorem ofBytes_middle_at (front middle back : Bytes) {b : Bytes} {k n : Nat}
    (hb : b = front ++ middle ++ back) (hk : front.length = k) (hn : n = middle.length) :
    ((Ptr.ofBytes b).add k).bytes n = middle := by
  subst hb hk
  exact ofBytes_middle front middle back hn

theorem ofBytes_start (front back : Bytes) {b : Bytes} {n : Nat} (hb : b = front ++ back)
    (hn : n = front.length) : (Ptr.ofBytes b).bytes n = front := by
  subst hb hn
  exact Ptr.ofBytes_prefix_bytes front back

theorem overwrite_bytes (p : Ptr) (off : Nat) (b rest : Bytes) :
    ((p.overwrite off (b ++ rest)).add off).bytes b.length = b := by
  have same : ((p.overwrite off (b ++ rest)).add off).bytes b.length
      = (Ptr.ofBytes (b ++ rest)).bytes b.length := by
    refine Ptr.bytes_congr fun i hi => ?_
    have inside : (off : Int) ≤ i + off ∧ (i : Int) + off < off + ((b ++ rest).length : Nat) := by
      rw [List.length_append]
      omega
    have index : ((i : Int) + off - off).toNat = i := by omega
    simp only [Ptr.add, Ptr.overwrite, Ptr.ofBytes, if_pos inside, index, Int.natCast_nonneg,
      if_true, Int.toNat_natCast]
  rw [same, Ptr.ofBytes_prefix_bytes]

/-! ## Opening a record -/

theorem length_recordHeader (type : Nat) (s : SecurityParameters) :
    (recordHeader type s).length = 13 := by
  simp [recordHeader, dtlsIntToUint8, dtlsIntToUint16, dtlsIntToUint48]

/-- The length of the part of the record behind its header. -/
def sealedLength (s : SecurityParameters) (payload : Bytes) : Nat :=
  if s.cipher = tlsNullWithNullNull then payload.length else payload.length + 16

/-- The part of the record behind its header. -/
def sealedBody (C : Primitives) (role : DtlsPeerType) (s : SecurityParameters) (type : Nat)
    (payload : Bytes) : Bytes :=
  let header := recordHeader type s
  if s.cipher = tlsNullWithNullNull then payload
  else
    let start := (header.drop 3).take 8
    start ++ dtlsEncrypt C payload (padBlock (dtlsKbLocalIv s.keyBlock role ++ start))
      (dtlsKbLocalWriteKey s.keyBlock role) (additionalData header payload.length)

theorem length_dtlsEncrypt (C : Primitives) (payload : Bytes) (nonce : Block) (key aad : Bytes) :
    (dtlsEncrypt C payload nonce key aad).length = payload.length + 8 :=
  length_dtlsCcmEncryptMessage _ _ _ _ _ _ (by decide)

theorem length_start (type : Nat) (s : SecurityParameters) :
    (((recordHeader type s).drop 3).take 8).length = 8 := by
  rw [List.length_take, List.length_drop, length_recordHeader]
  rfl

theorem length_sealedBody (C : Primitives) (role : DtlsPeerType) (s : SecurityParameters)
    (type : Nat) (payload : Bytes) :
    (sealedBody C role s type payload).length = sealedLength s payload := by
  unfold sealedBody sealedLength
  by_cases hc : s.cipher = tlsNullWithNullNull
  · rw [if_pos hc, if_pos hc]
  · rw [if_neg hc, if_neg hc, List.length_append, length_start, length_dtlsEncrypt]
    omega

/-- A record is eleven bytes of header, the length, and the rest. -/
theorem sealed_eq (C : Primitives) (role : DtlsPeerType) (s : SecurityParameters) (type : Nat)
    (payload : Bytes) :
    sealed C role s type payload = (recordHeader type s).take 11 ++
      dtlsIntToUint16 (sealedLength s payload) ++ sealedBody C role s type payload := by
  unfold sealed sealedBody sealedLength
  by_cases hc : s.cipher = tlsNullWithNullNull
  · rw [if_pos hc, if_pos hc, if_pos hc]
  · have length : 8 + (payload.length + 8) = payload.length + 16 := by omega
    simp only [if_neg hc, length_dtlsEncrypt, length, List.append_assoc]

theorem length_sealed (C : Primitives) (role : DtlsPeerType) (s : SecurityParameters) (type : Nat)
    (payload : Bytes) : (sealed C role s type payload).length = 13 + sealedLength s payload := by
  rw [sealed_eq, List.length_append, List.length_append, length_sealedBody, List.length_take,
    length_recordHeader]
  simp [dtlsIntToUint16]

theorem additionalData_congr {x y : Bytes} (h : x.take 11 = y.take 11) (n : Nat) :
    additionalData x n = additionalData y n := by
  have eight : (x.drop 3).take 8 = (y.drop 3).take 8 := by
    rw [List.take_drop, List.take_drop]
    exact congrArg (List.drop 3) h
  have three : x.take 3 = y.take 3 := by
    have min (z : Bytes) : z.take 3 = (z.take 11).take 3 := by rw [List.take_take]; rfl
    rw [min x, min y, h]
  rw [additionalData, additionalData, eight, three]

/-- What opens under a cipher was authenticated. -/
theorem openRecord_verified {C : Primitives} {role : DtlsPeerType} {packet : Ptr} {length : Nat}
    (opened : 0 ≤ (openRecord C role s packet length).length)
    (cipher : s.cipher ≠ tlsNullWithNullNull) :
    (openRecord C role s packet length).verified = true := by
  have negative : ¬ (0 : Int) ≤ -1 := by decide
  simp only [openRecord, if_neg cipher] at opened ⊢
  split at opened
  · exact absurd opened negative
  · rename_i hlen
    rw [if_neg hlen]
    split at opened
    · exact absurd opened negative
    · rfl

/-- The keys of the sender are the remote keys of the other side. -/
def DtlsPeerType.other : DtlsPeerType → DtlsPeerType
  | .client => .server
  | .server => .client

theorem remoteWriteKey_other (k : KeyBlock) (role : DtlsPeerType) :
    dtlsKbRemoteWriteKey k role.other = dtlsKbLocalWriteKey k role := by
  cases role <;> rfl

theorem remoteIv_other (k : KeyBlock) (role : DtlsPeerType) :
    dtlsKbRemoteIv k role.other = dtlsKbLocalIv k role := by
  cases role <;> rfl

/-- **OPENING**: under the same cipher and keys, on the other side, a sealed record opens to
    its payload. -/
theorem openRecord_sealed (C : Primitives) (role : DtlsPeerType) (s s' : SecurityParameters)
    (type : Nat) (payload : Bytes) (cipher : s'.cipher = s.cipher)
    (keyBlock : s'.keyBlock = s.keyBlock) :
    let o := openRecord C role.other s' (Ptr.ofBytes (sealed C role s type payload))
      (sealed C role s type payload).length
    o.length = payload.length ∧ o.data.bytes payload.length = payload := by
  have head : ((recordHeader type s).take 11).length = 11 := by
    rw [List.length_take, length_recordHeader]
    rfl
  have two (n : Nat) : (dtlsIntToUint16 n).length = 2 := length_intToBytes 2 n
  by_cases hc : s.cipher = tlsNullWithNullNull
  · simp only [openRecord, if_pos (cipher.trans hc), length_sealed, sealedLength, if_pos hc]
    refine ⟨by unfold dtlsRhLength; omega, ?_⟩
    refine ofBytes_middle_at ((recordHeader type s).take 11 ++
      dtlsIntToUint16 (sealedLength s payload)) payload [] ?_ ?_ rfl
    · rw [sealed_eq, sealedBody, if_pos hc, List.append_nil]
    · rw [List.length_append, head, two]
      rfl
  · have body : sealedBody C role s type payload = ((recordHeader type s).drop 3).take 8 ++
        dtlsEncrypt C payload
          (padBlock (dtlsKbLocalIv s.keyBlock role ++ ((recordHeader type s).drop 3).take 8))
          (dtlsKbLocalWriteKey s.keyBlock role) (additionalData (recordHeader type s) payload.length)
        := by rw [sealedBody, if_neg hc]
    have nonce : ((Ptr.ofBytes (sealed C role s type payload)).add (13 : Nat)).bytes 8
        = ((recordHeader type s).drop 3).take 8 := by
      refine ofBytes_middle_at ((recordHeader type s).take 11 ++
        dtlsIntToUint16 (sealedLength s payload)) _ (dtlsEncrypt C payload
          (padBlock (dtlsKbLocalIv s.keyBlock role ++ ((recordHeader type s).drop 3).take 8))
          (dtlsKbLocalWriteKey s.keyBlock role)
          (additionalData (recordHeader type s) payload.length)) ?_ ?_ (length_start type s).symm
      · rw [sealed_eq, body]
        exact (List.append_assoc _ _ _).symm
      · rw [List.length_append, head, two]
    have text : ((Ptr.ofBytes (sealed C role s type payload)).add (21 : Nat)).bytes
        (payload.length + 8) = dtlsEncrypt C payload
          (padBlock (dtlsKbLocalIv s.keyBlock role ++ ((recordHeader type s).drop 3).take 8))
          (dtlsKbLocalWriteKey s.keyBlock role)
          (additionalData (recordHeader type s) payload.length) := by
      refine ofBytes_middle_at ((recordHeader type s).take 11 ++
        dtlsIntToUint16 (sealedLength s payload) ++ ((recordHeader type s).drop 3).take 8) _ [] ?_ ?_
        (length_dtlsEncrypt _ _ _ _ _).symm
      · rw [sealed_eq, body, List.append_nil]
        simp only [List.append_assoc]
      · rw [List.length_append, List.length_append, head, two, length_start]
    have aad : additionalData ((Ptr.ofBytes (sealed C role s type payload)).bytes 13) payload.length
        = additionalData (recordHeader type s) payload.length := by
      refine additionalData_congr ?_ _
      rw [ofBytes_start ((recordHeader type s).take 11 ++
        dtlsIntToUint16 (sealedLength s payload)) _ (sealed_eq _ _ _ _ _)
        (by rw [List.length_append, head, two]), List.take_left' head]
    obtain ⟨rest, hdec⟩ := decrypt_encrypt (C.rijndael (dtlsKbLocalWriteKey s.keyBlock role)) 8 3
      (padBlock (dtlsKbLocalIv s.keyBlock role ++ ((recordHeader type s).drop 3).take 8)) payload
      (additionalData (recordHeader type s) payload.length) (by decide)
    have length : ((sealed C role s type payload).length : Int) - dtlsRhLength
        = payload.length + 16 := by
      rw [length_sealed, sealedLength, if_neg hc]
      unfold dtlsRhLength
      omega
    have count : ((payload.length : Int) + 16 - 8).toNat = payload.length + 8 := by omega
    have count' : payload.length + 8 - 8 = payload.length := by omega
    have decrypted : dtlsDecrypt C (((Ptr.ofBytes (sealed C role s type payload)).add 21).bytes
        (payload.length + 8))
        (padBlock (dtlsKbRemoteIv s'.keyBlock role.other ++
          ((Ptr.ofBytes (sealed C role s type payload)).add 13).bytes 8))
        (dtlsKbRemoteWriteKey s'.keyBlock role.other)
        (additionalData ((Ptr.ofBytes (sealed C role s type payload)).bytes 13) payload.length)
        = (some payload.length, payload ++ rest) := by
      rw [keyBlock, remoteIv_other, remoteWriteKey_other, aad]
      have hn : ((Ptr.ofBytes (sealed C role s type payload)).add 13).bytes 8 = _ := nonce
      have ht : ((Ptr.ofBytes (sealed C role s type payload)).add 21).bytes (payload.length + 8)
        = _ := text
      rw [hn, ht]
      exact hdec
    simp only [openRecord, cipher, if_neg hc, length]
    rw [if_neg (by omega), count, count', decrypted]
    exact ⟨rfl, overwrite_bytes _ 21 payload rest⟩

/-! ## The record in a datagram -/

theorem sealed_type (C : Primitives) (role : DtlsPeerType) (s : SecurityParameters)
    {type : Nat} (payload : Bytes) (ht : type < 256) :
    (Ptr.ofBytes (sealed C role s type payload)).uint8 = type := by
  have first : (Ptr.ofBytes (sealed C role s type payload)).bytes 1 = dtlsIntToUint8 type :=
    ofBytes_start (dtlsIntToUint8 type) _ (by rw [sealed_eq]; rfl) (length_intToBytes 1 type).symm
  rw [Ptr.uint8, first, dtlsIntToUint8, bytesToInt_intToBytes_of_lt ht]

theorem sealed_version (C : Primitives) (role : DtlsPeerType) (s : SecurityParameters)
    (type : Nat) (payload : Bytes) :
    ((Ptr.ofBytes (sealed C role s type payload)).add 1).uint16 = dtlsVersion := by
  have version : ((Ptr.ofBytes (sealed C role s type payload)).add (1 : Nat)).bytes 2
      = dtlsIntToUint16 dtlsVersion :=
    ofBytes_middle_at (dtlsIntToUint8 type) _ _ (by rw [sealed_eq]; rfl)
      (length_intToBytes 1 type) (length_intToBytes 2 _).symm
  have version' : ((Ptr.ofBytes (sealed C role s type payload)).add 1).bytes 2 = _ := version
  rw [Ptr.uint16, version']
  rfl

theorem sealed_epoch (C : Primitives) (role : DtlsPeerType) (s : SecurityParameters)
    (type : Nat) (payload : Bytes) (he : s.epoch < 2 ^ 16) :
    dtlsGetEpoch (Ptr.ofBytes (sealed C role s type payload)) = s.epoch := by
  have epoch : ((Ptr.ofBytes (sealed C role s type payload)).add (3 : Nat)).bytes 2
      = dtlsIntToUint16 s.epoch :=
    ofBytes_middle_at (dtlsIntToUint8 type ++ dtlsIntToUint16 dtlsVersion) _ _
      (by rw [sealed_eq]; rfl) rfl (length_intToBytes 2 _).symm
  have epoch' : ((Ptr.ofBytes (sealed C role s type payload)).add 3).bytes 2 = _ := epoch
  rw [dtlsGetEpoch, Ptr.uint16, epoch', dtlsIntToUint16, bytesToInt_intToBytes_of_lt he]

theorem sealed_length (C : Primitives) (role : DtlsPeerType) (s : SecurityParameters)
    (type : Nat) (payload : Bytes) (hl : sealedLength s payload < 2 ^ 16) :
    ((Ptr.ofBytes (sealed C role s type payload)).add 11).uint16 = sealedLength s payload := by
  have length : ((Ptr.ofBytes (sealed C role s type payload)).add (11 : Nat)).bytes 2
      = dtlsIntToUint16 (sealedLength s payload) :=
    ofBytes_middle_at ((recordHeader type s).take 11) _ _ (sealed_eq _ _ _ _ _)
      (by rw [List.length_take, length_recordHeader]; rfl) (length_intToBytes 2 _).symm
  have length' : ((Ptr.ofBytes (sealed C role s type payload)).add 11).bytes 2 = _ := length
  rw [Ptr.uint16, length', dtlsIntToUint16, bytesToInt_intToBytes_of_lt hl]

/-- **RECORD LAYER**: a record that one side builds under a cipher opens, on the other side
    and with the same keys for its epoch, to the pieces it was built from. -/
theorem record_roundTrip {w' : World} {b : Addr} {s' : SecurityParameters} {slot slot' : Slot}
    (type rlen : Nat) (pieces : List Bytes) (hs : (w.heap a).security slot = some s)
    (cipher : s.cipher ≠ tlsNullWithNullNull) (epoch : s.epoch < 2 ^ 16)
    (fits : pieces.flatten.length + 29 ≤ rlen) (role : (w'.heap b).role = (w.heap a).role.other)
    (found : dtlsSecurityParamsEpoch (w'.heap b) s.epoch = some slot')
    (hs' : (w'.heap b).security slot' = some s') (cipher' : s'.cipher = s.cipher)
    (keyBlock : s'.keyBlock = s.keyBlock) :
    ∃ d w₁ o w₁', dtlsPrepareRecord env (some a) (some ⟨a, slot⟩) type pieces rlen w
        = (.ok (.ok d), w₁) ∧
      decryptVerify env b (Ptr.ofBytes d) d.length w' = (.ok o, w₁') ∧
      d.length = pieces.flatten.length + 29 ∧ o.verified = true ∧
      o.length = pieces.flatten.length ∧
      o.data.bytes pieces.flatten.length = pieces.flatten := by
  have opened := openRecord_sealed env.prims (w.heap a).role s s' type pieces.flatten cipher'
    keyBlock
  have verified := openRecord_verified (le_of_le_of_eq (Int.natCast_nonneg _) opened.1.symm)
    (cipher'.symm ▸ cipher)
  have packet : decryptPacket env.prims (w'.heap b)
      (Ptr.ofBytes (sealed env.prims (w.heap a).role s type pieces.flatten))
      (sealed env.prims (w.heap a).role s type pieces.flatten).length
      = openRecord env.prims (w.heap a).role.other s'
        (Ptr.ofBytes (sealed env.prims (w.heap a).role s type pieces.flatten))
        (sealed env.prims (w.heap a).role s type pieces.flatten).length := by
    rw [decryptPacket, sealed_epoch _ _ _ _ _ epoch, found, Option.bind_some, hs', role]
  refine ⟨_, _, _, (dtlsSecurityParamsFreeOther b w').2,
    prepareRecord_sealed type pieces hs (by omega), ?_, ?_, verified, opened⟩
  · rw [decryptVerify, getPeer_bind, packet, when, if_pos verified]
    rfl
  · rw [length_sealed, sealedLength, if_neg cipher]
    omega

/-- A peer of the given role with keys for epoch 1. -/
def keyedPeer (role : DtlsPeerType) : Peer :=
  { emptyPeer (sampleSession 0) with
    role := role
    security0 := some { dtlsSecurityNew with cipher := tlsPskWithAes128Ccm8, epoch := 1 } }

theorem record_roundTrip_two :
    ∃ d w₁ o w₁', dtlsPrepareRecord sampleEnv (some 0) (some ⟨0, .zero⟩) dtlsCtApplicationData
        [[1, 2], [3]] 32 (sampleWorld.setPeer 0 (keyedPeer .client)) = (.ok (.ok d), w₁) ∧
      decryptVerify sampleEnv 0 (Ptr.ofBytes d) d.length (sampleWorld.setPeer 0 (keyedPeer .server))
        = (.ok o, w₁') ∧
      d.length = 3 + 29 ∧ o.verified = true ∧ o.length = 3 ∧ o.data.bytes 3 = [1, 2, 3] :=
  @record_roundTrip _ (sampleWorld.setPeer 0 (keyedPeer .client)) 0
    { dtlsSecurityNew with cipher := tlsPskWithAes128Ccm8, epoch := 1 }
    (sampleWorld.setPeer 0 (keyedPeer .server)) 0
    { dtlsSecurityNew with cipher := tlsPskWithAes128Ccm8, epoch := 1 } .zero .zero
    dtlsCtApplicationData 32 [[1, 2], [3]] rfl (by decide) (by decide) (by decide) rfl
    (by decide) rfl rfl rfl

end PqDtls.Dtls
