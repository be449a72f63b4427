import PqDtls.Dtls.Fragmentation
import PqDtls.Dtls.SourceAuth

/-! # What one side writes and the other reads

    The TESLA synchronisation, the ClientKeyExchange and the ServerHello: what the
    encoder of one side puts into a message is compared with what the decoder of the
    other side takes out of it.

    Both sides hash the same bytes of a synchronisation, but only the first of the
    four bytes of `rate`.  The ClientKeyExchange is read as it was written, apart
    from the leaf index, which is read and not used.  In the ServerHello of the ECDHE
    suite the extensions stand where the decoder looks for the nonce. -/

namespace PqDtls.Dtls

open Program (get gets modify stop ofOption when)
open Ksnmss

variable {env : Env} {w : World} {a : Addr} {h : HandshakeParameters}

/-! ## Memory that holds a message -/

/-- The bytes `b` are what is found at `p`. -/
def Ptr.Holds (p : Ptr) (b : Bytes) : Prop := p.bytes b.length = b

theorem Ptr.Holds.bytes {p : Ptr} {b : Bytes} {n : Nat} (h : p.Holds b) (hn : n = b.length) :
    p.bytes n = b := by
  subst hn
  exact h

theorem ofBytes_holds (b : Bytes) : (Ptr.ofBytes b).Holds b := Ptr.ofBytes_bytes b

/-- One piece after the other. -/
theorem holds_append {p : Ptr} {a b : Bytes} :
    p.Holds (a ++ b) ↔ p.Holds a ∧ (p.add a.length).Holds b := by
  unfold Ptr.Holds
  rw [List.length_append, Ptr.bytes_add]
  constructor
  · intro h
    exact List.append_inj h (Ptr.length_bytes _ _)
  · rintro ⟨ha, hb⟩
    rw [ha, hb]

/-- The piece at a known offset. -/
theorem Ptr.Holds.next {p : Ptr} {a b : Bytes} {n : Nat} (h : p.Holds (a ++ b))
    (hn : a.length = n) : (p.add n).Holds b := by
  subst hn
  exact (holds_append.mp h).2

theorem Ptr.Holds.first {p : Ptr} {a b : Bytes} (h : p.Holds (a ++ b)) : p.Holds a :=
  (holds_append.mp h).1

theorem array_of_holds {n : Nat} {p : Ptr} {v : Vector UInt8 n} (h : p.Holds v.toList) :
    p.array n = v := by
  apply Vector.toList_inj.mp
  rw [Ptr.toList_array]
  exact h.bytes (Vector.length_toList).symm

/-- The arrays of a sequence of arrays. -/
theorem holds_flatMap {n : Nat} {p : Ptr} {l : List (Vector UInt8 n)}
    (h : p.Holds (l.flatMap Vector.toList)) (i : Nat) (hi : i < l.length) :
    (p.add (n * i : Nat)).Holds l[i].toList := by
  induction l generalizing p i with
  | nil => exact absurd hi (Nat.not_lt_zero i)
  | cons v l ih =>
      rw [List.flatMap_cons] at h
      cases i with
      | zero =>
          rw [Nat.mul_zero, Nat.cast_zero, Ptr.add_zero]
          exact h.first
      | succ i =>
          have rest := ih (h.next (Vector.length_toList)) i (Nat.lt_of_succ_lt_succ hi)
          have offset : ((n : Int) + (n * i : Nat)) = (n * (i + 1) : Nat) := by
            rw [Nat.mul_succ, Nat.cast_add, add_comm]
          rw [Ptr.add_add, offset] at rest
          exact rest

theorem number_of_holds {p : Ptr} {n v : Nat} (h : p.Holds (intToBytes n v)) :
    bytesToInt (p.bytes n) = v % 256 ^ n := by
  rw [h.bytes (length_intToBytes n v).symm, bytesToInt_intToBytes]

/-! ## The synchronisation -/

/-- The fields have the sizes of `tesla_sync`. -/
structure TeslaSync.Sized (t : TeslaSync) : Prop where
  TSender : t.TSender.length = 16
  rate : t.rate.length = 4
  intervalId : t.intervalId.length = 4
  TStart : t.TStart.length = 16
  TInt : t.TInt.length = 4
  disDelay : t.disDelay.length = 1
  keyChainLen : t.keyChainLen.length = 4

theorem sized_readTeslaSync (p : Ptr) : (readTeslaSync p).Sized :=
  ⟨Ptr.length_bytes _ _, Ptr.length_bytes _ _, Ptr.length_bytes _ _, Ptr.length_bytes _ _,
    Ptr.length_bytes _ _, Ptr.length_bytes _ _, Ptr.length_bytes _ _⟩

theorem TeslaSync.Sized.length_bytes {t : TeslaSync} (h : t.Sized) :
    t.bytes.length = dtlsTeslaSynLength := by
  simp only [TeslaSync.bytes, List.length_append, Vector.length_toList, h.TSender, h.rate,
    h.intervalId, h.TStart, h.TInt, h.disDelay, h.keyChainLen]
  rfl

/-- **A synchronisation is read as it was written.** -/
theorem readTeslaSync_of_holds {p : Ptr} {t : TeslaSync} (ht : t.Sized) (h : p.Holds t.bytes) :
    readTeslaSync p = t := by
  unfold TeslaSync.bytes at h
  have nonce : p.array 32 = t.nonce :=
    array_of_holds h.first.first.first.first.first.first.first.first
  have TSender : (p.add (32 : Nat)).bytes 16 = t.TSender :=
    (h.first.first.first.first.first.first.first.next (Vector.length_toList)).bytes ht.TSender.symm
  have rate : (p.add (48 : Nat)).bytes 4 = t.rate := by
    refine (h.first.first.first.first.first.first.next ?_).bytes ht.rate.symm
    simp [ht.TSender]
  have intervalId : (p.add (52 : Nat)).bytes 4 = t.intervalId := by
    refine (h.first.first.first.first.first.next ?_).bytes ht.intervalId.symm
    simp [ht.TSender, ht.rate]
  have TStart : (p.add (56 : Nat)).bytes 16 = t.TStart := by
    refine (h.first.first.first.first.next ?_).bytes ht.TStart.symm
    simp [ht.TSender, ht.rate, ht.intervalId]
  have TInt : (p.add (72 : Nat)).bytes 4 = t.TInt := by
    refine (h.first.first.first.next ?_).bytes ht.TInt.symm
    simp [ht.TSender, ht.rate, ht.intervalId, ht.TStart]
  have disDelay : (p.add (76 : Nat)).bytes 1 = t.disDelay := by
    refine (h.first.first.next ?_).bytes ht.disDelay.symm
    simp [ht.TSender, ht.rate, ht.intervalId, ht.TStart, ht.TInt]
  have keyChainLen : (p.add (77 : Nat)).bytes 4 = t.keyChainLen := by
    refine (h.first.next ?_).bytes ht.keyChainLen.symm
    simp [ht.TSender, ht.rate, ht.intervalId, ht.TStart, ht.TInt, ht.disDelay]
  have KeyComm : (p.add (81 : Nat)).array 32 = t.KeyComm := by
    refine array_of_holds (h.next ?_)
    simp [ht.TSender, ht.rate, ht.intervalId, ht.TStart, ht.TInt, ht.disDelay, ht.keyChainLen]
  unfold readTeslaSync
  calc (⟨p.array 32, (p.add (32 : Nat)).bytes 16, (p.add (48 : Nat)).bytes 4,
        (p.add (52 : Nat)).bytes 4, (p.add (56 : Nat)).bytes 16, (p.add (72 : Nat)).bytes 4,
        (p.add (76 : Nat)).bytes 1, (p.add (77 : Nat)).bytes 4, (p.add (81 : Nat)).array 32⟩ :
        TeslaSync)
      = ⟨t.nonce, t.TSender, t.rate, t.intervalId, t.TStart, t.TInt, t.disDelay, t.keyChainLen,
          t.KeyComm⟩ := by
        rw [nonce, TSender, rate, intervalId, TStart, TInt, disDelay, keyChainLen, KeyComm]
    _ = t := rfl

/-! ### What is hashed of it -/

/-- What is left out are three of the four bytes of `rate`. -/
theorem TeslaSync.Sized.hashInput_eq {t : TeslaSync} (h : t.Sized) :
    t.hashInput = t.bytes.take 49 ++ t.bytes.drop 52 := by
  have front : (t.nonce.toList ++ t.TSender).length = 48 := by simp [h.TSender]
  have parts : t.bytes = (t.nonce.toList ++ t.TSender) ++ (t.rate ++ (t.intervalId ++ t.TStart ++
      t.TInt ++ t.disDelay ++ t.keyChainLen ++ t.KeyComm.toList)) := by
    simp only [TeslaSync.bytes, List.append_assoc]
  have take : t.bytes.take 49 = t.nonce.toList ++ t.TSender ++ t.rate.take 1 := by
    rw [parts, List.take_append, front, List.take_of_length_le (by omega),
      List.take_append_of_le_length (by rw [h.rate]; decide)]
  have drop : t.bytes.drop 52 = t.intervalId ++ t.TStart ++ t.TInt ++ t.disDelay ++
      t.keyChainLen ++ t.KeyComm.toList := by
    rw [parts, ← List.append_assoc, List.drop_left' (by rw [List.length_append, front, h.rate])]
  rw [take, drop, TeslaSync.hashInput]
  simp only [List.append_assoc]

/-- **COVERAGE**: two different synchronisations are told apart by what is hashed of them
    exactly when they differ in another byte than the last three of `rate`. -/
theorem hashInput_covers {t t' : TeslaSync} (ht : t.Sized) (ht' : t'.Sized) :
    (t.bytes ≠ t'.bytes → t.hashInput ≠ t'.hashInput) ↔
      (t.bytes = t'.bytes ∨ ∃ i, (i < 49 ∨ 52 ≤ i) ∧ t.bytes[i]? ≠ t'.bytes[i]?) := by
  have same : t.hashInput = t'.hashInput ↔
      ∀ i, (i < 49 ∨ 52 ≤ i) → t.bytes[i]? = t'.bytes[i]? := by
    rw [ht.hashInput_eq, ht'.hashInput_eq]
    constructor
    · intro heq i hi
      obtain ⟨htake, hdrop⟩ := List.append_inj heq (by
        rw [List.length_take, List.length_take, ht.length_bytes, ht'.length_bytes])
      cases hi with
      | inl hi =>
          have at_i := congrArg (fun l : Bytes => l[i]?) htake
          simpa only [List.getElem?_take, if_pos hi] using at_i
      | inr hi =>
          have at_i := congrArg (fun l : Bytes => l[i - 52]?) hdrop
          simpa only [List.getElem?_drop, Nat.add_sub_cancel' hi] using at_i
    · intro hall
      congr 1
      · apply List.ext_getElem?
        intro i
        rw [List.getElem?_take, List.getElem?_take]
        by_cases hi : i < 49
        · rw [if_pos hi, if_pos hi, hall i (.inl hi)]
        · rw [if_neg hi, if_neg hi]
      · apply List.ext_getElem?
        intro i
        rw [List.getElem?_drop, List.getElem?_drop]
        exact hall _ (.inr (Nat.le_add_right _ _))
  constructor
  · intro h
    by_cases heq : t.bytes = t'.bytes
    · exact .inl heq
    · refine .inr ?_
      by_contra hno
      refine h heq (same.mpr fun i hi => ?_)
      by_contra hne
      exact hno ⟨i, hi, hne⟩
  · rintro (heq | ⟨i, hi, hne⟩) hdiff
    · exact absurd heq hdiff
    · exact fun hsame => hne (same.mp hsame i hi)

/-- A synchronisation of zeros, with the given rate. -/
def ratedSync (rate : Nat) : TeslaSync :=
  { readTeslaSync (fun _ => 0) with rate := dtlsIntToUint32 rate }

theorem sized_ratedSync (rate : Nat) : (ratedSync rate).Sized :=
  { sized_readTeslaSync (fun _ => 0) with rate := length_intToBytes 4 rate }

theorem hashInput_covers_rate :
    ((ratedSync 0).bytes ≠ (ratedSync (2 ^ 24)).bytes →
        (ratedSync 0).hashInput ≠ (ratedSync (2 ^ 24)).hashInput) ↔
      ((ratedSync 0).bytes = (ratedSync (2 ^ 24)).bytes ∨ ∃ i, (i < 49 ∨ 52 ≤ i) ∧
        (ratedSync 0).bytes[i]? ≠ (ratedSync (2 ^ 24)).bytes[i]?) :=
  hashInput_covers (sized_ratedSync 0) (sized_ratedSync (2 ^ 24))

/-- The rates 0 and 1 are hashed alike. -/
theorem hashInput_uncovered :
    ¬ ∀ t t' : TeslaSync, t.Sized → t'.Sized → t.bytes ≠ t'.bytes → t.hashInput ≠ t'.hashInput := by
  intro h
  exact h (ratedSync 0) (ratedSync 1) (sized_ratedSync 0) (sized_ratedSync 1) (by decide)
    (by decide)

/-! ## The signature -/

theorem length_flatMap_toList {n : Nat} (l : List (Vector UInt8 n)) :
    (l.flatMap Vector.toList).length = n * l.length := by
  induction l with
  | nil => rfl
  | cons v l ih =>
      rw [List.flatMap_cons, List.length_append, Vector.length_toList, ih, List.length_cons,
        Nat.mul_succ, Nat.add_comm]

theorem length_ksnmssSigBytes (sig : KsnmssSig) :
    (ksnmssSigBytes sig).length = ksnmssSigLength := by
  simp only [ksnmssSigBytes, List.length_append, length_flatMap_toList, Vector.length_toList,
    dtlsIntToUint64, length_intToBytes]
  rfl

/-- The vector of the arrays of a sequence. -/
theorem vector_of_holds {m n : Nat} {p : Ptr} {v : Vector (Vector UInt8 n) m}
    (h : p.Holds (v.toList.flatMap Vector.toList)) :
    (Vector.ofFn fun i : Fin m => (p.add (n * i.val : Nat)).array n) = v := by
  apply Vector.ext
  intro i hi
  rw [Vector.getElem_ofFn]
  have element := holds_flatMap h i (by rw [Vector.length_toList]; exact hi)
  rw [Vector.getElem_toList] at element
  exact array_of_holds element

/-- **A signature is read as it was written**, if its leaf index has 32 bits. -/
theorem readKsnmssSig_of_holds {p : Ptr} {sig : KsnmssSig} (hid : sig.id < 2 ^ 32)
    (h : p.Holds (ksnmssSigBytes sig)) : readKsnmssSig p = sig := by
  obtain ⟨id, message, sksum, pk, auth⟩ := sig
  unfold ksnmssSigBytes at h
  have hId : p.uint64 % 2 ^ 32 = id := by
    have number : p.uint64 = id % 256 ^ 8 := number_of_holds h.first.first.first.first
    have hid : id < 2 ^ 32 := hid
    rw [number]
    omega
  have hMessage : (p.add (8 : Nat)).array k2snMsglen = message :=
    array_of_holds (h.first.first.first.next (length_intToBytes 8 id))
  have hSksum : (p.add (40 : Nat)).array (sklen * 8) = sksum := by
    refine array_of_holds (h.first.first.next ?_)
    rw [List.length_append, Vector.length_toList, dtlsIntToUint64, length_intToBytes]
    rfl
  have hPk : (Vector.ofFn fun it : Fin Cff.k2snT =>
      ((p.add (1064 : Nat)).add (72 * it.val : Nat)).array pklen) = pk := by
    refine vector_of_holds (h.first.next ?_)
    simp only [List.length_append, Vector.length_toList, dtlsIntToUint64, length_intToBytes]
    rfl
  have hAuth : (Vector.ofFn fun it : Fin hlength =>
      ((p.add (19928 : Nat)).add (72 * it.val : Nat)).array pklen) = auth := by
    refine vector_of_holds (h.next ?_)
    simp only [List.length_append, length_flatMap_toList, Vector.length_toList, dtlsIntToUint64,
      length_intToBytes]
    rfl
  have offset (k i : Nat) : (p.add k).add (72 * i : Nat) = p.add (k + 72 * (i : Int)) := by
    rw [Ptr.add_add, Nat.cast_mul]
    rfl
  simp only [offset] at hPk hAuth
  unfold readKsnmssSig
  rw [KsnmssSig.mk.injEq]
  exact ⟨hId, hMessage, hSksum, hPk, hAuth⟩

/-! ## ClientKeyExchange -/

/-- The body of a ClientKeyExchange, from the part in front of the synchronisation on. -/
def keyExchangeBody (share : Bytes) (tsync : TeslaSync) (sig : KsnmssSig) (root : Node) : Bytes :=
  share ++ tsync.bytes ++ ksnmssSigBytes sig ++ root.toList

/-- What `dtls_send_client_key_exchange` sends, once it has its key share. -/
def sendKeyExchange (env : Env) (a : Addr) (share : Bytes) : M Int := do
  let tsync ← startTesla env a
  let sig ← signHash env 0 (env.prims.sha256 tsync.hashInput)
  let MSSPK ← gets fun w => w.signer.MSSPK
  assertThat ((keyExchangeBody share tsync sig MSSPK).length ≤ dtlsCkxecLength)
  dtlsSendHandshakeMsg env a dtlsHtClientKeyExchange (keyExchangeBody share tsync sig MSSPK)

theorem sendClientKeyExchange_eq (env : Env) (a : Addr) :
    dtlsSendClientKeyExchange env a = (do
      let _ ← dtlsFillRandom env 32
      let p ← getPeer a
      match p.handshakeParams with
      | none => pure (dtlsAlertFatalCreate .internalError)
      | some h => do
          let share ← clientKeyShare env a p h
          match share with
          | .error err => pure err
          | .ok share => sendKeyExchange env a share) := rfl

/-- The key share of the PSK suite. -/
def identityShare (identity : Bytes) : Bytes := dtlsIntToUint16 identity.length ++ identity

/-- The key share of a client in a PSK handshake is its identity. -/
theorem clientKeyShare_psk {p : Peer} {share : Bytes} {w' : World}
    (hc : h.cipher = tlsPskWithAes128Ccm8)
    (hrun : clientKeyShare env a p h w = (.ok (.ok share), w')) :
    ∃ identity, identity.length ≤ dtlsPskMaxClientIdentityLen ∧ share = identityShare identity := by
  have psk : isTlsPskWithAes128Ccm8 h.cipher = true := by rw [hc]; rfl
  rw [clientKeyShare, if_pos psk, Program.bind_apply] at hrun
  split at hrun
  · rename_i r w₁ _
    split at hrun
    · cases hrun
    split at hrun
    · exact absurd (modifyHandshake_pure_ok hrun) nofun
    split at hrun
    · cases hrun
    · rename_i hlen
      refine ⟨r.2.bytes r.1.toNat, ?_, ?_⟩
      · rw [Ptr.length_bytes]
        exact not_lt.mp hlen
      · exact Except.ok.inj (modifyHandshake_pure_ok hrun)
  · cases hrun

/-- The arguments of a call of `ksnmss_verify`. -/
structure VerifyCall where
  key : Node
  id : Nat
  hash : Digest
  sig : KsnmssSig

/-- The call for a ClientKeyExchange; the index is a local variable that is 0. -/
def keyExchangeCall (env : Env) (data : Ptr) (dataLength : Nat) : VerifyCall where
  key := keyExchangeKey data dataLength
  id := 0
  hash := keyExchangeHash env data dataLength
  sig := readKsnmssSig (data.add (teslaSyncOffset dataLength + dtlsTeslaSynLength))

/-- It is the call that `handle_handshake_msg` makes. -/
theorem keyExchangeVerified_eq (env : Env) (data : Ptr) (dataLength : Nat) :
    keyExchangeVerified env data dataLength
      = ksnmssVerify env.ksnmss (keyExchangeCall env data dataLength).key
          (keyExchangeCall env data dataLength).id (keyExchangeCall env data dataLength).hash
          (keyExchangeCall env data dataLength).sig := rfl

/-- A server takes out of the message what the client has put in, and verifies the
    signature for the leaf that is named in it. -/
structure KeyExchangeRead (env : Env) (w : World) (a : Addr) (h : HandshakeParameters) (data : Ptr)
    (dataLength : Nat) (identity : Bytes) (tsync : TeslaSync) (sig : KsnmssSig) (root : Node) :
    Prop where
  sameIdentity : ∃ h' w', checkClientKeyExchange a h data dataLength w = (.ok 0, w') ∧
    (w'.heap a).handshakeParams = some h' ∧
    h'.psk.identity.toList.take h'.psk.idLength = identity
  sameSync : readTeslaSync (data.add (teslaSyncOffset dataLength)) = tsync
  sameHash : (keyExchangeCall env data dataLength).hash = env.prims.sha256 tsync.hashInput
  sameSig : (keyExchangeCall env data dataLength).sig = sig
  sameKey : (keyExchangeCall env data dataLength).key = root
  sameIndex : (keyExchangeCall env data dataLength).id = sig.id

theorem length_identityShare (identity : Bytes) :
    (identityShare identity).length = dtlsCkxpskLengthMin + identity.length := by
  rw [identityShare, List.length_append, dtlsIntToUint16, length_intToBytes]
  rfl

theorem overlay_start {n : Nat} (v : Vector UInt8 n) (b : Bytes) (hb : b.length ≤ n) :
    (overlay v 0 b).toList.take b.length = b := by
  apply List.ext_getElem
  · rw [List.length_take, Vector.length_toList, min_eq_left hb]
  · intro i h₁ h₂
    have inside : 0 ≤ i ∧ i < 0 + b.length := ⟨Nat.zero_le i, by omega⟩
    simp only [List.getElem_take, Vector.getElem_toList, overlay, Vector.getElem_ofFn, if_pos inside,
      Nat.sub_zero, List.getD_eq_getElem?_getD, List.getElem?_eq_getElem h₂, Option.getD_some]

/-- The identity is what `check_client_keyexchange` stores. -/
theorem checkClientKeyExchange_identity {data : Ptr} {dataLength : Nat} {identity rest : Bytes}
    (hc : h.cipher = tlsPskWithAes128Ccm8) (hp : (w.heap a).handshakeParams = some h)
    (hid : identity.length ≤ dtlsPskMaxClientIdentityLen)
    (hlen : dataLength = dtlsHsLength + (identityShare identity).length + dtlsTeslaSynLength +
      ksnmssSigLength + 72)
    (hdata : (data.add (12 : Nat)).Holds (identityShare identity ++ rest)) :
    ∃ h' w', checkClientKeyExchange a h data dataLength w = (.ok 0, w') ∧
      (w'.heap a).handshakeParams = some h' ∧
      h'.psk.identity.toList.take h'.psk.idLength = identity := by
  have max : dtlsPskMaxClientIdentityLen = 32 := rfl
  have header : dtlsHsLength = 12 := rfl
  have least : dtlsCkxpskLengthMin = 2 := rfl
  have ec : ¬ isTlsEcdheEcdsaWithAes128Ccm8 h.cipher = true := by rw [hc]; decide
  have psk : isTlsPskWithAes128Ccm8 h.cipher = true := by rw [hc]; rfl
  have idLength : (data.add 12).uint16 = identity.length := by
    have number : bytesToInt ((data.add (12 : Nat)).bytes 2) = identity.length % 256 ^ 2 :=
      number_of_holds hdata.first.first
    rw [Nat.mod_eq_of_lt (by omega)] at number
    exact number
  have idBytes : (data.add 14).bytes identity.length = identity := by
    have next := hdata.first.next (length_intToBytes 2 identity.length)
    rw [Ptr.add_add] at next
    exact next
  rw [length_identityShare] at hlen
  let h' := { h with psk := ⟨identity.length, overlay h.psk.identity 0 identity⟩ }
  refine ⟨h', w.setPeer a { w.heap a with handshakeParams := some h' }, ?_, ?_, ?_⟩
  · rw [checkClientKeyExchange, if_neg ec, if_pos psk, idLength, if_neg (by omega)]
    simp only
    rw [if_neg (by omega), if_neg (by omega), idBytes, Program.bind_ok (modifyHandshake_some _ hp)]
    rfl
  · rw [heap_setPeer]
  · exact overlay_start _ _ (by omega)

/-- A peer in a PSK handshake. -/
def pskHandshake : HandshakeParameters := { emptyHandshake with cipher := tlsPskWithAes128Ccm8 }

/-- A world with this peer. -/
def pskWorld : World :=
  sampleWorld.setPeer 0 { emptyPeer (sampleSession 0) with handshakeParams := some pskHandshake }

/-- A signature of zeros for the given leaf. -/
def leafSig (id : Nat) : KsnmssSig := { readKsnmssSig (fun _ => 0) with id := id }

theorem overlay_end {n off : Nat} (v : Vector UInt8 n) (b : Bytes) (hb : off + b.length = n) :
    (overlay v off b).toList.drop off = b := by
  apply List.ext_getElem
  · rw [List.length_drop, Vector.length_toList]
    omega
  · intro i h₁ h₂
    have inside : off ≤ off + i ∧ off + i < off + b.length := ⟨Nat.le_add_right _ _, by omega⟩
    simp only [List.getElem_drop, Vector.getElem_toList, overlay, Vector.getElem_ofFn,
      if_pos inside, Nat.add_sub_cancel_left, List.getD_eq_getElem?_getD,
      List.getElem?_eq_getElem h₂, Option.getD_some]

theorem randomServer_writeTmp (h : HandshakeParameters) {b : Bytes} (hb : b.length = 32) :
    (h.writeTmp 32 b).randomServer = b := overlay_end h.tmp b (by omega)

theorem length_randomServer (h : HandshakeParameters) : h.randomServer.length = 32 := by
  rw [HandshakeParameters.randomServer, List.length_drop, Vector.length_toList]

theorem Ptr.Holds.take {p : Ptr} {b : Bytes} {n : Nat} (h : p.Holds b) (hn : n ≤ b.length) :
    p.bytes n = b.take n := by
  have front : p.Holds (b.take n) := by
    refine Ptr.Holds.first (b := b.drop n) ?_
    rw [List.take_append_drop]
    exact h
  exact front.bytes (by rw [List.length_take, min_eq_left hn])

/-- A suite the server may have selected. -/
def Selectable (cipher : Nat) : Prop :=
  cipher = tlsPskWithAes128Ccm8 ∨ cipher = tlsEcdheEcdsaWithAes128Ccm8

/-- What stands behind the compression method. -/
def serverHelloTail (h : HandshakeParameters) (nonce : Digest) : Bytes :=
  (if isTlsEcdheEcdsaWithAes128Ccm8 h.cipher then serverHelloExtensions else []) ++ nonce.toList

theorem serverHello_eq {nonce : Digest} (hc : Selectable h.cipher) :
    serverHello h nonce = dtlsIntToUint16 dtlsVersion ++ h.randomServer ++ [0] ++
      dtlsIntToUint16 h.cipher ++ [0] ++ serverHelloTail h nonce := by
  have cipher : h.cipher ≠ tlsNullWithNullNull := by
    rcases hc with hc | hc <;> rw [hc] <;> decide
  have compression : compressionMethods.getD h.compression 0 = 0 := by
    cases hn : h.compression with
    | zero => rfl
    | succ n => rfl
  rw [serverHello, if_pos cipher, compression, serverHelloTail]
  simp only [List.append_assoc]

/-- A client stores what it reads of a ServerHello. -/
structure ServerHelloRead (env : Env) (w : World) (a : Addr) (data : Ptr) (dataLength : Nat)
    (random : Bytes) (cipher : Nat) (nonce : Digest) (h' : HandshakeParameters) (w' : World) :
    Prop where
  run : checkServerHello env a data dataLength w = (.ok 0, w')
  params : (w'.heap a).handshakeParams = some h'
  random : h'.randomServer = random
  cipher : h'.cipher = cipher
  compression : h'.compression = tlsCompressionNull
  nonce : w'.treqNonce = nonce

/-- The parts of a ServerHello in memory. -/
structure HelloParts (data : Ptr) (n : Nat) (h : HandshakeParameters) (nonce : Digest) : Prop where
  length : n = 50 + (serverHelloTail h nonce).length
  version : (data.add 12).uint16 = dtlsVersion
  random : (data.add 14).bytes 32 = h.randomServer
  sessionId : (data.add 46).uint8 = 0
  cipher : (data.add 47).uint16 = h.cipher
  compression : (data.add 49).uint8 = tlsCompressionNull
  tail : (data.add (50 : Nat)).Holds (serverHelloTail h nonce)

theorem helloParts (seq : Nat) {nonce : Digest} (hc : Selectable h.cipher) :
    HelloParts (Ptr.ofBytes (wholeMessage dtlsHtServerHello seq (serverHello h nonce)))
      (wholeMessage dtlsHtServerHello seq (serverHello h nonce)).length h nonce := by
  have message := ofBytes_holds (wholeMessage dtlsHtServerHello seq (serverHello h nonce))
  have length : (wholeMessage dtlsHtServerHello seq (serverHello h nonce)).length
      = 50 + (serverHelloTail h nonce).length := by
    rw [wholeMessage, List.length_append, length_messageHeader, serverHello_eq hc]
    simp only [List.length_append, length_randomServer, dtlsIntToUint16, length_intToBytes,
      List.length_singleton]
    omega
  generalize Ptr.ofBytes (wholeMessage dtlsHtServerHello seq (serverHello h nonce)) = data
    at message ⊢
  have body := message.next (length_messageHeader _ _ _ _ _)
  rw [serverHello_eq hc] at body
  -- a piece of the body, by its offset in the message
  have at_offset {a b : Bytes} (k : Nat) (h : (data.add (12 : Nat)).Holds (a ++ b))
      (hk : 12 + a.length = k) : (data.add k).Holds b := by
    have next := h.next rfl
    rw [Ptr.add_add, ← Nat.cast_add, hk] at next
    exact next
  have random := at_offset 14 body.first.first.first.first rfl
  have sessionId := at_offset 46 body.first.first.first (by
    rw [List.length_append, length_randomServer]
    rfl)
  have cipher := at_offset 47 body.first.first (by
    rw [List.length_append, List.length_append, length_randomServer]
    rfl)
  have compression := at_offset 49 body.first (by
    rw [List.length_append, List.length_append, List.length_append, length_randomServer]
    rfl)
  have tail := at_offset 50 body (by
    rw [List.length_append, List.length_append, List.length_append, List.length_append,
      length_randomServer]
    rfl)
  refine ⟨length, ?_, random.bytes (length_randomServer h).symm, ?_, ?_, ?_, tail⟩
  · have number : bytesToInt ((data.add (12 : Nat)).bytes 2) = dtlsVersion % 256 ^ 2 :=
      number_of_holds body.first.first.first.first.first
    exact number
  · have zero : (data.add (46 : Nat)).bytes 1 = [0] := sessionId
    exact congrArg bytesToInt zero
  · have number : bytesToInt ((data.add (47 : Nat)).bytes 2) = h.cipher % 256 ^ 2 :=
      number_of_holds cipher
    have small : h.cipher % 256 ^ 2 = h.cipher := by
      rcases hc with hc | hc <;> rw [hc] <;> decide
    rw [small] at number
    exact number
  · have zero : (data.add (49 : Nat)).bytes 1 = [0] := compression
    exact congrArg bytesToInt zero

/-- What the client ends up with: the nonce is what stands behind the compression method. -/
theorem checkServerHello_read {data : Ptr} {n : Nat} {nonce : Digest}
    {client : HandshakeParameters} (parts : HelloParts data n h nonce)
    (hp : (w.heap a).handshakeParams = some client)
    (hcomp : client.compression = tlsCompressionNull)
    (known : knownCipher env h.cipher true = true) (hn : n < 2 ^ 16) :
    ∃ h' w', ServerHelloRead env w a data n h.randomServer h.cipher
      ((data.add 50).array dtlsTeslaReqLength) h' w' := by
  have tail : (serverHelloTail h nonce).length ≥ 32 := by
    rw [serverHelloTail, List.length_append, Vector.length_toList]
    omega
  have length := parts.length
  let h₁ : HandshakeParameters := { client with hsHash := client.hsHash ++ data.bytes n }
  let h₂ := h₁.writeTmp 32 h.randomServer
  let h₃ : HandshakeParameters := { h₂ with cipher := h.cipher }
  let w₁ := w.setPeer a { w.heap a with handshakeParams := some h₁ }
  let w₂ := w₁.setPeer a { w₁.heap a with handshakeParams := some h₂ }
  let w₃ := w₂.setPeer a { w₂.heap a with handshakeParams := some h₃ }
  have hash : updateHsHash a (data.bytes n) w = (.ok (), w₁) := modifyHandshake_some _ hp
  have hp₁ : (w₁.heap a).handshakeParams = some h₁ := by
    show ((w.setPeer a _).heap a).handshakeParams = _
    rw [heap_setPeer]
  have hp₂ : (w₂.heap a).handshakeParams = some h₂ := by
    show ((w₁.setPeer a _).heap a).handshakeParams = _
    rw [heap_setPeer]
  have hp₃ : (w₃.heap a).handshakeParams = some h₃ := by
    show ((w₂.setPeer a _).heap a).handshakeParams = _
    rw [heap_setPeer]
  have random : modifyHandshake a (fun h' => h'.writeTmp 32 h.randomServer) w₁ = (.ok (), w₂) :=
    modifyHandshake_some _ hp₁
  have cipher : modifyHandshake a (fun h' => { h' with cipher := h.cipher }) w₂ = (.ok (), w₃) :=
    modifyHandshake_some _ hp₂
  -- from the session id on
  have skip : skipVarField (data.add 46) (sizeT ((n : Int) - 46))
      = some (data.add 47, sizeT ((n : Int) - 46) - 1) := by
    have size : sizeT ((n : Int) - 46) = n - 46 := by
      have cast : ((n : Int) - 46) = ((n - 46 : Nat) : Int) := by omega
      rw [cast, sizeT_natCast (by omega)]
    rw [skipVarField, parts.sessionId, size, if_neg (by omega), Ptr.add_add]
    rfl
  refine ⟨h₃, { w₃ with treqNonce := (data.add 50).array dtlsTeslaReqLength }, ?_, hp₃, ?_, rfl, ?_,
    rfl⟩
  · have header : dtlsHsLength = 12 := rfl
    have some' : ¬ (w.heap a).handshakeParams.isNone = true := by
      rw [hp]
      exact nofun
    rw [checkServerHello, getPeer_bind, if_neg (by omega), if_neg some', Program.bind_ok hash]
    have version : (data.add dtlsHsLength).uint16 = dtlsVersion := parts.version
    have randomBytes : (data.add (dtlsHsLength + 2)).bytes dtlsRandomLength = h.randomServer :=
      parts.random
    rw [if_neg (not_not.mpr version), randomBytes, Program.bind_ok random]
    show serverHelloSuite env a (data.add 46) (sizeT ((n : Int) - 46)) w₂ = _
    have found : (data.add 47).uint16 = h.cipher := parts.cipher
    have null : ((data.add 47).add 2).uint8 = tlsCompressionNull := parts.compression
    rw [serverHelloSuite, skip]
    simp only [found]
    rw [Program.bind_ok cipher, known, if_neg (by decide), if_neg (not_not.mpr null)]
    rfl
  · exact randomServer_writeTmp h₁ (length_randomServer h)
  · show (h₁.writeTmp 32 h.randomServer).compression = _
    rw [HandshakeParameters.writeTmp]
    exact hcomp

/-- The nonce that is found is the one that was written, if there are no extensions in
    front of it, or if it reads like them. -/
theorem nonce_read {data : Ptr} {n : Nat} {nonce : Digest} (parts : HelloParts data n h nonce)
    (hc : Selectable h.cipher) :
    (data.add 50).array dtlsTeslaReqLength = nonce ↔ h.cipher = tlsPskWithAes128Ccm8 ∨
      nonce.toList = serverHelloExtensions ++ serverHelloExtensions.take 14 := by
  have length : nonce.toList.length = 32 := Vector.length_toList
  have bytes : (data.add 50).bytes 32 = (serverHelloTail h nonce).take 32 := by
    refine parts.tail.take ?_
    rw [serverHelloTail, List.length_append, length]
    omega
  have found : (data.add 50).array dtlsTeslaReqLength = nonce
      ↔ (serverHelloTail h nonce).take 32 = nonce.toList := by
    rw [← bytes]
    refine Vector.toList_inj.symm.trans ?_
    rw [Ptr.toList_array]
    rfl
  rw [found, serverHelloTail]
  rcases hc with hc | hc
  · have ec : ¬ isTlsEcdheEcdsaWithAes128Ccm8 h.cipher = true := by rw [hc]; decide
    rw [if_neg ec, List.nil_append, List.take_of_length_le (by omega)]
    exact iff_of_true rfl (.inl hc)
  · have ec : isTlsEcdheEcdsaWithAes128Ccm8 h.cipher = true := by rw [hc]; rfl
    have psk : h.cipher ≠ tlsPskWithAes128Ccm8 := by rw [hc]; decide
    have ext : serverHelloExtensions.length = 18 := rfl
    rw [if_pos ec, List.take_append, ext, List.take_of_length_le (by omega)]
    simp only [psk, false_or]
    constructor
    · intro heq
      -- the first bytes of the nonce are the extensions themselves
      have front : nonce.toList.take 14 = serverHelloExtensions.take 14 := by
        rw [← heq, List.take_append_of_le_length (by rw [ext]; decide)]
      rw [← heq, front]
    · intro heq
      have front : nonce.toList.take 14 = serverHelloExtensions.take 14 := by
        rw [heq, List.take_append_of_le_length (by rw [ext]; decide)]
      calc serverHelloExtensions ++ nonce.toList.take (32 - 18)
          = serverHelloExtensions ++ serverHelloExtensions.take 14 := by rw [← front]
        _ = nonce.toList := heq.symm

/-- **SERVERHELLO**: a client that offered the suite stores the random, the suite, the
    compression and the nonce of the server exactly when the suite is the PSK one, or the
    nonce happens to repeat the extensions. -/
theorem serverHello_read (seq : Nat) {nonce : Digest} {client : HandshakeParameters}
    (hc : Selectable h.cipher) (hp : (w.heap a).handshakeParams = some client)
    (hcomp : client.compression = tlsCompressionNull)
    (known : knownCipher env h.cipher true = true) :
    (∃ h' w', ServerHelloRead env w a
        (Ptr.ofBytes (wholeMessage dtlsHtServerHello seq (serverHello h nonce)))
        (wholeMessage dtlsHtServerHello seq (serverHello h nonce)).length
        h.randomServer h.cipher nonce h' w') ↔
      h.cipher = tlsPskWithAes128Ccm8 ∨
        nonce.toList = serverHelloExtensions ++ serverHelloExtensions.take 14 := by
  have parts := @helloParts h seq nonce hc
  have short : (wholeMessage dtlsHtServerHello seq (serverHello h nonce)).length < 2 ^ 16 := by
    have ext : serverHelloExtensions.length = 18 := rfl
    rw [parts.length, serverHelloTail, List.length_append, Vector.length_toList]
    split <;> simp only [ext, List.length_nil] <;> omega
  obtain ⟨h', w', hread⟩ := checkServerHello_read parts hp hcomp known short
  rw [← nonce_read parts hc]
  constructor
  · rintro ⟨h'', w'', hread'⟩
    have same := hread.run.symm.trans hread'.run
    rw [← hread.nonce, ← hread'.nonce, (Prod.mk.inj same).2]
  · intro heq
    rw [heq] at hread
    exact ⟨h', w', hread⟩

theorem serverHello_read_psk :
    (∃ h' w', ServerHelloRead sampleEnv pskWorld 0
        (Ptr.ofBytes (wholeMessage dtlsHtServerHello 1
          (serverHello pskHandshake (Vector.replicate 32 7))))
        (wholeMessage dtlsHtServerHello 1
          (serverHello pskHandshake (Vector.replicate 32 7))).length
        pskHandshake.randomServer pskHandshake.cipher (Vector.replicate 32 7) h' w') ↔
      pskHandshake.cipher = tlsPskWithAes128Ccm8 ∨ (Vector.replicate 32 7).toList
        = serverHelloExtensions ++ serverHelloExtensions.take 14 :=
  @serverHello_read _ _ _ _ 1 _ pskHandshake (.inl rfl) rfl rfl rfl

/-- Surroundings with the ECDHE suite. -/
def ecdheEnv : Env := { sampleEnv with getEcdsaKey := true, verifyEcdsaKey := some fun _ _ _ _ => 0 }

/-- With the ECDHE suite the extensions are read as the nonce. -/
theorem serverHello_misread :
    ¬ ∀ (env : Env) (w : World) (a : Addr) (h client : HandshakeParameters) (seq : Nat)
        (nonce : Digest), Selectable h.cipher → (w.heap a).handshakeParams = some client →
        client.compression = tlsCompressionNull → knownCipher env h.cipher true = true →
        ∃ h' w', ServerHelloRead env w a
          (Ptr.ofBytes (wholeMessage dtlsHtServerHello seq (serverHello h nonce)))
          (wholeMessage dtlsHtServerHello seq (serverHello h nonce)).length
          h.randomServer h.cipher nonce h' w' := by
  intro all
  obtain ⟨h', w', hread⟩ := all ecdheEnv pskWorld 0
    { emptyHandshake with cipher := tlsEcdheEcdsaWithAes128Ccm8 } pskHandshake 1
    (Vector.replicate 32 7) (.inr rfl) rfl rfl rfl
  have nonce : (checkServerHello ecdheEnv 0 (Ptr.ofBytes (wholeMessage dtlsHtServerHello 1
        (serverHello { emptyHandshake with cipher := tlsEcdheEcdsaWithAes128Ccm8 }
          (Vector.replicate 32 7))))
      (wholeMessage dtlsHtServerHello 1
        (serverHello { emptyHandshake with cipher := tlsEcdheEcdsaWithAes128Ccm8 }
          (Vector.replicate 32 7))).length pskWorld).2.treqNonce[0] = 0 := by decide +kernel
  rw [hread.run, hread.nonce] at nonce
  exact absurd nonce (by decide)

end PqDtls.Dtls
