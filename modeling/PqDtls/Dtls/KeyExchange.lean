import PqDtls.Dtls.Hello
import PqDtls.Dtls.Ntp

/-! # Key exchange

    The key block, the TESLA synchronisation and its signature in the
    ClientKeyExchange, the certificate messages a client still parses, and the
    Finished message. -/

namespace PqDtls.Dtls

open Program (get gets modify stop ofOption when)
open Ksnmss

variable (env : Env)

/-! ## Key derivation -/

/-- The pre-master secret of `calculate_key_block`. -/
def preMasterSecret (h : HandshakeParameters) (session : Session) : M (Except Int Bytes) :=
  if isTlsPskWithAes128Ccm8 h.cipher then do
    let r ← callGetPskInfo env session .pskKey (h.psk.identity.toList.take h.psk.idLength)
      dtlsPskMaxKeyLen
    if r.1 < 0 then pure (.error r.1)
    else
    pure (match dtlsPskPreMasterSecret (r.2.bytes r.1.toNat) maxKeyblockLength with
      | none => .error (dtlsAlertFatalCreate .internalError)
      | some secret => .ok secret)
  else if isTlsEcdheEcdsaWithAes128Ccm8 h.cipher then
    pure (.ok (env.prims.ecdh h.ecdsa.ownEphPriv h.ecdsa.otherEphPubX
      h.ecdsa.otherEphPubY).toList)
  else pure (.error (dtlsAlertFatalCreate .internalError))

/-- The master secret of a handshake. -/
def masterSecretOf (C : Primitives) (h : HandshakeParameters) (preMaster : Bytes) : Bytes :=
  dtlsPrf C preMaster prfLabelMaster h.randomClient h.randomServer dtlsMasterSecretLength

/-- The key block of a handshake. -/
def keyBlockOf (C : Primitives) (h : HandshakeParameters) (masterSecret : Bytes) : KeyBlock :=
  toArray 40 (dtlsPrf C masterSecret prfLabelKey h.randomServer h.randomClient 40)

/-- The new parameters in slot 1, the master secret over the randoms. -/
def installKeyBlock (C : Primitives) (h : HandshakeParameters) (preMaster : Bytes) (p : Peer) :
    Peer :=
  let masterSecret := masterSecretOf C h preMaster
  { p with
    security1 := p.security1.map fun s =>
      { s with
        cipher := h.cipher
        compression := h.compression
        rseq := 0
        keyBlock := keyBlockOf C h masterSecret }
    handshakeParams := p.handshakeParams.map fun h => h.writeTmp 0 masterSecret }

def calculateKeyBlock (a : Addr) (session : Session) : M Int := do
  let p ← getPeer a
  match p.handshakeParams with
  | none => pure (dtlsAlertFatalCreate .internalError)
  | some h => do
      let found ← dtlsSecurityParamsNext env a
      if !found then pure (dtlsAlertFatalCreate .internalError)
      else do
      let secret ← preMasterSecret env h session
      match secret with
      | .error err => pure err
      | .ok preMaster => do
          modifyPeer a (installKeyBlock env.prims h preMaster)
          pure 0

/-! ## The TESLA synchronisation -/

/-- The bytes of a `tesla_sync` in a message. -/
def TeslaSync.bytes (t : TeslaSync) : Bytes :=
  t.nonce.toList ++ t.TSender ++ t.rate ++ t.intervalId ++ t.TStart ++ t.TInt ++ t.disDelay ++
    t.keyChainLen ++ t.KeyComm.toList

/-- The bytes that enter the signed hash: of `rate` only the first one. -/
def TeslaSync.hashInput (t : TeslaSync) : Bytes :=
  t.nonce.toList ++ t.TSender ++ t.rate.take 1 ++ t.intervalId ++ t.TStart ++ t.TInt ++
    t.disDelay ++ t.keyChainLen ++ t.KeyComm.toList

/-- A `tesla_sync` read from a message. -/
def readTeslaSync (p : Ptr) : TeslaSync where
  nonce := p.array 32
  TSender := (p.add 32).bytes 16
  rate := (p.add 48).bytes 4
  intervalId := (p.add 52).bytes 4
  TStart := (p.add 56).bytes 16
  TInt := (p.add 72).bytes 4
  disDelay := (p.add 76).bytes 1
  keyChainLen := (p.add 77).bytes 4
  KeyComm := (p.add 81).array 32

/-- A signature in a message. -/
def ksnmssSigBytes (sig : KsnmssSig) : Bytes :=
  dtlsIntToUint64 sig.id ++ sig.message.toList ++ sig.sksum.toList ++
    sig.pk.toList.flatMap Vector.toList ++ sig.auth.toList.flatMap Vector.toList

/-- A signature read from a message; the 8 bytes of the index go into 32 bits. -/
def readKsnmssSig (p : Ptr) : KsnmssSig where
  id := p.uint64 % 2 ^ 32
  message := (p.add 8).array _
  sksum := (p.add 40).array _
  pk := Vector.ofFn fun it => (p.add (1064 + 72 * it.val)).array _
  auth := Vector.ofFn fun it => (p.add (19928 + 72 * it.val)).array _

/-- `n` applications of the chain function to the seed. -/
def chainKey (C : Primitives) (hmacKey seed : Digest) : Nat → Digest
  | 0 => seed
  | n + 1 => dtlsHmac C hmacKey.toList (chainKey C hmacKey seed n).toList

/-- A time as two 64-bit numbers. -/
def timevalBytes (t : Timeval) : Bytes :=
  dtlsIntToUint64 (sizeT t.tvSec) ++ dtlsIntToUint64 (sizeT t.tvUsec)

/-- `KEYCHAIN_LEN`, `T_INTERVAL`, `INTERVAL_INDEX`, `DIS_DELAY`. -/
def teslaKeychainLen : Nat := 1500
def tInterval : Nat := 1
def intervalIndex : Nat := 0
def disDelay : Nat := 1

/-- The key chain of a new session and the synchronisation that announces it. -/
def startTesla (a : Addr) : M TeslaSync := do
  let nonce ← gets World.treqNonce
  let tv1 ← gettimeofday env
  let tv ← gettimeofday env
  let _ ← dtlsFillRandom env 32
  let hmacKey1 ← dtlsFillRandom env 32
  let hmacSeed ← dtlsFillRandom env 32
  modify fun w => { w with hmacKey1 := hmacKey1 }
  modifyPeer a fun p => { p with K := fun k =>
    if k < teslaKeys then chainKey env.prims hmacKey1 hmacSeed (teslaKeys - k) else p.K k }
  let tsync : TeslaSync := {
    nonce := nonce
    TSender := timevalBytes tv1
    rate := dtlsIntToUint32 1
    intervalId := dtlsIntToUint32 intervalIndex
    TStart := timevalBytes (ntpAdd tv (ntpFromMillis 2000))
    TInt := dtlsIntToUint32 tInterval
    disDelay := dtlsIntToUint8 disDelay
    keyChainLen := dtlsIntToUint32 teslaKeychainLen
    KeyComm := chainKey env.prims hmacKey1 hmacSeed (teslaKeys + 1) }
  modify fun w => { w with tsync := tsync }
  pure tsync

/-- The outcome of `ksnmss_sign` on the globals of the signer. -/
def signed (id : Nat) (hash : Digest) : Option (KsnmssSig × SignerState) → M KsnmssSig
  | none => stop .outOfBounds
  | some r => do
      modify fun w => { w with signer := r.2 }
      emit (.sign id hash r.1)
      pure r.1

/-- `ksnmss_sign(id, hash, sig)`. -/
def signHash (id : Nat) (hash : Digest) : M KsnmssSig := do
  let signer ← gets World.signer
  signed id hash (ksnmssSign env.ksnmss signer id hash)

/-! ## ClientKeyExchange -/

/-- The part of the message in front of the TESLA synchronisation, or the error. -/
def clientKeyShare (a : Addr) (p : Peer) (h : HandshakeParameters) : M (Except Int Bytes) :=
  if isTlsPskWithAes128Ccm8 h.cipher then do
    let r ← callGetPskInfo env p.session .pskIdentity
      (h.psk.identity.toList.take h.psk.idLength) dtlsPskMaxClientIdentityLen
    if r.1 < 0 then pure (.error r.1)
    else if r.1.toNat + 2 > dtlsCkxecLength then do
      modifyHandshake a fun h => { h with psk := ⟨0, Vector.replicate 32 0⟩ }
      pure (.error (dtlsAlertFatalCreate .internalError))
    else if r.1.toNat > dtlsPskMaxClientIdentityLen then stop .outOfBounds
    else do
    let identity := r.2.bytes r.1.toNat
    modifyHandshake a fun h =>
      { h with psk := ⟨identity.length, overlay h.psk.identity 0 identity⟩ }
    pure (.ok (dtlsIntToUint16 identity.length ++ identity))
  else if isTlsEcdheEcdsaWithAes128Ccm8 h.cipher then do
    let t ← nextTick
    let key := env.ecdsaKey t
    modifyHandshake a fun h => { h with ecdsa := { h.ecdsa with ownEphPriv := key.1 } }
    pure (.ok (dtlsIntToUint8 (1 + 2 * dtlsEcKeySize) ++ dtlsIntToUint8 4 ++
      key.2.1.toList ++ key.2.2.toList))
  else pure (.error (dtlsAlertFatalCreate .internalError))

def dtlsSendClientKeyExchange (a : Addr) : M Int := do
  let _ ← dtlsFillRandom env 32
  let p ← getPeer a
  match p.handshakeParams with
  | none => pure (dtlsAlertFatalCreate .internalError)
  | some h => do
      let share ← clientKeyShare env a p h
      match share with
      | .error err => pure err
      | .ok share => do
          let tsync ← startTesla env a
          -- the local `u32 id = 0` hides the global index
          let sig ← signHash env 0 (env.prims.sha256 tsync.hashInput)
          let MSSPK ← gets fun w => w.signer.MSSPK
          let buf := share ++ tsync.bytes ++ ksnmssSigBytes sig ++ MSSPK.toList
          assertThat (buf.length ≤ dtlsCkxecLength)
          dtlsSendHandshakeMsg env a dtlsHtClientKeyExchange buf

/-- `check_client_keyexchange`, for the parameters of `a`. -/
def checkClientKeyExchange (a : Addr) (h : HandshakeParameters) (data : Ptr) (length : Nat) :
    M Int :=
  let fail := dtlsAlertFatalCreate .handshakeFailure
  if isTlsEcdheEcdsaWithAes128Ccm8 h.cipher then
    if length < dtlsHsLength + dtlsCkxecLength then pure fail
    else if (data.add 12).uint8 ≠ 1 + 2 * dtlsEcKeySize then pure fail
    else if (data.add 13).uint8 ≠ 4 then pure fail
    else do
    modifyHandshake a fun h => { h with ecdsa := { h.ecdsa with
      otherEphPubX := (data.add 14).array _
      otherEphPubY := (data.add 46).array _ } }
    pure 0
  else if isTlsPskWithAes128Ccm8 h.cipher then
    if length < dtlsHsLength + dtlsCkxpskLengthMin then pure fail
    else
    let idLength := (data.add 12).uint16
    if dtlsHsLength + dtlsCkxpskLengthMin + idLength + dtlsTeslaSynLength + ksnmssSigLength + 72
        ≠ length then pure fail
    else if idLength > dtlsPskMaxClientIdentityLen then
      pure (dtlsAlertFatalCreate .internalError)
    else do
    modifyHandshake a fun h =>
      { h with psk := ⟨idLength, overlay h.psk.identity 0 ((data.add 14).bytes idLength)⟩ }
    pure 0
  else pure 0

/-- What `check_client_keyexchange` returns. -/
def keyExchangeError (cipher : Nat) (data : Ptr) (length : Nat) : Int :=
  let fail := dtlsAlertFatalCreate .handshakeFailure
  if isTlsEcdheEcdsaWithAes128Ccm8 cipher then
    if length < dtlsHsLength + dtlsCkxecLength ∨ (data.add 12).uint8 ≠ 1 + 2 * dtlsEcKeySize ∨
        (data.add 13).uint8 ≠ 4 then fail
    else 0
  else if isTlsPskWithAes128Ccm8 cipher then
    let idLength := (data.add 12).uint16
    if length < dtlsHsLength + dtlsCkxpskLengthMin ∨
        dtlsHsLength + dtlsCkxpskLengthMin + idLength + dtlsTeslaSynLength + ksnmssSigLength + 72
          ≠ length then fail
    else if idLength > dtlsPskMaxClientIdentityLen then dtlsAlertFatalCreate .internalError
    else 0
  else 0

/-! ## Finished -/

/-- The `verify_data` of the side named by `label`. -/
def verifyData (C : Primitives) (h : HandshakeParameters) (label : Bytes) : Bytes :=
  dtlsPrf C h.masterSecret label prfLabelFinished (C.sha256 h.hsHash).toList dtlsFinLength

/-- The label of the other side. -/
def remoteLabel : DtlsPeerType → Bytes
  | .client => prfLabelServer
  | .server => prfLabelClient

/-- `check_finished`; the hash is finalised on a copy. -/
def checkFinished (p : Peer) (data : Ptr) (dataLength : Nat) : Int :=
  if dataLength < dtlsHsLength + dtlsFinLength then dtlsAlertFatalCreate .handshakeFailure
  else match p.handshakeParams with
    | none => dtlsAlertFatalCreate .internalError
    | some h =>
        if (data.add dtlsHsLength).bytes dtlsFinLength
            = verifyData env.prims h (remoteLabel p.role) then 0
        else dtlsAlertFatalCreate .handshakeFailure

def dtlsSendFinished (a : Addr) (label : Bytes) : M Int := do
  let p ← getPeer a
  match p.handshakeParams with
  | none => pure (dtlsAlertFatalCreate .internalError)
  | some h => dtlsSendHandshakeMsg env a dtlsHtFinished (verifyData env.prims h label)

def dtlsSendCcs (a : Addr) : M Int := dtlsSend env a dtlsCtChangeCipherSpec [1]

/-! ## Certificates and signatures of the ECDHE suite -/

def certAsn1Header : Bytes :=
  [0x30, 0x59, 0x30, 0x13, 0x06, 0x07, 0x2A, 0x86, 0x48, 0xCE, 0x3D, 0x02, 0x01, 0x06, 0x08,
    0x2A, 0x86, 0x48, 0xCE, 0x3D, 0x03, 0x01, 0x07, 0x03, 0x42, 0x00, 0x04]

def dtlsEcSubjectpublickeySize : Nat := 2 * dtlsEcKeySize + certAsn1Header.length

/-- `assert(is_tls_ecdhe_ecdsa_with_aes_128_ccm_8(config->cipher))`. -/
def assertEcdhe (a : Addr) : M Unit := do
  let h ← getHandshake a
  assertThat (isTlsEcdheEcdsaWithAes128Ccm8 h.cipher = true)

def checkServerCertificate (a : Addr) (data : Ptr) (dataLength : Nat) : M Int := do
  let p ← getPeer a
  if p.handshakeParams.isNone then pure (dtlsAlertFatalCreate .internalError)
  else do
  updateHsHash a (data.bytes dataLength)
  assertEcdhe a
  let data := data.add dtlsHsLength
  if data.uint24 ≠ dtlsEcSubjectpublickeySize then pure (dtlsAlertFatalCreate .decodeError)
  else if (data.add 3).bytes certAsn1Header.length ≠ certAsn1Header then
    pure (dtlsAlertFatalCreate .decodeError)
  else do
  let x := (data.add 30).array dtlsEcKeySize
  let y := (data.add 62).array dtlsEcKeySize
  modifyHandshake a fun h => { h with ecdsa := { h.ecdsa with otherPubX := x, otherPubY := y } }
  let t ← nextTick
  match env.verifyEcdsaKey with
  | none => pure (-1)
  | some f => pure (if f t p.session x y < 0 then f t p.session x y else 0)

/-- `dtls_check_ecdsa_signature_elem`: where the two numbers end, or the error. -/
def dtlsCheckEcdsaSignatureElem (data : Ptr) (dataLength : Nat) : Except Int (Ptr × Ptr) :=
  let len (k : Int) := sizeT ((dataLength : Int) - k)
  let i : Int := (data.add 7).uint8
  let j : Int := (data.add (9 + i)).uint8
  if data.uint8 ≠ tlsExtSigHashAlgoSha256 then .error (dtlsAlertFatalCreate .handshakeFailure)
  else if (data.add 1).uint8 ≠ tlsExtSigHashAlgoEcdsa then
    .error (dtlsAlertFatalCreate .handshakeFailure)
  else if len 2 < (data.add 2).uint16 then .error (dtlsAlertFatalCreate .decodeError)
  else if (data.add 4).uint8 ≠ 0x30 then .error (dtlsAlertFatalCreate .decodeError)
  else if len 5 < (data.add 5).uint8 then .error (dtlsAlertFatalCreate .decodeError)
  else if (data.add 6).uint8 ≠ 0x02 then .error (dtlsAlertFatalCreate .decodeError)
  else if (data.add (8 + i)).uint8 ≠ 0x02 then .error (dtlsAlertFatalCreate .decodeError)
  else .ok (data.add (8 + i - dtlsEcKeySize), data.add (10 + i + j - dtlsEcKeySize))

/-- Is the signature in `data` one of the key in `h` on `hash`? -/
def checkSignature (C : Primitives) (h : HandshakeParameters) (hash : Digest) (data : Ptr)
    (dataLength : Nat) : Int :=
  match dtlsCheckEcdsaSignatureElem data dataLength with
  | .error err => err
  | .ok (r, s) =>
      if C.ecdsaValidate h.ecdsa.otherPubX h.ecdsa.otherPubY hash (r.bytes dtlsEcKeySize)
          (s.bytes dtlsEcKeySize) < 0 then dtlsAlertFatalCreate .handshakeFailure
      else 0

def checkClientCertificateVerify (a : Addr) (data : Ptr) (dataLength : Nat) : M Int := do
  let p ← getPeer a
  match p.handshakeParams with
  | none => pure (dtlsAlertFatalCreate .internalError)
  | some h => do
      assertEcdhe a
      if dataLength < dtlsHsLength + dtlsCvLength then pure (dtlsAlertFatalCreate .decodeError)
      else
      pure (checkSignature env.prims h (env.prims.sha256 h.hsHash) (data.add dtlsHsLength)
        dataLength)

/-- The ECDHE key share and its signature. -/
def serverKeyShare (a : Addr) (data : Ptr) (dataLength : Nat) : M Int :=
  if data.uint8 ≠ tlsEcCurveTypeNamedCurve then pure (dtlsAlertFatalCreate .handshakeFailure)
  else if (data.add 1).uint16 ≠ tlsExtEllipticCurvesSecp256r1 then
    pure (dtlsAlertFatalCreate .handshakeFailure)
  else if (data.add 3).uint8 ≠ 1 + 2 * dtlsEcKeySize then
    pure (dtlsAlertFatalCreate .handshakeFailure)
  else if (data.add 4).uint8 ≠ 4 then pure (dtlsAlertFatalCreate .decodeError)
  else do
  modifyHandshake a fun h => { h with ecdsa := { h.ecdsa with
    otherEphPubX := (data.add 5).array _
    otherEphPubY := (data.add 37).array _ } }
  let h ← getHandshake a
  let hash := env.prims.sha256 (h.randomClient ++ h.randomServer ++ data.bytes 69)
  pure (checkSignature env.prims h hash (data.add 69) (dataLength - 69))

def checkServerKeyExchangeEcdsa (a : Addr) (data : Ptr) (dataLength : Nat) : M Int := do
  let p ← getPeer a
  if p.handshakeParams.isNone then pure (dtlsAlertFatalCreate .internalError)
  else do
  updateHsHash a (data.bytes dataLength)
  assertEcdhe a
  if dataLength < dtlsHsLength + dtlsSkexecLength then
    pure (dtlsAlertFatalCreate .decodeError)
  else serverKeyShare env a (data.add dtlsHsLength) dataLength

def checkServerKeyExchangePsk (a : Addr) (data : Ptr) (dataLength : Nat) : M Int := do
  let p ← getPeer a
  if p.handshakeParams.isNone then pure (dtlsAlertFatalCreate .internalError)
  else do
  updateHsHash a (data.bytes dataLength)
  let h ← getHandshake a
  assertThat (isTlsPskWithAes128Ccm8 h.cipher = true)
  if dataLength < dtlsHsLength + dtlsSkexecpskLengthMin then
    pure (dtlsAlertFatalCreate .decodeError)
  else
  let len := (data.add dtlsHsLength).uint16
  if len ≠ dataLength - dtlsHsLength - 2 then pure (dtlsAlertFatalCreate .decodeError)
  else if len > dtlsPskMaxClientIdentityLen then pure (dtlsAlertFatalCreate .internalError)
  else do
  modifyHandshake a fun h => { h with psk :=
    ⟨len, overlay h.psk.identity 0 ((data.add (dtlsHsLength + 2)).bytes len)⟩ }
  pure 0

/-- The signature algorithms of a CertificateRequest; with an odd length the loop
    never ends. -/
def checkSignatureAlgorithms (a : Addr) (data : Ptr) (dataLength : Nat) : M Int :=
  let i := data.uint16
  if i + 1 > dataLength then pure (dtlsAlertFatalCreate .decodeError)
  else if i % 2 = 1 then stop .outOfBounds
  else if (List.range (i / 2)).any fun k =>
      (data.add (2 + 2 * k)).uint8 = tlsExtSigHashAlgoSha256 ∧
        (data.add (3 + 2 * k)).uint8 = tlsExtSigHashAlgoEcdsa then do
    modifyHandshake a fun h => { h with doClientAuth := true }
    pure 0
  else pure (dtlsAlertFatalCreate .handshakeFailure)

def checkCertificateRequest (a : Addr) (data : Ptr) (dataLength : Nat) : M Int := do
  let p ← getPeer a
  if p.handshakeParams.isNone then pure (dtlsAlertFatalCreate .internalError)
  else do
  updateHsHash a (data.bytes dataLength)
  assertEcdhe a
  let data := data.add dtlsHsLength
  let i := data.uint8
  if dataLength < dtlsHsLength + 5 then pure (dtlsAlertFatalCreate .decodeError)
  else if i + 1 > dataLength then pure (dtlsAlertFatalCreate .decodeError)
  else if !(List.range i).any fun k =>
      (data.add (1 + k)).uint8 = tlsClientCertificateTypeEcdsaSign then
    pure (dtlsAlertFatalCreate .handshakeFailure)
  else checkSignatureAlgorithms a (data.add (1 + i)) dataLength

/-! ## ServerHelloDone -/

/-- The flight after the ClientKeyExchange: new keys, ChangeCipherSpec, Finished. -/
def changeKeys (a : Addr) : M Int := do
  let p ← getPeer a
  let res ← calculateKeyBlock env a p.session
  if res < 0 then pure res
  else do
  let res ← dtlsSendCcs env a
  if res < 0 then pure res
  else do
  dtlsSecurityParamsSwitch a
  dtlsSendFinished env a prfLabelClient

def checkServerHellodone (a : Addr) (data : Ptr) (dataLength : Nat) : M Int := do
  let p ← getPeer a
  if p.handshakeParams.isNone then pure (dtlsAlertFatalCreate .internalError)
  else do
  updateHsHash a (data.bytes dataLength)
  let res ← dtlsSendClientKeyExchange env a
  if res < 0 then pure res else changeKeys env a

end PqDtls.Dtls
