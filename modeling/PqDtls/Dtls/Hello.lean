import PqDtls.Dtls.Record

/-! # Hello messages and cookies

    The stateless cookie exchange, the parsers of ClientHello and ServerHello with
    their extensions, and the functions that send the hello messages. -/

namespace PqDtls.Dtls

open Program (get gets modify stop ofOption when)

variable (env : Env)

/-! ## Configuration -/

def isPskSupported : Bool := env.getPskInfo.isSome

def isEcdsaSupported (isClient : Bool) : Bool :=
  (!isClient && env.getEcdsaKey) || (isClient && env.verifyEcdsaKey.isSome)

def isEcdsaClientAuthSupported : Bool := env.getEcdsaKey && env.verifyEcdsaKey.isSome

def isTlsPskWithAes128Ccm8 (cipher : Nat) : Bool := cipher = tlsPskWithAes128Ccm8

def isTlsEcdheEcdsaWithAes128Ccm8 (cipher : Nat) : Bool := cipher = tlsEcdheEcdsaWithAes128Ccm8

def knownCipher (code : Nat) (isClient : Bool) : Bool :=
  (isPskSupported env && isTlsPskWithAes128Ccm8 code) ||
    (isEcdsaSupported env isClient && isTlsEcdheEcdsaWithAes128Ccm8 code)

def compressionMethods : Bytes := [UInt8.ofNat tlsCompressionNull]

/-- `assert`. -/
def assertThat (c : Prop) [Decidable c] : M Unit := if c then pure () else stop .assertFailed

/-! ## Cookies -/

/-- `DTLS_HANDSHAKE_HEADER`, decoded. -/
def handshakeHeader (msg : Ptr) : HandshakeHeader :=
  { msgType := msg.uint8, length := (msg.add 1).uint24, messageSeq := (msg.add 4).uint16,
    fragmentOffset := (msg.add 6).uint24, fragmentLength := (msg.add 9).uint24 }

/-- The bytes a cookie is computed over: the session, the ClientHello up to the
    session id, and what follows the cookie.  `.error` is the value returned for a
    message that is too short; `none` is a difference of lengths that underflows. -/
def cookieInput (session : Session) (msg : Ptr) (msglen : Nat) : Except Int (Option Bytes) :=
  let e := dtlsChLength + ((msg.add (dtlsHsLength + dtlsChLength)).uint8 + 1)
  if e + dtlsHsLength > msglen then .error (dtlsAlertFatalCreate .handshakeFailure)
  else
    let e' := e + (msg.add (dtlsHsLength + e)).uint8 + 1
    if e' + dtlsHsLength > msglen then .error (dtlsAlertFatalCreate .handshakeFailure)
    else
      let fragmentLength := (handshakeHeader msg).fragmentLength
      if fragmentLength < e' then .ok none
      else .ok (some (session.toList ++ (msg.add dtlsHsLength).bytes e ++
        (msg.add (dtlsHsLength + e')).bytes (fragmentLength - e')))

/-- `dtls_create_cookie` for a cookie of `DTLS_COOKIE_LENGTH` bytes. -/
def dtlsCreateCookie (session : Session) (msg : Ptr) (msglen : Nat) : M (Except Int Bytes) :=
  match cookieInput session msg msglen with
  | .error err => pure (.error err)
  | .ok input => do
      let input ← ofOption .outOfBounds input
      let secret ← gets World.cookieSecret
      pure (.ok ((dtlsHmac env.prims secret input).toList.take dtlsCookieLength))

/-- `dtls_get_cookie`: the cookie's length and address, or the error. -/
def dtlsGetCookie (msg : Ptr) (msglen : Nat) : Except Int (Nat × Ptr) :=
  if msglen < dtlsHsLength + dtlsChLength + 1 then
    .error (dtlsAlertFatalCreate .handshakeFailure)
  else if (msg.add dtlsHsLength).uint16 ≠ dtlsVersion then
    .error (dtlsAlertFatalCreate .protocolVersion)
  else match skipVarField (msg.add (dtlsHsLength + dtlsChLength))
      (msglen - (dtlsHsLength + dtlsChLength)) with
    | none => .error (dtlsAlertFatalCreate .handshakeFailure)
    | some (msg, msglen) =>
        if msglen < msg.uint8 + 1 then .error (dtlsAlertFatalCreate .handshakeFailure)
        else .ok (msg.uint8, msg.add 1)

/-- The body of a HelloVerifyRequest. -/
def helloVerify (cookie : Bytes) : Bytes :=
  dtlsIntToUint16 dtlsVersion ++ dtlsIntToUint8 dtlsCookieLength ++ cookie

def dtlsVerifyPeer (peer : Option Addr) (session : Session) (state : DtlsState)
    (data : Ptr) (dataLength : Nat) : M Int := do
  let mycookie ← dtlsCreateCookie env session data dataLength
  match mycookie with
  | .error err => pure err
  | .ok mycookie =>
      match dtlsGetCookie data dataLength with
      -- `return err`, where `err` is still the 0 of `dtls_create_cookie`
      | .error _ => pure 0
      | .ok (len, cookie) =>
          if len = dtlsCookieLength ∧ cookie.bytes len = mycookie then pure 0
          else
            dtlsSendHandshakeMsgHash env (if state = .connected then peer else none) session
              dtlsHtHelloVerifyRequest (helloVerify mycookie) false

/-! ## Extensions -/

/-- A list of `width`-byte items behind a length field of `width` bytes contains
    `value`: 0, or a handshake failure. -/
def verifyExtList (width value : Nat) (data : Ptr) (dataLength : Nat) : Int :=
  if bytesToInt (data.bytes width) + width ≠ dataLength then
    dtlsAlertFatalCreate .handshakeFailure
  else if (List.range ((dataLength - width + (width - 1)) / width)).any fun k =>
      bytesToInt ((data.add (width + width * k)).bytes width) = value then 0
  else dtlsAlertFatalCreate .handshakeFailure

def verifyExtEllipticCurves : Ptr → Nat → Int := verifyExtList 2 tlsExtEllipticCurvesSecp256r1

def verifyExtCertType : Ptr → Nat → Int := verifyExtList 1 tlsCertTypeRawPublicKey

def verifyExtEcPointFormats : Ptr → Nat → Int := verifyExtList 1 tlsExtEcPointFormatsUncompressed

/-- The extensions met so far. -/
structure ExtSeen where
  ellipticCurve : Bool
  clientCertType : Bool
  serverCertType : Bool
  ecPointFormats : Bool

/-- The check of a certificate type extension. -/
def certTypeOk (clientHello : Bool) (data : Ptr) (j : Nat) : Bool :=
  if clientHello then verifyExtCertType data j = 0 else data.uint8 = tlsCertTypeRawPublicKey

/-- One extension of type `i` and length `j`; `none` is `goto error`. -/
def checkExtension (clientHello : Bool) (i : Nat) (data : Ptr) (j : Nat) (seen : ExtSeen) :
    Option ExtSeen :=
  if i = tlsExtEllipticCurves then
    if verifyExtEllipticCurves data j = 0 then some { seen with ellipticCurve := true } else none
  else if i = tlsExtClientCertificateType then
    if certTypeOk clientHello data j then some { seen with clientCertType := true } else none
  else if i = tlsExtServerCertificateType then
    if certTypeOk clientHello data j then some { seen with serverCertType := true } else none
  else if i = tlsExtEcPointFormats then
    if verifyExtEcPointFormats data j = 0 then some { seen with ecPointFormats := true }
    else none
  else some seen

/-- The loop over the extensions; each takes at least four bytes. -/
def extensionLoop (clientHello : Bool) : Nat → Ptr → Nat → ExtSeen → Option ExtSeen
  | 0, _, _, seen => some seen
  | fuel + 1, data, dataLength, seen =>
      if dataLength = 0 then some seen
      else if dataLength < 4 then none
      else
        let i := data.uint16
        let j := (data.add 2).uint16
        if dataLength - 4 < j then none
        else match checkExtension clientHello i (data.add 4) j seen with
          | none => none
          | some seen =>
              extensionLoop clientHello fuel (data.add (4 + j)) (dataLength - 4 - j) seen

/-- Does the extension block satisfy what `cipher` requires? -/
def extensionsOk (cipher : Nat) (data : Ptr) (dataLength : Nat) (clientHello : Bool) : Bool :=
  let ecdsa := isTlsEcdheEcdsaWithAes128Ccm8 cipher
  if dataLength < 2 then !ecdsa
  else if dataLength - 2 < data.uint16 then false
  else match extensionLoop clientHello dataLength (data.add 2) (dataLength - 2)
      ⟨false, false, false, false⟩ with
    | none => false
    | some seen =>
        if ecdsa && clientHello then
          seen.ellipticCurve && seen.clientCertType && seen.serverCertType && seen.ecPointFormats
        else if ecdsa then seen.clientCertType && seen.serverCertType
        else true

/-- What `goto error` returns in the ClientHello parsers. -/
def helloError (state : DtlsState) : Int :=
  if state = .connected then dtlsAlertCreate dtlsAlertLevelWarning .noRenegotiation
  else dtlsAlertFatalCreate .handshakeFailure

def dtlsCheckTlsExtension (p : Peer) (data : Ptr) (dataLength : Nat) (clientHello : Bool) : Int :=
  match p.handshakeParams with
  | none => dtlsAlertFatalCreate .internalError
  | some h =>
      if extensionsOk h.cipher data dataLength clientHello then 0
      else if clientHello then helloError p.state
      else dtlsAlertFatalCreate .handshakeFailure

/-! ## ClientHello, received -/

/-- The outcome of the loop over the offered cipher suites. -/
inductive SuiteSearch
  | runaway
  | missing
  | found (cipher : Nat) (i : Int) (data : Ptr)

/-- `while (i && !ok)`: with an odd `i` the counter passes 0 and the loop only ends
    at a known suite, wherever that is; `fuel` covers every even length. -/
def suiteLoop : Nat → Int → Ptr → SuiteSearch
  | 0, _, _ => .runaway
  | fuel + 1, i, data =>
      if i = 0 then .missing
      else if knownCipher env data.uint16 false then .found data.uint16 (i - 2) (data.add 2)
      else suiteLoop fuel (i - 2) (data.add 2)

/-- The first offered compression method that is supported, and what follows it. -/
def compressionLoop : Nat → Ptr → Option Ptr
  | 0, _ => none
  | i + 1, data =>
      if data.uint8 = tlsCompressionNull then some (data.add 1)
      else compressionLoop i (data.add 1)

/-- The rest of `dtls_update_parameters`, from the compression methods on. -/
def updateCompression (a : Addr) (error : Int) (data : Ptr) (dataLength : Int) : M Int := do
  let p ← getPeer a
  if sizeT dataLength < 1 then do
    modifyHandshake a fun h => { h with compression :=
      (p.security0.map (·.compression)).getD tlsCompressionNull }
    pure 0
  else
  let i := data.uint8
  if sizeT dataLength < i + 1 then pure error
  else
  match compressionLoop i (data.add 1) with
  | none => pure error
  | some rest => do
      modifyHandshake a fun h => { h with compression := tlsCompressionNull }
      let p ← getPeer a
      pure (dtlsCheckTlsExtension p rest (sizeT (dataLength - (1 + i))) true)

/-- `dtls_update_parameters` from the cipher suites on. -/
def updateSuites (a : Addr) (error : Int) (data : Ptr) (dataLength : Nat) : M Int := do
  let p ← getPeer a
  let i := data.uint16
  if dataLength < i + 2 then
    -- neither cipher nor compression: allowed in a renegotiation only
    match p.security0 with
    | none => pure error
    | some s =>
        if s.cipher = tlsNullWithNullNull then pure error
        else do
        modifyHandshake a fun h => { h with cipher := s.cipher, compression := s.compression }
        pure 0
  else
  match suiteLoop env 32768 i (data.add 2) with
  | .runaway => stop .outOfBounds
  | .missing => do
      modifyHandshake a fun h => { h with cipher := tlsNullWithNullNull }
      pure error
  | .found cipher rest data => do
      modifyHandshake a fun h => { h with cipher := cipher }
      updateCompression a error (data.add rest) ((dataLength : Int) - (2 + i))

/-- Session id and cookie skipped. -/
def skipSessionCookie (data : Ptr) (dataLength : Nat) : Option (Ptr × Nat) :=
  (skipVarField data dataLength).bind fun r => skipVarField r.1 r.2

def dtlsUpdateParameters (a : Addr) (data : Ptr) (dataLength : Nat) : M Int := do
  let p ← getPeer a
  if p.handshakeParams.isNone then pure (helloError p.state)
  else do
  assertThat (dataLength > dtlsHsLength + dtlsChLength)
  modifyHandshake a fun h =>
    h.writeTmp 0 ((data.add (dtlsHsLength + 2)).bytes dtlsRandomLength)
  match skipSessionCookie (data.add (dtlsHsLength + dtlsChLength))
      (dataLength - (dtlsHsLength + dtlsChLength)) with
  | none => pure (helloError p.state)
  | some (data, dataLength) => updateSuites env a (helloError p.state) data dataLength

/-! ## ServerHello and its flight, sent -/

/-- The extensions of a ServerHello for the ECDHE suite. -/
def serverHelloExtensions : Bytes :=
  dtlsIntToUint16 16 ++
  dtlsIntToUint16 tlsExtClientCertificateType ++ dtlsIntToUint16 1 ++
    dtlsIntToUint8 tlsCertTypeRawPublicKey ++
  dtlsIntToUint16 tlsExtServerCertificateType ++ dtlsIntToUint16 1 ++
    dtlsIntToUint8 tlsCertTypeRawPublicKey ++
  dtlsIntToUint16 tlsExtEcPointFormats ++ dtlsIntToUint16 2 ++ dtlsIntToUint8 1 ++
    dtlsIntToUint8 tlsExtEcPointFormatsUncompressed

/-- The body of a ServerHello, with the TESLA request at the end. -/
def serverHello (h : HandshakeParameters) (nonce : Digest) : Bytes :=
  dtlsIntToUint16 dtlsVersion ++ h.randomServer ++ [0] ++
    (if h.cipher ≠ tlsNullWithNullNull then
      dtlsIntToUint16 h.cipher ++ [compressionMethods.getD h.compression 0]
    else []) ++
    (if isTlsEcdheEcdsaWithAes128Ccm8 h.cipher then serverHelloExtensions else []) ++
    nonce.toList

def dtlsSendServerHello (a : Addr) : M Int := do
  let p ← getPeer a
  if p.handshakeParams.isNone then pure (dtlsAlertFatalCreate .internalError)
  else do
  let now ← dtlsTicks env
  let random ← dtlsFillRandom env 28
  modifyHandshake a fun h =>
    h.writeTmp 32 (dtlsIntToUint32 (now / dtlsTicksPerSecond) ++ random.toList)
  let nonce ← dtlsFillRandom env dtlsTeslaReqLength
  modify fun w => { w with treqNonce := nonce }
  let h ← getHandshake a
  let buf := serverHello h nonce
  assertThat (buf.length ≤ dtlsShLength + 2 + 5 + 5 + 8 + 6)
  dtlsSendHandshakeMsg env a dtlsHtServerHello buf

def dtlsSendServerKeyExchangePsk (a : Addr) (pskHint : Ptr) (len : Nat) : M Int := do
  assertThat (len ≤ dtlsPskMaxClientIdentityLen)
  dtlsSendHandshakeMsg env a dtlsHtServerKeyExchange (dtlsIntToUint16 len ++ pskHint.bytes len)

def dtlsSendServerHelloDone (a : Addr) : M Int :=
  dtlsSendHandshakeMsg env a dtlsHtServerHelloDone []

/-- The PSK part of the flight: the identity hint, if the application has one. -/
def sendPskHint (a : Addr) (cipher : Nat) : M Int :=
  if !isTlsPskWithAes128Ccm8 cipher then pure 0
  else do
  let p ← getPeer a
  let r ← callGetPskInfo env p.session .pskHint [] dtlsPskMaxClientIdentityLen
  if r.1 ≤ 0 then pure r.1 else dtlsSendServerKeyExchangePsk env a r.2 r.1.toNat

def dtlsSendServerHelloMsgs (a : Addr) : M Int := do
  let res ← dtlsSendServerHello env a
  if res < 0 then pure res
  else do
  let p ← getPeer a
  match p.handshakeParams with
  | none => pure (dtlsAlertFatalCreate .internalError)
  | some h => do
      let res ← sendPskHint env a h.cipher
      if res < 0 then pure res
      else do
      let res ← dtlsSendServerHelloDone env a
      pure (if res < 0 then res else 0)

/-! ## ClientHello, sent -/

/-- The extensions of a ClientHello that offers the ECDHE suite. -/
def clientHelloExtensions : Bytes :=
  dtlsIntToUint16 26 ++
  dtlsIntToUint16 tlsExtClientCertificateType ++ dtlsIntToUint16 2 ++ dtlsIntToUint8 1 ++
    dtlsIntToUint8 tlsCertTypeRawPublicKey ++
  dtlsIntToUint16 tlsExtServerCertificateType ++ dtlsIntToUint16 2 ++ dtlsIntToUint8 1 ++
    dtlsIntToUint8 tlsCertTypeRawPublicKey ++
  dtlsIntToUint16 tlsExtEllipticCurves ++ dtlsIntToUint16 4 ++ dtlsIntToUint16 2 ++
    dtlsIntToUint16 tlsExtEllipticCurvesSecp256r1 ++
  dtlsIntToUint16 tlsExtEcPointFormats ++ dtlsIntToUint16 2 ++ dtlsIntToUint8 1 ++
    dtlsIntToUint8 tlsExtEcPointFormatsUncompressed

/-- The suites a client offers. -/
def offeredSuites : Bytes :=
  (if isEcdsaSupported env true then dtlsIntToUint16 tlsEcdheEcdsaWithAes128Ccm8 else []) ++
    (if isPskSupported env then dtlsIntToUint16 tlsPskWithAes128Ccm8 else [])

/-- The body of a ClientHello. -/
def clientHello (h : HandshakeParameters) (cookie : Bytes) : Bytes :=
  dtlsIntToUint16 dtlsVersion ++ h.randomClient ++ [0] ++ dtlsIntToUint8 cookie.length ++
    cookie ++ dtlsIntToUint16 (offeredSuites env).length ++ offeredSuites env ++ [1] ++
    [UInt8.ofNat tlsCompressionNull] ++
    (if isEcdsaSupported env true then clientHelloExtensions else [])

/-- A first ClientHello, without a cookie, draws a new client random. -/
def freshClientRandom (a : Addr) : M Unit := do
  let now ← dtlsTicks env
  let random ← dtlsFillRandom env 28
  modifyHandshake a fun h =>
    h.writeTmp 0 (dtlsIntToUint32 (now / dtlsTicksPerSecond) ++ random.toList)

def dtlsSendClientHello (a : Addr) (cookie : Bytes) : M Int := do
  let p ← getPeer a
  if p.handshakeParams.isNone then pure (dtlsAlertFatalCreate .internalError)
  else if cookie.length > dtlsCookieLengthMax then
    pure (dtlsAlertFatalCreate .handshakeFailure)
  else do
  when (cookie.length = 0) (freshClientRandom env a)
  let h ← getHandshake a
  let buf := clientHello env h cookie
  assertThat (buf.length ≤ dtlsChLengthMax)
  when (cookie.length ≠ 0) (clearHsHash a)
  dtlsSendHandshakeMsgHash env (some a) p.session dtlsHtClientHello buf (cookie.length ≠ 0)

/-! ## ServerHello and HelloVerifyRequest, received -/

/-- `check_server_hello` from the session id on. -/
def serverHelloSuite (a : Addr) (data : Ptr) (dataLength : Nat) : M Int :=
  match skipVarField data dataLength with
  | none => pure (dtlsAlertFatalCreate .decodeError)
  | some (data, _) => do
      modifyHandshake a fun h => { h with cipher := data.uint16 }
      if !knownCipher env data.uint16 true then
        pure (dtlsAlertFatalCreate .insufficientSecurity)
      else if (data.add 2).uint8 ≠ tlsCompressionNull then
        pure (dtlsAlertFatalCreate .insufficientSecurity)
      else do
      modify fun w => { w with treqNonce := (data.add 3).array dtlsTeslaReqLength }
      pure 0

def checkServerHello (a : Addr) (data : Ptr) (dataLength : Nat) : M Int := do
  let p ← getPeer a
  if dataLength < dtlsHsLength + dtlsHsLength then pure (dtlsAlertFatalCreate .decodeError)
  else if p.handshakeParams.isNone then pure (dtlsAlertFatalCreate .internalError)
  else do
  updateHsHash a (data.bytes dataLength)
  if (data.add dtlsHsLength).uint16 ≠ dtlsVersion then
    pure (dtlsAlertFatalCreate .protocolVersion)
  else do
  modifyHandshake a fun h =>
    h.writeTmp 32 ((data.add (dtlsHsLength + 2)).bytes dtlsRandomLength)
  serverHelloSuite env a (data.add (dtlsHsLength + 2 + dtlsRandomLength))
    (sizeT ((dataLength : Int) - (dtlsHsLength + 2 + dtlsRandomLength)))

def checkServerHelloVerifyRequest (peer : Option Addr) (data : Ptr) (dataLength : Nat) :
    M Int :=
  if dataLength < dtlsHsLength + dtlsHvLength then pure (dtlsAlertFatalCreate .decodeError)
  else
    match peer with
    | none => pure (dtlsAlertFatalCreate .internalError)
    | some a =>
        dtlsSendClientHello env a
          ((data.add (dtlsHsLength + dtlsHvLength)).bytes (data.add (dtlsHsLength + 2)).uint8)

def dtlsSendHelloRequest (a : Addr) : M Int := do
  let p ← getPeer a
  dtlsSendHandshakeMsgHash env (some a) p.session dtlsHtHelloRequest [] false

end PqDtls.Dtls
