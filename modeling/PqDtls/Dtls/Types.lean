import PqDtls.Lib.Program
import PqDtls.K2sn.Ksnmss
import PqDtls.Dtls.Crypto
import Mathlib.Data.Rat.Floor

/-! # The state of the engine

    The data the engine keeps (`dtls_context_t`, `dtls_peer_t` and what hangs off
    them, the globals of `dtls.c`), and the world around it.

    A peer is named by the address of its storage.  Reading through a pointer to
    released storage finds the last contents, until the allocator hands the
    address out again.  Everything the library asks of its surroundings (time,
    random bytes, the allocator, the callbacks) is a function of the number of
    questions asked so far, so a statement for every `Env` is one for every
    behaviour of the surroundings.

    A step that the language leaves undefined or that aborts ends in a `Crash`;
    the small working buffers of one call (hash contexts, the signature) are
    always obtained. -/

namespace PqDtls.Dtls

open Ksnmss

/-! ## Constants -/

def dtlsVersion : Nat := 0xfefd
def dtlsRhLength : Nat := 13
def dtlsHsLength : Nat := 12
def dtlsChLength : Nat := 34
def dtlsHvLength : Nat := 3
def dtlsCookieLength : Nat := 16
def dtlsCookieLengthMax : Nat := 32
def dtlsRandomLength : Nat := 32
def dtlsFinLength : Nat := 12
def dtlsEcKeySize : Nat := 32
def dtlsTeslaSynLength : Nat := 113
def dtlsTeslaReqLength : Nat := 32
def ksnmssSigLength : Nat := 21368
def dtlsCkxecLength : Nat := 1 + 1 + 32 + 32 + dtlsTeslaSynLength + ksnmssSigLength + 72
def dtlsCkxpskLengthMin : Nat := 2
def dtlsSkexecLength : Nat := 1 + 2 + 1 + 1 + 32 + 32 + 1 + 1 + 2 + 70
def dtlsSkexecpskLengthMin : Nat := 2
def dtlsSkexecpskLengthMax : Nat := 2 + 32
def dtlsCvLength : Nat := 1 + 1 + 2 + 1 + 1 + 1 + 1 + 32 + 1 + 1 + 32
def dtlsChLengthMax : Nat := 34 + 32 + 12 + 26
def dtlsShLength : Nat := 2 + 32 + 1 + 2 + 1 + dtlsTeslaReqLength
def dtlsPskMaxClientIdentityLen : Nat := 32
def dtlsPskMaxKeyLen : Nat := 16
def dtlsMaxBuf : Nat := 30000
def dtlsMaxHsPayload : Nat := 1280 - 20 - 8
def dtlsDefaultMaxRetransmit : Nat := 7
def dtlsTicksPerSecond : Nat := 1000

def dtlsCtChangeCipherSpec : Nat := 20
def dtlsCtAlert : Nat := 21
def dtlsCtHandshake : Nat := 22
def dtlsCtApplicationData : Nat := 23

def dtlsHtHelloRequest : Nat := 0
def dtlsHtClientHello : Nat := 1
def dtlsHtServerHello : Nat := 2
def dtlsHtHelloVerifyRequest : Nat := 3
def dtlsHtCertificate : Nat := 11
def dtlsHtServerKeyExchange : Nat := 12
def dtlsHtCertificateRequest : Nat := 13
def dtlsHtServerHelloDone : Nat := 14
def dtlsHtCertificateVerify : Nat := 15
def dtlsHtClientKeyExchange : Nat := 16
def dtlsHtFinished : Nat := 20
def dtlsHsFragmented : Int := -244

def tlsNullWithNullNull : Nat := 0x0000
def tlsPskWithAes128Ccm8 : Nat := 0xC0A8
def tlsEcdheEcdsaWithAes128Ccm8 : Nat := 0xC0AE
def tlsCompressionNull : Nat := 0

def tlsExtEllipticCurves : Nat := 10
def tlsExtEcPointFormats : Nat := 11
def tlsExtClientCertificateType : Nat := 19
def tlsExtServerCertificateType : Nat := 20
def tlsExtEncryptThenMac : Nat := 22
def tlsCertTypeRawPublicKey : Nat := 2
def tlsExtEllipticCurvesSecp256r1 : Nat := 23
def tlsExtEcPointFormatsUncompressed : Nat := 0
def tlsEcCurveTypeNamedCurve : Nat := 3
def tlsClientCertificateTypeEcdsaSign : Nat := 64
def tlsExtSigHashAlgoSha256 : Nat := 4
def tlsExtSigHashAlgoEcdsa : Nat := 3

/-! ## Alerts -/

inductive DtlsAlert
  | closeNotify
  | unexpectedMessage
  | recordOverflow
  | handshakeFailure
  | decodeError
  | decryptError
  | protocolVersion
  | insufficientSecurity
  | internalError
  | noRenegotiation
deriving DecidableEq, Repr

/-- `dtls_alert_t`. -/
def DtlsAlert.code : DtlsAlert → Nat
  | closeNotify => 0
  | unexpectedMessage => 10
  | recordOverflow => 22
  | handshakeFailure => 40
  | decodeError => 50
  | decryptError => 51
  | protocolVersion => 70
  | insufficientSecurity => 71
  | internalError => 80
  | noRenegotiation => 100

def dtlsAlertLevelWarning : Nat := 1
def dtlsAlertLevelFatal : Nat := 2
def dtlsEventConnect : Nat := 0x01DC
def dtlsEventConnected : Nat := 0x01DE
def dtlsEventRenegotiate : Nat := 0x01DF

/-- `-((level << 8) | desc)`. -/
def dtlsAlertCreate (level : Nat) (desc : DtlsAlert) : Int :=
  -(((level <<< 8) ||| desc.code : Nat) : Int)

def dtlsAlertFatalCreate (desc : DtlsAlert) : Int := dtlsAlertCreate dtlsAlertLevelFatal desc

theorem dtlsAlertFatalCreate_neg (desc : DtlsAlert) : dtlsAlertFatalCreate desc < 0 := by
  cases desc <;> decide

/-! ## Sessions -/

/-- `session_t`, as the bytes of the object: the size of the address, the address,
    the interface. -/
abbrev Session := Vector UInt8 144

namespace Session

def size (s : Session) : Bytes := s.toList.take 4
/-- `sa_family`, a 16-bit number of the host. -/
def family (s : Session) : Nat := s[8].toNat + 256 * s[9].toNat
def port (s : Session) : Bytes := (s.toList.drop 10).take 2
def sinAddr (s : Session) : Bytes := (s.toList.drop 12).take 4
def sin6Addr (s : Session) : Bytes := (s.toList.drop 16).take 16
def ifindex (s : Session) : UInt8 := s[136]

end Session

def afInet : Nat := 2
def afInet6 : Nat := 10

def dtlsSessionEquals (a b : Session) : Bool :=
  if a.ifindex ≠ b.ifindex ∨ a.size ≠ b.size ∨ a.family ≠ b.family then false
  else if a.family = afInet then a.port = b.port ∧ a.sinAddr = b.sinAddr
  else if a.family = afInet6 then a.port = b.port ∧ a.sin6Addr = b.sin6Addr
  else false

/-! ## Peers -/

/-- The address of a peer. -/
abbrev Addr := Nat

/-- `dtls_state_t`. -/
inductive DtlsState
  | init
  | waitClientHello
  | waitClientCertificate
  | waitClientKeyExchange
  | waitCertificateVerify
  | waitChangeCipherSpec
  | waitFinished
  | finished
  | clientHello
  | waitServerCertificate
  | waitServerKeyExchange
  | waitServerHelloDone
  | connected
  | closing
  | closed
deriving DecidableEq, Repr

/-- `state < DTLS_STATE_CONNECTED`. -/
def DtlsState.beforeConnected : DtlsState → Bool
  | connected | closing | closed => false
  | _ => true

/-- `dtls_security_parameters_t`. -/
structure SecurityParameters where
  compression : Nat
  cipher : Nat
  epoch : Nat
  rseq : Nat
  keyBlock : KeyBlock

/-- `netq_t`; the length of the packet is that of `data`. -/
structure Netq where
  t : Nat
  timeout : Nat
  peer : Option Addr
  epoch : Nat
  type : Nat
  retransmitCnt : Nat
  data : Bytes

/-- `dtls_hs_reassemble_t` with the number of bytes allocated for `data`; `live` is
    false when the pointer to it outlived its storage. -/
structure HsReassemble where
  lastOffset : Nat
  packetLength : Nat
  data : Nat → UInt8
  size : Nat
  live : Bool

/-- `dtls_handshake_parameters_ecdsa_t`. -/
structure EcdsaParameters where
  ownEphPriv : Digest
  otherEphPubX : Digest
  otherEphPubY : Digest
  otherPubX : Digest
  otherPubY : Digest

/-- `dtls_handshake_parameters_psk_t`. -/
structure PskParameters where
  idLength : Nat
  identity : Digest

/-- `dtls_handshake_parameters_t`.  `tmp` is the union of the two randoms and the
    master secret.  The members of the union `keyx` are separate: which one is
    read is decided by `cipher`, which is set once in a handshake. -/
structure HandshakeParameters where
  tmp : Vector UInt8 64
  reorderQueue : List Netq
  reassembleBuf : Option HsReassemble
  mseqS : Nat
  mseqR : Nat
  hsHash : HashCtx
  compression : Nat
  cipher : Nat
  doClientAuth : Bool
  ecdsa : EcdsaParameters
  psk : PskParameters

/-- `memcpy` of `b` into an array, from index `off` on. -/
def overlay {n : Nat} (v : Vector UInt8 n) (off : Nat) (b : Bytes) : Vector UInt8 n :=
  Vector.ofFn fun i =>
    if off ≤ i.val ∧ i.val < off + b.length then b.getD (i.val - off) 0 else v.get i

/-- `memcpy` into `tmp`. -/
def HandshakeParameters.writeTmp (h : HandshakeParameters) (off : Nat) (b : Bytes) :
    HandshakeParameters := { h with tmp := overlay h.tmp off b }

def HandshakeParameters.randomClient (h : HandshakeParameters) : Bytes := h.tmp.toList.take 32
def HandshakeParameters.randomServer (h : HandshakeParameters) : Bytes := h.tmp.toList.drop 32
def HandshakeParameters.masterSecret (h : HandshakeParameters) : Bytes :=
  h.tmp.toList.take dtlsMasterSecretLength

/-- `struct packet_store`. -/
structure PacketStore where
  tId : Nat
  tMsg : Nat → UInt8
  revealKey : Digest
  packetMac : Digest

/-- `sizeof` of `t_msg`. -/
def tMsgSize : Nat := 10000

/-- The rows of `K` in a peer. -/
def teslaKeys : Nat := 1000

/-- `dtls_peer_t`; `security0` and `security1` are the array `security_params`. -/
structure Peer where
  session : Session
  role : DtlsPeerType
  state : DtlsState
  security0 : Option SecurityParameters
  security1 : Option SecurityParameters
  handshakeParams : Option HandshakeParameters
  intIndex : Nat
  K : Nat → Digest
  teslaMac : Digest
  teslaPs : PacketStore

/-! ## The context and its surroundings -/

/-- `tesla_sync`. -/
structure TeslaSync where
  nonce : Digest
  TSender : Bytes
  rate : Bytes
  intervalId : Bytes
  TStart : Bytes
  TInt : Bytes
  disDelay : Bytes
  keyChainLen : Bytes
  KeyComm : Digest

/-- `struct timeval`. -/
structure Timeval where
  tvSec : Int
  tvUsec : Int

/-- `dtls_credentials_type_t`. -/
inductive CredentialsType
  | pskHint
  | pskIdentity
  | pskKey

/-- `dtls_handshake_header_t`. -/
structure HandshakeHeader where
  msgType : Nat
  length : Nat
  messageSeq : Nat
  fragmentOffset : Nat
  fragmentLength : Nat
deriving DecidableEq

/-- A `memcpy` into `reassemble_buf->data`: `len` bytes from offset `src` of a
    record of `dataLength` bytes to offset `dst` of `buffer`. -/
structure FragmentCopy where
  peer : Addr
  header : HandshakeHeader
  buffer : HsReassemble
  record : Ptr
  dataLength : Nat
  dst : Nat
  src : Nat
  len : Nat

/-- A record that `dtls_handle_message` takes from a datagram; `before` is the peer
    found for the session. -/
structure RecordCall where
  peer : Option Addr
  before : Option Peer
  packet : Ptr
  length : Nat

/-- A call of `handle_handshake_msg`; `before` is the peer at its start. -/
structure HandshakeCall where
  peer : Option Addr
  role : DtlsPeerType
  state : DtlsState
  before : Option Peer
  data : Ptr
  dataLength : Nat

/-- A packet of application data with its TESLA part: the interval index that is
    used for it and the one it carries, the key it discloses, what was stored when it
    came in, and what is stored of it.  `length` is that of its payload; `check` is
    the outcome of the delayed check, if there was one. -/
structure TeslaPacket where
  peer : Addr
  used : Nat
  carried : Nat
  key : Digest
  stored : PacketStore
  next : PacketStore
  length : Int
  check : Option Bool

/-- What a run does that can be seen from outside, or that a property of runs is
    about. -/
inductive Event
  | sent (session : Session) (type : Nat) (payload : Bytes)
  | write (session : Session) (datagram : Bytes)
  | read (session : Session) (data : Ptr) (len : Nat)
  | event (session : Session) (level code : Nat)
  | keyGeneration
  | sign (id : Nat) (hash : Digest) (sig : KsnmssSig)
  | verify (hash : Digest) (result : Option Nat)
  | interval (safe : Bool)
  | tesla (packet : TeslaPacket)
  | fragment (copy : FragmentCopy)
  | deliver (peer : Addr) (length : Nat) (data : Nat → UInt8)
  | record (call : RecordCall)
  | replay (peer : Addr) (state : DtlsState)
  | message (call : HandshakeCall)
  | handled (result : Int)
  | state (peer : Addr) (old new : DtlsState)

/-- What the application does in its read callback. -/
inductive AppCall
  | write (session : Session) (buf : Ptr) (len : Nat)
  | connect (session : Session)
  | renegotiate (session : Session)
  | close (session : Session)

/-- The surroundings of the library. -/
structure Env where
  prims : Primitives
  ksnmss : Prims
  /-- `dtls_fill_random`. -/
  random : Nat → Nat → UInt8
  /-- `dtls_ticks`. -/
  ticks : Nat → Nat
  /-- `gettimeofday`. -/
  timeofday : Nat → Timeval
  /-- Does the allocator find storage? -/
  malloc : Nat → Bool
  /-- Where it finds storage for a peer. -/
  peerStorage : Nat → Addr
  /-- What is found in storage that has not been written. -/
  uninitialised : Nat → HsReassemble
  /-- `dtls_ecdsa_generate_key`. -/
  ecdsaKey : Nat → Digest × Digest × Digest
  /-- The callbacks of the application. -/
  write : Nat → Session → Bytes → Int
  read : Nat → Session → Ptr → Nat → List AppCall
  getPskInfo : Option (Nat → Session → CredentialsType → Bytes → Nat → Int × Ptr)
  getEcdsaKey : Bool
  verifyEcdsaKey : Option (Nat → Session → Digest → Digest → Int)

/-- The context, the globals, the storage of peers, and the ghost record of events
    (the last one first). -/
structure World where
  cookieSecret : Bytes
  peers : List Addr
  sendqueue : List Netq
  treqNonce : Digest
  tsync : TeslaSync
  rtt : Rat
  tR : Timeval
  startRtt : Nat
  hmacKey1 : Digest
  signer : SignerState
  heap : Addr → Peer
  live : Addr → Bool
  tick : Nat
  log : List Event

inductive Crash
  | assertFailed
  | nullDeref
  | outOfBounds
  | doubleFree
deriving DecidableEq, Repr

/-- A function of the library. -/
abbrev M := Program Crash World

/-! ## Access to the world -/

open Program (gets modify ofOption)

/-- The number of the next question to the surroundings. -/
def nextTick : M Nat := do
  let t ← gets World.tick
  modify fun w => { w with tick := w.tick + 1 }
  pure t

def emit (e : Event) : M Unit := modify fun w => { w with log := e :: w.log }

def getPeer (a : Addr) : M Peer := gets fun w => w.heap a

/-- The world with `p` stored at `a`. -/
def World.setPeer (w : World) (a : Addr) (p : Peer) : World :=
  { w with heap := Function.update w.heap a p }

def modifyPeer (a : Addr) (f : Peer → Peer) : M Unit :=
  modify fun w => w.setPeer a (f (w.heap a))

/-- Storage at `a` is handed out, or given back. -/
def setLive (a : Addr) (inUse : Bool) : M Unit :=
  modify fun w => { w with live := Function.update w.live a inUse }

def modifyQueue (f : World → List Netq) : M Unit := modify fun w => { w with sendqueue := f w }

def modifyPeers (f : List Addr → List Addr) : M Unit :=
  modify fun w => { w with peers := f w.peers }

/-- The peer enters the state `s`. -/
def setState (a : Addr) (s : DtlsState) : M Unit := do
  let p ← getPeer a
  emit (.state a p.state s)
  modifyPeer a fun p => { p with state := s }

/-- `peer->handshake_params`, dereferenced. -/
def getHandshake (a : Addr) : M HandshakeParameters := do
  let p ← getPeer a
  ofOption .nullDeref p.handshakeParams

/-- A write through `peer->handshake_params`. -/
def modifyHandshake (a : Addr) (f : HandshakeParameters → HandshakeParameters) : M Unit := do
  let h ← getHandshake a
  modifyPeer a fun p => { p with handshakeParams := some (f h) }

/-- A fresh array of random bytes. -/
def dtlsFillRandom (env : Env) (n : Nat) : M (Vector UInt8 n) := do
  let t ← nextTick
  pure (Vector.ofFn fun i => env.random t i.val)

def dtlsTicks (env : Env) : M Nat := do
  let t ← nextTick
  pure (env.ticks t)

def gettimeofday (env : Env) : M Timeval := do
  let t ← nextTick
  pure (env.timeofday t)

def malloc (env : Env) : M Bool := do
  let t ← nextTick
  pure (env.malloc t)

/-- `CALL(ctx, event, …)`. -/
def callEvent (session : Session) (level code : Nat) : M Unit := emit (.event session level code)

/-- `CALL(ctx, get_psk_info, …)`; without a handler the result is `-1`. -/
def callGetPskInfo (env : Env) (session : Session) (type : CredentialsType) (desc : Bytes)
    (resultLength : Nat) : M (Int × Ptr) := do
  let t ← nextTick
  match env.getPskInfo with
  | some f => pure (f t session type desc resultLength)
  | none => pure (-1, fun _ => 0)

/-- `CALL(ctx, write, …)` on a datagram with one record. -/
def callWrite (env : Env) (session : Session) (type : Nat) (payload datagram : Bytes) :
    M Int := do
  let t ← nextTick
  emit (.sent session type payload)
  emit (.write session datagram)
  pure (env.write t session datagram)

/-! ## Execution -/

/-- The world after a question to the surroundings. -/
def World.asked (w : World) : World := { w with tick := w.tick + 1 }

/-- The world after an event. -/
def World.emitted (w : World) (e : Event) : World := { w with log := e :: w.log }

variable {α : Type}

@[simp] theorem nextTick_apply (w : World) : nextTick w = (.ok w.tick, w.asked) := rfl

@[simp] theorem nextTick_bind (f : Nat → M α) (w : World) :
    (nextTick >>= f) w = f w.tick w.asked := rfl

@[simp] theorem dtlsTicks_bind (env : Env) (f : Nat → M α) (w : World) :
    (dtlsTicks env >>= f) w = f (env.ticks w.tick) w.asked := rfl

@[simp] theorem gettimeofday_bind (env : Env) (f : Timeval → M α) (w : World) :
    (gettimeofday env >>= f) w = f (env.timeofday w.tick) w.asked := rfl

@[simp] theorem malloc_bind (env : Env) (f : Bool → M α) (w : World) :
    (malloc env >>= f) w = f (env.malloc w.tick) w.asked := rfl

@[simp] theorem dtlsFillRandom_bind (env : Env) (n : Nat) (f : Vector UInt8 n → M α) (w : World) :
    (dtlsFillRandom env n >>= f) w
      = f (Vector.ofFn fun i => env.random w.tick i.val) w.asked := rfl

@[simp] theorem emit_bind (e : Event) (f : Unit → M α) (w : World) :
    (emit e >>= f) w = f () (w.emitted e) := rfl

@[simp] theorem getPeer_bind (a : Addr) (f : Peer → M α) (w : World) :
    (getPeer a >>= f) w = f (w.heap a) w := rfl

@[simp] theorem modifyPeer_bind (a : Addr) (g : Peer → Peer) (f : Unit → M α) (w : World) :
    (modifyPeer a g >>= f) w = f () (w.setPeer a (g (w.heap a))) := rfl

@[simp] theorem modifyQueue_bind (g : World → List Netq) (f : Unit → M α) (w : World) :
    (modifyQueue g >>= f) w = f () { w with sendqueue := g w } := rfl

@[simp] theorem setState_bind (a : Addr) (s : DtlsState) (f : Unit → M α) (w : World) :
    (setState a s >>= f) w
      = f () ((w.emitted (.state a (w.heap a).state s)).setPeer a
          { w.heap a with state := s }) := rfl

@[simp] theorem callEvent_bind (session : Session) (level code : Nat) (f : Unit → M α)
    (w : World) :
    (callEvent session level code >>= f) w = f () (w.emitted (.event session level code)) := rfl

@[simp] theorem callWrite_bind (env : Env) (session : Session) (type : Nat)
    (payload datagram : Bytes) (f : Int → M α) (w : World) :
    (callWrite env session type payload datagram >>= f) w
      = f (env.write w.tick session datagram)
          ((w.asked.emitted (.sent session type payload)).emitted (.write session datagram)) := rfl

end PqDtls.Dtls
