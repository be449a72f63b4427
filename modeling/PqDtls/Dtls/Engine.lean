import PqDtls.Dtls.Handshake

/-! # The engine

    Connecting, writing application data with its TESLA part, the other kinds of
    records, and `dtls_handle_message` as a loop over the records of a datagram.
    The last section is the interface: the calls an application makes, runs of
    them, and the worlds such a run reaches. -/

namespace PqDtls.Dtls

open Program (get gets modify stop ofOption when)
open Ksnmss

variable (env : Env)

/-! ## Connecting -/

def dtlsRenegotiate (dst : Session) : M Int := do
  let peer ← dtlsGetPeer dst
  match peer with
  | none => pure (-1)
  | some a => do
      let p ← getPeer a
      if p.state ≠ .connected then pure (-1)
      else do
      let found ← dtlsHandshakeNew env a
      if !found then pure (-1)
      else if p.role = .client then do
        let err ← dtlsSendClientHello env a []
        when (0 ≤ err) (setState a .clientHello)
        pure err
      else dtlsSendHelloRequest env a

def dtlsConnectPeer (a : Addr) : M Int := do
  let p ← getPeer a
  let found ← dtlsGetPeer p.session
  if found = some a then dtlsRenegotiate env p.session
  else do
  modifyPeer a fun p => { p with role := .client }
  dtlsAddPeer a
  modify fun w => { w with signer := keyGeneration env.ksnmss w.signer }
  emit .keyGeneration
  let found ← dtlsHandshakeNew env a
  if !found then pure (-1)
  else do
  let startRtt ← dtlsTicks env
  modify fun w => { w with startRtt := startRtt }
  let _ ← dtlsTicks env
  let res ← dtlsSendClientHello env a []
  when (0 ≤ res) (setState a .clientHello)
  pure res

/-- The peer of a session, or a new one. -/
def connectTarget (dst : Session) : M (Option Addr) := do
  let peer ← dtlsGetPeer dst
  match peer with
  | some a => pure (some a)
  | none => dtlsNewPeer env dst

def dtlsConnect (dst : Session) : M Int := do
  let peer ← connectTarget env dst
  match peer with
  | none => pure (-1)
  | some a => do
      let res ← dtlsConnectPeer env a
      let p ← getPeer a
      when (0 < res) (callEvent p.session 0 dtlsEventConnect)
      when (res = 0) (callEvent p.session 0 dtlsEventRenegotiate)
      pure res

/-! ## Writing -/

/-- `hmac_key2`. -/
def hmacKey2 : Bytes :=
  [0x95, 0xab, 0x3f, 0xab, 0x54, 0x53, 0xde, 0x39, 0xb3, 0xde, 0x73, 0x36, 0x4a, 0x73, 0x29, 0x45,
    0x6b, 0x4f, 0xb7, 0x8b, 0xd2, 0x49, 0xa6, 0xc5, 0x46, 0xec, 0xae, 0xb1, 0x29, 0x7f, 0x61, 0x3b]

/-- The MAC of a packet under a key of the chain. -/
def teslaMac (C : Primitives) (key : Digest) (msg : Bytes) : Digest :=
  dtlsHmac C (dtlsHmac C hmacKey2 key.toList).toList msg

/-- The bytes of the TESLA part. -/
def teslaExtension : Nat := 68

/-- The key that the packet of interval `p.intIndex` discloses. -/
def disclosedKey (p : Peer) (tsync : TeslaSync) : Digest :=
  if p.intIndex = 0 then tsync.KeyComm else p.K (p.intIndex - 1)

/-- The payload with the interval index and the disclosed key behind it. -/
def teslaContent (p : Peer) (tsync : TeslaSync) (payload : Bytes) : Bytes :=
  payload ++ dtlsIntToUint32 p.intIndex ++ (disclosedKey p tsync).toList

/-- The bytes `dtls_write` hands to `dtls_send`.  The TESLA state is that of the head
    of the list of peers; a server sends what lies behind its payload. -/
def teslaPayload (head : Addr) (buf : Ptr) (len : Nat) : M Bytes := do
  let w ← get
  let p := w.heap head
  if p.role ≠ .client then pure (buf.bytes (len + teslaExtension))
  else do
  let content := teslaContent p w.tsync (buf.bytes len)
  let mac := teslaMac env.prims (p.K p.intIndex) content
  modifyPeer head fun p => { p with teslaMac := mac }
  pure (content ++ mac.toList)

/-- A write on a connected session.  The key of the interval is printed, so there has
    to be one. -/
def writeConnected (a : Addr) (buf : Ptr) (len : Nat) : M Int := do
  let peers ← gets World.peers
  let head ← ofOption .nullDeref peers.head?
  let p ← getPeer head
  if p.intIndex ≥ teslaKeys then stop .outOfBounds
  else do
  let payload ← teslaPayload env head buf len
  modifyPeer head fun p => { p with intIndex := (p.intIndex + 1) % 2 ^ 32 }
  dtlsSend env a dtlsCtApplicationData payload

def dtlsWrite (dst : Session) (buf : Ptr) (len : Nat) : M Int := do
  let peer ← dtlsGetPeer dst
  match peer with
  | none => do
      let res ← dtlsConnect env dst
      pure (if 0 ≤ res then 0 else res)
  | some a => do
      let p ← getPeer a
      if p.state ≠ .connected then pure 0 else writeConnected env a buf len

/-! ## ChangeCipherSpec and alerts -/

/-- The new keys of a server; a client has them already. -/
def serverKeyBlock (a : Addr) (p : Peer) : M Int :=
  if p.role ≠ .server then pure 0 else calculateKeyBlock env a p.session

def handleCcs (peer : Option Addr) (data : Ptr) (dataLength : Nat) : M Int :=
  match peer with
  | none => pure 0
  | some a => do
      let p ← getPeer a
      if p.state ≠ .waitChangeCipherSpec then pure 0
      else if dataLength < 1 ∨ data.uint8 ≠ 1 then pure (dtlsAlertFatalCreate .decodeError)
      else do
      let err ← serverKeyBlock env a p
      if err < 0 then pure err
      else do
      setState a .waitFinished
      pure 0

/-- The answer to a close notification. -/
def answerClose (a : Addr) : M Unit := do
  let p ← getPeer a
  if p.state ≠ .closing then do
    setState a .closing
    let _ ← dtlsSendAlert env a dtlsAlertLevelFatal DtlsAlert.closeNotify.code
    pure ()
  else setState a .closed

/-- `handle_alert`: 1 when the peer was released. -/
def handleAlert (peer : Option Addr) (data : Ptr) (dataLength : Nat) : M Int :=
  if dataLength < 2 then pure (dtlsAlertFatalCreate .decodeError)
  else
    match peer with
    | none => pure 0
    | some a => do
        let level := data.uint8
        let desc := (data.add 1).uint8
        let freePeer := level = dtlsAlertLevelFatal ∨ desc = DtlsAlert.closeNotify.code
        when freePeer (deletePeer a)
        let p ← getPeer a
        callEvent p.session level desc
        when (desc = DtlsAlert.closeNotify.code) (answerClose env a)
        if freePeer then do
          dtlsStopRetransmission a
          dtlsDestroyPeer env a
          pure 1
        else pure 0

/-- The level and the description of the alert for a return value. -/
def alertFromErr (err : Int) : Option (Nat × Nat) :=
  if err < -(2 ^ 8) ∧ err > -(3 * 2 ^ 8) then
    some ((-err).toNat / 256 % 256, (-err).toNat % 256)
  else if err = -1 then some (dtlsAlertLevelFatal, DtlsAlert.internalError.code)
  else none

def dtlsAlertSendFromErr (peer : Option Addr) (session : Session) (err : Int) : M Int :=
  match alertFromErr err with
  | none => pure (-1)
  | some alert => do
      let found ← dtlsGetPeer session
      match peer <|> found with
      | none => pure (-1)
      | some a => do
          setState a .closing
          dtlsSendAlert env a alert.1 alert.2

/-! ## Application data -/

/-- One call the application makes from its read callback. -/
def runAppCall : AppCall → M Unit
  | .write session buf len => do
      let _ ← dtlsWrite env session buf len
      pure ()
  | .connect session => do
      let _ ← dtlsConnect env session
      pure ()
  | .renegotiate session => do
      let _ ← dtlsRenegotiate env session
      pure ()
  | .close session => do
      let _ ← dtlsClose env session
      pure ()

def runAppCalls : List AppCall → M Unit
  | [] => pure ()
  | call :: calls => do
      runAppCall env call
      runAppCalls calls

/-- `CALL(ctx, read, …)`. -/
def callRead (session : Session) (data : Ptr) (len : Nat) : M Unit := do
  let t ← nextTick
  emit (.read session data len)
  runAppCalls env (env.read t session data len)

/-- Is the packet of interval `index` "safe"? -/
def intervalSafe (rtt : Rat) (now : Timeval) (TStart : Bytes) (index : Nat) : Bool :=
  let tS := ntpAdd now (ntpFromMillis (sizeT (truncate rtt)))
  let T0 : Timeval := ⟨toInt64 (bytesToInt (TStart.take 8)), toInt64 (bytesToInt (TStart.drop 8))⟩
  ntpToDouble (ntpSub tS T0) / 2 ≤ index + 1

/-- The time interval check, whose outcome is printed. -/
def checkInterval (index : Nat) : M Unit := do
  let now ← gettimeofday env
  let w ← get
  emit (.interval (intervalSafe w.rtt now w.tsync.TStart index))

/-- The key in the TESLA part behind `len` bytes of payload. -/
def packetKey (data : Ptr) (len : Int) : Digest := (data.add (len + 4)).array 32

/-- The MAC in the TESLA part. -/
def packetMac (data : Ptr) (len : Int) : Digest := (data.add (len + 36)).array 32

/-- The index in the TESLA part. -/
def packetIndex (data : Ptr) (len : Int) : Nat := bytesToInt ((data.add len).bytes 4)

/-- The packet that is checked when the next one discloses its key. -/
def storePacket (old : PacketStore) (index : Nat) (data : Ptr) (len : Int) : PacketStore where
  tId := index
  tMsg := fun i => if (i : Int) < len + 36 then data i else old.tMsg i
  revealKey := packetKey data len
  packetMac := packetMac data len

/-- The MAC of the stored packet under a disclosed key, over as many bytes as the
    current packet has. -/
def storedMac (C : Primitives) (stored : PacketStore) (key : Digest) (len : Int) : Digest :=
  teslaMac C key ((List.range (len + 36).toNat).map stored.tMsg)

/-- What is known of an incoming packet when it has been checked. -/
def receivedPacket (C : Primitives) (head : Addr) (p : Peer) (data : Ptr) (len : Int) :
    TeslaPacket where
  peer := head
  used := p.intIndex
  carried := packetIndex data len
  key := packetKey data len
  stored := p.teslaPs
  next := storePacket p.teslaPs p.intIndex data len
  length := len
  check :=
    if p.intIndex = 0 then none
    else some (storedMac C p.teslaPs (packetKey data len) len = p.teslaPs.packetMac)

/-- The TESLA part of an incoming packet with `len` bytes of payload.  The state is
    that of the head of the list of peers. -/
def receiveTesla (data : Ptr) (len : Int) : M Unit := do
  let peers ← gets World.peers
  let head ← ofOption .nullDeref peers.head?
  let p ← getPeer head
  checkInterval env p.intIndex
  if len + 36 < 0 ∨ len + 36 > tMsgSize then stop .outOfBounds
  else do
  -- a mismatch is printed, and the packet is stored all the same
  emit (.tesla (receivedPacket env.prims head p data len))
  modifyPeer head fun p => { p with teslaPs := storePacket p.teslaPs p.intIndex data len }

def handleApplicationData (a : Addr) (data : Ptr) (dataLength : Nat) : M Unit := do
  dtlsStopRetransmission a
  let len : Int := (dataLength : Int) - teslaExtension
  receiveTesla env data len
  let p ← getPeer a
  callRead env p.session data (sizeT len)

/-! ## Records -/

/-- `content_types`; `strchr` finds its end marker too. -/
def contentTypes : List Nat :=
  [dtlsCtChangeCipherSpec, dtlsCtAlert, dtlsCtHandshake, dtlsCtApplicationData, 0]

def isRecord (msg : Ptr) (msglen : Nat) : Nat :=
  if dtlsRhLength ≤ msglen ∧ msg.uint8 ∈ contentTypes ∧ (msg.add 1).uint16 = dtlsVersion then
    let rlen := dtlsRhLength + (msg.add 11).uint16
    if rlen > msglen then 0 else rlen
  else 0

def hsAttemptWithExistingPeer (msg : Ptr) (p : Peer) : Bool :=
  p.state = .connected ∧ msg.uint8 = dtlsCtHandshake ∧ dtlsGetEpoch msg = 0 ∧
    ((msg.add dtlsRhLength).uint8 = dtlsHtClientHello ∨
      (msg.add dtlsRhLength).uint8 = dtlsHtHelloRequest)

/-- A record that is ready to be handled: `msg` after decryption, its payload, and
    the role and state it is handled in. -/
structure OpenRecord where
  msg : Ptr
  data : Ptr
  dataLength : Nat
  role : DtlsPeerType
  state : DtlsState

/-- A record taken as the start of a new handshake. -/
def freshRecord (msg : Ptr) (rlen : Nat) : OpenRecord :=
  ⟨msg, msg.add dtlsRhLength, rlen - dtlsRhLength, .server, .waitClientHello⟩

/-- A record that does not decrypt. -/
def rejectRecord (a : Addr) (p : Peer) : M Int := do
  let err := dtlsAlertFatalCreate .decryptError
  if p.state.beforeConnected then do
    let _ ← dtlsAlertSendFromErr env (some a) p.session err
    setState a .closed
    dtlsStopRetransmission a
    dtlsDestroyPeer env a
    pure err
  else pure err

/-- The first part of the loop: the record in the clear, or the value to return. -/
def openPeerRecord (peer : Option Addr) (msg : Ptr) (rlen : Nat) : M (Except Int OpenRecord) :=
  match peer with
  | none => pure (.ok (freshRecord msg rlen))
  | some a => do
      let opened ← decryptVerify env a msg rlen
      let p ← getPeer a
      if opened.length < 0 then
        if hsAttemptWithExistingPeer opened.packet p then
          pure (.ok (freshRecord opened.packet rlen))
        else do
        let err ← rejectRecord env a p
        pure (.error err)
      else
      pure (.ok ⟨opened.packet, opened.data, opened.length.toNat, p.role, p.state⟩)

/-- The epoch a handshake record has to have. -/
def expectedEpoch (s : SecurityParameters) (role : DtlsPeerType) (state : DtlsState) : Nat :=
  if role = .server ∧ state = .waitFinished then (s.epoch + 1) % 2 ^ 16 else s.epoch

/-- The check of the epoch of a handshake record; `none` drops the record. -/
def checkEpoch (peer : Option Addr) (r : OpenRecord) : M (Option OpenRecord) :=
  match peer with
  | none => pure (some r)
  | some a => do
      let p ← getPeer a
      match p.security0 with
      | none => pure (some r)
      | some s =>
          if expectedEpoch s r.role r.state = dtlsGetEpoch r.msg then pure (some r)
          else if hsAttemptWithExistingPeer r.msg p then
            pure (some { r with role := .server, state := .waitClientHello })
          else pure none

/-- What a handshake record that was handled leads to. -/
def handshakeHandled (peer : Option Addr) (session : Session) (err : Int) : M (Option Int) :=
  if err = dtlsHsFragmented then pure none
  else if err < 0 then do
    let _ ← dtlsAlertSendFromErr env peer session err
    pure (some err)
  else
    match peer with
    | none => pure none
    | some a => do
        let p ← getPeer a
        when (p.state = .connected) (do
          dtlsStopRetransmission a
          callEvent p.session 0 dtlsEventConnected)
        pure none

def handleHandshakeRecord (peer : Option Addr) (session : Session) (r : OpenRecord) :
    M (Option Int) := do
  let r ← checkEpoch peer r
  match r with
  | none => pure none
  | some r => do
      let err ← handleHandshake env peer session r.role r.state r.data r.dataLength
      handshakeHandled env peer session err

def handleCcsRecord (peer : Option Addr) (session : Session) (r : OpenRecord) :
    M (Option Int) := do
  stopRetransmissionOf peer
  let err ← handleCcs env peer r.data r.dataLength
  if 0 ≤ err then pure none
  else do
  let _ ← dtlsAlertSendFromErr env peer session err
  match peer with
  | none => pure (some err)
  | some a => do
      dtlsDestroyPeer env a
      pure (some err)

def handleAlertRecord (peer : Option Addr) (r : OpenRecord) : M (Option Int) := do
  stopRetransmissionOf peer
  let err ← handleAlert env peer r.data r.dataLength
  pure (if err < 0 then some err else if err = 1 then some (-1) else none)

def handleApplicationRecord (peer : Option Addr) (r : OpenRecord) : M (Option Int) :=
  match peer with
  | none => pure (some (-1))
  | some a => do
      handleApplicationData env a r.data r.dataLength
      pure none

/-- The `switch` on the content type; `some` is a value to return. -/
def dispatchRecord (peer : Option Addr) (session : Session) (r : OpenRecord) :
    M (Option Int) :=
  if r.msg.uint8 = dtlsCtChangeCipherSpec then handleCcsRecord env peer session r
  else if r.msg.uint8 = dtlsCtAlert then handleAlertRecord env peer r
  else if r.msg.uint8 = dtlsCtHandshake then handleHandshakeRecord env peer session r
  else if r.msg.uint8 = dtlsCtApplicationData then handleApplicationRecord env peer r
  else pure none

/-- One record: the value to return, or the memory of the datagram for the next one. -/
def handleRecord (peer : Option Addr) (session : Session) (msg : Ptr) (rlen : Nat) :
    M (Except Int Ptr) := do
  let before ← gets fun w => peer.map w.heap
  emit (.record ⟨peer, before, msg, rlen⟩)
  let opened ← openPeerRecord env peer msg rlen
  match opened with
  | .error err => pure (.error err)
  | .ok r => do
      let res ← dispatchRecord env peer session r
      pure (match res with
        | some err => .error err
        | none => .ok (r.msg.add rlen))

/-- The loop over the records of a datagram; every record has a header. -/
def handleRecords (peer : Option Addr) (session : Session) : Nat → Ptr → Nat → M Int
  | 0, _, _ => pure 0
  | fuel + 1, msg, msglen =>
      let rlen := isRecord msg msglen
      if rlen = 0 then pure 0
      else do
      let next ← handleRecord env peer session msg rlen
      match next with
      | .error err => pure err
      | .ok msg => handleRecords peer session fuel msg (msglen - rlen)

def dtlsHandleMessage (session : Session) (msg : Ptr) (msglen : Nat) : M Int := do
  let peer ← dtlsGetPeer session
  handleRecords env peer session (msglen + 1) msg msglen

/-! ## Retransmission -/

/-- Every node that is due is sent at most as often as it may be retransmitted. -/
def dtlsCheckRetransmit (all : Bool) : M Unit := do
  let now ← dtlsTicks env
  let w ← get
  checkRetransmitLoop env now all
    (w.sendqueue.length * (dtlsDefaultMaxRetransmit + 1) + 1)

/-! ## Runs -/

/-- A call the application makes. -/
inductive Input
  | handleMessage (session : Session) (msg : Ptr) (msglen : Nat)
  | checkRetransmit (all : Bool)
  | app (call : AppCall)
  | resetPeer (session : Session)

def runInput : Input → M Unit
  | .handleMessage session msg msglen => do
      let _ ← dtlsHandleMessage env session msg msglen
      pure ()
  | .checkRetransmit all => dtlsCheckRetransmit env all
  | .app call => runAppCall env call
  | .resetPeer session => do
      let peer ← dtlsGetPeer session
      match peer with
      | none => pure ()
      | some a => dtlsResetPeer env a

/-- A run of the process; nothing follows a stop. -/
def runInputs : List Input → M Unit
  | [] => pure ()
  | i :: is => do
      runInput env i
      runInputs is

/-- A process that has set up its context: no peers, nothing queued, nothing seen.
    Storage for a peer is written before it is read, so it counts as empty before. -/
structure Initial (w : World) : Prop where
  peers : w.peers = []
  live : ∀ a, w.live a = false
  sendqueue : w.sendqueue = []
  log : w.log = []
  heap : ∀ a, ∃ session, w.heap a = emptyPeer session

/-- A world in which a run ends, or stops. -/
def Reachable (w : World) : Prop :=
  ∃ w₀ is, Initial w₀ ∧ (runInputs env is w₀).2 = w

end PqDtls.Dtls
