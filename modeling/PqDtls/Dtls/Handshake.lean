import PqDtls.Dtls.KeyExchange

/-! # Handshake messages

    `handle_handshake_msg` with one definition for each message type, the
    reassembly of fragments, and `handle_handshake` with its reorder queue. -/

namespace PqDtls.Dtls

open Program (get gets modify stop ofOption when)
open Ksnmss

variable (env : Env)

/-- How a branch of the `switch` ends: `return err`, or `break` with the current
    value of `peer`. -/
inductive Outcome
  | ret (err : Int)
  | done (peer : Option Addr) (err : Int)

def unexpectedMessage : M Outcome := pure (.ret (dtlsAlertFatalCreate .unexpectedMessage))

def internalError : M Outcome := pure (.ret (dtlsAlertFatalCreate .internalError))

/-- `if (!peer || !peer->handshake_params)` in front of `k`. -/
def withHandshake (peer : Option Addr) (k : Addr → HandshakeParameters → M Outcome) :
    M Outcome :=
  match peer with
  | none => internalError
  | some a => do
      let p ← getPeer a
      match p.handshakeParams with
      | none => internalError
      | some h => k a h

/-! ## Messages a client receives -/

def handleHelloVerifyRequest (peer : Option Addr) (state : DtlsState) (data : Ptr)
    (dataLength : Nat) : M Outcome :=
  if state ≠ .clientHello then unexpectedMessage
  else do
  let err ← checkServerHelloVerifyRequest env peer data dataLength
  if err < 0 then pure (.ret err)
  else do
  let stopRtt ← dtlsTicks env
  modify fun w =>
    { w with rtt := (((stopRtt : Int) - w.startRtt : Int) : Rat) / dtlsTicksPerSecond }
  pure (.done peer err)

def handleServerHello (peer : Option Addr) (state : DtlsState) (data : Ptr)
    (dataLength : Nat) : M Outcome :=
  if state ≠ .clientHello then unexpectedMessage
  else withHandshake peer fun a _ => do
  let err ← checkServerHello env a data dataLength
  if err < 0 then pure (.ret err)
  else do
  let h ← getHandshake a
  setState a (if isTlsEcdheEcdsaWithAes128Ccm8 h.cipher then .waitServerCertificate
    else .waitServerHelloDone)
  pure (.done peer err)

def handleCertificate (peer : Option Addr) (role : DtlsPeerType) (state : DtlsState)
    (data : Ptr) (dataLength : Nat) : M Outcome :=
  if (role = .client ∧ state ≠ .waitServerCertificate) ∨
      (role = .server ∧ state ≠ .waitClientCertificate) then unexpectedMessage
  else
    match peer with
    | none => internalError
    | some a => do
        let err ← checkServerCertificate env a data dataLength
        if err < 0 then pure (.ret err)
        else do
        setState a (if role = .client then .waitServerKeyExchange else .waitClientKeyExchange)
        pure (.done peer err)

/-- What follows the check of a ServerKeyExchange. -/
def serverKeyExchangeChecked (a : Addr) (err : Int) : M Outcome :=
  if err < 0 then pure (.ret err)
  else do
  setState a .waitServerHelloDone
  pure (.done (some a) err)

/-- With a cipher of neither kind nothing is checked, not even the state. -/
def handleServerKeyExchange (peer : Option Addr) (state : DtlsState) (data : Ptr)
    (dataLength : Nat) : M Outcome :=
  withHandshake peer fun a h =>
  if isTlsEcdheEcdsaWithAes128Ccm8 h.cipher then
    if state ≠ .waitServerKeyExchange then unexpectedMessage
    else do
    let err ← checkServerKeyExchangeEcdsa env a data dataLength
    serverKeyExchangeChecked a err
  else if isTlsPskWithAes128Ccm8 h.cipher then
    if state ≠ .waitServerHelloDone then unexpectedMessage
    else do
    let err ← checkServerKeyExchangePsk a data dataLength
    serverKeyExchangeChecked a err
  else serverKeyExchangeChecked a 0

def handleServerHelloDone (peer : Option Addr) (state : DtlsState) (data : Ptr)
    (dataLength : Nat) : M Outcome :=
  if state ≠ .waitServerHelloDone then unexpectedMessage
  else
    match peer with
    | none => internalError
    | some a => do
        let err ← checkServerHellodone env a data dataLength
        if err < 0 then pure (.ret err)
        else do
        setState a .waitChangeCipherSpec
        pure (.done peer err)

def handleCertificateRequest (peer : Option Addr) (state : DtlsState) (data : Ptr)
    (dataLength : Nat) : M Outcome :=
  if state ≠ .waitServerHelloDone then unexpectedMessage
  else
    match peer with
    | none => internalError
    | some a => do
        let err ← checkCertificateRequest a data dataLength
        if err < 0 then pure (.ret err) else pure (.done peer err)

/-! ## Finished -/

/-- The answer of a server: ChangeCipherSpec and its own Finished. -/
def answerFinished (a : Addr) (role : DtlsPeerType) (data : Ptr) (dataLength : Nat) : M Int :=
  if role ≠ .server then pure 0
  else do
  updateHsHash a (data.bytes dataLength)
  let err ← dtlsSendCcs env a
  if err < 0 then pure err
  else do
  dtlsSecurityParamsSwitch a
  dtlsSendFinished env a prfLabelServer

def handleFinished (peer : Option Addr) (role : DtlsPeerType) (state : DtlsState)
    (data : Ptr) (dataLength : Nat) : M Outcome :=
  if state ≠ .waitFinished then unexpectedMessage
  else withHandshake peer fun a _ => do
  let p ← getPeer a
  -- the check returns 0 or an error
  if checkFinished env p data dataLength < 0 then
    pure (.ret (checkFinished env p data dataLength))
  else do
  let err ← answerFinished env a role data dataLength
  if err < 0 then pure (.ret err)
  else do
  modifyPeer a fun p => { p with handshakeParams := none }
  let _ ← dtlsTicks env
  setState a .connected
  pure (.ret err)

/-! ## Messages a server receives -/

/-- Where the TESLA synchronisation of a ClientKeyExchange starts. -/
def teslaSyncOffset (dataLength : Nat) : Int :=
  (dataLength : Int) - dtlsTeslaSynLength - ksnmssSigLength - 72

/-- The round trip time from the sender's time stamp, in the unit the code uses. -/
def teslaRtt (tsync : TeslaSync) (tR : Timeval) : Rat :=
  let tS : Timeval := ⟨toInt64 (bytesToInt (tsync.TSender.take 8)),
    toInt64 (bytesToInt (tsync.TSender.drop 8))⟩
  ntpToDouble (ntpSub tS tR) * 1000

/-- The state in which the server waits for what follows the ClientKeyExchange. -/
def keyExchanged (h : HandshakeParameters) : DtlsState :=
  if isTlsEcdheEcdsaWithAes128Ccm8 h.cipher ∧ isEcdsaClientAuthSupported env then
    .waitCertificateVerify
  else .waitChangeCipherSpec

/-- The hash that the signature of a ClientKeyExchange is over. -/
def keyExchangeHash (data : Ptr) (dataLength : Nat) : Digest :=
  env.prims.sha256 (readTeslaSync (data.add (teslaSyncOffset dataLength))).hashInput

/-- The public key that comes with the signature of a ClientKeyExchange. -/
def keyExchangeKey (data : Ptr) (dataLength : Nat) : Node :=
  (data.add (teslaSyncOffset dataLength + dtlsTeslaSynLength + ksnmssSigLength)).array 72

/-- `ksnmss_verify` on the synchronisation, signature and public key of a
    ClientKeyExchange. -/
def keyExchangeVerified (data : Ptr) (dataLength : Nat) : Option Nat :=
  ksnmssVerify env.ksnmss (keyExchangeKey data dataLength) 0 (keyExchangeHash env data dataLength)
    (readKsnmssSig (data.add (teslaSyncOffset dataLength + dtlsTeslaSynLength)))

/-- The synchronisation and the public key are taken over; whether the signature was
    `verified` is printed and not used. -/
def takeTeslaSync (tsync : TeslaSync) (MSSPK : Node) (hash : Digest) (verified : Option Nat) :
    M Unit := do
  modify fun w =>
    { w with
      tsync := tsync
      rtt := teslaRtt tsync w.tR
      signer := { w.signer with MSSPK := MSSPK } }
  emit (.verify hash verified)

def handleClientKeyExchange (peer : Option Addr) (state : DtlsState) (data : Ptr)
    (dataLength : Nat) : M Outcome :=
  if state ≠ .waitClientKeyExchange then unexpectedMessage
  else withHandshake peer fun a h => do
  let err ← checkClientKeyExchange a h data dataLength
  takeTeslaSync (readTeslaSync (data.add (teslaSyncOffset dataLength)))
    (keyExchangeKey data dataLength) (keyExchangeHash env data dataLength)
    (keyExchangeVerified env data dataLength)
  if err < 0 then pure (.ret err)
  else do
  updateHsHash a (data.bytes dataLength)
  let h ← getHandshake a
  setState a (keyExchanged env h)
  pure (.done peer err)

def handleCertificateVerify (peer : Option Addr) (state : DtlsState) (data : Ptr)
    (dataLength : Nat) : M Outcome :=
  if state ≠ .waitCertificateVerify then unexpectedMessage
  else withHandshake peer fun a _ => do
  let err ← checkClientCertificateVerify env a data dataLength
  if err < 0 then pure (.ret err)
  else do
  updateHsHash a (data.bytes dataLength)
  setState a .waitChangeCipherSpec
  pure (.done peer err)

/-- A known peer that starts over is released. -/
def dropPeer (peer : Option Addr) (state : DtlsState) : M (Option Addr) :=
  match peer with
  | none => pure none
  | some a =>
      if state = .waitClientHello then do
        deletePeer a
        dtlsFreePeer a
        pure none
      else pure (some a)

/-- The peer of a verified ClientHello; `none` when there is no storage. -/
def serverPeer (peer : Option Addr) (session : Session) : M (Option Addr) :=
  match peer with
  | some a => pure (some a)
  | none => do
      let new ← dtlsNewPeer env session
      match new with
      | none => pure none
      | some a => do
          modifyPeer a fun p =>
            { p with role := .server, security0 := p.security0.map fun s => { s with rseq := 1 } }
          dtlsAddPeer a
          pure (some a)

/-- Handshake parameters, unless there are some; `false` when there is no storage. -/
def ensureHandshake (a : Addr) (mseqR mseqS : Nat) : M Bool := do
  let p ← getPeer a
  if p.handshakeParams.isSome then pure true
  else do
  let found ← dtlsHandshakeNew env a
  when (found = true) (modifyHandshake a fun h => { h with mseqR := mseqR, mseqS := mseqS })
  pure found

/-- The state in which the server waits after its flight. -/
def flightSent (h : HandshakeParameters) : DtlsState :=
  if isTlsEcdheEcdsaWithAes128Ccm8 h.cipher ∧ isEcdsaClientAuthSupported env then
    .waitClientCertificate
  else .waitClientKeyExchange

/-- The handshake of a verified ClientHello. -/
def acceptClientHello (a : Addr) (data : Ptr) (dataLength : Nat) : M Outcome := do
  let found ← ensureHandshake env a (handshakeHeader data).messageSeq 1
  if !found then internalError
  else do
  clearHsHash a
  let err ← dtlsUpdateParameters env a data dataLength
  if err < 0 then pure (.ret err)
  else do
  updateHsHash a (data.bytes dataLength)
  let now ← gettimeofday env
  modify fun w => { w with tR := now }
  let err ← dtlsSendServerHelloMsgs env a
  if err < 0 then pure (.ret err)
  else do
  let h ← getHandshake a
  setState a (flightSent env h)
  pure (.done (some a) err)

def handleClientHello (peer : Option Addr) (session : Session) (state : DtlsState)
    (data : Ptr) (dataLength : Nat) : M Outcome :=
  if (peer.isSome ∧ state ≠ .connected ∧ state ≠ .waitClientHello) ∨
      (peer.isNone ∧ state ≠ .waitClientHello) then unexpectedMessage
  else do
  let err ← dtlsVerifyPeer env peer session state data dataLength
  if err < 0 then pure (.ret err)
  else if err > 0 then pure (.done peer err)
  else do
  let kept ← dropPeer peer state
  let peer ← serverPeer env kept session
  match peer with
  | none => internalError
  | some a => acceptClientHello env a data dataLength

def handleHelloRequest (peer : Option Addr) (state : DtlsState) : M Outcome :=
  -- "we should just ignore such packets when in handshake"
  if state ≠ .connected then pure (.ret 0)
  else
    match peer with
    | none => internalError
    | some a => do
        let found ← ensureHandshake env a 0 0
        if !found then internalError
        else do
        let err ← dtlsSendClientHello env a []
        if err < 0 then pure (.ret err)
        else do
        setState a .clientHello
        pure (.done peer err)

/-! ## `handle_handshake_msg` -/

/-- The `switch` on the message type. -/
def dispatchMessage (peer : Option Addr) (session : Session) (role : DtlsPeerType)
    (state : DtlsState) (data : Ptr) (dataLength : Nat) : M Outcome :=
  let type := data.uint8
  if type = dtlsHtHelloVerifyRequest then
    handleHelloVerifyRequest env peer state data dataLength
  else if type = dtlsHtServerHello then handleServerHello env peer state data dataLength
  else if type = dtlsHtCertificate then handleCertificate env peer role state data dataLength
  else if type = dtlsHtServerKeyExchange then
    handleServerKeyExchange env peer state data dataLength
  else if type = dtlsHtServerHelloDone then handleServerHelloDone env peer state data dataLength
  else if type = dtlsHtCertificateRequest then
    handleCertificateRequest peer state data dataLength
  else if type = dtlsHtFinished then handleFinished env peer role state data dataLength
  else if type = dtlsHtClientKeyExchange then
    handleClientKeyExchange env peer state data dataLength
  else if type = dtlsHtCertificateVerify then
    handleCertificateVerify env peer state data dataLength
  else if type = dtlsHtClientHello then
    handleClientHello env peer session state data dataLength
  else if type = dtlsHtHelloRequest then handleHelloRequest env peer state
  else unexpectedMessage

/-- `if (peer && peer->handshake_params && err >= 0) mseq_r++`. -/
def Peer.countMessage (p : Peer) : Peer :=
  { p with handshakeParams := p.handshakeParams.map fun h =>
      { h with mseqR := (h.mseqR + 1) % 2 ^ 16 } }

/-- What follows the `switch`. -/
def finishMessage : Outcome → M Int
  | .ret err => pure err
  | .done none err => pure err
  | .done (some a) err => do
      when (0 ≤ err) (modifyPeer a Peer.countMessage)
      pure err

/-- `dtls_stop_retransmission` with a pointer that may be NULL. -/
def stopRetransmissionOf (peer : Option Addr) : M Unit :=
  match peer with
  | none => pure ()
  | some a => dtlsStopRetransmission a

def handleHandshakeMsg (peer : Option Addr) (session : Session) (role : DtlsPeerType)
    (state : DtlsState) (data : Ptr) (dataLength : Nat) : M Int := do
  let before ← gets fun w => peer.map w.heap
  emit (.message ⟨peer, role, state, before, data, dataLength⟩)
  stopRetransmissionOf peer
  let outcome ← dispatchMessage env peer session role state data dataLength
  let res ← finishMessage outcome
  emit (.handled res)
  pure res

/-! ## Reassembly -/

/-- A buffer whose storage was released before is released again. -/
def dtlsFreeReassembleBuffer (a : Addr) : M Unit := do
  let p ← getPeer a
  match p.handshakeParams.bind (·.reassembleBuf) with
  | none => pure ()
  | some buf =>
      if !buf.live then stop .doubleFree
      else modifyHandshake a fun h => { h with reassembleBuf := none }

/-- The outcome 0 is `false`.  When there is no storage for the data, the structure
    is released and the pointer to it stays. -/
def dtlsInitReassembleBuffer (a : Addr) (packetLength : Nat) : M Bool := do
  let t ← nextTick
  if !env.malloc t then pure false
  else do
  let found ← malloc env
  if !found then do
    modifyHandshake a fun h =>
      { h with reassembleBuf := some { env.uninitialised t with size := 0, live := false } }
    pure false
  else do
  modifyHandshake a fun h =>
    { h with reassembleBuf := some {
        lastOffset := 0
        packetLength := packetLength
        data := (env.uninitialised t).data
        size := packetLength + dtlsHsLength
        live := true } }
  pure true

/-- `memcpy` of `len` bytes of `src` into `data`, from index `dst` on. -/
def HsReassemble.write (buf : HsReassemble) (dst len : Nat) (src : Ptr) : HsReassemble :=
  { buf with data := fun i =>
      if dst ≤ i ∧ i < dst + len then src ((i : Int) - dst) else buf.data i }

/-- The memory of the buffer. -/
def HsReassemble.ptr (buf : HsReassemble) : Ptr := fun i =>
  if 0 ≤ i then buf.data i.toNat else 0

/-- The header of the reassembled message: no offset, the length of the packet. -/
def HsReassemble.rewriteHeader (buf : HsReassemble) : HsReassemble :=
  let length := Ptr.ofBytes (dtlsIntToUint24 buf.packetLength)
  ((buf.write 6 3 (Ptr.ofBytes (dtlsIntToUint24 0))).write 1 3 length).write 9 3 length

/-- Where a fragment goes, from where in the record, and how much of it: the first
    one comes with its header. -/
def fragmentCopy (a : Addr) (header : HandshakeHeader) (buffer : HsReassemble) (record : Ptr)
    (dataLength : Nat) : FragmentCopy where
  peer := a
  header := header
  buffer := buffer
  record := record
  dataLength := dataLength
  dst := header.fragmentOffset + if header.fragmentOffset ≠ 0 then dtlsHsLength else 0
  src := if header.fragmentOffset ≠ 0 then dtlsHsLength else 0
  len := header.fragmentLength + if header.fragmentOffset = 0 then dtlsHsLength else 0

/-- The buffer after the copy. -/
def FragmentCopy.result (c : FragmentCopy) : HsReassemble :=
  { c.buffer.write c.dst c.len (c.record.add c.src) with
    lastOffset := c.header.fragmentOffset + c.header.fragmentLength }

/-- The copy of a fragment into `buf`, and the message if that was the last one. -/
def appendFragment (a : Addr) (header : HandshakeHeader) (buf : HsReassemble) (data : Ptr)
    (dataLength : Nat) : M (Except Int (Ptr × Nat)) := do
  let copy := fragmentCopy a header buf data dataLength
  emit (.fragment copy)
  modifyHandshake a fun h => { h with reassembleBuf := some copy.result }
  if copy.result.lastOffset < header.length then pure (.error dtlsHsFragmented)
  else do
  let whole := copy.result.rewriteHeader
  modifyHandshake a fun h => { h with reassembleBuf := some whole }
  emit (.deliver a whole.packetLength whole.data)
  pure (.ok (whole.ptr, whole.packetLength + dtlsHsLength))

/-- A new buffer for the first fragment; `false` when there is no storage. -/
def firstFragment (a : Addr) (header : HandshakeHeader) : M Bool :=
  if header.fragmentOffset = 0 then do
    dtlsFreeReassembleBuffer a
    dtlsInitReassembleBuffer env a header.length
  else pure true

/-- The branch for a fragment: what to return, or the reassembled message. -/
def reassemble (peer : Option Addr) (header : HandshakeHeader) (data : Ptr)
    (dataLength : Nat) : M (Except Int (Ptr × Nat)) :=
  if header.length > dtlsMaxBuf then
    pure (.error (dtlsAlertFatalCreate .recordOverflow))
  else if header.fragmentOffset + header.fragmentLength > header.length then
    pure (.error (dtlsAlertFatalCreate .recordOverflow))
  else do
  let a ← ofOption .nullDeref peer
  let found ← firstFragment env a header
  if !found then pure (.error (dtlsAlertFatalCreate .recordOverflow))
  else do
  let h ← getHandshake a
  match h.reassembleBuf with
  | none => pure (.error (dtlsAlertFatalCreate .handshakeFailure))
  | some buf =>
      if buf.lastOffset ≠ header.fragmentOffset then
        pure (.error (dtlsAlertFatalCreate .handshakeFailure))
      else appendFragment a header buf data dataLength

/-! ## `handle_handshake` -/

/-- The `message_seq` of a queued message. -/
def Netq.messageSeq (n : Netq) : Nat := (handshakeHeader (Ptr.ofBytes n.data)).messageSeq

/-- A message that is ahead of its turn, unless it is too long or a copy of one that
    is queued already. -/
def queueMessage (a : Addr) (h : HandshakeParameters) (data : Ptr) (dataLength : Nat) :
    M Int :=
  if dataLength > dtlsMaxBuf then pure 0
  else if h.reorderQueue.any (·.messageSeq = (handshakeHeader data).messageSeq) then pure 0
  else do
  let found ← malloc env
  when (found = true) (modifyHandshake a fun h =>
    { h with reorderQueue := netqInsertNode h.reorderQueue {
        t := 0
        timeout := 0
        peer := some a
        epoch := 0
        type := 0
        retransmitCnt := 0
        data := data.bytes dataLength } })
  pure 0

/-- Does a queued message have its turn? -/
def HandshakeParameters.isNext (h : HandshakeParameters) (n : Netq) : Bool :=
  n.messageSeq = h.mseqR

/-- A queued message leaves the queue and is handled. -/
def replayMessage (a : Addr) (session : Session) (role : DtlsPeerType) (node : Netq) : M Int := do
  modifyHandshake a fun h => { h with reorderQueue := h.reorderQueue.eraseP h.isNext }
  let p ← getPeer a
  emit (.replay a p.state)
  handleHandshakeMsg env (some a) session role p.state (Ptr.ofBytes node.data) node.data.length

/-- The loop over the queued messages whose turn it is; each turn takes one node
    out of the queue, and none is added. -/
def replayQueue (a : Addr) (session : Session) (role : DtlsPeerType) : Nat → Int → M Int
  | 0, res => pure res
  | fuel + 1, res => do
      let p ← getPeer a
      match p.handshakeParams with
      | none => pure res
      | some h =>
          match h.reorderQueue.find? h.isNext with
          | none => pure res
          | some node => do
              let res ← replayMessage env a session role node
              if res < 0 then pure res else replayQueue a session role fuel res

/-- The length of the reorder queue. -/
def Peer.queueLength (p : Peer) : Nat :=
  (p.handshakeParams.map (·.reorderQueue.length)).getD 0

/-- A whole message for a peer in a handshake, by its place in the sequence. -/
def handleInSequence (a : Addr) (h : HandshakeParameters) (session : Session)
    (role : DtlsPeerType) (state : DtlsState) (data : Ptr) (dataLength : Nat) : M Int :=
  if (handshakeHeader data).messageSeq < h.mseqR then pure 0
  else if (handshakeHeader data).messageSeq > h.mseqR then queueMessage env a h data dataLength
  else do
  dtlsFreeReassembleBuffer a
  let res ← handleHandshakeMsg env (some a) session role state data dataLength
  if res < 0 then pure res
  else do
  let p ← getPeer a
  replayQueue env a session role (p.queueLength + 1) res

/-- A whole message without handshake parameters: only one that starts a handshake. -/
def handleOutside (peer : Option Addr) (session : Session) (role : DtlsPeerType)
    (state : DtlsState) (data : Ptr) (dataLength : Nat) : M Int :=
  let type := (handshakeHeader data).msgType
  if type ≠ dtlsHtClientHello ∧ peer.isNone then
    pure (dtlsAlertFatalCreate .handshakeFailure)
  else if type = dtlsHtClientHello ∨ type = dtlsHtHelloRequest then
    handleHandshakeMsg env peer session role state data dataLength
  else pure 0

def handleWhole (peer : Option Addr) (session : Session) (role : DtlsPeerType)
    (state : DtlsState) (data : Ptr) (dataLength : Nat) : M Int :=
  match peer with
  | none => handleOutside env none session role state data dataLength
  | some a => do
      let p ← getPeer a
      match p.handshakeParams with
      | none => handleOutside env (some a) session role state data dataLength
      | some h => handleInSequence env a h session role state data dataLength

def handleHandshake (peer : Option Addr) (session : Session) (role : DtlsPeerType)
    (state : DtlsState) (data : Ptr) (dataLength : Nat) : M Int :=
  if dataLength < dtlsHsLength then pure (dtlsAlertFatalCreate .decodeError)
  else if (handshakeHeader data).length > (handshakeHeader data).fragmentLength then do
    let whole ← reassemble env peer (handshakeHeader data) data dataLength
    match whole with
    | .error res => pure res
    | .ok m => handleWhole env peer session role state m.1 m.2
  else handleWhole env peer session role state data dataLength

end PqDtls.Dtls
