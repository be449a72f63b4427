import PqDtls.Dtls.Types

/-! # Records, alerts and retransmission

    Building, encrypting and sending records, opening received ones, the queue of
    packets to retransmit, and the release of peers. -/

namespace PqDtls.Dtls

open Program (get gets modify stop ofOption when)

variable (env : Env)

/-! ## Security parameters -/

/-- An index of `security_params`. -/
inductive Slot
  | zero
  | one
deriving DecidableEq

/-- A non-NULL `dtls_security_parameters_t *`. -/
structure SecRef where
  peer : Addr
  slot : Slot

def Peer.security (p : Peer) : Slot → Option SecurityParameters
  | .zero => p.security0
  | .one => p.security1

def Peer.setSecurity (p : Peer) (s : SecurityParameters) : Slot → Peer
  | .zero => { p with security0 := some s }
  | .one => { p with security1 := some s }

def getSecurity (r : SecRef) : M SecurityParameters := do
  let p ← getPeer r.peer
  ofOption .nullDeref (p.security r.slot)

def dtlsSecurityParamsEpoch (p : Peer) (epoch : Nat) : Option Slot :=
  if p.security0.any (·.epoch = epoch) then some .zero
  else if p.security1.any (·.epoch = epoch) then some .one
  else none

/-- `dtls_security_params`: the slot 0. -/
def dtlsSecurityParams (a : Addr) : M (Option SecRef) := do
  let p ← getPeer a
  pure (p.security0.map fun _ => ⟨a, .zero⟩)

/-- `dtls_security_new`. -/
def dtlsSecurityNew : SecurityParameters :=
  { compression := tlsCompressionNull, cipher := tlsNullWithNullNull, epoch := 0, rseq := 0,
    keyBlock := Vector.replicate 40 0 }

/-- A fresh slot 1 in the next epoch; `false` when there is no storage. -/
def dtlsSecurityParamsNext (a : Addr) : M Bool := do
  let found ← malloc env
  if !found then do
    modifyPeer a fun p => { p with security1 := none }
    pure false
  else do
  let p ← getPeer a
  let s ← ofOption .nullDeref p.security0
  modifyPeer a fun p =>
    { p with security1 := some { dtlsSecurityNew with epoch := (s.epoch + 1) % 2 ^ 16 } }
  pure true

/-- The peer after `dtls_security_params_free_other`. -/
def Peer.freeOther (p : Peer) : Peer :=
  match p.security0, p.security1 with
  | some s0, some s1 => if s0.epoch < s1.epoch then p else { p with security1 := none }
  | _, _ => p

def dtlsSecurityParamsFreeOther (a : Addr) : M Unit := modifyPeer a Peer.freeOther

def dtlsSecurityParamsSwitch (a : Addr) : M Unit :=
  modifyPeer a fun p => { p with security0 := p.security1, security1 := p.security0 }

/-! ## Building records -/

/-- The header, with a length of zero; the sequence number moves on. -/
def dtlsSetRecordHeader (type : Nat) (security : Option SecRef) : M Bytes :=
  match security with
  | none =>
      pure (dtlsIntToUint8 type ++ dtlsIntToUint16 dtlsVersion ++ List.replicate 10 0)
  | some r => do
      let s ← getSecurity r
      modifyPeer r.peer fun p => p.setSecurity { s with rseq := (s.rseq + 1) % 2 ^ 64 } r.slot
      pure (dtlsIntToUint8 type ++ dtlsIntToUint16 dtlsVersion ++ dtlsIntToUint16 s.epoch ++
        dtlsIntToUint48 s.rseq ++ [0, 0])

/-- The pieces copied behind `res` bytes of payload, while they fit into `rlen`. -/
def copyPieces (rlen : Nat) : Nat → List Bytes → Option Bytes
  | _, [] => some []
  | res, d :: ds =>
      if rlen < res + dtlsRhLength + d.length then none
      else (copyPieces rlen (res + d.length) ds).map (d ++ ·)

/-- A record in the clear. -/
def plainRecord (header : Bytes) (dataArray : List Bytes) (rlen : Nat) : Except Int Bytes :=
  match copyPieces rlen 0 dataArray with
  | none => .error (dtlsAlertFatalCreate .internalError)
  | some payload => .ok (header.take 11 ++ dtlsIntToUint16 payload.length ++ payload)

/-- Epoch and sequence number, type and version, length. -/
def additionalData (header : Bytes) (length : Nat) : Bytes :=
  (header.drop 3).take 8 ++ header.take 3 ++ dtlsIntToUint16 length

/-- A record under a CCM cipher: the explicit part of the nonce is the epoch and
    the sequence number of the header. -/
def cipherRecord (C : Primitives) (role : DtlsPeerType) (s : SecurityParameters)
    (header : Bytes) (dataArray : List Bytes) (rlen : Nat) : Except Int Bytes :=
  match copyPieces rlen 8 dataArray with
  | none => .error (dtlsAlertFatalCreate .internalError)
  | some payload =>
      let start := (header.drop 3).take 8
      let nonce := padBlock (dtlsKbLocalIv s.keyBlock role ++ start)
      let body := dtlsEncrypt C payload nonce (dtlsKbLocalWriteKey s.keyBlock role)
        (additionalData header payload.length)
      .ok (header.take 11 ++ dtlsIntToUint16 (8 + body.length) ++ start ++ body)

/-- `dtls_prepare_record` below the header. -/
def fillRecord (C : Primitives) (peer : Option Peer) (security : Option SecurityParameters)
    (header : Bytes) (dataArray : List Bytes) (rlen : Nat) : Except Int Bytes :=
  match security, peer with
  | none, _ => plainRecord header dataArray rlen
  | some s, peer =>
      if s.cipher = tlsNullWithNullNull then plainRecord header dataArray rlen
      else match peer with
        | none => .error (dtlsAlertFatalCreate .internalError)
        | some p => cipherRecord C p.role s header dataArray rlen

def dtlsPrepareRecord (peer : Option Addr) (security : Option SecRef) (type : Nat)
    (dataArray : List Bytes) (rlen : Nat) : M (Except Int Bytes) :=
  if rlen < dtlsRhLength then pure (.error (dtlsAlertFatalCreate .internalError))
  else do
  let header ← dtlsSetRecordHeader type security
  let w ← get
  pure (fillRecord env.prims (peer.map w.heap)
    (security.bind fun r => (w.heap r.peer).security r.slot) header dataArray rlen)

/-! ## Opening records -/

/-- The outcome of `decrypt_verify`: the length of the clear text or an error, the
    memory of the packet afterwards (decryption is in place), where the clear text
    starts, and whether a MAC was verified. -/
structure Opened where
  length : Int
  packet : Ptr
  offset : Nat
  verified : Bool

def Opened.data (r : Opened) : Ptr := r.packet.add r.offset

/-- `b` written at offset `off`. -/
def Ptr.overwrite (p : Ptr) (off : Nat) (b : Bytes) : Ptr := fun i =>
  if (off : Int) ≤ i ∧ i < off + b.length then b.getD (i - off).toNat 0 else p i

/-- A record under the parameters `s`. -/
def openRecord (C : Primitives) (role : DtlsPeerType) (s : SecurityParameters) (packet : Ptr)
    (length : Nat) : Opened :=
  let clen : Int := (length : Int) - dtlsRhLength
  if s.cipher = tlsNullWithNullNull then ⟨clen, packet, dtlsRhLength, false⟩
  else if clen < 16 then ⟨-1, packet, dtlsRhLength, false⟩
  else
    let nonce := padBlock (dtlsKbRemoteIv s.keyBlock role ++ (packet.add 13).bytes 8)
    let n := (clen - 8).toNat
    let aad := additionalData (packet.bytes 13) (n - 8)
    let r := dtlsDecrypt C ((packet.add 21).bytes n) nonce
      (dtlsKbRemoteWriteKey s.keyBlock role) aad
    let packet := packet.overwrite 21 r.2
    match r.1 with
    | none => ⟨-1, packet, 21, false⟩
    | some len => ⟨len, packet, 21, true⟩

def dtlsGetEpoch (packet : Ptr) : Nat := (packet.add 3).uint16

/-- The part of `decrypt_verify` that depends on the peer and the packet alone. -/
def decryptPacket (C : Primitives) (p : Peer) (packet : Ptr) (length : Nat) : Opened :=
  match (dtlsSecurityParamsEpoch p (dtlsGetEpoch packet)).bind p.security with
  | none => ⟨-1, packet, dtlsRhLength, false⟩
  | some s => openRecord C p.role s packet length

def decryptVerify (a : Addr) (packet : Ptr) (length : Nat) : M Opened := do
  let p ← getPeer a
  when ((decryptPacket env.prims p packet length).verified = true)
    (dtlsSecurityParamsFreeOther a)
  pure (decryptPacket env.prims p packet length)

/-! ## The queue of sent packets -/

def netqInsertNode (queue : List Netq) (node : Netq) : List Netq :=
  queue.takeWhile (·.t ≤ node.t) ++ node :: queue.dropWhile (·.t ≤ node.t)

/-- Drop what is queued for the session of `a`; a node without a peer is
    dereferenced. -/
def dtlsStopRetransmission (a : Addr) : M Unit := do
  let w ← get
  if w.sendqueue.any (·.peer.isNone) then stop .nullDeref
  else
  modifyQueue fun w => w.sendqueue.filter fun n =>
    !dtlsSessionEquals (w.heap (n.peer.getD 0)).session (w.heap a).session

/-- Must a packet be kept for retransmission? -/
def mustQueue (type : Nat) (bufArray : List Bytes) : Bool :=
  (type = dtlsCtHandshake ∧ (bufArray.flatten.getD 0 0).toNat ≠ dtlsHtHelloVerifyRequest) ∨
    type = dtlsCtChangeCipherSpec

/-- A copy of the packet for the queue, if there is storage. -/
def queuePacket (peer : Option Addr) (security : Option SecRef) (type : Nat)
    (bufArray : List Bytes) : M Unit := do
  let found ← malloc env
  if !found then pure ()
  else do
  let now ← dtlsTicks env
  modifyQueue fun w => netqInsertNode w.sendqueue {
    t := now + 2 * dtlsTicksPerSecond
    timeout := 2 * dtlsTicksPerSecond
    peer := peer
    epoch := ((security.bind fun r => (w.heap r.peer).security r.slot).map (·.epoch)).getD 0
    type := type
    retransmitCnt := 0
    data := bufArray.flatten }

def dtlsSendMulti (peer : Option Addr) (security : Option SecRef) (session : Session)
    (type : Nat) (bufArray : List Bytes) : M Int := do
  let record ← dtlsPrepareRecord env peer security type bufArray dtlsMaxBuf
  match record with
  | .error res => pure res
  | .ok sendbuf => do
      when (mustQueue type bufArray = true) (queuePacket env peer security type bufArray)
      let res ← callWrite env session type bufArray.flatten sendbuf
      pure (if res ≤ 0 then res
        else (bufArray.flatten.length : Int) - ((sendbuf.length : Int) - res))

def dtlsSend (a : Addr) (type : Nat) (buf : Bytes) : M Int := do
  let security ← dtlsSecurityParams a
  let p ← getPeer a
  dtlsSendMulti env (some a) security p.session type [buf]

def dtlsSendAlert (a : Addr) (level description : Nat) : M Int := do
  let _ ← dtlsSend env a dtlsCtAlert [UInt8.ofNat level, UInt8.ofNat description]
  pure 0

/-! ## Peers -/

def dtlsGetPeer (session : Session) : M (Option Addr) := gets fun w =>
  w.peers.find? fun a => dtlsSessionEquals (w.heap a).session session

def dtlsAddPeer (a : Addr) : M Unit := modifyPeers fun peers => a :: peers

def deletePeer (a : Addr) : M Unit := modifyPeers fun peers => peers.erase a

/-- The zeroed structure. -/
def emptyHandshake : HandshakeParameters where
  tmp := Vector.replicate 64 0
  reorderQueue := []
  reassembleBuf := none
  mseqS := 0
  mseqR := 0
  hsHash := []
  compression := 0
  cipher := tlsNullWithNullNull
  doClientAuth := false
  ecdsa := ⟨Vector.replicate 32 0, Vector.replicate 32 0, Vector.replicate 32 0,
    Vector.replicate 32 0, Vector.replicate 32 0⟩
  psk := ⟨0, Vector.replicate 32 0⟩

/-- `peer->handshake_params = dtls_handshake_new()`; `false` is NULL. -/
def dtlsHandshakeNew (a : Addr) : M Bool := do
  let found ← malloc env
  modifyPeer a fun p =>
    { p with handshakeParams := if found then some emptyHandshake else none }
  pure found

/-- `dtls_new_peer` after its allocations. -/
def emptyPeer (session : Session) : Peer where
  session := session
  role := .client
  state := .init
  security0 := some dtlsSecurityNew
  security1 := none
  handshakeParams := none
  intIndex := 0
  K := fun _ => Vector.replicate 32 0
  teslaMac := Vector.replicate 32 0
  teslaPs := ⟨0, fun _ => 0, Vector.replicate 32 0, Vector.replicate 32 0⟩

/-- Storage that is handed out is storage that is not in use. -/
def dtlsNewPeer (session : Session) : M (Option Addr) := do
  let t ← nextTick
  let found ← malloc env
  let inUse ← gets fun w => w.live (env.peerStorage t)
  if !found || inUse then pure none
  else do
  modifyPeer (env.peerStorage t) fun _ => emptyPeer session
  setLive (env.peerStorage t) true
  pure (some (env.peerStorage t))

def dtlsFreePeer (a : Addr) : M Unit := do
  let inUse ← gets fun w => w.live a
  if !inUse then stop .doubleFree
  else
  setLive a false

def dtlsClose (remote : Session) : M Int := do
  let peer ← dtlsGetPeer remote
  match peer with
  | none => pure (-1)
  | some a => do
      let res ← dtlsSendAlert env a dtlsAlertLevelFatal DtlsAlert.closeNotify.code
      setState a .closing
      pure res

/-- `dtls_destroy_peer(ctx, peer, 1)`. -/
def dtlsDestroyPeer (a : Addr) : M Unit := do
  let p ← getPeer a
  when (p.state ≠ .closed ∧ p.state ≠ .closing) (do
    let _ ← dtlsClose env p.session
    pure ())
  deletePeer a
  dtlsFreePeer a

def dtlsResetPeer (a : Addr) : M Unit := do
  dtlsStopRetransmission a
  dtlsDestroyPeer env a

/-! ## Handshake messages -/

def updateHsHash (a : Addr) (data : Bytes) : M Unit :=
  modifyHandshake a fun h => { h with hsHash := h.hsHash ++ data }

def clearHsHash (a : Addr) : M Unit := modifyHandshake a fun h => { h with hsHash := [] }

/-- The message sequence number, which moves on if `seqNrInc`. -/
def nextMessageSeq (peer : Option Addr) (seqNrInc : Bool) : M Nat :=
  match peer with
  | none => pure 0
  | some a => do
      let p ← getPeer a
      match p.handshakeParams with
      | none => pure 0
      | some h => do
          when (seqNrInc = true)
            (modifyHandshake a fun h => { h with mseqS := (h.mseqS + 1) % 2 ^ 16 })
          pure h.mseqS

def dtlsSetHandshakeHeader (type : Nat) (peer : Option Addr)
    (length fragOffset fragLength : Nat) (seqNrInc : Bool) : M Bytes := do
  let seq ← nextMessageSeq peer seqNrInc
  pure (dtlsIntToUint8 type ++ dtlsIntToUint24 length ++ dtlsIntToUint16 seq ++
    dtlsIntToUint24 fragOffset ++ dtlsIntToUint24 fragLength)

/-- The header and the body of a message enter the hash once, unfragmented. -/
def hashMessage (type : Nat) (peer : Option Addr) (data : Bytes) : M Unit := do
  let header ← dtlsSetHandshakeHeader type peer data.length 0 data.length false
  let a ← ofOption .nullDeref peer
  updateHsHash a (header ++ data)

/-- The `do … while` loop over the fragments; `remaining` bytes are still to be sent. -/
def sendFragments (peer : Option Addr) (security : Option SecRef) (session : Session)
    (type : Nat) (data : Bytes) : Nat → Nat → Int → M Int
  | 0, _, ret => pure ret
  | fuel + 1, remaining, ret => do
      let lastFragment := decide (remaining < dtlsMaxHsPayload)
      let length := min remaining dtlsMaxHsPayload
      let header ← dtlsSetHandshakeHeader type peer data.length (data.length - remaining)
        length lastFragment
      let fragment := (data.drop (data.length - remaining)).take length
      let res ← dtlsSendMulti env peer security session dtlsCtHandshake [header, fragment]
      if lastFragment || remaining - dtlsMaxHsPayload = 0 then pure (ret + res)
      else
        sendFragments peer security session type data fuel
          (remaining - dtlsMaxHsPayload) (ret + res)

def dtlsSendHandshakeMsgHash (peer : Option Addr) (session : Session) (headerType : Nat)
    (data : Bytes) (addHash : Bool) : M Int := do
  let security ← match peer with
    | none => pure none
    | some a => dtlsSecurityParams a
  when (addHash = true) (hashMessage headerType peer data)
  sendFragments env peer security session headerType data (data.length + 1) data.length 0

def dtlsSendHandshakeMsg (a : Addr) (headerType : Nat) (data : Bytes) : M Int := do
  let p ← getPeer a
  dtlsSendHandshakeMsgHash env (some a) p.session headerType data true

/-! ## Retransmission -/

def dtlsRetransmit (node : Netq) : M Unit :=
  match node.peer with
  | none => pure ()
  | some a =>
      if ¬ node.retransmitCnt < dtlsDefaultMaxRetransmit then pure ()
      else do
      let p ← getPeer a
      let now ← dtlsTicks env
      let cnt := node.retransmitCnt + 1
      modifyQueue fun w => netqInsertNode w.sendqueue
        { node with retransmitCnt := cnt, t := now + (node.timeout <<< cnt) % 2 ^ 32 }
      let record ← dtlsPrepareRecord env (some a)
        ((dtlsSecurityParamsEpoch p node.epoch).map fun s => ⟨a, s⟩) node.type [node.data]
        dtlsMaxBuf
      match record with
      | .error _ => pure ()
      | .ok sendbuf => do
          let _ ← callWrite env p.session node.type node.data sendbuf
          pure ()

/-- The loop of `dtls_check_retransmit` over the nodes that are due. -/
def checkRetransmitLoop (now : Nat) (all : Bool) : Nat → M Unit
  | 0 => pure ()
  | fuel + 1 => do
      let w ← get
      match w.sendqueue with
      | [] => pure ()
      | node :: rest =>
          if ¬ node.t ≤ now then pure ()
          else do
          modifyQueue fun _ => rest
          dtlsRetransmit env node
          if !all then pure () else checkRetransmitLoop now all fuel

end PqDtls.Dtls
