import PqDtls.Dtls.Disclosure
import PqDtls.Dtls.Refusal

/-! # A channel for application data

    A connected client and a connected server with the same keys, and a network between
    them that holds every datagram the client has written and delivers whichever it
    likes: late, more than once, or never.  The client writes at any time.

    The application of the server answers every packet, which is what counts the
    intervals there.  **`channel_checked`**: whatever is delivered is read as it was
    written; and a packet is found authentic when the one that the client wrote right
    after it is delivered next, and has the same length. -/

namespace PqDtls.Dtls

open Program (get gets modify stop ofOption when)

variable {env : Env} {w w' : World} {a b : Addr} {dst src : Session} {s : SecurityParameters}
  {C : Primitives}

/-! ## Memory -/

/-- The bytes from `k` on. -/
theorem bytes_within {p q : Ptr} {n : Nat} (h : p.bytes n = q.bytes n) {k m : Nat}
    (hk : k + m ≤ n) : (p.add k).bytes m = (q.add k).bytes m := by
  refine Ptr.bytes_congr fun i hi => ?_
  have at_k := Ptr.eq_of_bytes h (i := i + k) (by omega)
  exact at_k

/-! ## Sending data -/

/-- The parameters after one more record. -/
def SecurityParameters.next (s : SecurityParameters) : SecurityParameters :=
  { s with rseq := (s.rseq + 1) % 2 ^ 64 }

/-- Events of sending. -/
def Event.sending : Event → Prop
  | .sent _ _ _ => True
  | .write _ _ => True
  | _ => False

/-- What becomes of a record of data: the next one has the next number, and if this one
    fits it is written. -/
theorem sendData_eq (payload : Bytes) (hs : (w.heap a).security0 = some s) :
    ∃ r tick log, dtlsSend env a dtlsCtApplicationData payload w
        = (.ok r, w.afterData a (some s.next) tick log) ∧
      (payload.length ≤ dtlsMaxBuf - 21 → log = .write (w.heap a).session
          (sealed env.prims (w.heap a).role s dtlsCtApplicationData payload) ::
        .sent (w.heap a).session dtlsCtApplicationData payload :: w.log) ∧
      ∃ l, log = l ++ w.log ∧ ∀ e ∈ l, e.sending := by
  have flat : [payload].flatten = payload := by
    rw [List.flatten_cons, List.flatten_nil, List.append_nil]
  have send : dtlsSend env a dtlsCtApplicationData payload w
      = dtlsSendMulti env (some a) (some ⟨a, .zero⟩) (w.heap a).session dtlsCtApplicationData
        [payload] w := by
    simp only [dtlsSend, dtlsSecurityParams, bind_assoc, getPeer_bind, hs, Option.map_some]
    rfl
  rw [send, dtlsSendMulti]
  by_cases fits : payload.length ≤ dtlsMaxBuf - 21
  · have prepared := @prepareRecord_eq env w a s dtlsCtApplicationData [payload] hs
      (by rwa [flat])
    rw [Program.bind_ok prepared, flat]
    refine ⟨_, w.tick + 1, _, rfl, fun _ => rfl, [_, _], rfl, ?_⟩
    exact List.forall_mem_cons.mpr ⟨trivial, List.forall_mem_singleton.mpr trivial⟩
  · have prepared : ∃ rec, dtlsPrepareRecord env (some a) (some ⟨a, .zero⟩) dtlsCtApplicationData
        [payload] dtlsMaxBuf w = (.ok rec, w.afterData a (some s.next) w.tick w.log) := by
      rw [dtlsPrepareRecord, if_neg (by decide),
        Program.bind_ok (setRecordHeader_eq dtlsCtApplicationData (r := ⟨a, .zero⟩) hs),
        Program.get_bind]
      exact ⟨_, rfl⟩
    obtain ⟨rec, prepared⟩ := prepared
    rw [Program.bind_ok prepared]
    cases rec with
    | error res =>
        exact ⟨_, _, _, rfl, fun fit => absurd fit fits, [], rfl, List.forall_mem_nil _⟩
    | ok d =>
        refine ⟨_, w.tick + 1, _, rfl, fun fit => absurd fit fits, [_, _], rfl, ?_⟩
        exact List.forall_mem_cons.mpr ⟨trivial, List.forall_mem_singleton.mpr trivial⟩

/-! ## Writing -/

/-- What a write leaves: the writer is one interval, and one record, further. -/
structure Advanced (a : Addr) (s : SecurityParameters) (w w' : World) : Prop where
  peers : w'.peers = w.peers
  sendqueue : w'.sendqueue = w.sendqueue
  tsync : w'.tsync = w.tsync
  peer : ∃ mac, w'.heap a = { w.heap a with
    teslaMac := mac
    intIndex := (w.heap a).intIndex + 1
    security0 := some s.next }

/-- **A WRITE** of the only peer: its plaintext is sent in one record, if it fits. -/
theorem write_advances (hpeers : w.peers = [a])
    (session : dtlsSessionEquals (w.heap a).session dst = true)
    (connected : (w.heap a).state = .connected) (hidx : (w.heap a).intIndex < teslaKeys)
    (hs : (w.heap a).security0 = some s) (buf : Ptr) (len : Nat) :
    ∃ r w' plain l, dtlsWrite env dst buf len w = (.ok r, w') ∧
      writtenPlaintext env w buf len = .ok plain ∧ Advanced a s w w' ∧ w'.log = l ++ w.log ∧
      (∀ e ∈ l, e.sending) ∧
      (plain.length ≤ dtlsMaxBuf - 21 → l = [.write (w.heap a).session
          (sealed env.prims (w.heap a).role s dtlsCtApplicationData plain),
        .sent (w.heap a).session dtlsCtApplicationData plain]) := by
  have keys1000 : teslaKeys = 1000 := rfl
  have found : dtlsGetPeer dst w = (.ok (some a), w) := by
    simp only [dtlsGetPeer, Program.gets_apply, hpeers, List.find?_cons, session]
  have head : w.peers.head? = some a := by
    rw [hpeers]
    rfl
  obtain ⟨plain, mac, built, hrun⟩ := @writeConnected_sent env w a a buf len head hidx
  let p := { w.heap a with
    teslaMac := mac
    intIndex := ((w.heap a).intIndex + 1) % 2 ^ 32 }
  have hs' : ((w.setPeer a p).heap a).security0 = some s := by
    rw [heap_setPeer]
    exact hs
  obtain ⟨r, tick, log, hsend, fits, l, hlog, sending⟩ := @sendData_eq env _ a s plain hs'
  have same : (w.setPeer a p).log = w.log := rfl
  rw [heap_setPeer, same] at fits
  rw [same] at hlog
  refine ⟨r, (w.setPeer a p).afterData a (some s.next) tick log, plain, l, ?_, built, ?_, hlog,
    sending, fun fit => ?_⟩
  · rw [dtlsWrite_connected found connected, hrun]
    exact hsend
  · refine ⟨rfl, rfl, rfl, mac, ?_⟩
    have index : ((w.heap a).intIndex + 1) % 2 ^ 32 = (w.heap a).intIndex + 1 :=
      Nat.mod_eq_of_lt (by omega)
    simp only [World.afterData, heap_setPeer, p, index]
  · exact List.append_cancel_right (hlog.symm.trans (fits fit))

/-! ## Receiving -/

/-- Parameters for the same epoch, with the same keys. -/
structure SameKeys (s s' : SecurityParameters) : Prop where
  cipher : s'.cipher = s.cipher
  keyBlock : s'.keyBlock = s.keyBlock
  epoch : s'.epoch = s.epoch

/-- The peer at `b` is connected to a client at `src` that has the keys of `s`, and there is
    no other. -/
structure SoleServer (w : World) (b : Addr) (src : Session) (s : SecurityParameters) : Prop where
  peers : w.peers = [b]
  session : dtlsSessionEquals (w.heap b).session src = true
  itself : dtlsSessionEquals (w.heap b).session (w.heap b).session = true
  role : (w.heap b).role = .server
  connected : (w.heap b).state = .connected
  keys : ∃ s', (w.heap b).security0 = some s' ∧ SameKeys s s'
  owned : Owned w.sendqueue

/-- Whatever is read from the session, the application answers it with one write. -/
def Answering (env : Env) (session : Session) : Prop :=
  ∀ t data len, ∃ buf n, env.read t session data len = [.write session buf n]

/-- What the read callback was given, the last one first. -/
def received : List Event → List Bytes
  | [] => []
  | .read _ data len :: l => data.bytes len :: received l
  | _ :: l => received l

theorem received_append (l l' : List Event) : received (l ++ l') = received l ++ received l' := by
  induction l with
  | nil => rfl
  | cons e l ih =>
      cases e with
      | read session data len => exact congrArg (data.bytes len :: ·) ih
      | _ => exact ih

theorem teslas_append (l l' : List Event) : teslas (l ++ l') = teslas l ++ teslas l' := by
  induction l with
  | nil => rfl
  | cons e l ih =>
      cases e with
      | tesla p => exact congrArg (p :: ·) ih
      | _ => exact ih

/-- Sending is neither. -/
theorem sending_silent {l : List Event} (h : ∀ e ∈ l, e.sending) :
    received l = [] ∧ teslas l = [] := by
  induction l with
  | nil => exact ⟨rfl, rfl⟩
  | cons e l ih =>
      obtain ⟨he, hl⟩ := List.forall_mem_cons.mp h
      cases e with
      | sent session type payload => exact ih hl
      | write session datagram => exact ih hl
      | _ => exact he.elim

/-- A record that was built under the keys of the peer is opened, and nothing but the
    parameters of another epoch goes. -/
theorem openPeerRecord_sealed {s' : SecurityParameters} {plain d : Bytes} {type : Nat}
    (role : (w.heap b).role = .server) (hs : (w.heap b).security0 = some s')
    (same : SameKeys s s') (epoch : s.epoch < 2 ^ 16)
    (hd : d = sealed env.prims .client s type plain) :
    ∃ (o : Opened) (other : Option SecurityParameters),
      openPeerRecord env (some b) (Ptr.ofBytes d) d.length w
        = (.ok (.ok ⟨o.packet, o.data, plain.length, .server, (w.heap b).state⟩),
          w.setPeer b { w.heap b with security1 := other }) ∧
      o.packet.uint8 = (Ptr.ofBytes d).uint8 ∧ o.data.bytes plain.length = plain := by
  let o := decryptPacket env.prims (w.heap b) (Ptr.ofBytes d) d.length
  have packet : o = openRecord env.prims (DtlsPeerType.other .client) s' (Ptr.ofBytes d)
      d.length := by
    have zero : dtlsSecurityParamsEpoch (w.heap b) s.epoch = some .zero := by
      rw [dtlsSecurityParamsEpoch, hs, Option.any_some, if_pos (decide_eq_true same.epoch)]
    have slot : (w.heap b).security .zero = some s' := hs
    simp only [o, decryptPacket]
    rw [hd, sealed_epoch _ _ _ _ _ epoch, zero, Option.bind_some, slot, role]
    rfl
  have opened := openRecord_sealed env.prims .client s s' type plain same.cipher same.keyBlock
  rw [← hd, ← packet] at opened
  have free : ∃ other, (w.heap b).freeOther = { w.heap b with security1 := other } := by
    unfold Peer.freeOther
    split
    · split
      · exact ⟨(w.heap b).security1, rfl⟩
      · exact ⟨none, rfl⟩
    · exact ⟨(w.heap b).security1, rfl⟩
  have verify : ∃ other, decryptVerify env b (Ptr.ofBytes d) d.length w
      = (.ok o, w.setPeer b { w.heap b with security1 := other }) := by
    rw [decryptVerify, getPeer_bind]
    by_cases hv : o.verified = true
    · obtain ⟨other, free⟩ := free
      refine ⟨other, ?_⟩
      rw [when, if_pos hv, ← free]
      rfl
    · refine ⟨(w.heap b).security1, ?_⟩
      rw [when, if_neg hv, World.setPeer, Function.update_eq_self]
      rfl
  obtain ⟨other, verify⟩ := verify
  have positive : ¬ o.length < 0 := by
    rw [opened.1]
    exact not_lt.mpr (Int.natCast_nonneg _)
  have count : o.length.toNat = plain.length := by
    rw [opened.1]
    exact Int.toNat_natCast _
  refine ⟨o, other, ?_, decryptPacket_type _ _ _ _, opened.2⟩
  rw [openPeerRecord, Program.bind_ok verify, getPeer_bind, if_neg positive, heap_setPeer, count,
    role]
  rfl

theorem stopRetransmission_owned (owned : Owned w.sendqueue) :
    ∃ q, dtlsStopRetransmission a w = (.ok (), { w with sendqueue := q }) ∧ Owned q := by
  have queued : ¬ (w.sendqueue.any (·.peer.isNone) = true) := by
    rw [List.any_eq_true]
    rintro ⟨n, hn, none'⟩
    rw [Option.isNone_iff_eq_none] at none'
    have some' := owned n hn
    rw [none'] at some'
    exact nomatch some'
  refine ⟨w.sendqueue.filter fun n =>
    !dtlsSessionEquals (w.heap (n.peer.getD 0)).session (w.heap a).session, ?_, fun n hn => ?_⟩
  · rw [dtlsStopRetransmission, Program.get_bind, if_neg queued]
    rfl
  · exact owned n (List.mem_of_mem_filter hn)

/-- What one packet leaves: it was read, and was checked against the one before it. -/
structure Received (C : Primitives) (b : Addr) (data : Ptr) (len : Nat) (w w' : World) : Prop where
  session : (w'.heap b).session = (w.heap b).session
  index : (w'.heap b).intIndex = (w.heap b).intIndex + 1
  stored : (w'.heap b).teslaPs = storePacket (w.heap b).teslaPs (w.heap b).intIndex data len
  log : ∃ l, w'.log = l ++ w.log ∧ received l = [data.bytes len] ∧
    teslas l = [receivedPacket C b (w.heap b) data len]

/-- **A PACKET** that fits the store is read and answered, and the interval ends. -/
theorem SoleServer.answers (h : SoleServer w b src s) (answers : Answering env (w.heap b).session)
    (hidx : (w.heap b).intIndex < teslaKeys) (data : Ptr) {n len : Nat}
    (hn : n = len + teslaExtension) (fits : len + 36 ≤ tMsgSize) :
    ∃ w', handleApplicationData env b data n w = (.ok (), w') ∧ SoleServer w' b src s ∧
      Received env.prims b data len w w' := by
  have size : tMsgSize = 10000 := rfl
  have payload : payloadLength n = len := by
    unfold payloadLength
    omega
  obtain ⟨q, stopped, owned⟩ := @stopRetransmission_owned w b h.owned
  have head : ({ w with sendqueue := q } : World).peers.head? = some b := by
    simp only [h.peers, List.head?_cons]
  have storable : Storable len := ⟨by omega, by omega⟩
  let w₁ := World.checked { w with sendqueue := q } env b data len
  have checked := @receiveTesla_eq env { w with sendqueue := q } b data len head storable
  have peer : w₁.heap b = { w.heap b with
      teslaPs := storePacket (w.heap b).teslaPs (w.heap b).intIndex data len } := by
    simp only [w₁, World.checked, heap_setPeer]
    rfl
  -- the answer
  obtain ⟨buf, m, answer⟩ := answers w₁.tick data len
  obtain ⟨s', hs', same⟩ := h.keys
  let w₂ := w₁.asked.emitted (.read (w.heap b).session data len)
  have peer₂ : w₂.heap b = { w.heap b with
      teslaPs := storePacket (w.heap b).teslaPs (w.heap b).intIndex data len } := peer
  obtain ⟨r, w', plain, l, wrote, -, advanced, hlog, sending, -⟩ :=
    @write_advances env w₂ b (w.heap b).session s' h.peers (by rw [peer₂]; exact h.itself)
      (by rw [peer₂]; exact h.connected) (by rw [peer₂]; exact hidx) (by rw [peer₂]; exact hs')
      buf m
  obtain ⟨mac, written⟩ := advanced.peer
  rw [peer₂] at written
  have run : handleApplicationData env b data n w = (.ok (), w') := by
    rw [handleApplicationData, Program.bind_ok stopped]
    show (receiveTesla env data (payloadLength n) >>= fun _ => _) _ = _
    rw [payload, Program.bind_ok checked, getPeer_bind]
    show callRead env (w₁.heap b).session data (sizeT (payloadLength n)) w₁ = _
    rw [payload, sizeT_natCast (by omega), callRead, nextTick_bind, emit_bind, peer, answer,
      runAppCalls]
    show ((runAppCall env (.write (w.heap b).session buf m) >>= fun _ => runAppCalls env []) w₂) = _
    rw [runAppCall, bind_assoc, Program.bind_ok wrote]
    rfl
  refine ⟨w', run, ⟨?_, ?_, ?_, ?_, ?_, ?_, ?_⟩, ⟨?_, ?_, ?_, ?_⟩⟩
  · exact advanced.peers.trans h.peers
  · rw [written]
    exact h.session
  · rw [written]
    exact h.itself
  · rw [written]
    exact h.role
  · rw [written]
    exact h.connected
  · refine ⟨s'.next, by rw [written], same.cipher, same.keyBlock, same.epoch⟩
  · rw [advanced.sendqueue]
    exact owned
  · rw [written]
  · rw [written]
  · rw [written]
  · refine ⟨l ++ [.read (w.heap b).session data len,
      .tesla (receivedPacket env.prims b (w.heap b) data len),
      .interval (intervalSafe w.rtt (env.timeofday w.tick) w.tsync.TStart (w.heap b).intIndex)],
      ?_, ?_, ?_⟩
    · rw [hlog, List.append_assoc]
      rfl
    · rw [received_append, (sending_silent sending).1]
      rfl
    · rw [teslas_append, (sending_silent sending).2]
      rfl

/-- A record of a client is one that `is_record` finds. -/
theorem isRecord_sealed (plain : Bytes) (length : sealedLength s plain < 2 ^ 16) :
    isRecord (Ptr.ofBytes (sealed C .client s dtlsCtApplicationData plain))
      (sealed C .client s dtlsCtApplicationData plain).length
        = (sealed C .client s dtlsCtApplicationData plain).length := by
  have rh : dtlsRhLength = 13 := rfl
  have all := length_sealed C .client s dtlsCtApplicationData plain
  have known : dtlsCtApplicationData ∈ contentTypes := by decide
  have header : dtlsRhLength ≤ (sealed C .client s dtlsCtApplicationData plain).length ∧
      (Ptr.ofBytes (sealed C .client s dtlsCtApplicationData plain)).uint8 ∈ contentTypes ∧
      ((Ptr.ofBytes (sealed C .client s dtlsCtApplicationData plain)).add 1).uint16
        = dtlsVersion := by
    refine ⟨by omega, ?_, sealed_version _ _ _ _ _⟩
    rw [sealed_type _ _ _ _ (by decide)]
    exact known
  rw [isRecord, if_pos header]
  simp only [sealed_length _ _ _ _ _ length]
  rw [if_neg (by omega), all, rh]

/-- **A DATAGRAM** of the client is opened, read and answered. -/
theorem SoleServer.receives (h : SoleServer w b src s) {s₁ : SecurityParameters}
    (answers : Answering env (w.heap b).session) (hidx : (w.heap b).intIndex < teslaKeys)
    (same : SameKeys s s₁) (epoch : s.epoch < 2 ^ 16) {plain d : Bytes} {len : Nat}
    (hn : plain.length = len + teslaExtension) (fits : len + 36 ≤ tMsgSize)
    (hd : d = sealed env.prims .client s₁ dtlsCtApplicationData plain) :
    ∃ w' data, dtlsHandleMessage env src (Ptr.ofBytes d) d.length w = (.ok 0, w') ∧
      SoleServer w' b src s ∧ data.bytes plain.length = plain ∧
      Received env.prims b data len w w' := by
  have size : tMsgSize = 10000 := rfl
  have ext : teslaExtension = 68 := rfl
  have found : dtlsGetPeer src w = (.ok (some b), w) := by
    simp only [dtlsGetPeer, Program.gets_apply, h.peers, List.find?_cons, h.session]
  have length : sealedLength s₁ plain < 2 ^ 16 := by
    unfold sealedLength
    split
    · omega
    · omega
  have record : isRecord (Ptr.ofBytes d) d.length = d.length := by
    rw [hd]
    exact isRecord_sealed plain length
  have some' : d.length ≠ 0 := by
    rw [hd, length_sealed]
    omega
  -- the record is opened
  let w₀ := w.emitted (.record ⟨some b, (some b).map w.heap, Ptr.ofBytes d, d.length⟩)
  obtain ⟨s', hs', same'⟩ := h.keys
  obtain ⟨o, other, opened, type, plaintext⟩ := @openPeerRecord_sealed env w₀ b s₁ s' plain d
    dtlsCtApplicationData h.role hs' ⟨same'.cipher.trans same.cipher.symm,
      same'.keyBlock.trans same.keyBlock.symm, same'.epoch.trans same.epoch.symm⟩
    (by rw [same.epoch]; exact epoch) hd
  rw [hd, sealed_type _ _ _ _ (by decide)] at type
  let w₁ := w₀.setPeer b { w₀.heap b with security1 := other }
  have peer : w₁.heap b = { w.heap b with security1 := other } := heap_setPeer _ _ _
  have server : SoleServer w₁ b src s := by
    refine ⟨h.peers, ?_, ?_, ?_, ?_, ⟨s', ?_, same'⟩, h.owned⟩
    all_goals rw [peer]
    · exact h.session
    · exact h.itself
    · exact h.role
    · exact h.connected
    · exact hs'
  -- and handled
  obtain ⟨w', handled, server', got⟩ := @SoleServer.answers env w₁ b src s server
    (by rw [peer]; exact answers) (by rw [peer]; exact hidx) o.data _ len hn fits
  refine ⟨w', o.data, ?_, server', plaintext, ?_, ?_, ?_, ?_⟩
  · have dispatched : dispatchRecord env (some b) src
        ⟨o.packet, o.data, plain.length, .server, (w₀.heap b).state⟩ w₁ = (.ok none, w') := by
      have only : dispatchRecord env (some b) src
          ⟨o.packet, o.data, plain.length, .server, (w₀.heap b).state⟩
          = handleApplicationRecord env (some b)
            ⟨o.packet, o.data, plain.length, .server, (w₀.heap b).state⟩ := by
        unfold dispatchRecord
        simp only
        rw [type]
        rfl
      rw [only, handleApplicationRecord, Program.bind_ok handled]
      rfl
    rw [handleMessage_first found, handleRecords]
    simp only [record]
    rw [if_neg some', handleRecord, bind_assoc, Program.gets_bind, bind_assoc, emit_bind,
      bind_assoc, Program.bind_ok opened]
    show ((dispatchRecord env (some b) src _ >>= fun _ => _) >>= fun _ => _) w₁ = _
    rw [bind_assoc, Program.bind_ok dispatched]
    -- nothing follows the record
    show handleRecords env (some b) src d.length _ (d.length - d.length) w' = _
    cases d.length with
    | zero => rfl
    | succ fuel =>
        rw [Nat.sub_self, handleRecords]
        rfl
  · rw [got.session, peer]
  · rw [got.index, peer]
  · rw [got.stored, peer]
  · obtain ⟨l, hlog, reads, checks⟩ := got.log
    rw [peer] at checks
    refine ⟨l ++ [.record ⟨some b, (some b).map w.heap, Ptr.ofBytes d, d.length⟩], ?_, ?_, ?_⟩
    · rw [hlog, List.append_assoc]
      rfl
    · rw [received_append, reads]
      rfl
    · rw [teslas_append, checks]
      rfl

/-! ## The channel -/

/-- A client and a server, and the datagrams that the client has written so far. -/
structure Channel where
  client : World
  server : World
  wire : List Bytes

/-- The application of the client writes, or the network delivers the `i`th datagram. -/
inductive ChannelStep
  | write (buf : Ptr) (len : Nat)
  | deliver (i : Nat)

/-- The datagrams that were written between two worlds, in their order. -/
def newDatagrams (w w' : World) : List Bytes :=
  ((w'.log.take (w'.log.length - w.log.length)).filterMap fun
    | .write _ d => some d
    | _ => none).reverse

/-- One step, unless a process stops.  There may be nothing to deliver yet. -/
def Channel.step (env env' : Env) (dst src : Session) (c : Channel) :
    ChannelStep → Option Channel
  | .write buf len =>
      match dtlsWrite env dst buf len c.client with
      | (.ok _, w) => some { c with client := w, wire := c.wire ++ newDatagrams c.client w }
      | (.error _, _) => none
  | .deliver i =>
      match c.wire[i]? with
      | none => some c
      | some d =>
          match dtlsHandleMessage env' src (Ptr.ofBytes d) d.length c.server with
          | (.ok _, w) => some { c with server := w }
          | (.error _, _) => none

def Channel.run (env env' : Env) (dst src : Session) : List ChannelStep → Channel → Option Channel
  | [], c => some c
  | x :: xs, c => (c.step env env' dst src x).bind (Channel.run env env' dst src xs)

/-- What the channel is for: the payloads that were written, and those that were
    delivered, the last one first, with their places among the former. -/
structure Traffic where
  sent : List Bytes
  delivered : List (Nat × Bytes)

def Traffic.step (t : Traffic) : ChannelStep → Traffic
  | .write buf len => { t with sent := t.sent ++ [buf.bytes len] }
  | .deliver i =>
      match t.sent[i]? with
      | none => t
      | some x => { t with delivered := (i, x) :: t.delivered }

def traffic (steps : List ChannelStep) : Traffic := steps.foldl Traffic.step ⟨[], []⟩

/-- Nothing is taken back. -/
theorem length_traffic (steps : List ChannelStep) (t : Traffic) :
    t.sent.length ≤ (steps.foldl Traffic.step t).sent.length ∧
      t.delivered.length ≤ (steps.foldl Traffic.step t).delivered.length := by
  induction steps generalizing t with
  | nil => exact ⟨le_refl _, le_refl _⟩
  | cons x xs ih =>
      obtain ⟨sent, delivered⟩ := ih (t.step x)
      have more : t.sent.length ≤ (t.step x).sent.length ∧
          t.delivered.length ≤ (t.step x).delivered.length := by
        cases x with
        | write buf len =>
            refine ⟨?_, le_refl _⟩
            simp only [Traffic.step, List.length_append]
            exact Nat.le_add_right _ _
        | deliver i =>
            simp only [Traffic.step]
            split
            · exact ⟨le_refl _, le_refl _⟩
            · exact ⟨le_refl _, Nat.le_succ _⟩
      exact ⟨more.1.trans sent, more.2.trans delivered⟩

/-! ### The packets -/

/-- The client when it writes the `i`th packet. -/
def Peer.after (p : Peer) (i : Nat) : Peer := { p with intIndex := p.intIndex + i }

/-- The check that a packet brings about, after the packets `ps` that came before. -/
structure CheckedAfter (C : Primitives) (p : Peer) (tsync : TeslaSync) (first : Nat)
    (store : PacketStore) (x : Nat × Bytes) (ps : List TeslaPacket) (q : TeslaPacket) : Prop where
  used : q.used = first + ps.length
  carried : q.carried = p.intIndex + x.1
  key : q.key = disclosedKey (p.after x.1) tsync
  length : q.length = x.2.length
  stored : q.stored = (ps.head?.map TeslaPacket.next).getD store
  mac : q.next.packetMac = teslaMac C (p.K (p.intIndex + x.1))
    (teslaContent (p.after x.1) tsync x.2)
  content : (List.range (x.2.length + 36)).map q.next.tMsg = teslaContent (p.after x.1) tsync x.2
  check : q.check = if q.used = 0 then none
    else some (decide (storedMac C q.stored q.key q.length = q.stored.packetMac))

/-- All of them, the last one first. -/
def AllChecked (C : Primitives) (p : Peer) (tsync : TeslaSync) (first : Nat) (store : PacketStore) :
    List (Nat × Bytes) → List TeslaPacket → Prop
  | [], [] => True
  | x :: xs, q :: ps => CheckedAfter C p tsync first store x ps q ∧
      AllChecked C p tsync first store xs ps
  | _, _ => False

/-- What is built depends on the interval and the chain. -/
theorem teslaPacket_congr {p q : Peer} (tsync : TeslaSync) (x : Bytes)
    (index : p.intIndex = q.intIndex) (keys : p.K = q.K) :
    teslaPacket C p tsync x = teslaPacket C q tsync x := by
  rw [teslaPacket, teslaPacket, teslaContent, teslaContent, disclosedKey, disclosedKey, index, keys]

theorem length_teslaContent (p : Peer) (tsync : TeslaSync) (x : Bytes) :
    (teslaContent p tsync x).length = x.length + 36 := by
  rw [teslaContent, List.length_append, List.length_append, dtlsIntToUint32, length_intToBytes,
    Vector.length_toList]

theorem length_teslaPacket (p : Peer) (tsync : TeslaSync) (x : Bytes) :
    (teslaPacket C p tsync x).length = x.length + teslaExtension := by
  rw [teslaPacket, List.length_append, length_teslaContent, Vector.length_toList]
  rfl

/-- A packet of the client, as the server takes it apart. -/
theorem receivedPacket_checkedAfter {p server : Peer} {tsync : TeslaSync} {first i : Nat}
    {store : PacketStore} {x : Bytes} {ps : List TeslaPacket} {data : Ptr}
    (hidx : (p.after i).intIndex < 2 ^ 32)
    (plain : data.bytes (x.length + teslaExtension) = teslaPacket C (p.after i) tsync x)
    (count : server.intIndex = first + ps.length)
    (stored : server.teslaPs = (ps.head?.map TeslaPacket.next).getD store) :
    CheckedAfter C p tsync first store (i, x) ps (receivedPacket C b server data x.length) := by
  have ext : teslaExtension = 68 := rfl
  have laid := laid_teslaPacket C tsync x hidx
  have agrees : data.bytes (x.length + teslaExtension)
      = (Ptr.ofBytes (teslaPacket C (p.after i) tsync x)).bytes (x.length + teslaExtension) := by
    rw [plain, ← length_teslaPacket, Ptr.ofBytes_bytes]
  refine ⟨count, ?_, ?_, rfl, stored, ?_, ?_, rfl⟩
  · refine Eq.trans ?_ laid.index
    exact congrArg bytesToInt (bytes_within agrees (by omega))
  · refine Eq.trans (Vector.toList_inj.mp ?_) laid.key
    rw [receivedPacket, packetKey, packetKey, Ptr.toList_array, Ptr.toList_array]
    exact bytes_within agrees (k := x.length + 4) (by omega)
  · refine Eq.trans (Vector.toList_inj.mp ?_) laid.mac
    rw [receivedPacket, storePacket, packetMac, packetMac, Ptr.toList_array, Ptr.toList_array]
    exact bytes_within agrees (k := x.length + 36) (by omega)
  · have kept : (List.range (x.length + 36)).map
        (receivedPacket C b server data x.length).next.tMsg = data.bytes (x.length + 36) := by
      refine List.map_congr_left fun k hk => if_pos ?_
      have inside := List.mem_range.mp hk
      omega
    have whole : data.Holds (teslaPacket C (p.after i) tsync x) := by
      rw [Ptr.Holds, length_teslaPacket, plain]
    rw [kept]
    exact whole.first.bytes (length_teslaContent _ _ _).symm

/-! ### What holds of it -/

/-- The two ends, what has been written, and what the server has seen of it. -/
structure Conveyed (C : Primitives) (a b : Addr) (dst src : Session) (s : SecurityParameters)
    (c₀ : Channel) (t : Traffic) (c : Channel) : Prop where
  client : SoleClient c.client a dst
  index : (c.client.heap a).intIndex = (c₀.client.heap a).intIndex + t.sent.length
  chain : (c.client.heap a).K = (c₀.client.heap a).K
  tsync : c.client.tsync = c₀.client.tsync
  keys : ∃ s₁, (c.client.heap a).security0 = some s₁ ∧ SameKeys s s₁
  wire : c.wire.length = t.sent.length
  written : ∀ i x, t.sent[i]? = some x → x.length + 36 ≤ tMsgSize ∧ ∃ s₁, SameKeys s s₁ ∧
    c.wire[i]? = some (sealed C .client s₁ dtlsCtApplicationData
      (teslaPacket C ((c₀.client.heap a).after i) c₀.client.tsync x))
  server : SoleServer c.server b src s
  session : (c.server.heap b).session = (c₀.server.heap b).session
  count : (c.server.heap b).intIndex = (c₀.server.heap b).intIndex + t.delivered.length
  log : ∃ l, c.server.log = l ++ c₀.server.log ∧ received l = t.delivered.map Prod.snd ∧
    (teslas l).length = t.delivered.length ∧
    (c.server.heap b).teslaPs
      = ((teslas l).head?.map TeslaPacket.next).getD (c₀.server.heap b).teslaPs ∧
    AllChecked C (c₀.client.heap a) c₀.client.tsync (c₀.server.heap b).intIndex
      (c₀.server.heap b).teslaPs t.delivered (teslas l)

theorem newDatagrams_append {l : List Event} (hlog : w'.log = l ++ w.log) :
    newDatagrams w w' = (l.filterMap fun
      | .write _ d => some d
      | _ => none).reverse := by
  rw [newDatagrams, hlog, List.length_append, Nat.add_sub_cancel, List.take_left]

/-- **STEP**: the client writes. -/
theorem Conveyed.write {env' : Env} {c₀ c : Channel} {t : Traffic}
    (h : Conveyed env.prims a b dst src s c₀ t c)
    (hidx : (c₀.client.heap a).intIndex + t.sent.length < teslaKeys) (buf : Ptr) {len : Nat}
    (fits : len + 36 ≤ tMsgSize) :
    ∃ c', c.step env env' dst src (.write buf len) = some c' ∧
      Conveyed env.prims a b dst src s c₀ (t.step (.write buf len)) c' := by
  have keys1000 : teslaKeys = 1000 := rfl
  have size : tMsgSize = 10000 := rfl
  have ext : teslaExtension = 68 := rfl
  have max : dtlsMaxBuf = 30000 := rfl
  have head : c.client.peers.head? = some a := by
    rw [h.client.peers]
    rfl
  obtain ⟨s₁, hs₁, same⟩ := h.keys
  obtain ⟨r, w', plain, l, run, built, advanced, hlog, -, one⟩ :=
    @write_advances env c.client a dst s₁ h.client.peers h.client.session h.client.connected
      (by rw [h.index]; exact hidx) hs₁ buf len
  -- the packet is that of the interval
  rw [writtenPlaintext_client head (by rw [h.index]; exact hidx) h.client.role] at built
  have packet : plain = teslaPacket env.prims ((c₀.client.heap a).after t.sent.length)
      c₀.client.tsync (buf.bytes len) := by
    rw [← Except.ok.inj built, h.tsync]
    exact teslaPacket_congr _ _ h.index h.chain
  have length : plain.length = len + teslaExtension := by
    rw [packet, length_teslaPacket, Ptr.length_bytes]
  have datagram : newDatagrams c.client w'
      = [sealed env.prims .client s₁ dtlsCtApplicationData plain] := by
    rw [newDatagrams_append hlog, one (by omega), h.client.role]
    rfl
  obtain ⟨mac, peer⟩ := advanced.peer
  refine ⟨{ c with client := w', wire := c.wire ++ newDatagrams c.client w' }, ?_, ⟨?_, ?_, ?_,
    advanced.tsync.trans h.tsync, ⟨s₁.next, ?_, same.cipher, same.keyBlock, same.epoch⟩, ?_, ?_,
    h.server, h.session, h.count, h.log⟩⟩
  · rw [Channel.step, run]
  · refine ⟨advanced.peers.trans h.client.peers, ?_, ?_, ?_⟩
    all_goals rw [peer]
    · exact h.client.session
    · exact h.client.role
    · exact h.client.connected
  · rw [peer, Traffic.step, List.length_append, ← Nat.add_assoc, ← h.index]
    rfl
  · rw [peer]
    exact h.chain
  · rw [peer]
  · rw [Traffic.step, datagram, List.length_append, List.length_append, h.wire]
    rfl
  · intro i x hx
    simp only [Traffic.step] at hx
    rw [datagram]
    by_cases old : i < t.sent.length
    · rw [List.getElem?_append_left old] at hx
      rw [List.getElem?_append_left (h.wire ▸ old)]
      exact h.written i x hx
    · have at_end : i = t.sent.length := by
        have bound := (List.getElem?_eq_some_iff.mp hx).1
        rw [List.length_append, List.length_singleton] at bound
        omega
      subst at_end
      rw [List.getElem?_concat_length] at hx
      cases hx
      refine ⟨by rw [Ptr.length_bytes]; exact fits, s₁, same, ?_⟩
      rw [← h.wire, List.getElem?_concat_length, packet, h.wire]

/-- **STEP**: a datagram is delivered. -/
theorem Conveyed.deliver {env' : Env} {c₀ c : Channel} {t : Traffic}
    (h : Conveyed env'.prims a b dst src s c₀ t c) (epoch : s.epoch < 2 ^ 16)
    (answers : Answering env' (c₀.server.heap b).session)
    (few : (c₀.client.heap a).intIndex + t.sent.length ≤ teslaKeys)
    (hidx : (c₀.server.heap b).intIndex + t.delivered.length < teslaKeys) (i : Nat) :
    ∃ c', c.step env env' dst src (.deliver i) = some c' ∧
      Conveyed env'.prims a b dst src s c₀ (t.step (.deliver i)) c' := by
  have keys1000 : teslaKeys = 1000 := rfl
  simp only [Channel.step, Traffic.step]
  cases hx : t.sent[i]? with
  | none =>
      have bound : c.wire.length ≤ i := by
        rw [h.wire]
        exact List.getElem?_eq_none_iff.mp hx
      rw [List.getElem?_eq_none bound]
      exact ⟨c, rfl, h⟩
  | some x =>
      obtain ⟨fits, s₁, same, hd⟩ := h.written i x hx
      have bound := (List.getElem?_eq_some_iff.mp hx).1
      rw [hd]
      obtain ⟨w', data, run, server, plain, got⟩ := @SoleServer.receives env' c.server b src s
        h.server s₁ (by rw [h.session]; exact answers) (by rw [h.count]; exact hidx) same epoch
        _ _ x.length (length_teslaPacket _ _ _) fits rfl
      rw [length_teslaPacket] at plain
      obtain ⟨l, hlog, reads, length, store, checked⟩ := h.log
      obtain ⟨l', hlog', reads', checked'⟩ := got.log
      have count : (c.server.heap b).intIndex
          = (c₀.server.heap b).intIndex + (teslas l).length := by rw [h.count, length]
      have new := @receivedPacket_checkedAfter b env'.prims (c₀.client.heap a) (c.server.heap b)
        c₀.client.tsync _ i _ x (teslas l) data
        (by show (c₀.client.heap a).intIndex + i < _; omega) plain count store
      simp only [run]
      refine ⟨{ c with server := w' }, rfl, ⟨h.client, h.index, h.chain, h.tsync, h.keys, h.wire,
        h.written, server, got.session.trans h.session, ?_, l' ++ l, ?_, ?_, ?_, ?_, ?_⟩⟩
      · rw [got.index, h.count]
        rfl
      · rw [hlog', hlog, List.append_assoc]
      · rw [received_append, reads, reads']
        have front : data.bytes x.length = x := by
          have whole : data.Holds (teslaPacket env'.prims ((c₀.client.heap a).after i)
              c₀.client.tsync x) := by
            rw [Ptr.Holds, length_teslaPacket, plain]
          exact whole.first.first.first.bytes rfl
        rw [front]
        rfl
      · rw [teslas_append, checked', List.length_append, length, Nat.add_comm]
        rfl
      · rw [got.stored, teslas_append, checked']
        rfl
      · rw [teslas_append, checked']
        exact ⟨new, checked⟩

/-- **RUN**: with keys for all the packets, no step stops. -/
theorem Conveyed.run {env' : Env} {c₀ : Channel} (steps : List ChannelStep) {c : Channel}
    {t : Traffic} (prims : env'.prims = env.prims) (h : Conveyed env.prims a b dst src s c₀ t c)
    (epoch : s.epoch < 2 ^ 16) (answers : Answering env' (c₀.server.heap b).session)
    (fits : ∀ buf len, .write buf len ∈ steps → len + 36 ≤ tMsgSize)
    (few : (c₀.client.heap a).intIndex + (steps.foldl Traffic.step t).sent.length ≤ teslaKeys)
    (few' : (c₀.server.heap b).intIndex + (steps.foldl Traffic.step t).delivered.length
      ≤ teslaKeys) :
    ∃ c', Channel.run env env' dst src steps c = some c' ∧
      Conveyed env.prims a b dst src s c₀ (steps.foldl Traffic.step t) c' := by
  induction steps generalizing c t with
  | nil => exact ⟨c, rfl, h⟩
  | cons x xs ih =>
      have later := length_traffic xs (t.step x)
      rw [List.foldl_cons] at few few' ⊢
      have step : ∃ c', c.step env env' dst src x = some c' ∧
          Conveyed env.prims a b dst src s c₀ (t.step x) c' := by
        cases x with
        | write buf len =>
            have more : (t.step (.write buf len)).sent.length = t.sent.length + 1 :=
              List.length_append
            exact h.write (by omega) buf (fits buf len List.mem_cons_self)
        | deliver i =>
            cases hx : t.sent[i]? with
            | none =>
                have nothing : t.step (.deliver i) = t := by
                  simp only [Traffic.step, hx]
                have bound : c.wire.length ≤ i := by
                  rw [h.wire]
                  exact List.getElem?_eq_none_iff.mp hx
                refine ⟨c, ?_, nothing.symm ▸ h⟩
                simp only [Channel.step, List.getElem?_eq_none bound]
            | some y =>
                have one : t.step (.deliver i) = { t with delivered := (i, y) :: t.delivered } := by
                  simp only [Traffic.step, hx]
                have same : (t.step (.deliver i)).sent.length = t.sent.length := by rw [one]
                have more : (t.step (.deliver i)).delivered.length = t.delivered.length + 1 := by
                  rw [one]
                  rfl
                rw [← prims] at h ⊢
                exact h.deliver epoch answers (by omega) (by omega) i
      obtain ⟨c', hstep, conveyed⟩ := step
      obtain ⟨c'', hrun, conveyed'⟩ := ih conveyed
        (fun buf len hx => fits buf len (List.mem_cons_of_mem x hx)) few few'
      refine ⟨c'', ?_, conveyed'⟩
      rw [Channel.run, hstep]
      exact hrun

/-! ## What is checked -/

/-- The check that the delivery of `y` brings about, when `x` was delivered just before:
    the MAC of what is stored is compared, over as many bytes as the packet of `y` has, under
    the key that this packet discloses. -/
structure CheckOf (C : Primitives) (p : Peer) (tsync : TeslaSync) (x y : Nat × Bytes)
    (q : TeslaPacket) : Prop where
  carried : q.carried = p.intIndex + y.1
  key : q.key = disclosedKey (p.after y.1) tsync
  content : (List.range (x.2.length + 36)).map q.stored.tMsg = teslaContent (p.after x.1) tsync x.2
  mac : q.stored.packetMac
    = teslaMac C (p.K (p.intIndex + x.1)) (teslaContent (p.after x.1) tsync x.2)
  check : q.check = some (decide (storedMac C q.stored q.key y.2.length = q.stored.packetMac))
  authentic : y.1 = x.1 + 1 → y.2.length = x.2.length → q.check = some true

theorem AllChecked.length {p : Peer} {tsync : TeslaSync} {first : Nat} {store : PacketStore}
    {xs : List (Nat × Bytes)} {ps : List TeslaPacket}
    (h : AllChecked C p tsync first store xs ps) : ps.length = xs.length := by
  induction xs generalizing ps with
  | nil =>
      cases ps with
      | nil => rfl
      | cons q ps => exact h.elim
  | cons x xs ih =>
      cases ps with
      | nil => exact h.elim
      | cons q ps => exact congrArg (· + 1) (ih h.2)

/-- One delivery after another. -/
theorem AllChecked.get {p : Peer} {tsync : TeslaSync} {first : Nat} {store : PacketStore}
    {xs : List (Nat × Bytes)} {ps : List TeslaPacket} {x y : Nat × Bytes} {q : TeslaPacket}
    {k : Nat} (h : AllChecked C p tsync first store xs ps) (hx : xs[k + 1]? = some x)
    (hy : xs[k]? = some y) (hq : ps[k]? = some q) :
    q.used + k + 1 = first + xs.length ∧ CheckOf C p tsync x y q := by
  induction k generalizing xs ps with
  | zero =>
      obtain _ | ⟨y', _ | ⟨x', xs⟩⟩ := xs
      · cases hx
      · cases hx
      · obtain _ | ⟨q', _ | ⟨r, ps⟩⟩ := ps
        · exact h.elim
        · exact h.2.elim
        · obtain ⟨checked, before, rest⟩ := h
          cases hx
          cases hy
          cases hq
          have length := rest.length
          have used := checked.used
          have stored : q.stored = r.next := checked.stored
          rw [List.length_cons] at used
          have positive : q.used ≠ 0 := by omega
          have outcome := checked.check
          rw [if_neg positive, checked.length] at outcome
          refine ⟨?_, checked.carried, checked.key, ?_, ?_, outcome, fun next same => ?_⟩
          · rw [List.length_cons, List.length_cons]
            omega
          · rw [stored]
            exact before.content
          · rw [stored]
            exact before.mac
          · -- the key that is disclosed is the one of the MAC
            have disclosed : q.key = p.K (p.intIndex + x.1) := by
              have later : (p.after y.1).intIndex = p.intIndex + x.1 + 1 := by
                rw [Peer.after, next, Nat.add_assoc]
              rw [checked.key, disclosedKey, later, if_neg (Nat.succ_ne_zero _),
                Nat.add_sub_cancel]
              rfl
            rw [outcome, stored, before.mac, disclosed, storedMac, same]
            have bytes : ((x.2.length : Int) + 36).toNat = x.2.length + 36 := by omega
            rw [bytes, before.content, decide_eq_true rfl]
  | succ k ih =>
      obtain _ | ⟨_, xs⟩ := xs
      · cases hx
      · obtain _ | ⟨_, ps⟩ := ps
        · exact h.elim
        · obtain ⟨_, rest⟩ := h
          rw [List.getElem?_cons_succ] at hx hy hq
          obtain ⟨used, check⟩ := ih rest hx hy hq
          refine ⟨?_, check⟩
          rw [List.length_cons]
          omega

/-- A client and a server in the middle of a session. -/
def sampleChannel : Channel where
  client := { sampleWorld with peers := [0] }.setPeer 0
    { keyedPeer .client with state := .connected }
  server := { sampleWorld with peers := [0] }.setPeer 0
    { keyedPeer .server with state := .connected }
  wire := []

/-- Two packets, of which the network delivers the second one first, and again. -/
def sampleSteps : List ChannelStep :=
  [.write (fun _ => 1) 3, .write (fun _ => 2) 3, .deliver 1, .deliver 0, .deliver 1]

theorem sampleChannel_client : SoleClient sampleChannel.client 0 (sampleSession 0) where
  peers := rfl
  session := by decide +kernel
  role := rfl
  connected := rfl

theorem sampleChannel_server : SoleServer sampleChannel.server 0 (sampleSession 0)
    { dtlsSecurityNew with cipher := tlsPskWithAes128Ccm8, epoch := 1 } where
  peers := rfl
  session := by decide +kernel
  itself := by decide +kernel
  role := rfl
  connected := rfl
  keys := ⟨_, rfl, rfl, rfl, rfl⟩
  owned := List.forall_mem_nil _

theorem sampleSteps_fit (buf : Ptr) (len : Nat) (h : .write buf len ∈ sampleSteps) :
    len + 36 ≤ tMsgSize := by
  simp only [sampleSteps, List.mem_cons, ChannelStep.write.injEq, reduceCtorEq, List.not_mem_nil,
    or_false] at h
  rcases h with ⟨-, rfl⟩ | ⟨-, rfl⟩
  · decide
  · decide

end PqDtls.Dtls
