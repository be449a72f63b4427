import PqDtls.Dtls.Sending

/-! # Fragments of handshake messages, on the way out

    What `dtls_send_handshake_msg_hash` sends: the list `fragments`, all with the
    sequence number the peer had at the start.  The number moves on with the
    fragment that is flagged as the last one, and a message whose length is a
    positive multiple of the payload size has no such fragment. -/

namespace PqDtls.Dtls

open Program (get gets modify stop ofOption when)

variable {env : Env} {w : World}

/-! ## The header -/

/-- `dtls_handshake_header_t`, encoded. -/
def messageHeader (type length seq offset fragmentLength : Nat) : Bytes :=
  dtlsIntToUint8 type ++ dtlsIntToUint24 length ++ dtlsIntToUint16 seq ++
    dtlsIntToUint24 offset ++ dtlsIntToUint24 fragmentLength

@[simp] theorem length_messageHeader (type length seq offset fragmentLength : Nat) :
    (messageHeader type length seq offset fragmentLength).length = 12 := by
  simp [messageHeader, dtlsIntToUint8, dtlsIntToUint16, dtlsIntToUint24]

/-- The sequence number of the next message. -/
def nextSeq (w : World) (peer : Option Addr) : Nat :=
  ((peer.bind fun a => (w.heap a).handshakeParams).map (·.mseqS)).getD 0

/-- The world after a message was counted. -/
def World.countedMessage (w : World) (peer : Option Addr) : World :=
  match peer with
  | none => w
  | some a =>
      match (w.heap a).handshakeParams with
      | none => w
      | some h => w.setPeer a { w.heap a with
          handshakeParams := some { h with mseqS := (h.mseqS + 1) % 2 ^ 16 } }

theorem setHandshakeHeader_eq (type : Nat) (peer : Option Addr)
    (length offset fragmentLength : Nat) (inc : Bool) (w : World) :
    dtlsSetHandshakeHeader type peer length offset fragmentLength inc w
      = (.ok (messageHeader type length (nextSeq w peer) offset fragmentLength),
          if inc = true then w.countedMessage peer else w) := by
  have next : nextMessageSeq peer inc w
      = (.ok (nextSeq w peer), if inc = true then w.countedMessage peer else w) := by
    cases peer with
    | none => cases inc <;> rfl
    | some a =>
        rw [nextMessageSeq, getPeer_bind]
        cases hp : (w.heap a).handshakeParams with
        | none =>
            simp only [nextSeq, World.countedMessage, Option.bind_some, hp, Option.map_none,
              Option.getD_none, Program.pure_apply]
            cases inc <;> rfl
        | some h =>
            have seq : nextSeq w (some a) = h.mseqS := by
              simp only [nextSeq, Option.bind_some, hp, Option.map_some, Option.getD_some]
            cases inc with
            | false => rw [seq]; rfl
            | true =>
                rw [seq]
                show (modifyHandshake a _ >>= fun _ => pure h.mseqS) w = _
                rw [Program.bind_ok (modifyHandshake_some _ hp)]
                simp only [World.countedMessage, hp, if_true]
                rfl
  rw [dtlsSetHandshakeHeader, Program.bind_ok next]
  rfl

/-! ## The fragments -/

/-- What the loop sends while `remaining` bytes are left. -/
def fragments (type seq : Nat) (data : Bytes) : Nat → Nat → List Bytes
  | 0, _ => []
  | fuel + 1, remaining =>
      let length := min remaining dtlsMaxHsPayload
      (messageHeader type data.length seq (data.length - remaining) length ++
          (data.drop (data.length - remaining)).take length) ::
        if remaining < dtlsMaxHsPayload ∨ remaining - dtlsMaxHsPayload = 0 then []
        else fragments type seq data fuel (remaining - dtlsMaxHsPayload)

/-- Is a message of `n` bytes counted? -/
def Counted (n : Nat) : Prop := n = 0 ∨ n % dtlsMaxHsPayload ≠ 0

instance (n : Nat) : Decidable (Counted n) := inferInstanceAs (Decidable (_ ∨ _))

/-- The payloads of one content type that were sent, the last one first. -/
def sentPayloads (type : Nat) : List Event → List Bytes
  | [] => []
  | .sent _ t payload :: l =>
      if t = type then payload :: sentPayloads type l else sentPayloads type l
  | _ :: l => sentPayloads type l

/-- Two worlds with the same handshakes. -/
def SameHandshakes (w w' : World) : Prop :=
  ∀ b, (w'.heap b).handshakeParams = (w.heap b).handshakeParams

theorem SameHandshakes.nextSeq {w w' : World} (h : SameHandshakes w w') (peer : Option Addr) :
    nextSeq w' peer = nextSeq w peer := by
  cases peer with
  | none => rfl
  | some a => simp only [PqDtls.Dtls.nextSeq, Option.bind_some, h a]

theorem SameHandshakes.counted {w w' : World} (h : SameHandshakes w w') (peer : Option Addr) :
    SameHandshakes (w.countedMessage peer) (w'.countedMessage peer) := by
  intro b
  cases peer with
  | none => exact h b
  | some a =>
      simp only [World.countedMessage, h a]
      cases (w.heap a).handshakeParams with
      | none => exact h b
      | some hs =>
          by_cases hb : b = a
          · subst hb
            simp only [heap_setPeer]
          · simp only [heap_setPeer_ne _ hb]
            exact h b

theorem sendSecurity_counted (w : World) (peer : Option Addr) :
    sendSecurity (w.countedMessage peer) peer = sendSecurity w peer := by
  cases peer with
  | none => rfl
  | some a =>
      simp only [World.countedMessage]
      cases (w.heap a).handshakeParams with
      | none => rfl
      | some hs => simp only [sendSecurity, Option.bind_some, heap_setPeer]

theorem log_counted (w : World) (peer : Option Addr) :
    (w.countedMessage peer).log = w.log := by
  cases peer with
  | none => rfl
  | some a =>
      simp only [World.countedMessage]
      cases (w.heap a).handshakeParams <;> rfl

/-- One turn of the loop. -/
theorem sendFragment_eq (peer : Option Addr) (session : Session) (type : Nat) (data : Bytes)
    (remaining : Nat) (w : World) (last : Bool) :
    ∃ r w' d, (do
        let header ← dtlsSetHandshakeHeader type peer data.length (data.length - remaining)
          (min remaining dtlsMaxHsPayload) last
        dtlsSendMulti env peer (sendSecurity w peer) session dtlsCtHandshake [header,
          (data.drop (data.length - remaining)).take (min remaining dtlsMaxHsPayload)] : M Int) w
        = (.ok r, w') ∧
      w'.log = .write session d :: .sent session dtlsCtHandshake
          (messageHeader type data.length (nextSeq w peer) (data.length - remaining)
            (min remaining dtlsMaxHsPayload) ++
            (data.drop (data.length - remaining)).take (min remaining dtlsMaxHsPayload)) ::
          w.log ∧
      SameHandshakes (if last = true then w.countedMessage peer else w) w' ∧
      sendSecurity w' peer = sendSecurity w peer := by
  have max : dtlsMaxBuf = 30000 := rfl
  have size : dtlsMaxHsPayload = 1252 := rfl
  rw [Program.bind_ok (setHandshakeHeader_eq _ _ _ _ _ _ _)]
  generalize hw₁ : (if last = true then w.countedMessage peer else w) = w₁
  have security : sendSecurity w₁ peer = sendSecurity w peer := by
    subst hw₁
    cases last with
    | false => rfl
    | true => exact sendSecurity_counted w peer
  have log : w₁.log = w.log := by
    subst hw₁
    cases last with
    | false => rfl
    | true => exact log_counted w peer
  obtain ⟨r, w', d, hrun, hlog, same, hsec⟩ := @sendMulti_sent env w₁ peer session
    dtlsCtHandshake [messageHeader type data.length (nextSeq w peer) (data.length - remaining)
      (min remaining dtlsMaxHsPayload),
      (data.drop (data.length - remaining)).take (min remaining dtlsMaxHsPayload)] (by
        simp only [List.flatten_cons, List.flatten_nil, List.append_nil, List.length_append,
          length_messageHeader, List.length_take]
        omega)
  rw [security] at hrun hsec
  refine ⟨r, w', d, hrun, ?_, same, hsec⟩
  rw [hlog, log]
  simp only [List.flatten_cons, List.flatten_nil, List.append_nil]

theorem counted_sub {n : Nat} (h : dtlsMaxHsPayload < n) :
    Counted (n - dtlsMaxHsPayload) ↔ Counted n := by
  unfold Counted
  rw [← Nat.mod_eq_sub_mod (Nat.le_of_lt h)]
  omega

/-- **The loop sends the fragments**, and counts the message if it flags the last one. -/
theorem sendFragments_eq (peer : Option Addr) (session : Session) (type : Nat) (data : Bytes)
    (fuel remaining : Nat) (ret : Int) (w : World) (hpos : 0 < fuel)
    (hfuel : remaining ≤ fuel * dtlsMaxHsPayload) :
    ∃ r w', sendFragments env peer (sendSecurity w peer) session type data fuel remaining ret w
        = (.ok r, w') ∧
      sentPayloads dtlsCtHandshake w'.log
        = (fragments type (nextSeq w peer) data fuel remaining).reverse ++
          sentPayloads dtlsCtHandshake w.log ∧
      SameHandshakes (if Counted remaining then w.countedMessage peer else w) w' := by
  have size : dtlsMaxHsPayload = 1252 := rfl
  induction fuel generalizing remaining ret w with
  | zero => exact absurd hpos (lt_irrefl 0)
  | succ fuel ih =>
      obtain ⟨r, w₁, d, hrun, hlog, same, hsec⟩ := @sendFragment_eq env peer session type
        data remaining w (decide (remaining < dtlsMaxHsPayload))
      have hsent := congrArg (sentPayloads dtlsCtHandshake) hlog
      simp only [sentPayloads, if_true] at hsent
      rw [sendFragments, ← bind_assoc, Program.bind_ok hrun, fragments]
      by_cases hend : remaining < dtlsMaxHsPayload ∨ remaining - dtlsMaxHsPayload = 0
      · -- the loop ends here
        have stop : (decide (remaining < dtlsMaxHsPayload) ||
            decide (remaining - dtlsMaxHsPayload = 0)) = true := by
          rw [Bool.or_eq_true, decide_eq_true_iff, decide_eq_true_iff]
          exact hend
        rw [if_pos stop, if_pos hend]
        refine ⟨_, w₁, rfl, hsent, ?_⟩
        have counted : Counted remaining ↔ remaining < dtlsMaxHsPayload := by
          unfold Counted
          rw [size] at hend ⊢
          omega
        simp only [counted]
        simp only [decide_eq_true_iff] at same
        exact same
      · have goOn : ¬ (decide (remaining < dtlsMaxHsPayload) ||
            decide (remaining - dtlsMaxHsPayload = 0)) = true := by
          rw [Bool.or_eq_true, decide_eq_true_iff, decide_eq_true_iff]
          exact hend
        have more : dtlsMaxHsPayload < remaining := by omega
        rw [if_neg goOn, if_neg hend]
        simp only [decide_eq_true_iff, if_neg (not_lt.mpr (Nat.le_of_lt more))] at same
        have left : remaining - dtlsMaxHsPayload ≤ fuel * dtlsMaxHsPayload := by
          rw [Nat.succ_mul] at hfuel
          omega
        have some_fuel : 0 < fuel := by
          rcases Nat.eq_zero_or_pos fuel with rfl | hf
          · rw [Nat.zero_mul] at left
            omega
          · exact hf
        obtain ⟨r', w', hrun', hsent', same'⟩ := ih (remaining - dtlsMaxHsPayload) (ret + r) w₁
          some_fuel left
        rw [hsec] at hrun'
        refine ⟨r', w', hrun', ?_, ?_⟩
        · rw [hsent', hsent, same.nextSeq, List.reverse_cons, List.append_assoc]
          rfl
        · simp only [counted_sub more] at same'
          intro b
          by_cases hc : Counted remaining
          · rw [if_pos hc] at same' ⊢
            exact (same' b).trans (same.counted peer b)
          · rw [if_neg hc] at same' ⊢
            exact (same' b).trans (same b)

/-! ## A message -/

/-- The message as it enters the hash: unfragmented. -/
def wholeMessage (type seq : Nat) (data : Bytes) : Bytes :=
  messageHeader type data.length seq 0 data.length ++ data

/-- The world after a message entered the hash of its handshake. -/
def World.hashed (w : World) (peer : Option Addr) (message : Bytes) : World :=
  match peer with
  | none => w
  | some a =>
      match (w.heap a).handshakeParams with
      | none => w
      | some h => w.setPeer a { w.heap a with
          handshakeParams := some { h with hsHash := h.hsHash ++ message } }

theorem sendSecurity_hashed (w : World) (peer : Option Addr) (message : Bytes) :
    sendSecurity (w.hashed peer message) peer = sendSecurity w peer := by
  cases peer with
  | none => rfl
  | some a =>
      simp only [World.hashed]
      cases (w.heap a).handshakeParams with
      | none => rfl
      | some hs => simp only [sendSecurity, Option.bind_some, heap_setPeer]

theorem nextSeq_hashed (w : World) (peer : Option Addr) (message : Bytes) :
    nextSeq (w.hashed peer message) peer = nextSeq w peer := by
  cases peer with
  | none => rfl
  | some a =>
      cases hp : (w.heap a).handshakeParams with
      | none => simp only [World.hashed, hp]
      | some hs =>
          simp only [World.hashed, hp, nextSeq, Option.bind_some, heap_setPeer, Option.map_some]

theorem log_hashed (w : World) (peer : Option Addr) (message : Bytes) :
    (w.hashed peer message).log = w.log := by
  cases peer with
  | none => rfl
  | some a =>
      simp only [World.hashed]
      cases (w.heap a).handshakeParams <;> rfl

/-- The hash needs handshake parameters. -/
def CanHash (w : World) (peer : Option Addr) (addHash : Bool) : Prop :=
  addHash = true → ∃ a h, peer = some a ∧ (w.heap a).handshakeParams = some h

theorem hashMessage_eq (type : Nat) (peer : Option Addr) (data : Bytes) {w : World}
    (h : CanHash w peer true) :
    hashMessage type peer data w
      = (.ok (), w.hashed peer (wholeMessage type (nextSeq w peer) data)) := by
  obtain ⟨a, hs, rfl, hp⟩ := h rfl
  rw [hashMessage, Program.bind_ok (setHandshakeHeader_eq _ _ _ _ _ _ _)]
  show (updateHsHash a _) w = _
  rw [updateHsHash, modifyHandshake_some _ hp]
  simp only [World.hashed, hp]
  rfl

/-- **A message is sent** as its fragments, and enters the hash unfragmented. -/
theorem sendHandshakeMsgHash_eq (peer : Option Addr) (session : Session) (type : Nat)
    (data : Bytes) (addHash : Bool) {w : World} (h : CanHash w peer addHash) :
    ∃ r w', dtlsSendHandshakeMsgHash env peer session type data addHash w = (.ok r, w') ∧
      sentPayloads dtlsCtHandshake w'.log
        = (fragments type (nextSeq w peer) data (data.length + 1) data.length).reverse ++
          sentPayloads dtlsCtHandshake w.log ∧
      SameHandshakes
        (let w₁ := if addHash = true then
            w.hashed peer (wholeMessage type (nextSeq w peer) data) else w
          if Counted data.length then w₁.countedMessage peer else w₁) w' := by
  have security : dtlsSendHandshakeMsgHash env peer session type data addHash w = (do
      when (addHash = true) (hashMessage type peer data)
      sendFragments env peer (sendSecurity w peer) session type data (data.length + 1)
        data.length 0 : M Int) w := by
    cases peer <;> rfl
  rw [security]
  generalize hw₁ : (if addHash = true then
    w.hashed peer (wholeMessage type (nextSeq w peer) data) else w) = w₁
  have hash : (when (addHash = true) (hashMessage type peer data)) w = (.ok (), w₁) := by
    subst hw₁
    cases addHash with
    | false => rfl
    | true => exact hashMessage_eq type peer data h
  have same : sendSecurity w₁ peer = sendSecurity w peer ∧ nextSeq w₁ peer = nextSeq w peer ∧
      w₁.log = w.log := by
    subst hw₁
    cases addHash with
    | false => exact ⟨rfl, rfl, rfl⟩
    | true => exact ⟨sendSecurity_hashed _ _ _, nextSeq_hashed _ _ _, log_hashed _ _ _⟩
  rw [Program.bind_ok hash, ← same.1]
  have fuel : data.length ≤ (data.length + 1) * dtlsMaxHsPayload := by
    unfold dtlsMaxHsPayload
    omega
  obtain ⟨r, w', hrun, hsent, hs⟩ := @sendFragments_eq env peer session type data
    (data.length + 1) data.length 0 w₁ (Nat.succ_pos _) fuel
  rw [same.2.1, same.2.2] at hsent
  exact ⟨r, w', hrun, hsent, hs⟩

/-- A message of less than one fragment: one datagram is written. -/
theorem sendHandshakeMsg_short (type : Nat) {a : Addr} {data : Bytes} {w : World}
    {h : HandshakeParameters} (hp : (w.heap a).handshakeParams = some h)
    (hlen : data.length < dtlsMaxHsPayload) :
    ∃ r w' d, dtlsSendHandshakeMsg env a type data w = (.ok r, w') ∧
      w'.log = .write (w.heap a).session d ::
        .sent (w.heap a).session dtlsCtHandshake (wholeMessage type h.mseqS data) :: w.log := by
  have seq : nextSeq w (some a) = h.mseqS := by
    simp only [nextSeq, Option.bind_some, hp, Option.map_some, Option.getD_some]
  let w₁ := w.hashed (some a) (wholeMessage type h.mseqS data)
  have security : dtlsSendHandshakeMsg env a type data w = (do
      hashMessage type (some a) data
      sendFragments env (some a) (sendSecurity w (some a)) (w.heap a).session type data
        (data.length + 1) data.length 0 : M Int) w := rfl
  have hash : hashMessage type (some a) data w = (.ok (), w₁) := by
    rw [hashMessage_eq type (some a) data fun _ => ⟨a, h, rfl, hp⟩, seq]
  obtain ⟨r, w', d, hrun, hlog, -, -⟩ := @sendFragment_eq env (some a) (w.heap a).session
    type data data.length w₁ (decide (data.length < dtlsMaxHsPayload))
  have last : (decide (data.length < dtlsMaxHsPayload) ||
      decide (data.length - dtlsMaxHsPayload = 0)) = true := by
    rw [decide_eq_true hlen, Bool.true_or]
  rw [security, Program.bind_ok hash, sendFragments, ← bind_assoc,
    ← sendSecurity_hashed w (some a) (wholeMessage type h.mseqS data), Program.bind_ok hrun,
    if_pos last]
  refine ⟨_, w', d, rfl, ?_⟩
  rw [hlog, nextSeq_hashed, seq, log_hashed, Nat.min_eq_left (Nat.le_of_lt hlen), Nat.sub_self,
    List.drop_zero, List.take_length, wholeMessage]

/-! ## Sequence numbers -/

/-- Reading the header that starts a payload. -/
theorem handshakeHeader_message (type length seq offset fragmentLength : Nat) (rest : Bytes) :
    handshakeHeader (Ptr.ofBytes (messageHeader type length seq offset fragmentLength ++ rest))
      = ⟨type % 2 ^ 8, length % 2 ^ 24, seq % 2 ^ 16, offset % 2 ^ 24, fragmentLength % 2 ^ 24⟩ := by
  have read (front middle back : Bytes) (k n v : Nat)
      (hb : messageHeader type length seq offset fragmentLength ++ rest = front ++ middle ++ back)
      (hk : front.length = k) (hm : middle = intToBytes n v) :
      bytesToInt (((Ptr.ofBytes (messageHeader type length seq offset fragmentLength ++ rest)).add
        k).bytes n) = v % 256 ^ n := by
    rw [ofBytes_middle_at front middle back hb hk (by rw [hm, length_intToBytes]), hm,
      bytesToInt_intToBytes]
  have hType := read [] (dtlsIntToUint8 type) _ 0 1 type rfl rfl rfl
  have hLength := read (dtlsIntToUint8 type) (dtlsIntToUint24 length) _ 1 3 length rfl rfl rfl
  have hSeq := read (dtlsIntToUint8 type ++ dtlsIntToUint24 length) (dtlsIntToUint16 seq) _ 4 2 seq
    rfl rfl rfl
  have hOffset := read (dtlsIntToUint8 type ++ dtlsIntToUint24 length ++ dtlsIntToUint16 seq)
    (dtlsIntToUint24 offset) _ 6 3 offset rfl rfl rfl
  have hFragment := read (dtlsIntToUint8 type ++ dtlsIntToUint24 length ++ dtlsIntToUint16 seq ++
    dtlsIntToUint24 offset) (dtlsIntToUint24 fragmentLength) _ 9 3 fragmentLength rfl rfl rfl
  have start : (((0 : Nat) : Int)) = 0 := rfl
  rw [start, Ptr.add_zero] at hType
  unfold handshakeHeader Ptr.uint8 Ptr.uint16 Ptr.uint24
  rw [HandshakeHeader.mk.injEq]
  exact ⟨hType, hLength, hSeq, hOffset, hFragment⟩

/-- The sequence number in a payload. -/
def payloadSeq (payload : Bytes) : Nat := (handshakeHeader (Ptr.ofBytes payload)).messageSeq

theorem payloadSeq_fragment {type seq : Nat} {data payload : Bytes} {fuel remaining : Nat}
    (h : payload ∈ fragments type seq data fuel remaining) : payloadSeq payload = seq % 2 ^ 16 := by
  induction fuel generalizing remaining with
  | zero => exact nomatch h
  | succ fuel ih =>
      rw [fragments, List.mem_cons] at h
      rcases h with rfl | h
      · rw [payloadSeq, handshakeHeader_message]
      · by_cases hend : remaining < dtlsMaxHsPayload ∨ remaining - dtlsMaxHsPayload = 0
        · rw [if_pos hend] at h
          exact nomatch h
        · rw [if_neg hend] at h
          exact ih h

/-- The payloads of handshake messages sent between two worlds, the first one first. -/
def newPayloads (w w' : World) : List Bytes :=
  ((sentPayloads dtlsCtHandshake w'.log).take ((sentPayloads dtlsCtHandshake w'.log).length -
    (sentPayloads dtlsCtHandshake w.log).length)).reverse

theorem newPayloads_eq {w w' : World} {new : List Bytes}
    (h : sentPayloads dtlsCtHandshake w'.log
      = new.reverse ++ sentPayloads dtlsCtHandshake w.log) : newPayloads w w' = new := by
  rw [newPayloads, h, List.length_append, Nat.add_sub_cancel, List.take_left, List.reverse_reverse]

/-- A message that is to be sent. -/
structure Outgoing where
  type : Nat
  data : Bytes
  addHash : Bool

/-- The world after a message was sent. -/
def Outgoing.send (env : Env) (a : Addr) (session : Session) (m : Outgoing) (w : World) : World :=
  (dtlsSendHandshakeMsgHash env (some a) session m.type m.data m.addHash w).2

/-- The sequence numbers that the fragments of every message carry, for messages that are
    sent one after the other. -/
def messageSeqs (env : Env) (a : Addr) (session : Session) : List Outgoing → World → List (List Nat)
  | [], _ => []
  | m :: ms, w => (newPayloads w (m.send env a session w)).map payloadSeq ::
      messageSeqs env a session ms (m.send env a session w)

/-- All fragments of a message carry one number, those of the next message the one
    after it. -/
structure Consecutive (seqs : List (List Nat)) : Prop where
  same : ∀ l ∈ seqs, ∃ s, l ≠ [] ∧ ∀ s' ∈ l, s' = s
  next : seqs.IsChain fun l l' => ∀ s ∈ l, ∀ s' ∈ l', s' = (s + 1) % 2 ^ 16

/-- The number that the next message gets. -/
def afterMessage (n seq : Nat) : Nat := if Counted n then (seq + 1) % 2 ^ 16 else seq

/-- **ONE MESSAGE**: its fragments carry the number of the peer, which moves on if the
    message is counted. -/
theorem Outgoing.send_seqs (a : Addr) (session : Session) (m : Outgoing)
    {h : HandshakeParameters} (hp : (w.heap a).handshakeParams = some h) :
    newPayloads w (m.send env a session w) ≠ [] ∧
      (∀ s ∈ (newPayloads w (m.send env a session w)).map payloadSeq, s = h.mseqS % 2 ^ 16) ∧
      ∃ h', ((m.send env a session w).heap a).handshakeParams = some h' ∧
        h'.mseqS = afterMessage m.data.length h.mseqS := by
  have seq : nextSeq w (some a) = h.mseqS := by
    simp only [nextSeq, Option.bind_some, hp, Option.map_some, Option.getD_some]
  obtain ⟨r, w', hrun, hsent, same⟩ := @sendHandshakeMsgHash_eq env (some a) session m.type
    m.data m.addHash w (fun _ => ⟨a, h, rfl, hp⟩)
  have hw' : m.send env a session w = w' := congrArg Prod.snd hrun
  rw [hw', newPayloads_eq hsent, seq]
  refine ⟨by rw [fragments]; exact List.cons_ne_nil _ _, fun s hs => ?_, ?_⟩
  · obtain ⟨payload, hpay, rfl⟩ := List.mem_map.mp hs
    exact payloadSeq_fragment hpay
  · -- the hash changes, the number does not
    have hashed : ∃ h₁, ((if m.addHash = true then
        w.hashed (some a) (wholeMessage m.type (nextSeq w (some a)) m.data) else w).heap
          a).handshakeParams = some h₁ ∧ h₁.mseqS = h.mseqS := by
      cases m.addHash with
      | false => exact ⟨h, hp, rfl⟩
      | true =>
          simp only [if_true, World.hashed, hp, heap_setPeer]
          exact ⟨_, rfl, rfl⟩
    obtain ⟨h₁, hp₁, hseq₁⟩ := hashed
    by_cases hc : Counted m.data.length
    · refine ⟨{ h₁ with mseqS := (h₁.mseqS + 1) % 2 ^ 16 }, ?_, ?_⟩
      · rw [same a]
        simp only [if_pos hc, World.countedMessage, hp₁, heap_setPeer]
      · simp only [afterMessage, if_pos hc, hseq₁]
    · refine ⟨h₁, ?_, ?_⟩
      · rw [same a]
        simp only [if_neg hc]
        exact hp₁
      · rw [afterMessage, if_neg hc, hseq₁]

/-- A message that is not counted shares its number with the next one. -/
theorem afterMessage_next {n seq : Nat} :
    afterMessage n seq % 2 ^ 16 = (seq % 2 ^ 16 + 1) % 2 ^ 16 ↔ Counted n := by
  unfold afterMessage
  by_cases hc : Counted n
  · rw [if_pos hc, iff_true_right hc]
    omega
  · rw [if_neg hc, iff_false_right hc]
    omega

theorem messageSeqs_same (a : Addr) (session : Session) (ms : List Outgoing) {w : World}
    {h : HandshakeParameters} (hp : (w.heap a).handshakeParams = some h) :
    ∀ l ∈ messageSeqs env a session ms w, ∃ s, l ≠ [] ∧ ∀ s' ∈ l, s' = s := by
  induction ms generalizing w h with
  | nil => exact List.forall_mem_nil _
  | cons m ms ih =>
      obtain ⟨hne, hall, h', hp', -⟩ := @Outgoing.send_seqs env _ a session m _ hp
      exact List.forall_mem_cons.mpr
        ⟨⟨_, fun hnil => hne (List.map_eq_nil_iff.mp hnil), hall⟩, ih hp'⟩

/-- **SEQUENCE NUMBERS**: the messages that a peer in a handshake sends are numbered
    consecutively exactly when every one but the last has a length that is no positive
    multiple of the payload size. -/
theorem messageSeqs_consecutive (a : Addr) (session : Session) (ms : List Outgoing)
    {h : HandshakeParameters} (hp : (w.heap a).handshakeParams = some h) :
    Consecutive (messageSeqs env a session ms w) ↔ ∀ m ∈ ms.dropLast, Counted m.data.length := by
  have next : (messageSeqs env a session ms w).IsChain
      (fun l l' => ∀ s ∈ l, ∀ s' ∈ l', s' = (s + 1) % 2 ^ 16) ↔
      ∀ m ∈ ms.dropLast, Counted m.data.length := by
    induction ms generalizing w h with
    | nil => exact iff_of_true .nil (List.forall_mem_nil _)
    | cons m ms ih =>
        cases ms with
        | nil => exact iff_of_true (.singleton _) (List.forall_mem_nil _)
        | cons m' ms =>
            obtain ⟨hne, hall, h', hp', hseq⟩ := @Outgoing.send_seqs env _ a session m _ hp
            obtain ⟨hne', hall', -⟩ := @Outgoing.send_seqs env _ a session m' _ hp'
            have step : (∀ s ∈ (newPayloads w (m.send env a session w)).map payloadSeq,
                ∀ s' ∈ (newPayloads (m.send env a session w)
                  (m'.send env a session (m.send env a session w))).map payloadSeq,
                s' = (s + 1) % 2 ^ 16) ↔ Counted m.data.length := by
              rw [← @afterMessage_next _ h.mseqS, ← hseq]
              constructor
              · intro hstep
                obtain ⟨p, hp⟩ := List.exists_mem_of_ne_nil _ hne
                obtain ⟨p', hp'⟩ := List.exists_mem_of_ne_nil _ hne'
                have found := hstep _ (List.mem_map_of_mem hp) _ (List.mem_map_of_mem hp')
                rwa [hall _ (List.mem_map_of_mem hp), hall' _ (List.mem_map_of_mem hp')] at found
              · intro heq s hs s' hs'
                rw [hall s hs, hall' s' hs', heq]
            rw [List.dropLast_cons_cons, List.forall_mem_cons, ← ih hp', ← step]
            exact List.isChain_cons_cons
  exact ⟨fun hc => next.mp hc.next, fun hall => ⟨messageSeqs_same a session ms hp, next.mpr hall⟩⟩

/-- A client that has sent its ClientHello. -/
def clientWaiting : World :=
  (runInputs sampleEnv [.app (.connect (sampleSession 0))] sampleWorld).2

theorem messageSeqs_consecutive_short :
    Consecutive (messageSeqs sampleEnv 0 (sampleSession 0)
      [⟨dtlsHtClientHello, List.replicate 1253 0, false⟩, ⟨dtlsHtFinished, [], false⟩]
      clientWaiting) := by
  obtain ⟨h, hp⟩ : ∃ h, (clientWaiting.heap 0).handshakeParams = some h :=
    Option.isSome_iff_exists.mp (by decide +kernel)
  refine (messageSeqs_consecutive 0 _ _ hp).mpr ?_
  decide +kernel

/-- A message of 1252 bytes and the one after it carry the same number. -/
theorem messageSeqs_repeated :
    ¬ ∀ (env : Env) (w : World) (a : Addr) (session : Session) (ms : List Outgoing)
      (h : HandshakeParameters), (w.heap a).handshakeParams = some h →
      Consecutive (messageSeqs env a session ms w) := by
  intro all
  obtain ⟨h, hp⟩ : ∃ h, (clientWaiting.heap 0).handshakeParams = some h :=
    Option.isSome_iff_exists.mp (by decide +kernel)
  have chain := (all sampleEnv clientWaiting 0 (sampleSession 0)
    [⟨dtlsHtClientHello, List.replicate 1252 0, false⟩, ⟨dtlsHtFinished, [], false⟩] h hp).next
  have seqs : messageSeqs sampleEnv 0 (sampleSession 0)
      [⟨dtlsHtClientHello, List.replicate 1252 0, false⟩, ⟨dtlsHtFinished, [], false⟩] clientWaiting
      = [[1], [1]] := by decide +kernel
  rw [seqs, List.isChain_cons_cons] at chain
  exact absurd (chain.1 1 (List.mem_singleton_self 1) 1 (List.mem_singleton_self 1)) (by decide)

/-- A short message without a hash is one fragment in one record. -/
theorem sendShort_eq {a : Addr} {s : SecurityParameters} {data : Bytes} (session : Session)
    (type : Nat)
    (hs : (w.heap a).security0 = some s) (hlen : data.length < dtlsMaxHsPayload) :
    ∃ t q tick, dtlsSendHandshakeMsgHash env (some a) session type data false w
        = (.ok (sentLength (wholeMessage type (nextSeq w (some a)) data)
              (sealed env.prims (w.heap a).role s dtlsCtHandshake
                (wholeMessage type (nextSeq w (some a)) data))
              (env.write tick session (sealed env.prims (w.heap a).role s dtlsCtHandshake
                (wholeMessage type (nextSeq w (some a)) data)))),
            (((w.countedMessage (some a)).counted a s).wrote session dtlsCtHandshake
              (wholeMessage type (nextSeq w (some a)) data)
              (sealed env.prims (w.heap a).role s dtlsCtHandshake
                (wholeMessage type (nextSeq w (some a)) data))).later t q) ∧
      (Owned w.sendqueue → Owned q) := by
  have size : dtlsMaxHsPayload = 1252 := rfl
  have max : dtlsMaxBuf = 30000 := rfl
  have security : dtlsSendHandshakeMsgHash env (some a) session type data false w
      = sendFragments env (some a) (some ⟨a, .zero⟩) session type data (data.length + 1)
          data.length 0 w := by
    have zero : (w.heap a).security0.map (fun _ => (⟨a, .zero⟩ : SecRef)) = some ⟨a, .zero⟩ := by
      rw [hs, Option.map_some]
    show (sendFragments env (some a) ((w.heap a).security0.map fun _ => ⟨a, .zero⟩) session type
      data (data.length + 1) data.length 0) w = _
    rw [zero]
  have pieces : [messageHeader type data.length (nextSeq w (some a)) 0 data.length, data].flatten
      = wholeMessage type (nextSeq w (some a)) data := by
    rw [List.flatten_cons, List.flatten_cons, List.flatten_nil, List.append_nil, wholeMessage]
  have counted : ((w.countedMessage (some a)).heap a).security0 = some s ∧
      ((w.countedMessage (some a)).heap a).role = (w.heap a).role ∧
      (w.countedMessage (some a)).sendqueue = w.sendqueue := by
    simp only [World.countedMessage]
    cases (w.heap a).handshakeParams with
    | none => exact ⟨hs, rfl, rfl⟩
    | some h =>
        simp only [heap_setPeer]
        exact ⟨hs, trivial, rfl⟩
  obtain ⟨t, q, tick, hrun, owned⟩ := @sendMulti_eq env _ _ _ session dtlsCtHandshake
    [messageHeader type data.length (nextSeq w (some a)) 0 data.length, data] counted.1
    (by rw [pieces, wholeMessage, List.length_append, length_messageHeader]; omega)
  rw [pieces, counted.2.1] at hrun
  rw [counted.2.2] at owned
  refine ⟨t, q, tick, ?_, owned⟩
  rw [security, sendFragments, Nat.sub_self, Nat.min_eq_left (Nat.le_of_lt hlen), List.drop_zero,
    List.take_length, decide_eq_true hlen, Program.bind_ok (setHandshakeHeader_eq _ _ _ _ _ _ _),
    if_pos rfl, Program.bind_ok hrun, Bool.true_or, if_pos rfl, zero_add]
  rfl

end PqDtls.Dtls
