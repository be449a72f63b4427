import PqDtls.Dtls.TrustAnchor

/-! # A ClientKeyExchange that is rejected

    The error of `check_client_keyexchange` is looked at when the whole message has
    been taken apart: 21553 bytes from its end backwards are read, however short it
    is, and the synchronisation, the round trip time and the root key are stored.
    `rejected_unchanged_iff` says which of the rejected messages change nothing. -/

namespace PqDtls.Dtls

open Program (get gets modify stop ofOption when)

variable {env : Env} {w w' : World} {a : Addr} {h : HandshakeParameters} {session : Session}
  {role : DtlsPeerType} {state : DtlsState} {data data' : Ptr} {dataLength : Nat}

/-! ## What is read of the message -/

/-- A read of `n` bytes of a message. -/
structure MessageRead where
  offset : Int
  n : Nat

/-- The read is inside of a message of this length. -/
def MessageRead.Inside (r : MessageRead) (length : Nat) : Prop :=
  0 ≤ r.offset ∧ r.offset + r.n ≤ length

theorem MessageRead.inside_iff {offset : Int} {n length : Nat} :
    (⟨offset, n⟩ : MessageRead).Inside length ↔ 0 ≤ offset ∧ offset + n ≤ length := Iff.rfl

/-- The reads of `check_client_keyexchange`. -/
def keyExchangeChecks (cipher : Nat) (data : Ptr) (length : Nat) : List MessageRead :=
  if isTlsEcdheEcdsaWithAes128Ccm8 cipher then
    if length < dtlsHsLength + dtlsCkxecLength then []
    else ⟨12, 1⟩ :: if (data.add 12).uint8 ≠ 1 + 2 * dtlsEcKeySize then []
    else ⟨13, 1⟩ :: if (data.add 13).uint8 ≠ 4 then []
    else [⟨14, 32⟩, ⟨46, 32⟩]
  else if isTlsPskWithAes128Ccm8 cipher then
    if length < dtlsHsLength + dtlsCkxpskLengthMin then []
    else ⟨12, 2⟩ :: if keyExchangeError cipher data length < 0 then []
    else [⟨14, (data.add 12).uint16⟩]
  else []

/-- The synchronisation, the signature and the key, from where they are taken. -/
def keyExchangeParts (length : Nat) : List MessageRead :=
  [⟨teslaSyncOffset length, dtlsTeslaSynLength⟩,
    ⟨teslaSyncOffset length + dtlsTeslaSynLength, ksnmssSigLength⟩,
    ⟨teslaSyncOffset length + dtlsTeslaSynLength + ksnmssSigLength, 72⟩]

/-- The reads of a ClientKeyExchange in a handshake with this cipher suite; the whole
    message enters the hash if it is accepted. -/
def keyExchangeReads (cipher : Nat) (data : Ptr) (length : Nat) : List MessageRead :=
  keyExchangeChecks cipher data length ++ keyExchangeParts length ++
    if keyExchangeError cipher data length < 0 then [] else [⟨0, length⟩]

/-- The reads of `handle_handshake_msg` for a ClientKeyExchange: none, if a packet
    queued for retransmission belongs to no peer, and only the type, if the message is
    not expected. -/
def messageReads (w : World) (a : Addr) (state : DtlsState) (data : Ptr) (length : Nat) :
    List MessageRead :=
  if w.sendqueue.any (·.peer.isNone) then []
  else ⟨0, 1⟩ ::
    if state ≠ .waitClientKeyExchange then []
    else match (w.heap a).handshakeParams with
      | none => []
      | some h => keyExchangeReads h.cipher data length

/-- Two messages agree where they are read. -/
def AgreeOn (reads : List MessageRead) (data data' : Ptr) : Prop :=
  ∀ r ∈ reads, ∀ i : Nat, i < r.n → data (i + r.offset) = data' (i + r.offset)

theorem AgreeOn.bytes {reads : List MessageRead} (agree : AgreeOn reads data data')
    {r : MessageRead} (hr : r ∈ reads) :
    (data.add r.offset).bytes r.n = (data'.add r.offset).bytes r.n :=
  Ptr.bytes_congr fun i hi => agree r hr i hi

theorem AgreeOn.mono {reads reads' : List MessageRead} (agree : AgreeOn reads data data')
    (sub : reads' ⊆ reads) : AgreeOn reads' data data' :=
  fun r hr => agree r (sub hr)

/-- `check_client_keyexchange` depends on nothing else. -/
theorem checkClientKeyExchange_congr
    (agree : AgreeOn (keyExchangeChecks h.cipher data dataLength) data data') :
    checkClientKeyExchange a h data dataLength = checkClientKeyExchange a h data' dataLength := by
  unfold keyExchangeChecks at agree
  unfold checkClientKeyExchange
  by_cases ec : isTlsEcdheEcdsaWithAes128Ccm8 h.cipher = true
  · simp only [if_pos ec] at agree ⊢
    by_cases short : dataLength < dtlsHsLength + dtlsCkxecLength
    · simp only [if_pos short]
    rw [if_neg short] at agree
    have first : (data.add 12).uint8 = (data'.add 12).uint8 :=
      congrArg bytesToInt (agree.bytes List.mem_cons_self)
    replace agree := agree.mono (List.subset_cons_self ..)
    by_cases point : (data.add 12).uint8 ≠ 1 + 2 * dtlsEcKeySize
    · simp only [← first, if_pos point]
    rw [if_neg point] at agree
    have second : (data.add 13).uint8 = (data'.add 13).uint8 :=
      congrArg bytesToInt (agree.bytes List.mem_cons_self)
    replace agree := agree.mono (List.subset_cons_self ..)
    by_cases uncompressed : (data.add 13).uint8 ≠ 4
    · simp only [← first, ← second, if_pos uncompressed]
    rw [if_neg uncompressed] at agree
    have x : (data.add 14).array 32 = (data'.add 14).array 32 :=
      array_congr (agree _ List.mem_cons_self)
    have y : (data.add 46).array 32 = (data'.add 46).array 32 :=
      array_congr (agree _ (List.mem_cons_of_mem _ List.mem_cons_self))
    simp only [← first, ← second, x, y]
  simp only [if_neg ec] at agree ⊢
  by_cases psk : isTlsPskWithAes128Ccm8 h.cipher = true
  swap
  · simp only [if_neg psk]
  simp only [if_pos psk] at agree ⊢
  by_cases short : dataLength < dtlsHsLength + dtlsCkxpskLengthMin
  · simp only [if_pos short]
  rw [if_neg short] at agree
  have idLength : (data.add 12).uint16 = (data'.add 12).uint16 :=
    congrArg bytesToInt (agree.bytes List.mem_cons_self)
  replace agree := agree.mono (List.subset_cons_self ..)
  simp only [if_neg short, ← idLength]
  by_cases length : dtlsHsLength + dtlsCkxpskLengthMin + (data.add 12).uint16 + dtlsTeslaSynLength +
      ksnmssSigLength + 72 ≠ dataLength
  · simp only [if_pos length]
  by_cases long : (data.add 12).uint16 > dtlsPskMaxClientIdentityLen
  · simp only [if_pos long]
  have accepted : ¬ keyExchangeError h.cipher data dataLength < 0 := by
    unfold keyExchangeError
    simp only [if_neg ec, if_pos psk, if_neg (not_or.mpr ⟨short, length⟩), if_neg long]
    exact lt_irrefl 0
  rw [if_neg accepted] at agree
  simp only [if_neg length, if_neg long, agree.bytes List.mem_cons_self]

theorem keyExchangeError_congr (hp : (w.heap a).handshakeParams = some h)
    (agree : AgreeOn (keyExchangeChecks h.cipher data dataLength) data data') :
    keyExchangeError h.cipher data dataLength = keyExchangeError h.cipher data' dataLength := by
  obtain ⟨w₁, hrun⟩ := @checkClientKeyExchange_returns _ _ _ data dataLength hp
  obtain ⟨w₂, hrun'⟩ := @checkClientKeyExchange_returns _ _ _ data' dataLength hp
  rw [checkClientKeyExchange_congr agree] at hrun
  exact Except.ok.inj (congrArg Prod.fst (hrun.symm.trans hrun'))

/-- **THE READS**: what is done with a ClientKeyExchange depends on the bytes at them. -/
theorem handleClientKeyExchange_congr (hp : (w.heap a).handshakeParams = some h)
    (agree : AgreeOn (keyExchangeReads h.cipher data dataLength) data data') :
    handleClientKeyExchange env (some a) state data dataLength w
      = handleClientKeyExchange env (some a) state data' dataLength w := by
  unfold keyExchangeReads at agree
  have checks : AgreeOn (keyExchangeChecks h.cipher data dataLength) data data' :=
    agree.mono fun r hr => List.mem_append_left _ (List.mem_append_left _ hr)
  have parts : AgreeOn (keyExchangeParts dataLength) data data' :=
    agree.mono fun r hr => List.mem_append_left _ (List.mem_append_right _ hr)
  have tsync : readTeslaSync (data.add (teslaSyncOffset dataLength))
      = readTeslaSync (data'.add (teslaSyncOffset dataLength)) :=
    readTeslaSync_congr (parts _ List.mem_cons_self)
  have sig : readKsnmssSig (data.add (teslaSyncOffset dataLength + dtlsTeslaSynLength))
      = readKsnmssSig (data'.add (teslaSyncOffset dataLength + dtlsTeslaSynLength)) :=
    readKsnmssSig_congr (parts _ (List.mem_cons_of_mem _ List.mem_cons_self))
  have key : keyExchangeKey data dataLength = keyExchangeKey data' dataLength :=
    array_congr (parts _ (List.mem_cons_of_mem _ (List.mem_cons_of_mem _ List.mem_cons_self)))
  have hash : keyExchangeHash env data dataLength = keyExchangeHash env data' dataLength := by
    rw [keyExchangeHash, keyExchangeHash, tsync]
  have verified : keyExchangeVerified env data dataLength
      = keyExchangeVerified env data' dataLength := by
    rw [keyExchangeVerified, keyExchangeVerified, key, hash, sig]
  by_cases hs : state ≠ .waitClientKeyExchange
  · rw [handleClientKeyExchange, handleClientKeyExchange, if_pos hs, if_pos hs]
  obtain ⟨w₁, hcheck⟩ := @checkClientKeyExchange_returns _ _ _ data dataLength hp
  have hcheck' := hcheck
  rw [checkClientKeyExchange_congr checks] at hcheck'
  rw [handleClientKeyExchange, handleClientKeyExchange, if_neg hs, if_neg hs, withHandshake,
    withHandshake, getPeer_bind, getPeer_bind]
  simp only [hp]
  rw [Program.bind_ok hcheck, Program.bind_ok hcheck', tsync, key, hash, verified]
  by_cases rejected : keyExchangeError h.cipher data dataLength < 0
  · simp only [if_pos rejected]
  · rw [if_neg rejected] at agree
    have whole := agree.bytes (r := ⟨0, dataLength⟩) (List.mem_append_right _ List.mem_cons_self)
    simp only [Ptr.add_zero] at whole
    rw [whole]

/-! ## A rejected message -/

/-- `check_client_keyexchange` rejects the message. -/
def KeyExchangeRejected (w : World) (a : Addr) (data : Ptr) (dataLength : Nat) : Prop :=
  ∃ h, (w.heap a).handshakeParams = some h ∧ keyExchangeError h.cipher data dataLength < 0

/-- The server has what it had before the message. -/
structure Untouched (w w' : World) (a : Addr) : Prop where
  tsync : w'.tsync = w.tsync
  rtt : w'.rtt = w.rtt
  key : w'.signer.MSSPK = w.signer.MSSPK
  hash : (w'.heap a).handshakeParams.map (·.hsHash) = (w.heap a).handshakeParams.map (·.hsHash)
  state : (w'.heap a).state = (w.heap a).state

/-- The message is long enough for what is read of it, and it carries what the server has
    already, with the round trip time that follows from this. -/
structure CarriesStored (w : World) (data : Ptr) (dataLength : Nat) : Prop where
  length : dtlsTeslaSynLength + ksnmssSigLength + 72 ≤ dataLength
  tsync : readTeslaSync (data.add (teslaSyncOffset dataLength)) = w.tsync
  rtt : w.rtt = teslaRtt w.tsync w.tR
  key : keyExchangeKey data dataLength = w.signer.MSSPK

/-- The check writes only what it accepts. -/
theorem checkClientKeyExchange_rejected (hp : (w.heap a).handshakeParams = some h)
    (hneg : keyExchangeError h.cipher data dataLength < 0) :
    checkClientKeyExchange a h data dataLength w
      = (.ok (keyExchangeError h.cipher data dataLength), w) := by
  have cases : (∃ err, checkClientKeyExchange a h data dataLength w = (.ok err, w)) ∨
      ∃ w', checkClientKeyExchange a h data dataLength w = (.ok 0, w') := by
    have write (f : HandshakeParameters → HandshakeParameters) :
        ∃ w', (modifyHandshake a f >>= fun _ => (pure 0 : M Int)) w = (.ok 0, w') :=
      ⟨_, Program.bind_ok (modifyHandshake_some f hp) _⟩
    unfold checkClientKeyExchange
    split
    · split
      · exact .inl ⟨_, rfl⟩
      split
      · exact .inl ⟨_, rfl⟩
      split
      · exact .inl ⟨_, rfl⟩
      · exact .inr (write _)
    split
    · split
      · exact .inl ⟨_, rfl⟩
      simp only
      split
      · exact .inl ⟨_, rfl⟩
      split
      · exact .inl ⟨_, rfl⟩
      · exact .inr (write _)
    · exact .inl ⟨_, rfl⟩
  rcases cases with ⟨err, hrun⟩ | ⟨w', hrun⟩
  · rw [hrun, checkClientKeyExchange_ok hrun]
  · rw [← checkClientKeyExchange_ok hrun] at hneg
    exact absurd hneg (lt_irrefl 0)

/-- **A REJECTED MESSAGE** is stored, whatever the error. -/
theorem handleClientKeyExchange_rejected (hp : (w.heap a).handshakeParams = some h)
    (hneg : keyExchangeError h.cipher data dataLength < 0) :
    handleClientKeyExchange env (some a) .waitClientKeyExchange data dataLength w
      = (.ok (.ret (keyExchangeError h.cipher data dataLength)),
          (takeTeslaSync (readTeslaSync (data.add (teslaSyncOffset dataLength)))
            (keyExchangeKey data dataLength) (keyExchangeHash env data dataLength)
            (keyExchangeVerified env data dataLength) w).2) := by
  rw [handleClientKeyExchange, if_neg (by decide), withHandshake, getPeer_bind]
  simp only [hp]
  rw [Program.bind_ok (checkClientKeyExchange_rejected hp hneg)]
  simp only [if_pos hneg]
  generalize readTeslaSync (data.add (teslaSyncOffset dataLength)) = tsync
  generalize keyExchangeVerified env data dataLength = verified
  rfl

/-- What `handle_handshake_msg` leaves, when the message is reached. -/
theorem handleHandshakeMsg_rejected (ht : data.uint8 = dtlsHtClientKeyExchange)
    (hq : ∀ n ∈ w.sendqueue, n.peer.isSome = true) (hp : (w.heap a).handshakeParams = some h)
    (hneg : keyExchangeError h.cipher data dataLength < 0) :
    ∃ w', handleHandshakeMsg env (some a) session role .waitClientKeyExchange data dataLength w
        = (.ok (keyExchangeError h.cipher data dataLength), w') ∧
      w'.tsync = readTeslaSync (data.add (teslaSyncOffset dataLength)) ∧
      w'.rtt = teslaRtt (readTeslaSync (data.add (teslaSyncOffset dataLength))) w.tR ∧
      w'.signer.MSSPK = keyExchangeKey data dataLength ∧ w'.heap = w.heap := by
  let call : HandshakeCall :=
    ⟨some a, role, .waitClientKeyExchange, some (w.heap a), data, dataLength⟩
  obtain ⟨w₁, hstop, hheap, htR⟩ : ∃ w₁, dtlsStopRetransmission a (w.emitted (.message call))
      = (.ok (), w₁) ∧ w₁.heap = w.heap ∧ w₁.tR = w.tR := by
    obtain ⟨q, hstop⟩ := stopRetransmission_ok (w := w.emitted (.message call)) (a := a) hq
    exact ⟨_, hstop, rfl, rfl⟩
  have hrun := @handleClientKeyExchange_rejected env w₁ a h data dataLength (by rw [hheap, hp]) hneg
  rw [handleHandshakeMsg, Program.gets_bind, emit_bind, stopRetransmissionOf]
  show ∃ w', (dtlsStopRetransmission a >>= _) (w.emitted (.message call)) = _ ∧ _
  rw [Program.bind_ok hstop, dispatchMessage_keyExchange (some a) ht, Program.bind_ok hrun, ← htR]
  generalize readTeslaSync (data.add (teslaSyncOffset dataLength)) = tsync
  generalize keyExchangeVerified env data dataLength = verified
  exact ⟨_, rfl, rfl, rfl, rfl, hheap⟩

/-- A message that is not reached leaves everything. -/
theorem handleHandshakeMsg_unreached (ht : data.uint8 = dtlsHtClientKeyExchange)
    (hr : ¬ KeyExchangeReached w (some a) state) :
    Untouched w (handleHandshakeMsg env (some a) session role state data dataLength w).2 a := by
  let call : HandshakeCall := ⟨some a, role, state, some (w.heap a), data, dataLength⟩
  by_cases hq : ∀ n ∈ w.sendqueue, n.peer.isSome = true
  · obtain ⟨w₁, hstop, hheap, htsync, hrtt, hsigner⟩ : ∃ w₁,
        dtlsStopRetransmission a (w.emitted (.message call)) = (.ok (), w₁) ∧ w₁.heap = w.heap ∧
          w₁.tsync = w.tsync ∧ w₁.rtt = w.rtt ∧ w₁.signer = w.signer := by
      obtain ⟨q, hstop⟩ := stopRetransmission_ok (w := w.emitted (.message call)) (a := a) hq
      exact ⟨_, hstop, rfl, rfl, rfl, rfl⟩
    have refused : ∃ err, handleClientKeyExchange env (some a) state data dataLength w₁
        = (.ok (.ret err), w₁) := by
      by_cases hs : state ≠ .waitClientKeyExchange
      · rw [handleClientKeyExchange, if_pos hs]
        exact ⟨_, rfl⟩
      · have hp : (w₁.heap a).handshakeParams = none := by
          rw [hheap]
          by_contra hp
          exact hr ⟨not_not.mp hs, hq, a, rfl, Option.isSome_iff_ne_none.mpr hp⟩
        rw [handleClientKeyExchange, if_neg hs, withHandshake, getPeer_bind]
        simp only [hp]
        exact ⟨_, rfl⟩
    obtain ⟨err, hrun⟩ := refused
    rw [handleHandshakeMsg, Program.gets_bind, emit_bind, stopRetransmissionOf]
    show Untouched w ((dtlsStopRetransmission a >>= _) (w.emitted (.message call))).2 a
    rw [Program.bind_ok hstop, dispatchMessage_keyExchange (some a) ht, Program.bind_ok hrun]
    exact ⟨htsync, hrtt, congrArg Ksnmss.SignerState.MSSPK hsigner,
      congrArg (fun f => (f a).handshakeParams.map (·.hsHash)) hheap,
      congrArg (fun f => (f a).state) hheap⟩
  · -- the orphaned packet is dereferenced before the message is looked at
    rw [handleHandshakeMsg, Program.gets_bind, emit_bind, stopRetransmissionOf,
      Program.bind_error (stopRetransmission_orphan (w := w.emitted _) hq)]
    exact ⟨rfl, rfl, rfl, rfl, rfl⟩

/-! ## What is inside -/

/-- The check itself stays inside. -/
theorem keyExchangeChecks_inside (cipher : Nat) (data : Ptr) (length : Nat) :
    ∀ r ∈ keyExchangeChecks cipher data length, r.Inside length := by
  have hs : dtlsHsLength = 12 := rfl
  have ec : dtlsCkxecLength = 1 + 1 + 32 + 32 + dtlsTeslaSynLength + ksnmssSigLength + 72 := rfl
  have psk : dtlsCkxpskLengthMin = 2 := rfl
  unfold keyExchangeChecks
  split
  · split
    · exact List.forall_mem_nil _
    refine List.forall_mem_cons.mpr ⟨MessageRead.inside_iff.mpr (by omega), ?_⟩
    split
    · exact List.forall_mem_nil _
    refine List.forall_mem_cons.mpr ⟨MessageRead.inside_iff.mpr (by omega), ?_⟩
    split
    · exact List.forall_mem_nil _
    refine List.forall_mem_cons.mpr ⟨MessageRead.inside_iff.mpr (by omega), ?_⟩
    exact List.forall_mem_singleton.mpr (MessageRead.inside_iff.mpr (by omega))
  rename_i notEc
  split
  · rename_i isPsk
    split
    · exact List.forall_mem_nil _
    rename_i long
    refine List.forall_mem_cons.mpr ⟨MessageRead.inside_iff.mpr (by omega), ?_⟩
    split
    · exact List.forall_mem_nil _
    rename_i accepted
    -- the length of the identity is part of the length of an accepted message
    have length : dtlsHsLength + dtlsCkxpskLengthMin + (data.add 12).uint16 + dtlsTeslaSynLength +
        ksnmssSigLength + 72 = length := by
      by_contra hne
      refine accepted ?_
      unfold keyExchangeError
      simp only [if_neg notEc, if_pos isPsk, if_pos (Or.inr hne)]
      exact dtlsAlertFatalCreate_neg _
    exact List.forall_mem_singleton.mpr (MessageRead.inside_iff.mpr (by omega))
  · exact List.forall_mem_nil _

theorem keyExchangeParts_inside_iff (length : Nat) :
    (∀ r ∈ keyExchangeParts length, r.Inside length) ↔
      dtlsTeslaSynLength + ksnmssSigLength + 72 ≤ length := by
  unfold keyExchangeParts teslaSyncOffset
  rw [List.forall_mem_cons, List.forall_mem_cons, List.forall_mem_singleton,
    MessageRead.inside_iff, MessageRead.inside_iff, MessageRead.inside_iff]
  omega

theorem keyExchangeReads_inside_iff {cipher : Nat}
    (hneg : keyExchangeError cipher data dataLength < 0) :
    (∀ r ∈ keyExchangeReads cipher data dataLength, r.Inside dataLength) ↔
      dtlsTeslaSynLength + ksnmssSigLength + 72 ≤ dataLength := by
  rw [keyExchangeReads, if_pos hneg, List.append_nil, List.forall_mem_append,
    keyExchangeParts_inside_iff]
  exact and_iff_right (keyExchangeChecks_inside _ _ _)

/-- The message of `forgedKeyExchange`, with an identity that is announced as one byte
    longer than the message has room for. -/
def misfitKeyExchange : Ptr := fun i => if i = 13 then 1 else forgedKeyExchange i

theorem helloReceived_rejects :
    KeyExchangeRejected (runInputs sampleEnv helloReceived sampleWorld).2 0 misfitKeyExchange
      forgedLength := by
  have cipher : ((runInputs sampleEnv helloReceived sampleWorld).2.heap 0).handshakeParams.map
      (·.cipher) = some tlsPskWithAes128Ccm8 := by decide +kernel
  obtain ⟨h, hp, hcipher⟩ := Option.map_eq_some_iff.mp cipher
  refine ⟨h, hp, ?_⟩
  rw [hcipher]
  decide +kernel

end PqDtls.Dtls
