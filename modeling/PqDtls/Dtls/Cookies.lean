import PqDtls.Dtls.Fragmentation

/-! # Cookies

    `dtls_verify_peer` is the gate in front of the state of a peer: 0 lets a
    ClientHello through.  Two parsers walk the message, and the return code of the
    second one is dropped; a 0 comes back from sending a HelloVerifyRequest, too.
    `verifyPeer_sound_iff` says for which messages a 0 means that the cookie was
    right. -/

namespace PqDtls.Dtls

open Program (get gets modify stop ofOption when)

variable {env : Env} {w : World} {peer : Option Addr} {session : Session} {state : DtlsState}
  {data : Ptr} {dataLength : Nat}

/-! ## What a HelloVerifyRequest is sent as -/

/-- The record for a payload to a peer that may be NULL or without parameters. -/
def sentRecord (C : Primitives) (peer : Option Peer) (type : Nat) (payload : Bytes) : Bytes :=
  match peer.bind fun p => p.security0.map fun s => (p.role, s) with
  | some (role, s) => sealed C role s type payload
  | none => sealed C .client dtlsSecurityNew type payload

theorem length_sentRecord (C : Primitives) (peer : Option Peer) (type : Nat) (payload : Bytes) :
    payload.length < (sentRecord C peer type payload).length := by
  have sealed_longer (role : DtlsPeerType) (s : SecurityParameters) :
      payload.length < (sealed C role s type payload).length := by
    rw [length_sealed]
    unfold sealedLength
    split <;> omega
  unfold sentRecord
  split
  · exact sealed_longer _ _
  · exact sealed_longer _ _

/-- Preparing the record of a payload that fits. -/
theorem prepareRecord_sent (peer : Option Addr) (type : Nat) (pieces : List Bytes)
    (h : pieces.flatten.length ≤ dtlsMaxBuf - 21) :
    ∃ w', dtlsPrepareRecord env peer (sendSecurity w peer) type pieces dtlsMaxBuf w
        = (.ok (.ok (sentRecord env.prims (peer.map w.heap) type pieces.flatten)), w') ∧
      w'.tick = w.tick := by
  have max : dtlsMaxBuf = 30000 := rfl
  have rh : dtlsRhLength = 13 := rfl
  -- without parameters the record has an empty header
  have plain (p : Option Peer) : fillRecord env.prims p none
      (dtlsIntToUint8 type ++ dtlsIntToUint16 dtlsVersion ++ List.replicate 10 0) pieces dtlsMaxBuf
      = .ok (sealed env.prims .client dtlsSecurityNew type pieces.flatten) := by
    rw [fillRecord, plainRecord, copyPieces_eq _ _ _ (by omega)]
    rfl
  cases peer with
  | none =>
      refine ⟨w, ?_, rfl⟩
      rw [dtlsPrepareRecord, if_neg (by decide)]
      exact congrArg (fun r => (Except.ok r, w)) (plain none)
  | some a =>
      cases hs : (w.heap a).security0 with
      | none =>
          refine ⟨w, ?_, rfl⟩
          simp only [sendSecurity, Option.bind_some, hs, Option.map_none, Option.map_some,
            sentRecord]
          rw [dtlsPrepareRecord, if_neg (by decide)]
          exact congrArg (fun r => (Except.ok r, w)) (plain _)
      | some s =>
          refine ⟨w.counted a s, ?_, rfl⟩
          simp only [sendSecurity, Option.bind_some, hs, Option.map_some, sentRecord]
          exact prepareRecord_eq type pieces hs h

/-- A packet that is not kept for retransmission: the callback is the next to be asked. -/
theorem sendMulti_unqueued (peer : Option Addr) (session : Session) (type : Nat)
    (pieces : List Bytes) (h : pieces.flatten.length ≤ dtlsMaxBuf - 21)
    (hq : mustQueue type pieces = false) :
    (dtlsSendMulti env peer (sendSecurity w peer) session type pieces w).1
      = .ok (sentLength pieces.flatten (sentRecord env.prims (peer.map w.heap) type pieces.flatten)
          (env.write w.tick session
            (sentRecord env.prims (peer.map w.heap) type pieces.flatten))) := by
  obtain ⟨w', hrun, htick⟩ := @prepareRecord_sent env w peer type pieces h
  rw [dtlsSendMulti, Program.bind_ok hrun]
  simp only
  rw [when, if_neg (by rw [hq]; exact Bool.false_ne_true), ← htick]
  rfl

theorem sentRecord_counted (C : Primitives) (w : World) (peer : Option Addr) (type : Nat)
    (payload : Bytes) :
    sentRecord C (peer.map (w.countedMessage peer).heap) type payload
      = sentRecord C (peer.map w.heap) type payload := by
  cases peer with
  | none => rfl
  | some a =>
      simp only [World.countedMessage]
      cases (w.heap a).handshakeParams with
      | none => rfl
      | some h => simp only [sentRecord, Option.map_some, heap_setPeer]; rfl

theorem tick_counted (w : World) (peer : Option Addr) : (w.countedMessage peer).tick = w.tick := by
  cases peer with
  | none => rfl
  | some a =>
      simp only [World.countedMessage]
      cases (w.heap a).handshakeParams <;> rfl

/-- What the callback is asked to write, and what is made of its answer. -/
theorem sendHelloVerify_eq (peer : Option Addr) (session : Session) (data : Bytes)
    (hlen : data.length < dtlsMaxHsPayload) :
    (dtlsSendHandshakeMsgHash env peer session dtlsHtHelloVerifyRequest data false w).1
      = .ok (sentLength (wholeMessage dtlsHtHelloVerifyRequest (nextSeq w peer) data)
          (sentRecord env.prims (peer.map w.heap) dtlsCtHandshake
            (wholeMessage dtlsHtHelloVerifyRequest (nextSeq w peer) data))
          (env.write w.tick session (sentRecord env.prims (peer.map w.heap) dtlsCtHandshake
            (wholeMessage dtlsHtHelloVerifyRequest (nextSeq w peer) data)))) := by
  have size : dtlsMaxHsPayload = 1252 := rfl
  have max : dtlsMaxBuf = 30000 := rfl
  have security : dtlsSendHandshakeMsgHash env peer session dtlsHtHelloVerifyRequest data false w
      = sendFragments env peer (sendSecurity w peer) session dtlsHtHelloVerifyRequest data
          (data.length + 1) data.length 0 w := by
    cases peer <;> rfl
  -- the message is one fragment, the last one
  have pieces : [messageHeader dtlsHtHelloVerifyRequest data.length (nextSeq w peer) 0 data.length,
      data].flatten = wholeMessage dtlsHtHelloVerifyRequest (nextSeq w peer) data := by
    rw [List.flatten_cons, List.flatten_cons, List.flatten_nil, List.append_nil]
    rfl
  have sent := @sendMulti_unqueued env (w.countedMessage peer) peer session
    dtlsCtHandshake [messageHeader dtlsHtHelloVerifyRequest data.length (nextSeq w peer) 0 data.length,
      data] (by rw [pieces, wholeMessage, List.length_append, length_messageHeader]; omega) rfl
  rw [pieces, sentRecord_counted, tick_counted, sendSecurity_counted] at sent
  rw [security, sendFragments, Nat.sub_self, Nat.min_eq_left (Nat.le_of_lt hlen),
    Program.bind_ok (setHandshakeHeader_eq _ _ _ _ _ _ _), List.drop_zero, List.take_length,
    decide_eq_true hlen, if_pos rfl]
  cases hrun : dtlsSendMulti env peer (sendSecurity w peer) session dtlsCtHandshake
      [messageHeader dtlsHtHelloVerifyRequest data.length (nextSeq w peer) 0 data.length, data]
      (w.countedMessage peer) with
  | mk r w' =>
      rw [hrun] at sent
      have sent : r = _ := sent
      subst sent
      rw [Program.bind_ok hrun, Bool.true_or, if_pos rfl]
      exact congrArg Except.ok (zero_add _)

/-! ## The cookie of a message -/

theorem cookieInput_length {msg : Ptr} {n : Nat} {input : Option Bytes}
    (h : cookieInput session msg n = .ok input) : n > dtlsHsLength + dtlsChLength := by
  unfold cookieInput at h
  simp only at h
  split at h
  · cases h
  · omega

theorem cookieInput_error {msg : Ptr} {n : Nat} {err : Int}
    (h : cookieInput session msg n = .error err) : err < 0 := by
  unfold cookieInput at h
  simp only at h
  split at h
  · cases h
    exact dtlsAlertFatalCreate_neg _
  split at h
  · cases h
    exact dtlsAlertFatalCreate_neg _
  split at h
  · cases h
  · cases h

/-- The client version of a ClientHello. -/
def helloVersion (msg : Ptr) : Nat := (msg.add dtlsHsLength).uint16

/-- Behind the checks of `dtls_create_cookie`, only the version is left for
    `dtls_get_cookie` to check. -/
theorem getCookie_of_input {input : Option Bytes}
    (h : cookieInput session data dataLength = .ok input) :
    (helloVersion data ≠ dtlsVersion → ∃ err, dtlsGetCookie data dataLength = .error err) ∧
      (helloVersion data = dtlsVersion → ∃ r, dtlsGetCookie data dataLength = .ok r) := by
  unfold cookieInput at h
  simp only at h
  split at h
  · cases h
  rename_i first
  split at h
  · cases h
  rename_i second
  have long : ¬ dataLength < dtlsHsLength + dtlsChLength + 1 := by omega
  unfold dtlsGetCookie helloVersion
  rw [if_neg long]
  constructor
  · intro hv
    rw [if_pos hv]
    exact ⟨_, rfl⟩
  · intro hv
    -- the field of the cookie lies where the first parser found it
    have behind : (data.add (dtlsHsLength + dtlsChLength)).add
        ((data.add (dtlsHsLength + dtlsChLength)).uint8 + 1)
        = data.add (dtlsHsLength + (dtlsChLength +
            ((data.add (dtlsHsLength + dtlsChLength)).uint8 + 1) : Nat)) := by
      rw [Ptr.add_add, Nat.cast_add, Nat.cast_add, Nat.cast_one, add_assoc]
    rw [if_neg (not_not.mpr hv), skipVarField, if_neg (by omega)]
    simp only [behind]
    rw [if_neg (by omega)]
    exact ⟨_, rfl⟩

/-- `cookie` is what `dtls_create_cookie` computes. -/
def CreatesCookie (env : Env) (w : World) (session : Session) (msg : Ptr) (msglen : Nat)
    (cookie : Bytes) : Prop :=
  (dtlsCreateCookie env session msg msglen w).1 = .ok (.ok cookie)

/-- The message parses, and carries the cookie of its session. -/
def CarriesCookie (env : Env) (w : World) (session : Session) (msg : Ptr) (msglen : Nat) : Prop :=
  ∃ cookie p, CreatesCookie env w session msg msglen cookie ∧
    dtlsGetCookie msg msglen = .ok (dtlsCookieLength, p) ∧ p.bytes dtlsCookieLength = cookie

/-- A cookie is computed and nothing else happens, or the message is not let through. -/
theorem createCookie_cases (env : Env) (w : World) (session : Session) (msg : Ptr) (msglen : Nat) :
    (∃ cookie input, cookieInput session msg msglen = .ok input ∧
        dtlsCreateCookie env session msg msglen w = (.ok (.ok cookie), w) ∧
        cookie.length = dtlsCookieLength) ∨
      (∃ err, dtlsCreateCookie env session msg msglen w = (.ok (.error err), w) ∧ err < 0) ∨
      dtlsCreateCookie env session msg msglen w = (.error .outOfBounds, w) := by
  unfold dtlsCreateCookie
  cases hin : cookieInput session msg msglen with
  | error err => exact .inr (.inl ⟨err, rfl, cookieInput_error hin⟩)
  | ok input =>
      cases input with
      | none => exact .inr (.inr rfl)
      | some input =>
          refine .inl ⟨_, _, rfl, rfl, ?_⟩
          rw [List.length_take, Vector.length_toList]
          rfl

/-! ## What a 0 means -/

/-- The HelloVerifyRequest with a cookie. -/
def verifyRequest (w : World) (peer : Option Addr) (cookie : Bytes) : Bytes :=
  wholeMessage dtlsHtHelloVerifyRequest (nextSeq w peer) (helloVerify cookie)

/-- The datagram with a HelloVerifyRequest. -/
def verifyDatagram (env : Env) (w : World) (peer : Option Addr) (cookie : Bytes) : Bytes :=
  sentRecord env.prims (peer.map w.heap) dtlsCtHandshake (verifyRequest w peer cookie)

/-- The number of bytes of a datagram that lie around the payload of its record. -/
def overhead (payload datagram : Bytes) : Int := (datagram.length : Int) - payload.length

theorem sentLength_eq_zero_iff {payload datagram : Bytes} {res : Int}
    (h : payload.length < datagram.length) :
    sentLength payload datagram res = 0 ↔ res = 0 ∨ res = overhead payload datagram := by
  unfold sentLength overhead
  split <;> omega

/-- The peer a HelloVerifyRequest is sent to. -/
def verifyTarget (peer : Option Addr) (state : DtlsState) : Option Addr :=
  if state = .connected then peer else none

/-- If a cookie is computed, the version is the one that is spoken here, and without the
    cookie the callback says that it wrote something of the answer. -/
def VerifiesPeer (env : Env) (w : World) (peer : Option Addr) (session : Session)
    (state : DtlsState) (data : Ptr) (dataLength : Nat) : Prop :=
  ∀ cookie, CreatesCookie env w session data dataLength cookie →
    helloVersion data = dtlsVersion ∧
      (CarriesCookie env w session data dataLength ∨
        env.write w.tick session (verifyDatagram env w (verifyTarget peer state) cookie) ≠ 0 ∧
        env.write w.tick session (verifyDatagram env w (verifyTarget peer state) cookie)
          ≠ overhead (verifyRequest w (verifyTarget peer state) cookie)
              (verifyDatagram env w (verifyTarget peer state) cookie))

/-- Where no cookie is computed, there is nothing to show on either side. -/
theorem verifyPeer_uncomputed {r : Except Crash (Except Int Bytes)}
    (hrun : dtlsCreateCookie env session data dataLength w = (r, w))
    (hr : ∀ cookie, r ≠ .ok (.ok cookie)) (hzero : r ≠ .ok (.error 0)) :
    (dtlsVerifyPeer env peer session state data dataLength w).1 ≠ .ok 0 ∧
      VerifiesPeer env w peer session state data dataLength := by
  refine ⟨fun h => ?_, fun cookie hc => ?_⟩
  · rw [dtlsVerifyPeer] at h
    cases r with
    | error e =>
        rw [Program.bind_error hrun] at h
        cases h
    | ok r =>
        rw [Program.bind_ok hrun] at h
        cases r with
        | error err =>
            cases h
            exact hzero rfl
        | ok cookie => exact hr cookie rfl
  · rw [CreatesCookie, hrun] at hc
    exact absurd hc (hr cookie)

/-- A message without the cookie is answered. -/
theorem verifyPeer_answered {cookie : Bytes} {r : Nat × Ptr}
    (hrun : dtlsCreateCookie env session data dataLength w = (.ok (.ok cookie), w))
    (hget : dtlsGetCookie data dataLength = .ok r)
    (hne : ¬ (r.1 = dtlsCookieLength ∧ r.2.bytes r.1 = cookie))
    (hlen : cookie.length = dtlsCookieLength) :
    (dtlsVerifyPeer env peer session state data dataLength w).1
      = .ok (sentLength (verifyRequest w (verifyTarget peer state) cookie)
          (verifyDatagram env w (verifyTarget peer state) cookie)
          (env.write w.tick session
            (verifyDatagram env w (verifyTarget peer state) cookie))) := by
  have short : (helloVerify cookie).length < dtlsMaxHsPayload := by
    rw [helloVerify, List.length_append, List.length_append, hlen]
    decide
  rw [dtlsVerifyPeer, Program.bind_ok hrun]
  simp only [hget]
  rw [if_neg hne]
  exact sendHelloVerify_eq (verifyTarget peer state) session (helloVerify cookie) short

/-- **COOKIES**: a ClientHello is let through only with the cookie of its session exactly
    when, if its cookie can be computed, its version is right and the answer to a wrong
    cookie is not taken for a 0. -/
theorem verifyPeer_sound_iff (env : Env) (w : World) (peer : Option Addr) (session : Session)
    (state : DtlsState) (data : Ptr) (dataLength : Nat) :
    ((dtlsVerifyPeer env peer session state data dataLength w).1 = .ok 0 →
        CarriesCookie env w session data dataLength) ↔
      VerifiesPeer env w peer session state data dataLength := by
  rcases createCookie_cases env w session data dataLength with
    ⟨cookie, input, hin, hrun, hlen⟩ | ⟨err, hrun, herr⟩ | hrun
  · have created : CreatesCookie env w session data dataLength cookie := by
      rw [CreatesCookie, hrun]
    have unique {c : Bytes} (hc : CreatesCookie env w session data dataLength c) : c = cookie := by
      rw [CreatesCookie, hrun] at hc
      cases hc
      rfl
    by_cases hv : helloVersion data = dtlsVersion
    · obtain ⟨r, hget⟩ := (getCookie_of_input hin).2 hv
      by_cases heq : r.1 = dtlsCookieLength ∧ r.2.bytes r.1 = cookie
      · have carries : CarriesCookie env w session data dataLength := by
          obtain ⟨len, p⟩ := r
          obtain ⟨rfl, hp⟩ := heq
          exact ⟨cookie, p, created, hget, hp⟩
        exact ⟨fun _ _ _ => ⟨hv, .inl carries⟩, fun _ _ => carries⟩
      · have without : ¬ CarriesCookie env w session data dataLength := by
          rintro ⟨c, p, hc, hp, hbytes⟩
          cases unique hc
          rw [hget] at hp
          cases hp
          exact heq ⟨rfl, hbytes⟩
        have zero := @sentLength_eq_zero_iff _ _ (env.write w.tick session
          (verifyDatagram env w (verifyTarget peer state) cookie))
          (length_sentRecord env.prims ((verifyTarget peer state).map w.heap) dtlsCtHandshake
            (verifyRequest w (verifyTarget peer state) cookie))
        rw [verifyPeer_answered hrun hget heq hlen, Except.ok.injEq]
        constructor
        · intro h c hc
          cases unique hc
          refine ⟨hv, .inr ?_⟩
          exact not_or.mp fun h0 => without (h (zero.mpr h0))
        · intro h h0
          rcases (h cookie created).2 with carries | ⟨h1, h2⟩
          · exact carries
          · exact absurd (zero.mp h0) (not_or.mpr ⟨h1, h2⟩)
    · -- the error of the second parser is dropped
      obtain ⟨err, hget⟩ := (getCookie_of_input hin).1 hv
      have passes : (dtlsVerifyPeer env peer session state data dataLength w).1 = .ok 0 := by
        rw [dtlsVerifyPeer, Program.bind_ok hrun]
        simp only [hget]
        rfl
      refine ⟨fun h => ?_, fun h => absurd (h cookie created).1 hv⟩
      obtain ⟨c, p, -, hp, -⟩ := h passes
      rw [hget] at hp
      cases hp
  · have h := @verifyPeer_uncomputed env w peer session state data dataLength _ hrun
      (fun _ => nofun) (fun h => by cases h; exact lt_irrefl 0 herr)
    exact ⟨fun _ => h.2, fun _ h0 => absurd h0 h.1⟩
  · have h := @verifyPeer_uncomputed env w peer session state data dataLength _ hrun
      (fun _ => nofun) nofun
    exact ⟨fun _ => h.2, fun _ h0 => absurd h0 h.1⟩

/-- A ClientHello of the version before, without a cookie. -/
def oldHello : Ptr :=
  Ptr.ofBytes (wholeMessage dtlsHtClientHello 0
    (dtlsIntToUint16 0xfeff ++ List.replicate 32 0 ++ [0, 0] ++
      dtlsIntToUint16 2 ++ dtlsIntToUint16 tlsPskWithAes128Ccm8 ++ [1, 0]))

/-- It is let through. -/
theorem verifyPeer_unsound :
    ¬ ∀ (env : Env) (w : World) (peer : Option Addr) (session : Session) (state : DtlsState)
        (data : Ptr) (dataLength : Nat),
        (dtlsVerifyPeer env peer session state data dataLength w).1 = .ok 0 →
          CarriesCookie env w session data dataLength := by
  intro h
  obtain ⟨cookie, p, -, hget, -⟩ := h sampleEnv sampleWorld none (sampleSession 0)
    .waitClientHello oldHello 54 rfl
  have fails : dtlsGetCookie oldHello 54 = .error (dtlsAlertFatalCreate .protocolVersion) := by
    rw [dtlsGetCookie, if_neg (by decide), if_pos (by decide)]
  rw [fails] at hget
  cases hget

end PqDtls.Dtls
