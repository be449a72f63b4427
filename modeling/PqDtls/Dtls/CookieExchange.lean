import PqDtls.Dtls.Cookies
import PqDtls.Dtls.Codec

/-! # The cookie exchange

    `dtls_create_cookie` reads the lengths of the session id and of the cookie
    before it compares them with the length of the message, and the number of bytes
    it hashes last is computed from the header.  `cookieReads_inside_iff` says for
    which messages it stays inside.  A ClientHello of a client is such a message, and
    its cookie depends neither on the header nor on the cookie in it: the second
    ClientHello of an exchange is let through (`cookie_complete`). -/

namespace PqDtls.Dtls

open Program (get gets modify stop ofOption when)

variable {client server env : Env} {w : World} {session : Session} {data : Ptr} {dataLength : Nat}

/-! ## What is read of the message -/

/-- A read of `n` bytes of the message; `hashed` for those given to `dtls_hmac_update`. -/
structure CookieRead where
  offset : Nat
  n : Nat
  hashed : Bool

/-- The offset behind the session id, counted from the end of the handshake header. -/
def sessionIdEnd (msg : Ptr) : Nat :=
  dtlsChLength + ((msg.add (dtlsHsLength + dtlsChLength)).uint8 + 1)

/-- The offset behind the cookie. -/
def cookieEnd (msg : Ptr) : Nat :=
  sessionIdEnd msg + (msg.add (dtlsHsLength + sessionIdEnd msg)).uint8 + 1

/-- The reads of `dtls_create_cookie`, in order. -/
def cookieReads (msg : Ptr) (msglen : Nat) : List CookieRead :=
  ⟨dtlsHsLength + dtlsChLength, 1, false⟩ ::
    if sessionIdEnd msg + dtlsHsLength > msglen then []
    else ⟨dtlsHsLength, sessionIdEnd msg, true⟩ :: ⟨dtlsHsLength + sessionIdEnd msg, 1, false⟩ ::
      if cookieEnd msg + dtlsHsLength > msglen then []
      else [⟨9, 3, false⟩, ⟨dtlsHsLength + cookieEnd msg,
        sizeT (((handshakeHeader msg).fragmentLength : Int) - cookieEnd msg), true⟩]

/-- The read is inside of a message of `msglen` bytes. -/
def CookieRead.Inside (r : CookieRead) (msglen : Nat) : Prop := r.offset + r.n ≤ msglen

theorem fragmentLength_lt (msg : Ptr) : (handshakeHeader msg).fragmentLength < 2 ^ 24 := by
  have lt := bytesToInt_lt ((msg.add 9).bytes 3)
  rw [Ptr.length_bytes] at lt
  exact lt

theorem cookieEnd_le (msg : Ptr) : cookieEnd msg ≤ 2 ^ 16 := by
  have short (p : Ptr) : p.uint8 < 256 := by
    have lt := bytesToInt_lt (p.bytes 1)
    rwa [Ptr.length_bytes] at lt
  have h₁ := short (msg.add (dtlsHsLength + dtlsChLength))
  have h₂ := short (msg.add (dtlsHsLength + sessionIdEnd msg))
  have ch : dtlsChLength = 34 := rfl
  unfold cookieEnd
  unfold sessionIdEnd at h₂ ⊢
  omega

/-- What is hashed is the session and the bytes of these reads. -/
theorem cookieInput_reads {msg : Ptr} {msglen : Nat} {input : Bytes}
    (h : cookieInput session msg msglen = .ok (some input)) :
    input = session.toList ++ ((cookieReads msg msglen).filter (·.hashed)).flatMap fun r =>
      (msg.add r.offset).bytes r.n := by
  have start : cookieInput session msg msglen =
      if sessionIdEnd msg + dtlsHsLength > msglen then
        .error (dtlsAlertFatalCreate .handshakeFailure)
      else if cookieEnd msg + dtlsHsLength > msglen then
        .error (dtlsAlertFatalCreate .handshakeFailure)
      else if (handshakeHeader msg).fragmentLength < cookieEnd msg then .ok none
      else .ok (some (session.toList ++ (msg.add dtlsHsLength).bytes (sessionIdEnd msg) ++
        (msg.add (dtlsHsLength + cookieEnd msg)).bytes
          ((handshakeHeader msg).fragmentLength - cookieEnd msg))) := rfl
  rw [start] at h
  by_cases h₁ : sessionIdEnd msg + dtlsHsLength > msglen
  · rw [if_pos h₁] at h
    cases h
  by_cases h₂ : cookieEnd msg + dtlsHsLength > msglen
  · rw [if_neg h₁, if_pos h₂] at h
    cases h
  by_cases h₃ : (handshakeHeader msg).fragmentLength < cookieEnd msg
  · rw [if_neg h₁, if_neg h₂, if_pos h₃] at h
    cases h
  · rw [if_neg h₁, if_neg h₂, if_neg h₃] at h
    cases h
    have small := fragmentLength_lt msg
    have size : sizeT (((handshakeHeader msg).fragmentLength : Int) - cookieEnd msg)
        = (handshakeHeader msg).fragmentLength - cookieEnd msg := by
      rw [← Nat.cast_sub (not_lt.mp h₃)]
      exact sizeT_natCast (by omega)
    rw [cookieReads, if_neg h₁, if_neg h₂, size]
    simp

/-- The message ends behind the length of its session id; if the session id fits, behind
    the length of its cookie; and if the cookie fits, behind the fragment its header
    announces, which ends behind the cookie. -/
def CookieFits (msg : Ptr) (msglen : Nat) : Prop :=
  dtlsHsLength + dtlsChLength < msglen ∧
    (dtlsHsLength + sessionIdEnd msg ≤ msglen → dtlsHsLength + sessionIdEnd msg < msglen ∧
      (dtlsHsLength + cookieEnd msg ≤ msglen →
        cookieEnd msg ≤ (handshakeHeader msg).fragmentLength ∧
          dtlsHsLength + (handshakeHeader msg).fragmentLength ≤ msglen))

/-- **READING A HELLO**: the reads for a cookie are inside of the message exactly when the
    announced lengths fit it. -/
theorem cookieReads_inside_iff (msg : Ptr) {msglen : Nat} (h : msglen < 2 ^ 64) :
    (∀ r ∈ cookieReads msg msglen, r.Inside msglen) ↔ CookieFits msg msglen := by
  have hs : dtlsHsLength = 12 := rfl
  have ch : dtlsChLength = 34 := rfl
  unfold cookieReads CookieFits
  rw [List.forall_mem_cons]
  by_cases h₁ : sessionIdEnd msg + dtlsHsLength > msglen
  · rw [if_pos h₁]
    simp only [CookieRead.Inside, List.not_mem_nil, false_imp_iff, implies_true, and_true]
    omega
  rw [if_neg h₁, List.forall_mem_cons, List.forall_mem_cons]
  by_cases h₂ : cookieEnd msg + dtlsHsLength > msglen
  · rw [if_pos h₂]
    simp only [CookieRead.Inside, List.not_mem_nil, false_imp_iff, implies_true, and_true]
    omega
  rw [if_neg h₂, List.forall_mem_cons, List.forall_mem_singleton]
  simp only [CookieRead.Inside]
  have small := fragmentLength_lt msg
  have near := cookieEnd_le msg
  -- a negative difference is larger than every message
  by_cases h₃ : cookieEnd msg ≤ (handshakeHeader msg).fragmentLength
  · have size : sizeT (((handshakeHeader msg).fragmentLength : Int) - cookieEnd msg)
        = (handshakeHeader msg).fragmentLength - cookieEnd msg := by
      rw [← Nat.cast_sub h₃]
      exact sizeT_natCast (by omega)
    rw [size]
    have before : sessionIdEnd msg < cookieEnd msg := by
      unfold cookieEnd
      omega
    have behind : dtlsChLength < sessionIdEnd msg := by
      unfold sessionIdEnd
      omega
    omega
  · have size : 2 ^ 64 ≤ sizeT (((handshakeHeader msg).fragmentLength : Int) - cookieEnd msg)
        + cookieEnd msg := by
      unfold sizeT
      omega
    omega

theorem cookieReads_inside_hello :
    (∀ r ∈ cookieReads oldHello 54, r.Inside 54) ↔ CookieFits oldHello 54 :=
  cookieReads_inside_iff oldHello (by decide)

/-- A ClientHello that is a header only. -/
def bareHello : Ptr := Ptr.ofBytes (wholeMessage dtlsHtClientHello 0 [])

/-- Its session id is looked for behind its end. -/
theorem cookieReads_outside :
    ¬ ∀ (msg : Ptr) (msglen : Nat), dtlsHsLength ≤ msglen → msglen < 2 ^ 64 →
      (handshakeHeader msg).msgType = dtlsHtClientHello →
        ∀ r ∈ cookieReads msg msglen, r.Inside msglen := by
  intro h
  have inside := h bareHello 12 le_rfl (by decide) (by decide) _ (List.mem_cons_self ..)
  exact absurd inside (by unfold CookieRead.Inside; decide)

/-! ## A hello in memory -/

/-- A number that fits. -/
theorem Ptr.Holds.number {p : Ptr} {n v : Nat} (h : p.Holds (intToBytes n v))
    (hv : v < 256 ^ n) : bytesToInt (p.bytes n) = v := by
  rw [number_of_holds h, Nat.mod_eq_of_lt hv]

/-- A ClientHello up to its session id, which is empty. -/
def helloStart (h : HandshakeParameters) : Bytes :=
  dtlsIntToUint16 dtlsVersion ++ h.randomClient ++ dtlsIntToUint8 0

/-- A ClientHello from its cipher suites on. -/
def helloTail (env : Env) : Bytes :=
  dtlsIntToUint16 (offeredSuites env).length ++ offeredSuites env ++ [1] ++
    [UInt8.ofNat tlsCompressionNull] ++
    (if isEcdsaSupported env true then clientHelloExtensions else [])

theorem clientHello_eq (env : Env) (h : HandshakeParameters) (cookie : Bytes) :
    clientHello env h cookie
      = helloStart h ++ (dtlsIntToUint8 cookie.length ++ (cookie ++ helloTail env)) := by
  simp only [clientHello, helloStart, helloTail, List.append_assoc]
  rfl

theorem length_randomClient (h : HandshakeParameters) : h.randomClient.length = 32 := by
  rw [HandshakeParameters.randomClient, List.length_take, Vector.length_toList]
  rfl

theorem length_helloStart (h : HandshakeParameters) : (helloStart h).length = 35 := by
  simp only [helloStart, List.length_append, dtlsIntToUint16, dtlsIntToUint8, length_intToBytes,
    length_randomClient]

theorem length_helloTail_le (env : Env) : (helloTail env).length ≤ 36 := by
  unfold helloTail offeredSuites
  cases isEcdsaSupported env true <;> cases isPskSupported env <;> decide

theorem length_clientHello_eq (env : Env) (h : HandshakeParameters) (cookie : Bytes) :
    (clientHello env h cookie).length = 36 + cookie.length + (helloTail env).length := by
  simp only [clientHello_eq, List.length_append, length_helloStart, dtlsIntToUint8,
    length_intToBytes]
  omega

/-- What the parsers find in a ClientHello. -/
structure HelloFields (env : Env) (h : HandshakeParameters) (cookie : Bytes) (data : Ptr) :
    Prop where
  fragmentLength : (handshakeHeader data).fragmentLength = (clientHello env h cookie).length
  version : helloVersion data = dtlsVersion
  sessionId : sessionIdEnd data = 35
  cookieOffset : cookieEnd data = 36 + cookie.length
  start : (data.add 12).Holds (helloStart h)
  cookieLength : (data.add 47).uint8 = cookie.length
  cookieBytes : (data.add 48).Holds cookie
  tail : (data.add (48 + cookie.length : Nat)).Holds (helloTail env)

theorem helloFields {h : HandshakeParameters} {cookie : Bytes} {seq : Nat}
    (hd : data.Holds (wholeMessage dtlsHtClientHello seq (clientHello env h cookie)))
    (hc : cookie.length ≤ dtlsCookieLengthMax) : HelloFields env h cookie data := by
  have max : dtlsCookieLengthMax = 32 := rfl
  have length := length_clientHello_eq env h cookie
  have tail := length_helloTail_le env
  have header := hd.first
  have body : (data.add 12).Holds (clientHello env h cookie) := hd.next (length_messageHeader ..)
  rw [clientHello_eq] at body
  have start := body.first
  have field := body.next (length_helloStart h)
  rw [Ptr.add_add] at field
  have cookieLength : (data.add 47).uint8 = cookie.length :=
    field.first.number (by omega)
  have behind := field.next (length_intToBytes 1 cookie.length)
  rw [Ptr.add_add] at behind
  have sessionId : (data.add 46).uint8 = 0 := by
    have zero := (start.next (n := 34) (by
      simp only [List.length_append, dtlsIntToUint16, length_intToBytes, length_randomClient])).number
        (by decide)
    rwa [Ptr.add_add] at zero
  have idEnd : sessionIdEnd data = 35 := congrArg (fun n => 34 + (n + 1)) sessionId
  have cookieOffset : cookieEnd data = 36 + cookie.length := by
    rw [cookieEnd, idEnd]
    show 35 + (data.add 47).uint8 + 1 = _
    rw [cookieLength]
    omega
  refine ⟨?_, ?_, idEnd, cookieOffset, start, cookieLength, behind.first, ?_⟩
  · exact (header.next (n := 9) rfl).number (by omega)
  · rw [helloStart, List.append_assoc] at start
    exact start.first.number (by decide)
  · have last := behind.next (n := cookie.length) rfl
    rw [Ptr.add_add] at last
    convert last using 2
    omega

/-- What a cookie is computed over: nothing of the header and nothing of the cookie. -/
def helloInput (env : Env) (session : Session) (h : HandshakeParameters) : Bytes :=
  session.toList ++ helloStart h ++ helloTail env

section Fields

variable {h : HandshakeParameters} {cookie : Bytes} (fields : HelloFields env h cookie data)

include fields

/-- **INDEPENDENCE**: the input of a cookie is that of every ClientHello of the handshake. -/
theorem HelloFields.cookieInput_eq (session : Session) :
    cookieInput session data (12 + (clientHello env h cookie).length)
      = .ok (some (helloInput env session h)) := by
  have length := length_clientHello_eq env h cookie
  have rest : (clientHello env h cookie).length - (36 + cookie.length) = (helloTail env).length := by
    omega
  have parse : cookieInput session data (12 + (clientHello env h cookie).length) =
      if sessionIdEnd data + 12 > 12 + (clientHello env h cookie).length then
        .error (dtlsAlertFatalCreate .handshakeFailure)
      else if cookieEnd data + 12 > 12 + (clientHello env h cookie).length then
        .error (dtlsAlertFatalCreate .handshakeFailure)
      else if (handshakeHeader data).fragmentLength < cookieEnd data then .ok none
      else .ok (some (session.toList ++ (data.add 12).bytes (sessionIdEnd data) ++
        (data.add (12 + cookieEnd data)).bytes
          ((handshakeHeader data).fragmentLength - cookieEnd data))) := rfl
  have start : (data.add 12).bytes 35 = helloStart h := by
    have start := fields.start
    rwa [Ptr.Holds, length_helloStart] at start
  have tail : (data.add (12 + (36 + cookie.length : Nat))).bytes (helloTail env).length
      = helloTail env := by
    have offset : (12 : Int) + (36 + cookie.length : Nat) = (48 + cookie.length : Nat) := by omega
    rw [offset]
    exact fields.tail
  rw [parse, fields.sessionId, fields.cookieOffset, fields.fragmentLength, if_neg (by omega),
    if_neg (by omega), if_neg (by omega), rest, start, tail]
  rfl

theorem HelloFields.getCookie_eq :
    dtlsGetCookie data (12 + (clientHello env h cookie).length)
      = .ok (cookie.length, data.add 48) := by
  have length := length_clientHello_eq env h cookie
  have hs : dtlsHsLength = 12 := rfl
  have ch : dtlsChLength = 34 := rfl
  have sessionId : (data.add (12 + 34)).uint8 = 0 := by
    have sessionId := fields.sessionId
    unfold sessionIdEnd at sessionId
    exact Nat.succ.inj (Nat.add_left_cancel sessionId)
  have skip : skipVarField (data.add (dtlsHsLength + dtlsChLength))
      (12 + (clientHello env h cookie).length - (dtlsHsLength + dtlsChLength))
      = some (data.add 47, (clientHello env h cookie).length - 35) := by
    show skipVarField (data.add (12 + 34)) (12 + (clientHello env h cookie).length - 46) = _
    rw [skipVarField, sessionId, if_neg (by omega), Ptr.add_add]
    exact congrArg (fun n => some (data.add 47, n)) (by omega)
  have version : ¬ (data.add dtlsHsLength).uint16 ≠ dtlsVersion := not_not.mpr fields.version
  rw [dtlsGetCookie, if_neg (by omega), if_neg version, skip]
  simp only [fields.cookieLength]
  rw [if_neg (by omega), Ptr.add_add]
  rfl

end Fields

/-! ## The exchange -/

/-- A step that returns, and hands one handshake message to the write callback. -/
def Sends (step : M Int) (w : World) (message : Bytes) (w' : World) : Prop :=
  ∃ r, step w = (.ok r, w') ∧
    sentPayloads dtlsCtHandshake w'.log = message :: sentPayloads dtlsCtHandshake w.log

theorem fragments_short (type seq : Nat) {data : Bytes} (h : data.length < dtlsMaxHsPayload) :
    fragments type seq data (data.length + 1) data.length = [wholeMessage type seq data] := by
  rw [fragments, if_pos (.inl h), Nat.min_eq_left (Nat.le_of_lt h), Nat.sub_self, List.drop_zero,
    List.take_length, wholeMessage]

/-- The handshake at `a` has the client random of `h`. -/
def SameRandom (a : Addr) (h : HandshakeParameters) (w : World) : Prop :=
  ∃ h', (w.heap a).handshakeParams = some h' ∧ h'.randomClient = h.randomClient

section Random

variable {a : Addr} {h : HandshakeParameters}

theorem SameRandom.hashed (same : SameRandom a h w) (message : Bytes) :
    SameRandom a h (w.hashed (some a) message) := by
  obtain ⟨h', hp, hrandom⟩ := same
  refine ⟨{ h' with hsHash := h'.hsHash ++ message }, ?_, hrandom⟩
  simp only [World.hashed, hp, heap_setPeer]

theorem SameRandom.counted (same : SameRandom a h w) :
    SameRandom a h (w.countedMessage (some a)) := by
  obtain ⟨h', hp, hrandom⟩ := same
  refine ⟨{ h' with mseqS := (h'.mseqS + 1) % 2 ^ 16 }, ?_, hrandom⟩
  simp only [World.countedMessage, hp, heap_setPeer]

/-- A short message is sent in one piece, and the client random stays. -/
theorem sendShort (session : Session) (type : Nat) {data : Bytes} (addHash : Bool)
    (same : SameRandom a h w) (hlen : data.length < dtlsMaxHsPayload) :
    ∃ seq w', Sends (dtlsSendHandshakeMsgHash env (some a) session type data addHash) w
        (wholeMessage type seq data) w' ∧ SameRandom a h w' := by
  have ⟨h', hp, _⟩ := same
  obtain ⟨r, w', hrun, hsent, after⟩ := @sendHandshakeMsgHash_eq env (some a) session type data
    addHash w fun _ => ⟨a, h', rfl, hp⟩
  rw [fragments_short _ _ hlen] at hsent
  refine ⟨_, w', ⟨r, hrun, hsent⟩, ?_⟩
  have hashed : SameRandom a h (if addHash = true then
      w.hashed (some a) (wholeMessage type (nextSeq w (some a)) data) else w) := by
    cases addHash with
    | false => exact same
    | true => exact same.hashed _
  simp only at after
  by_cases hc : Counted data.length
  · rw [if_pos hc] at after
    obtain ⟨h₁, hp₁, hrandom⟩ := hashed.counted
    exact ⟨h₁, (after a).trans hp₁, hrandom⟩
  · rw [if_neg hc] at after
    obtain ⟨h₁, hp₁, hrandom⟩ := hashed
    exact ⟨h₁, (after a).trans hp₁, hrandom⟩

theorem helloStart_same {h' : HandshakeParameters} (hrandom : h'.randomClient = h.randomClient) :
    helloStart h' = helloStart h := by
  rw [helloStart, helloStart, hrandom]

/-- Behind the checks of `dtls_send_client_hello`. -/
theorem sendHello (session : Session) (same : SameRandom a h w) {cookie : Bytes}
    (hc : cookie.length ≤ dtlsCookieLengthMax) :
    ∃ seq w', Sends (do
        let h ← getHandshake a
        let buf := clientHello env h cookie
        assertThat (buf.length ≤ dtlsChLengthMax)
        when (cookie.length ≠ 0) (clearHsHash a)
        dtlsSendHandshakeMsgHash env (some a) session dtlsHtClientHello buf
          (cookie.length ≠ 0)) w
      (wholeMessage dtlsHtClientHello seq (clientHello env h cookie)) w' ∧ SameRandom a h w' := by
  have ⟨h', hp, hrandom⟩ := same
  have max : dtlsCookieLengthMax = 32 := rfl
  have chMax : dtlsChLengthMax = 104 := rfl
  have size : dtlsMaxHsPayload = 1252 := rfl
  have length := length_clientHello_eq env h cookie
  have tail := length_helloTail_le env
  have hello : clientHello env h' cookie = clientHello env h cookie := by
    rw [clientHello_eq, clientHello_eq, helloStart_same hrandom]
  have get : getHandshake a w = (.ok h', w) := by
    rw [getHandshake, getPeer_bind, hp]
    rfl
  -- the hash of the handshake starts over with the second hello
  have cleared : ∃ w₁, when (cookie.length ≠ 0) (clearHsHash a) w = (.ok (), w₁) ∧
      w₁.log = w.log ∧ SameRandom a h w₁ := by
    by_cases hne : cookie.length ≠ 0
    · rw [when, if_pos hne]
      refine ⟨_, modifyHandshake_some _ hp, rfl, { h' with hsHash := [] }, ?_, hrandom⟩
      rw [heap_setPeer]
    · rw [when, if_neg hne]
      exact ⟨w, rfl, rfl, same⟩
  obtain ⟨w₁, hrun, hlog, same₁⟩ := cleared
  obtain ⟨seq, w', ⟨r, hsend, hsent⟩, same'⟩ := @sendShort env w₁ a h session dtlsHtClientHello
    (clientHello env h cookie) (cookie.length ≠ 0) same₁ (by omega)
  refine ⟨seq, w', ⟨r, ?_, by rw [hsent, hlog]⟩, same'⟩
  rw [Program.bind_ok get, hello, assertThat, if_pos (by omega), pure_bind, Program.bind_ok hrun]
  exact hsend

end Random

/-- The cookie of a server with this secret. -/
def cookieOf (env : Env) (secret input : Bytes) : Bytes :=
  (dtlsHmac env.prims secret input).toList.take dtlsCookieLength

theorem length_cookieOf (env : Env) (secret input : Bytes) :
    (cookieOf env secret input).length = dtlsCookieLength := by
  rw [cookieOf, List.length_take, Vector.length_toList]
  rfl

theorem HelloFields.createCookie_eq {h : HandshakeParameters} {cookie : Bytes}
    (fields : HelloFields client h cookie data) (w : World) (session : Session) :
    dtlsCreateCookie server session data (12 + (clientHello client h cookie).length) w
      = (.ok (.ok (cookieOf server w.cookieSecret (helloInput client session h))), w) := by
  rw [dtlsCreateCookie, fields.cookieInput_eq session]
  rfl

theorem length_wholeMessage (type seq : Nat) (data : Bytes) :
    (wholeMessage type seq data).length = 12 + data.length := by
  rw [wholeMessage, List.length_append, length_messageHeader]

theorem dtlsCookieLength_le : dtlsCookieLength ≤ dtlsCookieLengthMax := by decide

/-- The first hello is answered with the cookie that is computed over it. -/
theorem verifyPeer_first {h : HandshakeParameters} {seq : Nat}
    (hd : data.Holds (wholeMessage dtlsHtClientHello seq (clientHello client h [])))
    (peer : Option Addr) (session : Session) (state : DtlsState) (w : World) :
    ∃ seq' w', Sends (dtlsVerifyPeer server peer session state data
        (wholeMessage dtlsHtClientHello seq (clientHello client h [])).length) w
      (wholeMessage dtlsHtHelloVerifyRequest seq'
        (helloVerify (cookieOf server w.cookieSecret (helloInput client session h)))) w' := by
  have fields := helloFields hd (Nat.zero_le _)
  have length := length_cookieOf server w.cookieSecret (helloInput client session h)
  have short : (helloVerify (cookieOf server w.cookieSecret
      (helloInput client session h))).length < dtlsMaxHsPayload := by
    rw [helloVerify, List.length_append, List.length_append, length]
    decide
  obtain ⟨r, w', hrun, hsent, -⟩ := @sendHandshakeMsgHash_eq server
    (if state = .connected then peer else none) session dtlsHtHelloVerifyRequest
    (helloVerify (cookieOf server w.cookieSecret (helloInput client session h))) false w
    (fun h => absurd h Bool.false_ne_true)
  rw [fragments_short _ _ short] at hsent
  refine ⟨_, w', r, ?_, hsent⟩
  have without : ¬ (([] : Bytes).length = dtlsCookieLength ∧
      (data.add 48).bytes ([] : Bytes).length
        = cookieOf server w.cookieSecret (helloInput client session h)) :=
    fun h => absurd h.1 (by decide)
  rw [length_wholeMessage, dtlsVerifyPeer, Program.bind_ok (fields.createCookie_eq w session)]
  simp only [fields.getCookie_eq]
  rw [if_neg without]
  exact hrun

/-- The second hello carries the cookie of the answer. -/
theorem checkVerifyRequest_second {a : Addr} {h : HandshakeParameters} {cookie : Bytes}
    {seq : Nat} (same : SameRandom a h w) (length : cookie.length = dtlsCookieLength)
    (hd : data.Holds (wholeMessage dtlsHtHelloVerifyRequest seq (helloVerify cookie))) :
    ∃ seq' w', Sends (checkServerHelloVerifyRequest client (some a) data
        (wholeMessage dtlsHtHelloVerifyRequest seq (helloVerify cookie)).length) w
      (wholeMessage dtlsHtClientHello seq' (clientHello client h cookie)) w' := by
  have ⟨h', hp, _⟩ := same
  have hs : dtlsHsLength = 12 := rfl
  have hv : dtlsHvLength = 3 := rfl
  have size : dtlsCookieLength = 16 := rfl
  have max : dtlsCookieLengthMax = 32 := rfl
  have total : (wholeMessage dtlsHtHelloVerifyRequest seq (helloVerify cookie)).length = 31 := by
    rw [length_wholeMessage, helloVerify, List.length_append, List.length_append, length]
    rfl
  -- the cookie lies behind the version and its length
  have body : (data.add 12).Holds (helloVerify cookie) := hd.next (length_messageHeader ..)
  rw [helloVerify, List.append_assoc] at body
  have field := body.next (n := 2) rfl
  rw [Ptr.add_add] at field
  have cookieLength : (data.add 14).uint8 = dtlsCookieLength :=
    field.first.number (by decide)
  have cookieBytes := field.next (n := 1) rfl
  rw [Ptr.add_add, Ptr.Holds, length] at cookieBytes
  have read : (data.add (dtlsHsLength + dtlsHvLength)).bytes (data.add (dtlsHsLength + 2)).uint8
      = cookie := by
    show (data.add 15).bytes (data.add 14).uint8 = cookie
    rw [cookieLength]
    exact cookieBytes
  obtain ⟨seq', w', ⟨r, hrun, hsent⟩, -⟩ := @sendHello client w a h (w.heap a).session same cookie
    (by omega)
  refine ⟨seq', w', r, ?_, hsent⟩
  have present : ¬ (w.heap a).handshakeParams.isNone = true := by
    rw [hp]
    exact Bool.false_ne_true
  rw [checkServerHelloVerifyRequest, if_neg (by omega)]
  simp only [read]
  rw [dtlsSendClientHello, getPeer_bind, if_neg present, if_neg (by omega), when,
    if_neg (by omega), pure_bind]
  exact hrun

/-- A hello with the cookie that is computed over it is let through. -/
theorem verifyPeer_second {h : HandshakeParameters} {seq : Nat} {secret : Bytes}
    (hd : data.Holds (wholeMessage dtlsHtClientHello seq
      (clientHello client h (cookieOf server secret (helloInput client session h)))))
    (hsecret : w.cookieSecret = secret) (peer : Option Addr) (state : DtlsState) :
    (dtlsVerifyPeer server peer session state data (wholeMessage dtlsHtClientHello seq
      (clientHello client h (cookieOf server secret (helloInput client session h)))).length w).1
      = .ok 0 := by
  subst hsecret
  have length := length_cookieOf server w.cookieSecret (helloInput client session h)
  have fields := helloFields hd (length.le.trans dtlsCookieLength_le)
  rw [length_wholeMessage, dtlsVerifyPeer, Program.bind_ok (fields.createCookie_eq w session)]
  simp only [fields.getCookie_eq]
  rw [if_pos ⟨length, fields.cookieBytes⟩]
  rfl

/-- The first hello of the client at `a`, the answer, the second hello, and the check of
    it, wherever the messages lie and whatever happened in between, as long as the client
    random and the secret of the cookies are the same. -/
def CookieExchange (client server : Env) (session : Session) (a : Addr) (w : World) : Prop :=
  ∃ hello w₁ h₁, Sends (dtlsSendClientHello client a []) w hello w₁ ∧
    (w₁.heap a).handshakeParams = some h₁ ∧
    ∀ (peer : Option Addr) (state : DtlsState) (ws : World) (data : Ptr), data.Holds hello →
      ∃ verify ws₁,
        Sends (dtlsVerifyPeer server peer session state data hello.length) ws verify ws₁ ∧
        ∀ (w₂ : World) (data : Ptr), SameRandom a h₁ w₂ → data.Holds verify →
          ∃ hello' w₃, Sends (checkServerHelloVerifyRequest client (some a) data verify.length) w₂
              hello' w₃ ∧
            ∀ (peer : Option Addr) (state : DtlsState) (ws₂ : World) (data : Ptr),
              ws₂.cookieSecret = ws.cookieSecret → data.Holds hello' →
                (dtlsVerifyPeer server peer session state data hello'.length ws₂).1 = .ok 0

/-- **COMPLETENESS**: a client that answers with the cookie it was given is let through. -/
theorem cookie_complete (client server : Env) (session : Session) {a : Addr}
    {h : HandshakeParameters} (hp : (w.heap a).handshakeParams = some h) :
    CookieExchange client server session a w := by
  have fresh : ∃ h₁ w₀, freshClientRandom client a w = (.ok (), w₀) ∧ w₀.log = w.log ∧
      (w₀.heap a).handshakeParams = some h₁ := by
    let draw (h : HandshakeParameters) : HandshakeParameters :=
      h.writeTmp 0 (dtlsIntToUint32 (client.ticks w.tick / dtlsTicksPerSecond) ++
        (Vector.ofFn fun i : Fin 28 => client.random (w.tick + 1) i.val).toList)
    have run : freshClientRandom client a w = (.ok (), w.asked.asked.setPeer a
        { w.heap a with handshakeParams := some (draw h) }) := by
      rw [freshClientRandom, dtlsTicks_bind, dtlsFillRandom_bind]
      exact modifyHandshake_some (w := w.asked.asked) draw hp
    exact ⟨draw h, _, run, rfl, by rw [heap_setPeer]⟩
  obtain ⟨h₁, w₀, hfresh, hlog, hp₀⟩ := fresh
  obtain ⟨seq, w₁, ⟨r, hrun, hsent⟩, h₂, hp₁, hrandom⟩ := @sendHello client w₀ a h₁
    (w.heap a).session ⟨h₁, hp₀, rfl⟩ [] (Nat.zero_le _)
  have hello : clientHello client h₂ [] = clientHello client h₁ [] := by
    rw [clientHello_eq, clientHello_eq, helloStart_same hrandom]
  refine ⟨_, w₁, h₂, ⟨r, ?_, by rw [hsent, hlog, ← hello]⟩, hp₁, ?_⟩
  · have present : ¬ (w.heap a).handshakeParams.isNone = true := by
      rw [hp]
      exact Bool.false_ne_true
    rw [dtlsSendClientHello, getPeer_bind, if_neg present, if_neg (by decide), when,
      if_pos List.length_nil, Program.bind_ok hfresh]
    exact hrun
  · intro peer state ws data hd
    obtain ⟨seq', ws₁, sends⟩ := @verifyPeer_first client server data h₂ seq hd peer session state
      ws
    refine ⟨_, ws₁, sends, fun w₂ data same hv => ?_⟩
    obtain ⟨seq'', w₃, sends⟩ := @checkVerifyRequest_second client w₂ data a h₂ _ _ same
      (length_cookieOf ..) hv
    exact ⟨_, w₃, sends, fun peer state ws₂ data hsecret hd =>
      verifyPeer_second hd hsecret peer state⟩

theorem cookie_complete_waiting : CookieExchange sampleEnv sampleEnv (sampleSession 0) 0
    clientWaiting := by
  obtain ⟨h, hp⟩ : ∃ h, (clientWaiting.heap 0).handshakeParams = some h :=
    Option.isSome_iff_exists.mp (by decide +kernel)
  exact cookie_complete sampleEnv sampleEnv (sampleSession 0) hp

end PqDtls.Dtls
