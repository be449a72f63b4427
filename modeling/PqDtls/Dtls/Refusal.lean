import PqDtls.Dtls.AppData
import PqDtls.Dtls.Fragmentation

/-! # A refused renegotiation

    A server that is connected answers a ClientHello it cannot serve with a warning.  The
    warning travels as a negative number, and `dtls_alert_send_from_err` closes the peer
    for every such number that it sends.  **`refused_closes`** says that no session
    survives. -/

namespace PqDtls.Dtls

open Program (get gets modify stop ofOption when)

variable {env : Env} {w w' : World} {a : Addr} {session : Session} {msg : Ptr} {msglen : Nat}

/-! ## The refusal -/

/-- The warning of `dtls_update_parameters` and `dtls_check_tls_extension`. -/
def noRenegotiation : Int := helloError .connected

/-- What `handle_handshake` answers to a record that gets as far. -/
def handshakeAnswer (env : Env) (a : Addr) (session : Session) (msg : Ptr) (rlen : Nat) :
    M (Option Int) := do
  let before ← gets fun w => (some a).map w.heap
  emit (.record ⟨some a, before, msg, rlen⟩)
  let opened ← openPeerRecord env (some a) msg rlen
  match opened with
  | .error _ => pure none
  | .ok r =>
      if r.msg.uint8 ≠ dtlsCtHandshake then pure none
      else do
      let r ← checkEpoch (some a) r
      match r with
      | none => pure none
      | some r => do
          let err ← handleHandshake env (some a) session r.role r.state r.data r.dataLength
          pure (some err)

/-- The record at `msg` comes under the current epoch of a connected server, and its
    ClientHello is refused with the warning. -/
structure RefusedRenegotiation (env : Env) (a : Addr) (session : Session) (msg : Ptr)
    (msglen : Nat) (w : World) : Prop where
  server : (w.heap a).role = .server
  connected : (w.heap a).state = .connected
  record : isRecord msg msglen ≠ 0
  epoch : ∃ s, (w.heap a).security0 = some s ∧ dtlsGetEpoch msg = s.epoch
  answer : (handshakeAnswer env a session msg (isRecord msg msglen) w).1
    = .ok (some noRenegotiation)

/-- The session goes on as before: it is connected, with the same parameters, and data that
    is written is sent. -/
structure SessionKept (env : Env) (a : Addr) (session : Session) (w w' : World) : Prop where
  connected : (w'.heap a).state = .connected
  security : (w'.heap a).security0.map SecurityParameters.core
    = (w.heap a).security0.map SecurityParameters.core
  write : ∀ buf len, sentPayloads dtlsCtApplicationData (dtlsWrite env session buf len w').2.log
    ≠ sentPayloads dtlsCtApplicationData w'.log

/-- The call returns, and the session of the world `w` is kept. -/
def Survives (env : Env) (a : Addr) (session : Session) (w : World)
    (out : Except Crash Int × World) : Prop :=
  ∃ res w', out = (.ok res, w') ∧ SessionKept env a session w w'

/-! ## What becomes of the peer -/

/-- Whatever is sent, the peer is closing. -/
theorem alertSendFromErr_closes (session : Session) {err : Int} {alert : Nat × Nat}
    (h : alertFromErr err = some alert) (w : World) :
    ((dtlsAlertSendFromErr env (some a) session err w).2.heap a).state = .closing := by
  have frame : Frame env Quiet := quietFrame env
  unfold dtlsAlertSendFromErr
  rw [h]
  simp only
  rw [dtlsGetPeer, Program.gets_bind]
  show (((setState a .closing >>= fun _ => dtlsSendAlert env a alert.1 alert.2) w).2.heap a).state
    = _
  rw [setState_bind]
  have quiet := (frame.sender (some a)).sendAlert alert.1 alert.2
    ((w.emitted (.state a (w.heap a).state .closing)).setPeer a { w.heap a with state := .closing })
  rw [quiet.peerState, heap_setPeer]

/-- A record whose handshake message fails is answered with an alert. -/
theorem handleRecord_failed {rlen : Nat} {err : Int} {w₁ : World} (negative : err < 0)
    (whole : err ≠ dtlsHsFragmented)
    (h : handshakeAnswer env a session msg rlen w = (.ok (some err), w₁)) :
    handleRecord env (some a) session msg rlen w = (do
      let _ ← dtlsAlertSendFromErr env (some a) session err
      pure (.error err) : M (Except Int Ptr)) w₁ := by
  rw [handshakeAnswer, Program.gets_bind, emit_bind] at h
  rw [handleRecord, Program.gets_bind, emit_bind]
  generalize w.emitted _ = w₀ at h ⊢
  rcases hopen : openPeerRecord env (some a) msg rlen w₀ with ⟨e | r, w₂⟩
  · rw [Program.bind_error hopen] at h
    cases h
  rw [Program.bind_ok hopen] at h ⊢
  cases r with
  | error err' => cases h
  | ok r =>
      simp only at h ⊢
      by_cases hs : r.msg.uint8 = dtlsCtHandshake
      swap
      · rw [if_pos hs] at h
        cases h
      rw [if_neg (not_not.mpr hs)] at h
      have dispatched : dispatchRecord env (some a) session r
          = handleHandshakeRecord env (some a) session r := by
        unfold dispatchRecord
        rw [hs]
        rfl
      rw [dispatched, handleHandshakeRecord]
      rcases hepoch : checkEpoch (some a) r w₂ with ⟨e | r', w₃⟩
      · rw [Program.bind_error hepoch] at h
        cases h
      rw [Program.bind_ok hepoch] at h
      rw [bind_assoc, Program.bind_ok hepoch]
      cases r' with
      | none => cases h
      | some r' =>
          simp only at h ⊢
          rcases hrun : handleHandshake env (some a) session r'.role r'.state r'.data
            r'.dataLength w₃ with ⟨e | err', w₄⟩
          · rw [Program.bind_error hrun] at h
            cases h
          · rw [Program.bind_ok hrun] at h
            cases h
            rw [bind_assoc, Program.bind_ok hrun, handshakeHandled, if_neg whole, if_pos negative,
              bind_assoc]
            rfl

/-- **A REFUSED RENEGOTIATION** leaves the peer closing. -/
theorem refused_closing {fuel : Nat} (h : RefusedRenegotiation env a session msg msglen w) :
    ((handleRecords env (some a) session (fuel + 1) msg msglen w).2.heap a).state = .closing := by
  have negative : noRenegotiation < 0 := by decide
  have whole : noRenegotiation ≠ dtlsHsFragmented := by decide
  have warning : alertFromErr noRenegotiation
      = some (dtlsAlertLevelWarning, DtlsAlert.noRenegotiation.code) := by decide
  let w₁ := (handshakeAnswer env a session msg (isRecord msg msglen) w).2
  have answered : handshakeAnswer env a session msg (isRecord msg msglen) w
      = (.ok (some noRenegotiation), w₁) := Prod.ext h.answer rfl
  have closes := @alertSendFromErr_closes env a session _ _ warning w₁
  rw [handleRecords, if_neg h.record]
  rcases hsend : dtlsAlertSendFromErr env (some a) session noRenegotiation w₁ with ⟨e | r, w₂⟩
  · have failed : handleRecord env (some a) session msg (isRecord msg msglen) w
        = (.error e, w₂) := by
      rw [handleRecord_failed negative whole answered, Program.bind_error hsend]
    rw [Program.bind_error failed]
    rw [hsend] at closes
    exact closes
  · have failed : handleRecord env (some a) session msg (isRecord msg msglen) w
        = (.ok (.error noRenegotiation), w₂) := by
      rw [handleRecord_failed negative whole answered, Program.bind_ok hsend]
      rfl
    rw [Program.bind_ok failed]
    rw [hsend] at closes
    exact closes

/-- Nothing is sent to a peer that is closing. -/
theorem write_closing (found : dtlsGetPeer session w = (.ok (some a), w))
    (closing : (w.heap a).state = .closing) (buf : Ptr) (len : Nat) :
    dtlsWrite env session buf len w = (.ok 0, w) := by
  have unconnected : (w.heap a).state ≠ .connected := by
    rw [closing]
    decide
  rw [dtlsWrite, Program.bind_ok found]
  simp only [getPeer_bind]
  rw [if_pos unconnected]
  rfl

theorem getPeer_apply {peer : Option Addr} (h : (dtlsGetPeer session w).1 = .ok peer) :
    dtlsGetPeer session w = (.ok peer, w) := Prod.ext h rfl

/-- The first record of a datagram is where the loop begins. -/
theorem handleMessage_first (found : dtlsGetPeer session w = (.ok (some a), w)) :
    dtlsHandleMessage env session msg msglen w
      = handleRecords env (some a) session (msglen + 1) msg msglen w := by
  rw [dtlsHandleMessage, Program.bind_ok found]

/-- **NO SESSION SURVIVES**: wherever in its datagram the ClientHello stands, the peer is not
    connected when `dtls_handle_message` returns. -/
theorem refused_closes (env : Env) (a : Addr) (session : Session) (msg₀ msg : Ptr)
    (msglen₀ msglen fuel : Nat) (w₀ w : World)
    (arrives : dtlsHandleMessage env session msg₀ msglen₀ w₀
      = handleRecords env (some a) session (fuel + 1) msg msglen w)
    (refused : RefusedRenegotiation env a session msg msglen w) :
    ¬ Survives env a session w (dtlsHandleMessage env session msg₀ msglen₀ w₀) := by
  rintro ⟨res, w', hrun, kept⟩
  have closing := @refused_closing env w a session msg msglen fuel refused
  rw [← arrives, hrun, kept.connected] at closing
  cases closing

/-- A ClientHello with the cookie of the sample process, and a suite that nobody has. -/
def foreignHello : Bytes :=
  dtlsIntToUint16 dtlsVersion ++ List.replicate 32 0 ++ [0, 16] ++ List.replicate 16 0 ++
    dtlsIntToUint16 2 ++ dtlsIntToUint16 0xc0ff ++ [1, 0]

/-- It is sent by the client that is connected. -/
def foreignRecord : Bytes :=
  sealed sampleEnv.prims .client { sampleSecurity with rseq := 1 } dtlsCtHandshake
    (wholeMessage dtlsHtClientHello 0 foreignHello)

/-- The server after a handshake. -/
def connectedWorld : World := (runInputs sampleEnv handshakeDone sampleWorld).2

theorem connectedWorld_reachable : Reachable sampleEnv connectedWorld :=
  ⟨sampleWorld, handshakeDone, sampleWorld_initial, by rw [connectedWorld]⟩

theorem foreignRecord_facts :
    (dtlsGetPeer (sampleSession 0) connectedWorld).1 = .ok (some 0) ∧
      (connectedWorld.heap 0).role = .server ∧ (connectedWorld.heap 0).state = .connected ∧
      (connectedWorld.heap 0).security0.map (·.epoch)
        = some (dtlsGetEpoch (Ptr.ofBytes foreignRecord)) ∧
      isRecord (Ptr.ofBytes foreignRecord) foreignRecord.length ≠ 0 ∧
      (handshakeAnswer sampleEnv 0 (sampleSession 0) (Ptr.ofBytes foreignRecord)
        (isRecord (Ptr.ofBytes foreignRecord) foreignRecord.length) connectedWorld).1
        = .ok (some noRenegotiation) := by
  decide +kernel

theorem foreignRecord_refused : RefusedRenegotiation sampleEnv 0 (sampleSession 0)
    (Ptr.ofBytes foreignRecord) foreignRecord.length connectedWorld := by
  obtain ⟨-, server, connected, same, record, answer⟩ := foreignRecord_facts
  obtain ⟨s, hs, epoch⟩ := Option.map_eq_some_iff.mp same
  exact ⟨server, connected, record, ⟨s, hs, epoch.symm⟩, answer⟩

theorem foreignRecord_found :
    dtlsGetPeer (sampleSession 0) connectedWorld = (.ok (some 0), connectedWorld) :=
  getPeer_apply foreignRecord_facts.1

theorem refused_closes_foreign :
    ¬ Survives sampleEnv 0 (sampleSession 0) connectedWorld (dtlsHandleMessage sampleEnv
      (sampleSession 0) (Ptr.ofBytes foreignRecord) foreignRecord.length connectedWorld) :=
  refused_closes sampleEnv 0 (sampleSession 0) (Ptr.ofBytes foreignRecord)
    (Ptr.ofBytes foreignRecord) foreignRecord.length foreignRecord.length foreignRecord.length
    connectedWorld connectedWorld (handleMessage_first foreignRecord_found) foreignRecord_refused

/-- The connected client loses its session with a hello that is merely refused. -/
theorem renegotiation_closes :
    ¬ ∀ (env : Env) (w : World) (a : Addr) (session : Session) (msg : Ptr) (msglen : Nat),
        Reachable env w → dtlsGetPeer session w = (.ok (some a), w) →
        RefusedRenegotiation env a session msg msglen w →
          Survives env a session w (dtlsHandleMessage env session msg msglen w) := by
  intro h
  obtain ⟨res, w', hrun, kept⟩ := h sampleEnv connectedWorld 0 (sampleSession 0)
    (Ptr.ofBytes foreignRecord) foreignRecord.length connectedWorld_reachable
    foreignRecord_found foreignRecord_refused
  have closing := @refused_closing sampleEnv connectedWorld 0 (sampleSession 0)
    (Ptr.ofBytes foreignRecord) foreignRecord.length foreignRecord.length foreignRecord_refused
  rw [← handleMessage_first foreignRecord_found, hrun, kept.connected] at closing
  cases closing

end PqDtls.Dtls
