import PqDtls.Dtls.Sending

/-! # The packets of a client

    What `dtls_write` makes of a payload: the interval index, the key that is
    disclosed and the MAC follow it.  The chain runs backwards from a random seed, so
    the key of interval `t` is the seed hashed `teslaKeys + 1 - t` times and interval
    0 discloses the commitment; the index only says which interval it is as long as
    it started at 0. -/

namespace PqDtls.Dtls

open Program (get gets modify stop ofOption when)

variable {env : Env} {w : World} {a : Addr} {dst : Session}

/-! ## Writing -/

/-- The world after a record of data that was not queued. -/
def World.afterData (w : World) (a : Addr) (s : Option SecurityParameters) (tick : Nat)
    (log : List Event) : World :=
  { w.setPeer a { w.heap a with security0 := s } with tick := tick, log := log }

/-- A record that is not queued for retransmission: it is written, or does not fit. -/
theorem send_unqueued (a : Addr) (type : Nat) (payload : Bytes) (w : World)
    (hq : mustQueue type [payload] = false) :
    ∃ r s tick log, dtlsSend env a type payload w = (.ok r, w.afterData a s tick log) ∧
      (log = w.log ∨ ∃ d, log = .write (w.heap a).session d ::
        .sent (w.heap a).session type payload :: w.log) := by
  have queued : ¬ (mustQueue type [payload] = true) := by
    rw [hq]
    exact Bool.false_ne_true
  have flat : [payload].flatten = payload := by
    rw [List.flatten_cons, List.flatten_nil, List.append_nil]
  -- whatever the record was prepared to, the rest is one call of the callback
  have rest (security : Option SecRef) (s : Option SecurityParameters) (rec : Except Int Bytes)
      (hrun : dtlsPrepareRecord env (some a) security type [payload] dtlsMaxBuf w
        = (.ok rec, w.afterData a s w.tick w.log)) :
      ∃ r s tick log, dtlsSendMulti env (some a) security (w.heap a).session type [payload] w
          = (.ok r, w.afterData a s tick log) ∧
        (log = w.log ∨ ∃ d, log = .write (w.heap a).session d ::
          .sent (w.heap a).session type payload :: w.log) := by
    rw [dtlsSendMulti, Program.bind_ok hrun]
    cases rec with
    | error res => exact ⟨res, s, w.tick, w.log, rfl, .inl rfl⟩
    | ok d =>
        simp only
        rw [when, if_neg queued, flat]
        exact ⟨_, s, w.tick + 1, _, rfl, .inr ⟨d, rfl⟩⟩
  have same : w.afterData a (w.heap a).security0 w.tick w.log = w := by
    unfold World.afterData World.setPeer
    rw [Function.update_eq_self]
  cases hs : (w.heap a).security0 with
  | none =>
      rw [hs] at same
      have hrun : dtlsSend env a type payload w
          = dtlsSendMulti env (some a) none (w.heap a).session type [payload] w := by
        simp only [dtlsSend, dtlsSecurityParams, bind_assoc, getPeer_bind, hs, Option.map_none]
        rfl
      rw [hrun]
      exact rest none none _ (by rw [same]; rfl)
  | some s =>
      have hrun : dtlsSend env a type payload w
          = dtlsSendMulti env (some a) (some ⟨a, .zero⟩) (w.heap a).session type [payload] w := by
        simp only [dtlsSend, dtlsSecurityParams, bind_assoc, getPeer_bind, hs, Option.map_some]
        rfl
      rw [hrun]
      refine rest (some ⟨a, .zero⟩) (some { s with rseq := (s.rseq + 1) % 2 ^ 64 }) ?_ ?_
      · exact fillRecord env.prims (some ((w.heap a).countRecord s .zero))
          (some { s with rseq := (s.rseq + 1) % 2 ^ 64 }) (recordHeader type s) [payload] dtlsMaxBuf
      · rw [dtlsPrepareRecord, if_neg (by decide),
          Program.bind_ok (setRecordHeader_eq type (r := ⟨a, .zero⟩) hs),
          Program.get_bind]
        simp only [Option.map_some, Option.bind_some, heap_setPeer, security_countRecord]
        rfl

/-- The peer at `a` is a connected client for the session `dst`, and there is no other. -/
structure SoleClient (w : World) (a : Addr) (dst : Session) : Prop where
  peers : w.peers = [a]
  session : dtlsSessionEquals (w.heap a).session dst = true
  role : (w.heap a).role = .client
  connected : (w.heap a).state = .connected

theorem SoleClient.found (h : SoleClient w a dst) : dtlsGetPeer dst w = (.ok (some a), w) := by
  simp only [dtlsGetPeer, Program.gets_apply, h.peers, List.find?_cons, h.session]

/-- A payload with its TESLA part. -/
def teslaPacket (C : Primitives) (p : Peer) (tsync : TeslaSync) (payload : Bytes) : Bytes :=
  teslaContent p tsync payload ++
    (teslaMac C (p.K p.intIndex) (teslaContent p tsync payload)).toList

/-- What a write leaves: the same client one interval later. -/
structure Written (env : Env) (a : Addr) (payload : Bytes) (w w' : World) : Prop where
  peers : w'.peers = w.peers
  session : (w'.heap a).session = (w.heap a).session
  role : (w'.heap a).role = (w.heap a).role
  state : (w'.heap a).state = (w.heap a).state
  tsync : w'.tsync = w.tsync
  keys : (w'.heap a).K = (w.heap a).K
  index : (w'.heap a).intIndex = ((w.heap a).intIndex + 1) % 2 ^ 32
  log : w'.log = w.log ∨ ∃ d, w'.log = .write (w.heap a).session d ::
    .sent (w.heap a).session dtlsCtApplicationData
      (teslaPacket env.prims (w.heap a) w.tsync payload) :: w.log

/-- **A WRITE**: one packet of the interval is sent, if it fits a record. -/
theorem write_eq (h : SoleClient w a dst) (hidx : (w.heap a).intIndex < teslaKeys) (buf : Ptr)
    (len : Nat) : ∃ r w', dtlsWrite env dst buf len w = (.ok r, w') ∧
      Written env a (buf.bytes len) w w' := by
  have head : (ofOption .nullDeref w.peers.head? : M Addr) w = (.ok a, w) := by
    rw [h.peers]
    rfl
  have client : ¬ (w.heap a).role ≠ .client := not_not.mpr h.role
  -- the packet is built, and the interval ends
  let packet := teslaPacket env.prims (w.heap a) w.tsync (buf.bytes len)
  let p := { w.heap a with
    teslaMac := teslaMac env.prims ((w.heap a).K (w.heap a).intIndex)
      (teslaContent (w.heap a) w.tsync (buf.bytes len))
    intIndex := ((w.heap a).intIndex + 1) % 2 ^ 32 }
  have hrun : dtlsWrite env dst buf len w
      = dtlsSend env a dtlsCtApplicationData packet (w.setPeer a p) := by
    rw [dtlsWrite, Program.bind_ok h.found]
    simp only [getPeer_bind]
    rw [if_neg (not_not.mpr h.connected), writeConnected, Program.gets_bind, Program.bind_ok head,
      getPeer_bind, if_neg (not_le.mpr hidx), teslaPayload]
    simp only [bind_assoc, Program.get_bind]
    rw [if_neg client]
    simp only [bind_assoc, modifyPeer_bind, pure_bind, heap_setPeer]
    show dtlsSend env a dtlsCtApplicationData packet ((w.setPeer a _).setPeer a _) = _
    rw [World.setPeer, World.setPeer, Function.update_idem]
    rfl
  obtain ⟨r, s, tick, log, hsend, hlog⟩ :=
    @send_unqueued env a dtlsCtApplicationData packet (w.setPeer a p) rfl
  rw [heap_setPeer] at hlog
  refine ⟨r, _, hrun.trans hsend, ?_⟩
  have heap : ((w.setPeer a p).afterData a s tick log).heap a = { p with security0 := s } := by
    simp only [World.afterData, heap_setPeer]
  exact ⟨rfl, by rw [heap], by rw [heap], by rw [heap], rfl, by rw [heap], by rw [heap], hlog⟩

end PqDtls.Dtls
