import PqDtls.Dtls.Steps

/-! # Runs of the engine

    Reassembly, the dispatch of records and the calls of the application, as
    sequences of steps.  `steps_runInputs` is the sum of it: whatever an application
    calls, and whatever the network brings, the run is a sequence of steps. -/

namespace PqDtls.Dtls

open Program (get gets modify stop ofOption when Keeps Under keeps_pure keeps_get keeps_gets
  keeps_stop keeps_ofOption keeps_modify)
open Ksnmss Relation

variable {env : Env} {peer : Option Addr} {role : DtlsPeerType} {state : DtlsState} {data : Ptr}
  {dataLength : Nat} {w : World}

/-! ## Reassembly -/

theorem setBuffer_eq {p : Peer} {h : HandshakeParameters} (hp : p.handshakeParams = some h)
    (buf : Option HsReassemble) :
    p.setBuffer buf = { p with handshakeParams := some { h with reassembleBuf := buf } } := by
  simp only [Peer.setBuffer, hp, Option.map_some]

/-- A write of the buffer through the handshake parameters. -/
theorem modifyHandshake_buffer {a : Addr} {h : HandshakeParameters}
    (hp : (w.heap a).handshakeParams = some h)
    {f : HandshakeParameters → HandshakeParameters} {buf : Option HsReassemble}
    (hf : f h = { h with reassembleBuf := buf }) :
    modifyHandshake a f w = (.ok (), w.setPeer a ((w.heap a).setBuffer buf)) := by
  rw [modifyHandshake_some f hp, hf, setBuffer_eq hp]

theorem inner_setBuffer {a : Addr} {f : HandshakeParameters → HandshakeParameters}
    {buf : Option HsReassemble} (hf : ∀ h, f h = { h with reassembleBuf := buf })
    (hb : FreshBuffer buf) : Keeps (Inner env) (modifyHandshake a f) := by
  intro w
  cases hp : (w.heap a).handshakeParams with
  | none =>
      rw [modifyHandshake_none f hp]
      exact Inner.rfl w
  | some h =>
      rw [modifyHandshake_buffer hp (hf h)]
      exact (Step.buffer w a buf hb).silent rfl

theorem inner_freeReassembleBuffer (a : Addr) :
    Keeps (Inner env) (dtlsFreeReassembleBuffer a) := by
  refine (keeps_gets _).bind fun p => ?_
  cases p.handshakeParams.bind (·.reassembleBuf) with
  | none => exact keeps_pure _
  | some buf =>
      exact Keeps.ite (fun _ => keeps_stop _) fun _ => inner_setBuffer (fun _ => rfl) trivial

theorem freeReassembleBuffer_log (a : Addr) (w : World) :
    (dtlsFreeReassembleBuffer a w).2.log = w.log := by
  unfold dtlsFreeReassembleBuffer
  rw [getPeer, Program.gets_bind]
  cases (w.heap a).handshakeParams.bind (·.reassembleBuf) with
  | none => rfl
  | some buf =>
      by_cases hl : (!buf.live) = true
      · simp only [hl, if_true]
        rfl
      · simp only [hl, if_false, Bool.false_eq_true]
        cases hp : (w.heap a).handshakeParams with
        | none => rw [modifyHandshake_none _ hp]
        | some h =>
            rw [modifyHandshake_some _ hp]
            rfl

theorem freshBuffer_gone {buf : HsReassemble} (hl : buf.live = false) (hs : buf.size = 0) :
    FreshBuffer (some buf) := .inl ⟨hl, hs⟩

theorem freshBuffer_empty {buf : HsReassemble} (hl : buf.live = true) (ho : buf.lastOffset = 0)
    (hs : buf.size = buf.packetLength + dtlsHsLength) : FreshBuffer (some buf) :=
  .inr ⟨hl, ho, hs⟩

theorem inner_initReassembleBuffer (a : Addr) (n : Nat) :
    Keeps (Inner env) (dtlsInitReassembleBuffer env a n) := by
  refine (inner_of_quiet quietTacit.still.nextTick).bind fun t => Keeps.ite (fun _ => keeps_pure _)
    fun _ => ?_
  refine (innerFrame.still.malloc env).bind fun found => Keeps.ite (fun _ => ?_) fun _ => ?_
  · refine Keeps.bind ?_ fun _ => keeps_pure _
    exact inner_setBuffer (fun _ => rfl) (freshBuffer_gone rfl rfl)
  · refine Keeps.bind ?_ fun _ => keeps_pure _
    exact inner_setBuffer (fun _ => rfl) (freshBuffer_empty rfl rfl rfl)

theorem inner_firstFragment (a : Addr) (header : HandshakeHeader) :
    Keeps (Inner env) (firstFragment env a header) :=
  Keeps.ite (fun _ => (inner_freeReassembleBuffer a).bind fun _ => inner_initReassembleBuffer a _)
    fun _ => keeps_pure _

theorem buffer_setBuffer {p : Peer} {h : HandshakeParameters} (hp : p.handshakeParams = some h)
    (buf : Option HsReassemble) : (p.setBuffer buf).buffer = buf := by
  simp only [Peer.setBuffer, Peer.buffer, hp, Option.map_some, Option.bind_some]

/-- A buffer that was obtained is empty, and as long as asked for. -/
theorem initReassembleBuffer_ok {a : Addr} {n : Nat} {w w' : World}
    (h : dtlsInitReassembleBuffer env a n w = (.ok true, w')) :
    ∃ buf, (w'.heap a).buffer = some buf ∧ buf.packetLength = n ∧ buf.live = true := by
  rw [dtlsInitReassembleBuffer, nextTick_bind] at h
  by_cases ht : (!env.malloc w.tick) = true
  · rw [if_pos ht] at h
    cases h
  rw [if_neg ht, malloc_bind] at h
  by_cases hm : (!env.malloc w.asked.tick) = true
  · rw [if_pos hm] at h
    exact absurd (modifyHandshake_pure_ok h) nofun
  rw [if_neg hm] at h
  cases hp : (w.asked.asked.heap a).handshakeParams with
  | none =>
      rw [Program.bind_error (modifyHandshake_none _ hp)] at h
      exact absurd (Prod.mk.inj h).1 nofun
  | some hs =>
      rw [Program.bind_ok (modifyHandshake_buffer hp rfl)] at h
      cases h
      refine ⟨{
        lastOffset := 0
        packetLength := n
        data := (env.uninitialised w.tick).data
        size := n + dtlsHsLength
        live := true }, ?_, rfl, rfl⟩
      rw [heap_setPeer, buffer_setBuffer hp]

theorem firstFragment_ok {a : Addr} {header : HandshakeHeader} {w w' : World}
    (h : firstFragment env a header w = (.ok true, w')) (hoff : header.fragmentOffset = 0) :
    ∃ buf, (w'.heap a).buffer = some buf ∧ buf.packetLength = header.length ∧
      buf.live = true := by
  rw [firstFragment, if_pos hoff, Program.bind_apply] at h
  split at h
  · exact initReassembleBuffer_ok h
  · exact absurd (Prod.mk.inj h).1 nofun

theorem handshakeParams_of_buffer {p : Peer} {buf : HsReassemble} (h : p.buffer = some buf) :
    ∃ hs, p.handshakeParams = some hs ∧ hs.reassembleBuf = some buf := by
  unfold Peer.buffer at h
  cases hp : p.handshakeParams with
  | none => rw [hp] at h; exact nomatch h
  | some hs => rw [hp] at h; exact ⟨hs, rfl, h⟩

theorem inner_appendFragment {a : Addr} {header : HandshakeHeader} {buf : HsReassemble}
    (hb : (w.heap a).buffer = some buf) (fits : Fits header buf data) :
    Inner env w (appendFragment a header buf data dataLength w).2 := by
  obtain ⟨h, hp, _⟩ := handshakeParams_of_buffer hb
  let c := fragmentCopy a header buf data dataLength
  let w₁ := (w.emitted (.fragment c)).setPeer a ((w.heap a).setBuffer (some c.result))
  have copy : Inner env w w₁ :=
    (Step.fragment w a header buf data dataLength hb fits).event rfl trivial
  have hp₁ : (w₁.heap a).handshakeParams = some { h with reassembleBuf := some c.result } := by
    rw [show w₁.heap a = _ from heap_setPeer _ _ _, setBuffer_eq hp]
  rw [appendFragment, emit_bind,
    Program.bind_ok (modifyHandshake_buffer (w := w.emitted _) hp rfl)]
  by_cases hpart : c.result.lastOffset < header.length
  · rw [if_pos hpart]
    exact copy
  rw [if_neg hpart]
  refine trans_of (Inner env) copy ?_
  have hbuf : (w₁.heap a).buffer = some c.result := by
    simp only [Peer.buffer, hp₁, Option.bind_some]
  show Inner env w₁ ((modifyHandshake a _ >>= fun _ => _) w₁).2
  rw [Program.bind_ok (modifyHandshake_buffer hp₁ rfl)]
  exact (Step.deliver w₁ c w.log rfl hbuf (not_lt.mp hpart)).event rfl trivial

/-- The branch for fragments, on the header of the data. -/
theorem inner_reassemble (hpart : Fragmented data) :
    Inner env w (reassemble env peer (handshakeHeader data) data dataLength w).2 := by
  unfold reassemble
  by_cases hmax : (handshakeHeader data).length > dtlsMaxBuf
  · rw [if_pos hmax]
    exact Inner.rfl w
  rw [if_neg hmax]
  by_cases hin : (handshakeHeader data).fragmentOffset + (handshakeHeader data).fragmentLength
      > (handshakeHeader data).length
  · rw [if_pos hin]
    exact Inner.rfl w
  rw [if_neg hin]
  refine Program.bind_keeps_from (keeps_ofOption _ _ w) fun a w₁ _ => ?_
  refine Program.bind_keeps_from (inner_firstFragment a _ w₁) fun found w₂ hfound => ?_
  cases found with
  | false => exact Inner.rfl w₂
  | true =>
      have first := firstFragment_ok hfound
      cases hp : (w₂.heap a).handshakeParams with
      | none =>
          have hget : getHandshake a w₂ = (.error .nullDeref, w₂) := by
            simp only [getHandshake, getPeer_bind, hp, ofOption, Program.stop_apply]
          simp only [Bool.not_true, Bool.false_eq_true, if_false, Program.bind_error hget]
          exact Inner.rfl w₂
      | some h =>
          have hget : getHandshake a w₂ = (.ok h, w₂) := by
            simp only [getHandshake, getPeer_bind, hp, ofOption, Program.pure_apply]
          simp only [Bool.not_true, Bool.false_eq_true, if_false, Program.bind_ok hget]
          cases hb : h.reassembleBuf with
          | none => exact Inner.rfl w₂
          | some buf =>
              by_cases hlast : buf.lastOffset ≠ (handshakeHeader data).fragmentOffset
              · simp only [if_pos hlast]
                exact Inner.rfl w₂
              simp only [if_neg hlast]
              have hbuf : (w₂.heap a).buffer = some buf := by
                simp only [Peer.buffer, hp, Option.bind_some, hb]
              refine inner_appendFragment hbuf ⟨rfl, not_not.mp hlast, hpart, not_lt.mp hin,
                not_lt.mp hmax, fun hoff => ?_⟩
              obtain ⟨buf', hbuf', hlen, hlive⟩ := first hoff
              cases hbuf.symm.trans hbuf'
              exact ⟨hlen, hlive⟩

/-! ## The reorder queue -/

theorem Origin.of_log {w w' : World} {c : HandshakeCall} (h : Origin env w c)
    (hlog : w'.log = w.log) : Origin env w' c := by
  cases h with
  | direct r record payload whole peer admitted =>
      exact .direct r (by rw [hlog]; exact record) payload whole peer admitted
  | assembled r record fragment => exact .assembled r (by rw [hlog]; exact record) fragment
  | replayed a rest log peer => exact .replayed a rest (hlog.trans log) peer

theorem within_replayMessage (a : Addr) (session : Session) (role : DtlsPeerType)
    (node : Netq) : Keeps (Within env) (replayMessage env a session role node) := by
  refine Keeps.bind ?_ fun _ w => ?_
  · exact within_of_inner (innerFrame.handler.handshake fun _ => rfl)
  rw [getPeer_bind, emit_bind]
  have replay : Within env w (w.emitted (.replay a (w.heap a).state)) :=
    ((Step.replay w a).event rfl trivial).within
  exact trans_of (Within env) replay
    (within_handleHandshakeMsg session fun _ => .replayed a w.log rfl rfl)

theorem within_replayQueue (a : Addr) (session : Session) (role : DtlsPeerType) (fuel : Nat)
    (res : Int) : Keeps (Within env) (replayQueue env a session role fuel res) := by
  induction fuel generalizing res with
  | zero => exact keeps_pure _
  | succ fuel ih =>
      intro w
      rw [replayQueue, getPeer_bind]
      cases (w.heap a).handshakeParams with
      | none => exact refl_of (Within env) w
      | some h =>
          simp only
          cases h.reorderQueue.find? h.isNext with
          | none => exact refl_of (Within env) w
          | some node =>
              exact (within_replayMessage a session role node).bind
                (fun res => Keeps.ite (fun _ => keeps_pure _) fun _ => ih res) w

theorem within_handleInSequence {a : Addr} (h : HandshakeParameters) (session : Session)
    (ho : ∀ before, Origin env w ⟨some a, role, state, before, data, dataLength⟩) :
    Within env w (handleInSequence env a h session role state data dataLength w).2 := by
  unfold handleInSequence
  by_cases hold : (handshakeHeader data).messageSeq < h.mseqR
  · rw [if_pos hold]
    exact refl_of (Within env) w
  rw [if_neg hold]
  by_cases hnew : (handshakeHeader data).messageSeq > h.mseqR
  · rw [if_pos hnew]
    exact (innerFrame.handler.queueMessage a h data dataLength w).within
  rw [if_neg hnew]
  have hlog := freeReassembleBuffer_log a w
  refine Program.bind_keeps_from (inner_freeReassembleBuffer a w).within fun _ w₁ h₁ => ?_
  rw [h₁] at hlog
  refine Program.bind_keeps_from (within_handleHandshakeMsg session
    fun before => (ho before).of_log hlog) fun res w₂ _ => ?_
  refine Keeps.ite (fun _ => keeps_pure _) (fun _ => ?_) w₂
  exact (keeps_gets _).bind fun p => within_replayQueue a session role _ res

theorem within_handleOutside (session : Session)
    (ho : ∀ before, Origin env w ⟨peer, role, state, before, data, dataLength⟩) :
    Within env w (handleOutside env peer session role state data dataLength w).2 := by
  unfold handleOutside
  split
  · exact refl_of (Within env) w
  split
  · exact within_handleHandshakeMsg session ho
  · exact refl_of (Within env) w

theorem within_handleWhole (session : Session)
    (ho : ∀ before, Origin env w ⟨peer, role, state, before, data, dataLength⟩) :
    Within env w (handleWhole env peer session role state data dataLength w).2 := by
  cases peer with
  | none => exact within_handleOutside session ho
  | some a =>
      rw [handleWhole, getPeer_bind]
      cases (w.heap a).handshakeParams with
      | none => exact within_handleOutside session ho
      | some h => exact within_handleInSequence h session ho

/-- **A handshake record is handled in steps.** -/
theorem within_handleHandshake (session : Session) {r : RecordCall}
    (record : currentRecord w.log = some r) (payload : (data, dataLength) = r.payload env)
    (hpeer : peer = r.peer)
    (admitted : state = .waitClientHello ∨ ∃ a p, Admitted env r role state a p) :
    Within env w (handleHandshake env peer session role state data dataLength w).2 := by
  unfold handleHandshake
  by_cases hlen : dataLength < dtlsHsLength
  · rw [if_pos hlen]
    exact refl_of (Within env) w
  rw [if_neg hlen]
  by_cases hpart : (handshakeHeader data).length > (handshakeHeader data).fragmentLength
  · rw [if_pos hpart]
    have inner := @inner_reassemble env peer data dataLength w hpart
    refine Program.bind_keeps_from inner.within fun whole w₁ h₁ => ?_
    rw [h₁] at inner
    cases whole with
    | error res => exact refl_of (Within env) w₁
    | ok m =>
        refine within_handleWhole session fun before => .assembled r (inner.record.trans record) ?_
        rw [← payload]
        exact hpart
  · rw [if_neg hpart]
    exact within_handleWhole session fun before => .direct r record payload hpart hpeer admitted

/-! ## ChangeCipherSpec and alerts -/

theorem inner_handleCcs (peer : Option Addr) (data : Ptr) (dataLength : Nat) :
    Keeps (Inner env) (handleCcs env peer data dataLength) := by
  cases peer with
  | none => exact keeps_pure _
  | some a =>
      refine (keeps_gets _).bind fun p => Keeps.ite (fun _ => keeps_pure _) fun _ =>
        Keeps.ite (fun _ => keeps_pure _) fun _ => Keeps.bind ?_ fun err =>
          Keeps.ite (fun _ => keeps_pure _) fun _ => Keeps.bind ?_ fun _ => keeps_pure _
      · exact Keeps.ite (fun _ => keeps_pure _) fun _ => inner_calculateKeyBlock a _
      · exact fun _ => step_setState (entered_other rfl)

/-! ## Application data -/

/-- Only the index and the stored packet of the peer enter what is known of a packet. -/
theorem receivedPacket_congr {C : Primitives} {head : Addr} {p p' : Peer}
    (h : p'.core = p.core) (data : Ptr) (len : Int) :
    receivedPacket C head p' data len = receivedPacket C head p data len := by
  have index : p'.intIndex = p.intIndex := congrArg PeerCore.intIndex h
  have stored : p'.teslaPs = p.teslaPs := congrArg PeerCore.teslaPs h
  simp only [receivedPacket, index, stored]

theorem inner_receiveTesla (data : Ptr) (len : Int) :
    Keeps (Inner env) (receiveTesla env data len) := by
  refine (keeps_gets _).bind fun peers => (keeps_ofOption _ _).bind fun head => fun w => ?_
  rw [getPeer_bind]
  have quiet : Quiet w (checkInterval env (w.heap head).intIndex w).2 :=
    quietTacit.still.checkInterval _ w
  refine Program.bind_keeps_from quiet.inner fun _ w₁ h₁ => ?_
  have core : (w.heap head).core = (w₁.heap head).core := by
    rw [h₁] at quiet
    exact (quiet.heap head).symm
  by_cases hlen : len + 36 < 0 ∨ len + 36 > tMsgSize
  · rw [if_pos hlen]
    exact Inner.rfl w₁
  rw [if_neg hlen, emit_bind, receivedPacket_congr core]
  exact (Step.tesla w₁ head data len).event rfl trivial

/-- What was opened is handed to the application. -/
theorem inner_handleApplicationData {a : Addr} {p : Peer} {r : RecordCall}
    (record : currentRecord w.log = some r) (hpeer : r.peer = some a) (hbefore : r.before = some p)
    (type : r.packet.uint8 = dtlsCtApplicationData)
    (opened : 0 ≤ (decryptPacket env.prims p r.packet r.length).length) :
    Inner env w (handleApplicationData env a (decryptPacket env.prims p r.packet r.length).data
      (decryptPacket env.prims p r.packet r.length).length.toNat w).2 := by
  have hlen : (((decryptPacket env.prims p r.packet r.length).length.toNat : Nat) : Int)
      = (decryptPacket env.prims p r.packet r.length).length := Int.toNat_of_nonneg opened
  unfold handleApplicationData
  rw [hlen]
  refine Program.bind_keeps_from (innerFrame.stopRetransmission a w) fun _ w₁ h₁ => ?_
  have hr₁ := ((@innerFrame env).stopRetransmission a w).record
  rw [h₁] at hr₁
  refine Program.bind_keeps_from (inner_receiveTesla _ _ w₁) fun _ w₂ h₂ => ?_
  have hr₂ := (@inner_receiveTesla env (decryptPacket env.prims p r.packet r.length).data
    ((decryptPacket env.prims p r.packet r.length).length - (teslaExtension : Nat)) w₁).record
  rw [h₂] at hr₂
  rw [getPeer_bind, callRead, nextTick_bind, emit_bind]
  have asked : Inner env w₂ w₂.asked := (quietTacit.still.nextTick w₂).inner
  refine trans_of (Inner env) asked (trans_of (Inner env) ?_ (innerFrame.runAppCalls _ _))
  refine (Step.read w₂.asked (w₂.heap a).session _ _ r a p ⟨?_, hpeer, hbefore, type, opened, rfl,
    rfl⟩).event rfl trivial
  exact (hr₂.trans hr₁).trans record

/-! ## Opening a record -/

/-- Decryption leaves the header alone, and the explicit part of the nonce. -/
theorem decryptPacket_header (C : Primitives) (p : Peer) (packet : Ptr) (length : Nat) {i : Int}
    (hi : i < 21) : (decryptPacket C p packet length).packet i = packet i := by
  unfold decryptPacket
  cases (dtlsSecurityParamsEpoch p (dtlsGetEpoch packet)).bind p.security with
  | none => rfl
  | some s =>
      simp only [openRecord]
      split
      · rfl
      split
      · rfl
      · have outside : ¬ ((21 : Nat) : Int) ≤ i := by omega
        split <;> simp only [Ptr.overwrite, outside, false_and, if_false]

theorem decryptPacket_type (C : Primitives) (p : Peer) (packet : Ptr) (length : Nat) :
    (decryptPacket C p packet length).packet.uint8 = packet.uint8 := by
  unfold Ptr.uint8
  rw [Ptr.bytes_congr fun i hi => decryptPacket_header C p packet length (by omega)]

theorem decryptPacket_epoch (C : Primitives) (p : Peer) (packet : Ptr) (length : Nat) :
    dtlsGetEpoch (decryptPacket C p packet length).packet = dtlsGetEpoch packet := by
  have header : ((decryptPacket C p packet length).packet.add 3).bytes 2
      = (packet.add 3).bytes 2 :=
    Ptr.bytes_congr fun i hi => decryptPacket_header C p packet length (by omega)
  rw [dtlsGetEpoch, Ptr.uint16, header]
  rfl

theorem hsAttempt_connected {msg : Ptr} {p : Peer} (h : hsAttemptWithExistingPeer msg p = true) :
    p.state = .connected := (of_decide_eq_true h).1

/-- How the record `r` was opened: as the start of a handshake, or with the keys of
    the peer. -/
inductive Opens (env : Env) (r : RecordCall) (w : World) (o : OpenRecord) : Prop
  | fresh (state : o.state = .waitClientHello) (payload : (o.data, o.dataLength) = r.payload env)
      (type : o.msg.uint8 = r.packet.uint8)
      (handshake : r.peer = none ∨ r.packet.uint8 = dtlsCtHandshake)
  | opened (a : Addr) (p : Peer) (peer : r.peer = some a) (before : r.before = some p)
      (length : 0 ≤ (decryptPacket env.prims p r.packet r.length).length)
      (record : o = ⟨(decryptPacket env.prims p r.packet r.length).packet,
        (decryptPacket env.prims p r.packet r.length).data,
        (decryptPacket env.prims p r.packet r.length).length.toNat, p.role, p.state⟩)
      (security : (w.heap a).security0 = p.security0)

theorem decryptVerify_apply (a : Addr) (packet : Ptr) (length : Nat) (w : World) :
    ∃ p', decryptVerify env a packet length w
        = (.ok (decryptPacket env.prims (w.heap a) packet length), w.setPeer a p') ∧
      p'.security0 = (w.heap a).security0 ∧ p'.role = (w.heap a).role ∧
      p'.state = (w.heap a).state := by
  rw [decryptVerify, getPeer_bind]
  by_cases hv : (decryptPacket env.prims (w.heap a) packet length).verified = true
  · refine ⟨(w.heap a).freeOther, ?_, freeOther_view (fun _ => rfl) _,
      freeOther_view (fun _ => rfl) _, freeOther_view (fun _ => rfl) _⟩
    rw [when, if_pos hv]
    rfl
  · refine ⟨w.heap a, ?_, rfl, rfl, rfl⟩
    rw [when, if_neg hv, World.setPeer, Function.update_eq_self]
    rfl

theorem openPeerRecord_opens {msg : Ptr} {rlen : Nat} {w' : World} {o : OpenRecord}
    (h : openPeerRecord env peer msg rlen w = (.ok (.ok o), w')) :
    Opens env ⟨peer, peer.map w.heap, msg, rlen⟩ w' o := by
  cases peer with
  | none =>
      cases h
      exact .fresh rfl rfl rfl (.inl rfl)
  | some a =>
      obtain ⟨p', hrun, hsec, hrole, hstate⟩ := @decryptVerify_apply env a msg rlen w
      rw [openPeerRecord, Program.bind_ok hrun, getPeer_bind, heap_setPeer] at h
      by_cases hneg : (decryptPacket env.prims (w.heap a) msg rlen).length < 0
      · rw [if_pos hneg] at h
        by_cases hs : hsAttemptWithExistingPeer
            (decryptPacket env.prims (w.heap a) msg rlen).packet p' = true
        · rw [if_pos hs] at h
          cases h
          refine .fresh rfl ?_ (decryptPacket_type _ _ _ _) (.inr ?_)
          · simp only [RecordCall.payload, Option.map_some, if_pos hneg, freshRecord]
          · rw [hsAttemptWithExistingPeer, decide_eq_true_iff, decryptPacket_type] at hs
            exact hs.2.1
        · rw [if_neg hs, Program.bind_apply] at h
          split at h
          · exact absurd (Prod.mk.inj h).1 nofun
          · exact absurd (Prod.mk.inj h).1 nofun
      · rw [if_neg hneg] at h
        cases h
        refine .opened a (w.heap a) rfl rfl (not_lt.mp hneg) ?_ ?_
        · rw [hrole, hstate]
        · rw [heap_setPeer, hsec]

theorem Opens.payload {r : RecordCall} {o : OpenRecord} (h : Opens env r w o) :
    (o.data, o.dataLength) = r.payload env := by
  cases h with
  | fresh state payload type handshake => exact payload
  | opened a p peer before length record security =>
      simp only [RecordCall.payload, before, if_neg (not_lt.mpr length), record]

theorem Opens.type {r : RecordCall} {o : OpenRecord} (h : Opens env r w o) :
    o.msg.uint8 = r.packet.uint8 := by
  cases h with
  | fresh state payload type handshake => exact type
  | opened a p peer before length record security => rw [record, decryptPacket_type]

theorem inner_openPeerRecord (peer : Option Addr) (msg : Ptr) (rlen : Nat) :
    Keeps (Inner env) (openPeerRecord env peer msg rlen) := by
  cases peer with
  | none => exact keeps_pure _
  | some a =>
      refine (inner_decryptVerify a msg rlen).bind fun opened => (keeps_gets _).bind fun p => ?_
      refine Keeps.ite (fun _ => Keeps.ite (fun _ => keeps_pure _) fun _ => ?_)
        fun _ => keeps_pure _
      exact (innerFrame.rejectRecord a p).bind fun _ => keeps_pure _

/-! ## Handling a record -/

/-- The epoch is what it has to be, or the record is the start of a handshake. -/
theorem checkEpoch_admitted {r : RecordCall} {o o' : OpenRecord} {w' : World}
    (ho : Opens env r w o) (h : checkEpoch r.peer o w = (.ok (some o'), w')) :
    w' = w ∧ o'.data = o.data ∧ o'.dataLength = o.dataLength ∧
      (o'.state = .waitClientHello ∨ ∃ a p, Admitted env r o'.role o'.state a p) := by
  cases hpeer : r.peer with
  | none =>
      rw [hpeer] at h
      cases h
      refine ⟨rfl, rfl, rfl, .inl ?_⟩
      cases ho with
      | fresh state payload type handshake => exact state
      | opened a p peer before length record security => exact nomatch hpeer.symm.trans peer
  | some a =>
      rw [hpeer, checkEpoch, getPeer_bind] at h
      -- what holds of the record if its epoch is the expected one
      have admitted (hepoch : ∀ s, (w.heap a).security0 = some s →
          expectedEpoch s o.role o.state = dtlsGetEpoch o.msg) :
          o.state = .waitClientHello ∨ ∃ a p, Admitted env r o.role o.state a p := by
        cases ho with
        | fresh state payload type handshake => exact .inl state
        | opened a' p peer before length record security =>
            cases hpeer.symm.trans peer
            refine .inr ⟨a, p, hpeer, before, ?_, ?_, length, fun s hs => ?_⟩
            · rw [record]
            · rw [record]
            · rw [hepoch s (security.trans hs), record, decryptPacket_epoch]
      cases hs : (w.heap a).security0 with
      | none =>
          rw [hs] at h
          cases h
          exact ⟨rfl, rfl, rfl, admitted fun s hs' => nomatch hs.symm.trans hs'⟩
      | some s =>
          simp only [hs] at h
          split at h
          · rename_i hepoch
            cases h
            refine ⟨rfl, rfl, rfl, admitted fun s' hs' => ?_⟩
            cases hs.symm.trans hs'
            exact hepoch
          split at h
          · cases h
            exact ⟨rfl, rfl, rfl, .inl rfl⟩
          · exact absurd (Prod.mk.inj h).1 nofun

theorem checkEpoch_apply (peer : Option Addr) (o : OpenRecord) (w : World) :
    (checkEpoch peer o w).2 = w := by
  cases peer with
  | none => rfl
  | some a =>
      rw [checkEpoch, getPeer_bind]
      cases (w.heap a).security0 with
      | none => rfl
      | some s =>
          simp only
          split
          · rfl
          split
          · rfl
          · rfl

theorem within_handshakeHandled (peer : Option Addr) (session : Session) (err : Int) :
    Keeps (Within env) (handshakeHandled env peer session err) := by
  refine Keeps.ite (fun _ => keeps_pure _) fun _ => Keeps.ite (fun _ => ?_) fun _ => ?_
  · exact (within_of_inner (innerFrame.alertSendFromErr peer session err)).bind
      fun _ => keeps_pure _
  cases peer with
  | none => exact keeps_pure _
  | some a =>
      refine (keeps_gets _).bind fun p => Keeps.bind ?_ fun _ => keeps_pure _
      exact Keeps.when fun _ => (within_of_inner (innerFrame.stopRetransmission a)).bind fun _ =>
        within_of_inner (innerFrame.still.callEvent _ _ _)

theorem within_handleHandshakeRecord (session : Session) {r : RecordCall} {o : OpenRecord}
    (record : currentRecord w.log = some r) (ho : Opens env r w o) :
    Within env w (handleHandshakeRecord env r.peer session o w).2 := by
  unfold handleHandshakeRecord
  refine Program.bind_keeps_from ?_ fun o' w' hcheck => ?_
  · rw [checkEpoch_apply]
    exact refl_of (Within env) w
  cases o' with
  | none =>
      exact refl_of (Within env) _
  | some o' =>
      obtain ⟨rfl, hdata, hlen, hadmitted⟩ := checkEpoch_admitted ho hcheck
      refine Program.bind_keeps_from (within_handleHandshake session record ?_ rfl hadmitted)
        fun err w'' _ => within_handshakeHandled _ _ _ w''
      rw [hdata, hlen]
      exact ho.payload

theorem inner_handleCcsRecord (peer : Option Addr) (session : Session) (o : OpenRecord) :
    Keeps (Inner env) (handleCcsRecord env peer session o) := by
  refine (innerFrame.stopRetransmissionOf peer).bind fun _ => ?_
  refine (inner_handleCcs peer _ _).bind fun err => Keeps.ite (fun _ => keeps_pure _) fun _ => ?_
  refine (innerFrame.alertSendFromErr peer session err).bind fun _ => ?_
  cases peer with
  | none => exact keeps_pure _
  | some a => exact (innerFrame.destroyPeer a).bind fun _ => keeps_pure _

theorem inner_handleAlertRecord (peer : Option Addr) (o : OpenRecord) :
    Keeps (Inner env) (handleAlertRecord env peer o) :=
  (innerFrame.stopRetransmissionOf peer).bind fun _ =>
    (innerFrame.handleAlert peer _ _).bind fun _ => keeps_pure _

theorem inner_handleApplicationRecord {r : RecordCall} {o : OpenRecord}
    (record : currentRecord w.log = some r) (ho : Opens env r w o)
    (type : o.msg.uint8 = dtlsCtApplicationData) :
    Inner env w (handleApplicationRecord env r.peer o w).2 := by
  cases hpeer : r.peer with
  | none => exact Inner.rfl w
  | some a =>
      rw [ho.type] at type
      cases ho with
      | fresh state payload type' handshake =>
          cases handshake with
          | inl none => exact nomatch hpeer.symm.trans none
          | inr handshake =>
              rw [type] at handshake
              exact absurd handshake (by decide)
      | opened a' p peer before length record' security =>
          cases hpeer.symm.trans peer
          subst record'
          exact Program.bind_keeps_from
            (inner_handleApplicationData record hpeer before type length) fun _ w' _ => Inner.rfl w'

theorem within_dispatchRecord (session : Session) {r : RecordCall} {o : OpenRecord}
    (record : currentRecord w.log = some r) (ho : Opens env r w o) :
    Within env w (dispatchRecord env r.peer session o w).2 := by
  unfold dispatchRecord
  split
  · exact (inner_handleCcsRecord r.peer session o w).within
  split
  · exact (inner_handleAlertRecord r.peer o w).within
  split
  · exact within_handleHandshakeRecord session record ho
  split
  · rename_i type
    exact (inner_handleApplicationRecord record ho type).within
  · exact refl_of (Within env) w

theorem steps_handleRecord (peer : Option Addr) (session : Session) (msg : Ptr) (rlen : Nat) :
    Keeps (Steps env) (handleRecord env peer session msg rlen) := by
  intro w
  let r : RecordCall := ⟨peer, peer.map w.heap, msg, rlen⟩
  rw [handleRecord, Program.gets_bind, emit_bind]
  have start : Steps env w (w.emitted (.record r)) := (Step.record w r rfl).steps
  refine trans_of (Steps env) start ?_
  have inner := @inner_openPeerRecord env peer msg rlen (w.emitted (.record r))
  refine Program.bind_keeps_from inner.steps fun opened w₁ hopened => ?_
  rw [hopened] at inner
  cases opened with
  | error err => exact refl_of (Steps env) w₁
  | ok o =>
      have ho : Opens env r w₁ o :=
        openPeerRecord_opens (w := w.emitted (.record r)) hopened
      exact Program.bind_keeps_from (within_dispatchRecord session inner.record ho).steps
        fun res w₂ _ => refl_of (Steps env) w₂

theorem steps_handleRecords (peer : Option Addr) (session : Session) (fuel : Nat) (msg : Ptr)
    (msglen : Nat) : Keeps (Steps env) (handleRecords env peer session fuel msg msglen) := by
  induction fuel generalizing msg msglen with
  | zero => exact keeps_pure _
  | succ fuel ih =>
      refine Keeps.ite (fun _ => keeps_pure _) fun _ => ?_
      refine (steps_handleRecord peer session msg _).bind fun next => ?_
      cases next with
      | error err => exact keeps_pure _
      | ok msg => exact ih msg _

/-! ## Runs -/

theorem steps_of_inner {α : Type} {m : M α} (h : Keeps (Inner env) m) : Keeps (Steps env) m :=
  h.mono fun _ _ h => h.steps

theorem steps_runInput (i : Input) : Keeps (Steps env) (runInput env i) := by
  cases i with
  | handleMessage session msg msglen =>
      refine Keeps.bind ?_ fun _ => keeps_pure _
      exact (keeps_gets _).bind fun peer => steps_handleRecords peer session _ msg msglen
  | checkRetransmit all => exact steps_of_inner (innerFrame.checkRetransmit all)
  | app call => exact steps_of_inner (innerFrame.runAppCall call)
  | resetPeer session =>
      refine (keeps_gets _).bind fun peer => ?_
      cases peer with
      | none => exact keeps_pure _
      | some a =>
          exact (steps_of_inner (innerFrame.stopRetransmission a)).bind fun _ =>
            steps_of_inner (innerFrame.destroyPeer a)

/-- **Every run is a sequence of steps.** -/
theorem steps_runInputs (is : List Input) : Keeps (Steps env) (runInputs env is) := by
  induction is with
  | nil => exact keeps_pure _
  | cons i is ih => exact (steps_runInput i).bind fun _ => ih

/-- An invariant of all steps that holds initially holds of every reachable world. -/
theorem Reachable.invariant {I : World → Prop} (step : ∀ w w', Step env w w' → I w → I w')
    (initial : ∀ w, Initial w → I w) {w : World} (h : Reachable env w) : I w := by
  obtain ⟨w₀, is, h₀, rfl⟩ := h
  exact (steps_runInputs is w₀).invariant step (initial w₀ h₀)

/-! ## A concrete process -/

/-- An address, with the given last byte of its port. -/
def sampleSession (port : UInt8) : Session :=
  (Vector.replicate 144 0).set! 8 2 |>.set! 11 port

/-- Surroundings in which every question has one answer. -/
def sampleEnv : Env where
  prims := {
    sha256 := fun _ => Vector.replicate 32 0
    rijndael := fun _ b => b
    ecdh := fun x _ _ => x
    ecdsaValidate := fun _ _ _ _ _ => 0 }
  ksnmss := constPrims
  random := fun _ _ => 0
  ticks := fun t => t
  timeofday := fun _ => ⟨0, 0⟩
  malloc := fun _ => true
  peerStorage := fun t => t
  uninitialised := fun _ => ⟨0, 0, fun _ => 0, 0, false⟩
  ecdsaKey := fun _ => (Vector.replicate 32 0, Vector.replicate 32 0, Vector.replicate 32 0)
  write := fun _ _ b => b.length
  read := fun _ _ _ _ => []
  getPskInfo := some fun _ _ _ _ _ => (1, fun _ => 0)
  getEcdsaKey := false
  verifyEcdsaKey := none

/-- A process that has set up its context. -/
def sampleWorld : World where
  cookieSecret := []
  peers := []
  sendqueue := []
  treqNonce := Vector.replicate 32 0
  tsync := readTeslaSync fun _ => 0
  rtt := 0
  tR := ⟨0, 0⟩
  startRtt := 0
  hmacKey1 := Vector.replicate 32 0
  signer := zeroSigner
  heap := fun _ => emptyPeer (sampleSession 0)
  live := fun _ => false
  tick := 0
  log := []

theorem sampleWorld_initial : Initial sampleWorld :=
  ⟨rfl, fun _ => rfl, rfl, rfl, fun _ => ⟨_, rfl⟩⟩

theorem sample_reachable (is : List Input) :
    Reachable sampleEnv (runInputs sampleEnv is sampleWorld).2 :=
  ⟨_, is, sampleWorld_initial, rfl⟩

/-- A record in the clear with one handshake fragment, the header not checked against
    the body. -/
def fragmentRecord (type length seq offset fragmentLength : Nat) (body : Bytes) : Bytes :=
  dtlsIntToUint8 dtlsCtHandshake ++ dtlsIntToUint16 dtlsVersion ++ List.replicate 8 0 ++
    dtlsIntToUint16 (dtlsHsLength + body.length) ++ dtlsIntToUint8 type ++
    dtlsIntToUint24 length ++ dtlsIntToUint16 seq ++ dtlsIntToUint24 offset ++
    dtlsIntToUint24 fragmentLength ++ body

/-- The arrival of a datagram. -/
def arrival (session : Session) (datagram : Bytes) : Input :=
  .handleMessage session (Ptr.ofBytes datagram) datagram.length

/-- A ClientHello that offers the PSK suite, with the cookie of the sample process. -/
def pskClientHello : Bytes :=
  dtlsIntToUint16 dtlsVersion ++ List.replicate 32 0 ++ [0, 16] ++ List.replicate 16 0 ++
    dtlsIntToUint16 2 ++ dtlsIntToUint16 tlsPskWithAes128Ccm8 ++ [1, 0]

/-- A server that waits for the ClientKeyExchange. -/
def helloReceived : List Input :=
  [arrival (sampleSession 0) (fragmentRecord dtlsHtClientHello pskClientHello.length 0 0
    pskClientHello.length pskClientHello)]

end PqDtls.Dtls
