import PqDtls.Dtls.Epochs
import PqDtls.Dtls.Reassembly
import PqDtls.Dtls.Peerless

/-! # The life of a reassembly buffer

    A message that was put together from fragments is handled where it lies: the data
    of `handle_handshake_msg` is the data of the buffer.  The buffer is released before
    the message is handled, with the remark that the packet "has been processed";
    **`handledLive_iff`** says which fragments lead to a read of released storage. -/

namespace PqDtls.Dtls

open Program (get gets modify stop ofOption when Keeps bind_keeps_from)
open History

variable {env : Env} {w w' w₁ : World} {a : Addr} {peer : Option Addr} {session : Session}
  {role : DtlsPeerType} {state : DtlsState} {data : Ptr} {dataLength : Nat}
  {header : HandshakeHeader} {h : HandshakeParameters} {buf : HsReassemble} {m : Ptr × Nat}

/-! ## Live buffers -/

/-- The bytes at `data` are those of a live reassembly buffer of the peer. -/
def Peer.Backs (p : Peer) (data : Ptr) : Prop :=
  ∃ buf, p.buffer = some buf ∧ buf.live = true ∧ buf.ptr = data

/-- The message is read from a live buffer. -/
def HandshakeCall.ReadsLive (c : HandshakeCall) : Prop := ∃ p, c.before = some p ∧ p.Backs c.data

/-- A message that this run of `handle_handshake` reassembles is handled, if it is handled
    at all, while its buffer is live. -/
def HandledLive (env : Env) (peer : Option Addr) (session : Session) (role : DtlsPeerType)
    (state : DtlsState) (data : Ptr) (dataLength : Nat) (w : World) : Prop :=
  ∀ m w₁, Fragmented data →
    reassemble env peer (handshakeHeader data) data dataLength w = (.ok (.ok m), w₁) →
    ∀ c, .message c :: w₁.log <:+
        (handleHandshake env peer session role state data dataLength w).2.log →
      c.ReadsLive

/-- The fragment is the last one of the message in the buffer, and that message is the one
    whose turn it is. -/
structure LastOfExpected (h : HandshakeParameters) (buf : HsReassemble)
    (header : HandshakeHeader) : Prop where
  live : buf.live = true
  next : buf.lastOffset = header.fragmentOffset
  part : header.fragmentLength < header.length
  last : header.fragmentOffset + header.fragmentLength = header.length
  max : header.length ≤ dtlsMaxBuf
  turn : (handshakeHeader buf.ptr).messageSeq = h.mseqR

instance (h : HandshakeParameters) (buf : HsReassemble) (header : HandshakeHeader) :
    Decidable (LastOfExpected h buf header) :=
  decidable_of_iff (buf.live = true ∧ buf.lastOffset = header.fragmentOffset ∧
      header.fragmentLength < header.length ∧
      header.fragmentOffset + header.fragmentLength = header.length ∧
      header.length ≤ dtlsMaxBuf ∧ (handshakeHeader buf.ptr).messageSeq = h.mseqR)
    ⟨fun ⟨live, next, part, last, max, turn⟩ => ⟨live, next, part, last, max, turn⟩,
      fun ⟨live, next, part, last, max, turn⟩ => ⟨live, next, part, last, max, turn⟩⟩

/-- A fragment completes the expected message. -/
def CompletesExpected (w : World) (peer : Option Addr) (data : Ptr) (dataLength : Nat) : Prop :=
  dtlsHsLength ≤ dataLength ∧ ∃ a h buf, peer = some a ∧
    (w.heap a).handshakeParams = some h ∧ h.reassembleBuf = some buf ∧
    LastOfExpected h buf (handshakeHeader data)

/-! ## The last fragment -/

/-- The message in the buffer after the last fragment. -/
def wholeMessageOf (a : Addr) (header : HandshakeHeader) (buf : HsReassemble) (data : Ptr)
    (dataLength : Nat) : HsReassemble :=
  (fragmentCopy a header buf data dataLength).result.rewriteHeader

/-- The message keeps the sequence number of its first fragment. -/
theorem messageSeq_wholeMessageOf (later : header.fragmentOffset ≠ 0) :
    (handshakeHeader (wholeMessageOf a header buf data dataLength).ptr).messageSeq
      = (handshakeHeader buf.ptr).messageSeq := by
  rw [wholeMessageOf, (rewriteHeader_shared _).2]
  have start : (fragmentCopy a header buf data dataLength).dst
      = header.fragmentOffset + dtlsHsLength := by
    simp only [fragmentCopy, later, ne_eq, not_false_eq_true, if_true]
  have hs : dtlsHsLength = 12 := rfl
  refine congrArg HandshakeHeader.messageSeq (handshakeHeader_congr fun i hi => ?_)
  rw [ptr_natCast, ptr_natCast, result_data, if_neg (by omega)]
  rfl

/-- Before the last fragment there is no message. -/
theorem appendFragment_unfinished
    (hpart : header.fragmentOffset + header.fragmentLength < header.length) :
    appendFragment a header buf data dataLength w ≠ (.ok (.ok m), w₁) := by
  intro hrun
  rw [appendFragment, emit_bind, Program.bind_apply] at hrun
  split at hrun
  · rw [if_pos (show (fragmentCopy a header buf data dataLength).result.lastOffset
      < header.length from hpart)] at hrun
    cases hrun
  · cases hrun

/-- After it there is one, in the buffer. -/
theorem appendFragment_last (hp : (w.heap a).handshakeParams = some h)
    (hlast : header.fragmentOffset + header.fragmentLength = header.length) :
    ∃ w₁ e, appendFragment a header buf data dataLength w
        = (.ok (.ok ((wholeMessageOf a header buf data dataLength).ptr,
            (wholeMessageOf a header buf data dataLength).packetLength + dtlsHsLength)), w₁) ∧
      (w₁.heap a).handshakeParams
        = some { h with reassembleBuf := some (wholeMessageOf a header buf data dataLength) } ∧
      w₁.log = e :: .fragment (fragmentCopy a header buf data dataLength) :: w.log := by
  have last : ¬ (fragmentCopy a header buf data dataLength).result.lastOffset < header.length :=
    not_lt.mpr hlast.ge
  rw [appendFragment, emit_bind,
    Program.bind_ok (modifyHandshake_buffer (w := w.emitted _) hp rfl), if_neg last]
  have hp₁ : (((w.emitted (.fragment (fragmentCopy a header buf data dataLength))).setPeer a
      ((w.heap a).setBuffer (some (fragmentCopy a header buf data dataLength).result))).heap
        a).handshakeParams = some { h with
          reassembleBuf := some (fragmentCopy a header buf data dataLength).result } := by
    rw [heap_setPeer, setBuffer_eq hp]
  refine ⟨_, _, Program.bind_ok (modifyHandshake_buffer hp₁ rfl) _, ?_, rfl⟩
  show (((World.setPeer _ a _).emitted _).heap a).handshakeParams = _
  simp only [World.emitted, heap_setPeer, Peer.setBuffer, hp, Option.map_some]
  rfl

/-- A message that was reassembled was completed by a copy. -/
theorem reassemble_appends
    (hrun : reassemble env peer header data dataLength w = (.ok (.ok m), w₁)) :
    ∃ a w₂ h buf, peer = some a ∧ firstFragment env a header w = (.ok true, w₂) ∧
      (w₂.heap a).handshakeParams = some h ∧ h.reassembleBuf = some buf ∧
      buf.lastOffset = header.fragmentOffset ∧ header.length ≤ dtlsMaxBuf ∧
      header.fragmentOffset + header.fragmentLength ≤ header.length ∧
      appendFragment a header buf data dataLength w₂ = (.ok (.ok m), w₁) := by
  unfold reassemble at hrun
  by_cases hmax : header.length > dtlsMaxBuf
  · rw [if_pos hmax] at hrun
    cases hrun
  rw [if_neg hmax] at hrun
  by_cases hin : header.fragmentOffset + header.fragmentLength > header.length
  · rw [if_pos hin] at hrun
    cases hrun
  rw [if_neg hin] at hrun
  cases peer with
  | none => cases hrun
  | some a =>
      rw [ofOption, pure_bind] at hrun
      rcases hfirst : firstFragment env a header w with ⟨_ | found, w₂⟩
      · rw [Program.bind_error hfirst] at hrun
        cases hrun
      rw [Program.bind_ok hfirst] at hrun
      cases found with
      | false => cases hrun
      | true =>
          simp only [Bool.not_true, Bool.false_eq_true, if_false] at hrun
          cases hp : (w₂.heap a).handshakeParams with
          | none =>
              rw [Program.bind_error (getHandshake_absent hp)] at hrun
              cases hrun
          | some h =>
              rw [Program.bind_ok (getHandshake_apply hp)] at hrun
              cases hb : h.reassembleBuf with
              | none =>
                  simp only [hb] at hrun
                  cases hrun
              | some buf =>
                  simp only [hb] at hrun
                  by_cases next : buf.lastOffset ≠ header.fragmentOffset
                  · rw [if_pos next] at hrun
                    cases hrun
                  · rw [if_neg next] at hrun
                    exact ⟨a, w₂, h, buf, rfl, hfirst, hp, hb, not_not.mp next, not_lt.mp hmax,
                      not_lt.mp hin, hrun⟩

/-- **REASSEMBLY** ends in a message only with the last fragment of the one in the buffer. -/
theorem reassemble_ok (hpart : header.fragmentLength < header.length)
    (hrun : reassemble env peer header data dataLength w = (.ok (.ok m), w₁)) :
    ∃ a h buf e, peer = some a ∧ (w.heap a).handshakeParams = some h ∧
      h.reassembleBuf = some buf ∧ buf.lastOffset = header.fragmentOffset ∧
      header.fragmentOffset + header.fragmentLength = header.length ∧
      header.length ≤ dtlsMaxBuf ∧
      m.1 = (wholeMessageOf a header buf data dataLength).ptr ∧
      (w₁.heap a).handshakeParams
        = some { h with reassembleBuf := some (wholeMessageOf a header buf data dataLength) } ∧
      w₁.log = e :: .fragment (fragmentCopy a header buf data dataLength) :: w.log := by
  obtain ⟨a, w₂, h, buf, hpeer, hfirst, hp, hb, next, max, inside, happ⟩ := reassemble_appends hrun
  have last : header.fragmentOffset + header.fragmentLength = header.length := by
    by_contra hne
    exact appendFragment_unfinished (by omega) happ
  -- it is not the first one, so the buffer is the one that was there before
  have later : ¬ header.fragmentOffset = 0 := by omega
  rw [firstFragment, if_neg later] at hfirst
  cases hfirst
  obtain ⟨w', e, happ', hp', hlog⟩ :=
    @appendFragment_last w a data dataLength header h buf hp last
  cases happ.symm.trans happ'
  exact ⟨a, h, buf, e, hpeer, hp, hb, next, last, max, rfl, hp', hlog⟩

/-- With it, it does. -/
theorem reassemble_last (last : LastOfExpected h buf header)
    (hp : (w.heap a).handshakeParams = some h) (hb : h.reassembleBuf = some buf) :
    ∃ m w₁, reassemble env (some a) header data dataLength w = (.ok (.ok m), w₁) := by
  have part := last.part
  have whole := last.last
  have later : ¬ header.fragmentOffset = 0 := by omega
  obtain ⟨w₁, e, happ, -⟩ := @appendFragment_last w a data dataLength header h buf hp whole
  refine ⟨((wholeMessageOf a header buf data dataLength).ptr, _), w₁, Eq.trans ?_ happ⟩
  rw [reassemble, if_neg (not_lt.mpr last.max), if_neg (not_lt.mpr whole.le), ofOption, pure_bind,
    firstFragment, if_neg later, pure_bind]
  simp only [Bool.not_true, Bool.false_eq_true, if_false]
  rw [Program.bind_ok (getHandshake_apply hp)]
  simp only [hb]
  rw [if_neg (not_not.mpr last.next)]

/-! ## What is logged -/

/-- The record of events only grows. -/
def Later (w w' : World) : Prop := w.log <:+ w'.log

instance : IsPreorder World Later where
  refl _ := List.suffix_refl _
  trans _ _ _ h h' := h.trans h'

theorem Move.later {op : Op} (h : Move env w op w') : Later w w' := by
  cases h with
  | quiet silent =>
      obtain ⟨l, hl, -⟩ := silent.log
      exact ⟨l, hl.symm⟩
  | enter a s => exact ⟨[_], rfl⟩
  | send a slot s session type payload hs => exact ⟨[_, _], rfl⟩
  | sendPlain session type payload => exact ⟨[_, _], rfl⟩
  | _ => exact List.suffix_refl _

theorem later_of_path {l : List (World × Op)} (path : Path (Move env) w l w') : Later w w' := by
  induction path with
  | nil => exact refl_of Later w
  | snoc _ last ih => exact trans_of Later ih last.later

theorem later_of_guarded {α : Type} {m : M α} {pre : Prop} {post : α → World → Prop}
    (hm : (epochs env).Guarded pre m w post) : Later w (m w).2 := by
  obtain ⟨l, path, -⟩ := hm
  exact later_of_path path

/-- The first thing that is seen of a message is that it is handled. -/
theorem later_handleHandshakeMsg :
    Later (w.emitted (.message ⟨peer, role, state, peer.map w.heap, data, dataLength⟩))
      (handleHandshakeMsg env peer session role state data dataLength w).2 := by
  obtain ⟨l, hl, -⟩ := (inner_handleHandshakeMsg session).log
  exact ⟨l, hl.symm⟩

/-! ## The message is handled -/

theorem handleHandshake_reassembled (hlen : dtlsHsLength ≤ dataLength) (hf : Fragmented data)
    (hrun : reassemble env peer (handshakeHeader data) data dataLength w = (.ok (.ok m), w₁)) :
    handleHandshake env peer session role state data dataLength w
      = handleWhole env peer session role state m.1 m.2 w₁ := by
  have part : (handshakeHeader data).length > (handshakeHeader data).fragmentLength := hf
  rw [handleHandshake, if_neg (not_lt.mpr hlen), if_pos part, Program.bind_ok hrun]

/-- Out of turn, nothing is seen of a message. -/
theorem handleInSequence_waits (hp : (w.heap a).handshakeParams = some h)
    (turn : (handshakeHeader data).messageSeq ≠ h.mseqR) :
    (handleInSequence env a h session role state data dataLength w).2.log = w.log := by
  rw [handleInSequence]
  by_cases stale : (handshakeHeader data).messageSeq < h.mseqR
  · rw [if_pos stale]
    rfl
  rw [if_neg stale, if_pos (by omega), queueMessage]
  by_cases big : dataLength > dtlsMaxBuf
  · rw [if_pos big]
    rfl
  rw [if_neg big]
  split
  · rfl
  rw [malloc_bind]
  cases env.malloc w.tick with
  | false => rfl
  | true =>
      rw [when, if_pos rfl, Program.bind_ok (modifyHandshake_some (w := w.asked) _ hp)]
      rfl

theorem freeReassembleBuffer_live (hp : (w.heap a).handshakeParams = some h)
    (hb : h.reassembleBuf = some buf) (live : buf.live = true) :
    dtlsFreeReassembleBuffer a w
      = (.ok (), w.setPeer a { w.heap a with handshakeParams := some { h with
          reassembleBuf := none } }) := by
  rw [dtlsFreeReassembleBuffer, getPeer_bind, hp, Option.bind_some, hb]
  simp only [live, Bool.not_true, Bool.false_eq_true, if_false]
  exact modifyHandshake_some _ hp

/-- In turn, it is handled, after its buffer was released. -/
theorem handleInSequence_released (hp : (w.heap a).handshakeParams = some h)
    (hb : h.reassembleBuf = some buf) (live : buf.live = true)
    (turn : (handshakeHeader data).messageSeq = h.mseqR) :
    ∃ c, ¬ c.ReadsLive ∧ c.data = data ∧ .message c :: w.log <:+
      (handleInSequence env a h session role state data dataLength w).2.log := by
  let p : Peer := { w.heap a with handshakeParams := some { h with reassembleBuf := none } }
  refine ⟨⟨some a, role, state, some p, data, dataLength⟩, ?_, rfl, ?_⟩
  · rintro ⟨q, hq, buf', hbuf, -⟩
    cases hq
    cases hbuf
  · rw [handleInSequence, if_neg turn.not_lt, if_neg turn.not_gt,
      Program.bind_ok (freeReassembleBuffer_live hp hb live)]
    have first : Later ((w.setPeer a p).emitted
        (.message ⟨some a, role, state, (some a).map (w.setPeer a p).heap, data, dataLength⟩))
        (handleHandshakeMsg env (some a) session role state data dataLength (w.setPeer a p)).2 :=
      later_handleHandshakeMsg
    rw [Option.map_some, heap_setPeer] at first
    rw [Program.bind_apply]
    rcases hrun : handleHandshakeMsg env (some a) session role state data dataLength
      (w.setPeer a p) with ⟨_ | res, w₁⟩ <;> rw [hrun] at first
    · exact first
    refine first.trans ?_
    by_cases failed : res < 0
    · simp only [if_pos failed]
      exact List.suffix_refl _
    · simp only [if_neg failed]
      exact later_of_guarded (Discipline.Guarded.gets_bind (guarded_replayQueue a session _ res))

/-! ## Runs of `handle_handshake` -/

theorem not_suffix_cons {e : Event} {l l' : List Event} (h : e :: l <:+ l') (hl : l' <:+ l) :
    False := by
  have le := (h.trans hl).length_le
  rw [List.length_cons] at le
  omega

/-- A message out of turn, or in a buffer that was released before, is not handled. -/
theorem handleInSequence_unhandled (hp : (w.heap a).handshakeParams = some h)
    (hb : h.reassembleBuf = some buf)
    (out : ¬ (buf.live = true ∧ (handshakeHeader data).messageSeq = h.mseqR)) :
    (handleInSequence env a h session role state data dataLength w).2.log = w.log := by
  by_cases turn : (handshakeHeader data).messageSeq = h.mseqR
  · have dead : buf.live = false := Bool.eq_false_iff.mpr fun live => out ⟨live, turn⟩
    have stopped : dtlsFreeReassembleBuffer a w = (.error .doubleFree, w) := by
      rw [dtlsFreeReassembleBuffer, getPeer_bind, hp, Option.bind_some, hb]
      simp only [dead, Bool.not_false, if_true]
      rfl
    rw [handleInSequence, if_neg turn.not_lt, if_neg turn.not_gt, Program.bind_error stopped]
  · exact handleInSequence_waits hp turn

theorem handleWhole_params (hp : (w.heap a).handshakeParams = some h) :
    handleWhole env (some a) session role state data dataLength w
      = handleInSequence env a h session role state data dataLength w := by
  rw [handleWhole, getPeer_bind, hp]

/-- A fragment that completes the expected message makes it be read from storage that was
    given back. -/
theorem not_handledLive (completes : CompletesExpected w peer data dataLength) :
    ¬ HandledLive env peer session role state data dataLength w := by
  obtain ⟨hlen, a, h, buf, rfl, hp, hb, last⟩ := completes
  intro live
  have part := last.part
  have whole := last.last
  obtain ⟨m, w₁, hrun⟩ := @reassemble_last env w a data dataLength _ h buf last hp hb
  obtain ⟨a', h', buf', e, ha, hp', hb', -, -, -, hm, hp₁, -⟩ := reassemble_ok part hrun
  cases ha
  cases hp.symm.trans hp'
  cases hb.symm.trans hb'
  have turn : (handshakeHeader m.1).messageSeq = h.mseqR := by
    rw [hm, messageSeq_wholeMessageOf (by omega)]
    exact last.turn
  obtain ⟨c, dead, -, seen⟩ := @handleInSequence_released env w₁ a session role state m.1 m.2 _
    _ hp₁ rfl last.live turn
  refine dead (live m w₁ part hrun c ?_)
  rw [handleHandshake_reassembled hlen part hrun, handleWhole_params hp₁]
  exact seen

/-- Other messages that are reassembled are not handled. -/
theorem handledLive_of_not (out : ¬ CompletesExpected w peer data dataLength) :
    HandledLive env peer session role state data dataLength w := by
  intro m w₁ part hrun c seen
  obtain ⟨a, h, buf, e, rfl, hp, hb, next, last, max, hm, hp₁, hlog⟩ := reassemble_ok part hrun
  refine (not_suffix_cons seen ?_).elim
  by_cases hlen : dataLength < dtlsHsLength
  · rw [handleHandshake, if_pos hlen, hlog]
    exact ⟨[e, _], rfl⟩
  have hlen := not_lt.mp hlen
  rw [handleHandshake_reassembled hlen part hrun, handleWhole_params hp₁]
  have part' : (handshakeHeader data).fragmentLength < (handshakeHeader data).length := part
  rw [handleInSequence_unhandled hp₁ rfl]
  rintro ⟨live, turn⟩
  rw [hm, messageSeq_wholeMessageOf (by omega)] at turn
  exact out ⟨hlen, a, h, buf, rfl, hp, hb, live, next, part, last, max, turn⟩

/-- **LIFETIME**: in a run of `handle_handshake`, a message that is reassembled is read from
    a live buffer only when it is not read at all, that is, when the fragment does not
    complete the message whose turn it is. -/
theorem handledLive_iff (env : Env) (peer : Option Addr) (session : Session)
    (role : DtlsPeerType) (state : DtlsState) (data : Ptr) (dataLength : Nat) (w : World) :
    HandledLive env peer session role state data dataLength w ↔
      ¬ CompletesExpected w peer data dataLength :=
  ⟨fun live completes => not_handledLive completes live, handledLive_of_not⟩

/-- A client that was sent the first of two fragments of a ServerHello. -/
def halfServerHello : List Input :=
  [.app (.connect (sampleSession 0)),
    arrival (sampleSession 0) (fragmentRecord dtlsHtServerHello 2 0 0 1 [0])]

/-- The second one. -/
def lastFragment : Bytes :=
  (fragmentRecord dtlsHtServerHello 2 0 1 1 [0]).drop dtlsRhLength

/-- The message is read from the buffer that was released. -/
theorem handledLive_released :
    ¬ ∀ (env : Env) (w : World), Reachable env w → ∀ peer session role state data dataLength,
      HandledLive env peer session role state data dataLength w := by
  intro h
  let w := (runInputs sampleEnv halfServerHello sampleWorld).2
  have half : ∃ a ∈ w.peers, ((w.heap a).handshakeParams.any fun h =>
      h.reassembleBuf.any fun buf =>
        LastOfExpected h buf (handshakeHeader (Ptr.ofBytes lastFragment))) = true := by
    decide +kernel
  obtain ⟨a, -, half⟩ := half
  obtain ⟨hs, hp, half⟩ := (Option.any_eq_true _ _).mp half
  obtain ⟨buf, hb, last⟩ := (Option.any_eq_true _ _).mp half
  have live := h sampleEnv w (sample_reachable halfServerHello) (some a) (sampleSession 0) .client
    .clientHello (Ptr.ofBytes lastFragment) lastFragment.length
  exact not_handledLive ⟨by decide, a, hs, buf, rfl, hp, hb, of_decide_eq_true last⟩ live

end PqDtls.Dtls
