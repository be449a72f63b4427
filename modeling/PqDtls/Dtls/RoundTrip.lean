import PqDtls.Dtls.Lifetime
import PqDtls.Dtls.Codec

/-! # A handshake message from one side to the other

    `dtls_send_handshake_msg_hash` cuts a message into fragments, and hashes it in one
    piece.  When the fragments come in their order, `handle_handshake` waits for the last
    one and then hands on that one piece: **`fragments_reassembled`**, for messages of any
    length that the receiver has room for. -/

namespace PqDtls.Dtls

open Program (get gets modify stop ofOption when)

variable {env env' : Env} {w w' : World} {a b : Addr} {session : Session} {role : DtlsPeerType}
  {state : DtlsState} {h : HandshakeParameters} {buf : HsReassemble}

/-! ## Buffers that hold a message -/

theorem holds_congr {p q : Ptr} {x : Bytes} (h : p.Holds x)
    (same : ∀ i : Nat, i < x.length → q i = p i) : q.Holds x :=
  (Ptr.bytes_congr same).trans h

/-- What is found in the buffer after a copy. -/
theorem write_ptr (buf : HsReassemble) (dst len : Nat) (src : Ptr) (i : Nat) :
    (buf.write dst len src).ptr i
      = if dst ≤ i ∧ i < dst + len then src ((i : Int) - dst) else buf.ptr i := by
  rw [ptr_natCast, ptr_natCast]
  rfl

/-- A copy to the place behind `x`. -/
theorem write_holds {x y y' z : Bytes} {dst len : Nat} {src : Ptr}
    (before : buf.ptr.Holds (x ++ (y ++ z))) (hx : x.length = dst) (hy : src.Holds y')
    (hy' : y'.length = len) (hlen : y.length = len) :
    (buf.write dst len src).ptr.Holds (x ++ (y' ++ z)) := by
  subst hx hy'
  have start := before.first
  have rest := (before.next rfl).next hlen
  refine holds_append.mpr ⟨holds_congr start fun i hi => ?_, holds_append.mpr
    ⟨holds_congr hy fun i hi => ?_, holds_congr rest fun i hi => ?_⟩⟩
  · rw [write_ptr, if_neg (by omega)]
  · show (buf.write x.length y'.length src).ptr ((i + x.length : Nat) : Int) = _
    rw [write_ptr, if_pos (by omega)]
    congr 1
    omega
  · show (buf.write x.length y'.length src).ptr ((i + y'.length + x.length : Nat) : Int) = _
    rw [write_ptr, if_neg (by omega)]
    rfl

/-- A copy to the end. -/
theorem write_behind {x y : Bytes} {dst len : Nat} {src : Ptr} (before : buf.ptr.Holds x)
    (hx : x.length = dst) (hy : src.Holds y) (hlen : y.length = len) :
    (buf.write dst len src).ptr.Holds (x ++ y) := by
  subst hx hlen
  refine holds_append.mpr ⟨holds_congr before fun i hi => ?_, holds_congr hy fun i hi => ?_⟩
  · rw [write_ptr, if_neg (by omega)]
  · show (buf.write x.length y.length src).ptr ((i + x.length : Nat) : Int) = _
    rw [write_ptr, if_pos (by omega)]
    congr 1
    omega

/-- The header of a whole message takes the place of that of its first fragment. -/
theorem rewriteHeader_holds {type n seq k : Nat} {body : Bytes}
    (before : buf.ptr.Holds (messageHeader type n seq 0 k ++ body))
    (length : buf.packetLength = n) :
    buf.rewriteHeader.ptr.Holds (messageHeader type n seq 0 n ++ body) := by
  have three (v : Nat) : (dtlsIntToUint24 v).length = 3 := length_intToBytes 3 v
  have encoded (v : Nat) : (Ptr.ofBytes (dtlsIntToUint24 v)).Holds (dtlsIntToUint24 v) :=
    ofBytes_holds _
  subst length
  rw [messageHeader, List.append_assoc, List.append_assoc, List.append_assoc, List.append_assoc]
    at before ⊢
  let offset := buf.write 6 3 (Ptr.ofBytes (dtlsIntToUint24 0))
  have offset_holds : offset.ptr.Holds
      ((dtlsIntToUint8 type ++ (dtlsIntToUint24 buf.packetLength ++ dtlsIntToUint16 seq)) ++
        (dtlsIntToUint24 0 ++ (dtlsIntToUint24 k ++ body))) := by
    refine write_holds (y := dtlsIntToUint24 0) ?_ rfl (encoded 0) (three 0) (three 0)
    rw [List.append_assoc, List.append_assoc]
    exact before
  rw [List.append_assoc, List.append_assoc] at offset_holds
  let length := offset.write 1 3 (Ptr.ofBytes (dtlsIntToUint24 buf.packetLength))
  have length_holds : length.ptr.Holds
      ((dtlsIntToUint8 type ++ (dtlsIntToUint24 buf.packetLength ++ (dtlsIntToUint16 seq ++
        dtlsIntToUint24 0))) ++ (dtlsIntToUint24 k ++ body)) := by
    rw [List.append_assoc, List.append_assoc, List.append_assoc]
    exact write_holds offset_holds rfl (encoded _) (three _) (three _)
  have whole : buf.rewriteHeader.ptr.Holds
      ((dtlsIntToUint8 type ++ (dtlsIntToUint24 buf.packetLength ++ (dtlsIntToUint16 seq ++
        dtlsIntToUint24 0))) ++ (dtlsIntToUint24 buf.packetLength ++ body)) :=
    write_holds length_holds rfl (encoded _) (three _) (three _)
  rw [List.append_assoc, List.append_assoc, List.append_assoc] at whole
  exact whole

/-! ## Fragments that are put together -/

/-- The buffer holds the message up to `off`. -/
structure Filled (type seq : Nat) (body : Bytes) (off : Nat) (buf : HsReassemble) : Prop where
  live : buf.live = true
  packetLength : buf.packetLength = body.length
  lastOffset : buf.lastOffset = off
  holds : ∃ k, buf.ptr.Holds (messageHeader type body.length seq 0 k ++ body.take off)

/-- The fragment of `k` bytes at `off`. -/
def fragmentAt (type seq : Nat) (body : Bytes) (off k : Nat) : Bytes :=
  messageHeader type body.length seq off k ++ (body.drop off).take k

theorem fragments_succ (type seq : Nat) (body : Bytes) (fuel remaining : Nat) :
    fragments type seq body (fuel + 1) remaining
      = fragmentAt type seq body (body.length - remaining) (min remaining dtlsMaxHsPayload) ::
        if remaining < dtlsMaxHsPayload ∨ remaining - dtlsMaxHsPayload = 0 then []
        else fragments type seq body fuel (remaining - dtlsMaxHsPayload) := rfl

theorem length_fragmentAt {type seq : Nat} {body : Bytes} {off k : Nat}
    (inside : off + k ≤ body.length) : (fragmentAt type seq body off k).length = 12 + k := by
  rw [fragmentAt, List.length_append, length_messageHeader, List.length_take, List.length_drop]
  omega

theorem handshakeHeader_fragmentAt {type seq : Nat} {body : Bytes} {off k : Nat}
    (fits : body.length < 2 ^ 24) (inside : off + k ≤ body.length) :
    handshakeHeader (Ptr.ofBytes (fragmentAt type seq body off k))
      = ⟨type % 2 ^ 8, body.length, seq % 2 ^ 16, off, k⟩ := by
  rw [fragmentAt, handshakeHeader_message, Nat.mod_eq_of_lt fits, Nat.mod_eq_of_lt (a := off)
    (by omega), Nat.mod_eq_of_lt (a := k) (by omega)]

/-- A copy goes on where the buffer ends. -/
theorem Filled.copy {type seq : Nat} {body : Bytes} {off k : Nat} {header : HandshakeHeader}
    (start : if off = 0 then buf.live = true ∧ buf.packetLength = body.length
      else Filled type seq body off buf)
    (offset : header.fragmentOffset = off) (length : header.fragmentLength = k)
    (inside : off + k ≤ body.length) (n : Nat) :
    Filled type seq body (off + k)
      (fragmentCopy b header buf (Ptr.ofBytes (fragmentAt type seq body off k)) n).result := by
  have hs : dtlsHsLength = 12 := rfl
  let copy := fragmentCopy b header buf (Ptr.ofBytes (fragmentAt type seq body off k)) n
  have written : copy.result.ptr = (buf.write copy.dst copy.len (copy.record.add copy.src)).ptr :=
    rfl
  by_cases first : off = 0
  · rw [if_pos first] at start
    have dst : copy.dst = 0 := by
      simp only [copy, fragmentCopy, offset, first, ne_eq, not_true_eq_false, if_false]
    have src : copy.src = 0 := by
      simp only [copy, fragmentCopy, offset, first, ne_eq, not_true_eq_false, if_false]
    have len : copy.len = k + 12 := by
      simp only [copy, fragmentCopy, offset, length, first, if_true, hs]
    refine ⟨start.1, start.2, congrArg₂ (· + ·) offset length, k, ?_⟩
    rw [written, dst, src, len, Nat.cast_zero, Ptr.add_zero, first, Nat.zero_add]
    have whole : messageHeader type body.length seq 0 k ++ body.take k
        = fragmentAt type seq body 0 k := by rw [fragmentAt, List.drop_zero]
    rw [whole, ← List.nil_append (fragmentAt type seq body 0 k)]
    refine write_behind (y := fragmentAt type seq body 0 k) rfl rfl ?_ ?_
    · rw [← first]
      exact ofBytes_holds _
    · rw [length_fragmentAt (by omega), Nat.add_comm]
  · rw [if_neg first] at start
    obtain ⟨front, holds⟩ := start.holds
    have dst : copy.dst = off + 12 := by
      simp only [copy, fragmentCopy, offset, ne_eq, first, not_false_eq_true, if_true, hs]
    have src : copy.src = 12 := by
      simp only [copy, fragmentCopy, offset, ne_eq, first, not_false_eq_true, if_true, hs]
    have len : copy.len = k := by
      simp only [copy, fragmentCopy, offset, length, first, if_false, Nat.add_zero]
    refine ⟨start.live, start.packetLength, congrArg₂ (· + ·) offset length, front, ?_⟩
    rw [written, dst, src, len, List.take_add, ← List.append_assoc]
    refine write_behind holds ?_ ?_ ?_
    · rw [List.length_append, length_messageHeader, List.length_take]
      omega
    · exact (ofBytes_holds (fragmentAt type seq body off k)).next (length_messageHeader _ _ _ _ _)
    · rw [List.length_take, List.length_drop]
      omega

/-! ## The receiver -/

/-- Only the buffer of the peer at `b` is another one, and time has passed. -/
def World.assembling (w : World) (b : Addr) (h : HandshakeParameters) (buf : Option HsReassemble)
    (tick : Nat) (l : List Event) : World :=
  { w.setPeer b { w.heap b with handshakeParams := some { h with reassembleBuf := buf } } with
    tick := tick
    log := l ++ w.log }

theorem assembling_params (w : World) (b : Addr) (h : HandshakeParameters)
    (buf : Option HsReassemble) (tick : Nat) (l : List Event) :
    ((w.assembling b h buf tick l).heap b).handshakeParams
      = some { h with reassembleBuf := buf } := by
  rw [World.assembling]
  show ((w.setPeer b _).heap b).handshakeParams = _
  rw [heap_setPeer]

theorem assembling_start (hp : (w.heap b).handshakeParams = some h) :
    w = w.assembling b h h.reassembleBuf w.tick [] := by
  have peer : { w.heap b with handshakeParams := some { h with
      reassembleBuf := h.reassembleBuf } } = w.heap b := by
    rw [← hp]
  rw [World.assembling, peer, World.setPeer, Function.update_eq_self]
  rfl

/-- The buffer changes. -/
theorem assembling_modify {f : HandshakeParameters → HandshakeParameters}
    {buf buf' : Option HsReassemble}
    (hf : f { h with reassembleBuf := buf } = { h with reassembleBuf := buf' }) (tick : Nat)
    (l : List Event) :
    modifyHandshake b f (w.assembling b h buf tick l) = (.ok (), w.assembling b h buf' tick l) := by
  rw [modifyHandshake_some f (assembling_params w b h buf tick l), hf]
  simp only [World.assembling, World.setPeer, Function.update_self, Function.update_idem]

/-- A buffer that can be released. -/
def Releasable (buf : Option HsReassemble) : Prop := ∀ x, buf = some x → x.live = true

theorem assembling_free {buf : Option HsReassemble} (live : Releasable buf) (tick : Nat)
    (l : List Event) :
    dtlsFreeReassembleBuffer b (w.assembling b h buf tick l)
      = (.ok (), w.assembling b h none tick l) := by
  cases buf with
  | none =>
      rw [dtlsFreeReassembleBuffer, getPeer_bind, assembling_params]
      rfl
  | some x =>
      rw [dtlsFreeReassembleBuffer, getPeer_bind, assembling_params, Option.bind_some]
      simp only [live x rfl, Bool.not_true, Bool.false_eq_true, if_false]
      exact assembling_modify rfl tick l

/-- There is storage whenever it is asked for. -/
def Env.Roomy (env : Env) : Prop := ∀ t, env.malloc t = true

theorem assembling_init (roomy : env.Roomy) (n tick : Nat) (l : List Event) :
    ∃ x, dtlsInitReassembleBuffer env b n (w.assembling b h none tick l)
        = (.ok true, w.assembling b h (some x) (tick + 2) l) ∧
      x.live = true ∧ x.packetLength = n ∧ x.lastOffset = 0 := by
  have found : ¬ (!env.malloc tick) = true := by
    rw [roomy]
    decide
  refine ⟨⟨0, n, (env.uninitialised tick).data, n + dtlsHsLength, true⟩, ?_, rfl, rfl, rfl⟩
  rw [dtlsInitReassembleBuffer, nextTick_bind]
  have tick' : (w.assembling b h none tick l).tick = tick := rfl
  rw [tick', if_neg found, malloc_bind, roomy]
  exact Program.bind_ok (assembling_modify rfl (tick + 2) l) _

/-- One copy, and the whole message behind the last one. -/
theorem assembling_append (header : HandshakeHeader) (data : Ptr) (n tick : Nat) (l : List Event) :
    appendFragment b header buf data n (w.assembling b h (some buf) tick l)
      = if (fragmentCopy b header buf data n).result.lastOffset < header.length then
          (.ok (.error dtlsHsFragmented),
            w.assembling b h (some (fragmentCopy b header buf data n).result) tick
              (.fragment (fragmentCopy b header buf data n) :: l))
        else
          (.ok (.ok ((wholeMessageOf b header buf data n).ptr,
              (wholeMessageOf b header buf data n).packetLength + dtlsHsLength)),
            w.assembling b h (some (wholeMessageOf b header buf data n)) tick
              (.deliver b (wholeMessageOf b header buf data n).packetLength
                (wholeMessageOf b header buf data n).data ::
                .fragment (fragmentCopy b header buf data n) :: l)) := by
  rw [appendFragment, emit_bind]
  show (modifyHandshake b _ >>= fun _ => _)
    (w.assembling b h (some buf) tick (.fragment (fragmentCopy b header buf data n) :: l)) = _
  rw [Program.bind_ok (assembling_modify rfl _ _)]
  split
  · rfl
  · rw [Program.bind_ok (assembling_modify rfl _ _)]
    rfl

/-- A fragment in its turn is copied. -/
theorem assembling_reassemble {type seq : Nat} {body : Bytes} {off k : Nat}
    {buf : Option HsReassemble} (roomy : env.Roomy) (max : body.length ≤ dtlsMaxBuf)
    (inside : off + k ≤ body.length)
    (start : if off = 0 then Releasable buf
      else ∃ x, buf = some x ∧ Filled type seq body off x) (tick : Nat) (l : List Event) :
    let data := Ptr.ofBytes (fragmentAt type seq body off k)
    let n := (fragmentAt type seq body off k).length
    ∃ x copy tick', Filled type seq body (off + k) x ∧
      reassemble env (some b) (handshakeHeader data) data n (w.assembling b h buf tick l)
        = if off + k < body.length then
            (.ok (.error dtlsHsFragmented),
              w.assembling b h (some x) tick' (.fragment copy :: l))
          else
            (.ok (.ok (x.rewriteHeader.ptr, body.length + dtlsHsLength)),
              w.assembling b h (some x.rewriteHeader) tick'
                (.deliver b body.length x.rewriteHeader.data :: .fragment copy :: l)) := by
  have size : dtlsMaxBuf = 30000 := rfl
  intro data n
  have header : handshakeHeader data = ⟨type % 2 ^ 8, body.length, seq % 2 ^ 16, off, k⟩ :=
    handshakeHeader_fragmentAt (by omega) inside
  -- the buffer that the fragment goes to
  have ready : ∃ x tick', firstFragment env b (handshakeHeader data) (w.assembling b h buf tick l)
        = (.ok true, w.assembling b h (some x) tick' l) ∧
      x.lastOffset = off ∧ if off = 0 then x.live = true ∧ x.packetLength = body.length
        else Filled type seq body off x := by
    by_cases first : off = 0
    · rw [if_pos first] at start
      obtain ⟨x, init, live, length, zero⟩ :=
        @assembling_init env w b h roomy body.length tick l
      refine ⟨x, tick + 2, ?_, zero.trans first.symm, ?_⟩
      · rw [firstFragment, header, if_pos first, Program.bind_ok (assembling_free start tick l)]
        exact init
      · rw [if_pos first]
        exact ⟨live, length⟩
    · rw [if_neg first] at start
      obtain ⟨x, rfl, filled⟩ := start
      refine ⟨x, tick, ?_, filled.lastOffset, ?_⟩
      · rw [firstFragment, header, if_neg first]
        rfl
      · rw [if_neg first]
        exact filled
  obtain ⟨x, tick', found, offset, place⟩ := ready
  have filled : Filled type seq body (off + k)
      (fragmentCopy b (handshakeHeader data) x data n).result :=
    Filled.copy place (by rw [header]) (by rw [header]) inside n
  refine ⟨_, fragmentCopy b (handshakeHeader data) x data n, tick', filled, ?_⟩
  have params : getHandshake b (w.assembling b h (some x) tick' l)
      = (.ok { h with reassembleBuf := some x }, w.assembling b h (some x) tick' l) :=
    getHandshake_apply (assembling_params w b h _ _ _)
  have small : ¬ (handshakeHeader data).length > dtlsMaxBuf := by
    rw [header]
    exact not_lt.mpr max
  have fits : ¬ (handshakeHeader data).fragmentOffset + (handshakeHeader data).fragmentLength
      > (handshakeHeader data).length := by
    rw [header]
    exact not_lt.mpr inside
  have turn : ¬ x.lastOffset ≠ (handshakeHeader data).fragmentOffset := by
    rw [header, offset]
    exact not_not.mpr rfl
  have length : (wholeMessageOf b (handshakeHeader data) x data n).packetLength = body.length :=
    filled.packetLength
  rw [reassemble, if_neg small, if_neg fits, ofOption, pure_bind, Program.bind_ok found]
  simp only [Bool.not_true, Bool.false_eq_true, if_false]
  rw [Program.bind_ok params]
  simp only
  rw [if_neg turn, assembling_append, filled.lastOffset, length]
  simp only [header]
  rfl

/-- Handshake records that come one after the other, and what each is answered with. -/
def handleFragments (env : Env) (peer : Option Addr) (session : Session) (role : DtlsPeerType)
    (state : DtlsState) : List Bytes → M (List Int)
  | [] => pure []
  | payload :: payloads => do
      let res ← handleHandshake env peer session role state (Ptr.ofBytes payload) payload.length
      let rest ← handleFragments env peer session role state payloads
      pure (res :: rest)

/-- What follows when a message has been handled: those that waited for it. -/
def replayAfter (env : Env) (b : Addr) (session : Session) (role : DtlsPeerType) (res : Int) :
    M Int :=
  if res < 0 then pure res
  else do
  let p ← getPeer b
  replayQueue env b session role (p.queueLength + 1) res

/-- Before the last fragment there is nothing to handle. -/
theorem handleHandshake_waits {peer : Option Addr} {data : Ptr} {n : Nat} {res : Int}
    (long : dtlsHsLength ≤ n) (part : Fragmented data)
    (hrun : reassemble env peer (handshakeHeader data) data n w = (.ok (.error res), w')) :
    handleHandshake env peer session role state data n w = (.ok res, w') := by
  have part : (handshakeHeader data).length > (handshakeHeader data).fragmentLength := part
  rw [handleHandshake, if_neg (not_lt.mpr long), if_pos part, Program.bind_ok hrun]
  rfl

/-- The expected message is handled when its buffer has been released. -/
theorem handleWhole_inTurn {buf : Option HsReassemble} {data : Ptr} {n : Nat}
    (live : Releasable buf) (turn : (handshakeHeader data).messageSeq = h.mseqR) (tick : Nat)
    (l : List Event) :
    handleWhole env (some b) session role state data n (w.assembling b h buf tick l)
      = (handleHandshakeMsg env (some b) session role state data n >>=
          replayAfter env b session role) (w.assembling b h none tick l) := by
  simp only [handleWhole]
  rw [getPeer_bind, assembling_params]
  simp only [handleInSequence]
  rw [if_neg turn.not_lt, if_neg turn.not_gt, Program.bind_ok (assembling_free live tick l)]
  rfl

/-- **RUN**: the fragments from `remaining` on, when what comes before is in the buffer. -/
theorem handleFragments_run {type seq : Nat} {body : Bytes} {fuel remaining : Nat}
    {buf : Option HsReassemble} (roomy : env.Roomy) (long : dtlsMaxHsPayload < body.length)
    (max : body.length ≤ dtlsMaxBuf) (hpos : 0 < fuel) (left : 0 < remaining)
    (hfuel : remaining ≤ fuel * dtlsMaxHsPayload) (inside : remaining ≤ body.length)
    (start : if body.length - remaining = 0 then Releasable buf
      else ∃ x, buf = some x ∧ Filled type seq body (body.length - remaining) x)
    (tick : Nat) {l : List Event} (hl : ∀ e ∈ l, e.reassembling) :
    ∃ front last w₁ x tick' l', fragments type seq body fuel remaining = front ++ [last] ∧
      handleFragments env (some b) session role state front (w.assembling b h buf tick l)
        = (.ok (List.replicate front.length dtlsHsFragmented), w₁) ∧
      handleHandshake env (some b) session role state (Ptr.ofBytes last) last.length w₁
        = handleWhole env (some b) session role state x.rewriteHeader.ptr
            (body.length + dtlsHsLength)
            (w.assembling b h (some x.rewriteHeader) tick' l') ∧
      Filled type seq body body.length x ∧ ∀ e ∈ l', e.reassembling := by
  have size : dtlsMaxHsPayload = 1252 := rfl
  have max' : dtlsMaxBuf = 30000 := rfl
  have hs : dtlsHsLength = 12 := rfl
  induction fuel generalizing remaining buf tick l with
  | zero => exact absurd hpos (lt_irrefl 0)
  | succ fuel ih =>
      have fits : body.length - remaining + min remaining dtlsMaxHsPayload ≤ body.length := by
        omega
      obtain ⟨x, copy, tick', filled, reassembled⟩ := @assembling_reassemble env w b h type seq body
        (body.length - remaining) (min remaining dtlsMaxHsPayload) buf roomy max fits start tick l
      have header := @handshakeHeader_fragmentAt type seq body (body.length - remaining)
        (min remaining dtlsMaxHsPayload) (by omega) fits
      have long' : dtlsHsLength ≤ (fragmentAt type seq body (body.length - remaining)
          (min remaining dtlsMaxHsPayload)).length := by
        rw [length_fragmentAt fits]
        omega
      have part : Fragmented (Ptr.ofBytes (fragmentAt type seq body (body.length - remaining)
          (min remaining dtlsMaxHsPayload))) := by
        rw [Fragmented, header]
        simp only
        omega
      rw [fragments_succ]
      by_cases hend : remaining < dtlsMaxHsPayload ∨ remaining - dtlsMaxHsPayload = 0
      · -- the last one
        have whole : body.length - remaining + min remaining dtlsMaxHsPayload = body.length := by
          omega
        rw [whole] at filled reassembled
        rw [if_neg (lt_irrefl _)] at reassembled
        rw [if_pos hend]
        refine ⟨[], _, _, x, tick', .deliver b body.length x.rewriteHeader.data ::
          .fragment copy :: l, rfl, rfl, ?_, filled, ?_⟩
        · exact handleHandshake_reassembled long' part reassembled
        · exact List.forall_mem_cons.mpr ⟨trivial, List.forall_mem_cons.mpr ⟨trivial, hl⟩⟩
      · have place : body.length - remaining + min remaining dtlsMaxHsPayload
            = body.length - (remaining - dtlsMaxHsPayload) := by omega
        have later : body.length - (remaining - dtlsMaxHsPayload) ≠ 0 := by omega
        rw [place] at filled reassembled
        rw [if_pos (by omega)] at reassembled
        have some_fuel : 0 < fuel := by
          rcases Nat.eq_zero_or_pos fuel with rfl | hf
          · omega
          · exact hf
        obtain ⟨front, last, w₁, y, tick'', l', pieces, run, ends, filled', hl'⟩ :=
          @ih (remaining - dtlsMaxHsPayload) (some x) some_fuel (by omega)
            (by rw [Nat.succ_mul] at hfuel; omega) (by omega)
            (by rw [if_neg later]; exact ⟨x, rfl, filled⟩) tick' (.fragment copy :: l)
            (List.forall_mem_cons.mpr ⟨trivial, hl⟩)
        rw [if_neg hend, pieces]
        refine ⟨fragmentAt type seq body (body.length - remaining)
          (min remaining dtlsMaxHsPayload) :: front, last, w₁, y, tick'', l', rfl, ?_, ends,
          filled', hl'⟩
        have one := @handleHandshake_waits env _ _ session role state (some b) _ _ _ long' part
          reassembled
        rw [handleFragments, Program.bind_ok one, Program.bind_ok run]
        rfl

/-! ## The message -/

/-- **ONE MESSAGE**, from its fragments: all but the last are kept, and with the last one
    it is handled. -/
theorem handleFragments_message {type seq : Nat} {body : Bytes} (roomy : env.Roomy)
    (hp : (w.heap b).handshakeParams = some h) (live : Releasable h.reassembleBuf)
    (max : body.length ≤ dtlsMaxBuf) (turn : h.mseqR = seq % 2 ^ 16) :
    ∃ front last w₁ ptr len tick l,
      fragments type seq body (body.length + 1) body.length = front ++ [last] ∧
      handleFragments env (some b) session role state front w
        = (.ok (List.replicate front.length dtlsHsFragmented), w₁) ∧
      handleHandshake env (some b) session role state (Ptr.ofBytes last) last.length w₁
        = (handleHandshakeMsg env (some b) session role state ptr len >>=
            replayAfter env b session role) (w.assembling b h none tick l) ∧
      (∀ e ∈ l, e.reassembling) ∧ ptr.bytes len = wholeMessage type seq body := by
  have size : dtlsMaxHsPayload = 1252 := rfl
  have max' : dtlsMaxBuf = 30000 := rfl
  have hs : dtlsHsLength = 12 := rfl
  have start := assembling_start hp
  by_cases long : dtlsMaxHsPayload < body.length
  · obtain ⟨front, last, w₁, x, tick, l, pieces, run, ends, filled, hl⟩ :=
      @handleFragments_run env w b session role state h type seq body (body.length + 1)
        body.length h.reassembleBuf roomy long max (Nat.succ_pos _) (by omega)
        (by rw [size]; omega) (le_refl _) (by rw [Nat.sub_self, if_pos rfl]; exact live) w.tick []
        (List.forall_mem_nil _)
    rw [← start] at run
    obtain ⟨k, holds⟩ := filled.holds
    rw [List.take_length] at holds
    have whole := rewriteHeader_holds holds filled.packetLength
    have bytes := whole.bytes (n := body.length + dtlsHsLength) (by
      rw [List.length_append, length_messageHeader, hs, Nat.add_comm])
    have header : handshakeHeader x.rewriteHeader.ptr
        = ⟨type % 2 ^ 8, body.length % 2 ^ 24, seq % 2 ^ 16, 0 % 2 ^ 24, body.length % 2 ^ 24⟩ := by
      rw [← handshakeHeader_message type body.length seq 0 body.length body]
      refine handshakeHeader_congr fun i hi => ?_
      refine Ptr.eq_of_bytes (whole.trans (ofBytes_holds _).symm) ?_
      rw [List.length_append, length_messageHeader]
      omega
    refine ⟨front, last, w₁, x.rewriteHeader.ptr, body.length + dtlsHsLength, tick, l, pieces,
      run, ?_, hl, bytes⟩
    rw [ends]
    refine handleWhole_inTurn (fun y hy => ?_) ?_ tick l
    · cases hy
      exact filled.live
    · rw [header, turn]
  · have one : fragments type seq body (body.length + 1) body.length
        = [] ++ [fragmentAt type seq body 0 body.length] := by
      have ends : body.length < dtlsMaxHsPayload ∨ body.length - dtlsMaxHsPayload = 0 := by omega
      rw [fragments_succ, if_pos ends, Nat.sub_self, Nat.min_eq_left (by omega)]
      rfl
    have header := @handshakeHeader_fragmentAt type seq body 0 body.length (by omega) (by omega)
    have whole : fragmentAt type seq body 0 body.length = wholeMessage type seq body := by
      rw [fragmentAt, wholeMessage, List.drop_zero, List.take_length]
    refine ⟨[], _, w, Ptr.ofBytes (fragmentAt type seq body 0 body.length), _, w.tick, [], one, rfl,
      ?_, List.forall_mem_nil _, (Ptr.ofBytes_bytes _).trans whole⟩
    have unbroken : ¬ (handshakeHeader (Ptr.ofBytes (fragmentAt type seq body 0
        body.length))).length > (handshakeHeader (Ptr.ofBytes (fragmentAt type seq body 0
          body.length))).fragmentLength := by
      rw [header]
      exact lt_irrefl _
    rw [handleHandshake, if_neg (by rw [length_fragmentAt (by omega)]; omega), if_neg unbroken]
    nth_rewrite 1 [start]
    refine handleWhole_inTurn live ?_ _ _
    rw [header, turn]

/-- A peer that waits for the message of number `n`. -/
def messageAwaited (n : Nat) : World :=
  clientWaiting.setPeer 1 { clientWaiting.heap 1 with
    handshakeParams := some { emptyHandshake with mseqR := n } }

end PqDtls.Dtls
