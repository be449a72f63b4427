import PqDtls.Dtls.Runs

/-! # Reassembly of fragments

    What a run of the engine does to reassembly buffers.  The first part says once
    which steps touch a buffer; the second is about the bounds of the copies, the
    third about what a reassembled message consists of.

    Neither holds of every run: the checks on a fragment use its own header, while
    the buffer was made for the first fragment, and the length of the record is
    not looked at.  Both theorems name the fragments for which this goes well. -/

namespace PqDtls.Dtls

variable {env : Env} {w w' : World}

/-! ## Steps and buffers -/

/-- An event of the reassembly. -/
def Event.reassembling : Event → Prop
  | .fragment _ | .deliver .. => True
  | _ => False

/-- What a step does to the buffers. -/
inductive BufferStep (w w' : World) : Prop
  | other (buffer : ∀ a, (w'.heap a).buffer = (w.heap a).buffer ∨ FreshBuffer (w'.heap a).buffer)
      (log : ∃ l, w'.log = l ++ w.log ∧ ∀ e ∈ l, ¬ e.reassembling)
  | fragment (a : Addr) (header : HandshakeHeader) (buf : HsReassemble) (data : Ptr)
      (dataLength : Nat) (before : (w.heap a).buffer = some buf) (fits : Fits header buf data)
      (after : (w'.heap a).buffer = some (fragmentCopy a header buf data dataLength).result)
      (frame : ∀ b, b ≠ a → w'.heap b = w.heap b)
      (log : w'.log = .fragment (fragmentCopy a header buf data dataLength) :: w.log)
  | deliver (c : FragmentCopy) (rest : List Event) (last : w.log = .fragment c :: rest)
      (before : (w.heap c.peer).buffer = some c.result)
      (whole : c.header.length ≤ c.result.lastOffset)
      (after : (w'.heap c.peer).buffer = some c.result.rewriteHeader)
      (frame : ∀ b, b ≠ c.peer → w'.heap b = w.heap b)
      (log : w'.log = .deliver c.peer c.result.packetLength c.result.rewriteHeader.data :: w.log)

theorem buffer_of_core {p p' : Peer} (h : p'.core = p.core) : p'.buffer = p.buffer := by
  have hs : p'.handshakeParams.map HandshakeParameters.core
      = p.handshakeParams.map HandshakeParameters.core := congrArg PeerCore.handshake h
  unfold Peer.buffer
  cases hp : p.handshakeParams with
  | none =>
      rw [hp, Option.map_none, Option.map_eq_none_iff] at hs
      rw [hs]
  | some x =>
      rw [hp, Option.map_some] at hs
      obtain ⟨x', hx', hcore⟩ := Option.map_eq_some_iff.mp hs
      rw [hx']
      exact congrArg HandshakeCore.reassembleBuf hcore

/-- A write to one peer, as far as buffers are concerned. -/
theorem buffers_setPeer {w : World} {a : Addr} {p : Peer}
    (h : p.buffer = (w.heap a).buffer ∨ FreshBuffer p.buffer) (b : Addr) :
    ((w.setPeer a p).heap b).buffer = (w.heap b).buffer ∨
      FreshBuffer ((w.setPeer a p).heap b).buffer := by
  by_cases hb : b = a
  · subst hb
    rw [heap_setPeer]
    exact h
  · rw [heap_setPeer_ne p hb]
    exact .inl rfl

theorem freshBuffer_params {p : Peer} {o : Option HandshakeParameters} (h : FreshHandshake o) :
    FreshBuffer ({ p with handshakeParams := o } : Peer).buffer := by
  cases o with
  | none => exact trivial
  | some hs =>
      show FreshBuffer hs.reassembleBuf
      rw [h.2]
      exact trivial

theorem freshBuffer_setBuffer {p : Peer} {buf : Option HsReassemble} (h : FreshBuffer buf) :
    FreshBuffer (p.setBuffer buf).buffer := by
  unfold Peer.setBuffer Peer.buffer
  cases p.handshakeParams with
  | none => exact trivial
  | some hs => exact h

/-- A step with one event that is none of the reassembly. -/
theorem BufferStep.event {w w' : World} {e : Event} (heap : w'.heap = w.heap)
    (log : w'.log = e :: w.log) (he : ¬ e.reassembling) : BufferStep w w' := by
  refine .other (fun a => .inl (by rw [heap])) ⟨[e], log, ?_⟩
  intro e' he'
  rwa [List.mem_singleton.mp he']

/-- A step with no event. -/
theorem BufferStep.silent {w w' : World}
    (buffer : ∀ a, (w'.heap a).buffer = (w.heap a).buffer ∨ FreshBuffer (w'.heap a).buffer)
    (log : w'.log = w.log) : BufferStep w w' :=
  .other buffer ⟨[], log, List.forall_mem_nil _⟩

theorem Event.not_reassembling_of_outside {e : Event} (h : e.outside) : ¬ e.reassembling := by
  cases e with
  | fragment c => exact h.elim
  | deliver a n data => exact h.elim
  | _ => exact id

theorem Step.buffers (h : Step env w w') : BufferStep w w' := by
  cases h with
  | quiet h =>
      obtain ⟨l, hl, ho⟩ := h.log
      exact .other (fun a => .inl (buffer_of_core (h.heap a)))
        ⟨l, hl, fun e he => Event.not_reassembling_of_outside (ho e he)⟩
  | storage heap signer log => exact .silent (fun a => .inl (by rw [heap])) log
  | newPeer a session => exact .silent (buffers_setPeer (.inr trivial)) rfl
  | edit a p watched =>
      have buffer : p.buffer = (w.heap a).buffer := (Prod.mk.inj (Prod.mk.inj watched).2).1
      exact .silent (buffers_setPeer (.inl buffer)) rfl
  | params a o fresh => exact .silent (buffers_setPeer (.inr (freshBuffer_params fresh))) rfl
  | state a s entered =>
      refine .other (buffers_setPeer (w := w.emitted _) (.inl rfl)) ⟨[_], rfl, ?_⟩
      intro e he
      rw [List.mem_singleton.mp he]
      exact id
  | sign hash r hr => exact .event rfl rfl id
  | keyGeneration => exact .event rfl rfl id
  | verify c rtt hash result => exact .event rfl rfl id
  | tesla head data len =>
      refine .other (buffers_setPeer (w := w.emitted _) (.inl rfl)) ⟨[_], rfl, ?_⟩
      intro e he
      rw [List.mem_singleton.mp he]
      exact id
  | read session data len r a p readable => exact .event rfl rfl id
  | record r before => exact .event rfl rfl id
  | replay a => exact .event rfl rfl id
  | message c before origin => exact .event rfl rfl id
  | handled res => exact .event rfl rfl id
  | buffer a buf fresh => exact .silent (buffers_setPeer (.inr (freshBuffer_setBuffer fresh))) rfl
  | fragment a header buf data dataLength before fits =>
      obtain ⟨hs, hp, -⟩ := handshakeParams_of_buffer before
      refine .fragment a header buf data dataLength before fits ?_
        (fun b hb => heap_setPeer_ne _ hb) rfl
      show ((w.setPeer a _).heap a).buffer = _
      rw [heap_setPeer, buffer_setBuffer hp]
  | deliver c rest last before whole =>
      obtain ⟨hs, hp, -⟩ := handshakeParams_of_buffer before
      refine .deliver c rest last before whole ?_ (fun b hb => heap_setPeer_ne _ hb) rfl
      show ((w.setPeer c.peer _).heap c.peer).buffer = _
      rw [heap_setPeer, buffer_setBuffer hp]

/-! ## Bounds -/

/-- The copies of a run, the last one first. -/
def fragmentCopies : List Event → List FragmentCopy
  | [] => []
  | .fragment c :: l => c :: fragmentCopies l
  | _ :: l => fragmentCopies l

/-- The storage of the buffer is gone, or it is what `dtls_init_reassemble_buffer`
    asked for. -/
def HsReassemble.Sized (buf : HsReassemble) : Prop :=
  buf.live = false ∧ buf.size = 0 ∨ buf.live = true ∧ buf.size = buf.packetLength + dtlsHsLength

/-- The copy writes below the size of the buffer and reads inside the record. -/
def FragmentCopy.InBounds (c : FragmentCopy) : Prop :=
  ∀ i, i < c.len → c.dst + i < c.buffer.size ∧ c.src + i < c.dataLength

/-- There is nothing to copy, or the buffer has storage, it is long enough, and the
    record holds the fragment. -/
def FragmentCopy.Fitting (c : FragmentCopy) : Prop :=
  c.len = 0 ∨ c.buffer.live = true ∧
    c.header.fragmentOffset + c.header.fragmentLength ≤ c.buffer.packetLength ∧
    dtlsHsLength + c.header.fragmentLength ≤ c.dataLength

/-- What is known of every copy. -/
structure FragmentCopy.Made (c : FragmentCopy) : Prop where
  copy : c = fragmentCopy c.peer c.header c.buffer c.record c.dataLength
  fits : Fits c.header c.buffer c.record
  sized : c.buffer.Sized

/-- For a copy that was made the two say the same. -/
theorem FragmentCopy.Made.inBounds_iff {c : FragmentCopy} (h : c.Made) :
    c.InBounds ↔ c.Fitting := by
  have ends : c.dst + c.len = c.header.fragmentOffset + c.header.fragmentLength + dtlsHsLength ∧
      c.src + c.len = dtlsHsLength + c.header.fragmentLength := by
    rw [h.copy]
    simp only [fragmentCopy]
    by_cases hoff : c.header.fragmentOffset = 0
    · simp only [hoff, ne_eq, not_true_eq_false, if_false, if_true]
      omega
    · simp only [hoff, ne_eq, not_false_eq_true, if_true, if_false]
      omega
  unfold FragmentCopy.InBounds FragmentCopy.Fitting
  constructor
  · intro hin
    by_cases hlen : c.len = 0
    · exact .inl hlen
    -- the last byte of the copy
    obtain ⟨hdst, hsrc⟩ := hin (c.len - 1) (by omega)
    rcases h.sized with ⟨hdead, hsize⟩ | ⟨hlive, hsize⟩
    · omega
    · exact .inr ⟨hlive, by omega, by omega⟩
  · rintro (hlen | ⟨hlive, hbuf, hrec⟩) i hi
    · omega
    · rcases h.sized with ⟨hdead, -⟩ | ⟨-, hsize⟩
      · rw [hlive] at hdead
        exact nomatch hdead
      · omega

theorem sized_of_fresh {buf : HsReassemble} (h : FreshBuffer (some buf)) : buf.Sized := by
  rcases h with ⟨hlive, hsize⟩ | ⟨hlive, -, hsize⟩
  · exact .inl ⟨hlive, hsize⟩
  · exact .inr ⟨hlive, hsize⟩

/-- Every buffer has the size of its packet, and so had the buffers of all copies. -/
structure BuffersSized (w : World) : Prop where
  buffers : ∀ a buf, (w.heap a).buffer = some buf → buf.Sized
  copies : ∀ c ∈ fragmentCopies w.log, c.Made

theorem fragmentCopies_append {l l' : List Event} (h : ∀ e ∈ l, ¬ e.reassembling) :
    fragmentCopies (l ++ l') = fragmentCopies l' := by
  induction l with
  | nil => rfl
  | cons e l ih =>
      obtain ⟨he, hl⟩ := List.forall_mem_cons.mp h
      cases e with
      | fragment c => exact absurd trivial he
      | _ => exact ih hl

/-- **STEP**: the sizes of the buffers. -/
theorem buffersSized_step (w w' : World) (h : Step env w w') (hw : BuffersSized w) :
    BuffersSized w' := by
  cases h.buffers with
  | other buffer log =>
      obtain ⟨l, hl, hr⟩ := log
      refine ⟨fun a buf hbuf => ?_, ?_⟩
      · cases buffer a with
        | inl same => exact hw.buffers a buf (same ▸ hbuf)
        | inr fresh =>
            rw [hbuf] at fresh
            exact sized_of_fresh fresh
      · rw [hl, fragmentCopies_append hr]
        exact hw.copies
  | fragment a header buf data dataLength before fits after frame log =>
      have sized := hw.buffers a buf before
      refine ⟨fun b buf' hbuf' => ?_, ?_⟩
      · by_cases hb : b = a
        · subst hb
          cases hbuf'.symm.trans after
          exact sized
        · rw [frame b hb] at hbuf'
          exact hw.buffers b buf' hbuf'
      · rw [log]
        exact List.forall_mem_cons.mpr ⟨⟨rfl, fits, sized⟩, hw.copies⟩
  | deliver c rest last before whole after frame log =>
      refine ⟨fun b buf' hbuf' => ?_, ?_⟩
      · by_cases hb : b = c.peer
        · subst hb
          cases hbuf'.symm.trans after
          exact hw.buffers c.peer c.result before
        · rw [frame b hb] at hbuf'
          exact hw.buffers b buf' hbuf'
      · rw [log]
        exact hw.copies

theorem buffersSized_initial (w : World) (h : Initial w) : BuffersSized w := by
  refine ⟨fun a buf hbuf => ?_, ?_⟩
  · obtain ⟨session, hs⟩ := h.heap a
    rw [hs] at hbuf
    exact nomatch hbuf
  · rw [h.log]
    exact List.forall_mem_nil _

/-- **BOUNDS**: in every run a copy into a reassembly buffer stays inside the buffer and
    the record exactly when the buffer has storage for it and the record holds as much
    as the header of the fragment says. -/
theorem fragment_inBounds (h : Reachable env w) (c : FragmentCopy)
    (hc : c ∈ fragmentCopies w.log) : c.InBounds ↔ c.Fitting :=
  ((h.invariant buffersSized_step buffersSized_initial).copies c hc).inBounds_iff

/-- A client that is sent one fragment, of which the record holds two bytes. -/
def shortFragment : List Input :=
  [.app (.connect (sampleSession 0)),
    arrival (sampleSession 0) (fragmentRecord dtlsHtServerHello 100 0 0 50 [0, 0])]

theorem fragment_inBounds_short :
    ∃ c ∈ fragmentCopies (runInputs sampleEnv shortFragment sampleWorld).2.log,
      c.InBounds ↔ c.Fitting := by
  obtain ⟨c, hc⟩ : ∃ c, c ∈ fragmentCopies (runInputs sampleEnv shortFragment sampleWorld).2.log :=
    List.exists_mem_of_length_pos (by decide +kernel)
  exact ⟨c, hc, fragment_inBounds (sample_reachable _) c hc⟩

/-- The copy reads past the end of the record. -/
theorem fragment_out_of_bounds :
    ¬ ∀ (env : Env) (w : World), Reachable env w → ∀ c ∈ fragmentCopies w.log, c.InBounds := by
  intro h
  have all := h sampleEnv _ (sample_reachable shortFragment)
  have short : ∃ c ∈ fragmentCopies (runInputs sampleEnv shortFragment sampleWorld).2.log,
      c.src + 61 ≥ c.dataLength ∧ 61 < c.len := by decide +kernel
  obtain ⟨c, hc, hsrc, hlen⟩ := short
  exact absurd (all c hc 61 hlen).2 (not_lt.mpr hsrc)

/-! ## What a reassembled message consists of -/

/-- The copies that went into the buffer of the peer at `a` since its first
    fragment, the last one first. -/
def contributions (a : Addr) : List Event → List FragmentCopy
  | [] => []
  | .fragment c :: l =>
      if c.peer ≠ a then contributions a l
      else if c.header.fragmentOffset = 0 then [c]
      else c :: contributions a l
  | _ :: l => contributions a l

/-- A message that is complete, with the copies it was put together from. -/
structure Delivery where
  length : Nat
  data : Nat → UInt8
  copies : List FragmentCopy

/-- The reassembled messages of a run, the last one first. -/
def deliveries : List Event → List Delivery
  | [] => []
  | .deliver a length data :: l => ⟨length, data, contributions a l⟩ :: deliveries l
  | _ :: l => deliveries l

/-- The fragment in the record supplies the byte `b` of the body at index `i`. -/
def FragmentCopy.Supplies (c : FragmentCopy) (i : Nat) (b : UInt8) : Prop :=
  c.header.fragmentOffset ≤ i ∧ i < c.header.fragmentOffset + c.header.fragmentLength ∧
    dtlsHsLength + (i - c.header.fragmentOffset) < c.dataLength ∧
    b = c.record (dtlsHsLength + ((i : Int) - c.header.fragmentOffset))

/-- The header a fragment shares with the message it is a part of. -/
def HandshakeHeader.shared (h : HandshakeHeader) : Nat × Nat × Nat :=
  (h.msgType, h.messageSeq, h.length)

/-- Every byte of the body was supplied, and all fragments are ones of one message. -/
structure Delivery.Whole (d : Delivery) : Prop where
  complete : ∀ i, i < d.length → ∃ c ∈ d.copies, c.Supplies i (d.data (dtlsHsLength + i))
  consistent : ∃ msgType messageSeq, ∀ c ∈ d.copies,
    c.header.shared = (msgType, messageSeq, d.length)

/-- The record holds the fragment, and a fragment that continues a message has the
    type, the sequence number and the length of the one in the buffer. -/
structure FragmentCopy.Continues (c : FragmentCopy) : Prop where
  inside : dtlsHsLength + c.header.fragmentLength ≤ c.dataLength
  next : c.header.fragmentOffset ≠ 0 → c.buffer.live = true ∧
    c.header.shared = ((handshakeHeader c.buffer.ptr).msgType,
      (handshakeHeader c.buffer.ptr).messageSeq, c.buffer.packetLength)

/-- A buffer with the fragments it holds. -/
structure Holds (buf : HsReassemble) (copies : List FragmentCopy) : Prop where
  shared : ∀ c ∈ copies, c.header.shared = ((handshakeHeader buf.ptr).msgType,
    (handshakeHeader buf.ptr).messageSeq, buf.packetLength)
  supplied : ∀ i, i < buf.lastOffset → ∃ c ∈ copies, c.Supplies i (buf.data (dtlsHsLength + i))

theorem contributions_append {a : Addr} {l l' : List Event} (h : ∀ e ∈ l, ¬ e.reassembling) :
    contributions a (l ++ l') = contributions a l' := by
  induction l with
  | nil => rfl
  | cons e l ih =>
      obtain ⟨he, hl⟩ := List.forall_mem_cons.mp h
      cases e with
      | fragment c => exact absurd trivial he
      | _ => exact ih hl

theorem deliveries_append {l l' : List Event} (h : ∀ e ∈ l, ¬ e.reassembling) :
    deliveries (l ++ l') = deliveries l' := by
  induction l with
  | nil => rfl
  | cons e l ih =>
      obtain ⟨he, hl⟩ := List.forall_mem_cons.mp h
      cases e with
      | deliver a n data => exact absurd trivial he
      | _ => exact ih hl

/-! ### Reading the header of a buffer -/

/-- What is read of a header is in its first twelve bytes. -/
theorem handshakeHeader_congr {p q : Ptr} (h : ∀ i : Nat, i < 12 → p i = q i) :
    handshakeHeader p = handshakeHeader q := by
  have read (k n : Nat) (hk : k + n ≤ 12) :
      bytesToInt ((p.add k).bytes n) = bytesToInt ((q.add k).bytes n) := by
    rw [Ptr.bytes_congr (q := q.add k)]
    intro i hi
    exact h (i + k) (by omega)
  have zero : bytesToInt (p.bytes 1) = bytesToInt (q.bytes 1) := by
    rw [Ptr.bytes_congr fun i hi => h i (by omega)]
  unfold handshakeHeader Ptr.uint8 Ptr.uint24 Ptr.uint16
  rw [zero]
  congr 1
  · exact read 1 3 (by omega)
  · exact read 4 2 (by omega)
  · exact read 6 3 (by omega)
  · exact read 9 3 (by omega)

theorem ptr_natCast (buf : HsReassemble) (i : Nat) : buf.ptr i = buf.data i := by
  simp only [HsReassemble.ptr, Int.natCast_nonneg, if_true, Int.toNat_natCast]

theorem result_packetLength (c : FragmentCopy) :
    c.result.packetLength = c.buffer.packetLength := rfl

theorem result_data (c : FragmentCopy) (i : Nat) :
    c.result.data i = if c.dst ≤ i ∧ i < c.dst + c.len then c.record ((i : Int) - c.dst + c.src)
      else c.buffer.data i := rfl

/-- The first fragment brings its header. -/
theorem header_first {c : FragmentCopy} (h : c.Made) (hoff : c.header.fragmentOffset = 0) :
    handshakeHeader c.result.ptr = c.header := by
  rw [h.fits.parsed]
  refine handshakeHeader_congr fun i hi => ?_
  have hdst : c.dst = 0 := by rw [h.copy]; simp [fragmentCopy, hoff]
  have hsrc : c.src = 0 := by rw [h.copy]; simp [fragmentCopy, hoff]
  have hlen : c.len = c.header.fragmentLength + 12 := by
    rw [h.copy]; simp [fragmentCopy, hoff, dtlsHsLength]
  rw [ptr_natCast, result_data, hdst, hsrc, hlen, if_pos (by omega)]
  congr 1

/-- A later one leaves the header alone. -/
theorem header_next {c : FragmentCopy} (h : c.Made) (hoff : c.header.fragmentOffset ≠ 0) :
    handshakeHeader c.result.ptr = handshakeHeader c.buffer.ptr := by
  refine handshakeHeader_congr fun i hi => ?_
  have hdst : c.dst = c.header.fragmentOffset + 12 := by
    rw [h.copy]; simp [fragmentCopy, hoff, dtlsHsLength]
  rw [ptr_natCast, ptr_natCast, result_data, if_neg (by omega)]

/-- The bytes of the body that a fragment brings. -/
theorem supplies_own {c : FragmentCopy} (h : c.Made) (hc : c.Continues) {i : Nat}
    (hlo : c.header.fragmentOffset ≤ i)
    (hhi : i < c.header.fragmentOffset + c.header.fragmentLength) :
    c.Supplies i (c.result.data (dtlsHsLength + i)) := by
  have inside := hc.inside
  refine ⟨hlo, hhi, by omega, ?_⟩
  have hcopy := h.copy
  rw [result_data]
  by_cases hoff : c.header.fragmentOffset = 0
  · have hdst : c.dst = 0 := by rw [hcopy]; simp [fragmentCopy, hoff]
    have hsrc : c.src = 0 := by rw [hcopy]; simp [fragmentCopy, hoff]
    have hlen : c.len = c.header.fragmentLength + dtlsHsLength := by
      rw [hcopy]; simp [fragmentCopy, hoff]
    rw [if_pos (by omega)]
    congr 1
    omega
  · have hdst : c.dst = c.header.fragmentOffset + dtlsHsLength := by
      rw [hcopy]; simp [fragmentCopy, hoff]
    have hsrc : c.src = dtlsHsLength := by rw [hcopy]; simp [fragmentCopy, hoff]
    have hlen : c.len = c.header.fragmentLength := by rw [hcopy]; simp [fragmentCopy, hoff]
    rw [if_pos (by omega)]
    congr 1
    omega

/-- The bytes in front of it stay. -/
theorem result_before {c : FragmentCopy} (h : c.Made) {i : Nat}
    (hi : i < c.header.fragmentOffset) :
    c.result.data (dtlsHsLength + i) = c.buffer.data (dtlsHsLength + i) := by
  have hdst : c.dst = c.header.fragmentOffset + dtlsHsLength := by
    rw [h.copy]
    simp only [fragmentCopy]
    rw [if_pos (by omega)]
  rw [result_data, if_neg (by omega)]

/-- **A copy keeps what is known of the buffer.** -/
theorem holds_result {c : FragmentCopy} {copies : List FragmentCopy} (h : c.Made)
    (hc : c.Continues) (hprev : c.header.fragmentOffset ≠ 0 → Holds c.buffer copies) :
    Holds c.result (if c.header.fragmentOffset = 0 then [c] else c :: copies) := by
  by_cases hoff : c.header.fragmentOffset = 0
  · rw [if_pos hoff]
    refine ⟨fun c' hc' => ?_, fun i hi => ⟨c, List.mem_singleton.mpr rfl, ?_⟩⟩
    · rw [List.mem_singleton.mp hc', header_first h hoff, result_packetLength,
        (h.fits.first hoff).1]
      rfl
    · exact supplies_own h hc (by omega) hi
  · rw [if_neg hoff]
    obtain ⟨shared, supplied⟩ := hprev hoff
    refine ⟨?_, fun i hi => ?_⟩
    · rw [header_next h hoff, result_packetLength]
      exact List.forall_mem_cons.mpr ⟨(hc.next hoff).2, shared⟩
    · by_cases hlo : c.header.fragmentOffset ≤ i
      · exact ⟨c, List.mem_cons_self, supplies_own h hc hlo hi⟩
      · obtain ⟨c', hc', hs⟩ := supplied i (by rw [h.fits.next]; omega)
        refine ⟨c', List.mem_cons_of_mem _ hc', ?_⟩
        rwa [result_before h (by omega)]

/-- The header that is written again says what it said, apart from the lengths. -/
theorem rewriteHeader_data (buf : HsReassemble) {i : Nat} (h : i < 1 ∨ i = 4 ∨ i = 5 ∨ 12 ≤ i) :
    buf.rewriteHeader.data i = buf.data i := by
  simp only [HsReassemble.rewriteHeader, HsReassemble.write]
  rw [if_neg (by omega), if_neg (by omega), if_neg (by omega)]

theorem rewriteHeader_shared (buf : HsReassemble) :
    (handshakeHeader buf.rewriteHeader.ptr).msgType = (handshakeHeader buf.ptr).msgType ∧
      (handshakeHeader buf.rewriteHeader.ptr).messageSeq = (handshakeHeader buf.ptr).messageSeq := by
  constructor
  · simp only [handshakeHeader, Ptr.uint8]
    rw [Ptr.bytes_congr fun i hi => ?_]
    rw [ptr_natCast, ptr_natCast, rewriteHeader_data _ (by omega)]
  · simp only [handshakeHeader, Ptr.uint16]
    rw [Ptr.bytes_congr fun i hi => ?_]
    show buf.rewriteHeader.ptr ((i + 4 : Nat) : Int) = buf.ptr ((i + 4 : Nat) : Int)
    rw [ptr_natCast, ptr_natCast, rewriteHeader_data _ (by omega)]

theorem Holds.rewriteHeader {buf : HsReassemble} {copies : List FragmentCopy}
    (h : Holds buf copies) : Holds buf.rewriteHeader copies := by
  refine ⟨fun c hc => ?_, fun i hi => ?_⟩
  · rw [(rewriteHeader_shared buf).1, (rewriteHeader_shared buf).2]
    exact h.shared c hc
  · rw [rewriteHeader_data _ (by unfold dtlsHsLength; omega)]
    exact h.supplied i hi

/-! ### The invariant -/

/-- Every live buffer is empty, or holds the fragments since its first one, and
    every message that was complete is whole. -/
structure Assembled (w : World) : Prop where
  buffers : ∀ a buf, (w.heap a).buffer = some buf → buf.live = true →
    buf.lastOffset = 0 ∨ Holds buf (contributions a w.log)
  deliveries : ∀ d ∈ deliveries w.log, d.Whole

/-- The invariant of runs in which every fragment continues its message. -/
def AssembledIf (w : World) : Prop :=
  BuffersSized w ∧ ((∀ c ∈ fragmentCopies w.log, c.Continues) → Assembled w)

theorem assembled_other {w w' : World} (hw : Assembled w)
    (buffer : ∀ a, (w'.heap a).buffer = (w.heap a).buffer ∨ FreshBuffer (w'.heap a).buffer)
    {l : List Event} (hl : w'.log = l ++ w.log) (hr : ∀ e ∈ l, ¬ e.reassembling) :
    Assembled w' := by
  refine ⟨fun a buf hbuf hlive => ?_, ?_⟩
  · rw [hl, contributions_append hr]
    cases buffer a with
    | inl same => exact hw.buffers a buf (same ▸ hbuf) hlive
    | inr fresh =>
        rw [hbuf] at fresh
        rcases fresh with ⟨hdead, -⟩ | ⟨-, hempty, -⟩
        · rw [hlive] at hdead
          exact nomatch hdead
        · exact .inl hempty
  · rw [hl, deliveries_append hr]
    exact hw.deliveries

theorem assembled_fragment {w w' : World} {c : FragmentCopy} (hw : Assembled w) (made : c.Made)
    (hc : c.Continues) (before : (w.heap c.peer).buffer = some c.buffer)
    (after : (w'.heap c.peer).buffer = some c.result)
    (frame : ∀ b, b ≠ c.peer → w'.heap b = w.heap b) (log : w'.log = .fragment c :: w.log) :
    Assembled w' := by
  refine ⟨fun b buf hbuf hlive => ?_, ?_⟩
  · by_cases hb : b = c.peer
    · subst hb
      cases hbuf.symm.trans after
      have held := @holds_result _ (contributions c.peer w.log) made hc fun hoff => ?_
      · refine .inr ?_
        rw [log, contributions, if_neg (not_not.mpr rfl)]
        exact held
      · cases hw.buffers c.peer c.buffer before (hc.next hoff).1 with
        | inl hempty => exact absurd (made.fits.next.symm.trans hempty) hoff
        | inr holds => exact holds
    · rw [frame b hb] at hbuf
      rw [log, contributions, if_pos (Ne.symm hb)]
      exact hw.buffers b buf hbuf hlive
  · rw [log]
    exact hw.deliveries

theorem mem_contributions (c : FragmentCopy) (l : List Event) :
    c ∈ contributions c.peer (.fragment c :: l) := by
  rw [contributions, if_neg (not_not.mpr rfl)]
  by_cases hoff : c.header.fragmentOffset = 0
  · rw [if_pos hoff]
    exact List.mem_singleton.mpr rfl
  · rw [if_neg hoff]
    exact List.mem_cons_self

theorem contributions_deliver (a b : Addr) (n : Nat) (data : Nat → UInt8) (l : List Event) :
    contributions b (.deliver a n data :: l) = contributions b l := rfl

theorem assembled_deliver {w w' : World} {c : FragmentCopy} {rest : List Event}
    (hw : Assembled w) (made : c.Made) (hc : c.Continues) (last : w.log = .fragment c :: rest)
    (before : (w.heap c.peer).buffer = some c.result)
    (whole : c.header.length ≤ c.result.lastOffset)
    (after : (w'.heap c.peer).buffer = some c.result.rewriteHeader)
    (frame : ∀ b, b ≠ c.peer → w'.heap b = w.heap b)
    (log : w'.log = .deliver c.peer c.result.packetLength c.result.rewriteHeader.data :: w.log) :
    Assembled w' := by
  have live : c.result.live = true := by
    show c.buffer.live = true
    by_cases hoff : c.header.fragmentOffset = 0
    · exact (made.fits.first hoff).2
    · exact (hc.next hoff).1
  have holds : Holds c.result (contributions c.peer w.log) := by
    cases hw.buffers c.peer c.result before live with
    | inl hempty =>
        have part := made.fits.part
        omega
    | inr holds => exact holds
  have length : c.header.length = c.result.packetLength := by
    have shared := holds.shared c (last ▸ mem_contributions c rest)
    exact (Prod.mk.inj (Prod.mk.inj shared).2).2
  refine ⟨fun b buf hbuf hlive => ?_, ?_⟩
  · by_cases hb : b = c.peer
    · subst hb
      cases hbuf.symm.trans after
      rw [log, contributions_deliver]
      exact .inr holds.rewriteHeader
    · rw [frame b hb] at hbuf
      rw [log, contributions_deliver]
      exact hw.buffers b buf hbuf hlive
  · rw [log, PqDtls.Dtls.deliveries]
    refine List.forall_mem_cons.mpr ⟨⟨fun i hi => ?_, ?_⟩, hw.deliveries⟩
    · exact holds.rewriteHeader.supplied i (lt_of_lt_of_le hi (length ▸ whole))
    · exact ⟨_, _, holds.shared⟩

/-- **STEP**: the contents of the buffers. -/
theorem assembled_step (w w' : World) (h : Step env w w') (hw : AssembledIf w) :
    AssembledIf w' := by
  refine ⟨buffersSized_step w w' h hw.1, fun hall => ?_⟩
  have sized := (buffersSized_step w w' h hw.1).copies
  cases h.buffers with
  | other buffer log =>
      obtain ⟨l, hl, hr⟩ := log
      rw [hl, fragmentCopies_append hr] at hall
      exact assembled_other (hw.2 hall) buffer hl hr
  | fragment a header buf data dataLength before fits after frame log =>
      rw [log] at hall sized
      obtain ⟨hc, hprev⟩ := List.forall_mem_cons.mp hall
      exact assembled_fragment (hw.2 hprev) (List.forall_mem_cons.mp sized).1 hc before after
        frame log
  | deliver c rest last before whole after frame log =>
      rw [log] at hall
      have hc : c ∈ fragmentCopies w.log := by
        rw [last]
        exact List.mem_cons_self
      exact assembled_deliver (hw.2 hall) (hw.1.copies c hc) (hall c hc) last before whole after
        frame log

theorem assembled_initial (w : World) (h : Initial w) : AssembledIf w := by
  refine ⟨buffersSized_initial w h, fun _ => ⟨fun a buf hbuf => ?_, ?_⟩⟩
  · obtain ⟨session, hs⟩ := h.heap a
    rw [hs] at hbuf
    exact nomatch hbuf
  · rw [h.log]
    exact List.forall_mem_nil _

/-- **REASSEMBLY**: in every run in which a fragment is inside its record and continues
    the message in the buffer, a message is complete only when all its bytes were
    supplied, by fragments of one type, sequence number and length. -/
theorem reassembly_whole (h : Reachable env w)
    (hall : ∀ c ∈ fragmentCopies w.log, c.Continues) : ∀ d ∈ deliveries w.log, d.Whole :=
  ((h.invariant assembled_step assembled_initial).2 hall).deliveries

/-- Two fragments of one message. -/
def twoFragments : List Input :=
  [.app (.connect (sampleSession 0)),
    arrival (sampleSession 0) (fragmentRecord dtlsHtServerHello 2 0 0 1 [0]),
    arrival (sampleSession 0) (fragmentRecord dtlsHtServerHello 2 0 1 1 [0])]

theorem reassembly_whole_two :
    ∃ d ∈ deliveries (runInputs sampleEnv twoFragments sampleWorld).2.log, d.Whole := by
  obtain ⟨d, hd⟩ : ∃ d, d ∈ deliveries (runInputs sampleEnv twoFragments sampleWorld).2.log :=
    List.exists_mem_of_length_pos (by decide +kernel)
  have inside : ∀ c ∈ fragmentCopies (runInputs sampleEnv twoFragments sampleWorld).2.log,
      dtlsHsLength + c.header.fragmentLength ≤ c.dataLength := by decide +kernel
  have next : ∀ c ∈ fragmentCopies (runInputs sampleEnv twoFragments sampleWorld).2.log,
      c.header.fragmentOffset ≠ 0 → c.buffer.live = true ∧
        c.header.shared = ((handshakeHeader c.buffer.ptr).msgType,
          (handshakeHeader c.buffer.ptr).messageSeq, c.buffer.packetLength) := by decide +kernel
  exact ⟨d, hd, reassembly_whole (sample_reachable _) (fun c hc => ⟨inside c hc, next c hc⟩) d hd⟩

/-- A fragment that goes on where one of another message stopped. -/
def mixedFragments : List Input :=
  [.app (.connect (sampleSession 0)),
    arrival (sampleSession 0) (fragmentRecord dtlsHtServerHello 2 0 0 1 [0]),
    arrival (sampleSession 0) (fragmentRecord dtlsHtFinished 2 7 1 1 [0])]

/-- The message is complete, with fragments of two messages. -/
theorem reassembly_mixed :
    ¬ ∀ (env : Env) (w : World), Reachable env w → ∀ d ∈ deliveries w.log, d.Whole := by
  intro h
  have all := h sampleEnv _ (sample_reachable mixedFragments)
  have mixed : ∃ d ∈ deliveries (runInputs sampleEnv mixedFragments sampleWorld).2.log,
      ∃ c ∈ d.copies, ∃ c' ∈ d.copies, c.header.messageSeq ≠ c'.header.messageSeq := by
    decide +kernel
  obtain ⟨d, hd, c, hc, c', hc', hne⟩ := mixed
  obtain ⟨msgType, messageSeq, hshared⟩ := (all d hd).consistent
  have same := (hshared c hc).trans (hshared c' hc').symm
  exact hne (Prod.mk.inj (Prod.mk.inj same).2).1

end PqDtls.Dtls
