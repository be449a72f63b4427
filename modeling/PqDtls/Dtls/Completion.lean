import PqDtls.Dtls.MessageOrder
import PqDtls.Dtls.AppData

/-! # Messages in their turn, and the end of the handshake

    A handshake message is handed to `handle_handshake_msg` in one of two ways: when its
    record comes, or out of the reorder queue.  The loop over the queue counts messages
    and may release the parameters the queue is part of, and a message from the queue is
    not checked for its epoch again.

    `TakenUp` is what the record of events shows all the same: a message has its turn
    when it is handed over, none is taken from the queue while a Finished is waited for,
    and a message that is handled in that state came in a record of the epoch that the
    state asks for.

    **`messages_inOrder`** says so of every run, with the order of the queues, and
    **`connected_by_finished`** what is known when a peer becomes connected. -/

namespace PqDtls.Dtls

open Program (get gets modify stop ofOption when Keeps Ensures keeps_pure keeps_get keeps_gets
  keeps_stop keeps_ofOption keeps_modify ensures_pure ensures_stop ensures_ofOption)
open History (suffix_of_not)

variable {env : Env} {peer : Option Addr} {session : Session} {role : DtlsPeerType}
  {state : DtlsState} {data : Ptr} {dataLength : Nat} {w w' : World}

/-! ## What the events show -/

/-- The message has its turn in the handshake of its peer. -/
def HandshakeCall.InTurn (c : HandshakeCall) : Prop :=
  ∀ p h, c.before = some p → p.handshakeParams = some h →
    (handshakeHeader c.data).messageSeq = h.mseqR

/-- The record that is handled is one of the peer, opened in the epoch of the state. -/
def HandshakeCall.OfRecord (env : Env) (c : HandshakeCall) (log : List Event) : Prop :=
  ∃ r a p, currentRecord log = some r ∧ c.peer = some a ∧ Admitted env r c.role c.state a p

/-- What is known of the messages and of the queue. -/
structure TakenUp (env : Env) (log : List Event) : Prop where
  turn : ∀ c, .message c ∈ log → c.InTurn
  replay : ∀ a s, .replay a s ∈ log → s ≠ .waitFinished
  ofRecord : ∀ c earlier, .message c :: earlier <:+ log → c.state = .waitFinished →
    c.OfRecord env earlier

theorem takenUp_nil : TakenUp env [] := by
  refine ⟨?_, ?_, ?_⟩
  · intro c hc
    cases hc
  · intro a s hs
    cases hs
  · intro c earlier hs
    cases List.suffix_nil.mp hs

/-- A message is handed over, or taken from the queue. -/
def Event.takes : Event → Bool
  | .message _ | .replay .. => true
  | _ => false

theorem Event.takes_of_mild {e : Event} (h : e.mild) : e.takes = false := by
  cases e with
  | message | replay => exact h.elim
  | _ => rfl

/-- Other events tell nothing. -/
theorem TakenUp.append {l l' : List Event} (h : TakenUp env l')
    (hl : ∀ e ∈ l, e.takes = false) : TakenUp env (l ++ l') := by
  have older {e : Event} (he : e ∈ l ++ l') (takes : e.takes = true) : e ∈ l' := by
    rcases List.mem_append.mp he with he | he
    · exact absurd takes (by rw [hl e he]; exact Bool.noConfusion)
    · exact he
  refine ⟨fun c hc => h.turn c (older hc rfl), fun a s hs => h.replay a s (older hs rfl), ?_⟩
  exact fun c earlier hs => h.ofRecord c earlier (suffix_of_not hl Bool.noConfusion hs)

theorem TakenUp.event {l : List Event} {e : Event} (h : TakenUp env l) (he : e.takes = false) :
    TakenUp env (e :: l) := by
  refine h.append (l := [e]) fun e' he' => ?_
  rwa [List.mem_singleton.mp he']

theorem TakenUp.replayed {l : List Event} (h : TakenUp env l) (a : Addr) {s : DtlsState}
    (waits : s ≠ .waitFinished) : TakenUp env (.replay a s :: l) := by
  refine ⟨fun c hc => ?_, fun b t ht => ?_, fun c earlier hc => ?_⟩
  · rcases List.mem_cons.mp hc with heq | hc
    · cases heq
    · exact h.turn c hc
  · rcases List.mem_cons.mp ht with heq | ht
    · cases heq
      exact waits
    · exact h.replay b t ht
  · rcases List.suffix_cons_iff.mp hc with heq | hc
    · cases heq
    · exact h.ofRecord c earlier hc

theorem TakenUp.message {l : List Event} (h : TakenUp env l) {c : HandshakeCall}
    (turn : c.InTurn) (ofRecord : c.state = .waitFinished → c.OfRecord env l) :
    TakenUp env (.message c :: l) := by
  refine ⟨fun c' hc => ?_, fun a s hs => ?_, fun c' earlier hc => ?_⟩
  · rcases List.mem_cons.mp hc with heq | hc
    · cases heq
      exact turn
    · exact h.turn c' hc
  · rcases List.mem_cons.mp hs with heq | hs
    · cases heq
    · exact h.replay a s hs
  · rcases List.suffix_cons_iff.mp hc with heq | hc
    · cases heq
      exact ofRecord
    · exact h.ofRecord c' earlier hc

theorem TakenUp.shelved (h : TakenUp env w.log) (hw : Shelved w w') : TakenUp env w'.log := by
  obtain ⟨l, hl, mild⟩ := hw.log
  rw [hl]
  exact h.append fun e he => Event.takes_of_mild (mild e he)

/-! ## The queues -/

/-- All queues are in order. -/
def QueuesAhead (w : World) : Prop := ∀ a, Ahead (w.heap a).place

theorem QueuesAhead.shelved (h : QueuesAhead w) (hw : Shelved w w') : QueuesAhead w' := by
  intro a
  rcases hw.place a with blank | same
  · exact ahead_of_blank blank
  · rw [same]
    exact h a

/-- Inside the loop for the peer at `a` one of its messages may be due, but not while a Finished
    is waited for. -/
structure QueuesDue (a : Addr) (w : World) : Prop where
  others : ∀ b, b ≠ a → Ahead (w.heap b).place
  due : Due (w.heap a).place
  waits : (w.heap a).state = .waitFinished → Ahead (w.heap a).place

/-- A message that was not accepted leaves all queues in order. -/
theorem Handled.ahead {res : Int} (h : Handled peer state res w w') (hw : QueuesAhead w)
    (hres : res < 0) : QueuesAhead w' := by
  intro a
  rcases h.place a with blank | same | ⟨-, accepted, -⟩
  · exact ahead_of_blank blank
  · rw [same]
    exact hw a
  · omega

/-- One that was may make the next one due. -/
theorem Handled.due {a : Addr} {res : Int} (h : Handled (some a) state res w w')
    (hw : QueuesAhead w) (captured : (w.heap a).state = .waitFinished → state = .waitFinished) :
    QueuesDue a w' := by
  refine ⟨fun b hb => ?_, ?_, fun waits => ?_⟩
  · rcases h.place b with blank | same | ⟨here, -⟩
    · exact ahead_of_blank blank
    · rw [same]
      exact hw b
    · exact absurd (Option.some.inj here).symm hb
  · rcases h.place a with blank | same | ⟨-, -, next, -⟩
    · exact (ahead_of_blank blank).due
    · rw [same]
      exact (hw a).due
    · rw [next]
      exact (hw a).next
  · rcases h.place a with blank | same | ⟨-, -, -, left⟩
    · exact ahead_of_blank blank
    · rw [same]
      exact hw a
    · exact absurd waits (left (captured (h.waits a waits)))

/-! ## A message -/

/-- The message that is handed over has its turn. -/
def HasTurn (w : World) (peer : Option Addr) (data : Ptr) : Prop :=
  ∀ a h, peer = some a → (w.heap a).handshakeParams = some h →
    (handshakeHeader data).messageSeq = h.mseqR

/-- It came in the record that is handled, if it is handled while a Finished is waited for. -/
def FromRecord (env : Env) (w : World) (peer : Option Addr) (role : DtlsPeerType)
    (state : DtlsState) : Prop :=
  state = .waitFinished → ∃ r a p, currentRecord w.log = some r ∧ peer = some a ∧
    Admitted env r role state a p

theorem ensures_handleHandshakeMsg (hlog : TakenUp env w.log) (turn : HasTurn w peer data)
    (hrecord : FromRecord env w peer role state) :
    Ensures (fun w' => TakenUp env w'.log)
      (handleHandshakeMsg env peer session role state data dataLength) w
      fun res w' => Handled peer state res w w' := by
  let c : HandshakeCall := ⟨peer, role, state, peer.map w.heap, data, dataLength⟩
  have hturn : c.InTurn := by
    intro p h hp hh
    obtain ⟨a, ha, rfl⟩ := Option.map_eq_some_iff.mp hp
    exact turn a h ha hh
  have taken : TakenUp env (w.emitted (.message c)).log := hlog.message hturn hrecord
  unfold handleHandshakeMsg
  refine .gets_bind (.of_eq (emit_bind _ _ _) ?_)
  have stopped : Keeps Shelved (stopRetransmissionOf peer) :=
    shelved_of_quiet (quietTacit.stopRetransmissionOf peer)
  refine (Ensures.of_keeps (Q := fun _ w' => Shelved (w.emitted (.message c)) w') stopped
    (fun _ => taken.shelved) fun _ _ _ => id).bind fun _ w₁ _ _ h₁ => ?_
  have dispatched := @shelved_dispatchMessage env peer session role state data dataLength
  refine (Ensures.of_keeps (Q := fun o w' => Shelved (w.emitted (.message c)) w' ∧
    Counts peer state o w') dispatched (fun _ h => taken.shelved (trans_of Shelved h₁ h))
      fun o w' hrun h => ⟨trans_of Shelved h₁ h, ends_dispatchMessage w₁ o w' hrun⟩).bind
        fun o w₂ _ _ h₂ => ?_
  obtain ⟨res, w₃, hres, hlog₃, handled⟩ := finishMessage_handled h₂.1 h₂.2
  refine .of_eq (Program.bind_ok hres _) (.of_eq (emit_bind _ _ _) (ensures_pure ?_ ?_))
  · have told : TakenUp env (.handled res :: w₂.log) := (taken.shelved h₂.1).event rfl
    rw [← hlog₃] at told
    exact told
  · exact ⟨handled.place, handled.waits⟩

/-! ## The loop over the queue -/

theorem queueLength_place (p : Peer) :
    p.queueLength = (p.place.map fun x => x.2.length).getD 0 := by
  unfold Peer.queueLength Peer.place
  cases p.handshakeParams with
  | none => rfl
  | some h => rfl

theorem place_some {p : Peer} {h : HandshakeParameters} (hp : p.handshakeParams = some h) :
    p.place = some (h.mseqR, h.reorderQueue) := by
  rw [Peer.place, hp]
  rfl

/-- No queue gets longer by a message that is handled. -/
theorem Handled.queueLength_le {res : Int} (h : Handled peer state res w w') (a : Addr) :
    (w'.heap a).queueLength ≤ (w.heap a).queueLength := by
  rw [queueLength_place, queueLength_place]
  rcases h.place a with blank | same | ⟨-, -, next, -⟩
  · cases hx : (w'.heap a).place with
    | none => exact Nat.zero_le _
    | some x =>
        have empty := blank x.1 x.2 hx
        rw [Option.map_some, empty]
        exact Nat.zero_le _
  · rw [same]
  · rw [next]
    cases (w.heap a).place with
    | none => exact le_rfl
    | some x => exact le_rfl

/-- **ONE TURN OF THE LOOP**: the message that has its turn leaves the queue and is handled. -/
theorem ensures_replayMessage {a : Addr} {h : HandshakeParameters} {node : Netq}
    (hlog : TakenUp env w.log) (hq : QueuesDue a w)
    (hp : (w.heap a).handshakeParams = some h)
    (hnode : h.reorderQueue.find? h.isNext = some node) :
    Ensures (fun w' => TakenUp env w'.log) (replayMessage env a session role node) w
      fun res w' => (res < 0 → QueuesAhead w') ∧ QueuesDue a w' ∧
        (w'.heap a).queueLength < (w.heap a).queueLength := by
  have mem : node ∈ h.reorderQueue := List.mem_of_find?_eq_some hnode
  have next : h.isNext node = true := List.find?_some hnode
  have turn : node.messageSeq = h.mseqR := of_decide_eq_true next
  -- while a Finished is waited for, nothing would be due
  have waits : (w.heap a).state ≠ .waitFinished := by
    intro hw
    have ahead := hq.waits hw
    rw [place_some hp] at ahead
    exact absurd (ahead.2 node mem) (by omega)
  let h₁ : HandshakeParameters := { h with reorderQueue := h.reorderQueue.eraseP h.isNext }
  let w₁ : World := w.setPeer a { w.heap a with handshakeParams := some h₁ }
  have here : w₁.heap a = { w.heap a with handshakeParams := some h₁ } := heap_setPeer _ _ _
  have hp₁ : (w₁.heap a).handshakeParams = some h₁ := by rw [here]
  have state : (w₁.heap a).state = (w.heap a).state := by rw [here]
  have ahead : QueuesAhead w₁ := by
    intro b
    by_cases hb : b = a
    · subst hb
      have due := hq.due
      rw [place_some hp] at due
      rw [place_some hp₁]
      exact due.erase
    · have same : w₁.heap b = w.heap b := heap_setPeer_ne _ hb
      rw [same]
      exact hq.others b hb
  have shorter : (w₁.heap a).queueLength < (w.heap a).queueLength := by
    have one := List.length_eraseP_of_mem mem next
    have pos := List.length_pos_of_mem mem
    rw [queueLength_place, queueLength_place, place_some hp, place_some hp₁]
    show (h.reorderQueue.eraseP h.isNext).length < h.reorderQueue.length
    omega
  refine .of_eq (Program.bind_ok (modifyHandshake_some _ hp) _) ?_
  refine .of_eq (getPeer_bind _ _ _) (.of_eq (emit_bind _ _ _) ?_)
  have taken : TakenUp env (w₁.emitted (.replay a (w₁.heap a).state)).log :=
    hlog.replayed a (by rw [state]; exact waits)
  have called := @ensures_handleHandshakeMsg env (some a) session role (w₁.heap a).state
    (Ptr.ofBytes node.data) node.data.length _ taken
  refine (called ?_ ?_).mono fun res w' _ handled => ⟨fun neg => ?_, ?_, ?_⟩
  · intro b h' hb hh'
    cases hb
    cases hp₁.symm.trans hh'
    exact turn
  · intro hw
    exact absurd (state.symm.trans hw) waits
  · exact handled.ahead (w := w₁.emitted _) ahead neg
  · exact handled.due (w := w₁.emitted _) ahead id
  · exact lt_of_le_of_lt (handled.queueLength_le a) shorter

/-- **THE LOOP** leaves all queues in order. -/
theorem ensures_replayQueue {a : Addr} {fuel : Nat} {res : Int} (hlog : TakenUp env w.log)
    (hq : QueuesDue a w) (hfuel : (w.heap a).queueLength < fuel) :
    Ensures (fun w' => TakenUp env w'.log) (replayQueue env a session role fuel res) w
      fun _ w' => QueuesAhead w' := by
  induction fuel generalizing res w with
  | zero => exact absurd hfuel (Nat.not_lt_zero _)
  | succ fuel ih =>
      unfold replayQueue
      refine .of_eq (getPeer_bind _ _ _) ?_
      -- what is left to show where the loop ends
      have ends (here : Ahead (w.heap a).place) : QueuesAhead w := by
        intro b
        by_cases hb : b = a
        · rw [hb]
          exact here
        · exact hq.others b hb
      cases hp : (w.heap a).handshakeParams with
      | none =>
          refine ensures_pure hlog (ends ?_)
          rw [Peer.place, hp]
          trivial
      | some h =>
          simp only
          cases hnode : h.reorderQueue.find? h.isNext with
          | none =>
              refine ensures_pure hlog (ends ?_)
              have due := hq.due
              rw [place_some hp] at due ⊢
              refine due.ahead fun n hn => ?_
              have not' := List.find?_eq_none.mp hnode n hn
              simpa [HandshakeParameters.isNext] using not'
          | some node =>
              refine Ensures.bind (ensures_replayMessage hlog hq hp hnode)
                fun res w₁ _ hlog₁ h₁ => ?_
              obtain ⟨failed, due, shorter⟩ := h₁
              exact .ite (fun neg => ensures_pure hlog₁ (failed neg))
                fun _ => ih hlog₁ due (by omega)

/-! ## A handshake record -/

theorem messageSeq_bytes (hlen : dtlsHsLength ≤ dataLength) :
    (handshakeHeader (Ptr.ofBytes (data.bytes dataLength))).messageSeq
      = (handshakeHeader data).messageSeq := by
  have size : dtlsHsLength = 12 := rfl
  refine congrArg HandshakeHeader.messageSeq (handshakeHeader_congr fun i hi => ?_)
  have inside : i < (data.bytes dataLength).length := by
    rw [Ptr.length_bytes]
    omega
  rw [Ptr.ofBytes, if_pos (Int.natCast_nonneg i), Int.toNat_natCast, List.getD_eq_getElem?_getD,
    List.getElem?_eq_getElem inside, Option.getD_some, Ptr.getElem_bytes]

/-- A message that is queued is ahead of its turn, and not queued yet. -/
theorem ensures_queueMessage {a : Addr} {h : HandshakeParameters} (hlog : TakenUp env w.log)
    (hq : QueuesAhead w) (hp : (w.heap a).handshakeParams = some h)
    (later : h.mseqR < (handshakeHeader data).messageSeq) (hlen : dtlsHsLength ≤ dataLength) :
    Ensures (fun w' => TakenUp env w'.log) (queueMessage env a h data dataLength) w
      fun _ w' => QueuesAhead w' := by
  refine .ite (fun _ => ensures_pure hlog hq) fun _ => .ite (fun _ => ensures_pure hlog hq)
    fun fresh => .of_eq (malloc_bind _ _ _) ?_
  by_cases found : env.malloc w.tick = true
  · rw [when, if_pos found]
    have hp' : (w.asked.heap a).handshakeParams = some h := hp
    refine .of_eq (Program.bind_ok (modifyHandshake_some _ hp') _) (ensures_pure hlog fun b => ?_)
    by_cases hb : b = a
    · rw [hb, heap_setPeer]
      have ahead := hq a
      rw [place_some hp] at ahead
      have seq := @messageSeq_bytes data dataLength hlen
      refine ahead.insert (n := ⟨0, 0, some a, 0, 0, 0, data.bytes dataLength⟩) ?_
        fun n hn same => ?_
      · rw [Netq.messageSeq, seq]
        exact later
      · refine fresh (List.any_eq_true.mpr ⟨n, hn, decide_eq_true ?_⟩)
        rw [same, Netq.messageSeq, seq]
    · rw [heap_setPeer_ne _ hb]
      exact hq b
  · rw [when, if_neg found]
    exact ensures_pure hlog hq

/-- The state in which a message is handled is that of its peer, if that waits for a Finished. -/
def Captured (w : World) (peer : Option Addr) (state : DtlsState) : Prop :=
  ∀ a, peer = some a → (w.heap a).state = .waitFinished → state = .waitFinished

theorem Captured.shelved (h : Captured w peer state) (hw : Shelved w w') : Captured w' peer state :=
  fun a ha waits => h a ha (hw.waits a waits)

theorem Shelved.record (h : Shelved w w') : currentRecord w'.log = currentRecord w.log := by
  obtain ⟨l, hl, mild⟩ := h.log
  rw [hl, currentRecord_append fun e he => ?_]
  have := mild e he
  cases e with
  | record | message => exact this
  | _ => trivial

theorem FromRecord.of_record (h : FromRecord env w peer role state)
    (hw : currentRecord w'.log = currentRecord w.log) : FromRecord env w' peer role state := by
  intro hs
  obtain ⟨r, a, p, record, hpeer, admitted⟩ := h hs
  exact ⟨r, a, p, hw.trans record, hpeer, admitted⟩

theorem shelved_freeReassembleBuffer (a : Addr) : Keeps Shelved (dtlsFreeReassembleBuffer a) := by
  refine (keeps_gets _).bind fun p => ?_
  cases p.handshakeParams.bind (·.reassembleBuf) with
  | none => exact keeps_pure _
  | some buf => exact Keeps.ite (fun _ => keeps_stop _) fun _ => shelved_handshake fun _ => rfl

/-- The buffer is not part of the place. -/
theorem freeReassembleBuffer_place (a : Addr) (w : World) :
    ((dtlsFreeReassembleBuffer a w).2.heap a).place = (w.heap a).place := by
  unfold dtlsFreeReassembleBuffer
  rw [getPeer_bind]
  cases (w.heap a).handshakeParams.bind (·.reassembleBuf) with
  | none => rfl
  | some buf =>
      simp only
      split
      · rfl
      · cases hp : (w.heap a).handshakeParams with
        | none => rw [modifyHandshake_none _ hp]
        | some h =>
            rw [modifyHandshake_some _ hp, heap_setPeer, place_some hp]
            rfl

/-- **A WHOLE MESSAGE OF A HANDSHAKE** is dropped, queued or handled, and with it the queued ones
    that it makes due. -/
theorem ensures_handleInSequence {a : Addr} {h : HandshakeParameters} (hlog : TakenUp env w.log)
    (hq : QueuesAhead w) (hp : (w.heap a).handshakeParams = some h)
    (hrecord : FromRecord env w (some a) role state) (captured : Captured w (some a) state)
    (hlen : dtlsHsLength ≤ dataLength) :
    Ensures (fun w' => TakenUp env w'.log)
      (handleInSequence env a h session role state data dataLength) w
      fun _ w' => QueuesAhead w' := by
  refine .ite (fun _ => ensures_pure hlog hq) fun old => .ite
    (fun later => ensures_queueMessage hlog hq hp later hlen) fun new => ?_
  have log := freeReassembleBuffer_log a w
  have place := freeReassembleBuffer_place a w
  refine (Ensures.of_keeps (Q := fun _ w' => Shelved w w') (shelved_freeReassembleBuffer a)
    (fun _ => hlog.shelved) fun _ _ _ => id).bind fun _ w₁ hrun hlog₁ h₁ => ?_
  rw [hrun] at log place
  have turn : HasTurn w₁ (some a) data := by
    intro b h' hb hh'
    cases hb
    rw [place_some hh', place_some hp] at place
    have same : h'.mseqR = h.mseqR := (Prod.mk.inj (Option.some.inj place)).1
    omega
  have record : FromRecord env w₁ (some a) role state :=
    hrecord.of_record (congrArg currentRecord log)
  refine Ensures.bind (ensures_handleHandshakeMsg hlog₁ turn record)
    fun res w₂ _ hlog₂ handled => ?_
  refine .ite (fun neg => ensures_pure hlog₂ (handled.ahead (hq.shelved h₁) neg)) fun _ => ?_
  refine .of_eq (getPeer_bind _ _ _) (ensures_replayQueue hlog₂ ?_ (Nat.lt_succ_self _))
  exact handled.due (hq.shelved h₁) (captured.shelved h₁ a rfl)

/-- Outside of a handshake there is no place that a message could change. -/
theorem Handled.outside {res : Int} (h : Handled peer state res w w') (hq : QueuesAhead w)
    (none' : ∀ a, peer = some a → (w.heap a).handshakeParams = none) : QueuesAhead w' := by
  intro a
  rcases h.place a with blank | same | ⟨here, -, next, -⟩
  · exact ahead_of_blank blank
  · rw [same]
    exact hq a
  · rw [next, Peer.place, none' a here]
    trivial

theorem ensures_handleOutside (hlog : TakenUp env w.log) (hq : QueuesAhead w)
    (none' : ∀ a, peer = some a → (w.heap a).handshakeParams = none)
    (hrecord : FromRecord env w peer role state) :
    Ensures (fun w' => TakenUp env w'.log)
      (handleOutside env peer session role state data dataLength) w
      fun _ w' => QueuesAhead w' := by
  refine .ite (fun _ => ensures_pure hlog hq) fun _ => .ite (fun _ => ?_)
    fun _ => ensures_pure hlog hq
  have turn : HasTurn w peer data := by
    intro a h ha hh
    cases (none' a ha).symm.trans hh
  exact (ensures_handleHandshakeMsg hlog turn hrecord).mono fun res w' _ handled =>
    handled.outside hq none'

theorem ensures_handleWhole (hlog : TakenUp env w.log) (hq : QueuesAhead w)
    (hrecord : FromRecord env w peer role state) (captured : Captured w peer state)
    (hlen : dtlsHsLength ≤ dataLength) :
    Ensures (fun w' => TakenUp env w'.log)
      (handleWhole env peer session role state data dataLength) w
      fun _ w' => QueuesAhead w' := by
  cases peer with
  | none => exact ensures_handleOutside hlog hq (fun a ha => by cases ha) hrecord
  | some a =>
      refine .of_eq (getPeer_bind _ _ _) ?_
      cases hp : (w.heap a).handshakeParams with
      | none =>
          refine ensures_handleOutside hlog hq (fun b hb => ?_) hrecord
          cases hb
          exact hp
      | some h => exact ensures_handleInSequence hlog hq hp hrecord captured hlen

/-! ## Reassembly -/

theorem shelved_initReassembleBuffer (a : Addr) (n : Nat) :
    Keeps Shelved (dtlsInitReassembleBuffer env a n) := by
  refine (shelved_of_quiet quietTacit.still.nextTick).bind fun t => Keeps.ite
    (fun _ => keeps_pure _) fun _ => ?_
  refine (shelved_of_quiet (quietTacit.still.malloc env)).bind fun found => Keeps.ite
    (fun _ => ?_) fun _ => ?_
  · exact shelved_handshake_bind (fun _ => rfl) fun _ => keeps_pure _
  · exact shelved_handshake_bind (fun _ => rfl) fun _ => keeps_pure _

theorem shelved_appendFragment (a : Addr) (header : HandshakeHeader) (buf : HsReassemble)
    (data : Ptr) (dataLength : Nat) :
    Keeps Shelved (appendFragment a header buf data dataLength) := by
  refine (shelved_emit (e := .fragment _) trivial).bind fun _ => ?_
  refine shelved_handshake_bind (fun _ => rfl) fun _ => Keeps.ite (fun _ => keeps_pure _)
    fun _ => ?_
  exact shelved_handshake_bind (fun _ => rfl) fun _ =>
    (shelved_emit (e := .deliver _ _ _) trivial).bind fun _ => keeps_pure _

theorem shelved_reassemble (header : HandshakeHeader) :
    Keeps Shelved (reassemble env peer header data dataLength) := by
  refine Keeps.ite (fun _ => keeps_pure _) fun _ => Keeps.ite (fun _ => keeps_pure _) fun _ => ?_
  refine (keeps_ofOption _ _).bind fun a => Keeps.bind ?_ fun found => Keeps.ite
    (fun _ => keeps_pure _) fun _ => ?_
  · exact Keeps.ite (fun _ => (shelved_freeReassembleBuffer a).bind fun _ =>
      shelved_initReassembleBuffer a _) fun _ => keeps_pure _
  · refine ((keeps_gets _).bind fun p => keeps_ofOption _ _).bind fun h => ?_
    cases h.reassembleBuf with
    | none => exact keeps_pure _
    | some buf => exact Keeps.ite (fun _ => keeps_pure _) fun _ => shelved_appendFragment _ _ _ _ _

/-- A message that was put together has a header. -/
theorem reassemble_length {header : HandshakeHeader} {m : Ptr × Nat}
    (h : reassemble env peer header data dataLength w = (.ok (.ok m), w')) :
    dtlsHsLength ≤ m.2 := by
  obtain ⟨a, w₂, -, buf, -, -, -, -, -, -, -, happ⟩ := reassemble_appends h
  obtain ⟨_, _, -, happ⟩ := Program.bind_returned happ
  obtain ⟨_, _, -, happ⟩ := Program.bind_returned happ
  split at happ
  · cases happ
  · obtain ⟨_, _, -, happ⟩ := Program.bind_returned happ
    obtain ⟨_, _, -, happ⟩ := Program.bind_returned happ
    cases happ
    exact Nat.le_add_left _ _

theorem ensures_handleHandshake (hlog : TakenUp env w.log) (hq : QueuesAhead w)
    (hrecord : FromRecord env w peer role state) (captured : Captured w peer state) :
    Ensures (fun w' => TakenUp env w'.log)
      (handleHandshake env peer session role state data dataLength) w
      fun _ w' => QueuesAhead w' := by
  refine .ite (fun _ => ensures_pure hlog hq) fun long => .ite (fun part => ?_)
    fun _ => ensures_handleWhole hlog hq hrecord captured (not_lt.mp long)
  refine (Ensures.of_keeps (Q := fun _ w' => Shelved w w') (shelved_reassemble _)
    (fun _ => hlog.shelved) fun _ _ _ => id).bind fun whole w₁ hrun hlog₁ h₁ => ?_
  cases whole with
  | error res => exact ensures_pure hlog₁ (hq.shelved h₁)
  | ok m =>
      exact ensures_handleWhole hlog₁ (hq.shelved h₁) (hrecord.of_record h₁.record)
        (captured.shelved h₁) (reassemble_length hrun)

/-! ## Records -/

/-- `m` keeps what is known of the events, and the order of the queues where it returns. -/
def Orderly {α : Type} (env : Env) (m : M α) (w : World) : Prop :=
  TakenUp env w.log → QueuesAhead w →
    Ensures (fun w' => TakenUp env w'.log) m w fun _ w' => QueuesAhead w'

section
variable {α β : Type} {m : M α}

theorem orderly_of_shelved (h : Keeps Shelved m) : Orderly env m w := by
  intro hlog hq
  exact .of_keeps h (fun _ => hlog.shelved) fun _ _ _ => hq.shelved

theorem orderly_pure (a : α) : Orderly env (pure a : M α) w := orderly_of_shelved (keeps_pure a)

theorem Orderly.bind {f : α → M β} (hm : Orderly env m w)
    (hf : ∀ a w', m w = (.ok a, w') → Orderly env (f a) w') : Orderly env (m >>= f) w := by
  intro hlog hq
  exact (hm hlog hq).bind fun a w' hrun hlog' hq' => hf a w' hrun hlog' hq'

theorem Orderly.of_eq {m' : M α} (heq : m w = m' w') (h : Orderly env m' w')
    (hlog : TakenUp env w.log → TakenUp env w'.log) (hq : QueuesAhead w → QueuesAhead w') :
    Orderly env m w := fun log queues => .of_eq heq (h (hlog log) (hq queues))

theorem Orderly.ite {c : Prop} [Decidable c] {n : M α} (hm : c → Orderly env m w)
    (hn : ¬ c → Orderly env n w) : Orderly env (if c then m else n) w := by
  intro hlog hq
  exact .ite (fun hc => hm hc hlog hq) fun hc => hn hc hlog hq

end

/-- A record is opened in the state of its peer, or is the start of a handshake with a peer that is
    connected. -/
theorem openPeerRecord_captured {msg : Ptr} {rlen : Nat} {o : OpenRecord}
    (h : openPeerRecord env peer msg rlen w = (.ok (.ok o), w')) : Captured w' peer o.state := by
  intro b hb waits
  subst hb
  obtain ⟨p', hrun, -, -, hstate⟩ := @decryptVerify_apply env b msg rlen w
  rw [openPeerRecord, Program.bind_ok hrun, getPeer_bind, heap_setPeer] at h
  by_cases hneg : (decryptPacket env.prims (w.heap b) msg rlen).length < 0
  · rw [if_pos hneg] at h
    by_cases hs : hsAttemptWithExistingPeer
        (decryptPacket env.prims (w.heap b) msg rlen).packet p' = true
    · rw [if_pos hs] at h
      cases h
      rw [heap_setPeer, hsAttempt_connected hs] at waits
      cases waits
    · rw [if_neg hs] at h
      obtain ⟨_, _, -, h⟩ := Program.bind_returned h
      cases h
  · rw [if_neg hneg] at h
    cases h
    rwa [heap_setPeer] at waits

theorem checkEpoch_captured {o o' : OpenRecord} (captured : Captured w peer o.state)
    (h : checkEpoch peer o w = (.ok (some o'), w)) : Captured w peer o'.state := by
  intro a ha waits
  subst ha
  rw [checkEpoch, getPeer_bind] at h
  cases hs : (w.heap a).security0 with
  | none =>
      rw [hs] at h
      cases h
      exact captured a rfl waits
  | some s =>
      simp only [hs] at h
      split at h
      · cases h
        exact captured a rfl waits
      split at h
      · rename_i attempt
        rw [hsAttempt_connected attempt] at waits
        cases waits
      · cases h

theorem shelved_handshakeHandled (err : Int) :
    Keeps Shelved (handshakeHandled env peer session err) := by
  refine Keeps.ite (fun _ => keeps_pure _) fun _ => Keeps.ite (fun _ =>
    (shelved_alertSendFromErr peer session err).bind fun _ => keeps_pure _) fun _ => ?_
  cases peer with
  | none => exact keeps_pure _
  | some a =>
      refine (keeps_gets _).bind fun p => Keeps.bind ?_ fun _ => keeps_pure _
      exact Keeps.when fun _ => (shelved_of_quiet (quietTacit.stopRetransmission a)).bind fun _ =>
        shelved_of_quiet (quietTacit.still.callEvent _ _ _)

theorem orderly_handleHandshakeRecord {r : RecordCall} {o : OpenRecord}
    (record : currentRecord w.log = some r) (ho : Opens env r w o)
    (captured : Captured w r.peer o.state) :
    Orderly env (handleHandshakeRecord env r.peer session o) w := by
  refine Orderly.bind (orderly_of_shelved fun w => ?_) fun checked w₁ hcheck => ?_
  · rw [checkEpoch_apply]
    exact shelved_refl w
  cases checked with
  | none => exact orderly_pure _
  | some o' =>
      obtain ⟨rfl, -, -, hadmitted⟩ := checkEpoch_admitted ho hcheck
      have hrecord : FromRecord env w₁ r.peer o'.role o'.state := by
        intro hs
        rcases hadmitted with fresh | ⟨a, p, admitted⟩
        · cases hs.symm.trans fresh
        · exact ⟨r, a, p, record, admitted.peer, admitted⟩
      refine Orderly.bind (fun hlog hq => ?_)
        fun err w₂ _ => orderly_of_shelved (shelved_handshakeHandled err)
      exact ensures_handleHandshake hlog hq hrecord (checkEpoch_captured captured hcheck)

/-- A ChangeCipherSpec is what makes a peer wait for a Finished. -/
theorem orderly_handleCcs : Orderly env (handleCcs env peer data dataLength) w := by
  cases peer with
  | none => exact orderly_pure _
  | some a =>
      refine Orderly.bind (orderly_of_shelved (keeps_gets _)) fun p w₁ _ => ?_
      refine .ite (fun _ => orderly_pure _) fun _ => .ite (fun _ => orderly_pure _) fun _ => ?_
      have block : Keeps Shelved (serverKeyBlock env a p) :=
        Keeps.ite (fun _ => keeps_pure _) fun _ => shelved_calculateKeyBlock a _
      refine (orderly_of_shelved block).bind fun err w₂ _ => .ite (fun _ => orderly_pure _)
        fun _ => .of_eq (setState_bind a .waitFinished _ w₂) (orderly_pure _) (fun h => h.event rfl)
          fun hq b => ?_
      by_cases hb : b = a
      · rw [hb, heap_setPeer]
        exact hq a
      · rw [heap_setPeer_ne _ hb]
        exact hq b

theorem orderly_dispatchRecord {r : RecordCall} {o : OpenRecord}
    (record : currentRecord w.log = some r) (ho : Opens env r w o)
    (captured : Captured w r.peer o.state) :
    Orderly env (dispatchRecord env r.peer session o) w := by
  have stop : Keeps Shelved (stopRetransmissionOf r.peer) :=
    shelved_of_quiet (quietTacit.stopRetransmissionOf r.peer)
  refine .ite (fun _ => ?_) fun _ => .ite (fun _ => ?_) fun _ => .ite (fun _ => ?_) fun _ =>
    .ite (fun _ => ?_) fun _ => orderly_pure _
  · refine (orderly_of_shelved stop).bind fun _ w₁ _ => orderly_handleCcs.bind fun err w₂ _ =>
      .ite (fun _ => orderly_pure _) fun _ => orderly_of_shelved ?_
    refine (shelved_alertSendFromErr r.peer session err).bind fun _ => ?_
    cases r.peer with
    | none => exact keeps_pure _
    | some a => exact (shelved_destroyPeer a).bind fun _ => keeps_pure _
  · exact orderly_of_shelved <| stop.bind fun _ =>
      (shelved_handleAlert r.peer _ _).bind fun _ => keeps_pure _
  · exact orderly_handleHandshakeRecord record ho captured
  · refine orderly_of_shelved ?_
    cases r.peer with
    | none => exact keeps_pure _
    | some a => exact (shelved_handleApplicationData a _ _).bind fun _ => keeps_pure _

theorem orderly_handleRecord (msg : Ptr) (rlen : Nat) :
    Orderly env (handleRecord env peer session msg rlen) w := by
  let r : RecordCall := ⟨peer, peer.map w.heap, msg, rlen⟩
  intro hlog hq
  unfold handleRecord
  refine .gets_bind (.of_eq (emit_bind _ _ _) ?_)
  have opening := @shelved_openPeerRecord env peer msg rlen
  refine Orderly.bind (w := w.emitted (.record r)) (orderly_of_shelved opening)
    (fun opened w₁ hopened => ?_) (hlog.event rfl) hq
  cases opened with
  | error err => exact orderly_pure _
  | ok o =>
      have ho : Opens env r w₁ o := openPeerRecord_opens (w := w.emitted (.record r)) hopened
      have record : currentRecord w₁.log = some r := (opening.of_run hopened).record
      have captured : Captured w₁ r.peer o.state := openPeerRecord_captured hopened
      exact (orderly_dispatchRecord record ho captured).bind fun _ _ _ => orderly_pure _

theorem orderly_handleRecords {fuel : Nat} (msg : Ptr) (msglen : Nat) :
    Orderly env (handleRecords env peer session fuel msg msglen) w := by
  induction fuel generalizing msg msglen w with
  | zero => exact orderly_pure _
  | succ fuel ih =>
      refine .ite (fun _ => orderly_pure _) fun _ => ?_
      refine (orderly_handleRecord msg _).bind fun next w₁ _ => ?_
      cases next with
      | error err => exact orderly_pure _
      | ok msg => exact ih msg _

/-! ## Runs -/

theorem orderly_runInput (i : Input) : Orderly env (runInput env i) w := by
  cases i with
  | handleMessage session msg msglen =>
      refine Orderly.bind ?_ fun _ _ _ => orderly_pure _
      exact (orderly_of_shelved (keeps_gets _)).bind fun _ _ _ => orderly_handleRecords msg msglen
  | checkRetransmit all =>
      exact orderly_of_shelved (shelved_of_quiet ((quietFrame env).checkRetransmit all))
  | app call => exact orderly_of_shelved (shelved_runAppCall call)
  | resetPeer session =>
      refine orderly_of_shelved ((keeps_gets _).bind fun peer => ?_)
      cases peer with
      | none => exact keeps_pure _
      | some a =>
          exact (shelved_of_quiet (quietTacit.stopRetransmission a)).bind fun _ =>
            shelved_destroyPeer a

/-- A call keeps both, and so does a run of calls. -/
theorem orderly_runInputs (is : List Input) : Orderly env (runInputs env is) w := by
  induction is generalizing w with
  | nil => exact orderly_pure _
  | cons i is ih => exact (orderly_runInput i).bind fun _ _ _ => ih

theorem queuesAhead_initial (h : Initial w) : QueuesAhead w := by
  intro a
  obtain ⟨session, ha⟩ := h.heap a
  refine ahead_of_blank (blank_of_none ?_)
  rw [ha]
  rfl

theorem ensures_runInputs (is : List Input) (h : Initial w) :
    Ensures (fun w' => TakenUp env w'.log) (runInputs env is) w fun _ w' => QueuesAhead w' := by
  refine orderly_runInputs is ?_ (queuesAhead_initial h)
  rw [h.log]
  exact takenUp_nil

/-- Numbers that differ, all of them between `m` and `k`, are few. -/
theorem length_le_of_between {l : List Nat} {m k : Nat} (nodup : l.Nodup)
    (h : ∀ n ∈ l, m < n ∧ n < k) : l.length ≤ k - m - 1 := by
  have inside : l.toFinset ⊆ Finset.Ioo m k := by
    intro n hn
    exact Finset.mem_Ioo.mpr (h n (List.mem_toFinset.mp hn))
  have few := Finset.card_le_card inside
  rwa [List.toFinset_card_of_nodup nodup, Nat.card_Ioo] at few

theorem ended_of_returned {m : M Unit} (h : (m w).1.toBool = true) : m w = (.ok (), (m w).2) := by
  rcases hm : m w with ⟨_ | _, w'⟩
  · rw [hm] at h
    cases h
  · rfl

/-- A ClientHello, and a message ahead of its turn. -/
def messageEarly : List Input :=
  helloReceived ++ [arrival (sampleSession 0) (fragmentRecord dtlsHtFinished 12 2 0 12
    (List.replicate 12 0))]

/-- **EVERY EVENT OF A RUN** is one that can be seen from outside, or what is known of it is known
    of the world in which it happened. -/
theorem Reachable.event_known (h : Reachable env w) {e : Event} {earlier : List Event}
    (he : ¬ e.outside) (hs : e :: earlier <:+ w.log) :
    ∃ w₁ : World, w₁.log = earlier ∧ e.Known env w₁ := by
  let I (w : World) : Prop := ∀ earlier, e :: earlier <:+ w.log →
    ∃ w₁ : World, w₁.log = earlier ∧ e.Known env w₁
  refine h.invariant (I := I) (fun w w' step hw earlier hs => ?_) (fun w h₀ earlier hs => ?_)
    earlier hs
  · rcases step.known with ⟨l, hl, ho⟩ | ⟨e', hl, known⟩
    · rw [hl] at hs
      exact hw earlier (suffix_of_not ho he hs)
    · rw [hl] at hs
      rcases List.suffix_cons_iff.mp hs with heq | hs
      · cases heq
        exact ⟨w, rfl, known⟩
      · exact hw earlier hs
  · rw [h₀.log] at hs
    cases List.suffix_nil.mp hs

theorem suffix_of_currentMessage {l : List Event} {c : HandshakeCall}
    (h : currentMessage l = some c) : ∃ since, .message c :: since <:+ l := by
  induction l with
  | nil => cases h
  | cons e l ih =>
      cases e with
      | message c' =>
          cases h
          exact ⟨l, List.suffix_refl _⟩
      | _ =>
          obtain ⟨since, hs⟩ := ih h
          exact ⟨since, hs.trans (List.suffix_cons _ _)⟩

/-- The Finished that ends the handshake of the peer at `a`: it verifies, and it came in a record
    that was opened with the keys of the epoch in which the Finished is due, as its payload or as
    the last part of a message that was put together. -/
structure HandshakeCall.Completes (env : Env) (c : HandshakeCall) (a : Addr)
    (since : List Event) : Prop where
  peer : c.peer = some a
  finished : c.data.uint8 = dtlsHtFinished
  verifies : ∃ p, c.before = some p ∧ p.handshakeParams.isSome = true ∧
    checkFinished env p c.data c.dataLength = 0
  ofRecord : ∃ r p, currentRecord since = some r ∧ Admitted env r c.role .waitFinished a p ∧
    ((c.data, c.dataLength) = r.payload env ∨ Fragmented (r.payload env).1)
  turn : c.InTurn

/-- **HANDSHAKE COMPLETION.**  In every run, whenever a peer becomes connected, the message that is
    being handled is a Finished that completes its handshake; it was not taken from the reorder
    queue, from which the epoch of a message cannot be seen. -/
theorem connected_by_finished (h : Reachable env w) {a : Addr} {old : DtlsState}
    {earlier : List Event} (hs : .state a old .connected :: earlier <:+ w.log) :
    ∃ c since, currentMessage earlier = some c ∧ .message c :: since <:+ earlier ∧
      c.Completes env a since ∧ ∀ b s rest, since = .replay b s :: rest → s ≠ .waitFinished := by
  obtain ⟨w₀, is, initial, hw⟩ := id h
  have taken : TakenUp env w.log := hw ▸ (ensures_runInputs is initial).1
  obtain ⟨w₁, hlog₁, -, entered⟩ := h.event_known id hs
  obtain ⟨c, p, current, peer, before, type, state, params, checked⟩ := entered.connected rfl
  rw [hlog₁] at current
  obtain ⟨since, hsince⟩ := suffix_of_currentMessage current
  have told : .message c :: since <:+ w.log :=
    hsince.trans ((List.suffix_cons _ _).trans hs)
  obtain ⟨r, b, p', record, hb, admitted⟩ := taken.ofRecord c since told state
  cases peer.symm.trans hb
  rw [state] at admitted
  obtain ⟨w₂, hlog₂, -, origin⟩ := h.event_known id told
  refine ⟨c, since, current, hsince, ⟨peer, type, ⟨p, before, params, checked⟩, ?_,
    taken.turn c (told.subset List.mem_cons_self)⟩, fun b s rest hrest => ?_⟩
  · refine ⟨r, p', record, admitted, ?_⟩
    cases origin with
    | direct r' record' payload _ _ _ =>
        rw [hlog₂, record] at record'
        cases record'
        exact .inl payload
    | assembled r' record' fragment =>
        rw [hlog₂, record] at record'
        cases record'
        exact .inr fragment
    | replayed b rest log _ =>
        have replay : .replay b c.state ∈ w.log := by
          refine told.subset (List.mem_cons_of_mem _ ?_)
          rw [← hlog₂, log]
          exact List.mem_cons_self
        exact absurd state (taken.replay b c.state replay)
  · refine taken.replay b s (told.subset (List.mem_cons_of_mem _ ?_))
    rw [hrest]
    exact List.mem_cons_self

/-- Becomes a peer connected? -/
def Event.connects : Event → Bool
  | .state _ _ .connected => true
  | _ => false

theorem connected_by_finished_handshake :
    ∃ a old earlier c since, .state a old .connected :: earlier
        <:+ (runInputs sampleEnv handshakeDone sampleWorld).2.log ∧
      currentMessage earlier = some c ∧ c.Completes sampleEnv a since := by
  have run : (runInputs sampleEnv handshakeDone sampleWorld).2.log.any Event.connects = true := by
    decide +kernel
  obtain ⟨e, mem, connects⟩ := List.any_eq_true.mp run
  obtain ⟨later, earlier, hl⟩ := List.append_of_mem mem
  cases e with
  | state a old new =>
      cases new with
      | connected =>
          have hs : .state a old .connected :: earlier
              <:+ (runInputs sampleEnv handshakeDone sampleWorld).2.log := ⟨later, hl.symm⟩
          obtain ⟨c, since, current, -, completes, -⟩ :=
            connected_by_finished (sample_reachable handshakeDone) hs
          exact ⟨a, old, earlier, c, since, hs, current, completes⟩
      | _ => cases connects
  | _ => cases connects

end PqDtls.Dtls
