import PqDtls.Dtls.MessagePlace
import PqDtls.Dtls.Lifetime
import PqDtls.Dtls.ListWalks
import PqDtls.Lib.TimedQueue

/-! # The order of handshake messages

    A message that comes ahead of its turn waits in the reorder queue.  The queue is in
    order (`Ahead`) when everything in it is ahead of the message that is waited for, and
    nothing is there twice; after a message that counts, one of the queued ones may be
    `Due`, and when that one is taken out, the rest is in order again.

    What a message does to this is said by `Handled`: the handlers leave the places
    alone (`Shelved`), and how they end says who is counted (`Counts`).  The peer that is
    counted does not go on waiting for a Finished, whatever the message was. -/

namespace PqDtls.Dtls

open Program (get gets modify stop ofOption when Keeps Ensures keeps_pure keeps_get keeps_gets
  keeps_stop keeps_ofOption keeps_modify ensures_pure ensures_stop ensures_ofOption)
open Ksnmss

variable {env : Env}

/-! ## Queues in order -/

/-- Everything that is queued comes later than what is waited for, and nothing is queued twice. -/
def Ahead : Option (Nat × List Netq) → Prop
  | none => True
  | some (m, q) => (q.map Netq.messageSeq).Nodup ∧ ∀ n ∈ q, m < n.messageSeq

/-- One of the queued messages may have its turn. -/
def Due : Option (Nat × List Netq) → Prop
  | none => True
  | some (m, q) => (q.map Netq.messageSeq).Nodup ∧ ∀ n ∈ q, m ≤ n.messageSeq

/-- The place after a message that counts. -/
def nextPlace (x : Nat × List Netq) : Nat × List Netq := ((x.1 + 1) % 2 ^ 16, x.2)

theorem Ahead.due {x : Option (Nat × List Netq)} (h : Ahead x) : Due x := by
  cases x with
  | none => trivial
  | some x => exact ⟨h.1, fun n hn => (h.2 n hn).le⟩

theorem ahead_of_blank {p : Peer} (h : Blank p) : Ahead p.place := by
  rcases hx : p.place with _ | ⟨m, q⟩
  · trivial
  · rw [h m q hx]
    exact ⟨List.nodup_nil, List.forall_mem_nil _⟩

theorem messageSeq_lt (n : Netq) : n.messageSeq < 2 ^ 16 := uint16_lt _

/-- A message that counts makes the next one due; the number only starts anew when nothing is
    queued. -/
theorem Ahead.next {x : Option (Nat × List Netq)} (h : Ahead x) :
    Due (x.map nextPlace) := by
  cases x with
  | none => trivial
  | some x =>
      refine ⟨h.1, fun n hn => ?_⟩
      have later := h.2 n hn
      have bound := messageSeq_lt n
      show (x.1 + 1) % 2 ^ 16 ≤ n.messageSeq
      omega

/-- Of values that differ, none is left that is equal to the one that is erased. -/
theorem ne_of_mem_eraseP {α : Type} {f : α → Nat} {m : Nat} {q : List α} (h : (q.map f).Nodup)
    {x : α} (hx : x ∈ q.eraseP fun y => f y = m) : f x ≠ m := by
  induction q with
  | nil => cases hx
  | cons y q ih =>
      obtain ⟨fresh, rest⟩ := List.nodup_cons.mp h
      by_cases hy : f y = m
      · rw [List.eraseP_cons_of_pos (by simpa using hy)] at hx
        rintro rfl
        exact fresh (List.mem_map.mpr ⟨x, hx, hy.symm⟩)
      · rw [List.eraseP_cons_of_neg (by simpa using hy)] at hx
        rcases List.mem_cons.mp hx with rfl | hx
        · exact hy
        · exact ih rest hx

/-- The message that has its turn leaves the queue. -/
theorem Due.erase {m : Nat} {q : List Netq} (h : Due (some (m, q))) :
    Ahead (some (m, q.eraseP fun n => n.messageSeq = m)) := by
  obtain ⟨nodup, due⟩ := h
  refine ⟨nodup.sublist (List.eraseP_sublist.map _), fun n hn => ?_⟩
  exact lt_of_le_of_ne (due n (List.mem_of_mem_eraseP hn)) (ne_of_mem_eraseP nodup hn).symm

/-- With nothing left that has its turn, the queue is in order. -/
theorem Due.ahead {m : Nat} {q : List Netq} (h : Due (some (m, q)))
    (none' : ∀ n ∈ q, n.messageSeq ≠ m) : Ahead (some (m, q)) :=
  ⟨h.1, fun n hn => lt_of_le_of_ne (h.2 n hn) (none' n hn).symm⟩

/-- A later message that is not queued yet is inserted. -/
theorem Ahead.insert {m : Nat} {q : List Netq} {n : Netq} (h : Ahead (some (m, q)))
    (later : m < n.messageSeq) (fresh : ∀ n' ∈ q, n'.messageSeq ≠ n.messageSeq) :
    Ahead (some (m, netqInsertNode q n)) := by
  have perm : (netqInsertNode q n).Perm (n :: q) := TimedQueue.perm_insert (fun n : Netq => n.t) q n
  refine ⟨(perm.map Netq.messageSeq).nodup_iff.mpr ?_, fun n' hn' => ?_⟩
  · refine List.nodup_cons.mpr ⟨fun mem => ?_, h.1⟩
    obtain ⟨n', hn', same⟩ := List.mem_map.mp mem
    exact fresh n' hn' same
  · rcases List.mem_cons.mp (perm.mem_iff.mp hn') with rfl | hn'
    · exact later
    · exact h.2 n' hn'

/-! ## How a message is answered -/

/-- Where `m` returns, `Q` holds. -/
def Ends (m : M Outcome) (Q : Outcome → World → Prop) : Prop :=
  ∀ w o w', m w = (.ok o, w') → Q o w'

variable {Q : Outcome → World → Prop}

theorem Ends.bind {α : Type} {m : M α} {f : α → M Outcome} (hf : ∀ a, Ends (f a) Q) :
    Ends (m >>= f) Q := by
  intro w o w' h
  obtain ⟨a, s, -, hrest⟩ := Program.bind_returned h
  exact hf a s o w' hrest

theorem Ends.ite {c : Prop} [Decidable c] {m n : M Outcome} (hm : c → Ends m Q)
    (hn : ¬ c → Ends n Q) : Ends (if c then m else n) Q := by
  by_cases h : c
  · rw [if_pos h]
    exact hm h
  · rw [if_neg h]
    exact hn h

theorem ends_pure {o : Outcome} (h : ∀ w, Q o w) : Ends (pure o) Q := by
  intro w o' w' hrun
  cases hrun
  exact h w

theorem ends_withHandshake {peer : Option Addr} {k : Addr → HandshakeParameters → M Outcome}
    (hret : ∀ err w, Q (.ret err) w) (hk : ∀ a h, peer = some a → Ends (k a h) Q) :
    Ends (withHandshake peer k) Q := by
  cases peer with
  | none => exact ends_pure (hret _)
  | some a =>
      refine Ends.bind fun p => ?_
      cases p.handshakeParams with
      | none => exact ends_pure (hret _)
      | some h => exact hk a h rfl

/-- A message counts for the peer it is handled for, or for one in which nothing is queued; and
    that peer does not go on waiting for a Finished. -/
def Counts (peer : Option Addr) (state : DtlsState) (o : Outcome) (w : World) : Prop :=
  ∀ b err, o = .done (some b) err → (peer = some b ∨ Blank (w.heap b)) ∧
    (state = .waitFinished → (w.heap b).state ≠ .waitFinished)

variable {peer : Option Addr} {session : Session} {role : DtlsPeerType} {state : DtlsState}
  {data : Ptr} {dataLength : Nat} {w w' : World}

theorem counts_ret (err : Int) (w : World) : Counts peer state (.ret err) w := by
  rintro b err' h
  cases h

/-- In another state than that, the peer itself may be counted. -/
theorem counts_done (hs : state ≠ .waitFinished) (err : Int) (w : World) :
    Counts peer state (.done peer err) w := by
  intro b err' h
  cases h
  exact ⟨.inl rfl, fun h => absurd h hs⟩

theorem ends_ret (err : Int) : Ends (pure (.ret err)) (Counts peer state) :=
  ends_pure (counts_ret err)

/-- What is only allowed in one state, which is another one. -/
theorem ends_guarded {s : DtlsState} {m : M Outcome} (hs : s ≠ .waitFinished)
    (hm : state ≠ .waitFinished → Ends m (Counts peer state)) :
    Ends (if state ≠ s then unexpectedMessage else m) (Counts peer state) := by
  refine Ends.ite (fun _ => ends_ret _) fun h => hm ?_
  rw [not_not.mp h]
  exact hs

theorem ends_handleHelloVerifyRequest :
    Ends (handleHelloVerifyRequest env peer state data dataLength) (Counts peer state) :=
  ends_guarded nofun fun hs => .bind fun _ => .ite (fun _ => ends_ret _) fun _ =>
    .bind fun _ => .bind fun _ => ends_pure (counts_done hs _)

theorem ends_handleServerHello :
    Ends (handleServerHello env peer state data dataLength) (Counts peer state) := by
  refine ends_guarded nofun fun hs => ends_withHandshake counts_ret fun a _ ha => ?_
  subst ha
  exact .bind fun _ => .ite (fun _ => ends_ret _) fun _ =>
    .bind fun _ => .bind fun _ => ends_pure (counts_done hs _)

theorem ends_handleCertificate :
    Ends (handleCertificate env peer role state data dataLength) (Counts peer state) := by
  refine .ite (fun _ => ends_ret _) fun h => ?_
  have hs : state ≠ .waitFinished := by
    rintro rfl
    cases role with
    | client => exact h (.inl ⟨rfl, nofun⟩)
    | server => exact h (.inr ⟨rfl, nofun⟩)
  cases peer with
  | none => exact ends_ret _
  | some a =>
      exact .bind fun _ => .ite (fun _ => ends_ret _) fun _ =>
        .bind fun _ => ends_pure (counts_done hs _)

/-- Also in a handshake with a suite of neither kind: the state is another one afterwards. -/
theorem ends_serverKeyExchangeChecked (a : Addr) (err : Int) :
    Ends (serverKeyExchangeChecked a err) (Counts (some a) state) := by
  refine .ite (fun _ => ends_ret _) fun _ w o w' hrun => ?_
  rw [setState_bind] at hrun
  cases hrun
  rintro b err' h
  cases h
  refine ⟨.inl rfl, fun _ => ?_⟩
  rw [heap_setPeer]
  exact nofun

theorem ends_handleServerKeyExchange :
    Ends (handleServerKeyExchange env peer state data dataLength) (Counts peer state) := by
  refine ends_withHandshake counts_ret fun a h ha => ?_
  subst ha
  refine .ite (fun _ => .ite (fun _ => ends_ret _) fun _ => .bind fun _ => ?_) fun _ =>
    .ite (fun _ => .ite (fun _ => ends_ret _) fun _ => .bind fun _ => ?_) fun _ => ?_
  · exact ends_serverKeyExchangeChecked a _
  · exact ends_serverKeyExchangeChecked a _
  · exact ends_serverKeyExchangeChecked a 0

theorem ends_handleServerHelloDone :
    Ends (handleServerHelloDone env peer state data dataLength) (Counts peer state) := by
  refine ends_guarded nofun fun hs => ?_
  cases peer with
  | none => exact ends_ret _
  | some a =>
      exact .bind fun _ => .ite (fun _ => ends_ret _) fun _ =>
        .bind fun _ => ends_pure (counts_done hs _)

theorem ends_handleCertificateRequest :
    Ends (handleCertificateRequest peer state data dataLength) (Counts peer state) := by
  refine ends_guarded nofun fun hs => ?_
  cases peer with
  | none => exact ends_ret _
  | some a =>
      exact .bind fun _ => .ite (fun _ => ends_ret _) fun _ => ends_pure (counts_done hs _)

/-- A Finished is not counted: the handshake is over, or failed. -/
theorem ends_handleFinished :
    Ends (handleFinished env peer role state data dataLength) (Counts peer state) := by
  refine .ite (fun _ => ends_ret _) fun _ => ends_withHandshake counts_ret fun a _ _ => ?_
  exact .bind fun _ => .ite (fun _ => ends_ret _) fun _ => .bind fun _ =>
    .ite (fun _ => ends_ret _) fun _ => .bind fun _ => .bind fun _ => .bind fun _ => ends_ret _

theorem ends_handleClientKeyExchange :
    Ends (handleClientKeyExchange env peer state data dataLength) (Counts peer state) := by
  refine ends_guarded nofun fun hs => ends_withHandshake counts_ret fun a _ ha => ?_
  subst ha
  exact .bind fun _ => .bind fun _ => .ite (fun _ => ends_ret _) fun _ =>
    .bind fun _ => .bind fun _ => .bind fun _ => ends_pure (counts_done hs _)

theorem ends_handleCertificateVerify :
    Ends (handleCertificateVerify env peer state data dataLength) (Counts peer state) := by
  refine ends_guarded nofun fun hs => ends_withHandshake counts_ret fun a _ ha => ?_
  subst ha
  exact .bind fun _ => .ite (fun _ => ends_ret _) fun _ =>
    .bind fun _ => .bind fun _ => ends_pure (counts_done hs _)

/-! ## A ClientHello -/

theorem newPeer_blank {a : Addr} (h : dtlsNewPeer env session w = (.ok (some a), w')) :
    Blank (w'.heap a) := by
  rw [dtlsNewPeer, nextTick_bind, malloc_bind, Program.gets_bind] at h
  split at h
  · cases h
  · cases h
    refine blank_of_none ?_
    show ((w.asked.asked.setPeer (env.peerStorage w.tick) (emptyPeer session)).heap
      (env.peerStorage w.tick)).handshakeParams = none
    rw [heap_setPeer]
    rfl

theorem serverPeer_blank {a : Addr} (h : serverPeer env none session w = (.ok (some a), w')) :
    Blank (w'.heap a) := by
  obtain ⟨new, w₁, hnew, hrest⟩ := Program.bind_returned h
  cases new with
  | none => cases hrest
  | some b =>
      have blank := newPeer_blank hnew
      simp only [modifyPeer_bind] at hrest
      cases hrest
      refine blank.of_place ?_
      show ((w₁.setPeer a _).heap a).place = _
      rw [heap_setPeer]
      rfl

theorem dropPeer_kept {b : Addr} (h : dropPeer peer state w = (.ok (some b), w')) :
    peer = some b := by
  cases peer with
  | none => cases h
  | some a =>
      simp only [dropPeer] at h
      by_cases hs : state = .waitClientHello
      · rw [if_pos hs] at h
        obtain ⟨_, _, -, hfree⟩ := Program.bind_returned h
        obtain ⟨_, _, -, hnone⟩ := Program.bind_returned hfree
        cases hnone
      · rw [if_neg hs] at h
        cases h
        rfl

/-- The peer of a ClientHello that was accepted waits for what the client sends next. -/
theorem ends_acceptClientHello (a : Addr) : Ends (acceptClientHello env a data dataLength)
    fun o w' => ∀ b err, o = .done (some b) err → b = a ∧ (w'.heap a).state ≠ .waitFinished := by
  have ret (err : Int) : Ends (pure (.ret err)) fun o (w' : World) => ∀ b err,
      o = .done (some b) err → b = a ∧ (w'.heap a).state ≠ .waitFinished :=
    ends_pure fun _ _ _ h => by cases h
  refine .bind fun _ => .ite (fun _ => ret _) fun _ => .bind fun _ => .bind fun _ =>
    .ite (fun _ => ret _) fun _ => .bind fun _ => .bind fun _ => .bind fun _ => .bind fun _ =>
      .ite (fun _ => ret _) fun _ => .bind fun h w o w' hrun => ?_
  rw [setState_bind] at hrun
  cases hrun
  rintro b err hb
  cases hb
  refine ⟨rfl, ?_⟩
  rw [heap_setPeer]
  unfold flightSent
  split
  · exact nofun
  · exact nofun

theorem ends_handleClientHello :
    Ends (handleClientHello env peer session state data dataLength) (Counts peer state) := by
  refine .ite (fun _ => ends_ret _) fun hstate => .bind fun err => .ite (fun _ => ends_ret _)
    fun _ => .ite (fun _ => ?_) fun _ w o w' h => ?_
  · cases peer with
    | none =>
        refine ends_pure fun _ b err hb => ?_
        cases hb
    | some a =>
        refine ends_pure (counts_done ?_ err)
        rintro rfl
        exact hstate (.inl ⟨rfl, nofun, nofun⟩)
  · obtain ⟨kept, w₁, hdrop, hmade⟩ := Program.bind_returned h
    obtain ⟨new, w₂, hnew, haccept⟩ := Program.bind_returned hmade
    cases new with
    | none =>
        cases haccept
        exact counts_ret _ _
    | some a =>
        intro b err hb
        obtain ⟨hba, waits⟩ := ends_acceptClientHello a w₂ o w' haccept b err hb
        subst hba
        refine ⟨?_, fun _ => waits⟩
        cases kept with
        | none => exact .inr (((shelved_acceptClientHello b data dataLength).of_run haccept).blank
            (serverPeer_blank hnew))
        | some a =>
            cases hnew
            exact .inl (dropPeer_kept hdrop)

/-- In a handshake a HelloRequest is ignored, and not counted. -/
theorem ends_handleHelloRequest :
    Ends (handleHelloRequest env peer state) (Counts peer state) := by
  refine .ite (fun _ => ends_ret _) fun h => ?_
  have hs : state ≠ .waitFinished := by
    rw [not_not.mp h]
    exact nofun
  cases peer with
  | none => exact ends_ret _
  | some a =>
      exact .bind fun _ => .ite (fun _ => ends_ret _) fun _ => .bind fun _ =>
        .ite (fun _ => ends_ret _) fun _ => .bind fun _ => ends_pure (counts_done hs _)

theorem ends_dispatchMessage :
    Ends (dispatchMessage env peer session role state data dataLength) (Counts peer state) := by
  refine .ite (fun _ => ends_handleHelloVerifyRequest) fun _ => ?_
  refine .ite (fun _ => ends_handleServerHello) fun _ => ?_
  refine .ite (fun _ => ends_handleCertificate) fun _ => ?_
  refine .ite (fun _ => ends_handleServerKeyExchange) fun _ => ?_
  refine .ite (fun _ => ends_handleServerHelloDone) fun _ => ?_
  refine .ite (fun _ => ends_handleCertificateRequest) fun _ => ?_
  refine .ite (fun _ => ends_handleFinished) fun _ => ?_
  refine .ite (fun _ => ends_handleClientKeyExchange) fun _ => ?_
  refine .ite (fun _ => ends_handleCertificateVerify) fun _ => ?_
  refine .ite (fun _ => ends_handleClientHello) fun _ => ?_
  exact .ite (fun _ => ends_handleHelloRequest) fun _ => ends_ret _

/-! ## Taking up a message -/

/-- What a message that was handled with the result `res` did to the places: only its peer is
    counted, and only if it was accepted; that peer does not go on waiting for a Finished. -/
structure Handled (peer : Option Addr) (state : DtlsState) (res : Int) (w w' : World) : Prop where
  place : ∀ a, Blank (w'.heap a) ∨ (w'.heap a).place = (w.heap a).place ∨
    (peer = some a ∧ 0 ≤ res ∧ (w'.heap a).place = (w.heap a).place.map nextPlace ∧
      (state = .waitFinished → (w'.heap a).state ≠ .waitFinished))
  waits : ∀ a, (w'.heap a).state = .waitFinished → (w.heap a).state = .waitFinished

theorem Shelved.handled {res : Int} (h : Shelved w w') : Handled peer state res w w' :=
  ⟨fun a => (h.place a).imp_right .inl, h.waits⟩

theorem place_countMessage (p : Peer) : p.countMessage.place = p.place.map nextPlace := by
  unfold Peer.countMessage Peer.place
  cases p.handshakeParams with
  | none => rfl
  | some h => rfl

theorem Blank.count {p : Peer} (h : Blank p) : Blank p.countMessage := by
  intro m q hq
  rw [place_countMessage, Option.map_eq_some_iff] at hq
  obtain ⟨⟨m', q'⟩, hq', hnext⟩ := hq
  cases hnext
  exact h m' q' hq'

/-- The peer that is counted. -/
theorem handled_count {b : Addr} {res : Int} {w₀ : World} (h : Shelved w₀ w)
    (here : peer = some b ∨ Blank (w.heap b)) (hres : 0 ≤ res)
    (waits : state = .waitFinished → (w.heap b).state ≠ .waitFinished) :
    Handled peer state res w₀ (w.setPeer b (w.heap b).countMessage) := by
  refine ⟨fun a => ?_, fun a ha => h.waits a ?_⟩
  · by_cases hab : a = b
    · subst hab
      rw [heap_setPeer]
      rcases here with hpeer | blank
      · rcases h.place a with blank | same
        · exact .inl blank.count
        · refine .inr (.inr ⟨hpeer, hres, ?_, waits⟩)
          rw [place_countMessage, same]
      · exact .inl blank.count
    · rw [heap_setPeer_ne _ hab]
      exact (h.place a).imp_right .inl
  · by_cases hab : a = b
    · subst hab
      rwa [heap_setPeer] at ha
    · rwa [heap_setPeer_ne _ hab] at ha

/-- What follows the handler counts the message, or not. -/
theorem finishMessage_handled {o : Outcome} {w₀ : World} (h : Shelved w₀ w)
    (counts : Counts peer state o w) :
    ∃ res w', finishMessage o w = (.ok res, w') ∧ w'.log = w.log ∧
      Handled peer state res w₀ w' := by
  cases o with
  | ret err => exact ⟨err, w, rfl, rfl, h.handled⟩
  | done answered err =>
      cases answered with
      | none => exact ⟨err, w, rfl, rfl, h.handled⟩
      | some b =>
          obtain ⟨here, waits⟩ := counts b err rfl
          unfold finishMessage when
          by_cases herr : 0 ≤ err
          · simp only [if_pos herr, modifyPeer_bind]
            exact ⟨err, _, rfl, rfl, handled_count h here herr waits⟩
          · simp only [if_neg herr, pure_bind]
            exact ⟨err, w, rfl, rfl, h.handled⟩

end PqDtls.Dtls
