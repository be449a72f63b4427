import PqDtls.Dtls.QueueMoves
import PqDtls.Dtls.Assertions
import PqDtls.Dtls.Fragmentation

/-! # Queued packets and their peers

    A packet in the queue has a pointer to its peer.  The library purges the queue before it
    takes a peer off the list, on every path that does so, and **`linked_runInputs`** says
    what follows for every run: as long as the peer of a message is still linked when the
    message has been handled, every queued packet has a peer in the list, and
    `dtls_retransmit` and `dtls_stop_retransmission` see no peer that has been released.

    It need not be linked.  A ClientHello that is accepted for a known peer releases it, and
    `dtls_handle_message` goes on with the pointer. -/

namespace PqDtls.Dtls

open Program (get gets modify stop ofOption when Keeps keeps_pure keeps_get keeps_gets keeps_stop
  keeps_ofOption keeps_modify)
open History (Reaches Path Discipline)

variable {env : Env} {w : World} {a : Addr} {peer : Option Addr} {session : Session}

/-! ## The discipline -/

/-- Every queued packet has a peer in the list. -/
def Linked (w : World) : Prop := ∀ node ∈ w.sendqueue, ∃ a ∈ w.peers, node.peer = some a

/-- What holds from step to step. -/
structure Tidy (w : World) : Prop where
  distinct : w.peers.Nodup
  live : ∀ a ∈ w.peers, w.live a = true
  linked : Linked w

/-- After this return value of `handle_handshake` the loop over the records goes on. -/
def GoesOn (res : Int) : Prop := 0 ≤ res ∨ res = dtlsHsFragmented

/-- When a message has been handled and the loop may go on, its peer is still in the list. -/
def HandledLinked (x : World × QueueOp) : Prop :=
  match x.2 with
  | .handled peer res => GoesOn res → ∀ a, peer = some a → a ∈ x.1.peers
  | _ => True

/-- Every queued packet has a peer in the list, which has not been released, and
    `dtls_stop_retransmission` is not called for a peer that has been released. -/
structure QueueSafe (x : World × QueueOp) : Prop where
  linked : Linked x.1
  packets : ∀ node ∈ x.1.sendqueue, ∀ a, node.peer = some a → x.1.live a = true
  stopped : ∀ a, x.2 = .stop a → x.1.live a = true

def links : Discipline World QueueOp := ⟨QueueMove, Tidy, HandledLinked, QueueSafe⟩

theorem Tidy.safe (h : Tidy w) {op : QueueOp} (stopped : ∀ a, op = .stop a → w.live a = true) :
    QueueSafe (w, op) where
  linked := h.linked
  packets node hn a ha := by
    obtain ⟨b, hb, here⟩ := h.linked node hn
    rw [ha] at here
    cases here
    exact h.live a hb
  stopped := stopped

/-- No packet of the peer at `a` is queued. -/
def Purged (a : Addr) (w : World) : Prop := ∀ node ∈ w.sendqueue, node.peer ≠ some a

/-- The peer at `a` is in the list, and its session is one that `dtls_get_peer` can find. -/
structure Present (a : Addr) (w : World) : Prop where
  linked : a ∈ w.peers
  found : dtlsSessionEquals (w.heap a).session (w.heap a).session = true

theorem Tidy.idle {w' : World} (h : Tidy w) (idle : Idle w w') : Tidy w' where
  distinct := idle.peers ▸ h.distinct
  live := by
    rw [idle.peers, idle.live]
    exact h.live
  linked := by
    rw [Linked, idle.queue, idle.peers]
    exact h.linked

theorem Present.idle {w' : World} (h : Present a w) (idle : Idle w w') : Present a w' where
  linked := idle.peers ▸ h.linked
  found := by
    rw [idle.session]
    exact h.found

theorem Purged.idle {w' : World} (h : Purged a w) (idle : Idle w w') : Purged a w' := by
  rw [Purged, idle.queue]
  exact h

/-- Equal sessions are ones that `dtls_get_peer` can find. -/
theorem sessionEquals_self {x y : Session} (h : dtlsSessionEquals x y = true) :
    dtlsSessionEquals x x = true ∧ dtlsSessionEquals y y = true := by
  have left : dtlsSessionEquals x x = true := (sessionEquals_congr h x).trans h
  have same : y.family = x.family := by
    unfold dtlsSessionEquals at h
    split at h
    · cases h
    · rename_i differs
      exact (not_not.mp (not_or.mp (not_or.mp differs).2).2).symm
  refine ⟨left, ?_⟩
  unfold dtlsSessionEquals at left ⊢
  rw [if_neg (by simp)] at left ⊢
  rw [same]
  split
  · exact decide_eq_true ⟨rfl, rfl⟩
  · rename_i other
    rw [if_neg other] at left
    split
    · exact decide_eq_true ⟨rfl, rfl⟩
    · rename_i other'
      rw [if_neg other'] at left
      exact left

/-- What `dtls_get_peer` finds. -/
theorem present_of_find {w : World} (h : w.peers.find? (fun a =>
    dtlsSessionEquals (w.heap a).session session) = some a) :
    Present a w ∧ dtlsSessionEquals session session = true := by
  have same := List.find?_some h
  obtain ⟨left, right⟩ := sessionEquals_self same
  exact ⟨⟨List.mem_of_find?_eq_some h, left⟩, right⟩

/-! ## Programs under the discipline -/

section Programs

variable {α β : Type} {m : M α} {f : α → M β} {pre : Prop} {post : α → World → Prop}
  {post' : β → World → Prop}

/-- An idle program. -/
theorem links_idle (idle : Keeps Idle m)
    (hpost : pre → ∀ r w', m w = (.ok r, w') → Idle w w' → post r w') :
    links.Guarded pre m w post := by
  refine Discipline.guarded_step (QueueMove.idle (idle w)) fun hw hp _ =>
    ⟨hw.idle (idle w), hw.safe (fun _ h => QueueOp.noConfusion h), fun r hr => ?_⟩
  exact hpost hp r _ (Prod.ext hr rfl) (idle w)

/-- An idle program in front of another one. -/
theorem links_idle_bind (idle : Keeps Idle m)
    (hf : ∀ r w', m w = (.ok r, w') → Idle w w' → links.Guarded pre (f r) w' post') :
    links.Guarded pre (m >>= f) w post' := by
  have kept : links.Guarded pre m w fun _ _ => pre := links_idle idle fun hp _ _ _ _ => hp
  exact Discipline.Guarded.bind kept fun r w' hrun => hf r w' hrun (idle.of_run hrun)

/-- What an answer to a message of the peer at `a` leaves alone. -/
structure Answered (w w' : World) : Prop where
  peers : w'.peers = w.peers
  session : ∀ a, (w'.heap a).session = (w.heap a).session

theorem Present.answered {w' : World} (h : Present a w) (answered : Answered w w') :
    Present a w' where
  linked := answered.peers ▸ h.linked
  found := by
    rw [answered.session]
    exact h.found

/-- A program that queues packets of a peer in the list. -/
theorem links_inside (inside : Keeps (Inside peer) m)
    (hpre : pre → ∃ a ∈ w.peers, peer = some a)
    (hpost : pre → ∀ r w', m w = (.ok r, w') → Answered w w' → post r w') :
    links.Guarded pre m w post := by
  refine Discipline.guarded_of_moves
    (J := fun w' => Answered w w' ∧ ∃ a ∈ w.peers, peer = some a) ?_ (inside w)
    (fun _ hp => ⟨⟨rfl, fun _ => rfl⟩, hpre hp⟩)
    (fun _ hp r w' hrun _ kept => hpost hp r w' hrun kept.1)
  rintro t op u step hop ht ⟨kept, b, hb, rfl⟩
  cases step with
  | idle idle =>
      have answered : Answered w u := ⟨idle.peers.trans kept.peers,
        fun c => (idle.session c).trans (kept.session c)⟩
      exact ⟨ht.idle idle, ⟨answered, b, hb, rfl⟩, ht.safe (fun _ h => QueueOp.noConfusion h)⟩
  | send node sent =>
      have here : node.peer = some b := hop
      refine ⟨⟨ht.distinct, ht.live, ?_⟩, ⟨⟨kept.peers, kept.session⟩, b, hb, rfl⟩,
        ht.safe (fun _ h => QueueOp.noConfusion h)⟩
      intro n hn
      rcases (TimedQueue.mem_insert fun n : Netq => n.t).mp hn with rfl | hn
      · exact ⟨b, kept.peers ▸ hb, here⟩
      · exact ht.linked n hn
  | _ => exact absurd hop id

end Programs

/-! ## Peers leave the list -/

/-- The world after `dtls_stop_retransmission`. -/
def World.stopped (w : World) (a : Addr) : World :=
  { w with sendqueue := w.sendqueue.filter (w.otherSession a) }

/-- It leaves no packet of a peer that `dtls_get_peer` can find. -/
theorem Present.purged (h : Present a w) : Purged a (w.stopped a) := by
  intro node hn here
  have other := List.of_mem_filter hn
  rw [World.otherSession, here, Option.getD_some, h.found] at other
  cases other

theorem Purged.stopped (h : Purged a w) (b : Addr) : Purged a (w.stopped b) :=
  fun node hn => h node (List.mem_of_mem_filter hn)

theorem links_stopRetransmission (a : Addr) :
    links.Guarded (w.live a = true) (dtlsStopRetransmission a) w fun _ w' => w' = w.stopped a := by
  by_cases unowned : w.sendqueue.any (·.peer.isNone) = true
  · have stopped : dtlsStopRetransmission a w = (.error .nullDeref, w) := by
      rw [dtlsStopRetransmission, Program.get_bind, if_pos unowned]
      rfl
    refine ⟨[], ?_, fun hw _ _ => ?_⟩
    · rw [stopped]
      exact .nil
    · rw [stopped]
      exact ⟨hw, List.forall_mem_nil _, fun r hr => by cases hr⟩
  · have run : dtlsStopRetransmission a w = (.ok (), w.stopped a) := by
      rw [dtlsStopRetransmission, Program.get_bind, if_neg unowned]
      rfl
    have moved : QueueMove w (.stop a) (dtlsStopRetransmission a w).2 := by
      rw [run]
      exact QueueMove.stop w a
    refine Discipline.guarded_step moved fun hw live _ => ?_
    have safe : QueueSafe (w, .stop a) := hw.safe fun b same => by
      cases same
      exact live
    rw [run]
    refine ⟨⟨hw.distinct, hw.live, ?_⟩, safe, fun _ _ => rfl⟩
    exact fun node hn => hw.linked node (List.mem_of_mem_filter hn)

theorem links_deletePeer (a : Addr) :
    links.Guarded (Purged a w) (deletePeer a) w fun _ w' =>
      w' = { w with peers := w.peers.erase a } ∧ a ∉ w'.peers := by
  refine Discipline.guarded_step (QueueMove.unlink w a) fun hw purged _ =>
    ⟨⟨hw.distinct.erase a, fun b hb => hw.live b (List.mem_of_mem_erase hb), ?_⟩,
      hw.safe (fun _ h => QueueOp.noConfusion h), fun _ _ => ⟨rfl, hw.distinct.not_mem_erase⟩⟩
  intro node hn
  obtain ⟨b, hb, here⟩ := hw.linked node hn
  refine ⟨b, (List.mem_erase_of_ne ?_).mpr hb, here⟩
  rintro rfl
  exact purged node hn here

theorem links_freePeer (a : Addr) :
    links.Guarded (a ∉ w.peers) (dtlsFreePeer a) w fun _ w' => w'.heap = w.heap ∧
      w'.sendqueue = w.sendqueue ∧ w'.peers = w.peers ∧ w'.log = w.log := by
  refine Discipline.Guarded.gets_bind (Discipline.Guarded.ite (fun _ => Discipline.guarded_stop)
    fun _ => ?_)
  refine Discipline.guarded_step (QueueMove.free w a) fun hw gone _ =>
    ⟨⟨hw.distinct, fun b hb => ?_, hw.linked⟩, hw.safe (fun _ h => QueueOp.noConfusion h),
      fun _ _ => ⟨rfl, rfl, rfl, rfl⟩⟩
  have other : b ≠ a := by
    rintro rfl
    exact gone hb
  show Function.update w.live a false b = true
  rw [Function.update_of_ne other]
  exact hw.live b hb

theorem idle_close (remote : Session) : Keeps Idle (dtlsClose env remote) := by
  refine (keeps_gets _).bind fun found => ?_
  cases found with
  | none => exact keeps_pure _
  | some b =>
      exact (idle_sendAlert b _ _).bind fun _ => (idle_setState b _).bind fun _ => keeps_pure _

/-- A peer is destroyed when no packet of it is queued. -/
theorem links_destroyPeer (a : Addr) :
    links.Guarded (Purged a w) (dtlsDestroyPeer env a) w fun _ _ => True := by
  have closed (p : Peer) : Keeps Idle (when (p.state ≠ .closed ∧ p.state ≠ .closing) (do
      let _ ← dtlsClose env p.session
      pure ())) := Keeps.when fun _ => (idle_close _).bind fun _ => keeps_pure _
  refine Discipline.Guarded.gets_bind (links_idle_bind (closed _) fun _ w₁ _ idle => ?_)
  refine Discipline.Guarded.bind ((links_deletePeer a).mono (fun _ purged => purged.idle idle)
    fun _ _ _ _ _ _ h => h) fun _ w₂ _ => ?_
  exact (links_freePeer a).mono (fun _ h => h.2) fun _ _ _ _ _ _ _ => trivial

/-! ## Peers enter the list -/

/-- What `dtls_new_peer` leaves alone, and what is known of the peer that it returns. -/
structure Provided (session : Session) (w : World) (res : Option Addr) (w' : World) : Prop where
  peers : w'.peers = w.peers
  sendqueue : w'.sendqueue = w.sendqueue
  kept : ∀ c ∈ w.peers, (w'.heap c).session = (w.heap c).session
  sessions : ∀ c, (w'.heap c).session = (w.heap c).session ∨ (w'.heap c).session = session
  new : ∀ b, res = some b → b ∉ w.peers ∧ w'.live b = true ∧ (w'.heap b).session = session

theorem links_newPeer (pre : Prop) (session : Session) :
    links.Guarded pre (dtlsNewPeer env session) w (Provided session w) := by
  refine links_idle_bind idleStill.nextTick fun t w₁ _ idle₁ => ?_
  refine links_idle_bind (idleStill.malloc env) fun found w₂ _ idle₂ => ?_
  have idle : Idle w w₂ := trans_of Idle idle₁ idle₂
  refine Discipline.Guarded.gets_bind (Discipline.Guarded.ite (fun _ => ?_) fun free => ?_)
  · exact Discipline.guarded_pure fun _ _ =>
      ⟨idle.peers, idle.queue, fun c _ => idle.session c, fun c => .inl (idle.session c),
        fun b hb => by cases hb⟩
  · have free : w₂.live (env.peerStorage t) = false := by
      rw [Bool.or_eq_true, not_or] at free
      exact Bool.eq_false_iff.mpr free.2
    refine Discipline.guarded_step (QueueMove.newPeer w₂ (env.peerStorage t) session free)
      fun hw _ _ => ?_
    -- a peer in the list is in use, so it is another one
    have other (c : Addr) (hc : c ∈ w₂.peers) : c ≠ env.peerStorage t := by
      rintro rfl
      rw [hw.live _ hc] at free
      cases free
    refine ⟨⟨hw.distinct, fun c hc => ?_, hw.linked⟩,
      hw.safe (fun _ h => QueueOp.noConfusion h), fun res hres => ?_⟩
    · show Function.update w₂.live (env.peerStorage t) true c = true
      rw [Function.update_of_ne (other c hc)]
      exact hw.live c hc
    · cases hres
      have here : ((w₂.setPeer (env.peerStorage t) (emptyPeer session)).heap
          (env.peerStorage t)).session = session := by
        rw [heap_setPeer]
        rfl
      have there (c : Addr) (hc : c ≠ env.peerStorage t) :
          ((w₂.setPeer (env.peerStorage t) (emptyPeer session)).heap c).session
            = (w.heap c).session :=
        (congrArg Peer.session (heap_setPeer_ne _ hc)).trans (idle.session c)
      refine ⟨idle.peers, idle.queue, fun c hc => there c ?_, fun c => ?_, fun b hb => ?_⟩
      · exact other c (by rwa [idle.peers])
      · by_cases same : c = env.peerStorage t
        · rw [same]
          exact .inr here
        · exact .inl (there c same)
      · cases hb
        refine ⟨fun linked => other _ ?_ rfl, Function.update_self _ _ _, here⟩
        rw [idle.peers]
        exact linked

/-- A peer that is in use enters the list. -/
theorem links_addPeer (a : Addr) :
    links.Guarded (a ∉ w.peers ∧ w.live a = true) (dtlsAddPeer a) w fun _ w' =>
      w' = { w with peers := a :: w.peers } := by
  refine Discipline.guarded_step (QueueMove.link w a) fun hw new _ =>
    ⟨⟨List.nodup_cons.mpr ⟨new.1, hw.distinct⟩, ?_, ?_⟩,
      hw.safe (fun _ h => QueueOp.noConfusion h), fun _ _ => rfl⟩
  · exact List.forall_mem_cons.mpr ⟨new.2, hw.live⟩
  · intro node hn
    obtain ⟨b, hb, here⟩ := hw.linked node hn
    exact ⟨b, List.mem_cons_of_mem _ hb, here⟩

/-! ## ClientHellos -/

theorem not_queued_verifyRequest (rest fragment : Bytes) :
    mustQueue dtlsCtHandshake [dtlsIntToUint8 dtlsHtHelloVerifyRequest ++ rest, fragment]
      ≠ true := by
  rw [mustQueue, Ne, decide_eq_true_iff]
  rintro (⟨-, other⟩ | ccs)
  · exact other rfl
  · cases ccs

theorem idle_sendVerifyRequest (peer : Option Addr) (session : Session) (data : Bytes) :
    Keeps Idle (dtlsSendHandshakeMsgHash env peer session dtlsHtHelloVerifyRequest data false) := by
  have fragments (security : Option SecRef) (fuel remaining : Nat) (ret : Int) :
      Keeps Idle (sendFragments env peer security session dtlsHtHelloVerifyRequest data fuel
        remaining ret) := by
    induction fuel generalizing remaining ret with
    | zero => exact keeps_pure _
    | succ fuel ih =>
        have header {l o f : Nat} {inc : Bool} {k : Bytes → M Int}
            (hk : ∀ rest, Keeps Idle (k (dtlsIntToUint8 dtlsHtHelloVerifyRequest ++ rest))) :
            Keeps Idle (dtlsSetHandshakeHeader dtlsHtHelloVerifyRequest peer l o f inc >>= k) := by
          rw [dtlsSetHandshakeHeader, bind_assoc]
          refine (idleStill.nextMessageSeq peer inc).bind fun seq => ?_
          simp only [List.append_assoc]
          exact hk _
        refine header fun rest => ?_
        refine (idle_sendMulti _ _ _ (not_queued_verifyRequest rest _)).bind fun res => ?_
        exact Keeps.ite (fun _ => keeps_pure _) fun _ => ih _ _
  have tail (security : Option SecRef) : Keeps Idle (do
      when (false = true) (hashMessage dtlsHtHelloVerifyRequest peer data)
      sendFragments env peer security session dtlsHtHelloVerifyRequest data (data.length + 1)
        data.length 0) :=
    (Keeps.when fun add => by cases add).bind fun _ => fragments _ _ _ _
  cases peer with
  | none => exact tail none
  | some a => exact (keeps_gets _).bind fun _ => tail _

/-- The cookie exchange queues nothing. -/
theorem idle_verifyPeer (peer : Option Addr) (session : Session) (state : DtlsState) (data : Ptr)
    (dataLength : Nat) : Keeps Idle (dtlsVerifyPeer env peer session state data dataLength) := by
  refine (idleStill.createCookie session data dataLength).bind fun mycookie => ?_
  cases mycookie with
  | error err => exact keeps_pure _
  | ok mycookie =>
      cases dtlsGetCookie data dataLength with
      | error err => exact keeps_pure _
      | ok cookie => exact Keeps.ite (fun _ => keeps_pure _) fun _ => idle_sendVerifyRequest _ _ _

/-- The peer of a verified ClientHello: in the list, and with the session of the datagram. -/
theorem links_serverPeer (pre : Prop) (session : Session) :
    links.Guarded pre (serverPeer env none session) w fun res w' =>
      (∀ c, (w'.heap c).session = (w.heap c).session ∨ (w'.heap c).session = session) ∧
        ∀ b, res = some b → b ∈ w'.peers := by
  refine Discipline.Guarded.bind (links_newPeer pre session) fun res w₁ _ => ?_
  cases res with
  | none => exact Discipline.guarded_pure fun _ new => ⟨new.sessions, fun b hb => by cases hb⟩
  | some b =>
      refine links_idle_bind (idle_modifyPeer fun _ => rfl) fun _ w₂ _ idle => ?_
      refine Discipline.guarded_bind (fun _ w' => Provided session w (some b) w₁ ∧
        w' = { w₂ with peers := b :: w₂.peers }) ?_ fun _ w₃ _ => ?_
      · refine Discipline.Guarded.mono (links_addPeer b) (fun _ new => ?_)
          fun _ new _ _ _ _ same => ⟨new, same⟩
        obtain ⟨fresh, live, -⟩ := new.new b rfl
        rw [idle.peers, idle.live, new.peers]
        exact ⟨fresh, live⟩
      · refine Discipline.guarded_pure ?_
        rintro - ⟨new, rfl⟩
        refine ⟨fun c => ?_, fun c hc => ?_⟩
        · have same : (w₂.heap c).session = (w₁.heap c).session := idle.session c
          show (w₂.heap c).session = _ ∨ (w₂.heap c).session = _
          rw [same]
          exact new.sessions c
        · cases hc
          exact List.mem_cons_self

/-- The peer of a message, if there is one, is in the list, and no packet of it is queued. -/
def AllPurged (peer : Option Addr) (w : World) : Prop :=
  ∀ a, peer = some a → Present a w ∧ Purged a w

/-- A known peer that starts over is released; nothing else is known of one that is kept. -/
theorem links_dropPeer (peer : Option Addr) (state : DtlsState) :
    links.Guarded (AllPurged peer w) (dropPeer peer state) w fun kept w' =>
      (∀ c, (w'.heap c).session = (w.heap c).session) ∧ ∀ a, kept = some a → a ∈ w'.peers := by
  cases peer with
  | none => exact Discipline.guarded_pure fun _ _ => ⟨fun _ => rfl, fun a ha => by cases ha⟩
  | some a =>
      refine Discipline.Guarded.ite (fun _ => ?_) fun _ => ?_
      · refine Discipline.Guarded.bind ((links_deletePeer a).mono (fun _ h => (h a rfl).2)
          fun _ _ _ _ _ _ h => h) fun _ w₁ _ => ?_
        have freed : links.Guarded (w₁ = { w with peers := w.peers.erase a } ∧ a ∉ w₁.peers)
            (dtlsFreePeer a) w₁ fun _ w' => w'.heap = w.heap := by
          refine (links_freePeer a).mono (fun _ h => h.2) ?_
          rintro - ⟨rfl, -⟩ _ w' - - kept
          exact kept.1
        refine Discipline.Guarded.bind freed fun _ w₂ _ => Discipline.guarded_pure fun _ heap => ?_
        exact ⟨fun c => by rw [heap], fun b hb => by cases hb⟩
      · refine Discipline.guarded_pure fun _ h => ⟨fun _ => rfl, fun b hb => ?_⟩
        cases hb
        exact (h a rfl).1.linked

/-- The session of each peer is what it was, or that of the datagram. -/
def SessionsFrom (session : Session) (w w' : World) : Prop :=
  ∀ c, (w'.heap c).session = (w.heap c).session ∨ (w'.heap c).session = session

/-- A ClientHello is accepted for a peer in the list. -/
theorem links_acceptClientHello {pre : Prop} (a : Addr) (data : Ptr) (dataLength : Nat)
    (hpre : pre → a ∈ w.peers) :
    links.Guarded pre (acceptClientHello env a data dataLength) w fun _ w' =>
      ∀ c, (w'.heap c).session = (w.heap c).session :=
  links_inside ((insideAnswer (some a)).acceptClientHello data dataLength)
    (fun hp => ⟨a, hpre hp, rfl⟩) fun _ _ _ _ answered => answered.session

theorem links_handleClientHello (session : Session) (state : DtlsState) (data : Ptr)
    (dataLength : Nat) :
    links.Guarded (AllPurged peer w) (handleClientHello env peer session state data dataLength) w
      fun _ w' => SessionsFrom session w w' := by
  have kept {w' : World} (idle : Idle w w') : SessionsFrom session w w' :=
    fun c => .inl (idle.session c)
  refine Discipline.Guarded.ite
    (fun _ => Discipline.guarded_pure fun _ _ => kept (refl_of Idle w)) fun _ => ?_
  refine links_idle_bind (idle_verifyPeer peer session state data _) fun err w₁ _ idle => ?_
  refine Discipline.Guarded.ite (fun _ => Discipline.guarded_pure fun _ _ => kept idle) fun _ => ?_
  refine Discipline.Guarded.ite (fun _ => Discipline.guarded_pure fun _ _ => kept idle) fun _ => ?_
  refine Discipline.Guarded.bind ((links_dropPeer peer state).mono
    (fun _ h a ha => ⟨(h a ha).1.idle idle, (h a ha).2.idle idle⟩) fun _ _ _ _ _ _ h => h)
    fun res w₂ _ => ?_
  cases res with
  | none =>
      refine Discipline.guarded_bind (fun res w₃ => SessionsFrom session w w₃ ∧
        ∀ b, res = some b → b ∈ w₃.peers) ?_ fun res w₃ _ => ?_
      · refine (links_serverPeer _ session).mono (fun _ h => h) fun _ h res w₃ _ _ new => ?_
        refine ⟨fun c => ?_, new.2⟩
        rw [← idle.session c, ← h.1 c]
        exact new.1 c
      · cases res with
        | none => exact Discipline.guarded_pure fun _ h => h.1
        | some b =>
            refine (links_acceptClientHello b data dataLength fun h => h.2 b rfl).mono
              (fun _ h => h) fun _ h _ w₄ _ _ same c => ?_
            rw [same]
            exact h.1 c
  | some a =>
      refine (links_acceptClientHello a data dataLength fun h => h.2 a rfl).mono
        (fun _ h => h) fun _ h _ w₃ _ _ same c => ?_
      rw [same, h.1]
      exact kept idle c

/-! ## Messages -/

variable {role : DtlsPeerType} {state : DtlsState}

/-- The peer of a datagram, if there is one, is in the list. -/
def Attached (peer : Option Addr) (w : World) : Prop := ∀ a, peer = some a → Present a w

theorem Attached.idle {w' : World} (h : Attached peer w) (idle : Idle w w') : Attached peer w' :=
  fun a ha => (h a ha).idle idle

/-- The session of a datagram that has a peer is one that `dtls_get_peer` can find. -/
def Addressed (peer : Option Addr) (session : Session) : Prop :=
  ∀ a, peer = some a → dtlsSessionEquals session session = true

/-- Nothing is sent without a peer. -/
theorem idle_dispatchMessage (session : Session) (role : DtlsPeerType) (state : DtlsState)
    (data : Ptr) (dataLength : Nat) (h : data.uint8 ≠ dtlsHtClientHello) :
    Keeps Idle (dispatchMessage env none session role state data dataLength) := by
  have handler : Handler env Idle := idleHandler
  have verifyRequest : Keeps Idle (handleHelloVerifyRequest env none state data dataLength) := by
    refine Keeps.ite (fun _ => keeps_pure _) fun _ => Keeps.bind ?_ fun err => ?_
    · exact Keeps.ite (fun _ => keeps_pure _) fun _ => keeps_pure _
    refine Keeps.ite (fun _ => keeps_pure _) fun _ => (idleStill.ticks env).bind fun _ => ?_
    exact Keeps.bind (keeps_modify fun _ => Idle.around rfl rfl rfl rfl rfl) fun _ => keeps_pure _
  refine Keeps.ite (fun _ => verifyRequest) fun _ => ?_
  refine Keeps.ite (fun _ => handler.handleServerHello _ _ _ _) fun _ => ?_
  refine Keeps.ite (fun _ => handler.handleCertificate _ _ _ _ _) fun _ => ?_
  refine Keeps.ite (fun _ => handler.handleServerKeyExchange _ _ _ _) fun _ => ?_
  refine Keeps.ite (fun _ => Keeps.ite (fun _ => keeps_pure _) fun _ => keeps_pure _) fun _ => ?_
  refine Keeps.ite (fun _ => handler.handleCertificateRequest _ _ _ _) fun _ => ?_
  refine Keeps.ite (fun _ => Keeps.ite (fun _ => keeps_pure _) fun _ => keeps_pure _) fun _ => ?_
  refine Keeps.ite (fun _ => idle_handleClientKeyExchange _ _ _ _) fun _ => ?_
  refine Keeps.ite (fun _ => idle_handleCertificateVerify _ _ _ _) fun _ => ?_
  refine Keeps.ite (fun hello => absurd hello h) fun _ => ?_
  exact Keeps.ite (fun _ => Keeps.ite (fun _ => keeps_pure _) fun _ => keeps_pure _)
    fun _ => keeps_pure _

theorem links_dispatchMessage (session : Session) (data : Ptr) (dataLength : Nat) :
    links.Guarded (AllPurged peer w) (dispatchMessage env peer session role state data dataLength) w
      fun _ w' => SessionsFrom session w w' := by
  by_cases hello : data.uint8 = dtlsHtClientHello
  · have only : dispatchMessage env peer session role state data dataLength
        = handleClientHello env peer session state data dataLength := by
      unfold dispatchMessage
      rw [hello]
      rfl
    rw [only]
    exact links_handleClientHello session state data dataLength
  cases peer with
  | none =>
      exact links_idle (idle_dispatchMessage session role state data dataLength hello)
        fun _ _ _ _ idle c => .inl (idle.session c)
  | some a =>
      exact links_inside
        (inside_dispatchMessage (some a) session role state data dataLength hello)
        (fun h => ⟨a, (h a rfl).1.linked, rfl⟩) fun _ _ _ _ answered c => .inl (answered.session c)

theorem links_stopRetransmissionOf (peer : Option Addr) :
    links.Guarded (Attached peer w) (stopRetransmissionOf peer) w
      fun _ w' => AllPurged peer w' := by
  cases peer with
  | none => exact Discipline.guarded_pure fun _ _ a ha => by cases ha
  | some a =>
      refine (links_stopRetransmission a).mono (fun hw h => hw.live a (h a rfl).linked) ?_
      rintro - h - - - - rfl b hb
      cases hb
      exact ⟨⟨(h a rfl).linked, (h a rfl).found⟩, (h a rfl).purged⟩

/-- **A MESSAGE**: if its peer is in the list at the start, and at the end if the loop may go on,
    then its packets are in order throughout. -/
theorem links_handleHandshakeMsg (session : Session) (data : Ptr) (dataLength : Nat)
    (addressed : Addressed peer session) :
    links.Guarded (Attached peer w)
      (handleHandshakeMsg env peer session role state data dataLength) w
      fun res w' => GoesOn res → Attached peer w' := by
  have message := QueueMove.message w ⟨peer, role, state, peer.map w.heap, data, dataLength⟩
  refine Discipline.Guarded.gets_bind (Discipline.guarded_bind (fun _ w₁ => w₁ = w.emitted
    (.message ⟨peer, role, state, peer.map w.heap, data, dataLength⟩) ∧ Attached peer w₁)
    (Discipline.guarded_step message fun hw h _ => ?_) fun _ w₁ hrun₁ => ?_)
  · exact ⟨⟨hw.distinct, hw.live, hw.linked⟩, hw.safe (fun _ h => QueueOp.noConfusion h), fun _ _ =>
      ⟨rfl, fun a ha => ⟨(h a ha).linked, (h a ha).found⟩⟩⟩
  cases hrun₁
  refine Discipline.Guarded.bind ((links_stopRetransmissionOf peer).mono (fun _ h => h.2)
    fun _ _ _ _ _ _ h => h) fun _ w₂ hrun₂ => ?_
  obtain ⟨heap, log⟩ := stopRetransmissionOf_ok hrun₂
  have current₂ : currentMessage w₂.log
      = some ⟨peer, role, state, peer.map w₂.heap, data, dataLength⟩ := by
    rw [log, heap]
    rfl
  refine Discipline.guarded_bind (fun _ w₃ => ∀ a, peer = some a →
      dtlsSessionEquals (w₃.heap a).session (w₃.heap a).session = true)
    ((links_dispatchMessage session data dataLength).mono (fun _ h => h) ?_) fun o w₃ hrun₃ => ?_
  · intro _ h _ w₃ _ _ sessions a ha
    rcases sessions a with same | new
    · rw [same]
      exact (h a ha).1.found
    · rw [new]
      exact addressed a ha
  have inner₃ := @inner_dispatchMessage env peer role state data dataLength w₂ session current₂
  rw [hrun₃] at inner₃
  refine links_idle_bind ((@idleHandler env).finishMessage o) fun res w₄ hrun₄ idle => ?_
  have inner₄ := (@innerFrame env).handler.finishMessage o w₃
  rw [hrun₄] at inner₄
  have current₄ : currentMessage w₄.log
      = some ⟨peer, role, state, peer.map w₂.heap, data, dataLength⟩ := by
    rw [inner₄.message, inner₃.message, current₂]
  refine Discipline.guarded_step (QueueMove.handled w₄ _ res current₄) fun hw found linked =>
    ⟨⟨hw.distinct, hw.live, hw.linked⟩, hw.safe (fun _ h => QueueOp.noConfusion h),
      fun r hr goesOn a ha => ?_⟩
  cases hr
  refine ⟨linked goesOn a ha, ?_⟩
  show dtlsSessionEquals (w₄.heap a).session (w₄.heap a).session = true
  rw [idle.session]
  exact found a ha

theorem idleAssembler : Assembler Idle where
  toStill := idleStill
  writes := idle_modifyHandshake
  assembled {w e} h := Idle.emitted w (by cases e <;> trivial)

theorem links_replayMessage (a : Addr) (session : Session) (node : Netq)
    (addressed : Addressed (some a) session) :
    links.Guarded (Attached (some a) w) (replayMessage env a session role node) w
      fun res w' => GoesOn res → Attached (some a) w' := by
  refine links_idle_bind (idle_modifyHandshake a _) fun _ w₁ _ taken => ?_
  refine Discipline.Guarded.gets_bind ?_
  have told : Keeps Idle (emit (.replay a (w₁.heap a).state)) := idle_emit trivial
  refine links_idle_bind told fun _ w₂ _ told => ?_
  exact (links_handleHandshakeMsg session _ _ addressed).mono
    (fun _ h => (h.idle taken).idle told) fun _ _ _ _ _ _ h => h

theorem links_replayQueue (a : Addr) (session : Session) (fuel : Nat) (res : Int)
    (addressed : Addressed (some a) session) :
    links.Guarded (Attached (some a) w) (replayQueue env a session role fuel res) w
      fun res w' => GoesOn res → Attached (some a) w' := by
  induction fuel generalizing w res with
  | zero => exact Discipline.guarded_pure fun _ h _ => h
  | succ fuel ih =>
      refine Discipline.Guarded.gets_bind ?_
      cases (w.heap a).handshakeParams with
      | none => exact Discipline.guarded_pure fun _ h _ => h
      | some h =>
          simp only
          cases h.reorderQueue.find? h.isNext with
          | none => exact Discipline.guarded_pure fun _ h _ => h
          | some node =>
              refine (links_replayMessage a session node addressed).bind fun res w₁ _ => ?_
              refine Discipline.Guarded.ite (fun _ => Discipline.guarded_pure fun _ h => h)
                fun more => ?_
              exact (ih res).mono (fun _ h => h (.inl (not_lt.mp more))) fun _ _ _ _ _ _ h => h

theorem links_handleInSequence (a : Addr) (h : HandshakeParameters) (session : Session)
    (data : Ptr) (dataLength : Nat) (addressed : Addressed (some a) session) :
    links.Guarded (Attached (some a) w)
      (handleInSequence env a h session role state data dataLength) w
      fun res w' => GoesOn res → Attached (some a) w' := by
  refine Discipline.Guarded.ite (fun _ => Discipline.guarded_pure fun _ h _ => h) fun _ => ?_
  refine Discipline.Guarded.ite (fun _ => links_idle ((@idleHandler env).queueMessage a h _ _)
    fun h _ _ _ idle _ => h.idle idle) fun _ => ?_
  refine links_idle_bind (idleAssembler.freeReassembleBuffer a) fun _ w₁ _ freed => ?_
  refine Discipline.Guarded.bind ((links_handleHandshakeMsg session _ _ addressed).mono
    (fun _ h => h.idle freed) fun _ _ _ _ _ _ h => h) fun res w₂ _ => ?_
  refine Discipline.Guarded.ite (fun _ => Discipline.guarded_pure fun _ h => h) fun more => ?_
  refine Discipline.Guarded.gets_bind ?_
  exact (links_replayQueue a session _ res addressed).mono
    (fun _ h => h (.inl (not_lt.mp more))) fun _ _ _ _ _ _ h => h

theorem links_handleOutside (session : Session) (data : Ptr) (dataLength : Nat)
    (addressed : Addressed peer session) :
    links.Guarded (Attached peer w) (handleOutside env peer session role state data dataLength) w
      fun res w' => GoesOn res → Attached peer w' := by
  refine Discipline.Guarded.ite (fun _ => Discipline.guarded_pure fun _ h _ => h) fun _ => ?_
  exact Discipline.Guarded.ite (fun _ => links_handleHandshakeMsg session _ _ addressed)
    fun _ => Discipline.guarded_pure fun _ h _ => h

theorem links_handleWhole (session : Session) (data : Ptr) (dataLength : Nat)
    (addressed : Addressed peer session) :
    links.Guarded (Attached peer w) (handleWhole env peer session role state data dataLength) w
      fun res w' => GoesOn res → Attached peer w' := by
  cases peer with
  | none => exact links_handleOutside session data dataLength addressed
  | some a =>
      refine Discipline.Guarded.gets_bind ?_
      cases (w.heap a).handshakeParams with
      | none => exact links_handleOutside session data dataLength addressed
      | some h => exact links_handleInSequence a h session data dataLength addressed

theorem links_handleHandshake (session : Session) (data : Ptr) (dataLength : Nat)
    (addressed : Addressed peer session) :
    links.Guarded (Attached peer w) (handleHandshake env peer session role state data dataLength) w
      fun res w' => GoesOn res → Attached peer w' := by
  refine Discipline.Guarded.ite (fun _ => Discipline.guarded_pure fun _ h _ => h) fun _ => ?_
  refine Discipline.Guarded.ite (fun _ => ?_)
    fun _ => links_handleWhole session data dataLength addressed
  refine links_idle_bind (idleAssembler.reassemble peer _ data dataLength)
    fun whole w₁ _ idle => ?_
  cases whole with
  | error res => exact Discipline.guarded_pure fun _ h _ => h.idle idle
  | ok m =>
      exact (links_handleWhole session m.1 m.2 addressed).mono (fun _ h => h.idle idle)
        fun _ _ _ _ _ _ h => h

/-! ## Calls of the application -/

/-- No peer leaves the list, and the sessions of those in it stay. -/
def Stays (w w' : World) : Prop :=
  ∀ c ∈ w.peers, c ∈ w'.peers ∧ (w'.heap c).session = (w.heap c).session

instance : IsPreorder World Stays where
  refl _ _ hc := ⟨hc, rfl⟩
  trans _ _ _ h h' _ hc := ⟨(h' _ (h _ hc).1).1, (h' _ (h _ hc).1).2.trans (h _ hc).2⟩

theorem Idle.stays {w w' : World} (h : Idle w w') : Stays w w' :=
  fun c hc => ⟨h.peers ▸ hc, h.session c⟩

theorem Answered.stays {w w' : World} (h : Answered w w') : Stays w w' :=
  fun c hc => ⟨h.peers ▸ hc, h.session c⟩

theorem Attached.stays {w' : World} (h : Attached peer w) (kept : Stays w w') :
    Attached peer w' := by
  intro a ha
  obtain ⟨linked, session⟩ := kept a (h a ha).linked
  refine ⟨linked, ?_⟩
  rw [session]
  exact (h a ha).found

variable {pre : Prop}

theorem links_renegotiate (dst : Session) :
    links.Guarded pre (dtlsRenegotiate env dst) w fun _ w' => Stays w w' := by
  refine Discipline.Guarded.gets_bind ?_
  cases found : w.peers.find? fun a => dtlsSessionEquals (w.heap a).session dst with
  | none => exact Discipline.guarded_pure fun _ _ => refl_of Stays w
  | some a =>
      refine Discipline.Guarded.gets_bind (Discipline.Guarded.ite
        (fun _ => Discipline.guarded_pure fun _ _ => refl_of Stays w) fun _ => ?_)
      have answer : Answer env (some a) (Inside (some a)) := insideAnswer (some a)
      refine links_inside (?_ : Keeps (Inside (some a)) _)
        (fun _ => ⟨a, (present_of_find found).1.linked, rfl⟩) fun _ _ _ _ answered => answered.stays
      refine (answer.handshakeNew a).bind fun found => Keeps.ite (fun _ => keeps_pure _) fun _ => ?_
      refine Keeps.ite (fun _ => ?_) fun _ => answer.sendHelloRequest
      exact (answer.sendClientHello []).bind fun err =>
        (Keeps.when fun _ => inside_of_idle (idle_setState a _)).bind fun _ => keeps_pure _

/-- The peer that `dtls_connect` goes on with: one in the list, which `dtls_get_peer` finds for its
    own session, or one that is not in the list. -/
def Target (a : Addr) (w : World) : Prop :=
  (w.peers.find? fun c => dtlsSessionEquals (w.heap c).session (w.heap a).session) = some a ∨
    a ∉ w.peers ∧ w.live a = true

theorem links_connectTarget (dst : Session) :
    links.Guarded pre (connectTarget env dst) w fun res w' =>
      Stays w w' ∧ ∀ a, res = some a → Target a w' := by
  refine Discipline.Guarded.gets_bind ?_
  cases found : w.peers.find? fun a => dtlsSessionEquals (w.heap a).session dst with
  | none =>
      refine (links_newPeer pre dst).mono (fun _ h => h) fun _ _ res w' _ _ new => ?_
      refine ⟨fun c hc => ⟨new.peers ▸ hc, new.kept c hc⟩, fun a ha => .inr ?_⟩
      obtain ⟨fresh, live, -⟩ := new.new a ha
      exact ⟨new.peers ▸ fresh, live⟩
  | some a =>
      refine Discipline.guarded_pure fun _ _ => ⟨refl_of Stays w, fun b hb => .inl ?_⟩
      cases hb
      have here := List.find?_some found
      simp only [sessionEquals_congr here]
      exact found

theorem links_connectPeer (a : Addr) :
    links.Guarded (Target a w) (dtlsConnectPeer env a) w fun _ w' => Stays w w' := by
  refine Discipline.Guarded.gets_bind (Discipline.Guarded.gets_bind (Discipline.Guarded.ite
    (fun _ => links_renegotiate _) fun other => ?_))
  refine links_idle_bind (idle_modifyPeer fun _ => rfl) fun _ w₁ _ idle => ?_
  refine Discipline.guarded_bind (fun _ w₂ => Stays w w₂ ∧ a ∈ w₂.peers) ?_ fun _ w₂ _ => ?_
  · refine (links_addPeer a).mono (fun _ target => ?_) ?_
    · rw [idle.peers, idle.live]
      exact target.resolve_left other
    · rintro - - - - - - rfl
      exact ⟨fun c hc => ⟨List.mem_cons_of_mem _ (idle.peers ▸ hc), idle.session c⟩,
        List.mem_cons_self⟩
  have answer : Answer env (some a) (Inside (some a)) := insideAnswer (some a)
  refine links_inside (?_ : Keeps (Inside (some a)) _) (fun h => ⟨a, h.2, rfl⟩)
    fun h _ _ _ answered => trans_of Stays h.1 answered.stays
  refine Keeps.bind (inside_of_idle (keeps_modify fun _ => Idle.around rfl rfl rfl rfl rfl))
    fun _ => Keeps.bind (inside_of_idle (idle_emit trivial)) fun _ => ?_
  refine (answer.handshakeNew a).bind fun found => Keeps.ite (fun _ => keeps_pure _) fun _ => ?_
  refine (answer.ticks env).bind fun startRtt => Keeps.bind (inside_of_idle
    (keeps_modify fun _ => Idle.around rfl rfl rfl rfl rfl)) fun _ => ?_
  refine (answer.ticks env).bind fun _ => (answer.sendClientHello []).bind fun res => ?_
  exact (Keeps.when fun _ => inside_of_idle (idle_setState a _)).bind fun _ => keeps_pure _

theorem links_connect (dst : Session) :
    links.Guarded pre (dtlsConnect env dst) w fun _ w' => Stays w w' := by
  refine Discipline.Guarded.bind (links_connectTarget dst) fun res w₁ _ => ?_
  cases res with
  | none => exact Discipline.guarded_pure fun _ h => h.1
  | some a =>
      refine Discipline.guarded_bind (fun _ w₂ => Stays w w₂)
        ((links_connectPeer a).mono (fun _ h => h.2 a rfl)
          fun _ h _ _ _ _ kept => trans_of Stays h.1 kept) fun res w₂ _ => ?_
      refine Discipline.Guarded.gets_bind (links_idle (Keeps.bind (Keeps.when fun _ =>
        idleStill.callEvent _ _ _) fun _ => Keeps.bind (Keeps.when fun _ =>
          idleStill.callEvent _ _ _) fun _ => keeps_pure _) fun h _ _ _ idle => ?_)
      exact trans_of Stays h idle.stays

theorem idle_writeConnected (a : Addr) (buf : Ptr) (len : Nat) :
    Keeps Idle (writeConnected env a buf len) := by
  refine (keeps_gets _).bind fun peers => (keeps_ofOption _ _).bind fun head => ?_
  refine (keeps_gets _).bind fun p => Keeps.ite (fun _ => keeps_stop _) fun _ => ?_
  refine (idleStill.teslaPayload head buf len).bind fun payload => ?_
  exact idle_modifyPeer_bind (fun _ => rfl) fun _ => idle_send a _ (by decide) (by decide)

theorem links_runAppCall (call : AppCall) :
    links.Guarded pre (runAppCall env call) w fun _ w' => Stays w w' := by
  have done {m : M Int} (hm : links.Guarded pre m w fun _ w' => Stays w w') :
      links.Guarded pre (do let _ ← m; pure ()) w fun _ w' => Stays w w' :=
    hm.bind fun _ _ _ => Discipline.guarded_pure fun _ h => h
  cases call with
  | connect dst => exact done (links_connect dst)
  | renegotiate dst => exact done (links_renegotiate dst)
  | close dst => exact done (links_idle (idle_close dst) fun _ _ _ _ idle => idle.stays)
  | write dst buf len =>
      refine done (Discipline.Guarded.gets_bind ?_)
      cases w.peers.find? fun a => dtlsSessionEquals (w.heap a).session dst with
      | none =>
          exact Discipline.Guarded.bind (links_connect dst)
            fun _ _ _ => Discipline.guarded_pure fun _ h => h
      | some a =>
          refine Discipline.Guarded.gets_bind (links_idle (Keeps.ite (fun _ => keeps_pure _)
            fun _ => idle_writeConnected a buf len) fun _ _ _ _ idle => idle.stays)

theorem links_runAppCalls (calls : List AppCall) :
    links.Guarded pre (runAppCalls env calls) w fun _ w' => Stays w w' := by
  induction calls generalizing w pre with
  | nil => exact Discipline.guarded_pure fun _ _ => refl_of Stays w
  | cons call calls ih =>
      refine Discipline.Guarded.bind (links_runAppCall call) fun _ w₁ _ => ?_
      exact ih.mono (fun _ h => h) fun _ h _ _ _ _ kept => trans_of Stays h kept

/-! ## Records -/

theorem idle_alertSendFromErr (peer : Option Addr) (session : Session) (err : Int) :
    Keeps Idle (dtlsAlertSendFromErr env peer session err) := by
  unfold dtlsAlertSendFromErr
  cases alertFromErr err with
  | none => exact keeps_pure _
  | some alert =>
      refine (keeps_gets _).bind fun found => ?_
      cases peer <|> found with
      | none => exact keeps_pure _
      | some a => exact (idle_setState a _).bind fun _ => idle_sendAlert a _ _

theorem links_handshakeHandled (peer : Option Addr) (session : Session) (err : Int) :
    links.Guarded (GoesOn err → Attached peer w) (handshakeHandled env peer session err) w
      fun res w' => res = none → Attached peer w' := by
  refine Discipline.Guarded.ite (fun fragmented => Discipline.guarded_pure
    fun _ h _ => h (.inr fragmented)) fun _ => Discipline.Guarded.ite (fun _ => ?_) fun more => ?_
  · refine links_idle_bind (idle_alertSendFromErr _ _ _) fun _ w₁ _ _ => ?_
    exact Discipline.guarded_pure fun _ _ none => by cases none
  have goesOn : GoesOn err := .inl (not_lt.mp more)
  cases peer with
  | none => exact Discipline.guarded_pure fun _ h _ => h goesOn
  | some a =>
      refine Discipline.Guarded.gets_bind (Discipline.guarded_bind
        (fun _ w' => Attached (some a) w') ?_ fun _ w₁ _ =>
          Discipline.guarded_pure fun _ h _ => h)
      refine Discipline.Guarded.ite (fun _ => ?_)
        fun _ => Discipline.guarded_pure fun _ h => h goesOn
      refine Discipline.guarded_bind (fun _ w' => AllPurged (some a) w')
        ((links_stopRetransmissionOf (some a)).mono (fun _ h => h goesOn)
          fun _ _ _ _ _ _ h => h) fun _ w₁ _ => ?_
      exact links_idle (idleStill.callEvent _ _ _) fun h _ _ _ idle b hb => (h b hb).1.idle idle

/-- The check of the epoch leaves everything alone. -/
theorem idle_checkEpoch (peer : Option Addr) (r : OpenRecord) :
    Keeps Idle (checkEpoch peer r) := by
  cases peer with
  | none => exact keeps_pure _
  | some a =>
      refine (keeps_gets _).bind fun p => ?_
      cases p.security0 with
      | none => exact keeps_pure _
      | some s =>
          exact Keeps.ite (fun _ => keeps_pure _) fun _ =>
            Keeps.ite (fun _ => keeps_pure _) fun _ => keeps_pure _

theorem links_handleHandshakeRecord (session : Session) (r : OpenRecord)
    (addressed : Addressed peer session) :
    links.Guarded (Attached peer w) (handleHandshakeRecord env peer session r) w
      fun res w' => res = none → Attached peer w' := by
  refine links_idle_bind (idle_checkEpoch peer r) fun res w₁ _ idle => ?_
  cases res with
  | none => exact Discipline.guarded_pure fun _ h _ => h.idle idle
  | some r' =>
      refine Discipline.Guarded.bind
        ((links_handleHandshake session r'.data r'.dataLength addressed).mono
          (fun _ h => h.idle idle) fun _ _ _ _ _ _ h => h) fun err w₂ _ => ?_
      exact links_handshakeHandled peer session err

theorem links_handleCcsRecord (session : Session) (r : OpenRecord) :
    links.Guarded (Attached peer w) (handleCcsRecord env peer session r) w
      fun res w' => res = none → Attached peer w' := by
  refine (links_stopRetransmissionOf peer).bind fun _ w₁ _ => ?_
  refine links_idle_bind (idle_handleCcs peer _ _) fun err w₂ _ idle₂ => ?_
  refine Discipline.Guarded.ite
    (fun _ => Discipline.guarded_pure fun _ h _ a ha => (h a ha).1.idle idle₂) fun _ => ?_
  refine links_idle_bind (idle_alertSendFromErr _ _ _) fun _ w₃ _ idle₃ => ?_
  cases peer with
  | none => exact Discipline.guarded_pure fun _ _ none => by cases none
  | some a =>
      refine Discipline.Guarded.bind ((links_destroyPeer a).mono
        (fun _ h => ((h a rfl).2.idle idle₂).idle idle₃) fun _ _ _ _ _ _ h => h) fun _ w₄ _ => ?_
      exact Discipline.guarded_pure fun _ _ none => by cases none

theorem idle_answerClose (a : Addr) : Keeps Idle (answerClose env a) := by
  refine (keeps_gets _).bind fun p => Keeps.ite (fun _ => ?_) fun _ => idle_setState a _
  exact (idle_setState a _).bind fun _ => (idle_sendAlert a _ _).bind fun _ => keeps_pure _

theorem links_handleAlert (peer : Option Addr) (data : Ptr) (dataLength : Nat) :
    links.Guarded (AllPurged peer w) (handleAlert env peer data dataLength) w
      fun res w' => res ≠ 1 → Attached peer w' := by
  refine Discipline.Guarded.ite
    (fun _ => Discipline.guarded_pure fun _ h _ a ha => (h a ha).1) fun _ => ?_
  cases peer with
  | none => exact Discipline.guarded_pure fun _ _ _ a ha => by cases ha
  | some a =>
      dsimp only
      by_cases free : data.uint8 = dtlsAlertLevelFatal ∨
          (data.add 1).uint8 = DtlsAlert.closeNotify.code
      · rw [when, if_pos free]
        -- the peer is off the list, and still in use
        refine Discipline.guarded_bind (fun _ w' => w'.live a = true ∧ Purged a w') ?_
          fun _ w₁ _ => Discipline.Guarded.gets_bind ?_
        · refine (links_deletePeer a).mono (fun _ h => (h a rfl).2) ?_
          rintro hw h - - - - ⟨rfl, -⟩
          exact ⟨hw.live a (h a rfl).1.linked, (h a rfl).2⟩
        refine links_idle_bind (idleStill.callEvent _ _ _) fun _ w₂ _ idle₂ => ?_
        refine links_idle_bind (Keeps.when fun _ => idle_answerClose a) fun _ w₃ _ idle₃ => ?_
        rw [if_pos free]
        refine Discipline.guarded_bind (fun _ w' => Purged a w')
          ((links_stopRetransmission a).mono (fun _ h => ?_) ?_) fun _ w₄ _ => ?_
        · rw [idle₃.live, idle₂.live]
          exact h.1
        · rintro - h - - - - rfl
          exact ((h.2.idle idle₂).idle idle₃).stopped a
        refine (links_destroyPeer a).bind fun _ w₅ _ => ?_
        exact Discipline.guarded_pure fun _ _ one => absurd rfl one
      · rw [when, if_neg free]
        refine links_idle_bind (keeps_pure ()) fun _ w₁ _ idle₁ => Discipline.Guarded.gets_bind ?_
        refine links_idle_bind (idleStill.callEvent _ _ _) fun _ w₂ _ idle₂ => ?_
        refine links_idle_bind (Keeps.when fun _ => idle_answerClose a) fun _ w₃ _ idle₃ => ?_
        rw [if_neg free]
        refine Discipline.guarded_pure fun _ h _ b hb => ?_
        exact (((h b hb).1.idle idle₁).idle idle₂).idle idle₃

theorem links_handleAlertRecord (peer : Option Addr) (r : OpenRecord) :
    links.Guarded (Attached peer w) (handleAlertRecord env peer r) w
      fun res w' => res = none → Attached peer w' := by
  refine (links_stopRetransmissionOf peer).bind fun _ w₁ _ => ?_
  refine (links_handleAlert peer _ _).bind fun err w₂ _ => ?_
  refine Discipline.guarded_pure fun _ h none => h ?_
  rintro rfl
  cases none

/-- The read callback may call the library, and none of its calls takes a peer off the list. -/
theorem links_callRead {pre : Prop} (session : Session) (data : Ptr) (len : Nat) :
    links.Guarded pre (callRead env session data len) w fun _ w' => Stays w w' := by
  refine links_idle_bind idleStill.nextTick fun t w₁ _ idle₁ => ?_
  have told : Keeps Idle (emit (.read session data len)) := idle_emit trivial
  refine links_idle_bind told fun _ w₂ _ idle₂ => ?_
  refine (links_runAppCalls _).mono (fun _ h => h) fun _ _ _ _ _ _ kept => ?_
  exact trans_of Stays (trans_of Stays idle₁.stays idle₂.stays) kept

theorem links_handleApplicationRecord (peer : Option Addr) (r : OpenRecord) :
    links.Guarded (Attached peer w) (handleApplicationRecord env peer r) w
      fun res w' => res = none → Attached peer w' := by
  cases peer with
  | none => exact Discipline.guarded_pure fun _ _ none => by cases none
  | some a =>
      have received (len : Int) : Keeps Idle (receiveTesla env r.data len) := by
        refine (keeps_gets _).bind fun peers => (keeps_ofOption _ _).bind fun head => ?_
        refine (keeps_gets _).bind fun p => (idleStill.checkInterval _).bind fun _ => ?_
        refine Keeps.ite (fun _ => keeps_stop _) fun _ => Keeps.bind ?_ fun _ => ?_
        · exact fun w => Idle.emitted w trivial
        · exact idle_modifyPeer fun _ => rfl
      have stopped : links.Guarded (Attached (some a) w) (dtlsStopRetransmission a) w
          fun _ w' => AllPurged (some a) w' := links_stopRetransmissionOf (some a)
      refine Discipline.guarded_bind (fun _ w' => Attached (some a) w')
        (Discipline.Guarded.bind stopped fun _ w₁ _ => ?_) fun _ w₂ _ =>
          Discipline.guarded_pure fun _ h _ => h
      refine links_idle_bind (received _) fun _ w₂ _ idle => Discipline.Guarded.gets_bind ?_
      refine (links_callRead _ _ _).mono (fun _ h => h) fun _ h _ _ _ _ kept => ?_
      exact Attached.stays (fun b hb => (h b hb).1.idle idle) kept

theorem links_dispatchRecord (session : Session) (r : OpenRecord)
    (addressed : Addressed peer session) :
    links.Guarded (Attached peer w) (dispatchRecord env peer session r) w
      fun res w' => res = none → Attached peer w' := by
  refine Discipline.Guarded.ite (fun _ => links_handleCcsRecord session r) fun _ => ?_
  refine Discipline.Guarded.ite (fun _ => links_handleAlertRecord peer r) fun _ => ?_
  refine Discipline.Guarded.ite (fun _ => links_handleHandshakeRecord session r addressed)
    fun _ => ?_
  refine Discipline.Guarded.ite (fun _ => links_handleApplicationRecord peer r)
    fun _ => ?_
  exact Discipline.guarded_pure fun _ h _ => h

theorem links_openPeerRecord (peer : Option Addr) (msg : Ptr) (rlen : Nat) :
    links.Guarded (Attached peer w) (openPeerRecord env peer msg rlen) w
      fun res w' => ∀ r, res = .ok r → Attached peer w' := by
  cases peer with
  | none => exact Discipline.guarded_pure fun _ h _ _ => h
  | some a =>
      refine links_idle_bind (idle_decryptVerify a msg rlen) fun opened w₁ _ idle => ?_
      refine Discipline.Guarded.gets_bind (Discipline.Guarded.ite (fun _ => ?_) fun _ =>
        Discipline.guarded_pure fun _ h _ _ => h.idle idle)
      refine Discipline.Guarded.ite
        (fun _ => Discipline.guarded_pure fun _ h _ _ => h.idle idle) fun _ => ?_
      have rejected : links.Guarded (Attached (some a) w) (rejectRecord env a (w₁.heap a)) w₁
          fun _ _ => True := by
        refine Discipline.Guarded.ite (fun _ => ?_)
          fun _ => Discipline.guarded_pure fun _ _ => trivial
        refine links_idle_bind (idle_alertSendFromErr _ _ _) fun _ w₂ _ idle₂ => ?_
        refine links_idle_bind (idle_setState a _) fun _ w₃ _ idle₃ => ?_
        have stopped : links.Guarded (Attached (some a) w) (dtlsStopRetransmission a) w₃
            fun _ w' => AllPurged (some a) w' := by
          refine (links_stopRetransmissionOf (some a)).mono (fun _ h => ?_)
            fun _ _ _ _ _ _ h => h
          exact ((h.idle idle).idle idle₂).idle idle₃
        refine Discipline.Guarded.bind stopped fun _ w₄ _ => ?_
        refine Discipline.Guarded.bind ((links_destroyPeer a).mono (fun _ h => (h a rfl).2)
          fun _ _ _ _ _ _ h => h) fun _ w₅ _ => Discipline.guarded_pure fun _ _ => trivial
      exact rejected.bind fun err w₂ _ => Discipline.guarded_pure fun _ _ r ok => by cases ok

theorem links_handleRecord (session : Session) (msg : Ptr) (rlen : Nat)
    (addressed : Addressed peer session) :
    links.Guarded (Attached peer w) (handleRecord env peer session msg rlen) w
      fun res w' => ∀ msg, res = .ok msg → Attached peer w' := by
  have told : Keeps Idle (emit (.record ⟨peer, peer.map w.heap, msg, rlen⟩)) := idle_emit trivial
  refine Discipline.Guarded.gets_bind (links_idle_bind told fun _ w₁ _ idle => ?_)
  refine Discipline.Guarded.bind ((links_openPeerRecord peer msg rlen).mono
    (fun _ h => h.idle idle) fun _ _ _ _ _ _ h => h) fun res w₂ _ => ?_
  cases res with
  | error err => exact Discipline.guarded_pure fun _ _ _ ok => by cases ok
  | ok r =>
      refine Discipline.Guarded.bind ((links_dispatchRecord session r addressed).mono
        (fun _ h => h r rfl) fun _ _ _ _ _ _ h => h) fun res w₃ _ => ?_
      cases res with
      | none => exact Discipline.guarded_pure fun _ h _ _ => h rfl
      | some err => exact Discipline.guarded_pure fun _ _ _ ok => by cases ok

theorem links_handleRecords (session : Session) (fuel : Nat) (msg : Ptr) (msglen : Nat)
    (addressed : Addressed peer session) :
    links.Guarded (Attached peer w) (handleRecords env peer session fuel msg msglen) w
      fun _ _ => True := by
  induction fuel generalizing w msg msglen with
  | zero => exact Discipline.guarded_pure fun _ _ => trivial
  | succ fuel ih =>
      refine Discipline.Guarded.ite (fun _ => Discipline.guarded_pure fun _ _ => trivial)
        fun _ => ?_
      refine (links_handleRecord session msg _ addressed).bind fun next w₁ _ => ?_
      cases next with
      | error err => exact Discipline.guarded_pure fun _ _ => trivial
      | ok msg => exact (ih msg _).mono (fun _ h => h msg rfl) fun _ _ _ _ _ _ h => h

theorem links_handleMessage (session : Session) (msg : Ptr) (msglen : Nat) :
    links.Guarded True (dtlsHandleMessage env session msg msglen) w fun _ _ => True := by
  refine Discipline.Guarded.gets_bind ?_
  cases found : w.peers.find? fun a => dtlsSessionEquals (w.heap a).session session with
  | none =>
      exact (links_handleRecords session _ msg msglen fun a ha => by cases ha).mono
        (fun _ _ a ha => by cases ha) fun _ _ _ _ _ _ h => h
  | some a =>
      obtain ⟨present, same⟩ := present_of_find found
      refine (links_handleRecords session _ msg msglen fun _ _ => same).mono
        (fun _ _ b hb => ?_) fun _ _ _ _ _ _ h => h
      cases hb
      exact present

/-! ## Retransmission and runs -/

/-- A packet that is sent again is queued for the same peer. -/
theorem peer_retry {now : Nat} {node node' : Netq} (h : node.retry now = some node') :
    node'.peer = node.peer := by
  unfold Netq.retry at h
  split at h
  · cases h
    rfl
  · cases h

theorem Tidy.retransmit {node : Netq} {rest : List Netq} (h : Tidy w)
    (hq : w.sendqueue = node :: rest) :
    Tidy (dtlsRetransmit env node { w with sendqueue := rest }).2 := by
  refine Tidy.idle ?_ (@idle_retransmit env node { w with sendqueue := rest })
  refine ⟨h.distinct, h.live, ?_⟩
  have first : ∃ a ∈ w.peers, node.peer = some a := h.linked node (hq ▸ List.mem_cons_self)
  have others : ∀ n ∈ rest, ∃ a ∈ w.peers, n.peer = some a := fun n hn =>
    h.linked n (hq ▸ List.mem_cons_of_mem _ hn)
  intro n hn
  have hn : n ∈ (node.retry (env.ticks w.tick)).elim rest (netqInsertNode rest) := hn
  cases again : node.retry (env.ticks w.tick) with
  | none =>
      rw [again] at hn
      exact others n hn
  | some node' =>
      rw [again] at hn
      rcases (TimedQueue.mem_insert fun n : Netq => n.t).mp hn with rfl | hn
      · rw [peer_retry again]
        exact first
      · exact others n hn

theorem links_checkRetransmitLoop (now : Nat) (all : Bool) (fuel : Nat) :
    links.Guarded True (checkRetransmitLoop env now all fuel) w fun _ _ => True := by
  induction fuel generalizing w with
  | zero => exact Discipline.guarded_pure fun _ _ => trivial
  | succ fuel ih =>
      refine Discipline.Guarded.gets_bind ?_
      cases hq : w.sendqueue with
      | nil => exact Discipline.guarded_pure fun _ _ => trivial
      | cons node rest =>
          refine Discipline.Guarded.ite (fun _ => Discipline.guarded_pure fun _ _ => trivial)
            fun _ => ?_
          have popped : links.Guarded True (modifyQueue (fun _ => rest) >>= fun _ =>
              dtlsRetransmit env node) w fun _ _ => True :=
            Discipline.guarded_step (move_retransmit hq) fun hw _ _ =>
              ⟨hw.retransmit hq, hw.safe (fun _ h => QueueOp.noConfusion h), fun _ _ => trivial⟩
          rw [← bind_assoc]
          refine popped.bind fun _ w₁ _ => ?_
          exact Discipline.Guarded.ite (fun _ => Discipline.guarded_pure fun _ _ => trivial)
            fun _ => ih

theorem links_runInput (i : Input) :
    links.Guarded True (runInput env i) w fun _ _ => True := by
  cases i with
  | handleMessage session msg msglen =>
      exact (links_handleMessage session msg msglen).bind
        fun _ _ _ => Discipline.guarded_pure fun _ _ => trivial
  | checkRetransmit all =>
      refine links_idle_bind (idleStill.ticks env) fun now w₁ _ _ => ?_
      exact Discipline.Guarded.gets_bind (links_checkRetransmitLoop now all _)
  | app call =>
      exact (links_runAppCall call).mono (fun _ h => h) fun _ _ _ _ _ _ _ => trivial
  | resetPeer session =>
      refine Discipline.Guarded.gets_bind ?_
      cases found : w.peers.find? fun a => dtlsSessionEquals (w.heap a).session session with
      | none => exact Discipline.guarded_pure fun _ _ => trivial
      | some a =>
          have purged : links.Guarded True (dtlsStopRetransmission a) w
              fun _ w' => AllPurged (some a) w' := by
            refine (links_stopRetransmissionOf (some a)).mono (fun _ _ b hb => ?_)
              fun _ _ _ _ _ _ h => h
            cases hb
            exact (present_of_find found).1
          exact Discipline.Guarded.bind purged fun _ w₁ _ => (links_destroyPeer a).mono
            (fun _ h => (h a rfl).2) fun _ _ _ _ _ _ h => h

theorem links_runInputs (is : List Input) :
    links.Guarded True (runInputs env is) w fun _ _ => True := by
  induction is generalizing w with
  | nil => exact Discipline.guarded_pure fun _ _ => trivial
  | cons i is ih => exact (links_runInput i).bind fun _ _ _ => ih

/-- The read callback makes no calls of the library. -/
def Env.Detached (env : Env) : Prop := ∀ t session data len, env.read t session data len = []

/-- A ClientHello in the clear from a client that is connected, and a HelloRequest under its keys
    behind it. -/
def restartDatagram : Bytes :=
  fragmentRecord dtlsHtClientHello pskClientHello.length 0 0 pskClientHello.length pskClientHello ++
    sealed sampleEnv.prims .client { sampleSecurity with rseq := 1 } dtlsCtHandshake
      (wholeMessage dtlsHtHelloRequest 0 [])

def restarted : List Input := handshakeDone ++ [arrival (sampleSession 0) restartDatagram]

theorem restarted_facts :
    (runInputs sampleEnv restarted sampleWorld).2.peers = [26] ∧
      (runInputs sampleEnv restarted sampleWorld).2.sendqueue.map (·.peer) = [some 0] := by
  decide +kernel

end PqDtls.Dtls
