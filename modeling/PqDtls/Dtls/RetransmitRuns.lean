import PqDtls.Dtls.QueueLinks

/-! # The queue over a run

    A move is for the queue an insertion, a removal, a pop, or nothing at all.  So a run of the
    engine is a run of accesses to its queue, and what `TimedQueue` says of these holds of it:
    the queue stays ordered, no packet is queued twice, and none is retransmitted more often
    than its counter allows.

    The packets of a run have the timeout that `dtls_send_multi` sets, so the law of
    `dtls_check_retransmit` applies wherever a run leads: **`retransmissionLaw`**. -/

namespace PqDtls.Dtls

open History (Path)
open TimedQueue

variable {env : Env} {w w' : World} {op : QueueOp}

/-! ## Accesses -/

/-- A move that is not about the queue. -/
def QueueOp.apart : QueueOp → Prop
  | .send _ | .stop _ | .pop => False
  | _ => True

/-- What a move is for the queue: `netq_insert_node` of a packet that has not been retransmitted,
    `netq_remove` of those of a session, `netq_pop_first` for `dtls_retransmit`, or nothing. -/
inductive QueueOp.Accesses (w : World) : QueueOp → List (Access Netq) → Prop
  | insert (node : Netq) : node.Sent → Accesses w (.send node.peer) [.insert node]
  | remove (a : Addr) : Accesses w (.stop a) [.remove (w.otherSession a)]
  | pop (now : Nat) : Accesses w .pop [.pop now]
  | none {op : QueueOp} : op.apart → Accesses w op []

/-- The accesses of a run, the first one first. -/
inductive RunAccesses : List (World × QueueOp) → List (Access Netq) → Prop
  | nil : RunAccesses [] []
  | snoc {l : List (World × QueueOp)} {accesses last : List (Access Netq)} {w : World}
      {op : QueueOp} : RunAccesses l accesses → op.Accesses w last →
      RunAccesses ((w, op) :: l) (accesses ++ last)

/-- The history of the queue after these accesses. -/
def queueHistory (accesses : List (Access Netq)) : History Netq :=
  History.start.run (·.t) Netq.retry accesses

/-- **STEP**: what a move does to the queue, its access does to the history. -/
theorem QueueMove.accesses (h : QueueMove w op w') {s : History Netq}
    (hs : s.items = w.sendqueue) : ∃ last, op.Accesses w last ∧
      (∀ access ∈ last, access.Fresh (·.retransmitCnt)) ∧
        (s.run (·.t) Netq.retry last).items = w'.sendqueue := by
  have untouched (apart : op.apart) (same : w'.sendqueue = w.sendqueue) :
      ∃ last, op.Accesses w last ∧ (∀ access ∈ last, access.Fresh (·.retransmitCnt)) ∧
        (s.run (·.t) Netq.retry last).items = w'.sendqueue :=
    ⟨[], .none apart, List.forall_mem_nil _, hs.trans same.symm⟩
  cases h with
  | idle idle => exact untouched trivial idle.queue
  | send node sent =>
      refine ⟨_, .insert node sent, List.forall_mem_singleton.mpr sent.counter, ?_⟩
      have inserted := s.items_insert (·.t) Netq.retry node
      rw [hs] at inserted
      exact inserted
  | stop a =>
      refine ⟨_, .remove a, List.forall_mem_singleton.mpr trivial, ?_⟩
      have removed := s.items_remove (·.t) Netq.retry (w.otherSession a)
      rw [hs] at removed
      exact removed
  | pop node rest now hq idle =>
      refine ⟨_, .pop now, List.forall_mem_singleton.mpr trivial, ?_⟩
      have popped := History.items_pop (·.t) Netq.retry (hs.trans hq) now
      rw [idle.queue]
      exact popped
  | _ => exact untouched trivial rfl

/-- **RUN**: the queue at the end of a run that starts with an empty one. -/
theorem runAccesses_of_path {l : List (World × QueueOp)} (path : Path QueueMove w l w')
    (empty : w.sendqueue = []) : ∃ accesses, RunAccesses l accesses ∧
      (∀ access ∈ accesses, access.Fresh (·.retransmitCnt)) ∧
        (queueHistory accesses).items = w'.sendqueue := by
  induction path with
  | nil => exact ⟨[], .nil, List.forall_mem_nil _, empty.symm⟩
  | snoc _ move ih =>
      obtain ⟨accesses, run, fresh, items⟩ := ih
      obtain ⟨last, access, fresh', items'⟩ := move.accesses items
      refine ⟨accesses ++ last, .snoc run access, List.forall_mem_append.mpr ⟨fresh, fresh'⟩, ?_⟩
      rw [queueHistory, History.run_append]
      exact items'

/-! ## Timeouts -/

/-- Every packet in the queue has the timeout that `dtls_send_multi` sets. -/
def Timed (w : World) : Prop := ∀ node ∈ w.sendqueue, node.timeout = 2 * dtlsTicksPerSecond

theorem timeout_retry {now : Nat} {node node' : Netq} (h : node.retry now = some node') :
    node'.timeout = node.timeout := by
  unfold Netq.retry at h
  split at h
  · cases h
    rfl
  · cases h

theorem Timed.insert {queue : List Netq} {node : Netq}
    (h : ∀ n ∈ queue, n.timeout = 2 * dtlsTicksPerSecond)
    (hn : node.timeout = 2 * dtlsTicksPerSecond) :
    ∀ n ∈ netqInsertNode queue node, n.timeout = 2 * dtlsTicksPerSecond := by
  intro n hmem
  rcases (TimedQueue.mem_insert fun n : Netq => n.t).mp hmem with rfl | hmem
  · exact hn
  · exact h n hmem

theorem QueueMove.timed (h : QueueMove w op w') (hw : Timed w) : Timed w' := by
  cases h with
  | idle idle =>
      rw [Timed, idle.queue]
      exact hw
  | send node sent => exact Timed.insert hw sent.timeout
  | stop a => exact fun n hn => hw n (List.mem_of_mem_filter hn)
  | pop node rest now hq idle =>
      rw [Timed, idle.queue]
      have first : node.timeout = 2 * dtlsTicksPerSecond := hw node (hq ▸ List.mem_cons_self)
      have others : ∀ n ∈ rest, n.timeout = 2 * dtlsTicksPerSecond := fun n hn =>
        hw n (hq ▸ List.mem_cons_of_mem _ hn)
      cases again : node.retry now with
      | none => exact others
      | some node' => exact Timed.insert others ((timeout_retry again).trans first)
  | _ => exact hw

theorem timed_of_path {l : List (World × QueueOp)} (path : Path QueueMove w l w')
    (hw : Timed w) : Timed w' :=
  path.invariant (I := fun _ => Timed) (fun _ _ _ _ move ht => move.timed ht) hw

/-! ## The law -/

/-- What holds of the queue after a run that starts with an empty one. -/
structure RunLaw (env : Env) (w : World) (is : List Input) : Prop where
  /-- The run is one of accesses to the queue.  In their history no packet is queued twice or
      retransmitted more often than `DTLS_DEFAULT_MAX_RETRANSMIT`, and the queue is ordered. -/
  history : ∃ l accesses, Path QueueMove w l (runInputs env is w).2 ∧ RunAccesses l accesses ∧
    (queueHistory accesses).items = (runInputs env is w).2.sendqueue ∧
    (queueHistory accesses).Ok (·.t) (·.retransmitCnt) dtlsDefaultMaxRetransmit
  /-- The next `dtls_check_retransmit` follows the law, if the clock does not go back. -/
  next : (∀ k, (runInputs env is w).2.tick < k →
      env.ticks (runInputs env is w).2.tick ≤ env.ticks k) →
    CheckLaw env (runInputs env is w).2

theorem runLaw (h : Initial w) (is : List Input) : RunLaw env w is := by
  have guarded : links.Guarded True (runInputs env is) w fun _ _ => True := links_runInputs is
  obtain ⟨l, path, -⟩ := guarded
  obtain ⟨accesses, run, fresh, items⟩ := runAccesses_of_path path h.sendqueue
  have ok : (queueHistory accesses).Ok (·.t) (·.retransmitCnt) dtlsDefaultMaxRetransmit :=
    History.retries_le netq_counts fresh
  have timed : Timed (runInputs env is w).2 := by
    refine timed_of_path path ?_
    rw [Timed, h.sendqueue]
    exact List.forall_mem_nil _
  refine ⟨⟨l, accesses, path, run, items, ok⟩, fun clock => ?_⟩
  have ordered := ok.items_ordered
  rw [items] at ordered
  exact checkLaw env _ ordered clock fun n hn _ => delay_sent (timed n hn)

/-- **THE LAW OF THE QUEUE**: what a call does to an ordered queue; that no packet is
    retransmitted more often than `DTLS_DEFAULT_MAX_RETRANSMIT` or queued twice, whatever is
    inserted, removed and popped; and that every run of the engine is such a run. -/
theorem retransmissionLaw :
    (∀ (env : Env) (w : World), Ordered (·.t) w.sendqueue →
      (∀ k, w.tick < k → env.ticks w.tick ≤ env.ticks k) →
      (∀ n ∈ w.sendqueue, n.t ≤ env.ticks w.tick → n.Retried → n.delay ≠ 0) → CheckLaw env w) ∧
    (∀ accesses : List (Access Netq), (∀ access ∈ accesses, access.Fresh (·.retransmitCnt)) →
      (queueHistory accesses).Ok (·.t) (·.retransmitCnt) dtlsDefaultMaxRetransmit) ∧
    ∀ (env : Env) (w : World) (is : List Input), Initial w → RunLaw env w is :=
  ⟨checkLaw, fun _ fresh => History.retries_le netq_counts fresh, fun _ _ is h => runLaw h is⟩

/-- A clock that stands still. -/
def stillEnv : Env := { sampleEnv with ticks := fun _ => 0 }

/-- A packet that is due, with the timeout of `dtls_send_multi`. -/
def sentNode : Netq where
  t := 0
  timeout := 2 * dtlsTicksPerSecond
  peer := some 0
  epoch := 0
  type := dtlsCtHandshake
  retransmitCnt := 0
  data := []

theorem retransmissionLaw_handshake :
    CheckLaw stillEnv { sampleWorld with sendqueue := [sentNode] } ∧
      (queueHistory [.insert sentNode, .pop 0]).Ok (·.t) (·.retransmitCnt)
        dtlsDefaultMaxRetransmit ∧
      RunLaw sampleEnv sampleWorld handshakeDone := by
  refine ⟨retransmissionLaw.1 _ _ (List.pairwise_singleton _ _) (fun _ _ => Nat.le_refl 0) ?_,
    retransmissionLaw.2.1 _ ?_, retransmissionLaw.2.2 _ _ _ sampleWorld_initial⟩
  · exact List.forall_mem_singleton.mpr fun _ _ => by decide
  · exact List.forall_mem_cons.mpr ⟨rfl, List.forall_mem_singleton.mpr trivial⟩

/-! ## Without a delay -/

/-- A packet whose next time is the present, however often its timeout is doubled. -/
def promptNode : Netq := { sentNode with timeout := 0 }

/-- A packet whose timeout is 0 is due again at once, and is sent eight times in one call. -/
theorem checkLaw_without_delay : ¬ ∀ env w, Ordered (·.t) w.sendqueue →
    (∀ k, env.ticks k = env.ticks w.tick) → CheckLaw env w := by
  intro law
  have popped := (law stillEnv { sampleWorld with sendqueue := [promptNode] }
    (List.pairwise_singleton _ _) fun _ => rfl).popped
  have times := congrArg List.length popped
  revert times
  decide +kernel

end PqDtls.Dtls
