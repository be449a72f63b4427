import PqDtls.Dtls.Retransmission
import PqDtls.Lib.TimedQueue

/-! # The queue of packets to retransmit

    `dtls_check_retransmit` pops from the queue that `dtls_retransmit` inserts into.  The loop
    ends by itself, whatever the clock shows, since every node is inserted again a bounded
    number of times.  It handles each node that was due once and in order as long as
    the next time of the node is later than the start of the call. -/

namespace PqDtls.Dtls

open Program (get gets modify stop ofOption when)
open TimedQueue

variable {env : Env} {w : World} {node : Netq}

/-! ## The loop -/

/-- What is stored in `*next`: `node ? node->t : 0` for the head of the queue. -/
def nextRetransmit (sendqueue : List Netq) : Nat := (sendqueue.head?.map (·.t)).getD 0

/-- `dtls_check_retransmit` with its output. -/
def dtlsCheckRetransmitNext (env : Env) (all : Bool) : M Nat := do
  dtlsCheckRetransmit env all
  gets fun w => nextRetransmit w.sendqueue

/-- The nodes that `checkRetransmitLoop` pops for `all`. -/
def poppedNodes (env : Env) (now : Nat) : Nat → World → List Netq
  | 0, _ => []
  | fuel + 1, w =>
      match w.sendqueue with
      | [] => []
      | node :: rest =>
          if ¬ node.t ≤ now then []
          else node :: poppedNodes env now fuel
            (dtlsRetransmit env node { w with sendqueue := rest }).2

/-- What `dtls_retransmit` inserts again of a node, when the clock shows `now`. -/
def Netq.retry (now : Nat) (node : Netq) : Option Netq :=
  if node.Retried then some (node.again now) else none

/-- `dtls_retransmit`, as far as the queue is concerned. -/
theorem retransmit_queue (env : Env) (node : Netq) (w : World) :
    ∃ w', dtlsRetransmit env node w = (.ok (), w') ∧ w.tick ≤ w'.tick ∧ w'.sendqueue
      = (node.retry (env.ticks w.tick)).elim w.sendqueue (netqInsertNode w.sendqueue) := by
  by_cases h : node.Retried
  · obtain ⟨a, ha⟩ := Option.isSome_iff_exists.mp h.1
    obtain ⟨w', run, queue, -, tick, -, -⟩ := @retransmit_run env w a node h.2 ha
    rw [Netq.retry, if_pos h]
    exact ⟨w', run, Nat.le_of_lt tick, queue⟩
  · rw [Netq.retry, if_neg h]
    exact ⟨w, retransmit_dropped h, Nat.le_refl _, rfl⟩

/-- A turn of the loop. -/
theorem checkRetransmitLoop_turn {now fuel : Nat} {rest : List Netq}
    (hq : w.sendqueue = node :: rest) (due : node.t ≤ now) :
    ∃ w', dtlsRetransmit env node { w with sendqueue := rest } = (.ok (), w')
      ∧ w.tick ≤ w'.tick
      ∧ w'.sendqueue = (node.retry (env.ticks w.tick)).elim rest (netqInsertNode rest)
      ∧ checkRetransmitLoop env now true (fuel + 1) w = checkRetransmitLoop env now true fuel w'
      ∧ poppedNodes env now (fuel + 1) w = node :: poppedNodes env now fuel w' := by
  obtain ⟨w', run, tick, queue⟩ := retransmit_queue env node { w with sendqueue := rest }
  refine ⟨w', run, tick, queue, ?_, ?_⟩
  · rw [checkRetransmitLoop, Program.get_bind]
    simp only [hq, if_neg (not_not.mpr due), modifyQueue_bind]
    exact Program.bind_ok run _
  · rw [poppedNodes]
    simp only [hq, if_neg (not_not.mpr due), run]

/-- The loop ends at a queue in which nothing is due. -/
theorem checkRetransmitLoop_end {now fuel : Nat} (all : Bool)
    (late : ∀ n ∈ w.sendqueue, now < n.t) :
    checkRetransmitLoop env now all fuel w = (.ok (), w) ∧ poppedNodes env now fuel w = [] := by
  cases fuel with
  | zero => exact ⟨rfl, rfl⟩
  | succ fuel =>
      rw [checkRetransmitLoop, Program.get_bind, poppedNodes]
      cases hq : w.sendqueue with
      | nil => exact ⟨rfl, rfl⟩
      | cons node rest =>
          have here := late node (hq ▸ List.mem_cons_self)
          simp only [if_pos (Nat.not_le.mpr here)]
          exact ⟨rfl, trivial⟩

/-! ## The loop ends -/

/-- How often a node may still be popped. -/
def Netq.pops (node : Netq) : Nat := dtlsDefaultMaxRetransmit - node.retransmitCnt + 1

def popsLeft (queue : List Netq) : Nat := (queue.map Netq.pops).sum

theorem pops_again (h : node.Retried) (now : Nat) : (node.again now).pops + 1 = node.pops := by
  have below := h.2
  simp only [Netq.pops, Netq.again]
  omega

theorem popsLeft_insert (queue : List Netq) (node : Netq) :
    popsLeft (netqInsertNode queue node) = node.pops + popsLeft queue := by
  have perm := (perm_insert (fun n : Netq => n.t) queue node).map Netq.pops
  exact perm.sum_eq

theorem popsLeft_le (queue : List Netq) :
    popsLeft queue ≤ queue.length * (dtlsDefaultMaxRetransmit + 1) := by
  unfold popsLeft
  induction queue with
  | nil => exact Nat.le_refl 0
  | cons node queue ih =>
      rw [List.map_cons, List.sum_cons, List.length_cons, Nat.succ_mul, Netq.pops]
      omega

/-- Every turn uses up one of the pops that are left. -/
theorem popsLeft_turn (node : Netq) (rest : List Netq) (now : Nat) :
    popsLeft ((node.retry now).elim rest (netqInsertNode rest)) + 1 ≤ popsLeft (node :: rest) := by
  have cons : popsLeft (node :: rest) = node.pops + popsLeft rest := rfl
  rw [cons, Netq.retry]
  split
  · rename_i retried
    have less := pops_again retried now
    show popsLeft (netqInsertNode rest (node.again now)) + 1 ≤ _
    rw [popsLeft_insert]
    omega
  · show popsLeft rest + 1 ≤ _
    rw [Netq.pops]
    omega

/-- **THE LOOP ENDS**: it does not need more turns than there are pops left. -/
theorem checkRetransmitLoop_ends (now fuel : Nat) (w : World) (h : popsLeft w.sendqueue ≤ fuel)
    (extra : Nat) : checkRetransmitLoop env now true (fuel + extra) w
      = checkRetransmitLoop env now true fuel w := by
  induction fuel generalizing w with
  | zero =>
      have empty : w.sendqueue = [] := by
        cases hq : w.sendqueue with
        | nil => rfl
        | cons node rest =>
            have one := popsLeft_turn node rest 0
            rw [hq] at h
            omega
      have late : ∀ n ∈ w.sendqueue, now < n.t := by
        rw [empty]
        exact fun n hn => absurd hn List.not_mem_nil
      rw [(checkRetransmitLoop_end true late).1, (checkRetransmitLoop_end true late).1]
  | succ fuel ih =>
      rw [Nat.succ_add]
      cases hq : w.sendqueue with
      | nil =>
          have late : ∀ n ∈ w.sendqueue, now < n.t := by
            rw [hq]
            exact fun n hn => absurd hn List.not_mem_nil
          rw [(checkRetransmitLoop_end true late).1, (checkRetransmitLoop_end true late).1]
      | cons node rest =>
          by_cases due : node.t ≤ now
          · obtain ⟨w', run, -, queue, turn, -⟩ := @checkRetransmitLoop_turn env w node now
              (fuel + extra) rest hq due
            obtain ⟨w₂, run₂, -, -, turn₂, -⟩ := @checkRetransmitLoop_turn env w node now fuel rest
              hq due
            have same : w₂ = w' := congrArg Prod.snd (run₂.symm.trans run)
            rw [turn, turn₂, same]
            refine ih w' ?_
            have less := popsLeft_turn node rest (env.ticks w.tick)
            rw [hq] at h
            rw [queue]
            omega
          · have stop (n : Nat) : checkRetransmitLoop env now true (n + 1) w = (.ok (), w) := by
              rw [checkRetransmitLoop, Program.get_bind]
              simp only [hq, if_pos due]
              rfl
            rw [stop, stop]

/-! ## The law -/

/-- How far the next time of a node lies behind the clock. -/
def Netq.delay (node : Netq) : Nat := (node.timeout <<< (node.retransmitCnt + 1)) % 2 ^ 32

/-- `again` is what the nodes `popped` become, one after the other: the counter is incremented,
    and the time is counted from what the clock shows at the retransmission. -/
def Requeued (env : Env) (tick : Nat) (popped again : List Netq) : Prop :=
  List.Forall₂ (fun node node' => ∃ k, tick ≤ k ∧ node' = node.again (env.ticks k)) popped again

theorem Requeued.earlier {tick tick' : Nat} (h : tick ≤ tick') {popped again : List Netq}
    (r : Requeued env tick' popped again) : Requeued env tick popped again :=
  List.Forall₂.imp (fun _ _ ⟨k, hk, e⟩ => ⟨k, Nat.le_trans h hk, e⟩) r

/-- **RUN**: nodes that are due in front of others, none of which is inserted too early. -/
theorem checkRetransmitLoop_run {now fuel : Nat} (due : List Netq) {later : List Netq}
    (hq : w.sendqueue = due ++ later) (hdue : ∀ n ∈ due, n.t ≤ now)
    (hlater : ∀ n ∈ later, now < n.t) (clock : ∀ k, w.tick ≤ k → now ≤ env.ticks k)
    (delays : ∀ n ∈ due, n.Retried → n.delay ≠ 0) (enough : due.length ≤ fuel) :
    ∃ w' again, checkRetransmitLoop env now true fuel w = (.ok (), w')
      ∧ poppedNodes env now fuel w = due
      ∧ Requeued env w.tick (due.filter fun n => n.Retried) again
      ∧ w'.sendqueue = again.foldl netqInsertNode later
      ∧ ∀ n ∈ again, now < n.t := by
  induction due generalizing w later fuel with
  | nil =>
      obtain ⟨run, none⟩ := @checkRetransmitLoop_end env w now fuel true (by rwa [hq])
      exact ⟨w, [], run, none, List.Forall₂.nil, hq, fun n hn => absurd hn List.not_mem_nil⟩
  | cons node due ih =>
      obtain ⟨here, others⟩ := List.forall_mem_cons.mp hdue
      obtain ⟨delay, delays⟩ := List.forall_mem_cons.mp delays
      obtain ⟨fuel, rfl⟩ : ∃ n, fuel = n + 1 := ⟨fuel - 1, by
        rw [List.length_cons] at enough
        omega⟩
      obtain ⟨w', -, tick, queue, turn, pops⟩ := @checkRetransmitLoop_turn env w node now fuel
        (due ++ later) hq here
      have clock' : ∀ k, w'.tick ≤ k → now ≤ env.ticks k := fun k hk =>
        clock k (Nat.le_trans tick hk)
      have enough' : due.length ≤ fuel := Nat.le_of_succ_le_succ enough
      rw [turn, pops]
      by_cases retried : node.Retried
      · -- the node goes behind all that are due
        have late : now < (node.again (env.ticks w.tick)).t := by
          have shown := clock w.tick (Nat.le_refl _)
          have positive := Nat.pos_of_ne_zero (delay retried)
          show now < env.ticks w.tick + node.delay
          omega
        have behind : w'.sendqueue
            = due ++ netqInsertNode later (node.again (env.ticks w.tick)) := by
          rw [queue, Netq.retry, if_pos retried]
          exact insert_append (fun n : Netq => n.t)
            (fun n hn => Nat.le_of_lt (Nat.lt_of_le_of_lt (others n hn) late)) later
        have later' : ∀ n ∈ netqInsertNode later (node.again (env.ticks w.tick)), now < n.t := by
          intro n hn
          rcases (mem_insert fun n : Netq => n.t).mp hn with rfl | hn
          · exact late
          · exact hlater n hn
        obtain ⟨w₂, again, run, popped, requeued, rest, lates⟩ := ih behind others later' clock'
          delays enough'
        refine ⟨w₂, node.again (env.ticks w.tick) :: again, run, by rw [popped], ?_, rest, ?_⟩
        · rw [List.filter_cons_of_pos (p := fun n : Netq => decide n.Retried) (decide_eq_true retried)]
          exact List.Forall₂.cons ⟨w.tick, Nat.le_refl _, rfl⟩ (requeued.earlier tick)
        · exact List.forall_mem_cons.mpr ⟨late, lates⟩
      · have dropped : w'.sendqueue = due ++ later := by
          rw [queue, Netq.retry, if_neg retried]
          rfl
        obtain ⟨w₂, again, run, popped, requeued, rest, lates⟩ := ih dropped others hlater clock'
          delays enough'
        refine ⟨w₂, again, run, by rw [popped], ?_, rest, lates⟩
        rw [List.filter_cons_of_neg (p := fun n : Netq => decide n.Retried)
          (by rwa [decide_eq_true_iff])]
        exact requeued.earlier tick

/-- What `dtls_check_retransmit` with `all` does in the world `w`. -/
structure CheckLaw (env : Env) (w : World) : Prop where
  /-- The loop ends by itself: more turns than the model allows change nothing. -/
  ends : ∀ extra, checkRetransmitLoop env (env.ticks w.tick) true
      (w.sendqueue.length * (dtlsDefaultMaxRetransmit + 1) + 1 + extra) w.asked
    = dtlsCheckRetransmit env true w
  /-- The nodes that are due are popped, in order. -/
  popped : poppedNodes env (env.ticks w.tick)
      (w.sendqueue.length * (dtlsDefaultMaxRetransmit + 1) + 1) w.asked
    = w.sendqueue.filter (·.t ≤ env.ticks w.tick)
  queue : ∃ w' again, dtlsCheckRetransmitNext env true w = (.ok (nextRetransmit w'.sendqueue), w')
    -- each node that is due, and has a peer and retransmissions left, is queued once again
    ∧ Requeued env (w.tick + 1)
        ((w.sendqueue.filter (·.t ≤ env.ticks w.tick)).filter fun n => n.Retried) again
    ∧ w'.sendqueue.Perm (again ++ w.sendqueue.filter (env.ticks w.tick < ·.t))
    -- the others are where they were
    ∧ (w.sendqueue.filter (env.ticks w.tick < ·.t)).Sublist w'.sendqueue
    ∧ Ordered (·.t) w'.sendqueue
    ∧ (∀ n ∈ w'.sendqueue, env.ticks w.tick < n.t)
    ∧ (w'.sendqueue = [] → nextRetransmit w'.sendqueue = 0)
    ∧ (w'.sendqueue ≠ [] → nextRetransmit w'.sendqueue ∈ w'.sendqueue.map (·.t)
        ∧ ∀ n ∈ w'.sendqueue, nextRetransmit w'.sendqueue ≤ n.t)

theorem checkLaw (env : Env) (w : World) (ordered : Ordered (·.t) w.sendqueue)
    (clock : ∀ k, w.tick < k → env.ticks w.tick ≤ env.ticks k)
    (delays : ∀ n ∈ w.sendqueue, n.t ≤ env.ticks w.tick → n.Retried → n.delay ≠ 0) :
    CheckLaw env w := by
  have unfolded : dtlsCheckRetransmit env true w = checkRetransmitLoop env (env.ticks w.tick) true
      (w.sendqueue.length * (dtlsDefaultMaxRetransmit + 1) + 1) w.asked := rfl
  have due : ∀ n ∈ w.sendqueue.filter (·.t ≤ env.ticks w.tick),
      n ∈ w.sendqueue ∧ n.t ≤ env.ticks w.tick := by
    intro n hn
    rwa [List.mem_filter, decide_eq_true_iff] at hn
  have late : ∀ n ∈ w.sendqueue.filter (env.ticks w.tick < ·.t), env.ticks w.tick < n.t := by
    intro n hn
    rw [List.mem_filter, decide_eq_true_iff] at hn
    exact hn.2
  have enough : (w.sendqueue.filter (·.t ≤ env.ticks w.tick)).length
      ≤ w.sendqueue.length * (dtlsDefaultMaxRetransmit + 1) + 1 := by
    have part := List.length_filter_le (fun n : Netq => decide (n.t ≤ env.ticks w.tick)) w.sendqueue
    have turns : w.sendqueue.length ≤ w.sendqueue.length * (dtlsDefaultMaxRetransmit + 1) :=
      Nat.le_mul_of_pos_right _ (Nat.succ_pos _)
    omega
  obtain ⟨w', again, run, popped, requeued, queue, lates⟩ := @checkRetransmitLoop_run env w.asked
    (env.ticks w.tick) (w.sendqueue.length * (dtlsDefaultMaxRetransmit + 1) + 1) _ _
    (ordered.due (env.ticks w.tick)).symm (fun n hn => (due n hn).2) late
    (fun k hk => clock k hk) (fun n hn => delays n (due n hn).1 (due n hn).2) enough
  have perm : w'.sendqueue.Perm (again ++ w.sendqueue.filter (env.ticks w.tick < ·.t)) := by
    rw [queue]
    exact foldl_insert_perm (fun n : Netq => n.t) again _
  have sorted : Ordered (·.t) w'.sendqueue := by
    rw [queue]
    exact Ordered.foldl_insert (List.Pairwise.filter _ ordered) again
  refine ⟨fun extra => ?_, popped, w', again, ?_, requeued, perm, ?_, sorted, ?_, ?_, ?_⟩
  · rw [unfolded]
    exact checkRetransmitLoop_ends _ _ w.asked (Nat.le_succ_of_le (popsLeft_le w.sendqueue)) extra
  · have checked : dtlsCheckRetransmit env true w = (.ok (), w') := unfolded.trans run
    rw [dtlsCheckRetransmitNext, Program.bind_ok checked]
    rfl
  · rw [queue]
    exact foldl_insert_sublist (fun n : Netq => n.t) again _
  · intro n hn
    rcases List.mem_append.mp (perm.mem_iff.mp hn) with hn | hn
    · exact lates n hn
    · exact late n hn
  · intro empty
    rw [empty]
    rfl
  · intro some_left
    cases hq : w'.sendqueue with
    | nil => exact absurd hq some_left
    | cons n rest =>
        rw [hq] at sorted
        exact ⟨List.mem_cons_self, fun m hm => sorted.head_le hm⟩

/-- Nodes count their retransmissions. -/
theorem netq_counts : Counts Netq.retry (fun n => n.retransmitCnt) dtlsDefaultMaxRetransmit where
  retried {now x y} h := by
    unfold Netq.retry at h
    split at h
    · rename_i retried
      cases h
      exact ⟨retried.2, rfl⟩
    · cases h

/-- The times that `dtls_send_multi` sets are later than the clock. -/
theorem delay_sent (h : node.timeout = 2 * dtlsTicksPerSecond) (retried : node.Retried) :
    node.delay ≠ 0 := by
  have few : node.retransmitCnt < 7 := retried.2
  rw [Netq.delay, h]
  generalize node.retransmitCnt = n at few ⊢
  revert n
  decide

end PqDtls.Dtls
