import PqDtls.Dtls.AppData

/-! # Retransmission and the protection of the epoch

    `dtls_retransmit` looks the parameters up in the two slots of the peer when it sends.
    What it does to the world, exactly, and **`keepsProtection_iff`**: the record has the epoch
    and the protection that the packet was queued under exactly when a slot still has that
    epoch, and is not in the clear where the packet was not. -/

namespace PqDtls.Dtls

open Program (get gets modify stop ofOption when)

variable {env : Env} {w : World} {a : Addr} {node : Netq}

/-! ## The record that is sent again -/

/-- The parameters that `dtls_security_params_epoch` finds. -/
def Peer.epochSecurity (p : Peer) (epoch : Nat) : Option SecurityParameters :=
  (dtlsSecurityParamsEpoch p epoch).bind p.security

/-- The parameters that a record is made with: without any, it is one of epoch 0 in the
    clear. -/
def Peer.retransmitSecurity (p : Peer) (epoch : Nat) : SecurityParameters :=
  (p.epochSecurity epoch).getD dtlsSecurityNew

/-- The longest data for a record of `DTLS_MAX_BUF` bytes. -/
def recordRoom (s : SecurityParameters) : Nat :=
  dtlsMaxBuf - if s.cipher = tlsNullWithNullNull then 13 else 21

/-- A node that `dtls_retransmit` inserts again. -/
def Netq.Retried (node : Netq) : Prop :=
  node.peer.isSome ∧ node.retransmitCnt < dtlsDefaultMaxRetransmit

instance (node : Netq) : Decidable node.Retried := inferInstanceAs (Decidable (_ ∧ _))

/-- A node that `dtls_retransmit` sends. -/
def Resent (w : World) (node : Netq) (a : Addr) : Prop :=
  node.peer = some a ∧ node.retransmitCnt < dtlsDefaultMaxRetransmit ∧
    node.data.length ≤ recordRoom ((w.heap a).retransmitSecurity node.epoch)

/-- The node at its next time, for a clock that shows `now`. -/
def Netq.again (node : Netq) (now : Nat) : Netq :=
  { node with
    retransmitCnt := node.retransmitCnt + 1
    t := now + (node.timeout <<< (node.retransmitCnt + 1)) % 2 ^ 32 }

theorem epochSecurity_slot {p : Peer} {epoch : Nat} {slot : Slot}
    (h : dtlsSecurityParamsEpoch p epoch = some slot) :
    ∃ s, p.security slot = some s ∧ s.epoch = epoch ∧ p.epochSecurity epoch = some s := by
  have found {o : Option SecurityParameters} (ho : o.any (·.epoch = epoch) = true) :
      ∃ s, o = some s ∧ s.epoch = epoch := by
    obtain ⟨s, hs, he⟩ := (Option.any_eq_true _ o).mp ho
    exact ⟨s, hs, of_decide_eq_true he⟩
  have some_slot : ∃ s, p.security slot = some s ∧ s.epoch = epoch := by
    unfold dtlsSecurityParamsEpoch at h
    split at h
    · rename_i zero
      cases h
      exact found zero
    · split at h
      · rename_i one
        cases h
        exact found one
      · cases h
  obtain ⟨s, hs, he⟩ := some_slot
  exact ⟨s, hs, he, by rw [Peer.epochSecurity, h, Option.bind_some, hs]⟩

theorem epoch_epochSecurity {p : Peer} {epoch : Nat} {s : SecurityParameters}
    (h : p.epochSecurity epoch = some s) : s.epoch = epoch := by
  obtain ⟨slot, hslot, -⟩ := Option.bind_eq_some_iff.mp h
  obtain ⟨s', -, he, hs'⟩ := epochSecurity_slot hslot
  rw [h] at hs'
  rw [Option.some.inj hs', he]

/-- One piece that is too long is not copied. -/
theorem copyPieces_one {rlen res : Nat} {data : Bytes} (h : rlen < res + 13 + data.length) :
    copyPieces rlen res [data] = none := if_pos h

/-- The record for one piece, with the parameters of a slot or without any. -/
theorem fillRecord_one (p : Peer) {o : Option SecurityParameters} {s : SecurityParameters}
    (n type : Nat) (data : Bytes) (ho : o = some { s with rseq := n } ∨ o = none ∧
      s = dtlsSecurityNew) :
    (data.length ≤ recordRoom s →
      fillRecord env.prims (some p) o (recordHeader type s) [data] dtlsMaxBuf
        = .ok (sealed env.prims p.role s type data)) ∧
    (recordRoom s < data.length → ∃ e,
      fillRecord env.prims (some p) o (recordHeader type s) [data] dtlsMaxBuf = .error e) := by
  have flat : [data].flatten = data := List.flatten_singleton
  have max : dtlsMaxBuf = 30000 := rfl
  have rh : dtlsRhLength = 13 := rfl
  have filled : fillRecord env.prims (some p) o (recordHeader type s) [data] dtlsMaxBuf
      = if s.cipher = tlsNullWithNullNull then plainRecord (recordHeader type s) [data] dtlsMaxBuf
        else cipherRecord env.prims p.role s (recordHeader type s) [data] dtlsMaxBuf := by
    obtain rfl | ⟨rfl, rfl⟩ := ho <;> rfl
  rw [filled, recordRoom]
  unfold sealed
  dsimp only
  split
  · constructor
    · intro fits
      rw [plainRecord, copyPieces_eq _ _ _ (by rw [flat]; omega), flat]
    · intro long
      rw [plainRecord, copyPieces_one (by omega)]
      exact ⟨_, rfl⟩
  · constructor
    · intro fits
      rw [cipherRecord, copyPieces_eq _ _ _ (by rw [flat]; omega), flat]
    · intro long
      rw [cipherRecord, copyPieces_one (by omega)]
      exact ⟨_, rfl⟩

/-! ## What `dtls_retransmit` does -/

/-- Nothing is sent of a node that has been sent often enough, or has no peer. -/
theorem retransmit_dropped (h : ¬ node.Retried) : dtlsRetransmit env node w = (.ok (), w) := by
  unfold dtlsRetransmit
  cases hp : node.peer with
  | none => rfl
  | some a => exact congrFun (if_pos fun few => h ⟨by rw [hp]; rfl, few⟩) w

/-- The record for the data of a node, and the peer afterwards. -/
theorem prepareRecord_node (hfew : node.retransmitCnt < dtlsDefaultMaxRetransmit)
    (hp : node.peer = some a) :
    ∃ r p, dtlsPrepareRecord env (some a)
        ((dtlsSecurityParamsEpoch (w.heap a) node.epoch).map fun s => ⟨a, s⟩) node.type [node.data]
        dtlsMaxBuf w = (.ok r, p)
      ∧ p.log = w.log ∧ p.sendqueue = w.sendqueue ∧ p.peers = w.peers ∧ p.tick = w.tick
      ∧ (Resent w node a → r = .ok (sealed env.prims (w.heap a).role
          ((w.heap a).retransmitSecurity node.epoch) node.type node.data))
      ∧ (¬ Resent w node a → ∃ e, r = .error e) := by
  have long (h : ¬ Resent w node a) :
      recordRoom ((w.heap a).retransmitSecurity node.epoch) < node.data.length :=
    Nat.lt_of_not_le fun fits => h ⟨hp, hfew, fits⟩
  rw [dtlsPrepareRecord, if_neg (by decide)]
  cases hslot : dtlsSecurityParamsEpoch (w.heap a) node.epoch with
  | none =>
      have new : (w.heap a).retransmitSecurity node.epoch = dtlsSecurityNew := by
        rw [Peer.retransmitSecurity, Peer.epochSecurity, hslot]
        rfl
      rw [new] at long ⊢
      obtain ⟨fits, tooLong⟩ := @fillRecord_one env (w.heap a) none dtlsSecurityNew 0 node.type
        node.data (Or.inr ⟨rfl, rfl⟩)
      exact ⟨_, w, rfl, rfl, rfl, rfl, rfl, fun h => fits (new ▸ h.2.2), fun h => tooLong (long h)⟩
  | some slot =>
      obtain ⟨s, hs, -, found⟩ := epochSecurity_slot hslot
      have params : (w.heap a).retransmitSecurity node.epoch = s := by
        rw [Peer.retransmitSecurity, found]
        rfl
      rw [params] at long ⊢
      obtain ⟨fits, tooLong⟩ := @fillRecord_one env ((w.heap a).countRecord s slot)
        (some { s with rseq := (s.rseq + 1) % 2 ^ 64 }) s ((s.rseq + 1) % 2 ^ 64) node.type
        node.data (Or.inl rfl)
      rw [role_countRecord] at fits
      rw [Option.map_some, Program.bind_ok (setRecordHeader_eq node.type (r := ⟨a, slot⟩) hs),
        Program.get_bind]
      simp only [Option.map_some, Option.bind_some, heap_setPeer, security_countRecord]
      exact ⟨_, _, rfl, rfl, rfl, rfl, rfl, fun h => fits (params ▸ h.2.2),
        fun h => tooLong (long h)⟩

/-- **RETRANSMISSION**: the node is queued again, and its record is written if it fits. -/
theorem retransmit_run (hfew : node.retransmitCnt < dtlsDefaultMaxRetransmit)
    (hp : node.peer = some a) :
    ∃ w', dtlsRetransmit env node w = (.ok (), w')
      ∧ w'.sendqueue = netqInsertNode w.sendqueue (node.again (env.ticks w.tick))
      ∧ w'.peers = w.peers ∧ w.tick < w'.tick
      ∧ (Resent w node a → ∃ d, d = sealed env.prims (w.heap a).role
            ((w.heap a).retransmitSecurity node.epoch) node.type node.data
          ∧ w'.log = .write (w.heap a).session d
            :: .sent (w.heap a).session node.type node.data :: w.log)
      ∧ (¬ Resent w node a → w'.log = w.log) := by
  obtain ⟨t, timeout, peer, epoch, type, cnt, data⟩ := node
  obtain rfl : peer = some a := hp
  unfold dtlsRetransmit
  simp only [if_neg (not_not.mpr hfew), getPeer_bind, dtlsTicks_bind, modifyQueue_bind]
  obtain ⟨r, w₁, run, log, queue, peers, tick, resent, failed⟩ := @prepareRecord_node env
    (w.later (w.tick + 1) (netqInsertNode w.sendqueue
      (Netq.again ⟨t, timeout, some a, epoch, type, cnt, data⟩ (env.ticks w.tick)))) a
    ⟨t, timeout, some a, epoch, type, cnt, data⟩ hfew rfl
  by_cases h : Resent w ⟨t, timeout, some a, epoch, type, cnt, data⟩ a
  · rw [resent h] at run
    refine ⟨_, (Program.bind_ok run _).trans (callWrite_bind _ _ _ _ _ _ _), queue, peers, ?_,
      fun _ => ⟨_, rfl, ?_⟩, fun h' => absurd h h'⟩
    · show w.tick < w₁.tick + 1
      rw [tick]
      show w.tick < w.tick + 1 + 1
      omega
    · show _ :: _ :: w₁.log = _
      rw [log]
      rfl
  · obtain ⟨e, he⟩ := failed h
    rw [he] at run
    refine ⟨w₁, (Program.bind_ok run _).trans rfl, queue, peers, ?_, fun h' => absurd h' h,
      fun _ => log⟩
    rw [tick]
    exact Nat.lt_succ_self w.tick

/-! ## The protection of the epoch -/

/-- Parameters under which nothing is sent in the clear. -/
def Encrypted (under : Option SecurityParameters) : Prop :=
  ∃ s, under = some s ∧ s.cipher ≠ tlsNullWithNullNull

/-- `node` was queued by `dtls_send_multi` with the parameters `under`, or without any. -/
def QueuedUnder (under : Option SecurityParameters) (node : Netq) : Prop :=
  node.epoch = (under.map (·.epoch)).getD 0

/-- What `dtls_send_multi` queues. -/
theorem queuePacket_run (peer : Option Addr) (security : Option SecRef) (type : Nat)
    (pieces : List Bytes) (w : World) :
    ∃ w', queuePacket env peer security type pieces w = (.ok (), w') ∧
      (w'.sendqueue = w.sendqueue ∨ ∃ node, w'.sendqueue = netqInsertNode w.sendqueue node ∧
        node.peer = peer ∧ node.retransmitCnt = 0 ∧ node.timeout = 2 * dtlsTicksPerSecond ∧
        QueuedUnder (security.bind fun r => (w.heap r.peer).security r.slot) node) := by
  rw [queuePacket, malloc_bind]
  cases env.malloc w.tick with
  | false => exact ⟨w.asked, rfl, Or.inl rfl⟩
  | true =>
      simp only [Bool.not_true, Bool.false_eq_true, if_false]
      rw [dtlsTicks_bind]
      exact ⟨_, rfl, Or.inr ⟨_, rfl, rfl, rfl, rfl, rfl⟩⟩

/-- The datagram `d` is the packet of `node` in its epoch, with the protection that it was queued
    under.  Epoch 0 is the one before any parameters. -/
structure KeepsEpoch (C : Primitives) (p : Peer) (node : Netq) (under : Option SecurityParameters)
    (d : Bytes) : Prop where
  header : (d.drop 3).take 2 = dtlsIntToUint16 node.epoch
  protects : ∃ s, d = sealed C p.role s node.type node.data ∧
    (p.epochSecurity node.epoch = some s ∨
      p.epochSecurity node.epoch = none ∧ node.epoch % 2 ^ 16 = 0 ∧ s = dtlsSecurityNew) ∧
    (Encrypted under → s.cipher ≠ tlsNullWithNullNull)

/-- Whatever `dtls_retransmit` writes keeps the epoch of the node and its protection. -/
def KeepsProtection (env : Env) (w : World) (node : Netq) (under : Option SecurityParameters) :
    Prop :=
  ∃ l, (dtlsRetransmit env node w).2.log = l ++ w.log ∧
    ∀ session d, Event.write session d ∈ l → ∃ a, node.peer = some a ∧
      KeepsEpoch env.prims (w.heap a) node under d

/-- A slot of the peer has the epoch, and a cipher if the packet needs one; or it is a packet of
    epoch 0 that needs none. -/
def EpochLeft (p : Peer) (node : Netq) (under : Option SecurityParameters) : Prop :=
  (∃ s, p.epochSecurity node.epoch = some s ∧
    (Encrypted under → s.cipher ≠ tlsNullWithNullNull)) ∨
  p.epochSecurity node.epoch = none ∧ node.epoch % 2 ^ 16 = 0 ∧ ¬ Encrypted under

/-- The epoch in the header of a record. -/
theorem header_sealed (C : Primitives) (role : DtlsPeerType) (s : SecurityParameters) (type : Nat)
    (payload : Bytes) :
    ((sealed C role s type payload).drop 3).take 2 = dtlsIntToUint16 s.epoch := by
  unfold sealed
  dsimp only
  split <;> rfl

/-- The packet that `dtls_retransmit` makes, against the one that was queued. -/
theorem keepsEpoch_iff (C : Primitives) (p : Peer) (node : Netq)
    (under : Option SecurityParameters) :
    KeepsEpoch C p node under
        (sealed C p.role (p.retransmitSecurity node.epoch) node.type node.data)
      ↔ EpochLeft p node under := by
  have plain : dtlsSecurityNew.cipher = tlsNullWithNullNull := rfl
  cases found : p.epochSecurity node.epoch with
  | some s =>
      have params : p.retransmitSecurity node.epoch = s := by
        rw [Peer.retransmitSecurity, found]
        rfl
      rw [params]
      constructor
      · rintro ⟨-, s', -, hs' | ⟨none, -⟩, secret⟩
        · exact Or.inl ⟨s', hs', secret⟩
        · rw [found] at none
          cases none
      · rintro (⟨s', hs', secret⟩ | ⟨none, -⟩)
        · have same : s = s' := Option.some.inj (found.symm.trans hs')
          refine ⟨?_, s, rfl, Or.inl found, same ▸ secret⟩
          rw [header_sealed, epoch_epochSecurity found]
        · rw [found] at none
          cases none
  | none =>
      have params : p.retransmitSecurity node.epoch = dtlsSecurityNew := by
        rw [Peer.retransmitSecurity, found]
        rfl
      rw [params]
      constructor
      · rintro ⟨-, s', -, hs' | ⟨-, zero, rfl⟩, secret⟩
        · rw [found] at hs'
          cases hs'
        · exact Or.inr ⟨found, zero, fun enc => secret enc plain⟩
      · rintro (⟨s', hs', -⟩ | ⟨-, zero, clear⟩)
        · rw [found] at hs'
          cases hs'
        · refine ⟨?_, dtlsSecurityNew, rfl, Or.inr ⟨found, zero, rfl⟩, fun enc => absurd enc clear⟩
          rw [header_sealed]
          have high : UInt8.ofNat (node.epoch >>> 8) = 0 := by
            rw [← UInt8.toNat_inj, UInt8.toNat_ofNat', Nat.shiftRight_eq_div_pow]
            show _ = 0
            omega
          have low : UInt8.ofNat (node.epoch >>> 0) = 0 := by
            rw [← UInt8.toNat_inj, UInt8.toNat_ofNat', Nat.shiftRight_zero]
            show _ = 0
            omega
          show ([0, 0] : Bytes) = [UInt8.ofNat (node.epoch >>> 8), UInt8.ofNat (node.epoch >>> 0)]
          rw [high, low]

/-- What is sent again keeps its protection when the epoch is left. -/
theorem keepsProtection_resent {under : Option SecurityParameters} (h : Resent w node a) :
    KeepsProtection env w node under ↔ EpochLeft (w.heap a) node under := by
  obtain ⟨w', run, -, -, -, resent, -⟩ := @retransmit_run env w a node h.2.1 h.1
  obtain ⟨d, hd, log⟩ := resent h
  rw [← keepsEpoch_iff env.prims, ← hd, KeepsProtection, run, log]
  constructor
  · rintro ⟨l, hl, keeps⟩
    have written :
        l = [.write (w.heap a).session d, .sent (w.heap a).session node.type node.data] :=
      List.append_cancel_right (hl.symm.trans rfl)
    obtain ⟨b, hb, kept⟩ := keeps (w.heap a).session d (by rw [written]; exact List.mem_cons_self)
    rw [h.1] at hb
    cases hb
    exact kept
  · intro kept
    refine ⟨[_, _], rfl, fun session d' hd' => ⟨a, h.1, ?_⟩⟩
    rcases List.mem_cons.mp hd' with hd' | hd'
    · cases hd'
      exact kept
    · cases List.mem_singleton.mp hd'

/-- A node that is not sent writes nothing. -/
theorem keepsProtection_silent {under : Option SecurityParameters} (h : ∀ a, ¬ Resent w node a) :
    KeepsProtection env w node under := by
  have silent : (dtlsRetransmit env node w).2.log = w.log := by
    by_cases retried : node.Retried
    · obtain ⟨a, ha⟩ := Option.isSome_iff_exists.mp retried.1
      obtain ⟨w', run, -, -, -, -, failed⟩ := @retransmit_run env w a node retried.2 ha
      rw [run]
      exact failed (h a)
    · rw [retransmit_dropped retried]
  exact ⟨[], silent, fun _ _ none => absurd none List.not_mem_nil⟩

/-- **RETRANSMISSION KEEPS THE PROTECTION EXACTLY WHILE THE EPOCH IS LEFT.** -/
theorem keepsProtection_iff (env : Env) (w : World) (node : Netq)
    (under : Option SecurityParameters) :
    KeepsProtection env w node under
      ↔ ∀ a, Resent w node a → EpochLeft (w.heap a) node under := by
  constructor
  · intro keeps a resent
    exact (keepsProtection_resent resent).mp keeps
  · intro left
    by_cases sent : ∃ a, Resent w node a
    · obtain ⟨a, resent⟩ := sent
      exact (keepsProtection_resent resent).mpr (left a resent)
    · exact keepsProtection_silent fun a resent => sent ⟨a, resent⟩

/-- A Finished message that was queued in the first epoch with keys. -/
def finishedNode : Netq where
  t := 0
  timeout := 2 * dtlsTicksPerSecond
  peer := some 0
  epoch := 1
  type := dtlsCtHandshake
  retransmitCnt := 0
  data := List.replicate 24 20

/-- A peer that has moved on to the next epoch, and freed the one before. -/
def movedOn : World :=
  sampleWorld.setPeer 0 { sampleWorld.heap 0 with
    security0 := some { sampleSecurity with epoch := 2 } }

/-- The message goes out in the clear, in epoch 0. -/
theorem keepsProtection_moved_on :
    ¬ ∀ (env : Env) (w : World) (node : Netq) (under : Option SecurityParameters),
      QueuedUnder under node → KeepsProtection env w node under := by
  intro all
  have resent : Resent movedOn finishedNode 0 := ⟨rfl, by decide, by decide⟩
  have left := (keepsProtection_resent resent).mp
    (all sampleEnv movedOn finishedNode (some sampleSecurity) rfl)
  have gone : (movedOn.heap 0).epochSecurity finishedNode.epoch = none := by decide
  obtain ⟨s, found, -⟩ | ⟨-, zero, -⟩ := left
  · rw [gone] at found
    cases found
  · exact absurd zero (by decide)

end PqDtls.Dtls
