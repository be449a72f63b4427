import PqDtls.Dtls.AppData
import PqDtls.Dtls.SourceAuth

/-! # The delayed check of packets

    A packet of application data is kept until the next one discloses the key of its
    MAC.  `handleApplicationData_eq` is the whole of what happens to one packet; the
    outcome of the check is printed and has no other effect, and the key that is
    disclosed is compared with nothing. -/

namespace PqDtls.Dtls

open Program (get gets modify stop ofOption when Keeps)

variable {env : Env} {w w' : World} {a head : Addr} {data : Ptr}

/-! ## One packet -/

/-- The world after a packet was checked and stored. -/
def World.checked (w : World) (env : Env) (head : Addr) (data : Ptr) (len : Int) : World :=
  let w := w.asked.emitted (.interval (intervalSafe w.rtt (env.timeofday w.tick) w.tsync.TStart
    (w.heap head).intIndex))
  (w.emitted (.tesla (receivedPacket env.prims head (w.heap head) data len))).setPeer head
    { w.heap head with
      teslaPs := storePacket (w.heap head).teslaPs (w.heap head).intIndex data len }

/-- The length of a payload that fits the store. -/
def Storable (len : Int) : Prop := 0 ≤ len + 36 ∧ len + 36 ≤ tMsgSize

instance (len : Int) : Decidable (Storable len) := inferInstanceAs (Decidable (_ ∧ _))

/-- A packet that fits is checked against the stored one, and takes its place. -/
theorem receiveTesla_eq {len : Int} (hpeers : w.peers.head? = some head) (hlen : Storable len) :
    receiveTesla env data len w = (.ok (), w.checked env head data len) := by
  have found : (ofOption .nullDeref w.peers.head? : M Addr) w = (.ok head, w) := by
    rw [hpeers]
    rfl
  have bounds : ¬ (len + 36 < 0 ∨ len + 36 > tMsgSize) := by
    unfold Storable at hlen
    omega
  rw [receiveTesla, Program.gets_bind, Program.bind_ok found, getPeer_bind, checkInterval]
  simp only [bind_assoc, gettimeofday_bind, Program.get_bind, emit_bind, if_neg bounds]
  rfl

/-- A packet that does not fit stops the process. -/
theorem receiveTesla_overflow {len : Int} (hlen : ¬ Storable len) :
    ∃ e w', receiveTesla env data len w = (.error e, w') ∧ w'.heap = w.heap ∧
      reads w'.log = reads w.log := by
  have bounds : len + 36 < 0 ∨ len + 36 > tMsgSize := by
    unfold Storable at hlen
    omega
  cases hpeers : w.peers.head? with
  | none =>
      refine ⟨.nullDeref, w, ?_, rfl, rfl⟩
      rw [receiveTesla, Program.gets_bind, hpeers]
      rfl
  | some head =>
      have found : (ofOption .nullDeref w.peers.head? : M Addr) w = (.ok head, w) := by
        rw [hpeers]
        rfl
      refine ⟨.outOfBounds, w.asked.emitted (.interval (intervalSafe w.rtt (env.timeofday w.tick)
        w.tsync.TStart (w.heap head).intIndex)), ?_, rfl, rfl⟩
      rw [receiveTesla, Program.gets_bind, Program.bind_ok found, getPeer_bind, checkInterval]
      simp only [bind_assoc, gettimeofday_bind, Program.get_bind, emit_bind, if_pos bounds]
      rfl

/-- The part of a packet of `n` bytes in front of its TESLA part. -/
def payloadLength (n : Nat) : Int := (n : Int) - teslaExtension

/-- A packet that fits is checked, and its payload is handed to the application. -/
theorem handleApplicationData_eq {n : Nat} (hq : ∀ m ∈ w.sendqueue, m.peer.isSome = true)
    (hpeers : w.peers.head? = some head) (hlen : Storable (payloadLength n)) :
    ∃ q, handleApplicationData env a data n w
      = callRead env ((World.checked { w with sendqueue := q } env head data
          (payloadLength n)).heap a).session data (sizeT (payloadLength n))
          (World.checked { w with sendqueue := q } env head data (payloadLength n)) := by
  obtain ⟨q, hrun⟩ := @stopRetransmission_ok w a hq
  refine ⟨q, ?_⟩
  have received := @receiveTesla_eq env { w with sendqueue := q } head data _ hpeers hlen
  rw [handleApplicationData, Program.bind_ok hrun]
  show (receiveTesla env data (payloadLength n) >>= fun _ => _) _ = _
  rw [Program.bind_ok received, getPeer_bind]
  rfl

/-- Any other packet stops the process, and nothing is read or stored. -/
theorem handleApplicationData_stops {n : Nat} (h : ¬ ((∀ m ∈ w.sendqueue, m.peer.isSome = true) ∧
      w.peers.head?.isSome = true ∧ Storable (payloadLength n))) :
    (handleApplicationData env a data n w).2.heap = w.heap ∧
      reads (handleApplicationData env a data n w).2.log = reads w.log := by
  by_cases hq : ∀ m ∈ w.sendqueue, m.peer.isSome = true
  swap
  · rw [handleApplicationData, Program.bind_error (stopRetransmission_orphan hq)]
    exact ⟨rfl, rfl⟩
  obtain ⟨q, hrun⟩ := @stopRetransmission_ok w a hq
  rw [handleApplicationData, Program.bind_ok hrun]
  show ((receiveTesla env data (payloadLength n) >>= fun _ => _) _).2.heap = _ ∧
    reads ((receiveTesla env data (payloadLength n) >>= fun _ => _) _).2.log = _
  by_cases hlen : Storable (payloadLength n)
  · have none' : w.peers.head? = none := by
      cases hpeers : w.peers.head? with
      | none => rfl
      | some head => exact absurd ⟨hq, by rw [hpeers]; rfl, hlen⟩ h
    have stops : receiveTesla env data (payloadLength n) { w with sendqueue := q }
        = (.error .nullDeref, { w with sendqueue := q }) := by
      rw [receiveTesla, Program.gets_bind, none']
      rfl
    rw [Program.bind_error stops]
    exact ⟨rfl, rfl⟩
  · obtain ⟨e, w', stops, hheap, hreads⟩ :=
      @receiveTesla_overflow env { w with sendqueue := q } data _ hlen
    rw [Program.bind_error stops]
    exact ⟨hheap, hreads⟩

theorem length_reads_append (l l' : List Event) :
    (reads l').length ≤ (reads (l ++ l')).length := by
  induction l with
  | nil => exact le_refl _
  | cons e l ih =>
      cases e with
      | read session data len => exact Nat.le_succ_of_le ih
      | _ => exact ih

/-- The read callback is seen in the record of events, whatever the application does. -/
theorem reads_callRead (session : Session) (data : Ptr) (len : Nat) (w : World) :
    (reads w.log).length < (reads (callRead env session data len w).2.log).length := by
  rw [callRead, nextTick_bind, emit_bind]
  obtain ⟨l, hl, -⟩ := ((@innerFrame env).runAppCalls (env.read w.tick session data len)
    (w.asked.emitted (.read session data len))).log
  rw [hl]
  exact length_reads_append l (.read session data len :: w.log)

/-! ## Two packets -/

/-- The packets of a run, the last one first. -/
def teslas : List Event → List TeslaPacket
  | [] => []
  | .tesla p :: l => p :: teslas l
  | _ :: l => teslas l

/-- Surroundings in which the application answers every packet. -/
def answeringEnv : Env :=
  { sampleEnv with read := fun _ session _ _ => [.write session (fun _ => 0) 0] }

/-- Two packets of a session; the keys, and the MAC of the first one, are zeros. -/
def packetsReceived : List Input :=
  handshakeDone ++ [sampleData 0 (List.replicate 68 0),
    sampleData 1 (List.replicate 36 0 ++ List.replicate 32 7)]

/-- The world after two packets. -/
def packetsWorld : World := (runInputs answeringEnv packetsReceived sampleWorld).2

theorem packetsWorld_reachable : Reachable answeringEnv packetsWorld :=
  ⟨sampleWorld, packetsReceived, sampleWorld_initial, by rw [packetsWorld]⟩

/-- The second packet was accepted; the one that follows it will not be. -/
theorem packetsWorld_facts :
    packetsWorld.peers.head? = some 0 ∧ (∀ m ∈ packetsWorld.sendqueue, m.peer.isSome = true) ∧
      (packetsWorld.heap 0).state = .connected ∧ (packetsWorld.heap 0).role = .server ∧
      packetsWorld.tsync.KeyComm ≠ Vector.replicate 32 0 ∧
      (∃ p ∈ teslas packetsWorld.log, p.check = some true) ∧
      (receivedPacket answeringEnv.prims 0 (packetsWorld.heap 0) (fun _ => 7)
        (payloadLength 108)).check = some false := by
  decide +kernel

/-! ## A check that fails -/

/-- The MAC of the stored packet is not the one under the key that is disclosed. -/
def FailsCheck (env : Env) (w : World) (data : Ptr) (n : Nat) : Prop :=
  ∃ head, w.peers.head? = some head ∧
    (receivedPacket env.prims head (w.heap head) data (payloadLength n)).check = some false

/-- Nothing is read, and the stored packet stays. -/
def Withheld (w w' : World) : Prop :=
  reads w'.log = reads w.log ∧
    ∀ head, w.peers.head? = some head → (w'.heap head).teslaPs = (w.heap head).teslaPs

/-- The process gets as far as the check. -/
def ReachesCheck (w : World) (n : Nat) : Prop :=
  (∀ m ∈ w.sendqueue, m.peer.isSome = true) ∧ Storable (payloadLength n)

/-- A packet that is handled is read. -/
theorem handleApplicationData_read {n : Nat} (hr : ReachesCheck w n)
    (hpeers : w.peers.head? = some head) :
    reads (handleApplicationData env a data n w).2.log ≠ reads w.log := by
  obtain ⟨q, hrun⟩ := @handleApplicationData_eq env w a head data n hr.1 hpeers hr.2
  rw [hrun]
  intro same
  have more := @reads_callRead env ((World.checked { w with sendqueue := q } env head data
    (payloadLength n)).heap a).session data (sizeT (payloadLength n))
    (World.checked { w with sendqueue := q } env head data (payloadLength n))
  rw [same] at more
  exact lt_irrefl _ more

/-- The last packet that was handled for the peer at `a`. -/
def lastTesla (a : Addr) : List Event → Option TeslaPacket
  | [] => none
  | .tesla p :: l => if p.peer = a then some p else lastTesla a l
  | _ :: l => lastTesla a l

/-- The store of a peer that has received nothing. -/
def emptyStore : PacketStore := ⟨0, fun _ => 0, Vector.replicate 32 0, Vector.replicate 32 0⟩

def Event.isTesla : Event → Prop
  | .tesla _ => True
  | _ => False

theorem lastTesla_append {l l' : List Event} (h : ∀ e ∈ l, ¬ e.isTesla) :
    lastTesla a (l ++ l') = lastTesla a l' := by
  induction l with
  | nil => rfl
  | cons e l ih =>
      obtain ⟨he, hl⟩ := List.forall_mem_cons.mp h
      cases e with
      | tesla p => exact absurd trivial he
      | _ => exact ih hl

/-- What a step does to the stores: a packet is stored, or there is none, and a store
    stays or is emptied. -/
theorem Step.store_cases (h : Step env w w') :
    (∃ l, w'.log = l ++ w.log ∧ (∀ e ∈ l, ¬ e.isTesla) ∧
        ∀ a, (w'.heap a).teslaPs = (w.heap a).teslaPs ∨ (w'.heap a).teslaPs = emptyStore) ∨
      ∃ head data len,
        w'.log = .tesla (receivedPacket env.prims head (w.heap head) data len) :: w.log ∧
        ∀ a, (w'.heap a).teslaPs = if a = head then
          (receivedPacket env.prims head (w.heap head) data len).next else (w.heap a).teslaPs := by
  -- one event that is no packet, and stores that are not touched
  have event {e : Event} (he : ¬ e.isTesla) (hlog : w'.log = e :: w.log)
      (heap : ∀ a, (w'.heap a).teslaPs = (w.heap a).teslaPs) :
      ∃ l, w'.log = l ++ w.log ∧ (∀ e ∈ l, ¬ e.isTesla) ∧
        ∀ a, (w'.heap a).teslaPs = (w.heap a).teslaPs ∨ (w'.heap a).teslaPs = emptyStore :=
    ⟨[e], hlog, List.forall_mem_singleton.mpr he, fun a => .inl (heap a)⟩
  -- a write to one peer
  have set (w : World) (b a : Addr) (p : Peer) (hp : p.teslaPs = (w.heap b).teslaPs) :
      ((w.setPeer b p).heap a).teslaPs = (w.heap a).teslaPs := by
    by_cases ha : a = b
    · rw [ha, heap_setPeer, hp]
    · rw [heap_setPeer_ne _ ha]
  have silent (hlog : w'.log = w.log)
      (heap : ∀ a, (w'.heap a).teslaPs = (w.heap a).teslaPs ∨ (w'.heap a).teslaPs = emptyStore) :
      ∃ l, w'.log = l ++ w.log ∧ (∀ e ∈ l, ¬ e.isTesla) ∧
        ∀ a, (w'.heap a).teslaPs = (w.heap a).teslaPs ∨ (w'.heap a).teslaPs = emptyStore :=
    ⟨[], hlog, List.forall_mem_nil _, heap⟩
  cases h with
  | quiet q =>
      obtain ⟨l, hl, ho⟩ := q.log
      refine .inl ⟨l, hl, fun e he => ?_, fun a => .inl (congrArg PeerCore.teslaPs (q.heap a))⟩
      have outside := ho e he
      cases e with
      | tesla p => exact absurd outside id
      | _ => exact id
  | storage heap signer log => exact .inl (silent log fun a => .inl (by rw [heap]))
  | newPeer b session =>
      refine .inl (silent rfl fun a => ?_)
      by_cases hb : a = b
      · rw [hb, heap_setPeer]
        exact .inr rfl
      · rw [heap_setPeer_ne _ hb]
        exact .inl rfl
  | edit b p watched =>
      have stored : p.teslaPs = (w.heap b).teslaPs := (Prod.mk.inj (Prod.mk.inj watched).2).2
      exact .inl (silent rfl fun a => .inl (set w b a p stored))
  | params b o fresh => exact .inl (silent rfl fun a => .inl (set w b a _ (by rfl)))
  | buffer b buf fresh => exact .inl (silent rfl fun a => .inl (set w b a _ (by rfl)))
  | state b s entered => exact .inl (event id rfl fun a => set (w.emitted _) b a _ (by rfl))
  | sign hash r hr => exact .inl (event id rfl fun _ => rfl)
  | keyGeneration => exact .inl (event id rfl fun _ => rfl)
  | verify c rtt hash result hc hk => exact .inl (event id rfl fun _ => rfl)
  | read session data len r b p readable => exact .inl (event id rfl fun _ => rfl)
  | record r before => exact .inl (event id rfl fun _ => rfl)
  | replay b => exact .inl (event id rfl fun _ => rfl)
  | message c before origin => exact .inl (event id rfl fun _ => rfl)
  | handled res => exact .inl (event id rfl fun _ => rfl)
  | fragment b header buf data dataLength before fits =>
      exact .inl (event id rfl fun a => set w b a _ (by rfl))
  | deliver c rest last before whole =>
      exact .inl (event id rfl fun a => set w c.peer a _ (by rfl))
  | tesla head data len =>
      refine .inr ⟨head, data, len, rfl, fun a => ?_⟩
      by_cases ha : a = head
      · rw [ha, heap_setPeer, if_pos rfl]
        rfl
      · rw [heap_setPeer_ne _ ha, if_neg ha]
        rfl

/-- What the check of the stored packet comes to when `p` is handled after the events
    `l`. -/
structure TeslaPacket.Checked (env : Env) (l : List Event) (p : TeslaPacket) : Prop where
  stored : p.stored = emptyStore ∨ ∃ q, lastTesla p.peer l = some q ∧ p.stored = q.next
  first : p.check = none ↔ p.used = 0
  accepted : p.check = some true ↔
    p.used ≠ 0 ∧ storedMac env.prims p.stored p.key p.length = p.stored.packetMac

/-- The stores hold the last packets, and so they did at every check. -/
structure Delayed (env : Env) (w : World) : Prop where
  stored : ∀ a, (w.heap a).teslaPs = emptyStore ∨
    ∃ p, lastTesla a w.log = some p ∧ (w.heap a).teslaPs = p.next
  checked : ∀ p l, .tesla p :: l <:+ w.log → p.Checked env l

theorem suffix_of_append {l l' l'' : List Event} {p : TeslaPacket} (h : ∀ e ∈ l, ¬ e.isTesla)
    (hs : .tesla p :: l'' <:+ l ++ l') : .tesla p :: l'' <:+ l' := by
  induction l with
  | nil => exact hs
  | cons e l ih =>
      obtain ⟨he, hl⟩ := List.forall_mem_cons.mp h
      rcases List.suffix_cons_iff.mp hs with heq | hs
      · cases heq
        exact absurd trivial he
      · exact ih hl hs

/-- The packet that a peer receives is checked against its store. -/
theorem receivedPacket_checked (head : Addr) (data : Ptr) (len : Int)
    (hw : (w.heap head).teslaPs = emptyStore ∨
      ∃ p, lastTesla head w.log = some p ∧ (w.heap head).teslaPs = p.next) :
    (receivedPacket env.prims head (w.heap head) data len).Checked env w.log := by
  refine ⟨hw, ?_, ?_⟩
  · unfold receivedPacket
    simp only [ite_eq_left_iff, reduceCtorEq, imp_false, not_not]
  · unfold receivedPacket
    by_cases hzero : (w.heap head).intIndex = 0
    · simp only [hzero, if_true, reduceCtorEq, ne_eq, not_true_eq_false, false_and]
    · simp only [hzero, if_false, Option.some.injEq, decide_eq_true_eq, ne_eq, not_false_eq_true,
        true_and]

/-- **STEP**: the stores. -/
theorem delayed_step (w w' : World) (h : Step env w w') (hw : Delayed env w) : Delayed env w' := by
  rcases h.store_cases with ⟨l, hl, hno, heap⟩ | ⟨head, data, len, hl, heap⟩
  · refine ⟨fun a => ?_, fun p l' hs => hw.checked p l' (suffix_of_append hno (hl ▸ hs))⟩
    rcases heap a with same | empty
    · rw [same, hl, lastTesla_append hno]
      exact hw.stored a
    · exact .inl empty
  · refine ⟨fun a => ?_, fun p l' hs => ?_⟩
    · rw [heap a, hl]
      by_cases ha : a = head
      · rw [if_pos ha, ha]
        refine .inr ⟨_, ?_, rfl⟩
        simp only [lastTesla, receivedPacket, if_true]
      · rw [if_neg ha]
        have last : lastTesla a (.tesla (receivedPacket env.prims head (w.heap head) data len)
            :: w.log) = lastTesla a w.log := if_neg (Ne.symm ha)
        rw [last]
        exact hw.stored a
    · rw [hl] at hs
      rcases List.suffix_cons_iff.mp hs with heq | hs
      · cases heq
        exact receivedPacket_checked head data len (hw.stored head)
      · exact hw.checked p l' hs

theorem delayed_initial (w : World) (h : Initial w) : Delayed env w := by
  refine ⟨fun a => ?_, fun p l hs => ?_⟩
  · obtain ⟨session, ha⟩ := h.heap a
    rw [ha]
    exact .inl rfl
  · rw [h.log] at hs
    cases List.eq_nil_of_suffix_nil hs

theorem suffix_of_teslas {l : List Event} {p : TeslaPacket} (h : p ∈ teslas l) :
    ∃ l', .tesla p :: l' <:+ l := by
  induction l with
  | nil => cases h
  | cons e l ih =>
      have later (h : p ∈ teslas l) : ∃ l', .tesla p :: l' <:+ e :: l := by
        obtain ⟨l', hl'⟩ := ih h
        exact ⟨l', hl'.trans (List.suffix_cons e l)⟩
      cases e with
      | tesla q =>
          rcases List.mem_cons.mp h with rfl | h
          · exact ⟨l, List.suffix_rfl⟩
          · exact later h
      | _ => exact later h

theorem chainKey_answering (hmacKey key : Digest) (n : Nat) :
    chainKey answeringEnv.prims hmacKey key (n + 1) = Vector.replicate 32 0 := rfl

end PqDtls.Dtls
