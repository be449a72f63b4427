import PqDtls.Dtls.Cookies
import PqDtls.Dtls.Epochs
import PqDtls.Dtls.Refusal

/-! # The nonces of a key block

    A key block is installed in slot 1, and moves to slot 0 with the switch.  Every record
    under it takes the next number of its slot, whoever sends it; of this number 48 of 64
    bits are part of the nonce.  **`nonces_differ`** is about all records of a run.

    A server answers every ClientHello of a client that is connected with a record, and so
    a run of 2^48 of them has a nonce twice (`nonces_repeat`). -/

namespace PqDtls.Dtls

open Program (get gets modify stop ofOption when Keeps keeps_pure keeps_get keeps_gets keeps_stop
  keeps_ofOption keeps_modify)
open History

variable {env : Env} {w w' : World} {l : List (World × Op)}

/-! ## Key blocks and the records under them -/

def Slot.other : Slot → Slot
  | .zero => .one
  | .one => .zero

/-- The installation that the key block in a slot of the peer comes from, by its place in the
    history. -/
def keyOrigin (a : Addr) : List (World × Op) → Slot → Option Nat
  | [], _ => none
  | (_, .newPeer b) :: past, slot | (_, .accept b) :: past, slot =>
      if b = a then none else keyOrigin a past slot
  | (_, .next b) :: past, slot | (_, .noNext b) :: past, slot =>
      if b = a ∧ slot = .one then none else keyOrigin a past slot
  | (_, .install b) :: past, slot =>
      if b = a ∧ slot = .one then some past.length else keyOrigin a past slot
  | (_, .switch b) :: past, slot => keyOrigin a past (if b = a then slot.other else slot)
  | _ :: past, slot => keyOrigin a past slot

/-- The parameters that the records of a peer under one key block were sent with, the last
    one first. -/
def recordsUnder (a : Addr) (i : Nat) : List (World × Op) → List SecurityParameters
  | [] => []
  | (_, .send b slot s _ _ _) :: past =>
      if b = a ∧ keyOrigin a past slot = some i then s :: recordsUnder a i past
      else recordsUnder a i past
  | _ :: past => recordsUnder a i past

/-- The explicit part of the nonce: the epoch and the number of the record. -/
def explicitNonce (s : SecurityParameters) : Bytes :=
  dtlsIntToUint16 s.epoch ++ dtlsIntToUint48 s.rseq

/-- It is what stands in the header, and what the record is encrypted with. -/
theorem explicitNonce_header (type : Nat) (s : SecurityParameters) :
    ((recordHeader type s).drop 3).take 8 = explicitNonce s := by
  have split : recordHeader type s = (dtlsIntToUint8 type ++ dtlsIntToUint16 dtlsVersion) ++
      (explicitNonce s ++ [0, 0]) := by
    rw [recordHeader, explicitNonce]
    simp only [List.append_assoc]
  have front : (dtlsIntToUint8 type ++ dtlsIntToUint16 dtlsVersion).length = 3 := by
    simp [dtlsIntToUint8, dtlsIntToUint16]
  have nonce : (explicitNonce s).length = 8 := by
    simp [explicitNonce, dtlsIntToUint16, dtlsIntToUint48]
  rw [split, List.drop_left' front, List.take_left' nonce]

/-- The nonce of CCM. -/
def recordNonce (role : DtlsPeerType) (s : SecurityParameters) : Block :=
  padBlock (dtlsKbLocalIv s.keyBlock role ++ explicitNonce s)

/-- What a record under a cipher is encrypted with. -/
theorem sealed_nonce (C : Primitives) (role : DtlsPeerType) {s : SecurityParameters} (type : Nat)
    (payload : Bytes) (h : s.cipher ≠ tlsNullWithNullNull) :
    ∃ front, sealed C role s type payload = front ++ explicitNonce s ++
      dtlsEncrypt C payload (recordNonce role s) (dtlsKbLocalWriteKey s.keyBlock role)
        (additionalData (recordHeader type s) payload.length) := by
  refine ⟨(recordHeader type s).take 11 ++ dtlsIntToUint16 (8 + (dtlsEncrypt C payload
    (recordNonce role s) (dtlsKbLocalWriteKey s.keyBlock role)
    (additionalData (recordHeader type s) payload.length)).length), ?_⟩
  unfold sealed
  simp only
  rw [if_neg h, explicitNonce_header]
  rfl

theorem length_explicitNonce (s : SecurityParameters) : (explicitNonce s).length = 8 := by
  simp [explicitNonce, dtlsIntToUint16, dtlsIntToUint48]

/-- The fixed part has one length for both roles. -/
theorem length_localIv (k : KeyBlock) (role : DtlsPeerType) :
    (dtlsKbLocalIv k role).length = 4 := by
  cases role <;> simp [dtlsKbLocalIv, dtlsKbClientIv, dtlsKbServerIv]

theorem explicitNonce_of_recordNonce {role role' : DtlsPeerType} {s s' : SecurityParameters}
    (h : recordNonce role s = recordNonce role' s') : explicitNonce s = explicitNonce s' := by
  have read (role : DtlsPeerType) (s : SecurityParameters) (i : Nat) (hi : 4 + i < 16) :
      (recordNonce role s)[4 + i] = (explicitNonce s)[i]?.getD 0 := by
    have behind : (dtlsKbLocalIv s.keyBlock role).length ≤ 4 + i := by
      rw [length_localIv]
      omega
    rw [recordNonce, padBlock, Vector.getElem_ofFn, List.getD_eq_getElem?_getD,
      List.getElem?_append_right behind, length_localIv, Nat.add_sub_cancel_left]
  refine List.ext_getElem (by rw [length_explicitNonce, length_explicitNonce]) fun i hi hi' => ?_
  have bound : 4 + i < 16 := by
    rw [length_explicitNonce] at hi
    omega
  have left := read role s i bound
  have right := read role' s' i bound
  rw [List.getElem?_eq_getElem hi, Option.getD_some] at left
  rw [List.getElem?_eq_getElem hi', Option.getD_some] at right
  simp only [h] at left
  exact left.symm.trans right

/-- All records under one key block have different epochs and numbers, and so different
    nonces. -/
def NoncesDiffer (l : List (World × Op)) : Prop :=
  ∀ a i, (recordsUnder a i l).Pairwise fun s s' => explicitNonce s ≠ explicitNonce s' ∧
    ∀ role role', recordNonce role s ≠ recordNonce role' s'

/-- The number of a record fits its 48 bits. -/
def NumberFits (x : World × Op) : Prop :=
  match x.2 with
  | .send _ _ s _ _ _ | .spend _ _ s => s.rseq < 2 ^ 48
  | _ => True

/-! ## Counting -/

/-- What is known of the key blocks and the records under them. -/
structure Numbered (l : List (World × Op)) (w : World) : Prop where
  below : ∀ a slot i s, keyOrigin a l slot = some i → (w.heap a).security slot = some s →
    ∀ r ∈ recordsUnder a i l, r.rseq < s.rseq
  apart : ∀ a slot slot' i, keyOrigin a l slot = some i → keyOrigin a l slot' = some i →
    slot = slot'
  known : ∀ a slot i, keyOrigin a l slot = some i → i < l.length
  used : ∀ a i, l.length ≤ i → recordsUnder a i l = []
  fits : ∀ a i, ∀ r ∈ recordsUnder a i l, r.rseq < 2 ^ 48
  ordered : ∀ a i, (recordsUnder a i l).Pairwise fun r r' => r'.rseq < r.rseq

/-- Numbers that fit and differ make different nonces. -/
theorem Numbered.noncesDiffer (h : Numbered l w) : NoncesDiffer l := by
  intro a i
  have fits := h.fits a i
  refine List.Pairwise.imp_of_mem (fun {r r'} hr hr' less => ?_) (h.ordered a i)
  have explicit : explicitNonce r ≠ explicitNonce r' := by
    intro same
    have number : dtlsIntToUint48 r.rseq = dtlsIntToUint48 r'.rseq :=
      (List.append_inj same (by simp [dtlsIntToUint16])).2
    have read := congrArg bytesToInt number
    have value (v : SecurityParameters) (hv : v.rseq < 2 ^ 48) :
        bytesToInt (dtlsIntToUint48 v.rseq) = v.rseq :=
      bytesToInt_intToBytes_of_lt (n := 6) hv
    rw [value r (fits r hr), value r' (fits r' hr')] at read
    exact absurd less (read ▸ lt_irrefl _)
  exact ⟨explicit, fun role role' same => explicit (explicitNonce_of_recordNonce same)⟩

/-- **A MOVE WITHOUT A RECORD**: the key blocks stay in their slots, or change places, or are
    gone; and slot 1 may have a new one. -/
theorem Numbered.keys {x : World × Op} (h : Numbered l w) (place : Addr → Slot → Slot)
    (places : ∀ a slot slot', place a slot = place a slot' → slot = slot')
    (origin : ∀ a slot i, keyOrigin a (x :: l) slot = some i →
      (i = l.length ∧ slot = .one) ∨ (keyOrigin a l (place a slot) = some i ∧
        ∀ s', (w'.heap a).security slot = some s' →
          ∃ s, (w.heap a).security (place a slot) = some s ∧ s.rseq ≤ s'.rseq))
    (records : ∀ a i, recordsUnder a i (x :: l) = recordsUnder a i l) : Numbered (x :: l) w' := by
  refine ⟨fun a slot i s' hi hs' r hr => ?_, fun a slot slot' i hi hi' => ?_,
    fun a slot i hi => ?_, fun a i hi => ?_, fun a i => ?_, fun a i => ?_⟩
  · rw [records] at hr
    rcases origin a slot i hi with ⟨rfl, -⟩ | ⟨hi, number⟩
    · rw [h.used a _ (le_refl _)] at hr
      cases hr
    · obtain ⟨s, hs, le⟩ := number s' hs'
      exact (h.below a _ i s hi hs r hr).trans_le le
  · rcases origin a slot i hi with ⟨rfl, rfl⟩ | ⟨hi, -⟩
    · rcases origin a slot' _ hi' with ⟨-, rfl⟩ | ⟨hi', -⟩
      · rfl
      · exact absurd (h.known a _ _ hi') (lt_irrefl _)
    · rcases origin a slot' i hi' with ⟨rfl, -⟩ | ⟨hi', -⟩
      · exact absurd (h.known a _ _ hi) (lt_irrefl _)
      · exact places a slot slot' (h.apart a _ _ i hi hi')
  · rcases origin a slot i hi with ⟨rfl, -⟩ | ⟨hi, -⟩
    · exact Nat.lt_succ_self _
    · exact (h.known a _ i hi).trans (Nat.lt_succ_self _)
  · rw [records]
    exact h.used a i ((Nat.le_succ _).trans hi)
  · rw [records]
    exact h.fits a i
  · rw [records]
    exact h.ordered a i

/-- The keys stay where they are, or are gone. -/
theorem Numbered.kept {x : World × Op} (h : Numbered l w)
    (origin : ∀ a slot i, keyOrigin a (x :: l) slot = some i → keyOrigin a l slot = some i ∧
      ∀ s', (w'.heap a).security slot = some s' →
        ∃ s, (w.heap a).security slot = some s ∧ s.rseq ≤ s'.rseq)
    (records : ∀ a i, recordsUnder a i (x :: l) = recordsUnder a i l) : Numbered (x :: l) w' :=
  h.keys (fun _ slot => slot) (fun _ _ _ => id) (fun a slot i hi => .inr (origin a slot i hi))
    records

/-- The keys stay as they are. -/
theorem Numbered.same {x : World × Op} (h : Numbered l w)
    (origin : ∀ a slot, keyOrigin a (x :: l) slot = keyOrigin a l slot)
    (records : ∀ a i, recordsUnder a i (x :: l) = recordsUnder a i l)
    (number : ∀ a slot s', (w'.heap a).security slot = some s' →
      ∃ s, (w.heap a).security slot = some s ∧ s.rseq ≤ s'.rseq) : Numbered (x :: l) w' :=
  h.kept (fun a slot _ hi => ⟨origin a slot ▸ hi, number a slot⟩) records

/-- The number of a slot, after a write to a peer. -/
theorem number_setPeer {a b : Addr} {p : Peer} {slot : Slot}
    (hp : b = a → ∀ s', p.security slot = some s' →
      ∃ s, (w.heap a).security slot = some s ∧ s.rseq ≤ s'.rseq) (s' : SecurityParameters)
    (hs' : ((w.setPeer a p).heap b).security slot = some s') :
    ∃ s, (w.heap b).security slot = some s ∧ s.rseq ≤ s'.rseq := by
  by_cases hb : b = a
  · subst hb
    rw [heap_setPeer] at hs'
    exact hp rfl s' hs'
  · rw [heap_setPeer_ne p hb] at hs'
    exact ⟨s', hs', le_refl _⟩

/-- Nothing is done to the slots of the peer. -/
theorem Numbered.peer {x : World × Op} {a : Addr} {p : Peer} (h : Numbered l w)
    (origin : ∀ a slot, keyOrigin a (x :: l) slot = keyOrigin a l slot)
    (records : ∀ a i, recordsUnder a i (x :: l) = recordsUnder a i l)
    (heap : w'.heap = (w.setPeer a p).heap)
    (slots : ∀ slot s, p.security slot = some s → (w.heap a).security slot = some s) :
    Numbered (x :: l) w' := by
  refine h.same origin records fun b slot s' hs' => ?_
  rw [heap] at hs'
  exact number_setPeer (fun _ s' hs' => ⟨s', slots slot s' hs', le_refl _⟩) s' hs'

/-- The peer is a new one. -/
theorem Numbered.newPeer {x : World × Op} {a : Addr} {p : Peer} (h : Numbered l w)
    (origin : ∀ b slot, keyOrigin b (x :: l) slot = if a = b then none else keyOrigin b l slot)
    (records : ∀ a i, recordsUnder a i (x :: l) = recordsUnder a i l) :
    Numbered (x :: l) (w.setPeer a p) := by
  refine h.kept (fun b slot i hi => ?_) records
  rw [origin] at hi
  by_cases hb : a = b
  · rw [if_pos hb] at hi
    cases hi
  · rw [if_neg hb] at hi
    exact ⟨hi, number_setPeer fun same => absurd same.symm hb⟩

/-- Slot 1 is another one. -/
theorem Numbered.slotOne {x : World × Op} {a : Addr} {p : Peer} (h : Numbered l w)
    (zero : p.security0 = (w.heap a).security0)
    (origin : ∀ b slot i, keyOrigin b (x :: l) slot = some i →
      (a = b ∧ slot = .one ∧ i = l.length) ∨
        (¬ (a = b ∧ slot = .one) ∧ keyOrigin b l slot = some i))
    (records : ∀ a i, recordsUnder a i (x :: l) = recordsUnder a i l) :
    Numbered (x :: l) (w.setPeer a p) := by
  refine h.keys (fun _ slot => slot) (fun _ _ _ => id) (fun b slot i hi => ?_) records
  rcases origin b slot i hi with ⟨-, one, new⟩ | ⟨other, hi⟩
  · exact .inl ⟨new, one⟩
  · refine .inr ⟨hi, number_setPeer fun same s' hs' => ?_⟩
    cases slot with
    | zero => exact ⟨s', zero.symm.trans hs', le_refl _⟩
    | one => exact absurd ⟨same.symm, rfl⟩ other

/-- What a record does to the numbers. -/
theorem security_counted {a b : Addr} {slot slot' : Slot} {s s' : SecurityParameters}
    (hs : (w.heap a).security slot = some s) (number : s.rseq < 2 ^ 48)
    (hs' : ((w.setPeer a ((w.heap a).countRecord s slot)).heap b).security slot' = some s') :
    (b = a ∧ slot' = slot ∧ s'.rseq = s.rseq + 1) ∨
      (¬ (b = a ∧ slot' = slot) ∧ (w.heap b).security slot' = some s') := by
  by_cases hb : b = a
  · subst hb
    rw [heap_setPeer] at hs'
    by_cases hslot : slot' = slot
    · subst hslot
      rw [security_countRecord] at hs'
      cases hs'
      exact .inl ⟨rfl, rfl, Nat.mod_eq_of_lt (by omega)⟩
    · refine .inr ⟨fun h => hslot h.2, ?_⟩
      cases slot <;> cases slot' <;> first | exact absurd rfl hslot | exact hs'
  · rw [heap_setPeer_ne _ hb] at hs'
    exact .inr ⟨fun h => hb h.1, hs'⟩

theorem number_counted {a b : Addr} {slot slot' : Slot} {s s' : SecurityParameters}
    (hs : (w.heap a).security slot = some s) (number : s.rseq < 2 ^ 48)
    (hs' : ((w.setPeer a ((w.heap a).countRecord s slot)).heap b).security slot' = some s') :
    ∃ s₀, (w.heap b).security slot' = some s₀ ∧ s₀.rseq ≤ s'.rseq := by
  rcases security_counted hs number hs' with ⟨rfl, rfl, next⟩ | ⟨-, same⟩
  · exact ⟨s, hs, by omega⟩
  · exact ⟨s', same, le_refl _⟩

/-- **A RECORD** takes the number of its slot. -/
theorem Numbered.send {a : Addr} {slot : Slot} {s : SecurityParameters} {session : Session}
    {type : Nat} {payload : Bytes} (h : Numbered l w) (hs : (w.heap a).security slot = some s)
    (number : s.rseq < 2 ^ 48)
    (heap : w'.heap = (w.setPeer a ((w.heap a).countRecord s slot)).heap) :
    Numbered ((w, .send a slot s session type payload) :: l) w' := by
  have records (b : Addr) (i : Nat) :
      recordsUnder b i ((w, .send a slot s session type payload) :: l) =
        if a = b ∧ keyOrigin b l slot = some i then s :: recordsUnder b i l
        else recordsUnder b i l := rfl
  refine ⟨fun b slot' i s' hi hs' r hr => ?_, h.apart, fun b slot' i hi => ?_, fun b i hi => ?_,
    fun b i => ?_, fun b i => ?_⟩
  · rw [heap] at hs'
    have hi : keyOrigin b l slot' = some i := hi
    rw [records] at hr
    by_cases mine : a = b ∧ keyOrigin b l slot = some i
    · obtain ⟨rfl, hi'⟩ := mine
      obtain rfl := h.apart a slot slot' i hi' hi
      have next : s'.rseq = s.rseq + 1 := by
        rcases security_counted hs number hs' with ⟨-, -, next⟩ | ⟨other, -⟩
        · exact next
        · exact absurd ⟨rfl, rfl⟩ other
      rw [if_pos ⟨rfl, hi'⟩, List.mem_cons] at hr
      rcases hr with rfl | hr
      · omega
      · have less := h.below a slot i s hi hs r hr
        omega
    · rw [if_neg mine] at hr
      obtain ⟨s₀, hs₀, le⟩ := number_counted hs number hs'
      exact (h.below b slot' i s₀ hi hs₀ r hr).trans_le le
  · exact (h.known b slot' i hi).trans (Nat.lt_succ_self _)
  · rw [records, if_neg fun mine => ?_]
    · exact h.used b i ((Nat.le_succ _).trans hi)
    · have less := h.known b slot i mine.2
      rw [List.length_cons] at hi
      omega
  · rw [records]
    by_cases mine : a = b ∧ keyOrigin b l slot = some i
    · rw [if_pos mine]
      exact List.forall_mem_cons.mpr ⟨number, h.fits b i⟩
    · rw [if_neg mine]
      exact h.fits b i
  · rw [records]
    by_cases mine : a = b ∧ keyOrigin b l slot = some i
    · rw [if_pos mine]
      obtain ⟨rfl, hi⟩ := mine
      exact List.pairwise_cons.mpr ⟨h.below a slot i s hi hs, h.ordered a i⟩
    · rw [if_neg mine]
      exact h.ordered b i

/-- **STEP**: as long as the numbers fit. -/
theorem Numbered.step {op : Op} (move : Move env w op w') (fits : NumberFits (w, op))
    (h : Numbered l w) : Numbered ((w, op) :: l) w' := by
  cases move with
  | quiet silent =>
      refine h.same (fun _ _ => rfl) (fun _ _ => rfl) fun b slot s' hs' => ⟨s', ?_, le_refl _⟩
      cases slot with
      | zero => exact (congrArg View.security0 (silent.view b)).symm.trans hs'
      | one => exact (congrArg View.security1 (silent.view b)).symm.trans hs'
  | newPeer a session => exact h.newPeer (fun _ _ => rfl) fun _ _ => rfl
  | accept a session empty => exact h.newPeer (fun _ _ => rfl) fun _ _ => rfl
  | asClient a => exact h.peer (fun _ _ => rfl) (fun _ _ => rfl) rfl fun _ _ => id
  | enter a s =>
      have heap : (setState a s w).2.heap = (w.setPeer a { w.heap a with state := s }).heap := rfl
      exact h.peer (fun _ _ => rfl) (fun _ _ => rfl) heap fun _ _ => id
  | send a slot s session type payload hs => exact h.send hs fits rfl
  | spend a slot s hs =>
      exact h.same (fun _ _ => rfl) (fun _ _ => rfl) fun b slot' s' hs' =>
        number_counted hs fits hs'
  | sendPlain session type payload =>
      exact h.same (fun _ _ => rfl) (fun _ _ => rfl) fun b slot s' hs' => ⟨s', hs', le_refl _⟩
  | next a s hs =>
      refine h.slotOne rfl (fun b slot i hi => ?_) fun _ _ => rfl
      rw [keyOrigin] at hi
      split at hi
      · cases hi
      · exact .inr ⟨‹_›, hi⟩
  | noNext a =>
      refine h.slotOne rfl (fun b slot i hi => ?_) fun _ _ => rfl
      rw [keyOrigin] at hi
      split at hi
      · cases hi
      · exact .inr ⟨‹_›, hi⟩
  | install a params preMaster keyed =>
      refine h.slotOne rfl (fun b slot i hi => ?_) fun _ _ => rfl
      rw [keyOrigin] at hi
      split at hi
      · rename_i one
        cases hi
        exact .inl ⟨one.1, one.2, rfl⟩
      · exact .inr ⟨‹_›, hi⟩
  | freeOther a =>
      refine h.peer (fun _ _ => rfl) (fun _ _ => rfl) rfl fun slot s hs => ?_
      rcases freeOther_cases (w.heap a) with same | dropped
      · rwa [same] at hs
      · rw [dropped] at hs
        cases slot with
        | zero => exact hs
        | one => cases hs
  | switch a =>
      refine h.keys (fun b slot => if a = b then slot.other else slot) (fun b slot slot' same => ?_)
        (fun b slot i hi => .inr ⟨hi, fun s' hs' => ⟨s', ?_, le_refl _⟩⟩) fun _ _ => rfl
      · split at same
        · cases slot <;> cases slot' <;> first | rfl | cases same
        · exact same
      · have heap : (dtlsSecurityParamsSwitch a w).2.heap = (w.setPeer a { w.heap a with
            security0 := (w.heap a).security1, security1 := (w.heap a).security0 }).heap := rfl
        rw [heap] at hs'
        by_cases hb : a = b
        · subst hb
          rw [if_pos rfl]
          rw [heap_setPeer] at hs'
          cases slot <;> exact hs'
        · rw [if_neg hb]
          rwa [heap_setPeer_ne _ fun e => hb e.symm] at hs'
  | index a bound => exact h.peer (fun _ _ => rfl) (fun _ _ => rfl) rfl fun _ _ => id

theorem numbered_nil : Numbered [] w where
  below _ _ _ _ hi := by cases hi
  apart _ _ _ _ hi := by cases hi
  known _ _ _ hi := by cases hi
  used _ _ _ := rfl
  fits _ _ := List.forall_mem_nil _
  ordered _ _ := .nil

/-- **RUN**: as long as the numbers fit. -/
theorem numbered_of_path {w₀ : World} (path : Path (Move env) w₀ l w)
    (fits : ∀ x ∈ l, NumberFits x) : Numbered l w := by
  induction path with
  | nil => exact numbered_nil
  | snoc _ last ih =>
      obtain ⟨here, before⟩ := List.forall_mem_cons.mp fits
      exact (ih before).step last here

/-- **NONCES**: every run is a run of moves; as long as the numbers of its records fit, all
    nonces under one key block differ. -/
theorem nonces_differ (env : Env) (w : World) (is : List Input) (h : Initial w) :
    (∃ l, Path (Move env) w l (runInputs env is w).2) ∧
      ∀ l, Path (Move env) w l (runInputs env is w).2 → (∀ x ∈ l, NumberFits x) →
        NoncesDiffer l := by
  obtain ⟨l, path, -⟩ := @moves_runInputs env w h is
  exact ⟨⟨l, path⟩, fun l path fits => (numbered_of_path path fits).noncesDiffer⟩

theorem nonces_differ_handshake :
    (∃ l, Path (Move sampleEnv) sampleWorld l (runInputs sampleEnv handshakeDone sampleWorld).2) ∧
      ∀ l, Path (Move sampleEnv) sampleWorld l (runInputs sampleEnv handshakeDone sampleWorld).2 →
        (∀ x ∈ l, NumberFits x) → NoncesDiffer l :=
  nonces_differ sampleEnv sampleWorld handshakeDone sampleWorld_initial

/-! ## The keys of the slots -/

/-- Slots with a cipher have keys of an installation. -/
def Originated (l : List (World × Op)) (w : World) : Prop :=
  ∀ a slot s, (w.heap a).security slot = some s → s.cipher ≠ tlsNullWithNullNull →
    (keyOrigin a l slot).isSome

/-- A write to one peer. -/
theorem Originated.peer {x : World × Op} {a : Addr} {p : Peer} (h : Originated l w)
    (heap : w'.heap = (w.setPeer a p).heap)
    (others : ∀ b slot, a ≠ b → keyOrigin b (x :: l) slot = keyOrigin b l slot)
    (here : ∀ slot s, p.security slot = some s → s.cipher ≠ tlsNullWithNullNull →
      (keyOrigin a (x :: l) slot).isSome) : Originated (x :: l) w' := by
  intro b slot s hs cipher
  rw [heap] at hs
  by_cases hb : b = a
  · subst hb
    rw [heap_setPeer] at hs
    exact here slot s hs cipher
  · rw [heap_setPeer_ne p hb] at hs
    rw [others b slot fun same => hb same.symm]
    exact h b slot s hs cipher

/-- A write that keeps the slots, or empties some. -/
theorem Originated.same {x : World × Op} {a : Addr} {p : Peer} (h : Originated l w)
    (heap : w'.heap = (w.setPeer a p).heap)
    (origin : ∀ b slot, keyOrigin b (x :: l) slot = keyOrigin b l slot)
    (slots : ∀ slot s, p.security slot = some s →
      ∃ s', (w.heap a).security slot = some s' ∧ s'.cipher = s.cipher) :
    Originated (x :: l) w' := by
  refine h.peer heap (fun b slot _ => origin b slot) fun slot s hs cipher => ?_
  obtain ⟨s', hs', same⟩ := slots slot s hs
  rw [origin]
  exact h a slot s' hs' (same ▸ cipher)

/-- A record does not change the cipher of its slot. -/
theorem cipher_countRecord {p : Peer} {slot slot' : Slot} {s s' : SecurityParameters}
    (hs : p.security slot = some s) (hs' : (p.countRecord s slot).security slot' = some s') :
    ∃ s₀, p.security slot' = some s₀ ∧ s₀.cipher = s'.cipher := by
  by_cases same : slot' = slot
  · subst same
    rw [security_countRecord] at hs'
    cases hs'
    exact ⟨s, hs, rfl⟩
  · cases slot <;> cases slot' <;> first | exact absurd rfl same | exact ⟨s', hs', rfl⟩

/-- Slot 1 is another one. -/
theorem Originated.slotOne {x : World × Op} {a : Addr} {p : Peer} (h : Originated l w)
    (zero : p.security0 = (w.heap a).security0)
    (origin : ∀ b slot, ¬ (a = b ∧ slot = .one) → keyOrigin b (x :: l) slot = keyOrigin b l slot)
    (one : ∀ s, p.security1 = some s → s.cipher ≠ tlsNullWithNullNull →
      (keyOrigin a (x :: l) .one).isSome) : Originated (x :: l) (w.setPeer a p) := by
  refine h.peer rfl (fun b slot other => origin b slot fun same => other same.1)
    fun slot s hs cipher => ?_
  cases slot with
  | zero =>
      rw [origin a .zero fun same => by cases same.2]
      exact h a .zero s (zero.symm.trans hs) cipher
  | one => exact one s hs cipher

/-- **STEP**: a cipher comes with an installation. -/
theorem Originated.step {op : Op} (move : Move env w op w') (h : Originated l w) :
    Originated ((w, op) :: l) w' := by
  cases move with
  | quiet silent =>
      intro b slot s hs cipher
      cases slot with
      | zero => exact h b .zero s ((congrArg View.security0 (silent.view b)).symm.trans hs) cipher
      | one => exact h b .one s ((congrArg View.security1 (silent.view b)).symm.trans hs) cipher
  | newPeer a session =>
      refine h.peer rfl (fun b slot other => if_neg other) fun slot s hs cipher => ?_
      cases slot <;> cases hs
      exact absurd rfl cipher
  | accept a session empty =>
      refine h.peer rfl (fun b slot other => if_neg other) fun slot s hs cipher => ?_
      cases slot <;> cases hs
      exact absurd rfl cipher
  | asClient a => exact h.same rfl (fun _ _ => rfl) fun slot s hs => ⟨s, hs, rfl⟩
  | enter a s =>
      have heap : (setState a s w).2.heap = (w.setPeer a { w.heap a with state := s }).heap := rfl
      exact h.same heap (fun _ _ => rfl) fun slot s hs => ⟨s, hs, rfl⟩
  | send a slot s session type payload hs =>
      have heap : ∀ d, ((w.setPeer a ((w.heap a).countRecord s slot)).wrote session type payload
          d).heap = (w.setPeer a ((w.heap a).countRecord s slot)).heap := fun _ => rfl
      exact h.same (heap _) (fun _ _ => rfl) fun slot' s' => cipher_countRecord hs
  | spend a slot s hs => exact h.same rfl (fun _ _ => rfl) fun slot' s' => cipher_countRecord hs
  | sendPlain session type payload => exact fun b slot s hs cipher => h b slot s hs cipher
  | next a s hs =>
      refine h.slotOne rfl (fun b slot other => if_neg other) fun s' hs' cipher => ?_
      cases hs'
      exact absurd rfl cipher
  | noNext a =>
      refine h.slotOne rfl (fun b slot other => if_neg other) fun s' hs' _ => ?_
      cases hs'
  | install a params preMaster keyed =>
      refine h.slotOne rfl (fun b slot other => if_neg other) fun s' hs' _ => ?_
      rw [keyOrigin, if_pos ⟨rfl, rfl⟩]
      rfl
  | freeOther a =>
      refine h.same rfl (fun _ _ => rfl) fun slot s hs => ⟨s, ?_, rfl⟩
      rcases freeOther_cases (w.heap a) with same | dropped
      · rwa [same] at hs
      · rw [dropped] at hs
        cases slot with
        | zero => exact hs
        | one => cases hs
  | switch a =>
      have heap : (dtlsSecurityParamsSwitch a w).2.heap = (w.setPeer a { w.heap a with
          security0 := (w.heap a).security1, security1 := (w.heap a).security0 }).heap := rfl
      refine h.peer heap (fun b slot other => ?_) fun slot s hs cipher => ?_
      · rw [keyOrigin, if_neg other]
      · rw [keyOrigin, if_pos rfl]
        cases slot with
        | zero => exact h a .one s hs cipher
        | one => exact h a .zero s hs cipher
  | index a bound => exact h.same rfl (fun _ _ => rfl) fun slot s hs => ⟨s, hs, rfl⟩

/-- **RUN**: in a run from the start. -/
theorem originated_of_path {w₀ : World} (path : Path (Move env) w₀ l w) (h : Initial w₀) :
    Originated l w := by
  induction path with
  | nil =>
      intro a slot s hs cipher
      obtain ⟨session, empty⟩ := h.heap a
      rw [empty] at hs
      cases slot <;> cases hs
      exact absurd rfl cipher
  | snoc _ last ih => exact ih.step last

/-! ## A ClientHello, again and again -/

/-- A ClientHello without a cookie. -/
def barePskHello : Bytes :=
  dtlsIntToUint16 dtlsVersion ++ List.replicate 32 0 ++ [0, 0] ++ dtlsIntToUint16 2 ++
    dtlsIntToUint16 tlsPskWithAes128Ccm8 ++ [1, 0]

/-- It is sent by the client that is connected. -/
def helloRecord : Bytes :=
  sealed sampleEnv.prims .client { sampleSecurity with rseq := 1 } dtlsCtHandshake
    (wholeMessage dtlsHtClientHello 0 barePskHello)

/-- The server has answered one of them. -/
def greetedWorld : World :=
  (runInputs sampleEnv (handshakeDone ++ [arrival (sampleSession 0) helloRecord]) sampleWorld).2

/-- The parameters of the connection, before the record `k`. -/
def securityAt (k : Nat) : SecurityParameters := { sampleSecurity with rseq := k }

/-- A connected server whose next record has the number `k`. -/
structure Greeted (k : Nat) (w : World) : Prop where
  peers : w.peers = [0]
  session : (w.heap 0).session = sampleSession 0
  role : (w.heap 0).role = .server
  state : (w.heap 0).state = .connected
  params : (w.heap 0).handshakeParams = none
  zero : (w.heap 0).security0 = some (securityAt k)
  one : (w.heap 0).security1 = none
  owned : Owned w.sendqueue

theorem greetedWorld_facts :
    (runInputs sampleEnv (handshakeDone ++ [arrival (sampleSession 0) helloRecord])
        sampleWorld).1 = .ok () ∧
      greetedWorld.peers = [0] ∧ (greetedWorld.heap 0).session = sampleSession 0 ∧
      (greetedWorld.heap 0).role = .server ∧ (greetedWorld.heap 0).state = .connected ∧
      (greetedWorld.heap 0).handshakeParams.isNone = true ∧
      (greetedWorld.heap 0).security0.map (fun s => (s.compression, s.cipher, s.epoch, s.rseq,
        s.keyBlock)) = some (sampleSecurity.compression, sampleSecurity.cipher,
          sampleSecurity.epoch, 2, sampleSecurity.keyBlock) ∧
      (greetedWorld.heap 0).security1.isNone = true ∧ greetedWorld.sendqueue.isEmpty = true := by
  decide +kernel

theorem greetedWorld_greeted : Greeted 2 greetedWorld := by
  obtain ⟨-, peers, session, role, state, params, zero, one, queue⟩ := greetedWorld_facts
  refine ⟨peers, session, role, state, Option.isNone_iff_eq_none.mp params, ?_,
    Option.isNone_iff_eq_none.mp one, ?_⟩
  · obtain ⟨s, hs, fields⟩ := Option.map_eq_some_iff.mp zero
    rw [hs]
    cases s
    cases fields
    rfl
  · rw [List.isEmpty_iff.mp queue]
    exact fun _ hn => by cases hn

/-- Nothing is seen of it, and a connected server stays as it is. -/
structure Held (w w' : World) : Prop where
  silent : Silent w w'
  greeted : ∀ k, Greeted k w → Greeted k w'

instance : IsPreorder World Held where
  refl w := ⟨refl_of Silent w, fun _ => id⟩
  trans _ _ _ h h' :=
    ⟨trans_of Silent h.silent h'.silent, fun k hk => h'.greeted k (h.greeted k hk)⟩

theorem Held.around (heap : w'.heap = w.heap) (peers : w'.peers = w.peers)
    (log : ∃ l, w'.log = l ++ w.log ∧ ∀ e ∈ l, e.hidden)
    (owned : Owned w.sendqueue → Owned w'.sendqueue) : Held w w' where
  silent := ⟨fun a => by rw [heap], log⟩
  greeted k h := ⟨peers.trans h.peers, heap ▸ h.session, heap ▸ h.role, heap ▸ h.state,
    heap ▸ h.params, heap ▸ h.zero, heap ▸ h.one, owned h.owned⟩

theorem Held.emitted (w : World) {e : Event} (hidden : e.hidden) : Held w (w.emitted e) :=
  .around rfl rfl ⟨[e], rfl, fun e' he => by rwa [List.mem_singleton.mp he]⟩ id

/-- A write that changes nothing. -/
theorem Held.setPeer {p : Peer} (h : p = w.heap 0) : Held w (w.setPeer 0 p) := by
  subst h
  have heap : (w.setPeer 0 (w.heap 0)).heap = w.heap := Function.update_eq_self _ _
  exact .around heap rfl ⟨[], rfl, List.forall_mem_nil _⟩ id

/-- What the server makes of the record. -/
def openedHello : Opened :=
  openRecord sampleEnv.prims .server sampleSecurity (Ptr.ofBytes helloRecord) helloRecord.length

theorem openedHello_facts :
    isRecord (Ptr.ofBytes helloRecord) helloRecord.length = helloRecord.length ∧
      dtlsGetEpoch (Ptr.ofBytes helloRecord) = 1 ∧ openedHello.verified = true ∧
      dtlsHsLength ≤ openedHello.length.toNat ∧ ¬ openedHello.length < 0 ∧
      openedHello.packet.uint8 = dtlsCtHandshake ∧ dtlsGetEpoch openedHello.packet = 1 ∧
      (handshakeHeader openedHello.data).length
        = (handshakeHeader openedHello.data).fragmentLength ∧
      (handshakeHeader openedHello.data).msgType = dtlsHtClientHello ∧
      openedHello.data.uint8 = dtlsHtClientHello ∧
      (cookieInput (sampleSession 0) openedHello.data
        openedHello.length.toNat).toOption.join.isSome = true ∧
      (dtlsGetCookie openedHello.data openedHello.length.toNat).toOption.map Prod.fst = some 0 := by
  decide +kernel

variable {k : Nat}

theorem Greeted.found (h : Greeted k w) : dtlsGetPeer (sampleSession 0) w = (.ok (some 0), w) := by
  have same : dtlsSessionEquals (sampleSession 0) (sampleSession 0) = true := by decide +kernel
  simp only [dtlsGetPeer, Program.gets_apply, h.peers, List.find?_cons, h.session, same]

/-- The number of the next record does not matter. -/
theorem Greeted.decrypt (h : Greeted k w) :
    decryptPacket sampleEnv.prims (w.heap 0) (Ptr.ofBytes helloRecord) helloRecord.length
      = openedHello := by
  have epoch : dtlsSecurityParamsEpoch (w.heap 0) 1 = some .zero := by
    rw [dtlsSecurityParamsEpoch, h.zero]
    rfl
  rw [decryptPacket, openedHello_facts.2.1, epoch, Option.bind_some, Peer.security, h.zero, h.role]
  rfl

/-- The record is opened, and nothing changes. -/
theorem Greeted.opened (h : Greeted k w) :
    ∃ w', openPeerRecord sampleEnv (some 0) (Ptr.ofBytes helloRecord) helloRecord.length w
        = (.ok (.ok ⟨openedHello.packet, openedHello.data, openedHello.length.toNat, .server,
            .connected⟩), w') ∧ Held w w' := by
  obtain ⟨-, -, verified, -, length, -⟩ := openedHello_facts
  have other : (w.heap 0).freeOther = w.heap 0 := by
    simp only [Peer.freeOther, h.zero, h.one]
  have held : Held w (w.setPeer 0 (w.heap 0).freeOther) := .setPeer other
  have after := held.greeted k h
  refine ⟨_, ?_, held⟩
  have run : decryptVerify sampleEnv 0 (Ptr.ofBytes helloRecord) helloRecord.length w
      = (.ok openedHello, w.setPeer 0 (w.heap 0).freeOther) := by
    rw [decryptVerify, getPeer_bind, h.decrypt, when, if_pos verified]
    rfl
  simp only [openPeerRecord]
  rw [Program.bind_ok run, getPeer_bind, if_neg length, after.role, after.state]
  rfl

/-- It is of the epoch of the peer. -/
theorem Greeted.epoch (h : Greeted k w) (r : OpenRecord) (role : r.role = .server)
    (state : r.state = .connected) (epoch : dtlsGetEpoch r.msg = 1) :
    checkEpoch (some 0) r w = (.ok (some r), w) := by
  have expected : expectedEpoch (securityAt k) r.role r.state
      = dtlsGetEpoch r.msg := by
    rw [role, state, epoch]
    rfl
  simp only [checkEpoch]
  rw [getPeer_bind, h.zero]
  simp only
  rw [if_pos expected]
  rfl

/-- Nothing stops at the queue. -/
theorem Greeted.stopRetransmission (h : Greeted k w) :
    ∃ w', dtlsStopRetransmission 0 w = (.ok (), w') ∧ Held w w' := by
  have queued : ¬ (w.sendqueue.any (·.peer.isNone) = true) := by
    rw [List.any_eq_true]
    rintro ⟨n, hn, hnone⟩
    have hsome := h.owned n hn
    rw [Option.isNone_iff_eq_none.mp hnone] at hsome
    cases hsome
  rw [dtlsStopRetransmission, Program.get_bind, if_neg queued]
  refine ⟨_, rfl, .around rfl rfl ⟨[], rfl, List.forall_mem_nil _⟩ fun owned n hn => ?_⟩
  exact owned n (List.mem_of_mem_filter hn)

/-- The cookie is computed, and there is none to compare it with. -/
theorem openedHello_cookie (w : World) : ∃ cookie,
    dtlsCreateCookie sampleEnv (sampleSession 0) openedHello.data openedHello.length.toNat w
      = (.ok (.ok cookie), w) ∧ cookie.length = dtlsCookieLength := by
  obtain ⟨-, -, -, -, -, -, -, -, -, -, present, -⟩ := openedHello_facts
  rcases createCookie_cases sampleEnv w (sampleSession 0) openedHello.data
    openedHello.length.toNat with ⟨cookie, _, -, run, length⟩ | ⟨err, run, -⟩ | run
  · exact ⟨cookie, run, length⟩
  all_goals
    unfold dtlsCreateCookie at run
    rcases hin : cookieInput (sampleSession 0) openedHello.data openedHello.length.toNat
      with err | input
    · rw [hin] at present
      cases present
    · cases input with
      | none =>
          rw [hin] at present
          cases present
      | some input =>
          rw [hin] at run
          cases run

/-- **THE ANSWER** is a record under the keys of the peer. -/
theorem Greeted.verify (h : Greeted k w) : ∃ (n : Nat) (payload : Bytes) (w' : World),
    dtlsVerifyPeer sampleEnv (some 0) (sampleSession 0) .connected openedHello.data
        openedHello.length.toNat w = (.ok n, w') ∧ 0 < n ∧
      Held ((w.counted 0 (securityAt k)).wrote (sampleSession 0) dtlsCtHandshake
        payload (sealed sampleEnv.prims (w.heap 0).role (securityAt k)
          dtlsCtHandshake payload)) w' := by
  obtain ⟨-, -, -, -, -, -, -, -, -, -, -, bare⟩ := openedHello_facts
  obtain ⟨cookie, run, length⟩ := openedHello_cookie w
  obtain ⟨⟨len, ptr⟩, get, rfl⟩ := Option.map_eq_some_iff.mp bare
  have get : dtlsGetCookie openedHello.data openedHello.length.toNat = .ok (0, ptr) := by
    rcases hget : dtlsGetCookie openedHello.data openedHello.length.toNat with err | r
    · rw [hget] at get
      cases get
    · rw [hget] at get
      exact congrArg _ (Option.some.inj get)
  have other : ¬ (0 = dtlsCookieLength ∧ ptr.bytes 0 = cookie) := fun same =>
    absurd same.1 (by decide)
  have short : (helloVerify cookie).length < dtlsMaxHsPayload := by
    rw [helloVerify, List.length_append, List.length_append, length]
    decide
  obtain ⟨t, q, tick, sent, owned⟩ := @sendShort_eq sampleEnv w 0 _ (helloVerify cookie)
    (sampleSession 0) dtlsHtHelloVerifyRequest h.zero short
  have uncounted : w.countedMessage (some 0) = w := by
    simp only [World.countedMessage, h.params]
  have write (d : Bytes) : sampleEnv.write tick (sampleSession 0) d = d.length := rfl
  rw [uncounted, write, sentLength_all _ (by rw [length_sealed]; omega)] at sent
  have answered : dtlsVerifyPeer sampleEnv (some 0) (sampleSession 0) .connected openedHello.data
      openedHello.length.toNat w = dtlsSendHandshakeMsgHash sampleEnv (some 0) (sampleSession 0)
        dtlsHtHelloVerifyRequest (helloVerify cookie) false w := by
    rw [dtlsVerifyPeer, Program.bind_ok run]
    simp only [get]
    rw [if_neg other, if_pos trivial]
  refine ⟨_, wholeMessage dtlsHtHelloVerifyRequest (nextSeq w (some 0)) (helloVerify cookie), _,
    answered.trans sent, ?_, .around rfl rfl ⟨[], rfl, List.forall_mem_nil _⟩ owned⟩
  rw [wholeMessage, List.length_append, length_messageHeader]
  omega

/-- What the next record does to the peer. -/
theorem Greeted.counted (h : Greeted k w) (hk : k + 1 < 2 ^ 64) (type : Nat) (payload d : Bytes) :
    Greeted (k + 1) ((w.counted 0 (securityAt k)).wrote (sampleSession 0) type payload d) := by
  have heap : ((w.counted 0 (securityAt k)).wrote (sampleSession 0) type payload d).heap 0
      = { w.heap 0 with security0 := some (securityAt (k + 1)) } := by
    have next : (securityAt k).rseq + 1 = (k + 1) % 2 ^ 64 := (Nat.mod_eq_of_lt hk).symm
    show (w.counted 0 (securityAt k)).heap 0 = _
    rw [World.counted, heap_setPeer, next, Nat.mod_mod, Nat.mod_eq_of_lt hk]
    rfl
  refine ⟨h.peers, ?_, ?_, ?_, ?_, ?_, ?_, h.owned⟩ <;> rw [heap]
  exacts [h.session, h.role, h.state, h.params, h.one]

/-- The message is answered with one record. -/
theorem Greeted.handled (h : Greeted k w) (hk : k + 1 < 2 ^ 64) :
    ∃ (n : Nat) (w₁ : World) (payload : Bytes) (w₂ : World),
      handleHandshake sampleEnv (some 0) (sampleSession 0) .server .connected openedHello.data
          openedHello.length.toNat w = (.ok n, w₂) ∧
        Held w w₁ ∧
        Held ((w₁.counted 0 (securityAt k)).wrote (sampleSession 0) dtlsCtHandshake payload
          (sealed sampleEnv.prims (w₁.heap 0).role (securityAt k) dtlsCtHandshake payload)) w₂ := by
  obtain ⟨-, -, -, long, -, -, -, whole, hello, type, -⟩ := openedHello_facts
  have told := Held.emitted w (e := .message ⟨some 0, .server, .connected,
    (some (0 : Addr)).map w.heap, openedHello.data, openedHello.length.toNat⟩) trivial
  obtain ⟨w₁, stopped, stoppedHeld⟩ := (told.greeted k h).stopRetransmission
  have greeted := stoppedHeld.greeted k (told.greeted k h)
  obtain ⟨n, payload, w₂, verify, positive, answered⟩ := greeted.verify
  have after := answered.greeted _ (greeted.counted hk dtlsCtHandshake payload _)
  have uncounted : (w₂.heap 0).countMessage = w₂.heap 0 := by
    have params := after.params
    cases hp : w₂.heap 0
    rw [hp] at params
    simp only at params
    subst params
    rfl
  have dispatched : dispatchMessage sampleEnv (some 0) (sampleSession 0) .server .connected
      openedHello.data openedHello.length.toNat w₁ = (.ok (.done (some 0) n), w₂) := by
    have only : dispatchMessage sampleEnv (some 0) (sampleSession 0) .server .connected
        openedHello.data openedHello.length.toNat = handleClientHello sampleEnv (some 0)
          (sampleSession 0) .connected openedHello.data openedHello.length.toNat := by
      unfold dispatchMessage
      rw [type]
      rfl
    rw [only, handleClientHello, if_neg (by simp), Program.bind_ok verify,
      if_neg (by omega), if_pos (by omega)]
    rfl
  have finished : finishMessage (.done (some 0) n) w₂
      = (.ok (n : Int), w₂.setPeer 0 (w₂.heap 0).countMessage) := by
    rw [finishMessage, when, if_pos (by omega)]
    rfl
  have ends : Held w₂ ((w₂.setPeer 0 (w₂.heap 0).countMessage).emitted (.handled n)) :=
    trans_of Held (.setPeer uncounted) (Held.emitted _ (e := .handled n) trivial)
  refine ⟨n, w₁, payload, _, ?_, trans_of Held told stoppedHeld, trans_of Held answered ends⟩
  have outside : handleHandshake sampleEnv (some 0) (sampleSession 0) .server .connected
      openedHello.data openedHello.length.toNat w = handleHandshakeMsg sampleEnv (some 0)
        (sampleSession 0) .server .connected openedHello.data openedHello.length.toNat w := by
    rw [handleHandshake, if_neg (not_lt.mpr long), if_neg (not_lt.mpr whole.le)]
    simp only [handleWhole]
    rw [getPeer_bind, h.params]
    simp only [handleOutside]
    rw [if_neg fun other => absurd hello other.1, if_pos (.inl hello)]
  rw [outside, handleHandshakeMsg, Program.gets_bind, emit_bind]
  simp only [stopRetransmissionOf]
  rw [Program.bind_ok stopped, Program.bind_ok dispatched, Program.bind_ok finished, emit_bind]
  rfl

/-- **ONE CLIENTHELLO**: the server writes one record, and goes on with the next number. -/
theorem Greeted.hello (h : Greeted k w) (hk : k + 1 < 2 ^ 64) :
    ∃ (w₁ : World) (payload : Bytes) (w₂ : World),
      dtlsHandleMessage sampleEnv (sampleSession 0) (Ptr.ofBytes helloRecord) helloRecord.length w
          = (.ok 0, w₂) ∧
        Greeted (k + 1) w₂ ∧ Silent w w₁ ∧ (w₁.heap 0).security .zero = some (securityAt k) ∧
        Silent ((w₁.setPeer 0 ((w₁.heap 0).countRecord (securityAt k) .zero)).wrote
          (sampleSession 0) dtlsCtHandshake payload (sealed sampleEnv.prims (w₁.heap 0).role
            (securityAt k) dtlsCtHandshake payload)) w₂ := by
  obtain ⟨record, -, -, -, -, type, epoch, -⟩ := openedHello_facts
  have told := Held.emitted w (e := .record ⟨some 0, (some (0 : Addr)).map w.heap,
    Ptr.ofBytes helloRecord, helloRecord.length⟩) trivial
  obtain ⟨w₀, opened, openedHeld⟩ := (told.greeted k h).opened
  have openedHeld : Held w w₀ := trans_of Held told openedHeld
  have greeted := openedHeld.greeted k h
  obtain ⟨n, w₁, payload, w₂, handled, before, after⟩ := greeted.handled hk
  have greeted₁ := before.greeted k greeted
  have greeted₂ := after.greeted _ (greeted₁.counted hk dtlsCtHandshake payload _)
  obtain ⟨w₃, stopped, stoppedHeld⟩ := greeted₂.stopRetransmission
  have ends : Held w₂ (w₃.emitted (.event (w₂.heap 0).session 0 dtlsEventConnected)) :=
    trans_of Held stoppedHeld
      (Held.emitted _ (e := .event (w₂.heap 0).session 0 dtlsEventConnected) trivial)
  refine ⟨w₁, payload, _, ?_, ends.greeted _ greeted₂, (trans_of Held openedHeld before).silent,
    greeted₁.zero, (trans_of Held after ends).silent⟩
  have connected : handshakeHandled sampleEnv (some 0) (sampleSession 0) n w₂
      = (.ok none, w₃.emitted (.event (w₂.heap 0).session 0 dtlsEventConnected)) := by
    have whole : ¬ ((n : Int) = dtlsHsFragmented) := by
      have fragmented : dtlsHsFragmented = -244 := rfl
      omega
    simp only [handshakeHandled]
    rw [if_neg whole, if_neg (by omega), getPeer_bind, when, if_pos greeted₂.state, bind_assoc,
      Program.bind_ok stopped]
    rfl
  have dispatched : dispatchRecord sampleEnv (some 0) (sampleSession 0) ⟨openedHello.packet,
      openedHello.data, openedHello.length.toNat, .server, .connected⟩ w₀
      = (.ok none, w₃.emitted (.event (w₂.heap 0).session 0 dtlsEventConnected)) := by
    have only : dispatchRecord sampleEnv (some 0) (sampleSession 0) ⟨openedHello.packet,
        openedHello.data, openedHello.length.toNat, .server, .connected⟩
        = handleHandshakeRecord sampleEnv (some 0) (sampleSession 0) ⟨openedHello.packet,
          openedHello.data, openedHello.length.toNat, .server, .connected⟩ := by
      unfold dispatchRecord
      simp only
      rw [type]
      rfl
    rw [only, handleHandshakeRecord, Program.bind_ok (greeted.epoch _ rfl rfl epoch)]
    simp only
    rw [Program.bind_ok handled, connected]
  rw [handleMessage_first h.found, handleRecords, record, if_neg (by decide), handleRecord,
    bind_assoc, Program.gets_bind, bind_assoc, emit_bind, bind_assoc, Program.bind_ok opened]
  simp only
  rw [bind_assoc, Program.bind_ok dispatched]
  -- nothing follows the record
  have done (fuel : Nat) (msg : Ptr) (v : World) :
      handleRecords sampleEnv (some 0) (sampleSession 0) fuel msg
        (helloRecord.length - helloRecord.length) v = (.ok 0, v) := by
    cases fuel with
    | zero => rfl
    | succ fuel =>
        rw [Nat.sub_self, handleRecords]
        rfl
  exact done _ _ _

/-- **RUN**: as long as ClientHellos come, each is answered under the keys in slot 0, with the
    next number. -/
theorem Greeted.hellos (n : Nat) (h : Greeted k w) (hk : k + n < 2 ^ 64) :
    ∃ l, Path (Move sampleEnv) w l (runInputs sampleEnv
        (List.replicate n (arrival (sampleSession 0) helloRecord)) w).2 ∧
      ∀ i past, keyOrigin 0 past .zero = some i →
        keyOrigin 0 (l ++ past) .zero = some i ∧
        recordsUnder 0 i (l ++ past)
          = ((List.range' k n).map securityAt).reverse ++ recordsUnder 0 i past := by
  induction n generalizing w k with
  | zero => exact ⟨[], .nil, fun i past hi => ⟨hi, rfl⟩⟩
  | succ n ih =>
      obtain ⟨w₁, payload, w₂, run, greeted, before, number, after⟩ := h.hello (by omega)
      obtain ⟨l, path, hl⟩ := ih greeted (by omega)
      have input : runInput sampleEnv (arrival (sampleSession 0) helloRecord) w = (.ok (), w₂) := by
        rw [arrival, runInput, Program.bind_ok run]
        rfl
      have one : ∃ l, Path (Move sampleEnv) w l w₂ ∧ ∀ i past, keyOrigin 0 past .zero = some i →
          keyOrigin 0 (l ++ past) .zero = some i ∧
            recordsUnder 0 i (l ++ past) = securityAt k :: recordsUnder 0 i past := by
        refine ⟨_, .snoc (.snoc (.snoc .nil (.quiet before)) (.send w₁ 0 .zero _ _ _ _ number))
          (.quiet after), fun i past hi => ⟨hi, ?_⟩⟩
        exact if_pos ⟨rfl, hi⟩
      obtain ⟨l₁, path₁, hl₁⟩ := one
      refine ⟨l ++ l₁, ?_, fun i past hi => ?_⟩
      · rw [List.replicate_succ, runInputs, Program.bind_ok input]
        exact path₁.append path
      · obtain ⟨origin₁, records₁⟩ := hl₁ i past hi
        obtain ⟨origin, records⟩ := hl i (l₁ ++ past) origin₁
        rw [List.append_assoc]
        refine ⟨origin, ?_⟩
        rw [records, records₁, List.range'_succ, List.map_cons, List.reverse_cons,
          List.append_assoc, List.singleton_append]

theorem runInputs_append (env : Env) (is js : List Input) :
    runInputs env (is ++ js) = runInputs env is >>= fun _ => runInputs env js := by
  induction is with
  | nil => rfl
  | cons i is ih =>
      rw [List.cons_append, runInputs, runInputs, bind_assoc]
      simp only [ih]

/-- The numbers of the records come around after 2^48 of them. -/
theorem explicitNonce_repeats : explicitNonce (securityAt (2 + 2 ^ 48)) = explicitNonce
    (securityAt 2) := by
  decide

/-- A handshake, and ClientHellos under its keys. -/
def hellosReceived (n : Nat) : List Input :=
  (handshakeDone ++ [arrival (sampleSession 0) helloRecord]) ++
    List.replicate n (arrival (sampleSession 0) helloRecord)

theorem hellosReceived_records (n : Nat) (hn : 2 + n < 2 ^ 64) :
    ∃ l i rest, Path (Move sampleEnv) sampleWorld l
        (runInputs sampleEnv (hellosReceived n) sampleWorld).2 ∧
      recordsUnder 0 i l = ((List.range' 2 n).map securityAt).reverse ++ rest := by
  obtain ⟨past, path, -⟩ := @moves_runInputs sampleEnv sampleWorld sampleWorld_initial
    (handshakeDone ++ [arrival (sampleSession 0) helloRecord])
  have path : Path (Move sampleEnv) sampleWorld past greetedWorld := path
  have originated := originated_of_path path sampleWorld_initial
  have zero : (greetedWorld.heap 0).security .zero = some (securityAt 2) :=
    greetedWorld_greeted.zero
  obtain ⟨i, hi⟩ := Option.isSome_iff_exists.mp (originated 0 .zero _ zero (by decide))
  obtain ⟨l, path', hl⟩ := greetedWorld_greeted.hellos n hn
  have first : runInputs sampleEnv (handshakeDone ++ [arrival (sampleSession 0) helloRecord])
      sampleWorld = (.ok (), greetedWorld) :=
    Prod.ext greetedWorld_facts.1 (by rw [greetedWorld])
  refine ⟨l ++ past, i, recordsUnder 0 i past, ?_, (hl i past hi).2⟩
  rw [hellosReceived, runInputs_append, Program.bind_ok first]
  exact path.append path'

/-- **NONCES REPEAT** when 2^48 ClientHellos are answered under one key block. -/
theorem nonces_repeat :
    ¬ ∀ (env : Env) (w : World) (is : List Input), Initial w →
        ∀ l, Path (Move env) w l (runInputs env is w).2 → NoncesDiffer l := by
  intro h
  obtain ⟨l, i, rest, path, records⟩ := hellosReceived_records (2 ^ 48 + 1) (by omega)
  have nonces := h sampleEnv sampleWorld _ sampleWorld_initial l path 0 i
  rw [records] at nonces
  have ordered := List.pairwise_reverse.mp (List.pairwise_append.mp nonces).1
  rw [List.range'_succ, List.map_cons, List.pairwise_cons] at ordered
  have last : securityAt (2 + 2 ^ 48) ∈ (List.range' (2 + 1) (2 ^ 48)).map securityAt :=
    List.mem_map_of_mem (List.mem_range'_1.mpr ⟨by omega, by omega⟩)
  exact (ordered.1 _ last).1 explicitNonce_repeats

end PqDtls.Dtls
