import PqDtls.Lib.Walk
import PqDtls.Dtls.Hello

/-! # The extensions of a hello

    What `dtls_check_tls_extension` reads of a block, and what it accepts, against the
    grammar of such blocks.  The length of the list is compared with the block once, and
    then the block itself is split; the inner checks read before they look at the length
    they are given, and the last item of a list may be one byte that is taken for two.
    **`extensionsChecked_iff`** says when this makes no difference. -/

namespace PqDtls.Dtls

open Walk

variable {clientHello : Bool} {data list : Ptr} {len n off : Nat} {width value : Nat}

/-! ## The grammar -/

/-- An extension in its block: `room` bytes of the block begin with its value. -/
structure Extension where
  type : Nat
  value : Ptr
  length : Nat
  room : Nat

/-- The extension at the start of `len` bytes. -/
def nextExtension (data : Ptr) (len : Nat) : Extension :=
  ⟨data.uint16, data.add 4, (data.add 2).uint16, len - 4⟩

/-- `len` bytes consist of these extensions. -/
inductive Splits : Ptr → Nat → List Extension → Prop
  | nil (data : Ptr) : Splits data 0 []
  | cons {data : Ptr} {len : Nat} {es : List Extension} : 4 ≤ len →
      (data.add 2).uint16 ≤ len - 4 →
      Splits (data.add (4 + (data.add 2).uint16)) (len - 4 - (data.add 2).uint16) es →
      Splits data len (nextExtension data len :: es)

/-- What there is to check in an extension: a list of items of `width` bytes that has to
    contain a value, the one certificate type in a ServerHello, or nothing. -/
inductive ExtensionKind
  | list (width value : Nat)
  | certType
  | skipped

def Extension.kind (e : Extension) (clientHello : Bool) : ExtensionKind :=
  if e.type = tlsExtEllipticCurves then .list 2 tlsExtEllipticCurvesSecp256r1
  else if e.type = tlsExtClientCertificateType ∨ e.type = tlsExtServerCertificateType then
    if clientHello then .list 1 tlsCertTypeRawPublicKey else .certType
  else if e.type = tlsExtEcPointFormats then .list 1 tlsExtEcPointFormatsUncompressed
  else .skipped

/-- The length in front of a list. -/
def listLength (list : Ptr) (width : Nat) : Nat := bytesToInt (list.bytes width)

/-- An item of a list. -/
def listItem (list : Ptr) (width k : Nat) : Nat :=
  bytesToInt ((list.add (width + width * k)).bytes width)

/-- A whole item of the first `length` bytes is the value. -/
def HasItem (list : Ptr) (width value length : Nat) : Prop :=
  ∃ k, width + width * (k + 1) ≤ length ∧ listItem list width k = value

/-- The inner length is right, and something that is supported is there. -/
def Extension.WellFormed (e : Extension) (clientHello : Bool) : Prop :=
  match e.kind clientHello with
  | .list width value => listLength e.value width + width = e.length ∧
      HasItem e.value width value e.length
  | .certType => 1 ≤ e.length ∧ e.value.uint8 = tlsCertTypeRawPublicKey
  | .skipped => True

/-- The types that the suite asks for. -/
def Required (cipher : Nat) (clientHello : Bool) (es : List Extension) : Prop :=
  isTlsEcdheEcdsaWithAes128Ccm8 cipher = true →
    (∃ e ∈ es, e.type = tlsExtClientCertificateType) ∧
    (∃ e ∈ es, e.type = tlsExtServerCertificateType) ∧
    (clientHello = true → (∃ e ∈ es, e.type = tlsExtEllipticCurves) ∧
      ∃ e ∈ es, e.type = tlsExtEcPointFormats)

/-- The grammar of a block of extensions. -/
def Grammar (cipher : Nat) (data : Ptr) (n : Nat) (clientHello : Bool) : Prop :=
  (n < 2 ∧ isTlsPskWithAes128Ccm8 cipher = true) ∨
    (2 ≤ n ∧ data.uint16 = n - 2 ∧ ∃ es, Splits (data.add 2) (n - 2) es ∧
      (∀ e ∈ es, e.WellFormed clientHello) ∧ Required cipher clientHello es)

/-! ## What is read -/

/-- The items of a list, up to the value; `count` are left, from the `k`th one on. -/
def itemReads (width value : Nat) (list : Ptr) (off : Nat) : Nat → Nat → List Access
  | 0, _ => []
  | count + 1, k =>
      ⟨(off + (width + width * k) : Nat), width⟩ ::
        if listItem list width k = value then [] else itemReads width value list off count (k + 1)

/-- How many items the loop goes through: as many as begin in the list. -/
def itemCount (width length : Nat) : Nat := (length - width + (width - 1)) / width

/-- The reads of the check of an extension whose value is at `off`. -/
def Extension.reads (e : Extension) (clientHello : Bool) (off : Nat) : List Access :=
  match e.kind clientHello with
  | .list width value => ⟨off, width⟩ ::
      if listLength e.value width + width ≠ e.length then []
      else itemReads width value e.value off (itemCount width e.length) 0
  | .certType => [⟨off, 1⟩]
  | .skipped => []

/-- Does the extension pass its check? -/
def Extension.passes (e : Extension) (clientHello : Bool) : Bool :=
  match e.kind clientHello with
  | .list width value => verifyExtList width value e.value e.length = 0
  | .certType => e.value.uint8 = tlsCertTypeRawPublicKey
  | .skipped => true

/-- The reads of the loop, from `off` on. -/
def loopReads (clientHello : Bool) : Nat → Ptr → Nat → Nat → List Access
  | 0, _, _, _ => []
  | fuel + 1, data, off, len =>
      if len < 4 then []
      else
        let e := nextExtension data len
        ⟨off, 2⟩ :: ⟨(off + 2 : Nat), 2⟩ ::
          if len - 4 < e.length then []
          else e.reads clientHello (off + 4) ++
            if e.passes clientHello then
              loopReads clientHello fuel (data.add (4 + e.length)) (off + 4 + e.length)
                (len - 4 - e.length)
            else []

/-- The reads of `dtls_check_tls_extension` in a block of `n` bytes. -/
def blockReads (data : Ptr) (n : Nat) (clientHello : Bool) : List Access :=
  if n < 2 then []
  else ⟨0, 2⟩ ::
    if n - 2 < data.uint16 then [] else loopReads clientHello n (data.add 2) 2 (n - 2)

/-- A block is read within its bounds, and accepted exactly if the grammar has it. -/
structure ExtensionsChecked (p : Peer) (h : HandshakeParameters) (data : Ptr) (n : Nat)
    (clientHello : Bool) : Prop where
  reads : ∀ x ∈ blockReads data n clientHello, x.Inside 0 n
  accepted : dtlsCheckTlsExtension { p with handshakeParams := some h } data n clientHello = 0 ↔
    Grammar h.cipher data n clientHello

/-! ## When it makes no difference -/

/-- The extensions whose check is made, one after the other. -/
def checkedExtensions (clientHello : Bool) : Nat → Ptr → Nat → List Extension
  | 0, _, _ => []
  | fuel + 1, data, len =>
      if len < 4 then []
      else
        let e := nextExtension data len
        if len - 4 < e.length then []
        else e ::
          if e.passes clientHello then
            checkedExtensions clientHello fuel (data.add (4 + e.length)) (len - 4 - e.length)
          else []

/-- The block goes on as far as the check reads: there is a length field, and a list that is
    as long as it says consists of whole items, or has the value in one of them, or is
    followed by the rest of its last item. -/
def Extension.Roomy (e : Extension) (clientHello : Bool) : Prop :=
  match e.kind clientHello with
  | .list width value => width ≤ e.room ∧ (listLength e.value width + width = e.length →
      width ∣ e.length ∨ HasItem e.value width value e.length ∨
        width * (e.length / width + 1) ≤ e.room)
  | .certType => 1 ≤ e.room
  | .skipped => True

/-- The extension passes by what stands behind it: the last item is cut off, and its rest
    makes it the value, or there is no certificate type but the next byte is one. -/
def Extension.Phantom (e : Extension) (clientHello : Bool) : Prop :=
  match e.kind clientHello with
  | .list width value => listLength e.value width + width = e.length ∧ ¬ width ∣ e.length ∧
      ¬ HasItem e.value width value e.length ∧
      listItem e.value width (e.length / width - 1) = value
  | .certType => e.length = 0 ∧ e.value.uint8 = tlsCertTypeRawPublicKey
  | .skipped => False

/-- A block without extensions is for a suite with a rule; the checks of a list that fits the
    block stay in it; and if nothing else is wrong, the list fills the block and no extension
    passes by what stands behind it. -/
structure BlockFine (cipher : Nat) (data : Ptr) (n : Nat) (clientHello : Bool) : Prop where
  short : n < 2 → isTlsPskWithAes128Ccm8 cipher = true ∨
    isTlsEcdheEcdsaWithAes128Ccm8 cipher = true
  room : 2 ≤ n → data.uint16 ≤ n - 2 →
    ∀ e ∈ checkedExtensions clientHello n (data.add 2) (n - 2), e.Roomy clientHello
  whole : 2 ≤ n → data.uint16 ≤ n - 2 → ∀ es, Splits (data.add 2) (n - 2) es →
    (∀ e ∈ es, e.WellFormed clientHello ∨ e.Phantom clientHello) →
      Required cipher clientHello es → data.uint16 = n - 2 ∧ ∀ e ∈ es, ¬ e.Phantom clientHello

/-! ## One list -/

theorem lt_itemCount {k length : Nat} (hw : 0 < width) :
    k < itemCount width length ↔ width + width * k < length := by
  rw [itemCount, Nat.lt_iff_add_one_le, Nat.le_div_iff_mul_le hw, Nat.add_mul, Nat.one_mul,
    Nat.mul_comm k]
  omega

/-- The check of a list: one of the items that begin in it is the value. -/
theorem verifyExtList_iff {length : Nat} (hw : 0 < width) :
    verifyExtList width value list length = 0 ↔ listLength list width + width = length ∧
      ∃ k, width + width * k < length ∧ listItem list width k = value := by
  have failure : dtlsAlertFatalCreate .handshakeFailure ≠ 0 := by decide
  have search : ((List.range (itemCount width length)).any fun k =>
      bytesToInt ((list.add (width + width * k)).bytes width) = value) = true ↔
        ∃ k, width + width * k < length ∧ listItem list width k = value := by
    rw [List.any_eq_true]
    constructor
    · rintro ⟨k, hk, found⟩
      exact ⟨k, (lt_itemCount hw).mp (List.mem_range.mp hk), of_decide_eq_true found⟩
    · rintro ⟨k, hk, found⟩
      exact ⟨k, List.mem_range.mpr ((lt_itemCount hw).mpr hk), decide_eq_true found⟩
  unfold verifyExtList
  by_cases hlen : bytesToInt (list.bytes width) + width ≠ length
  · rw [if_pos hlen]
    exact iff_of_false failure fun h => hlen h.1
  rw [if_neg hlen]
  refine (?_ : _ ↔ _).trans (and_iff_right (not_not.mp hlen)).symm
  rw [← search]
  by_cases found : ((List.range (itemCount width length)).any fun k =>
      bytesToInt ((list.add (width + width * k)).bytes width) = value) = true
  · exact iff_of_true (if_pos found) found
  · exact iff_of_false (fun h => failure ((if_neg found).symm.trans h)) found

/-- An item that begins in the first `length` bytes is whole, or it is the last one and cut
    off. -/
theorem item_cases {k length : Nat} (hw : 0 < width) (h : width + width * k < length) :
    width + width * (k + 1) ≤ length ∨ (¬ width ∣ length ∧ k = length / width - 1) := by
  by_cases whole : width + width * (k + 1) ≤ length
  · exact .inl whole
  have lower : (k + 1) * width < length := by
    rw [Nat.mul_comm, Nat.mul_succ, Nat.add_comm]
    exact h
  have upper : length < (k + 1 + 1) * width := by
    rw [Nat.mul_comm, Nat.mul_succ, Nat.add_comm]
    exact not_le.mp whole
  have quotient : length / width = k + 1 := Nat.div_eq_of_lt_le lower.le upper
  refine .inr ⟨?_, by rw [quotient, Nat.add_sub_cancel]⟩
  rintro ⟨q, rfl⟩
  rw [Nat.mul_div_cancel_left q hw] at quotient
  rw [quotient, Nat.mul_comm] at lower
  exact lt_irrefl _ lower

theorem cut_item {length : Nat} (hle : width ≤ length) (hw : 0 < width)
    (hd : ¬ width ∣ length) : width + width * (length / width - 1) = width * (length / width) ∧
      width * (length / width) < length := by
  have some_item : 1 ≤ length / width := (Nat.one_le_div_iff hw).mpr hle
  constructor
  · rw [Nat.add_comm, ← Nat.mul_succ, Nat.succ_eq_add_one, Nat.sub_add_cancel some_item]
  · refine lt_of_le_of_ne (Nat.mul_div_le length width) fun same => hd ?_
    exact ⟨length / width, same.symm⟩

/-- The check of a list finds a whole item, or takes the last one and what follows it. -/
theorem verifyExtList_cases {length : Nat} (hw : 0 < width) :
    verifyExtList width value list length = 0 ↔
      (listLength list width + width = length ∧ HasItem list width value length) ∨
      (listLength list width + width = length ∧ ¬ width ∣ length ∧
        ¬ HasItem list width value length ∧ listItem list width (length / width - 1) = value) := by
  rw [verifyExtList_iff hw]
  constructor
  · rintro ⟨hlen, k, inside, found⟩
    by_cases whole : HasItem list width value length
    · exact .inl ⟨hlen, whole⟩
    rcases item_cases hw inside with hk | ⟨hd, rfl⟩
    · exact absurd ⟨k, hk, found⟩ whole
    · exact .inr ⟨hlen, hd, whole, found⟩
  · rintro (⟨hlen, k, hk, found⟩ | ⟨hlen, hd, -, found⟩)
    · refine ⟨hlen, k, ?_, found⟩
      rw [Nat.mul_succ] at hk
      omega
    · obtain ⟨start, less⟩ := cut_item (hlen ▸ Nat.le_add_left _ _) hw hd
      exact ⟨hlen, _, start ▸ less, found⟩

theorem Extension.kind_list {e : Extension} (h : e.kind clientHello = .list width value) :
    0 < width := by
  unfold Extension.kind at h
  split at h
  · cases h
    decide
  split at h
  · split at h
    · cases h
      decide
    · cases h
  split at h
  · cases h
    decide
  · cases h

/-- **ONE CHECK**: what passes is well formed, or a phantom. -/
theorem Extension.passes_iff (e : Extension) (clientHello : Bool) :
    e.passes clientHello = true ↔ e.WellFormed clientHello ∨ e.Phantom clientHello := by
  unfold Extension.passes Extension.WellFormed Extension.Phantom
  cases hkind : e.kind clientHello with
  | list width value =>
      simp only
      rw [decide_eq_true_iff]
      exact verifyExtList_cases (Extension.kind_list hkind)
  | certType =>
      simp only
      rw [decide_eq_true_iff, ← or_and_right]
      exact (and_iff_right (by omega)).symm
  | skipped => exact iff_of_true rfl (.inl trivial)

theorem Extension.WellFormed.not_phantom {e : Extension} (h : e.WellFormed clientHello) :
    ¬ e.Phantom clientHello := by
  unfold Extension.WellFormed at h
  unfold Extension.Phantom
  intro phantom
  cases hkind : e.kind clientHello with
  | list width value =>
      rw [hkind] at h phantom
      exact phantom.2.2.1 h.2
  | certType =>
      rw [hkind] at h phantom
      exact absurd phantom.1 (Nat.one_le_iff_ne_zero.mp h.1)
  | skipped =>
      rw [hkind] at phantom
      exact phantom

/-- The reads of the loop over the items are those of the items that it comes to. -/
theorem forall_itemReads {P : Access → Prop} (count k : Nat) :
    (∀ x ∈ itemReads width value list off count k, P x) ↔
      ∀ j < count, (∀ i < j, listItem list width (k + i) ≠ value) →
        P ⟨(off + (width + width * (k + j)) : Nat), width⟩ := by
  induction count generalizing k with
  | zero => exact iff_of_true (List.forall_mem_nil _) fun j hj => absurd hj j.not_lt_zero
  | succ count ih =>
      rw [itemReads, List.forall_mem_cons]
      constructor
      · rintro ⟨now, later⟩ j hj before
        cases j with
        | zero => exact now
        | succ j =>
            have miss : listItem list width k ≠ value := before 0 j.succ_pos
            rw [if_neg miss] at later
            have next := (ih (k + 1)).mp later j (Nat.lt_of_succ_lt_succ hj) fun i hi => by
              rw [Nat.add_assoc, Nat.add_comm 1]
              exact before (i + 1) (Nat.succ_lt_succ hi)
            rwa [Nat.add_assoc k, Nat.add_comm 1] at next
      · intro all
        refine ⟨all 0 count.succ_pos fun i hi => absurd hi i.not_lt_zero, ?_⟩
        by_cases found : listItem list width k = value
        · rw [if_pos found]
          exact List.forall_mem_nil _
        · rw [if_neg found, ih]
          intro j hj before
          have next := all (j + 1) (Nat.succ_lt_succ hj) fun i hi => by
            cases i with
            | zero => exact found
            | succ i =>
                have miss := before i (Nat.lt_of_succ_lt_succ hi)
                rwa [Nat.add_assoc, Nat.add_comm 1] at miss
          rwa [Nat.add_assoc k, Nat.add_comm 1]

/-- The loop over a list stays in the block: it reads whole items only, or is done before it
    comes to the last one, or there is room for that one, too. -/
theorem listItems_inside {length room : Nat} (hw : 0 < width) (hlen : width ≤ length)
    (hfit : length ≤ room) :
    (∀ x ∈ itemReads width value list off (itemCount width length) 0,
        x.Inside 0 (off + room : Nat)) ↔
      width ∣ length ∨ HasItem list width value length ∨
        width * (length / width + 1) ≤ room := by
  have inside (k : Nat) :
      Access.Inside ⟨(off + (width + width * k) : Nat), width⟩ 0 (off + room : Nat) ↔
        width + width * k + width ≤ room := by
    unfold Access.Inside
    simp only
    omega
  rw [forall_itemReads]
  simp only [Nat.zero_add, inside]
  constructor
  · intro all
    by_contra! h
    obtain ⟨hd, missed, short⟩ := h
    obtain ⟨start, less⟩ := cut_item hlen hw hd
    have begins := (lt_itemCount hw).mpr (start ▸ less)
    have reached := all (length / width - 1) begins fun i hi found => by
      refine missed ⟨i, ?_, found⟩
      have le := Nat.mul_le_mul_left width (Nat.succ_le_of_lt hi)
      rw [Nat.succ_eq_add_one] at le
      omega
    rw [start] at reached
    rw [Nat.mul_succ] at short
    omega
  · intro h j hj before
    rcases item_cases hw ((lt_itemCount hw).mp hj) with whole | ⟨hd, rfl⟩
    · rw [Nat.mul_succ] at whole
      omega
    · obtain ⟨start, less⟩ := cut_item hlen hw hd
      rcases h with hd' | ⟨k, whole, found⟩ | room'
      · exact absurd hd' hd
      · refine absurd found (before k ?_)
        have le : width * (k + 2) ≤ length := by
          rw [Nat.mul_succ]
          omega
        have more : k + 2 ≤ length / width := by
          rw [Nat.le_div_iff_mul_le hw, Nat.mul_comm]
          exact le
        omega
      · rw [Nat.mul_succ] at room'
        omega

/-- **THE READS OF ONE CHECK** stay in the block exactly when it goes on as far. -/
theorem Extension.reads_inside (e : Extension) (clientHello : Bool) (hfit : e.length ≤ e.room) :
    (∀ x ∈ e.reads clientHello off, x.Inside 0 (off + e.room : Nat)) ↔ e.Roomy clientHello := by
  have single (m : Nat) : Access.Inside ⟨off, m⟩ 0 (off + e.room : Nat) ↔ m ≤ e.room := by
    unfold Access.Inside
    simp only
    omega
  unfold Extension.reads Extension.Roomy
  cases hkind : e.kind clientHello with
  | list width value =>
      simp only
      rw [List.forall_mem_cons, single]
      refine and_congr_right fun _ => ?_
      by_cases hlen : listLength e.value width + width = e.length
      · rw [if_neg (not_not.mpr hlen), listItems_inside (Extension.kind_list hkind)
          (hlen ▸ Nat.le_add_left _ _) hfit]
        exact ⟨fun h _ => h, fun h => h hlen⟩
      · rw [if_pos hlen]
        exact iff_of_true (List.forall_mem_nil _) fun h => absurd h hlen
  | certType =>
      simp only
      rw [List.forall_mem_singleton, single]
  | skipped => exact iff_of_true (List.forall_mem_nil _) trivial

/-! ## The loop -/

/-- The reads of the loop stay in the block if those of the checks do that it comes to. -/
theorem loopReads_inside (fuel : Nat) (data : Ptr) (off len : Nat) :
    (∀ x ∈ loopReads clientHello fuel data off len, x.Inside 0 (off + len : Nat)) ↔
      ∀ e ∈ checkedExtensions clientHello fuel data len, e.Roomy clientHello := by
  induction fuel generalizing data off len with
  | zero => exact iff_of_true (List.forall_mem_nil _) (List.forall_mem_nil _)
  | succ fuel ih =>
      rw [loopReads, checkedExtensions]
      by_cases short : len < 4
      · rw [if_pos short, if_pos short]
        exact iff_of_true (List.forall_mem_nil _) (List.forall_mem_nil _)
      rw [if_neg short, if_neg short]
      simp only
      have header : Access.Inside ⟨(off : Nat), 2⟩ 0 (off + len : Nat) ∧
          Access.Inside ⟨(off + 2 : Nat), 2⟩ 0 (off + len : Nat) := by
        unfold Access.Inside
        simp only
        omega
      rw [List.forall_mem_cons, List.forall_mem_cons]
      refine (and_iff_right header.1).trans ((and_iff_right header.2).trans ?_)
      by_cases cut : len - 4 < (nextExtension data len).length
      · rw [if_pos cut, if_pos cut]
        exact iff_of_true (List.forall_mem_nil _) (List.forall_mem_nil _)
      rw [if_neg cut, if_neg cut, List.forall_mem_append, List.forall_mem_cons]
      have total : off + len = off + 4 + (nextExtension data len).room := by
        show off + len = off + 4 + (len - 4)
        omega
      refine and_congr ?_ ?_
      · rw [total]
        exact Extension.reads_inside _ clientHello (not_lt.mp cut)
      · by_cases passes : (nextExtension data len).passes clientHello = true
        · rw [if_pos passes, if_pos passes, ← ih]
          have rest : off + len = off + 4 + (nextExtension data len).length +
              (len - 4 - (nextExtension data len).length) := by omega
          rw [rest]
        · rw [if_neg passes, if_neg passes]
          exact iff_of_true (List.forall_mem_nil _) (List.forall_mem_nil _)

/-- There is one way to split. -/
theorem Splits.unique {es es' : List Extension} (h : Splits data len es)
    (h' : Splits data len es') : es = es' := by
  induction h generalizing es' with
  | nil =>
      cases h' with
      | nil => rfl
      | cons h4 => exact absurd h4 (by decide)
  | cons h4 _ _ ih =>
      cases h' with
      | nil => exact absurd h4 (by decide)
      | cons _ _ rest => rw [ih rest]

/-- What the loop notes of an extension. -/
def ExtSeen.mark (seen : ExtSeen) (type : Nat) : ExtSeen :=
  ⟨seen.ellipticCurve || decide (type = tlsExtEllipticCurves),
    seen.clientCertType || decide (type = tlsExtClientCertificateType),
    seen.serverCertType || decide (type = tlsExtServerCertificateType),
    seen.ecPointFormats || decide (type = tlsExtEcPointFormats)⟩

theorem certTypeOk_eq {e : Extension} (h : e.kind clientHello =
      if clientHello then .list 1 tlsCertTypeRawPublicKey else .certType) :
    certTypeOk clientHello e.value e.length = e.passes clientHello := by
  unfold Extension.passes
  rw [h]
  cases clientHello <;> rfl

/-- The switch makes the check of the extension's kind, and notes the type. -/
theorem checkExtension_eq (e : Extension) (clientHello : Bool) (seen : ExtSeen) :
    checkExtension clientHello e.type e.value e.length seen =
      if e.passes clientHello then some (seen.mark e.type) else none := by
  unfold checkExtension
  by_cases curve : e.type = tlsExtEllipticCurves
  · have passes : e.passes clientHello = decide (verifyExtEllipticCurves e.value e.length = 0) := by
      unfold Extension.passes Extension.kind
      rw [if_pos curve]
      rfl
    have mark : seen.mark e.type = { seen with ellipticCurve := true } := by
      rw [curve]
      simp [ExtSeen.mark, tlsExtEllipticCurves, tlsExtClientCertificateType,
        tlsExtServerCertificateType, tlsExtEcPointFormats]
    rw [if_pos curve, passes, mark]
    simp only [decide_eq_true_eq]
  rw [if_neg curve]
  by_cases client : e.type = tlsExtClientCertificateType
  · have mark : seen.mark e.type = { seen with clientCertType := true } := by
      rw [client]
      simp [ExtSeen.mark, tlsExtEllipticCurves, tlsExtClientCertificateType,
        tlsExtServerCertificateType, tlsExtEcPointFormats]
    rw [if_pos client, mark, certTypeOk_eq]
    unfold Extension.kind
    rw [if_neg curve, if_pos (.inl client)]
  rw [if_neg client]
  by_cases server : e.type = tlsExtServerCertificateType
  · have mark : seen.mark e.type = { seen with serverCertType := true } := by
      rw [server]
      simp [ExtSeen.mark, tlsExtEllipticCurves, tlsExtClientCertificateType,
        tlsExtServerCertificateType, tlsExtEcPointFormats]
    rw [if_pos server, mark, certTypeOk_eq]
    unfold Extension.kind
    rw [if_neg curve, if_pos (.inr server)]
  rw [if_neg server]
  by_cases points : e.type = tlsExtEcPointFormats
  · have passes : e.passes clientHello = decide (verifyExtEcPointFormats e.value e.length = 0) := by
      unfold Extension.passes Extension.kind
      rw [if_neg curve, if_neg (not_or.mpr ⟨client, server⟩), if_pos points]
      rfl
    have mark : seen.mark e.type = { seen with ecPointFormats := true } := by
      rw [points]
      simp [ExtSeen.mark, tlsExtEllipticCurves, tlsExtClientCertificateType,
        tlsExtServerCertificateType, tlsExtEcPointFormats]
    rw [if_pos points, passes, mark]
    simp only [decide_eq_true_eq]
  have passes : e.passes clientHello = true := by
    unfold Extension.passes Extension.kind
    rw [if_neg curve, if_neg (not_or.mpr ⟨client, server⟩), if_neg points]
  rw [if_neg points, passes]
  simp [ExtSeen.mark, curve, client, server, points]

theorem checkExtension_next (data : Ptr) (len : Nat) (clientHello : Bool) (seen : ExtSeen) :
    checkExtension clientHello data.uint16 (data.add 4) (data.add 2).uint16 seen =
      if (nextExtension data len).passes clientHello then some (seen.mark data.uint16) else none :=
  checkExtension_eq (nextExtension data len) clientHello seen

/-- **THE LOOP** ends well exactly if the bytes split into extensions that pass. -/
theorem extensionLoop_iff {fuel : Nat} {seen seen' : ExtSeen} (hf : len ≤ fuel) :
    extensionLoop clientHello fuel data len seen = some seen' ↔
      ∃ es, Splits data len es ∧ (∀ e ∈ es, e.passes clientHello = true) ∧
        seen' = es.foldl (fun s e => s.mark e.type) seen := by
  induction fuel generalizing data len seen with
  | zero =>
      obtain rfl := Nat.le_zero.mp hf
      rw [extensionLoop]
      constructor
      · rintro h
        exact ⟨[], .nil data, List.forall_mem_nil _, (Option.some.inj h).symm⟩
      · rintro ⟨es, split, -, rfl⟩
        cases split with
        | nil => rfl
        | cons h4 => exact absurd h4 (by decide)
  | succ fuel ih =>
      rw [extensionLoop]
      by_cases h0 : len = 0
      · subst h0
        rw [if_pos rfl]
        constructor
        · rintro h
          exact ⟨[], .nil data, List.forall_mem_nil _, (Option.some.inj h).symm⟩
        · rintro ⟨es, split, -, rfl⟩
          cases split with
          | nil => rfl
          | cons h4 => exact absurd h4 (by decide)
      rw [if_neg h0]
      by_cases short : len < 4
      · rw [if_pos short]
        refine iff_of_false (by simp) ?_
        rintro ⟨es, split, -, -⟩
        cases split with
        | nil => exact h0 rfl
        | cons h4 => exact absurd h4 (not_le.mpr short)
      rw [if_neg short]
      simp only
      by_cases cut : len - 4 < (data.add 2).uint16
      · rw [if_pos cut]
        refine iff_of_false (by simp) ?_
        rintro ⟨es, split, -, -⟩
        cases split with
        | nil => exact h0 rfl
        | cons _ hfit => exact absurd hfit (not_le.mpr cut)
      rw [if_neg cut, checkExtension_next data len]
      by_cases passes : (nextExtension data len).passes clientHello = true
      · rw [if_pos passes]
        simp only
        rw [ih (by omega)]
        constructor
        · rintro ⟨es, split, all, rfl⟩
          refine ⟨nextExtension data len :: es, .cons (not_lt.mp short) (not_lt.mp cut) split,
            List.forall_mem_cons.mpr ⟨passes, all⟩, rfl⟩
        · rintro ⟨es, split, all, rfl⟩
          cases split with
          | nil => exact absurd rfl h0
          | cons _ _ split => exact ⟨_, split, (List.forall_mem_cons.mp all).2, rfl⟩
      · rw [if_neg passes]
        refine iff_of_false (by simp) ?_
        rintro ⟨es, split, all, -⟩
        cases split with
        | nil => exact h0 rfl
        | cons _ _ split => exact passes (List.forall_mem_cons.mp all).1

/-- A flag is set when an extension of the type was met. -/
theorem foldl_mark (field : ExtSeen → Bool) (type : Nat)
    (step : ∀ seen t, field (seen.mark t) = (field seen || decide (t = type)))
    (es : List Extension) (seen : ExtSeen) :
    field (es.foldl (fun s e => s.mark e.type) seen) = true ↔
      field seen = true ∨ ∃ e ∈ es, e.type = type := by
  induction es generalizing seen with
  | nil => simp
  | cons e es ih =>
      rw [List.foldl_cons, ih, step, Bool.or_eq_true, decide_eq_true_iff, List.exists_mem_cons_iff,
        or_assoc]

/-- The flags at the end of the loop say whether the required types are there. -/
theorem required_iff {cipher : Nat} {es : List Extension} {seen : ExtSeen}
    (h : seen = es.foldl (fun s e => s.mark e.type) ⟨false, false, false, false⟩) :
    (if isTlsEcdheEcdsaWithAes128Ccm8 cipher && clientHello then
        seen.ellipticCurve && seen.clientCertType && seen.serverCertType && seen.ecPointFormats
      else if isTlsEcdheEcdsaWithAes128Ccm8 cipher then seen.clientCertType && seen.serverCertType
      else true) = true ↔ Required cipher clientHello es := by
  have met (field : ExtSeen → Bool) (type : Nat) (init : field ⟨false, false, false, false⟩ = false)
      (step : ∀ seen t, field (seen.mark t) = (field seen || decide (t = type))) :
      field seen = true ↔ ∃ e ∈ es, e.type = type := by
    rw [h, foldl_mark field type step, init]
    exact or_iff_right Bool.false_ne_true
  have curve := met ExtSeen.ellipticCurve tlsExtEllipticCurves rfl fun _ _ => rfl
  have client := met ExtSeen.clientCertType tlsExtClientCertificateType rfl fun _ _ => rfl
  have server := met ExtSeen.serverCertType tlsExtServerCertificateType rfl fun _ _ => rfl
  have points := met ExtSeen.ecPointFormats tlsExtEcPointFormats rfl fun _ _ => rfl
  unfold Required
  rw [← curve, ← client, ← server, ← points]
  cases isTlsEcdheEcdsaWithAes128Ccm8 cipher <;> cases clientHello <;> simp [and_assoc, and_comm,
    and_left_comm]

/-- **THE CODE'S GRAMMAR**: without extensions, any suite but the ECDHE one; else a list
    that fits, and extensions that pass, with the required types among them. -/
theorem extensionsOk_iff {cipher : Nat} :
    extensionsOk cipher data n clientHello = true ↔
      (n < 2 ∧ isTlsEcdheEcdsaWithAes128Ccm8 cipher = false) ∨
        (2 ≤ n ∧ data.uint16 ≤ n - 2 ∧ ∃ es, Splits (data.add 2) (n - 2) es ∧
          (∀ e ∈ es, e.passes clientHello = true) ∧ Required cipher clientHello es) := by
  unfold extensionsOk
  simp only
  by_cases short : n < 2
  · rw [if_pos short, Bool.not_eq_true']
    constructor
    · exact fun h => .inl ⟨short, h⟩
    · rintro (⟨-, h⟩ | ⟨h, -⟩)
      · exact h
      · exact absurd h (not_le.mpr short)
  rw [if_neg short]
  by_cases cut : n - 2 < data.uint16
  · rw [if_pos cut]
    refine iff_of_false Bool.false_ne_true ?_
    rintro (⟨h, -⟩ | ⟨-, h, -⟩)
    · exact short h
    · exact absurd h (not_le.mpr cut)
  rw [if_neg cut]
  have ends (es : List Extension) (split : Splits (data.add 2) (n - 2) es)
      (all : ∀ e ∈ es, e.passes clientHello = true) :
      extensionLoop clientHello n (data.add 2) (n - 2) ⟨false, false, false, false⟩ =
        some (es.foldl (fun s e => s.mark e.type) ⟨false, false, false, false⟩) :=
    (extensionLoop_iff (Nat.sub_le n 2)).mpr ⟨es, split, all, rfl⟩
  cases loop : extensionLoop clientHello n (data.add 2) (n - 2) ⟨false, false, false, false⟩ with
  | none =>
      refine iff_of_false Bool.false_ne_true ?_
      rintro (⟨h, -⟩ | ⟨-, -, es, split, all, -⟩)
      · exact short h
      · have done := ends es split all
        rw [loop] at done
        cases done
  | some seen =>
      simp only
      constructor
      · intro h
        obtain ⟨es, split, all, same⟩ := (extensionLoop_iff (Nat.sub_le n 2)).mp loop
        exact .inr ⟨not_lt.mp short, not_lt.mp cut, es, split, all, (required_iff same).mp h⟩
      · rintro (⟨h, -⟩ | ⟨-, -, es, split, all, required⟩)
        · exact absurd h short
        · have done := ends es split all
          rw [loop] at done
          exact (required_iff (Option.some.inj done)).mpr required

/-! ## What is not read does not matter -/

/-- The bytes of these reads are the same; the pointers are `off` bytes into the block. -/
def Agree (reads : List Access) (off : Nat) (data data' : Ptr) : Prop :=
  ∀ x ∈ reads, ∀ i : Nat, i < x.n → data (x.offset - off + i) = data' (x.offset - off + i)

theorem Agree.bytes {reads : List Access} {data' : Ptr} (h : Agree reads off data data') {k m : Nat}
    (hx : (⟨(off + k : Nat), m⟩ : Access) ∈ reads) :
    (data.add k).bytes m = (data'.add k).bytes m := by
  refine Ptr.bytes_congr fun i hi => ?_
  have same := h _ hx i hi
  have place : ((off + k : Nat) : Int) - off + i = i + k := by omega
  simp only [place] at same
  exact same

/-- A pointer that has moved on. -/
theorem Agree.move {reads : List Access} {data' : Ptr} {k : Nat} (h : Agree reads off data data') :
    Agree reads (off + k) (data.add k) (data'.add k) := by
  intro x hx i hi
  have same := h x hx i hi
  have place : x.offset - (off + k : Nat) + i + k = x.offset - off + i := by omega
  show data (_ + _) = data' (_ + _)
  rw [place]
  exact same

theorem Agree.mono {reads reads' : List Access} {data' : Ptr} (h : Agree reads off data data')
    (sub : ∀ x ∈ reads', x ∈ reads) : Agree reads' off data data' :=
  fun x hx => h x (sub x hx)

theorem Agree.tail {x : Access} {reads : List Access} {data' : Ptr}
    (h : Agree (x :: reads) off data data') : Agree reads off data data' :=
  h.mono fun _ => List.mem_cons_of_mem x

/-- A search that stops at the first hit sees all that matters. -/
theorem exists_congr_of_first {p q : Nat → Prop} {count : Nat}
    (h : ∀ j < count, (∀ i < j, ¬ p i) → (p j ↔ q j)) :
    (∃ j < count, p j) ↔ ∃ j < count, q j := by
  classical
  constructor
  · intro found
    obtain ⟨hj, hit⟩ := Nat.find_spec found
    refine ⟨Nat.find found, hj, (h _ hj fun i hi hit' => ?_).mp hit⟩
    exact Nat.find_min found hi ⟨hi.trans hj, hit'⟩
  · rintro ⟨j, hj, hit⟩
    by_contra none_found
    have before (i : Nat) (hi : i < j) : ¬ p i := fun hit' => none_found ⟨i, hi.trans hj, hit'⟩
    exact none_found ⟨j, hj, (h j hj before).mpr hit⟩

theorem verifyExtList_agree {list' : Ptr} {length : Nat} (hw : 0 < width)
    (head : (list.bytes width) = list'.bytes width)
    (items : listLength list width + width = length →
      Agree (itemReads width value list off (itemCount width length) 0) off list list') :
    verifyExtList width value list length = 0 ↔ verifyExtList width value list' length = 0 := by
  have same_length : listLength list width = listLength list' width := congrArg bytesToInt head
  rw [verifyExtList_iff hw, verifyExtList_iff hw, ← same_length]
  refine and_congr_right fun hlen => ?_
  simp only [← lt_itemCount hw]
  refine exists_congr_of_first fun j hj before => ?_
  have read := (forall_itemReads (P := fun x => x ∈ itemReads width value list off
    (itemCount width length) 0) _ 0).mp (fun x hx => hx) j hj fun i hi => by
      rw [Nat.zero_add]
      exact before i hi
  rw [Nat.zero_add] at read
  have item : listItem list width j = listItem list' width j :=
    congrArg bytesToInt ((items hlen).bytes read)
  rw [item]

theorem Extension.passes_agree (e : Extension) {ptr : Ptr}
    (h : Agree (e.reads clientHello off) off e.value ptr) :
    e.passes clientHello = ({ e with value := ptr } : Extension).passes clientHello := by
  have same_kind : ({ e with value := ptr } : Extension).kind clientHello = e.kind clientHello := rfl
  have first {m : Nat} (hx : (⟨off, m⟩ : Access) ∈ e.reads clientHello off) :
      e.value.bytes m = ptr.bytes m := by
    have same := h.bytes (k := 0) (m := m) hx
    rwa [Nat.cast_zero, Ptr.add_zero, Ptr.add_zero] at same
  unfold Extension.reads at h first
  unfold Extension.passes
  rw [same_kind]
  cases hkind : e.kind clientHello with
  | list width value =>
      rw [hkind] at h
      simp only [hkind] at first
      simp only
      rw [decide_eq_decide]
      refine verifyExtList_agree (Extension.kind_list hkind) (first (List.mem_cons_self ..))
        fun hlen => h.mono fun x hx => ?_
      simp only [hlen, ne_eq, not_true_eq_false, if_false]
      exact List.mem_cons_of_mem _ hx
  | certType =>
      simp only [hkind] at first
      simp only
      rw [decide_eq_decide, Ptr.uint8, Ptr.uint8, first (List.mem_singleton_self _)]
  | skipped => rfl

/-- The loop depends on what it reads. -/
theorem extensionLoop_agree {data' : Ptr} (fuel : Nat) (seen : ExtSeen)
    (h : Agree (loopReads clientHello fuel data off len) off data data') :
    extensionLoop clientHello fuel data len seen = extensionLoop clientHello fuel data' len seen := by
  induction fuel generalizing data data' off len seen with
  | zero => rfl
  | succ fuel ih =>
      rw [extensionLoop, extensionLoop]
      by_cases h0 : len = 0
      · rw [if_pos h0, if_pos h0]
      rw [if_neg h0, if_neg h0]
      by_cases short : len < 4
      · rw [if_pos short, if_pos short]
      rw [loopReads, if_neg short] at h
      simp only at h
      have type : data.uint16 = data'.uint16 := by
        have same := h.bytes (k := 0) (m := 2) (List.mem_cons_self ..)
        rw [Nat.cast_zero, Ptr.add_zero, Ptr.add_zero] at same
        exact congrArg bytesToInt same
      have length : (data.add 2).uint16 = (data'.add 2).uint16 :=
        congrArg bytesToInt (h.bytes (k := 2) (List.mem_cons_of_mem _ (List.mem_cons_self ..)))
      rw [if_neg short, if_neg short]
      simp only
      rw [← type, ← length]
      by_cases cut : len - 4 < (data.add 2).uint16
      · rw [if_pos cut, if_pos cut]
      rw [if_neg cut, if_neg cut]
      have length_eq : (nextExtension data len).length = (data.add 2).uint16 := rfl
      have rest := h.tail.tail
      rw [if_neg (length_eq ▸ cut)] at rest
      have passes : (nextExtension data len).passes clientHello =
          (⟨data.uint16, data'.add 4, (data.add 2).uint16, len - 4⟩ : Extension).passes
            clientHello :=
        Extension.passes_agree (nextExtension data len)
          (rest.mono fun _ => List.mem_append_left _).move
      have check' : checkExtension clientHello data.uint16 (data'.add 4) (data.add 2).uint16 seen =
          if (nextExtension data len).passes clientHello then some (seen.mark data.uint16)
          else none := by
        rw [passes]
        exact checkExtension_eq ⟨data.uint16, data'.add 4, (data.add 2).uint16, len - 4⟩ clientHello
          seen
      rw [checkExtension_next data len, check']
      by_cases ok : (nextExtension data len).passes clientHello = true
      · rw [if_pos ok] at rest ⊢
        have moved := (rest.mono fun _ => List.mem_append_right _).move
          (k := 4 + (nextExtension data len).length)
        rw [Nat.cast_add, ← Nat.add_assoc] at moved
        exact ih _ moved
      · rw [if_neg ok]

/-- **THE READS** are all that the check depends on. -/
theorem extensionsOk_agree {data' : Ptr} {cipher : Nat}
    (h : Agree (blockReads data n clientHello) 0 data data') :
    extensionsOk cipher data n clientHello = extensionsOk cipher data' n clientHello := by
  unfold extensionsOk
  simp only
  by_cases short : n < 2
  · rw [if_pos short, if_pos short]
  rw [blockReads, if_neg short] at h
  have length : data.uint16 = data'.uint16 := by
    have same := h.bytes (k := 0) (m := 2) (List.mem_cons_self ..)
    rw [Nat.cast_zero, Ptr.add_zero, Ptr.add_zero] at same
    exact congrArg bytesToInt same
  rw [if_neg short, if_neg short, ← length]
  by_cases cut : n - 2 < data.uint16
  · rw [if_pos cut, if_pos cut]
  have rest := h.tail
  rw [if_neg cut] at rest
  have loop : extensionLoop clientHello n (data.add 2) (n - 2) ⟨false, false, false, false⟩ =
      extensionLoop clientHello n (data'.add 2) (n - 2) ⟨false, false, false, false⟩ :=
    extensionLoop_agree n _ rest.move
  rw [if_neg cut, if_neg cut, loop]

/-! ## The check -/

theorem helloError_ne_zero (state : DtlsState) : helloError state ≠ 0 := by
  cases state <;> decide

theorem dtlsCheckTlsExtension_iff (p : Peer) (h : HandshakeParameters) :
    dtlsCheckTlsExtension { p with handshakeParams := some h } data n clientHello = 0 ↔
      extensionsOk h.cipher data n clientHello = true := by
  have failure : dtlsAlertFatalCreate .handshakeFailure ≠ 0 := by decide
  unfold dtlsCheckTlsExtension
  simp only
  by_cases ok : extensionsOk h.cipher data n clientHello = true
  · rw [if_pos ok]
    exact iff_of_true rfl ok
  · rw [if_neg ok]
    refine iff_of_false ?_ ok
    cases clientHello
    · exact failure
    · exact helloError_ne_zero p.state

theorem blockReads_inside :
    (∀ x ∈ blockReads data n clientHello, x.Inside 0 n) ↔
      (2 ≤ n → data.uint16 ≤ n - 2 →
        ∀ e ∈ checkedExtensions clientHello n (data.add 2) (n - 2), e.Roomy clientHello) := by
  unfold blockReads
  by_cases short : n < 2
  · rw [if_pos short]
    exact iff_of_true (List.forall_mem_nil _) fun h => absurd h (not_le.mpr short)
  have long : 2 ≤ n := not_lt.mp short
  have header : Access.Inside ⟨0, 2⟩ 0 n := by
    unfold Access.Inside
    simp only
    omega
  rw [if_neg short, List.forall_mem_cons, and_iff_right header]
  by_cases cut : n - 2 < data.uint16
  · rw [if_pos cut]
    exact iff_of_true (List.forall_mem_nil _) fun _ h => absurd h (not_le.mpr cut)
  have block : 2 + (n - 2) = n := Nat.add_sub_cancel' long
  have loop := @loopReads_inside clientHello n (data.add 2) 2 (n - 2)
  rw [block] at loop
  rw [if_neg cut]
  exact loop.trans ⟨fun h _ _ => h, fun h => h long (not_lt.mp cut)⟩

/-- Without extensions, the suites differ. -/
theorem accepted_short {cipher : Nat} (short : n < 2) :
    (extensionsOk cipher data n clientHello = true ↔ Grammar cipher data n clientHello) ↔
      isTlsPskWithAes128Ccm8 cipher = true ∨ isTlsEcdheEcdsaWithAes128Ccm8 cipher = true := by
  have no_block : ¬ 2 ≤ n := not_le.mpr short
  have one_suite (psk : isTlsPskWithAes128Ccm8 cipher = true) :
      isTlsEcdheEcdsaWithAes128Ccm8 cipher = false := by
    obtain rfl : cipher = tlsPskWithAes128Ccm8 := of_decide_eq_true psk
    rfl
  have ok : extensionsOk cipher data n clientHello = true ↔
      isTlsEcdheEcdsaWithAes128Ccm8 cipher = false := by
    rw [extensionsOk_iff]
    exact (or_iff_left fun h => no_block h.1).trans (and_iff_right short)
  have grammar : Grammar cipher data n clientHello ↔ isTlsPskWithAes128Ccm8 cipher = true :=
    (or_iff_left fun h => no_block h.1).trans (and_iff_right short)
  rw [ok, grammar]
  constructor
  · intro h
    by_cases ecdsa : isTlsEcdheEcdsaWithAes128Ccm8 cipher = true
    · exact .inr ecdsa
    · exact .inl (h.mp (Bool.eq_false_iff.mpr ecdsa))
  · rintro (psk | ecdsa)
    · exact iff_of_true (one_suite psk) psk
    · refine iff_of_false (fun h => ?_) fun psk => ?_
      · rw [ecdsa] at h
        cases h
      · rw [one_suite psk] at ecdsa
        cases ecdsa

/-- With extensions, the list has to fill the block, without a phantom. -/
theorem accepted_long {cipher : Nat} (long : 2 ≤ n) :
    (extensionsOk cipher data n clientHello = true ↔ Grammar cipher data n clientHello) ↔
      (data.uint16 ≤ n - 2 → ∀ es, Splits (data.add 2) (n - 2) es →
        (∀ e ∈ es, e.WellFormed clientHello ∨ e.Phantom clientHello) →
        Required cipher clientHello es → data.uint16 = n - 2 ∧
          ∀ e ∈ es, ¬ e.Phantom clientHello) := by
  have not_short : ¬ n < 2 := not_lt.mpr long
  have ok : extensionsOk cipher data n clientHello = true ↔ data.uint16 ≤ n - 2 ∧
      ∃ es, Splits (data.add 2) (n - 2) es ∧
        (∀ e ∈ es, e.WellFormed clientHello ∨ e.Phantom clientHello) ∧
        Required cipher clientHello es := by
    rw [extensionsOk_iff]
    simp only [Extension.passes_iff]
    exact (or_iff_right fun h => not_short h.1).trans (and_iff_right long)
  have grammar : Grammar cipher data n clientHello ↔ data.uint16 = n - 2 ∧
      ∃ es, Splits (data.add 2) (n - 2) es ∧ (∀ e ∈ es, e.WellFormed clientHello) ∧
        Required cipher clientHello es :=
    (or_iff_right fun h => not_short h.1).trans (and_iff_right long)
  rw [ok, grammar]
  constructor
  · intro h fits es split all required
    obtain ⟨fills, es', split', formed, -⟩ := h.mp ⟨fits, es, split, all, required⟩
    obtain rfl := split.unique split'
    exact ⟨fills, fun e he => (formed e he).not_phantom⟩
  · intro h
    constructor
    · rintro ⟨fits, es, split, all, required⟩
      obtain ⟨fills, real⟩ := h fits es split all required
      exact ⟨fills, es, split, fun e he => (all e he).resolve_right (real e he), required⟩
    · rintro ⟨fills, es, split, formed, required⟩
      exact ⟨fills.le, es, split, fun e he => .inl (formed e he), required⟩

/-- **THE EXTENSION GRAMMAR** is what the check decides, within the block, exactly in a fine
    block. -/
theorem extensionsChecked_iff (p : Peer) (h : HandshakeParameters) (data : Ptr) (n : Nat)
    (clientHello : Bool) :
    ExtensionsChecked p h data n clientHello ↔ BlockFine h.cipher data n clientHello := by
  constructor
  · rintro ⟨reads, accepted⟩
    rw [dtlsCheckTlsExtension_iff] at accepted
    exact ⟨fun short => (accepted_short short).mp accepted, blockReads_inside.mp reads,
      fun long => (accepted_long long).mp accepted⟩
  · rintro ⟨short, room, whole⟩
    refine ⟨blockReads_inside.mpr room, ?_⟩
    rw [dtlsCheckTlsExtension_iff]
    by_cases h2 : n < 2
    · exact (accepted_short h2).mpr (short h2)
    · exact (accepted_long (not_lt.mp h2)).mpr (whole (not_lt.mp h2))

/-- Two blocks that are not judged by the grammar: the list is said to be empty, and an
    extension follows; and the list of curves has no length field, but is read. -/
theorem extensionsChecked_bare :
    ¬ ExtensionsChecked (emptyPeer (Vector.replicate 144 0))
        { emptyHandshake with cipher := tlsPskWithAes128Ccm8 }
        (Ptr.ofBytes [0, 0, 0, 99, 0, 0]) 6 true ∧
      ¬ ExtensionsChecked (emptyPeer (Vector.replicate 144 0))
        { emptyHandshake with cipher := tlsPskWithAes128Ccm8 }
        (Ptr.ofBytes [0, 4, 0, 10, 0, 0]) 6 true := by
  constructor
  · intro checked
    have accepted := checked.accepted.mp (by decide)
    rcases accepted with ⟨short, -⟩ | ⟨-, fills, -⟩
    · exact absurd short (by decide)
    · exact absurd fills (by decide)
  · intro checked
    exact absurd checked.reads (by decide)

end PqDtls.Dtls
