import PqDtls.Dtls.Sending

/-! # ECDSA signatures on the wire

    `dtls_add_ecdsa_signature_elem` with its integer encoder against
    `dtls_check_ecdsa_signature_elem`.  The encoder drops every zero word and the top byte of
    a small top word; the decoder takes the 32 bytes before the end of each integer.
    **`signatureReturns_iff`**: a signature comes back, with the right integers on the wire,
    exactly when no word of it is zero and no top word is below `2 ^ 23`. -/

namespace PqDtls.Dtls

/-! ## The encoder -/

/-- What the body of the loop writes for a word that is not zero. -/
def ecWordAsn1 (first : Bool) (k : UInt32) : Bytes :=
  -- the first bit has to be zero, for a positive integer
  if first ∧ k &&& 0x80000000 ≠ 0 then 0 :: dtlsIntToUint32 k.toNat
  else if first ∧ k &&& 0xFF800000 = 0 then dtlsIntToUint24 k.toNat
  else if first ∧ k &&& 0xFFFF8000 = 0 then dtlsIntToUint16 k.toNat
  else if first ∧ k &&& 0xFFFFFF80 = 0 then dtlsIntToUint8 k.toNat
  else dtlsIntToUint32 k.toNat

/-- The loop, over the words from the most significant one. -/
def ecWordsAsn1 : Bool → List UInt32 → Bytes
  | _, [] => []
  | first, k :: ks =>
      if k = 0 then ecWordsAsn1 first ks else ecWordAsn1 first k ++ ecWordsAsn1 false ks

/-- A number of `DTLS_EC_KEY_SIZE` bytes, the least significant word first. -/
abbrev EcNumber := Vector UInt32 8

/-- `dtls_ec_key_from_uint32_asn1`: the bytes it writes. -/
def dtlsEcKeyFromUint32Asn1 (key : EcNumber) : Bytes := ecWordsAsn1 true key.toList.reverse

/-- `dtls_add_ecdsa_signature_elem`: the memory at `p`, and how many bytes are in use. -/
def dtlsAddEcdsaSignatureElem (p : Ptr) (pointR pointS : EcNumber) : Ptr × Nat :=
  let r := dtlsEcKeyFromUint32Asn1 pointR
  let s := dtlsEcKeyFromUint32Asn1 pointS
  let rKeyOffset := 1 + 1 + 2 + 1 + 1 + 1 + 1
  let sKeyOffset := rKeyOffset + r.length + 1 + 1
  let p := (p.overwrite rKeyOffset r).overwrite sKeyOffset s
  let p := p.overwrite 0 (dtlsIntToUint8 tlsExtSigHashAlgoSha256
    ++ dtlsIntToUint8 tlsExtSigHashAlgoEcdsa
    ++ dtlsIntToUint16 (r.length + s.length + 2 + 2 + 2)
    ++ dtlsIntToUint8 0x30 ++ dtlsIntToUint8 (r.length + s.length + 2 + 2)
    ++ dtlsIntToUint8 0x02 ++ dtlsIntToUint8 r.length)
  let p := p.overwrite (rKeyOffset + r.length) (dtlsIntToUint8 0x02 ++ dtlsIntToUint8 s.length)
  (p, sKeyOffset + s.length)

/-! ## What the numbers mean -/

/-- The value of words, the most significant one first. -/
def wordsValue (words : List UInt32) : Nat := words.foldl (fun v k => 2 ^ 32 * v + k.toNat) 0

/-- The number itself. -/
def EcNumber.value (key : EcNumber) : Nat := wordsValue key.toList.reverse

/-- The value of the contents of an ASN.1 INTEGER. -/
def twosComplement (contents : Bytes) : Int :=
  if 128 ≤ (contents.headD 0).toNat then (bytesToInt contents : Int) - 256 ^ contents.length
  else bytesToInt contents

/-- The ASN.1 INTEGER at `p`, with a length of one byte. -/
def asn1Integer (p : Ptr) : Option Int :=
  if p 0 = 0x02 then some (twosComplement ((p.add 2).bytes (p 1).toNat)) else none

/-- The `size` bytes at `m` are decoded to pointers to `r` and `s`, and they have two ASN.1
    INTEGERs of these values. -/
def Carries (m : Ptr) (size : Nat) (r s : EcNumber) : Prop :=
  (∃ resultR resultS, dtlsCheckEcdsaSignatureElem m size = .ok (resultR, resultS)
    ∧ resultR.bytes dtlsEcKeySize = intToBytes 32 r.value
    ∧ resultS.bytes dtlsEcKeySize = intToBytes 32 s.value)
  ∧ asn1Integer (m.add 6) = some (r.value : Int)
  ∧ asn1Integer (m.add (8 + (m 7).toNat)) = some (s.value : Int)

/-- The signature written at `p` carries its two numbers. -/
def SignatureReturns (p : Ptr) (r s : EcNumber) : Prop :=
  Carries (dtlsAddEcdsaSignatureElem p r s).1 (dtlsAddEcdsaSignatureElem p r s).2 r s

/-- No word is zero, and the top word has a bit among its nine highest. -/
def EcNumber.Full (key : EcNumber) : Prop := (∀ k ∈ key.toList, k ≠ 0) ∧ 2 ^ 23 ≤ key[7].toNat

instance (key : EcNumber) : Decidable key.Full := inferInstanceAs (Decidable (_ ∧ _))

/-! ## The words of a number -/

/-- A mask of the high bits. -/
theorem and_highMask (k : UInt32) {b : Nat} {m : UInt32} (hb : b ≤ 32)
    (hm : m.toNat = 2 ^ 32 - 2 ^ b) : k &&& m = 0 ↔ k.toNat < 2 ^ b := by
  have split : 2 ^ 32 = 2 ^ (32 - b) * 2 ^ b := by rw [← Nat.pow_add, Nat.sub_add_cancel hb]
  have mask : m.toNat = 2 ^ b * (2 ^ (32 - b) - 1) := by
    rw [hm, split, Nat.mul_sub, Nat.mul_one, Nat.mul_comm]
  have low : (k.toNat &&& m.toNat) % 2 ^ b = 0 := by
    rw [Nat.and_mod_two_pow, mask, Nat.mul_mod_right, Nat.and_zero]
  have high : (k.toNat &&& m.toNat) / 2 ^ b = k.toNat / 2 ^ b := by
    rw [← Nat.shiftRight_eq_div_pow, Nat.shiftRight_and_distrib, Nat.shiftRight_eq_div_pow,
      Nat.shiftRight_eq_div_pow, mask, Nat.mul_div_cancel_left _ (Nat.two_pow_pos b),
      Nat.and_two_pow_sub_one_eq_mod, Nat.mod_eq_of_lt]
    exact Nat.div_lt_of_lt_mul (by rw [Nat.mul_comm, ← split]; exact k.toNat_lt)
  rw [← UInt32.toNat_inj, UInt32.toNat_and, UInt32.toNat_zero, ← Nat.div_eq_zero_iff_lt
    (Nat.two_pow_pos b), ← high]
  constructor
  · intro zero
    rw [zero, Nat.zero_div]
  · intro zero
    rw [← Nat.div_add_mod (k.toNat &&& m.toNat) (2 ^ b), zero, low, Nat.mul_zero]

/-- Of the short forms only the one of three bytes is ever used. -/
theorem ecWordAsn1_first (k : UInt32) : ecWordAsn1 true k =
    if 2 ^ 31 ≤ k.toNat then 0 :: intToBytes 4 k.toNat
    else if k.toNat < 2 ^ 23 then intToBytes 3 k.toNat else intToBytes 4 k.toNat := by
  have sign : k &&& 0x80000000 = 0 ↔ k.toNat < 2 ^ 31 := and_highMask k (by decide) rfl
  have three : k &&& 0xFF800000 = 0 ↔ k.toNat < 2 ^ 23 := and_highMask k (by decide) rfl
  have two : k &&& 0xFFFF8000 = 0 ↔ k.toNat < 2 ^ 15 := and_highMask k (by decide) rfl
  have one : k &&& 0xFFFFFF80 = 0 ↔ k.toNat < 2 ^ 7 := and_highMask k (by decide) rfl
  unfold ecWordAsn1
  simp only [true_and, ne_eq, sign, three, two, one, not_lt]
  split
  · rfl
  · split
    · rfl
    · rw [if_neg (by omega), if_neg (by omega)]
      rfl

theorem ecWordAsn1_later (k : UInt32) : ecWordAsn1 false k = intToBytes 4 k.toNat := by
  simp [ecWordAsn1, dtlsIntToUint32]

/-- Every form has the value of the word. -/
theorem bytesToInt_ecWordAsn1 (first : Bool) (k : UInt32) :
    bytesToInt (ecWordAsn1 first k) = k.toNat := by
  have four : bytesToInt (intToBytes 4 k.toNat) = k.toNat :=
    bytesToInt_intToBytes_of_lt k.toNat_lt
  cases first with
  | false => rw [ecWordAsn1_later, four]
  | true =>
      rw [ecWordAsn1_first]
      split
      · rw [bytesToInt_cons, four]
        show _ * 0 + _ = _
        omega
      · split
        · exact bytesToInt_intToBytes_of_lt (by omega)
        · exact four

/-- The first byte leaves the sign bit free. -/
theorem head_ecWordAsn1 (k : UInt32) (rest : Bytes) :
    ((ecWordAsn1 true k ++ rest).headD 0).toNat < 128 := by
  have head (n v : Nat) :
      ((intToBytes (n + 1) v ++ rest).headD 0).toNat = v / 2 ^ (8 * n) % 256 := by
    rw [intToBytes, List.cons_append, List.headD_cons, UInt8.toNat_ofNat',
      Nat.shiftRight_eq_div_pow]
  rw [ecWordAsn1_first]
  split
  · exact Nat.zero_lt_of_lt (Nat.lt_succ_self 127)
  · split
    · rw [head 2]
      omega
    · rw [head 3]
      omega

/-! ## All the words -/

theorem bytesToInt_append (a b : Bytes) :
    bytesToInt (a ++ b) = 256 ^ b.length * bytesToInt a + bytesToInt b := by
  rw [bytesToInt, List.foldl_append, foldl_bytesToInt]
  rfl

theorem foldl_wordsValue (words : List UInt32) (v : Nat) :
    words.foldl (fun v k => 2 ^ 32 * v + k.toNat) v
      = 2 ^ (32 * words.length) * v + wordsValue words := by
  unfold wordsValue
  induction words generalizing v with
  | nil => simp
  | cons k words ih =>
      simp only [List.foldl_cons, List.length_cons]
      rw [ih, ih (2 ^ 32 * 0 + k.toNat), Nat.mul_succ, Nat.pow_add]
      ring

theorem wordsValue_cons (k : UInt32) (words : List UInt32) :
    wordsValue (k :: words) = 2 ^ (32 * words.length) * k.toNat + wordsValue words := by
  show words.foldl _ (2 ^ 32 * 0 + k.toNat) = _
  rw [foldl_wordsValue]
  ring

theorem wordsValue_lt (words : List UInt32) : wordsValue words < 2 ^ (32 * words.length) := by
  induction words with
  | nil => exact Nat.one_pos
  | cons k words ih =>
      rw [wordsValue_cons, List.length_cons, Nat.mul_succ, Nat.pow_add]
      have word : k.toNat + 1 ≤ 2 ^ 32 := k.toNat_lt
      calc 2 ^ (32 * words.length) * k.toNat + wordsValue words
          < 2 ^ (32 * words.length) * k.toNat + 2 ^ (32 * words.length) :=
            Nat.add_lt_add_left ih _
        _ = 2 ^ (32 * words.length) * (k.toNat + 1) := by ring
        _ ≤ 2 ^ (32 * words.length) * 2 ^ 32 := Nat.mul_le_mul_left _ word

/-- The words after the first one take four bytes each, unless they are zero. -/
theorem length_ecWordsAsn1_later (words : List UInt32) :
    (ecWordsAsn1 false words).length ≤ 4 * words.length
      ∧ (0 ∈ words → (ecWordsAsn1 false words).length + 4 ≤ 4 * words.length) := by
  induction words with
  | nil => exact ⟨Nat.le_refl 0, fun h => absurd h List.not_mem_nil⟩
  | cons k words ih =>
      rw [ecWordsAsn1, List.length_cons]
      by_cases zero : k = 0
      · rw [if_pos zero]
        exact ⟨by omega, fun _ => by omega⟩
      · rw [if_neg zero, List.length_append, ecWordAsn1_later, length_intToBytes]
        refine ⟨by omega, fun h => ?_⟩
        have later := ih.2 ((List.mem_cons.mp h).resolve_left (Ne.symm zero))
        omega

/-- Without a zero word the bytes are those of the number. -/
theorem ecWordsAsn1_full (first : Bool) {words : List UInt32} (full : ∀ k ∈ words, k ≠ 0) :
    bytesToInt (ecWordsAsn1 first words) = wordsValue words
      ∧ (first = false → (ecWordsAsn1 first words).length = 4 * words.length) := by
  induction words generalizing first with
  | nil => exact ⟨rfl, fun _ => rfl⟩
  | cons k words ih =>
      obtain ⟨value, length⟩ := ih false fun x hx => full x (List.mem_cons_of_mem k hx)
      rw [ecWordsAsn1, if_neg (full k List.mem_cons_self)]
      constructor
      · rw [bytesToInt_append, bytesToInt_ecWordAsn1, value, length rfl, wordsValue_cons]
        congr 2
        rw [Nat.pow_mul, Nat.pow_mul]
      · rintro rfl
        rw [List.length_append, ecWordAsn1_later, length_intToBytes, length rfl, List.length_cons]
        omega

/-- An encoded number is never negative. -/
theorem head_ecWordsAsn1 (words : List UInt32) :
    ((ecWordsAsn1 true words).headD 0).toNat < 128 := by
  induction words with
  | nil => decide
  | cons k words ih =>
      rw [ecWordsAsn1]
      split
      · exact ih
      · exact head_ecWordAsn1 k _

/-- One word after the other takes at most four bytes, and the sign byte. -/
theorem length_ecWordsAsn1_le (words : List UInt32) :
    (ecWordsAsn1 true words).length ≤ 4 * words.length + 1 := by
  induction words with
  | nil => exact Nat.zero_le 1
  | cons k words ih =>
      rw [ecWordsAsn1, List.length_cons]
      split
      · omega
      · have later := (length_ecWordsAsn1_later words).1
        rw [List.length_append, ecWordAsn1_first]
        split
        · rw [List.length_cons, length_intToBytes]
          omega
        · split <;> rw [length_intToBytes] <;> omega

/-! ## One number -/

theorem EcNumber.words (key : EcNumber) :
    ∃ rest : List UInt32, key.toList.reverse = key[7] :: rest ∧ rest.length = 7 := by
  have length : key.toList.reverse.length = 8 := by rw [List.length_reverse, Vector.length_toList]
  cases h : key.toList.reverse with
  | nil => rw [h] at length; exact absurd length (by decide)
  | cons top rest =>
      have first : key.toList.reverse[0]? = some key[7] := by
        rw [List.getElem?_reverse (by rw [Vector.length_toList]; decide), Vector.length_toList]
        exact List.getElem?_eq_getElem (by rw [Vector.length_toList]; decide)
      rw [h] at first length
      exact ⟨rest, by rw [Option.some.inj first], Nat.succ.inj length⟩

theorem EcNumber.value_lt (key : EcNumber) : key.value < 256 ^ 32 := by
  have bound := wordsValue_lt key.toList.reverse
  rw [List.length_reverse, Vector.length_toList] at bound
  exact lt_of_lt_of_eq bound (by norm_num)

theorem length_asn1_le (key : EcNumber) : (dtlsEcKeyFromUint32Asn1 key).length ≤ 33 := by
  have bound := length_ecWordsAsn1_le key.toList.reverse
  rwa [List.length_reverse, Vector.length_toList] at bound

/-- What is left out shows in the length. -/
theorem length_asn1 (key : EcNumber) : 32 ≤ (dtlsEcKeyFromUint32Asn1 key).length ↔ key.Full := by
  obtain ⟨rest, words, seven⟩ := key.words
  have members : (∀ k ∈ key.toList, k ≠ 0) ↔ key[7] ≠ 0 ∧ 0 ∉ rest := by
    have reversed : (∀ k ∈ key.toList, k ≠ 0) ↔ ∀ k ∈ key[7] :: rest, k ≠ 0 := by
      rw [← words]
      exact forall_congr' fun k => by rw [List.mem_reverse]
    rw [reversed, List.forall_mem_cons]
    exact and_congr_right fun _ => ⟨fun h zero => h 0 zero rfl, fun h k hk zero => h (zero ▸ hk)⟩
  have later := length_ecWordsAsn1_later rest
  rw [EcNumber.Full, members, dtlsEcKeyFromUint32Asn1, words, ecWordsAsn1]
  by_cases zero : key[7] = 0
  · have short := length_ecWordsAsn1_le rest
    rw [if_pos zero]
    exact ⟨fun h => by omega, fun h => absurd zero h.1.1⟩
  · rw [if_neg zero, List.length_append, ecWordAsn1_first]
    have none_lost : 0 ∉ rest → (ecWordsAsn1 false rest).length = 28 := by
      intro h
      have length := (ecWordsAsn1_full false fun k hk (e : k = 0) => h (e ▸ hk)).2 rfl
      omega
    by_cases lost : (0 : UInt32) ∈ rest
    · have shorter := later.2 lost
      refine ⟨fun h => ?_, fun h => absurd lost h.1.2⟩
      exfalso
      split at h
      · rw [List.length_cons, length_intToBytes] at h
        omega
      · split at h <;> rw [length_intToBytes] at h <;> omega
    · have whole := none_lost lost
      split
      · rw [List.length_cons, length_intToBytes, whole]
        exact ⟨fun _ => ⟨⟨zero, lost⟩, by omega⟩, fun _ => by omega⟩
      · split
        · rw [length_intToBytes, whole]
          exact ⟨fun h => by omega, fun h => by omega⟩
        · rw [length_intToBytes, whole]
          exact ⟨fun _ => ⟨⟨zero, lost⟩, by omega⟩, fun _ => by omega⟩

/-- A full number is written as it is. -/
theorem bytesToInt_asn1 {key : EcNumber} (full : key.Full) :
    bytesToInt (dtlsEcKeyFromUint32Asn1 key) = key.value :=
  (ecWordsAsn1_full true fun k hk => full.1 k (List.mem_reverse.mp hk)).1

theorem twosComplement_asn1 (key : EcNumber) :
    twosComplement (dtlsEcKeyFromUint32Asn1 key) = bytesToInt (dtlsEcKeyFromUint32Asn1 key) :=
  if_neg (Nat.not_le.mpr (head_ecWordsAsn1 key.toList.reverse))

/-! ## The pointer to a number -/

theorem intToBytes_bytesToInt (b : Bytes) : intToBytes b.length (bytesToInt b) = b := by
  induction b with
  | nil => rfl
  | cons x b ih =>
      have low (n v u : Nat) (h : n ≤ b.length) : intToBytes n (256 ^ b.length * u + v)
          = intToBytes n v := by
        induction n with
        | zero => rfl
        | succ n ih =>
            rw [intToBytes, intToBytes, ih (by omega)]
            congr 1
            rw [← UInt8.toNat_inj, UInt8.toNat_ofNat', UInt8.toNat_ofNat',
              Nat.shiftRight_eq_div_pow, Nat.shiftRight_eq_div_pow, Nat.pow_mul]
            show _ / 256 ^ n % 256 = v / 256 ^ n % 256
            have split : 256 ^ b.length * u + v
                = v + 256 ^ n * (256 * (256 ^ (b.length - n - 1) * u)) := by
              have power : 256 ^ b.length = 256 ^ n * (256 * 256 ^ (b.length - n - 1)) := by
                rw [← Nat.pow_succ', ← Nat.pow_add]
                congr 1
                omega
              rw [power]
              ring
            rw [split, Nat.add_mul_div_left _ _ (by positivity), Nat.add_mul_mod_self_left]
      rw [List.length_cons, intToBytes, bytesToInt_cons, low b.length _ _ (Nat.le_refl _), ih,
        Nat.shiftRight_eq_div_pow, Nat.pow_mul, Nat.mul_add_div (by positivity),
        Nat.div_eq_of_lt (bytesToInt_lt b), Nat.add_zero, UInt8.ofNat_toNat]

/-- Bytes are those of a number when they have its value. -/
theorem bytes_eq_intToBytes {b : Bytes} {n v : Nat} (hb : b.length = n) (hv : v < 256 ^ n) :
    b = intToBytes n v ↔ bytesToInt b = v := by
  constructor
  · rintro rfl
    exact bytesToInt_intToBytes_of_lt hv
  · rintro rfl
    rw [← hb, intToBytes_bytesToInt]

/-- The 32 bytes before the end of an ASN.1 INTEGER of the right value are the number when none
    of them comes from before the contents: there the length and the tag are read. -/
theorem pointer_iff {m : Ptr} {k : Int} {b : Bytes} (tag : m (k - 2) = 0x02)
    (length : (m (k - 1)).toNat = b.length) (contents : (m.add k).bytes b.length = b)
    (small : bytesToInt b < 256 ^ 32) :
    (m.add (k + b.length - 32)).bytes 32 = intToBytes 32 (bytesToInt b) ↔ 32 ≤ b.length := by
  rw [bytes_eq_intToBytes (Ptr.length_bytes _ _) small]
  by_cases long : 32 ≤ b.length
  · refine iff_of_true ?_ long
    have split : b.length = b.length - 32 + 32 := by omega
    have front := contents
    rw [split, Ptr.bytes_add, Ptr.add_add] at front
    have value := congrArg bytesToInt front
    have place : k + ((b.length - 32 : Nat) : Int) = k + b.length - 32 := by omega
    rw [bytesToInt_append, Ptr.length_bytes, place] at value
    have none_before : bytesToInt ((m.add k).bytes (b.length - 32)) = 0 := by
      by_contra some_before
      have large : 256 ^ 32 ≤ 256 ^ 32 * bytesToInt ((m.add k).bytes (b.length - 32)) :=
        Nat.le_mul_of_pos_right _ (Nat.pos_of_ne_zero some_before)
      omega
    rwa [none_before, Nat.mul_zero, Nat.zero_add] at value
  · refine iff_of_false (fun value => ?_) long
    -- what is read before the contents
    have split : 32 = 31 - b.length + 1 + b.length := by omega
    have place : k + (b.length : Int) - 32 + ((31 - b.length + 1 : Nat) : Int) = k := by omega
    have before : bytesToInt ((m.add (k + b.length - 32)).bytes (31 - b.length + 1)) = 0 := by
      have parts := congrArg (m.add (k + b.length - 32)).bytes split
      rw [Ptr.bytes_add, Ptr.add_add, place, contents] at parts
      rw [parts, bytesToInt_append] at value
      have zero : 256 ^ b.length
          * bytesToInt ((m.add (k + b.length - 32)).bytes (31 - b.length + 1)) = 0 := by omega
      exact (Nat.mul_eq_zero.mp zero).resolve_left (by positivity)
    have one (p : Ptr) : bytesToInt (p.bytes 1) = (p 0).toNat := by
      show 256 * 0 + (p 0).toNat = _
      omega
    have last : k + (b.length : Int) - 32 + ((31 - b.length : Nat) : Int) = k - 1 := by omega
    rw [Ptr.bytes_add, Ptr.add_add, last, bytesToInt_append, one, Ptr.length_bytes] at before
    have here : (m.add (k - 1)) 0 = m (k - 1) := congrArg m (zero_add (k - 1))
    rw [here, length] at before
    have empty : b.length = 0 := by omega
    rw [empty] at before
    have tail : 31 - 0 = 30 + 1 := rfl
    have tag_place : k + ((0 : Nat) : Int) - 32 + ((30 : Nat) : Int) = k - 2 := by omega
    have there : (m.add (k - 2)) 0 = m (k - 2) := congrArg m (zero_add (k - 2))
    rw [tail, Ptr.bytes_add, Ptr.add_add, tag_place, bytesToInt_append, one, Ptr.length_bytes,
      there, tag] at before
    have two : (0x02 : UInt8).toNat = 2 := rfl
    omega

/-! ## The memory -/

theorem overwrite_at (p : Ptr) (off : Nat) (b : Bytes) :
    ((p.overwrite off b).add off).bytes b.length = b := by
  have at_off := overwrite_bytes p off b []
  rwa [List.append_nil] at at_off

theorem overwrite_apart (p : Ptr) {o n k : Nat} {b : Bytes}
    (apart : k + n ≤ o ∨ o + b.length ≤ k) :
    ((p.overwrite o b).add k).bytes n = (p.add k).bytes n := by
  refine Ptr.bytes_congr fun i hi => if_neg ?_
  omega

/-- What `dtls_add_ecdsa_signature_elem` leaves in memory for two encoded numbers. -/
structure SignatureAt (m : Ptr) (r s : Bytes) : Prop where
  header : m.bytes 8 = [4, 3] ++ intToBytes 2 (r.length + s.length + 6)
    ++ [0x30, UInt8.ofNat (r.length + s.length + 4), 0x02, UInt8.ofNat r.length]
  contentsR : (m.add 8).bytes r.length = r
  middle : (m.add (8 + r.length)).bytes 2 = [0x02, UInt8.ofNat s.length]
  contentsS : (m.add (10 + r.length)).bytes s.length = s

theorem signatureAt (p : Ptr) (r s : EcNumber) :
    SignatureAt (dtlsAddEcdsaSignatureElem p r s).1 (dtlsEcKeyFromUint32Asn1 r)
      (dtlsEcKeyFromUint32Asn1 s) := by
  unfold dtlsAddEcdsaSignatureElem
  generalize dtlsEcKeyFromUint32Asn1 r = r
  generalize dtlsEcKeyFromUint32Asn1 s = s
  dsimp only
  have tail : ([0x02, UInt8.ofNat s.length] : Bytes).length = 2 := rfl
  constructor
  · have before := overwrite_apart (b := [0x02, UInt8.ofNat s.length])
      (((p.overwrite 8 r).overwrite (8 + r.length + 1 + 1) s).overwrite 0
        ([4, 3] ++ intToBytes 2 (r.length + s.length + 6)
          ++ [0x30, UInt8.ofNat (r.length + s.length + 4), 0x02, UInt8.ofNat r.length]))
      (o := 8 + r.length) (n := 8) (k := 0) (Or.inl (by omega))
    refine before.trans ?_
    exact overwrite_at _ 0 _
  · rw [show (8 : Int) = ((8 : Nat) : Int) from rfl, overwrite_apart _ (Or.inl (by omega)),
      overwrite_apart _ (Or.inr (Nat.le_refl 8)), overwrite_apart _ (Or.inl (by omega)),
      overwrite_at]
  · exact overwrite_at _ (8 + r.length) [0x02, UInt8.ofNat s.length]
  · have place : (10 : Int) + r.length = ((8 + r.length + 1 + 1 : Nat) : Int) := by omega
    rw [place, overwrite_apart _ (Or.inr (Nat.le_refl (8 + r.length + 2))),
      overwrite_apart _ (Or.inr (by show 8 ≤ _; omega)), overwrite_at]

namespace SignatureAt

variable {m : Ptr} {r s : Bytes} (h : SignatureAt m r s)

include h

theorem fields : m 0 = 4 ∧ m 1 = 3 ∧ (m.add 2).uint16 = (r.length + s.length + 6) % 256 ^ 2
    ∧ m 4 = 0x30 ∧ m 5 = UInt8.ofNat (r.length + s.length + 4) ∧ m 6 = 0x02
    ∧ m 7 = UInt8.ofNat r.length := by
  have header : [m 0, m 1, m 2, m 3, m 4, m 5, m 6, m 7] = _ := h.header
  simp only [intToBytes, List.cons_append, List.nil_append, List.cons.injEq, and_true] at header
  obtain ⟨hash, algorithm, high, low, sequence, inner, tag, length⟩ := header
  have size : (m.add 2).bytes 2 = intToBytes 2 (r.length + s.length + 6) := by
    show [m 2, m 3] = _
    rw [high, low]
    rfl
  refine ⟨hash, algorithm, ?_, sequence, inner, tag, length⟩
  rw [Ptr.uint16, size, bytesToInt_intToBytes]

theorem second : m (8 + r.length) = 0x02 ∧ m (9 + r.length) = UInt8.ofNat s.length := by
  have middle : [m (0 + (8 + r.length)), m (1 + (8 + r.length))] = _ := h.middle
  simp only [List.cons.injEq, and_true, zero_add] at middle
  refine ⟨middle.1, ?_⟩
  rw [← middle.2]
  congr 1
  ring

theorem toNat_lengthR (hr : r.length ≤ 33) : (m 7).toNat = r.length := by
  obtain ⟨-, -, -, -, -, -, length⟩ := h.fields
  rw [length, UInt8.toNat_ofNat']
  omega

theorem toNat_lengthS (hs : s.length ≤ 33) : (m (9 + r.length)).toNat = s.length := by
  rw [h.second.2, UInt8.toNat_ofNat']
  omega

/-- The decoder accepts it. -/
theorem decodes (hr : r.length ≤ 33) (hs : s.length ≤ 33) :
    dtlsCheckEcdsaSignatureElem m (10 + r.length + s.length)
      = .ok (m.add (8 + r.length - 32), m.add (10 + r.length + s.length - 32)) := by
  obtain ⟨hash, algorithm, size, sequence, inner, tag, -⟩ := h.fields
  have tagS := h.second.1
  have byte (k : Int) : (m.add k).uint8 = (m k).toNat := by
    have here : (m.add k) 0 = m k := congrArg m (zero_add k)
    show 256 * 0 + ((m.add k) 0).toNat = _
    rw [here]
    omega
  have first : m.uint8 = 4 := by
    show 256 * 0 + (m 0).toNat = 4
    rw [hash]
    rfl
  have lenR := h.toNat_lengthR hr
  have lenS := h.toNat_lengthS hs
  have room (k : Nat) (hk : k ≤ 5) :
      sizeT (((10 + r.length + s.length : Nat) : Int) - k) = 10 + r.length + s.length - k := by
    unfold sizeT
    omega
  have size' : (m.add 2).uint16 = r.length + s.length + 6 := by
    rw [size]
    omega
  have inner' : (m 5).toNat = r.length + s.length + 4 := by
    rw [inner, UInt8.toNat_ofNat']
    omega
  have two : (0x02 : UInt8).toNat = 2 := rfl
  have outer := room 2 (by decide)
  have rest := room 5 (by decide)
  push_cast at outer rest
  unfold dtlsCheckEcdsaSignatureElem
  dsimp only
  simp only [byte, first, lenR, lenS, algorithm, sequence, tag, tagS, size', inner']
  push_cast
  rw [if_neg (by decide), if_neg (by decide), if_neg (by rw [outer]; omega), if_neg (by decide),
    if_neg (by rw [rest]; omega), if_neg (by decide), if_neg (by decide)]
  rfl

/-- The two ASN.1 INTEGERs in it. -/
theorem integers (hr : r.length ≤ 33) (hs : s.length ≤ 33) :
    asn1Integer (m.add 6) = some (twosComplement r)
      ∧ asn1Integer (m.add (8 + (m 7).toNat)) = some (twosComplement s) := by
  obtain ⟨-, -, -, -, -, tag, -⟩ := h.fields
  have tagS := h.second.1
  have lenR := h.toNat_lengthR hr
  have lenS := h.toNat_lengthS hs
  have integer {k : Int} {b : Bytes} (htag : m k = 0x02) (hlen : (m (1 + k)).toNat = b.length)
      (hb : (m.add (k + 2)).bytes b.length = b) :
      asn1Integer (m.add k) = some (twosComplement b) := by
    have start : (m.add k) 0 = 0x02 := (congrArg m (zero_add k)).trans htag
    have len : ((m.add k) 1).toNat = b.length := hlen
    rw [asn1Integer, if_pos start, len, Ptr.add_add, hb]
  constructor
  · exact integer tag lenR h.contentsR
  · rw [lenR]
    refine integer tagS ?_ ?_
    · rw [← lenS]
      congr 2
      ring
    · have place : (8 : Int) + r.length + 2 = 10 + r.length := by ring
      rw [place, h.contentsS]

/-- Which of the two pointers are right. -/
theorem pointers (hr : bytesToInt r < 256 ^ 32) (hs : bytesToInt s < 256 ^ 32)
    (shortR : r.length ≤ 33) (shortS : s.length ≤ 33) :
    ((m.add (8 + r.length - 32)).bytes 32 = intToBytes 32 (bytesToInt r) ↔ 32 ≤ r.length)
      ∧ ((m.add (10 + r.length + s.length - 32)).bytes 32 = intToBytes 32 (bytesToInt s)
        ↔ 32 ≤ s.length) := by
  obtain ⟨-, -, -, -, -, tag, -⟩ := h.fields
  constructor
  · exact pointer_iff tag (h.toNat_lengthR shortR) h.contentsR hr
  · refine pointer_iff ?_ ?_ h.contentsS hs
    · have place : (10 : Int) + r.length - 2 = 8 + r.length := by ring
      rw [place, h.second.1]
    · have place : (10 : Int) + r.length - 1 = 9 + r.length := by ring
      rw [place, h.toNat_lengthS shortS]

end SignatureAt

/-- **A SIGNATURE COMES BACK EXACTLY WHEN BOTH NUMBERS ARE FULL.** -/
theorem signatureReturns_iff (p : Ptr) (r s : EcNumber) :
    SignatureReturns p r s ↔ r.Full ∧ s.Full := by
  have written := signatureAt p r s
  have shortR := length_asn1_le r
  have shortS := length_asn1_le s
  have size : (dtlsAddEcdsaSignatureElem p r s).2
      = 10 + (dtlsEcKeyFromUint32Asn1 r).length + (dtlsEcKeyFromUint32Asn1 s).length := by
    show 8 + _ + 1 + 1 + _ = _
    omega
  have decoded := written.decodes shortR shortS
  obtain ⟨integerR, integerS⟩ := written.integers shortR shortS
  rw [twosComplement_asn1] at integerR integerS
  rw [SignatureReturns, size, ← length_asn1 r, ← length_asn1 s]
  constructor
  · rintro ⟨⟨resultR, resultS, check, hR, hS⟩, valueR, valueS⟩
    have exactR : bytesToInt (dtlsEcKeyFromUint32Asn1 r) = r.value :=
      Int.ofNat.inj (Option.some.inj (integerR.symm.trans valueR))
    have exactS : bytesToInt (dtlsEcKeyFromUint32Asn1 s) = s.value :=
      Int.ofNat.inj (Option.some.inj (integerS.symm.trans valueS))
    rw [decoded] at check
    obtain ⟨rfl, rfl⟩ := Prod.mk.inj (Except.ok.inj check)
    obtain ⟨ptrR, ptrS⟩ := written.pointers (exactR ▸ r.value_lt) (exactS ▸ s.value_lt) shortR
      shortS
    rw [exactR] at ptrR
    rw [exactS] at ptrS
    exact ⟨ptrR.mp hR, ptrS.mp hS⟩
  · rintro ⟨longR, longS⟩
    have exactR := bytesToInt_asn1 ((length_asn1 r).mp longR)
    have exactS := bytesToInt_asn1 ((length_asn1 s).mp longS)
    obtain ⟨ptrR, ptrS⟩ := written.pointers (exactR ▸ r.value_lt) (exactS ▸ s.value_lt) shortR
      shortS
    rw [exactR] at ptrR integerR
    rw [exactS] at ptrS integerS
    exact ⟨⟨_, _, decoded, ptrR.mpr longR, ptrS.mpr longS⟩, integerR, integerS⟩

/-- A number with a top word of 23 bits loses its first byte: the pointer is to the length. -/
theorem signature_short_top :
    ¬ ∀ (p : Ptr) (r s : EcNumber), SignatureReturns p r s := by
  intro all
  let short : EcNumber := #v[1, 1, 1, 1, 1, 1, 1, 0x007FFFFF]
  obtain ⟨⟨resultR, resultS, check, hR, -⟩, -⟩ := all (fun _ => 0) short short
  have pointer := congrArg (fun e => e.toOption.map fun q => q.1.bytes dtlsEcKeySize) check
  simp only [Except.toOption, Option.map_some, hR] at pointer
  revert pointer
  decide +kernel

end PqDtls.Dtls
