import PqDtls.Dtls.Numeric

/-! # Counter mode with CBC-MAC

    `dtls-ccm.c`, for an arbitrary block function `E` in place of
    `rijndael_encrypt` under a fixed key.  Messages are encrypted in place in the
    source; here the memory after the call is the result. -/

namespace PqDtls.Dtls

abbrev Block := Vector UInt8 16

variable (E : Block → Block)

/-- `CCM_FLAGS`. -/
def ccmFlags (la M L : Nat) : UInt8 :=
  UInt8.ofNat ((if la > 0 then 1 else 0) <<< 6 ||| ((M - 2) / 2) <<< 3 ||| (L - 1))

/-- The first authentication block. -/
def block0 (M L la lm : Nat) (nonce : Block) : Block := Vector.ofFn fun i =>
  if i.val = 0 then ccmFlags la M L
  else if i.val < 16 - L then nonce[i.val - 1]!
  else UInt8.ofNat (lm >>> (8 * (15 - i.val)))

/-- `memset(B, 0, …)` followed by `memcpy(B, b, …)`. -/
def padBlock (b : Bytes) : Block := Vector.ofFn fun i => b.getD i.val 0

def memxor (x y : Block) : Block := Vector.zipWith (· ^^^ ·) x y

/-- The `while` loop of `add_auth_data` and the padded rest. -/
def authLoop : Nat → Block → Bytes → Block
  | 0, X, _ => X
  | fuel + 1, X, msg =>
      if msg.length > 16 then
        authLoop fuel (E (memxor X (padBlock (msg.take 16)))) (msg.drop 16)
      else if msg.length ≠ 0 then E (memxor (padBlock msg) X)
      else X

/-- `add_auth_data`, from the first block to the block `X`. -/
def addAuthData (aad : Bytes) (B : Block) : Block :=
  let X := E B
  if aad.length = 0 then X
  else
    let la := aad.length
    let field :=
      if la < 0xFF00 then dtlsIntToUint16 la
      else if la < 2 ^ 32 then dtlsIntToUint16 0xFFFE ++ dtlsIntToUint32 la
      else dtlsIntToUint16 0xFFFF ++ dtlsIntToUint64 la
    let i := min (16 - field.length) la
    let X := E (memxor (padBlock (field ++ aad.take i)) X)
    authLoop E la X (aad.drop i)

/-- The loop of `SET_COUNTER`: `C` from the last byte of the block down. -/
def setCounterLoop (L : Nat) : Nat → Nat → Block → Block
  | 0, _, A => A
  | i + 1, C, A =>
      if C ≠ 0 ∧ i + 1 > L then
        setCounterLoop L i (C >>> 8) (A.set! (i + 1) (A[i + 1]! ||| UInt8.ofNat (C &&& 0xFF)))
      else A

/-- `SET_COUNTER(A, L, cnt, C)`. -/
def setCounter (A : Block) (L cnt : Nat) : Block :=
  setCounterLoop L 15 (cnt % 2 ^ (8 * L))
    (Vector.ofFn fun i => if i.val < 16 - L then A[i.val]! else 0)

/-- `encrypt`: one chunk under the counter block. -/
def ccmCrypt (A : Block) (L counter : Nat) (msg : Bytes) : Bytes :=
  List.zipWith (· ^^^ ·) msg (E (setCounter A L counter)).toList

/-- `mac`; the bytes of `X` beyond a short chunk stay, as after an exclusive or
    with zeros. -/
def ccmMac (X : Block) (msg : Bytes) : Block := E (memxor X (padBlock msg))

/-- The counter block template: flags, nonce. -/
def counterBlock (L : Nat) (nonce : Block) : Block := Vector.ofFn fun i =>
  if i.val = 0 then UInt8.ofNat (L - 1)
  else if i.val < 16 - L then nonce[i.val - 1]!
  else 0

/-- The chunks of a message: cipher text and the block `X`. -/
def encryptLoop (A : Block) (L : Nat) : Nat → Block → Nat → Bytes → Bytes × Block
  | 0, X, _, _ => ([], X)
  | fuel + 1, X, counter, msg =>
      if msg.length ≥ 16 then
        let r := encryptLoop A L fuel (ccmMac E X (msg.take 16)) (counter + 1) (msg.drop 16)
        (ccmCrypt E A L counter (msg.take 16) ++ r.1, r.2)
      else if msg.length ≠ 0 then (ccmCrypt E A L counter msg, ccmMac E X msg)
      else ([], X)

/-- The chunks of a cipher text: clear text and the block `X`. -/
def decryptLoop (A : Block) (L : Nat) : Nat → Block → Nat → Bytes → Bytes × Block
  | 0, X, _, _ => ([], X)
  | fuel + 1, X, counter, msg =>
      if msg.length ≥ 16 then
        let clear := ccmCrypt E A L counter (msg.take 16)
        let r := decryptLoop A L fuel (ccmMac E X clear) (counter + 1) (msg.drop 16)
        (clear ++ r.1, r.2)
      else if msg.length ≠ 0 then
        let clear := ccmCrypt E A L counter msg
        (clear, ccmMac E X clear)
      else ([], X)

/-- The `M` bytes of the MAC: `X` under the counter block 0. -/
def ccmTag (A : Block) (M L : Nat) (X : Block) : Bytes :=
  (List.zipWith (· ^^^ ·) X.toList (E (setCounter A L 0)).toList).take M

/-- `dtls_ccm_encrypt_message`: the memory from `msg` on. -/
def dtlsCcmEncryptMessage (M L : Nat) (nonce : Block) (msg aad : Bytes) : Bytes :=
  let X := addAuthData E aad (block0 M L aad.length msg.length nonce)
  let A := counterBlock L nonce
  let r := encryptLoop E A L (msg.length + 1) X 1 msg
  r.1 ++ ccmTag E A M L r.2

/-- `dtls_ccm_decrypt_message`: the length of the clear text (`none` is `-1`), and
    the memory from `msg` on. -/
def dtlsCcmDecryptMessage (M L : Nat) (nonce : Block) (msg aad : Bytes) :
    Option Nat × Bytes :=
  if msg.length < M then (none, msg)
  else
    let lm := msg.length - M
    let X := addAuthData E aad (block0 M L aad.length lm nonce)
    let A := counterBlock L nonce
    let r := decryptLoop E A L (lm + 1) X 1 (msg.take lm)
    let tag := List.zipWith (· ^^^ ·) (msg.drop lm) (E (setCounter A L 0)).toList
    (if r.2.toList.take M = tag then some lm else none, r.1 ++ tag)

/-! ## Decrypting what was encrypted -/

theorem zipWith_xor_cancel (x s : Bytes) (h : x.length ≤ s.length) :
    List.zipWith (· ^^^ ·) (List.zipWith (· ^^^ ·) x s) s = x := by
  induction x generalizing s with
  | nil => rfl
  | cons a x ih =>
      cases s with
      | nil => simp at h
      | cons b s =>
          simp only [List.zipWith_cons_cons]
          rw [ih s (by simpa using h), UInt8.xor_assoc, UInt8.xor_self, UInt8.xor_zero]

theorem length_ccmCrypt (A : Block) (L counter : Nat) (msg : Bytes) (h : msg.length ≤ 16) :
    (ccmCrypt E A L counter msg).length = msg.length := by
  simp [ccmCrypt, h]

theorem ccmCrypt_ccmCrypt (A : Block) (L counter : Nat) (msg : Bytes) (h : msg.length ≤ 16) :
    ccmCrypt E A L counter (ccmCrypt E A L counter msg) = msg :=
  zipWith_xor_cancel _ _ (by simpa using h)

theorem length_encryptLoop (A : Block) (L fuel : Nat) (X : Block) (counter : Nat) (msg : Bytes)
    (h : msg.length < 16 * fuel) :
    (encryptLoop E A L fuel X counter msg).1.length = msg.length := by
  induction fuel generalizing X counter msg with
  | zero => omega
  | succ fuel ih =>
      rw [encryptLoop]
      split
      · rename_i hlen
        rw [List.length_append, length_ccmCrypt _ _ _ _ _ (by simp), ih _ _ _ (by simp; omega)]
        simp
        omega
      · split
        · exact length_ccmCrypt _ _ _ _ _ (by omega)
        · rename_i hnil
          exact (Nat.eq_zero_of_not_pos (fun h => hnil (by omega))).symm

/-- The chunks of an encrypted message decrypt to the message, with the same `X`. -/
theorem decryptLoop_encryptLoop (A : Block) (L fuel : Nat) (X : Block) (counter : Nat)
    (msg : Bytes) (h : msg.length < 16 * fuel) :
    decryptLoop E A L fuel X counter (encryptLoop E A L fuel X counter msg).1
      = (msg, (encryptLoop E A L fuel X counter msg).2) := by
  induction fuel generalizing X counter msg with
  | zero => omega
  | succ fuel ih =>
      rw [encryptLoop]
      split
      · rename_i hlen
        have hchunk : (ccmCrypt E A L counter (msg.take 16)).length = 16 := by
          rw [length_ccmCrypt _ _ _ _ _ (by simp)]
          simp
          omega
        have hrest : (msg.drop 16).length < 16 * fuel := by simp; omega
        rw [decryptLoop, if_pos (by simp [hchunk])]
        simp only [List.take_left' hchunk, List.drop_left' hchunk]
        rw [ccmCrypt_ccmCrypt _ _ _ _ _ (by simp), ih _ _ _ hrest, List.take_append_drop]
      · rename_i hlen
        split
        · rename_i hne
          have hchunk := length_ccmCrypt E A L counter msg (by omega)
          show decryptLoop E A L (fuel + 1) X counter (ccmCrypt E A L counter msg) = _
          rw [decryptLoop, if_neg (by omega), if_pos (by omega),
            ccmCrypt_ccmCrypt _ _ _ _ _ (by omega)]
        · rename_i hnil
          have : msg = [] := List.length_eq_zero_iff.mp (by omega)
          subst this
          rfl

theorem length_ccmTag (A : Block) (M L : Nat) (X : Block) (hM : M ≤ 16) :
    (ccmTag E A M L X).length = M := by
  simp [ccmTag, hM]

theorem ccmTag_cancel (A : Block) (M L : Nat) (X : Block) :
    List.zipWith (· ^^^ ·) (ccmTag E A M L X) (E (setCounter A L 0)).toList
      = X.toList.take M := by
  rw [ccmTag, List.take_zipWith, List.zipWith_eq_zipWith_take_min]
  have hlen : (List.zipWith (· ^^^ ·) (X.toList.take M)
      ((E (setCounter A L 0)).toList.take M)).length = min M 16 := by simp
  rw [hlen]
  have htake : ((E (setCounter A L 0)).toList.take (min (min M 16)
      (E (setCounter A L 0)).toList.length)) = (E (setCounter A L 0)).toList.take M := by
    simp
  rw [htake, List.take_of_length_le (by simp [hlen])]
  exact zipWith_xor_cancel _ _ (by simp)

theorem length_dtlsCcmEncryptMessage (M L : Nat) (nonce : Block) (msg aad : Bytes)
    (hM : M ≤ 16) :
    (dtlsCcmEncryptMessage E M L nonce msg aad).length = msg.length + M := by
  rw [dtlsCcmEncryptMessage, List.length_append, length_ccmTag _ _ _ _ _ hM,
    length_encryptLoop _ _ _ _ _ _ _ (by omega)]

/-- **CCM round trip: what was encrypted is accepted and gives the message back.** -/
theorem decrypt_encrypt (M L : Nat) (nonce : Block) (msg aad : Bytes) (hM : M ≤ 16) :
    ∃ rest, dtlsCcmDecryptMessage E M L nonce (dtlsCcmEncryptMessage E M L nonce msg aad) aad
      = (some msg.length, msg ++ rest) := by
  have hlen := length_dtlsCcmEncryptMessage E M L nonce msg aad hM
  rw [dtlsCcmDecryptMessage, if_neg (by omega), hlen, Nat.add_sub_cancel]
  simp only [dtlsCcmEncryptMessage]
  have hfuel : msg.length < 16 * (msg.length + 1) := by omega
  have hcipher := fun X => length_encryptLoop E (counterBlock L nonce) L _ X 1 msg hfuel
  simp only [List.take_left' (hcipher _), List.drop_left' (hcipher _),
    decryptLoop_encryptLoop E _ L _ _ 1 msg hfuel, ccmTag_cancel, if_true]
  exact ⟨_, rfl⟩

/-! ## Encrypting what was accepted -/

theorem length_decryptLoop (A : Block) (L fuel : Nat) (X : Block) (counter : Nat) (msg : Bytes)
    (h : msg.length < 16 * fuel) :
    (decryptLoop E A L fuel X counter msg).1.length = msg.length := by
  induction fuel generalizing X counter msg with
  | zero => omega
  | succ fuel ih =>
      rw [decryptLoop]
      split
      · rename_i hlen
        simp only
        rw [List.length_append, length_ccmCrypt _ _ _ _ _ (by simp), ih _ _ _ (by simp; omega)]
        simp
        omega
      · split
        · exact length_ccmCrypt _ _ _ _ _ (by omega)
        · rename_i hnil
          exact (Nat.eq_zero_of_not_pos (fun h => hnil (by omega))).symm

/-- The chunks of a decrypted message encrypt to the cipher text, with the same `X`. -/
theorem encryptLoop_decryptLoop (A : Block) (L fuel : Nat) (X : Block) (counter : Nat)
    (msg : Bytes) (h : msg.length < 16 * fuel) :
    encryptLoop E A L fuel X counter (decryptLoop E A L fuel X counter msg).1
      = (msg, (decryptLoop E A L fuel X counter msg).2) := by
  induction fuel generalizing X counter msg with
  | zero => omega
  | succ fuel ih =>
      rw [decryptLoop]
      split
      · rename_i hlen
        have hchunk : (ccmCrypt E A L counter (msg.take 16)).length = 16 := by
          rw [length_ccmCrypt _ _ _ _ _ (by simp)]
          simp
          omega
        have hrest : (msg.drop 16).length < 16 * fuel := by simp; omega
        simp only
        rw [encryptLoop, if_pos (by simp [hchunk])]
        simp only [List.take_left' hchunk, List.drop_left' hchunk]
        rw [ccmCrypt_ccmCrypt _ _ _ _ _ (by simp), ih _ _ _ hrest, List.take_append_drop]
      · rename_i hlen
        split
        · rename_i hne
          have hchunk := length_ccmCrypt E A L counter msg (by omega)
          show encryptLoop E A L (fuel + 1) X counter (ccmCrypt E A L counter msg) = _
          rw [encryptLoop, if_neg (by omega), if_pos (by omega),
            ccmCrypt_ccmCrypt _ _ _ _ _ (by omega)]
        · rename_i hnil
          have : msg = [] := List.length_eq_zero_iff.mp (by omega)
          subst this
          rfl

/-- The tag of the `X` that a MAC was found equal to is that MAC. -/
theorem ccmTag_of_accepted (A : Block) (M L : Nat) (X : Block) (mac : Bytes) (hM : M ≤ 16)
    (hmac : mac.length = M)
    (h : X.toList.take M = List.zipWith (· ^^^ ·) mac (E (setCounter A L 0)).toList) :
    ccmTag E A M L X = mac := by
  have hlen : (E (setCounter A L 0)).toList.length = 16 := by simp
  have short : List.zipWith (· ^^^ ·) mac (E (setCounter A L 0)).toList
      = List.zipWith (· ^^^ ·) mac ((E (setCounter A L 0)).toList.take M) := by
    rw [List.zipWith_eq_zipWith_take_min, hmac, hlen, min_eq_left hM,
      List.take_of_length_le (le_of_eq hmac)]
  rw [ccmTag, List.take_zipWith, h, short]
  exact zipWith_xor_cancel _ _ (by rw [hmac, List.length_take, hlen, min_eq_left hM])

/-- **CCM round trip: what was accepted is what encrypting the clear text gives.** -/
theorem encrypt_decrypt (M L : Nat) (nonce : Block) (buf aad : Bytes) (hM : M ≤ 16)
    {lm : Nat} (h : (dtlsCcmDecryptMessage E M L nonce buf aad).1 = some lm) :
    buf.length = lm + M ∧ dtlsCcmEncryptMessage E M L nonce
      ((dtlsCcmDecryptMessage E M L nonce buf aad).2.take lm) aad = buf := by
  by_cases hshort : buf.length < M
  · rw [dtlsCcmDecryptMessage, if_pos hshort] at h
    exact nomatch h
  rw [dtlsCcmDecryptMessage, if_neg hshort] at h ⊢
  simp only at h ⊢
  -- the MAC was found to be right, and `lm` bytes are in front of it
  rw [Option.ite_none_right_eq_some, Option.some.injEq] at h
  obtain ⟨htag, rfl⟩ := h
  refine ⟨by omega, ?_⟩
  have htake : (buf.take (buf.length - M)).length = buf.length - M := by simp
  have hfuel : (buf.take (buf.length - M)).length < 16 * (buf.length - M + 1) := by omega
  have hclear := fun X => (length_decryptLoop E (counterBlock L nonce) L _ X 1
    (buf.take (buf.length - M)) hfuel).trans htake
  rw [List.take_left' (hclear _), dtlsCcmEncryptMessage, hclear]
  simp only [encryptLoop_decryptLoop E _ L _ _ 1 _ hfuel]
  have hmac : (buf.drop (buf.length - M)).length = M := by
    rw [List.length_drop]
    omega
  rw [ccmTag_of_accepted E _ M L _ _ hM hmac htag, List.take_append_drop]

/-- **CCM**, with the parameters of the record layer: decrypting undoes encrypting, and
    encrypting undoes a decryption that was accepted. -/
theorem ccm_roundTrip (nonce : Block) (aad : Bytes) :
    (∀ msg : Bytes, ∃ rest, dtlsCcmDecryptMessage E 8 3 nonce
        (dtlsCcmEncryptMessage E 8 3 nonce msg aad) aad = (some msg.length, msg ++ rest)) ∧
      ∀ (buf : Bytes) (lm : Nat), (dtlsCcmDecryptMessage E 8 3 nonce buf aad).1 = some lm →
        buf.length = lm + 8 ∧ dtlsCcmEncryptMessage E 8 3 nonce
          ((dtlsCcmDecryptMessage E 8 3 nonce buf aad).2.take lm) aad = buf :=
  ⟨fun msg => decrypt_encrypt E 8 3 nonce msg aad (by decide),
    fun buf _ h => encrypt_decrypt E 8 3 nonce buf aad (by decide) h⟩

/-- One byte, encrypted by hand under the block function that changes nothing. -/
theorem ccm_roundTrip_one :
    dtlsCcmEncryptMessage id 8 3 (Vector.replicate 16 0)
        ((dtlsCcmDecryptMessage id 8 3 (Vector.replicate 16 0)
          (dtlsCcmEncryptMessage id 8 3 (Vector.replicate 16 0) [7] []) []).2.take 1) []
      = dtlsCcmEncryptMessage id 8 3 (Vector.replicate 16 0) [7] [] :=
  ((ccm_roundTrip id (Vector.replicate 16 0) []).2 _ 1 (by decide +kernel)).2

end PqDtls.Dtls
