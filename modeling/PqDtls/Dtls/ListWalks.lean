import PqDtls.Lib.Walk
import PqDtls.Dtls.CookieExchange

/-! # The list parsers

    The loops over the cipher suites of a ClientHello and over the certificate types and
    signature algorithms of a CertificateRequest.  Two of them step by two and stop only
    at zero: an odd length makes them run over the end of the list.  The lists of the
    CertificateRequest are compared with the length of the whole message, header included.
    **`lists_safe_iff`** says for which messages the loops stay in their lists. -/

namespace PqDtls.Dtls

open Walk

variable {env : Env} {data d : Ptr} {dataLength n : Nat}

/-! ## The loops -/

/-- `while (i && !ok)` over cipher suites; `i` is an `int`, and `data` points to the length
    of the list. -/
def suiteWalk (env : Env) (data : Ptr) : Loop (Cursor Int) :=
  stride Int 2 fun offset => knownCipher env (data.add offset).uint16 false

/-- `for (; i > 0; i -= sizeof(uint8_t))` over certificate types; `i` is unsigned. -/
def certTypeWalk : Loop (Cursor (BitVec 32)) := stride (BitVec 32) 1 fun _ => false

/-- `for (; i > 0; i -= sizeof(uint16_t))` over signature algorithms. -/
def signatureWalk : Loop (Cursor (BitVec 32)) := stride (BitVec 32) 2 fun _ => false

/-- Where the loop of `dtls_update_parameters` is left, for each outcome of `suiteLoop`; a
    runaway has used up its turns. -/
def SuiteSearch.Left (env : Env) (data : Ptr) (fuel : Nat) (s : Cursor Int) :
    SuiteSearch → Prop
  | .runaway => (suiteWalk env data).Reach s ⟨s.count - 2 * fuel, s.offset + 2 * fuel, false⟩
  | .missing => ∃ off, (suiteWalk env data).Reach s ⟨0, off, false⟩
  | .found cipher i rest => ∃ off, (suiteWalk env data).Reach s ⟨i, off, true⟩ ∧
      rest = data.add off ∧ cipher = (data.add (off - 2)).uint16

/-- **THE MODEL** of the loop over cipher suites is this loop. -/
theorem suiteLoop_left (env : Env) (data : Ptr) (fuel : Nat) (i off : Int) :
    (suiteLoop env fuel i (data.add off)).Left env data fuel ⟨i, off, false⟩ := by
  induction fuel generalizing i off with
  | zero =>
      show (suiteWalk env data).Reach _ ⟨i - 2 * (0 : Nat), off + 2 * (0 : Nat), false⟩
      rw [Nat.cast_zero, mul_zero, sub_zero, add_zero]
      exact .start
  | succ fuel ih =>
      rw [suiteLoop]
      by_cases zero : i = 0
      · rw [if_pos zero, zero]
        exact ⟨off, .start⟩
      have test : (suiteWalk env data).test ⟨i, off, false⟩ = true := by
        simp only [suiteWalk, stride, ne_eq, zero, not_false_eq_true, decide_true, Bool.not_false,
          Bool.and_self]
      rw [if_neg zero]
      by_cases known : knownCipher env (data.add off).uint16 false = true
      · rw [if_pos known]
        refine ⟨off + 2, ?_, Ptr.add_add data off 2, by rw [add_sub_cancel_right]⟩
        have next : (suiteWalk env data).next ⟨i, off, false⟩ = ⟨i - 2, off + 2, true⟩ := by
          simp only [suiteWalk, stride, known, Nat.cast_ofNat]
        exact next ▸ .turn .start test
      · rw [if_neg known, Ptr.add_add]
        have next : (suiteWalk env data).next ⟨i, off, false⟩ = ⟨i - 2, off + 2, false⟩ := by
          simp only [suiteWalk, stride, Bool.eq_false_iff.mpr known, Nat.cast_ofNat]
        have rest := ih (i - 2) (off + 2)
        generalize suiteLoop env fuel (i - 2) (data.add (off + 2)) = outcome at rest ⊢
        cases outcome with
        | runaway =>
            have same : (⟨i - 2 * ((fuel + 1 : Nat) : Int), off + 2 * ((fuel + 1 : Nat) : Int), false⟩
                : Cursor Int) = ⟨i - 2 - 2 * fuel, off + 2 + 2 * fuel, false⟩ := by
              congr 1 <;> push_cast <;> ring
            show (suiteWalk env data).Reach _ ⟨i - 2 * ((fuel + 1 : Nat) : Int), _, false⟩
            rw [same]
            exact .head (next ▸ rest) test
        | missing =>
            obtain ⟨off', reach⟩ := rest
            exact ⟨off', .head (next ▸ reach) test⟩
        | found cipher i' p =>
            obtain ⟨off', reach, hp, hc⟩ := rest
            exact ⟨off', .head (next ▸ reach) test, hp, hc⟩

/-! ## Messages -/

/-- The list of cipher suites, whose length field is at `d` with `n` bytes of the message
    left, is walked safely. -/
def SuitesSafe (env : Env) (d : Ptr) (n : Nat) : Prop :=
  d.uint16 + 2 ≤ n → (suiteWalk env d).Safe ⟨(d.uint16 : Int), 2, false⟩ 2 (2 + d.uint16)

/-- The loop of `dtls_update_parameters` over the suites of this ClientHello. -/
def HelloSafe (env : Env) (data : Ptr) (dataLength : Nat) : Prop :=
  ∀ d n, skipSessionCookie (data.add (dtlsHsLength + dtlsChLength))
    (dataLength - (dtlsHsLength + dtlsChLength)) = some (d, n) → SuitesSafe env d n

/-- The lengths of the two lists of a CertificateRequest. -/
def certTypesLength (data : Ptr) : Nat := (data.add dtlsHsLength).uint8

def signaturesLength (data : Ptr) : Nat :=
  (data.add (dtlsHsLength + 1 + certTypesLength data)).uint16

/-- The checks that `check_certificate_request` makes in front of its first loop. -/
def ReachesCertTypes (data : Ptr) (dataLength : Nat) : Prop :=
  dtlsHsLength + 5 ≤ dataLength ∧ certTypesLength data + 1 ≤ dataLength

/-- Those in front of the second one. -/
def ReachesSignatures (data : Ptr) (dataLength : Nat) : Prop :=
  ReachesCertTypes data dataLength ∧
    ((List.range (certTypesLength data)).any fun k =>
      (data.add (dtlsHsLength + 1 + k)).uint8 = tlsClientCertificateTypeEcdsaSign) = true ∧
    signaturesLength data + 1 ≤ dataLength

/-- Where the two lists end. -/
def certTypesEnd (data : Ptr) : Nat := dtlsHsLength + 1 + certTypesLength data

def signaturesEnd (data : Ptr) : Nat := certTypesEnd data + 2 + signaturesLength data

/-- The loops of `check_certificate_request` on this message are left, and stay in their
    lists and in the message. -/
structure RequestSafe (data : Ptr) (dataLength : Nat) : Prop where
  certTypes : ReachesCertTypes data dataLength →
    certTypeWalk.Safe ⟨(certTypesLength data : BitVec 32), dtlsHsLength + 1, false⟩
        (dtlsHsLength + 1) (dtlsHsLength + 1 + certTypesLength data) ∧
      certTypesEnd data ≤ dataLength
  signatures : ReachesSignatures data dataLength →
    signatureWalk.Safe ⟨(signaturesLength data : BitVec 32), certTypesEnd data + 2, false⟩
        (certTypesEnd data + 2) (certTypesEnd data + 2 + signaturesLength data) ∧
      signaturesEnd data ≤ dataLength

/-- If its list of suites is in the message, it has an even length or a known suite in it. -/
def HelloRegular (env : Env) (data : Ptr) (dataLength : Nat) : Prop :=
  ∀ d n, skipSessionCookie (data.add (dtlsHsLength + dtlsChLength))
      (dataLength - (dtlsHsLength + dtlsChLength)) = some (d, n) →
    d.uint16 + 2 ≤ n → 2 ∣ d.uint16 ∨ ∃ k, 2 * (k + 1) ≤ d.uint16 ∧
      knownCipher env (d.add (2 + 2 * k : Nat)).uint16 false = true

/-- Both lists end in the message, and the second one has an even length. -/
structure RequestRegular (data : Ptr) (dataLength : Nat) : Prop where
  certTypes : ReachesCertTypes data dataLength → certTypesEnd data ≤ dataLength
  signatures : ReachesSignatures data dataLength →
    2 ∣ signaturesLength data ∧ signaturesEnd data ≤ dataLength

theorem uint16_lt (p : Ptr) : p.uint16 < 2 ^ 16 := by
  have lt := bytesToInt_lt (p.bytes 2)
  rwa [Ptr.length_bytes] at lt

theorem uint8_lt (p : Ptr) : p.uint8 < 2 ^ 8 := by
  have lt := bytesToInt_lt (p.bytes 1)
  rwa [Ptr.length_bytes] at lt

/-- A length of the message fits the counter. -/
theorem counter_fits {N : Nat} (hN : N < 2 ^ 32) (m : Nat) (hm : m ≤ N)
    (h : (m : BitVec 32) = (N : BitVec 32)) : m = N := by
  have h' := congrArg BitVec.toNat h
  simp only [BitVec.natCast_eq_ofNat, BitVec.toNat_ofNat] at h'
  rwa [Nat.mod_eq_of_lt (hm.trans_lt hN), Nat.mod_eq_of_lt hN] at h'

theorem suitesSafe_iff (env : Env) (d : Ptr) (n : Nat) :
    SuitesSafe env d n ↔ (d.uint16 + 2 ≤ n → 2 ∣ d.uint16 ∨ ∃ k, 2 * (k + 1) ≤ d.uint16 ∧
      knownCipher env (d.add (2 + 2 * k : Nat)).uint16 false = true) := by
  have walk := @stride_safe_iff Int _ 2 d.uint16
    (fun offset => knownCipher env (d.add offset).uint16 false) 2 _ (by decide)
    fun m _ h => by exact_mod_cast h
  refine imp_congr_right fun _ => walk.trans (or_congr Iff.rfl ?_)
  unfold Hits
  push_cast
  rfl

theorem helloSafe_iff (env : Env) (data : Ptr) (dataLength : Nat) :
    HelloSafe env data dataLength ↔ HelloRegular env data dataLength :=
  forall₂_congr fun d n => imp_congr_right fun _ => suitesSafe_iff env d n

theorem requestSafe_iff (data : Ptr) (dataLength : Nat) :
    RequestSafe data dataLength ↔ RequestRegular data dataLength := by
  have types := @stride_safe_iff (BitVec 32) _ 1 (certTypesLength data) (fun _ => false)
    (dtlsHsLength + 1) _ (by decide)
    (counter_fits ((uint8_lt _).trans (by decide)))
  have signatures := @stride_safe_iff (BitVec 32) _ 2 (signaturesLength data) (fun _ => false)
    (certTypesEnd data + 2) _ (by decide) (counter_fits ((uint16_lt _).trans (by decide)))
  have none (N : Nat) (off : Int) (width : Nat) : ¬ Hits width N (fun _ => false) off := by
    rintro ⟨k, -, hit⟩
    cases hit
  rw [or_iff_left (none _ _ _)] at types signatures
  constructor
  · rintro ⟨ht, hs⟩
    exact ⟨fun h => (ht h).2, fun h => ⟨signatures.mp (hs h).1, (hs h).2⟩⟩
  · rintro ⟨ht, hs⟩
    exact ⟨fun h => ⟨types.mpr (one_dvd _), ht h⟩, fun h => ⟨signatures.mpr (hs h).1, (hs h).2⟩⟩

/-- With an odd length the unsigned counter passes 0: there the model of
    `check_certificate_request` stops. -/
theorem signatureWalk_endless {N : Nat} (odd : ¬ 2 ∣ N) (off : Int) :
    ¬ signatureWalk.Ends ⟨(N : BitVec 32), off, false⟩ := by
  refine stride_endless (fun _ => rfl) fun k h => odd ?_
  have h' := congrArg BitVec.toNat h
  have two : ((2 : Nat) : BitVec 32) = 2#32 := rfl
  rw [two, BitVec.toNat_mul] at h'
  simp only [BitVec.natCast_eq_ofNat, BitVec.toNat_ofNat] at h'
  omega

/-- **LIST PARSERS**: for every ClientHello and every CertificateRequest, the loops are left
    and stay in the lists whose lengths were checked, exactly when the suites are whole or
    one of them is known, the signature algorithms are whole, and the lists of the
    CertificateRequest end in the message. -/
theorem lists_safe_iff (env : Env) (hello : Ptr) (helloLength : Nat) (request : Ptr)
    (requestLength : Nat) :
    HelloSafe env hello helloLength ∧ RequestSafe request requestLength ↔
      HelloRegular env hello helloLength ∧ RequestRegular request requestLength :=
  and_congr (helloSafe_iff env hello helloLength) (requestSafe_iff request requestLength)

/-- A ClientHello with three bytes of cipher suites. -/
def oddHello : Bytes :=
  wholeMessage dtlsHtClientHello 0 (dtlsIntToUint16 dtlsVersion ++ List.replicate 32 0 ++ [0, 0] ++
    dtlsIntToUint16 3 ++ [0, 1, 2] ++ [1, 0])

/-- Behind the first suite, the loop reads half a suite and the compression methods. -/
theorem lists_unsafe :
    ¬ ∀ env hello helloLength request requestLength,
      HelloSafe env hello helloLength ∧ RequestSafe request requestLength := by
  intro h
  have safe := (h sampleEnv (Ptr.ofBytes oddHello) oddHello.length (Ptr.ofBytes []) 0).1
  rw [helloSafe_iff] at safe
  -- the length of the list, the rest of the message, and what is known of the first suite
  have read : (skipSessionCookie ((Ptr.ofBytes oddHello).add (dtlsHsLength + dtlsChLength))
      (oddHello.length - (dtlsHsLength + dtlsChLength))).map (fun r =>
        (r.1.uint16, r.2, knownCipher sampleEnv (r.1.add (2 : Nat)).uint16 false))
      = some (3, 7, false) := by decide
  obtain ⟨⟨d, n⟩, found, values⟩ := Option.map_eq_some_iff.mp read
  obtain ⟨three, seven, unknown⟩ : d.uint16 = 3 ∧ n = 7 ∧
      knownCipher sampleEnv (d.add (2 : Nat)).uint16 false = false := by
    simpa only [Prod.mk.injEq] using values
  rcases safe d n found (by omega) with even | ⟨k, whole, known⟩
  · rw [three] at even
    exact absurd even (by decide)
  · have first : k = 0 := by omega
    rw [first, Nat.mul_zero, Nat.add_zero, unknown] at known
    cases known

end PqDtls.Dtls
