import PqDtls.Lib.Walk
import PqDtls.Dtls.Slots

/-! # The buffer of a record

    `dtls_prepare_record` compares the size of its buffer with the payload copied so far,
    before the cipher appends its tag; the explicit part of the nonce is written without
    a look at the size.  **`bufferRespected_iff`** says when a record stays in its buffer. -/

namespace PqDtls.Dtls

open Program (get gets modify stop ofOption when)
open Walk

variable {env : Env} {w w' : World} {C : Primitives} {peer : Option Peer}
  {security : Option SecurityParameters} {s : SecurityParameters} {header d : Bytes}
  {rlen res : Nat} {pieces : List Bytes}

/-! ## What is written -/

/-- The copies of the pieces behind `res` bytes of payload, while they fit. -/
def pieceWrites (rlen : Nat) : Nat → List Bytes → List Access
  | _, [] => []
  | res, d :: ds =>
      if rlen < res + dtlsRhLength + d.length then []
      else ⟨(dtlsRhLength + res : Nat), d.length⟩ :: pieceWrites rlen (res + d.length) ds

/-- The length field of the header, written again in the end. -/
def lengthWrite : Access := ⟨11, 2⟩

/-- The writes for a record in the clear, behind the header. -/
def plainWrites (rlen : Nat) (dataArray : List Bytes) : List Access :=
  pieceWrites rlen 0 dataArray ++
    if (copyPieces rlen 0 dataArray).isSome then [lengthWrite] else []

/-- Those for a record under a CCM cipher: the nonce, the pieces, and the cipher text with
    its tag in their place. -/
def cipherWrites (rlen : Nat) (dataArray : List Bytes) : List Access :=
  ⟨13, 8⟩ :: (pieceWrites rlen 8 dataArray ++
    match copyPieces rlen 8 dataArray with
    | none => []
    | some payload => [⟨21, payload.length + 8⟩, lengthWrite])

/-- The writes of `dtls_prepare_record` to `sendbuf`. -/
def recordWrites (peer : Option Peer) (security : Option SecurityParameters)
    (dataArray : List Bytes) (rlen : Nat) : List Access :=
  if rlen < dtlsRhLength then []
  else ⟨0, dtlsRhLength⟩ ::
    match security with
    | none => plainWrites rlen dataArray
    | some s =>
        if s.cipher = tlsNullWithNullNull then plainWrites rlen dataArray
        else if peer.isSome then cipherWrites rlen dataArray else []

/-- The parameters that a reference stands for. -/
def World.parameters (w : World) (security : Option SecRef) : Option SecurityParameters :=
  security.bind fun r => (w.heap r.peer).security r.slot

/-- `dtls_prepare_record` leaves a record that is not longer than the buffer, and writes
    nothing behind it. -/
structure BufferRespected (env : Env) (peer : Option Addr) (security : Option SecRef) (type : Nat)
    (dataArray : List Bytes) (rlen : Nat) (w : World) : Prop where
  length : ∀ d w', dtlsPrepareRecord env peer security type dataArray rlen w = (.ok (.ok d), w') →
    d.length ≤ rlen
  writes : ∀ x ∈ recordWrites (peer.map w.heap) (w.parameters security) dataArray rlen,
    x.Inside 0 rlen

/-- Under a cipher, the buffer has room for the nonce, and either the payload does not fit,
    or the tag fits as well. -/
def TagFits (total rlen : Nat) : Prop :=
  dtlsRhLength + 8 ≤ rlen ∧
    (rlen < total + dtlsRhLength + 8 ∨ total + dtlsRhLength + 16 ≤ rlen)

/-- The record is not encrypted: there are no parameters, or none with a cipher. -/
def Clear (security : Option SecurityParameters) : Prop :=
  ∀ s, security = some s → s.cipher = tlsNullWithNullNull

/-! ## The pieces -/

/-- A copy that was made fits. -/
theorem pieceWrites_inside {x : Access} (h : x ∈ pieceWrites rlen res pieces) :
    x.Inside 0 rlen := by
  induction pieces generalizing res with
  | nil => cases h
  | cons d ds ih =>
      rw [pieceWrites] at h
      by_cases full : rlen < res + dtlsRhLength + d.length
      · rw [if_pos full] at h
        cases h
      rw [if_neg full, List.mem_cons] at h
      rcases h with rfl | h
      · unfold Access.Inside
        simp only
        omega
      · exact ih h

/-- All are made exactly when the sum fits. -/
theorem copyPieces_cases (hres : res + dtlsRhLength ≤ rlen) :
    (copyPieces rlen res pieces = some pieces.flatten ∧
        res + dtlsRhLength + pieces.flatten.length ≤ rlen) ∨
      (copyPieces rlen res pieces = none ∧
        rlen < res + dtlsRhLength + pieces.flatten.length) := by
  by_cases fits : res + dtlsRhLength + pieces.flatten.length ≤ rlen
  · exact .inl ⟨copyPieces_eq rlen res pieces fits, fits⟩
  refine .inr ⟨?_, not_le.mp fits⟩
  induction pieces generalizing res with
  | nil => exact absurd hres fits
  | cons d ds ih =>
      rw [List.flatten_cons, List.length_append] at fits
      rw [copyPieces]
      by_cases full : rlen < res + dtlsRhLength + d.length
      · rw [if_pos full]
      · rw [if_neg full, ih (by omega) (by omega), Option.map_none]

/-! ## The record -/

theorem length_plainRecord (hheader : header.length = 13)
    (h : plainRecord header pieces rlen = .ok d) (hrlen : dtlsRhLength ≤ rlen) :
    d.length ≤ rlen := by
  rw [plainRecord] at h
  rcases @copyPieces_cases rlen 0 pieces (by omega) with ⟨some, fits⟩ | ⟨none, -⟩
  · rw [some] at h
    cases h
    have rh : dtlsRhLength = 13 := rfl
    simp only [List.length_append, List.length_take, hheader, dtlsIntToUint16, length_intToBytes]
    omega
  · rw [none] at h
    cases h

theorem length_cipherRecord (hheader : header.length = 13) {role : DtlsPeerType}
    (h : cipherRecord C role s header pieces rlen = .ok d) (fits : TagFits pieces.flatten.length rlen) :
    d.length ≤ rlen := by
  have rh : dtlsRhLength = 13 := rfl
  obtain ⟨nonce, tag⟩ := fits
  rw [cipherRecord] at h
  rcases @copyPieces_cases rlen 8 pieces (by omega) with ⟨some, fits⟩ | ⟨none, -⟩
  · rw [some] at h
    cases h
    simp only [List.length_append, List.length_take, List.length_drop, hheader, dtlsIntToUint16,
      length_intToBytes, length_dtlsEncrypt]
    omega
  · rw [none] at h
    cases h

/-- The header that is set has 13 bytes, and the cipher is still the same. -/
theorem setRecordHeader_ok {type : Nat} {security : Option SecRef}
    (h : dtlsSetRecordHeader type security w = (.ok header, w')) :
    header.length = 13 ∧ (Clear (w.parameters security) ↔ Clear (w'.parameters security)) := by
  cases security with
  | none =>
      cases h
      exact ⟨by simp [dtlsIntToUint8, dtlsIntToUint16], Iff.rfl⟩
  | some r =>
      cases hs : (w.heap r.peer).security r.slot with
      | none =>
          have stopped : dtlsSetRecordHeader type (some r) w = (.error .nullDeref, w) := by
            simp only [dtlsSetRecordHeader, getSecurity, getPeer_bind, bind_assoc, hs, ofOption,
              Program.stop_bind]
          rw [stopped] at h
          cases h
      | some s =>
          rw [setRecordHeader_eq type hs] at h
          cases h
          refine ⟨length_recordHeader type s, ?_⟩
          have before : w.parameters (some r) = some s := hs
          have after : (w.setPeer r.peer ((w.heap r.peer).countRecord s r.slot)).parameters (some r)
              = some { s with rseq := (s.rseq + 1) % 2 ^ 64 } := by
            rw [World.parameters, Option.bind_some, heap_setPeer, security_countRecord]
          rw [before, after]
          constructor
          · rintro clear _ ⟨⟩
            exact clear s rfl
          · rintro clear _ ⟨⟩
            have null := clear _ rfl
            exact null

/-- A record is made in the clear, or for a peer under a cipher. -/
theorem fillRecord_ok (h : fillRecord C peer security header pieces rlen = .ok d) :
    (Clear security ∧ plainRecord header pieces rlen = .ok d) ∨
      (¬ Clear security ∧ ∃ p s, peer = some p ∧
        cipherRecord C p.role s header pieces rlen = .ok d) := by
  cases security with
  | none => exact .inl ⟨fun s hs => (Option.some_ne_none s hs.symm).elim, h⟩
  | some s =>
      by_cases null : s.cipher = tlsNullWithNullNull
      · simp only [fillRecord, if_pos null] at h
        refine .inl ⟨fun s' hs' => ?_, h⟩
        cases hs'
        exact null
      · cases peer with
        | none =>
            simp only [fillRecord, if_neg null] at h
            cases h
        | some p =>
            simp only [fillRecord, if_neg null] at h
            exact .inr ⟨fun clear => null (clear s rfl), p, s, rfl, h⟩

/-- A record that was made fits, if its tag does. -/
theorem prepareRecord_length {peer : Option Addr} {security : Option SecRef} {type : Nat}
    (h : dtlsPrepareRecord env peer security type pieces rlen w = (.ok (.ok d), w'))
    (fits : ¬ Clear (w.parameters security) → peer.isSome = true →
      TagFits pieces.flatten.length rlen) :
    d.length ≤ rlen := by
  rw [dtlsPrepareRecord] at h
  by_cases small : rlen < dtlsRhLength
  · rw [if_pos small] at h
    cases h
  rw [if_neg small] at h
  rcases hrun : dtlsSetRecordHeader type security w with ⟨_ | header, w₁⟩
  · rw [Program.bind_error hrun] at h
    cases h
  rw [Program.bind_ok hrun, Program.get_bind] at h
  obtain ⟨length, same⟩ := setRecordHeader_ok hrun
  have filled : fillRecord env.prims (peer.map w₁.heap) (w₁.parameters security) header pieces rlen
      = .ok d := Except.ok.inj (Prod.mk.inj h).1
  rcases fillRecord_ok filled with ⟨-, plain⟩ | ⟨cipher, p, s, hp, sealed⟩
  · exact length_plainRecord length plain (not_lt.mp small)
  · obtain ⟨a, rfl, -⟩ := Option.map_eq_some_iff.mp hp
    exact length_cipherRecord length sealed (fits (same.not.mpr cipher) rfl)

/-! ## The writes -/

theorem mem_recordWrites_clear (clear : Clear security) {x : Access}
    (h : x ∈ recordWrites peer security pieces rlen) : x.Inside 0 rlen := by
  have rh : dtlsRhLength = 13 := rfl
  unfold recordWrites at h
  by_cases small : rlen < dtlsRhLength
  · rw [if_pos small] at h
    cases h
  have plain : x = ⟨0, dtlsRhLength⟩ ∨ x ∈ plainWrites rlen pieces := by
    rw [if_neg small] at h
    cases security with
    | none => exact List.mem_cons.mp h
    | some s =>
        simp only [if_pos (clear s rfl)] at h
        exact List.mem_cons.mp h
  rcases plain with rfl | h
  · unfold Access.Inside
    simp only
    omega
  rw [plainWrites, List.mem_append] at h
  rcases h with h | h
  · exact pieceWrites_inside h
  · split at h
    · rw [List.mem_singleton.mp h]
      unfold Access.Inside lengthWrite
      simp only
      omega
    · cases h

/-- For a peer under a cipher. -/
theorem recordWrites_cipher {p : Peer} (hrlen : dtlsRhLength ≤ rlen)
    (cipher : ¬ Clear security) :
    recordWrites (some p) security pieces rlen = ⟨0, dtlsRhLength⟩ :: cipherWrites rlen pieces := by
  unfold recordWrites
  rw [if_neg (not_lt.mpr hrlen)]
  cases security with
  | none => exact absurd (fun s hs => (Option.some_ne_none s hs.symm).elim) cipher
  | some s =>
      have null : s.cipher ≠ tlsNullWithNullNull := fun null => cipher fun s' hs' => by
        cases hs'
        exact null
      simp only [if_neg null, Option.isSome_some, if_true]

theorem cipherWrites_inside_iff (hrlen : dtlsRhLength ≤ rlen) :
    (∀ x ∈ cipherWrites rlen pieces, x.Inside 0 rlen) ↔ TagFits pieces.flatten.length rlen := by
  have rh : dtlsRhLength = 13 := rfl
  rw [cipherWrites, List.forall_mem_cons, List.forall_mem_append, TagFits]
  have nonce : Access.Inside ⟨13, 8⟩ 0 rlen ↔ dtlsRhLength + 8 ≤ rlen := by
    unfold Access.Inside
    simp only
    omega
  -- the room for the nonce is known when the pieces are copied
  refine (and_congr_left fun _ => nonce).trans (and_congr_right fun room => ?_)
  rcases @copyPieces_cases rlen 8 pieces (by omega) with ⟨copied, fits⟩ | ⟨full, more⟩
  · rw [copied]
    constructor
    · rintro ⟨-, tag⟩
      have within := (tag _ List.mem_cons_self).2
      simp only at within
      omega
    · intro tag
      refine ⟨fun x hx => pieceWrites_inside hx, fun x hx => ?_⟩
      rcases List.mem_pair.mp hx with rfl | rfl <;> unfold Access.Inside
      · simp only
        omega
      · simp only [lengthWrite]
        omega
  · rw [full]
    refine iff_of_true ⟨fun x hx => pieceWrites_inside hx, List.forall_mem_nil _⟩ (.inl ?_)
    omega

/-- Without a peer only the header is written. -/
theorem recordWrites_absent (cipher : ¬ Clear security) {x : Access}
    (h : x ∈ recordWrites none security pieces rlen) : x.Inside 0 rlen := by
  have rh : dtlsRhLength = 13 := rfl
  unfold recordWrites at h
  by_cases small : rlen < dtlsRhLength
  · rw [if_pos small] at h
    cases h
  rw [if_neg small] at h
  cases security with
  | none => exact absurd (fun s hs => (Option.some_ne_none s hs.symm).elim) cipher
  | some s =>
      have null : s.cipher ≠ tlsNullWithNullNull := fun null => cipher fun s' hs' => by
        cases hs'
        exact null
      simp only [if_neg null, Option.isSome_none, Bool.false_eq_true, if_false] at h
      rw [List.mem_singleton.mp h]
      unfold Access.Inside
      simp only
      omega

/-- **THE BUFFER OF A RECORD** is respected exactly when the record is in the clear, or is
    refused because there is no room for a header or no peer, or has room for the nonce,
    and for the tag whenever the payload fits. -/
theorem bufferRespected_iff (env : Env) (peer : Option Addr) (security : Option SecRef)
    (type : Nat) (pieces : List Bytes) (rlen : Nat) (w : World) :
    BufferRespected env peer security type pieces rlen w ↔
      (dtlsRhLength ≤ rlen → ¬ Clear (w.parameters security) → peer.isSome = true →
        TagFits pieces.flatten.length rlen) := by
  constructor
  · rintro ⟨-, writes⟩ room cipher known
    obtain ⟨a, rfl⟩ := Option.isSome_iff_exists.mp known
    rw [Option.map_some, recordWrites_cipher room cipher, List.forall_mem_cons] at writes
    exact (cipherWrites_inside_iff room).mp writes.2
  · intro fits
    refine ⟨fun d w' hrun => ?_, fun x hx => ?_⟩
    · by_cases room : dtlsRhLength ≤ rlen
      · exact prepareRecord_length hrun (fits room)
      · rw [dtlsPrepareRecord, if_pos (not_le.mp room)] at hrun
        cases hrun
    · by_cases clear : Clear (w.parameters security)
      · exact mem_recordWrites_clear clear hx
      cases peer with
      | none => exact recordWrites_absent clear hx
      | some a =>
          by_cases room : dtlsRhLength ≤ rlen
          · rw [Option.map_some, recordWrites_cipher room clear] at hx
            rcases List.mem_cons.mp hx with rfl | hx
            · unfold Access.Inside
              simp only
              omega
            · exact (cipherWrites_inside_iff room).mpr (fits room clear rfl) x hx
          · unfold recordWrites at hx
            rw [if_pos (not_le.mp room)] at hx
            cases hx

/-- A client that has keys for epoch 1. -/
def keyedWorld : World := sampleWorld.setPeer 0 (keyedPeer .client)

/-- A payload that fits the buffer of `dtls_send_multi` without the tag. -/
def fullPayload : Bytes := List.replicate (dtlsMaxBuf - 21) 0

/-- Its tag is written behind the buffer. -/
theorem bufferRespected_overrun :
    ¬ ∀ (env : Env) (peer : Option Addr) (security : Option SecRef) (type : Nat)
      (pieces : List Bytes) (rlen : Nat) (w : World),
      BufferRespected env peer security type pieces rlen w := by
  intro h
  have writes := (h sampleEnv (some 0) (some ⟨0, .zero⟩) dtlsCtApplicationData [fullPayload]
    dtlsMaxBuf keyedWorld).writes
  have cipher : ¬ Clear (keyedWorld.parameters (some ⟨0, .zero⟩)) := fun clear =>
    absurd (clear _ rfl) (by decide)
  have size : dtlsMaxBuf = 30000 := rfl
  have room : dtlsRhLength ≤ dtlsMaxBuf := by decide
  rw [Option.map_some, recordWrites_cipher room cipher, List.forall_mem_cons] at writes
  obtain ⟨-, tag⟩ := (cipherWrites_inside_iff room).mp writes.2
  have length : [fullPayload].flatten.length = dtlsMaxBuf - 21 := by
    rw [List.flatten_singleton, fullPayload, List.length_replicate]
  have rh : dtlsRhLength = 13 := rfl
  omega

end PqDtls.Dtls
