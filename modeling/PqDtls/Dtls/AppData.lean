import PqDtls.Dtls.Sending

/-! # Application data that is read

    What is known of the data that the read callback gets.  Neither the state of the
    peer nor the cipher is looked at when application data comes in, so what the
    callback gets was protected only if the records that were opened are ones of
    connected peers with a cipher. -/

namespace PqDtls.Dtls

variable {env : Env} {w w' : World}

/-- The records of a run, the last one first. -/
def records : List Event → List RecordCall
  | [] => []
  | .record r :: l => r :: records l
  | _ :: l => records l

/-- The records that were handled when the read callback was called. -/
def reads : List Event → List (Option RecordCall)
  | [] => []
  | .read _ _ _ :: l => currentRecord l :: reads l
  | _ :: l => reads l

/-- The record was for a connected peer, and was decrypted and authenticated under
    parameters with a cipher. -/
structure RecordCall.Protected (env : Env) (r : RecordCall) (p : Peer) : Prop where
  before : r.before = some p
  connected : p.state = .connected
  verified : (decryptPacket env.prims p r.packet r.length).verified = true
  cipher : ∃ s, (dtlsSecurityParamsEpoch p (dtlsGetEpoch r.packet)).bind p.security = some s ∧
    s.cipher ≠ tlsNullWithNullNull

/-- Application data is taken for a connected peer, whose parameters for the epoch of
    the record have a cipher. -/
def RecordCall.Guarded (r : RecordCall) : Prop :=
  r.packet.uint8 = dtlsCtApplicationData → ∀ p, r.before = some p →
    p.state = .connected ∧
      ∀ s, (dtlsSecurityParamsEpoch p (dtlsGetEpoch r.packet)).bind p.security = some s →
        s.cipher ≠ tlsNullWithNullNull

instance (r : RecordCall) : Decidable r.Guarded :=
  decidable_of_iff (r.packet.uint8 = dtlsCtApplicationData → ∀ p ∈ r.before.toList,
      p.state = .connected ∧
        ∀ s ∈ ((dtlsSecurityParamsEpoch p (dtlsGetEpoch r.packet)).bind p.security).toList,
          s.cipher ≠ tlsNullWithNullNull)
    (by simp only [Option.mem_toList, RecordCall.Guarded])

/-- What opens under parameters with a cipher was authenticated. -/
theorem verified_of_opened {p : Peer} {packet : Ptr} {length : Nat}
    (opened : 0 ≤ (decryptPacket env.prims p packet length).length)
    (cipher : ∀ s, (dtlsSecurityParamsEpoch p (dtlsGetEpoch packet)).bind p.security = some s →
      s.cipher ≠ tlsNullWithNullNull) :
    (decryptPacket env.prims p packet length).verified = true ∧
      ∃ s, (dtlsSecurityParamsEpoch p (dtlsGetEpoch packet)).bind p.security = some s ∧
        s.cipher ≠ tlsNullWithNullNull := by
  have negative : ¬ (0 : Int) ≤ -1 := by decide
  unfold decryptPacket at opened ⊢
  cases hs : (dtlsSecurityParamsEpoch p (dtlsGetEpoch packet)).bind p.security with
  | none =>
      rw [hs] at opened
      exact absurd opened negative
  | some s =>
      have hc := cipher s hs
      simp only [hs] at opened ⊢
      exact ⟨openRecord_verified opened hc, s, rfl, hc⟩

/-! ## The invariant -/

/-- What a read callback was called with. -/
def ReadOf (env : Env) (l : List Event) (o : Option RecordCall) : Prop :=
  ∃ r p, o = some r ∧ r ∈ records l ∧ r.before = some p ∧
    r.packet.uint8 = dtlsCtApplicationData ∧
    0 ≤ (decryptPacket env.prims p r.packet r.length).length

theorem mem_records_of_current {l : List Event} {r : RecordCall} (h : currentRecord l = some r) :
    r ∈ records l := by
  induction l with
  | nil => exact nomatch h
  | cons e l ih =>
      cases e with
      | record r' =>
          cases h
          exact List.mem_cons_self
      | _ => exact ih h

theorem records_mono {l l' : List Event} {r : RecordCall} (h : r ∈ records l) :
    r ∈ records (l' ++ l) := by
  induction l' with
  | nil => exact h
  | cons e l' ih =>
      cases e with
      | record r' => exact List.mem_cons_of_mem _ ih
      | _ => exact ih

theorem ReadOf.mono {l l' : List Event} {o : Option RecordCall} (h : ReadOf env l o) :
    ReadOf env (l' ++ l) o := by
  obtain ⟨r, p, ho, hr, rest⟩ := h
  exact ⟨r, p, ho, records_mono hr, rest⟩

/-- Every read of the run is one of application data that was opened. -/
def ReadsOpened (env : Env) (w : World) : Prop := ∀ o ∈ reads w.log, ReadOf env w.log o

theorem reads_outside {l l' : List Event} (h : ∀ e ∈ l, e.outside) :
    reads (l ++ l') = reads l' := by
  induction l with
  | nil => rfl
  | cons e l ih =>
      obtain ⟨he, hl⟩ := List.forall_mem_cons.mp h
      cases e with
      | read session data len => exact he.elim
      | _ => exact ih hl

/-- What a step does to the reads: nothing, or it is one. -/
theorem Step.reads_cases (h : Step env w w') :
    (∃ l, w'.log = l ++ w.log ∧ reads w'.log = reads w.log) ∨
      ∃ session data len r a p, Readable env w data len r a p ∧
        w'.log = .read session data len :: w.log := by
  rcases h.known with ⟨l, hl, ho⟩ | ⟨e, he, known⟩
  · exact .inl ⟨l, hl, by rw [hl, reads_outside ho]⟩
  cases e with
  | read session data len =>
      obtain ⟨r, a, p, readable⟩ := known
      exact .inr ⟨session, data, len, r, a, p, readable, he⟩
  | _ => exact .inl ⟨[_], he, by rw [he]; rfl⟩

/-- **STEP**: the reads. -/
theorem readsOpened_step (w w' : World) (h : Step env w w') (hw : ReadsOpened env w) :
    ReadsOpened env w' := by
  cases h.reads_cases with
  | inl same =>
      obtain ⟨l, hl, hreads⟩ := same
      intro o ho
      rw [hl]
      exact (hw o (hreads ▸ ho)).mono
  | inr read =>
      obtain ⟨session, data, len, r, a, p, readable, hl⟩ := read
      unfold ReadsOpened
      rw [hl]
      refine List.forall_mem_cons.mpr ⟨?_, fun o ho => ?_⟩
      · exact ⟨r, p, readable.record, mem_records_of_current readable.record, readable.before,
          readable.type, readable.opened⟩
      · exact @ReadOf.mono _ _ [_] _ (hw o ho)

theorem readsOpened_initial (w : World) (h : Initial w) : ReadsOpened env w := by
  unfold ReadsOpened
  rw [h.log]
  exact List.forall_mem_nil _

/-- **PROTECTION**: in every run in which application data is only opened for connected
    peers with a cipher, all data that is read was decrypted and authenticated for a
    connected peer. -/
theorem reads_protected (h : Reachable env w) (hall : ∀ r ∈ records w.log, r.Guarded) :
    ∀ o ∈ reads w.log, ∃ r p, o = some r ∧ r.Protected env p := by
  intro o ho
  obtain ⟨r, p, hr, hmem, before, type, opened⟩ :=
    h.invariant readsOpened_step readsOpened_initial o ho
  obtain ⟨connected, cipher⟩ := hall r hmem type p before
  obtain ⟨verified, s, hs, hc⟩ := verified_of_opened opened cipher
  exact ⟨r, p, hr, before, connected, verified, s, hs, hc⟩

/-- A record of application data in the clear. -/
def clearData (payload : Bytes) : Bytes :=
  dtlsIntToUint8 dtlsCtApplicationData ++ dtlsIntToUint16 dtlsVersion ++ List.replicate 8 0 ++
    dtlsIntToUint16 payload.length ++ payload

/-- The record parameters of the client in the handshake of `handshakeDone`. -/
def sampleSecurity : SecurityParameters :=
  { dtlsSecurityNew with cipher := tlsPskWithAes128Ccm8, epoch := 1 }

/-- The body of a ClientKeyExchange for the identity of length 0. -/
def sampleKeyExchange : Bytes :=
  List.replicate dtlsCkxpskLengthMin 0 ++
    List.replicate (dtlsTeslaSynLength + ksnmssSigLength + 72) 255

/-- The Finished message of the client in the sample process. -/
def sampleFinished : Bytes :=
  dtlsIntToUint8 dtlsHtFinished ++ dtlsIntToUint24 12 ++ dtlsIntToUint16 2 ++ dtlsIntToUint24 0 ++
    dtlsIntToUint24 12 ++ List.replicate 12 0

/-- A record of application data in the sample process, the `n`th after the handshake. -/
def sampleData (n : Nat) (payload : Bytes) : Input :=
  arrival (sampleSession 0) (sealed sampleEnv.prims .client { sampleSecurity with rseq := n + 1 }
    dtlsCtApplicationData payload)

/-- A whole handshake of a server with the PSK suite. -/
def handshakeDone : List Input :=
  helloReceived ++ [
    arrival (sampleSession 0) (fragmentRecord dtlsHtClientKeyExchange sampleKeyExchange.length 1 0
      sampleKeyExchange.length sampleKeyExchange),
    arrival (sampleSession 0) (dtlsIntToUint8 dtlsCtChangeCipherSpec ++
      dtlsIntToUint16 dtlsVersion ++ List.replicate 8 0 ++ [0, 1, 1]),
    arrival (sampleSession 0) (sealed sampleEnv.prims .client sampleSecurity dtlsCtHandshake
      sampleFinished)]

/-- A handshake, and a record of application data. -/
def dataReceived : List Input := handshakeDone ++ [sampleData 0 (List.replicate 40 7)]

theorem reads_protected_connected :
    ∃ o ∈ reads (runInputs sampleEnv dataReceived sampleWorld).2.log,
      ∃ r p, o = some r ∧ r.Protected sampleEnv p := by
  have run : reads (runInputs sampleEnv dataReceived sampleWorld).2.log ≠ [] ∧
      ∀ r ∈ records (runInputs sampleEnv dataReceived sampleWorld).2.log, r.Guarded := by
    decide +kernel
  obtain ⟨o, ho⟩ := List.exists_mem_of_ne_nil _ run.1
  exact ⟨o, ho, reads_protected (sample_reachable dataReceived) run.2 o ho⟩

/-- A client in the first state of its handshake that is sent application data. -/
def earlyData : List Input :=
  [.app (.connect (sampleSession 0)),
    arrival (sampleSession 0) (clearData (List.replicate 100 0))]

/-- The data is read in the clear, before there is a handshake. -/
theorem reads_unprotected :
    ¬ ∀ (env : Env) (w : World), Reachable env w →
        ∀ o ∈ reads w.log, ∃ r p, o = some r ∧ r.Protected env p := by
  intro h
  have all := h sampleEnv _ (sample_reachable earlyData)
  have early : ∃ o ∈ reads (runInputs sampleEnv earlyData sampleWorld).2.log,
      ((o.bind (·.before)).map (·.state)) = some .clientHello := by decide +kernel
  obtain ⟨o, ho, hstate⟩ := early
  obtain ⟨r, p, rfl, protected'⟩ := all o ho
  rw [Option.bind_some, protected'.before, Option.map_some, protected'.connected] at hstate
  exact nomatch hstate

end PqDtls.Dtls
