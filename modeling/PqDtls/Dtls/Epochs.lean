import PqDtls.Dtls.Slots

/-! # The epochs of the key slots

    The two slots of a peer hold parameters of neighbouring epochs, and slot 1 those of
    the next one when the slots are switched, unless the epoch of a server passes its
    16 bits: then `dtls_security_params_free_other`, which compares the epochs by order,
    takes the new parameters for old ones.

    `epochs` is the discipline: which slots a peer has, and what each switch finds.  A
    handler is given a message together with a role and a state, and these need not be
    the ones the peer has by then; `Ready` is what has to be known of them. -/

namespace PqDtls.Dtls

open Program (get gets modify stop ofOption when Keeps keeps_pure keeps_get keeps_gets keeps_stop
  keeps_ofOption keeps_modify)
open History

variable {env : Env}

/-! ## The slots -/

/-- The slots, without the numbers of the next records. -/
def Peer.slots (p : Peer) : Option SecurityCore × Option SecurityCore :=
  (p.security0.map SecurityParameters.core, p.security1.map SecurityParameters.core)

/-- Slot 0 is there, and the epochs of the slots differ. -/
structure Separate (p : Peer) : Prop where
  present : p.security0.isSome = true
  apart : ∀ s₀ s₁, p.security0 = some s₀ → p.security1 = some s₁ → s₀.epoch ≠ s₁.epoch

/-- Slot 1 holds parameters of the next epoch, with a cipher. -/
def FreshKeys (p : Peer) : Prop :=
  ∃ c₀ c₁, p.slots = (some c₀, some c₁) ∧ c₁.epoch = (c₀.epoch + 1) % 2 ^ 16 ∧
    c₁.cipher ≠ tlsNullWithNullNull

/-- Two slots of a peer. -/
structure Paired (role : DtlsPeerType) (state : DtlsState) (c₀ c₁ : SecurityCore) : Prop where
  bound : c₁.epoch < 2 ^ 16
  near : c₁.epoch = (c₀.epoch + 1) % 2 ^ 16 ∨ c₀.epoch = (c₁.epoch + 1) % 2 ^ 16
  server : role = .server → c₁.epoch = c₀.epoch + 1 ∨ c₀.epoch = c₁.epoch + 1
  keyed : role = .server → state = .waitFinished → c₁.epoch = c₀.epoch + 1 →
    c₁.cipher ≠ tlsNullWithNullNull

/-- The slots of a peer in a role and a state. -/
structure SlotsOk (role : DtlsPeerType) (state : DtlsState)
    (slots : Option SecurityCore × Option SecurityCore) : Prop where
  zero : ∃ c, slots.1 = some c ∧ c.epoch < 2 ^ 16
  pair : ∀ c₀ c₁, slots = (some c₀, some c₁) → Paired role state c₀ c₁

def Peer.Ok (p : Peer) : Prop := SlotsOk p.role p.state p.slots

theorem Peer.Ok.separate {p : Peer} (h : p.Ok) : Separate p := by
  refine ⟨?_, fun s₀ s₁ h₀ h₁ => ?_⟩
  · obtain ⟨c, hc, -⟩ := h.zero
    obtain ⟨s, hs, -⟩ := Option.map_eq_some_iff.mp hc
    rw [hs]
    rfl
  · obtain ⟨c, hc, bound⟩ := h.zero
    have pair := h.pair s₀.core s₁.core (by rw [Peer.slots, h₀, h₁]; rfl)
    have zero : c = s₀.core := by
      rw [Peer.slots, h₀] at hc
      exact (Option.some.inj hc).symm
    subst zero
    have near := pair.near
    simp only [SecurityParameters.core] at near bound
    omega

/-- A peer with the same role, state and slots. -/
theorem Peer.Ok.of_eq {p p' : Peer} (h : p.Ok) (role : p'.role = p.role)
    (state : p'.state = p.state) (slots : p'.slots = p.slots) : p'.Ok := by
  unfold Peer.Ok at h ⊢
  rwa [role, state, slots]

/-- Slot 1 is empty. -/
theorem slotsOk_single {role : DtlsPeerType} {state : DtlsState} {c : SecurityCore}
    (h : c.epoch < 2 ^ 16) : SlotsOk role state (some c, none) :=
  ⟨⟨c, rfl, h⟩, fun _ _ e => by cases e⟩

theorem SlotsOk.drop {role : DtlsPeerType} {state : DtlsState}
    {slots : Option SecurityCore × Option SecurityCore} (h : SlotsOk role state slots) :
    SlotsOk role state (slots.1, none) := by
  obtain ⟨c, hc, bound⟩ := h.zero
  rw [hc]
  exact slotsOk_single bound

/-- Another role or state. -/
theorem SlotsOk.moved {role role' : DtlsPeerType} {state state' : DtlsState}
    {slots : Option SecurityCore × Option SecurityCore} (h : SlotsOk role state slots)
    (server : role' = .server → role = .server)
    (keyed : ∀ c₀ c₁, slots = (some c₀, some c₁) → role' = .server → state' = .waitFinished →
      c₁.epoch = c₀.epoch + 1 → c₁.cipher ≠ tlsNullWithNullNull) : SlotsOk role' state' slots := by
  refine ⟨h.zero, fun c₀ c₁ e => ?_⟩
  have pair := h.pair c₀ c₁ e
  exact ⟨pair.bound, pair.near, fun hr => pair.server (server hr), keyed c₀ c₁ e⟩

/-- The next epoch. -/
theorem SlotsOk.next {role : DtlsPeerType} {state : DtlsState}
    {slots : Option SecurityCore × Option SecurityCore} {c₀ c₁ : SecurityCore}
    (h : SlotsOk role state slots) (zero : slots.1 = some c₀)
    (epoch : c₁.epoch = (c₀.epoch + 1) % 2 ^ 16)
    (server : role = .server → c₀.epoch + 1 < 2 ^ 16) (waits : state ≠ .waitFinished) :
    SlotsOk role state (slots.1, some c₁) := by
  obtain ⟨c, hc, bound⟩ := h.zero
  rw [zero] at hc ⊢
  cases hc
  refine ⟨⟨c₀, rfl, bound⟩, fun d₀ d₁ e => ?_⟩
  cases e
  refine ⟨?_, .inl epoch, fun hr => .inl ?_, fun _ hs => absurd hs waits⟩
  · omega
  · have := server hr
    omega

/-- Keys in slot 1. -/
theorem SlotsOk.install {role : DtlsPeerType} {state : DtlsState}
    {o : Option SecurityCore} {c₁ c₁' : SecurityCore}
    (h : SlotsOk role state (o, some c₁)) (epoch : c₁'.epoch = c₁.epoch)
    (cipher : c₁'.cipher ≠ tlsNullWithNullNull) : SlotsOk role state (o, some c₁') := by
  refine ⟨h.zero, fun d₀ d₁ e => ?_⟩
  cases e
  have pair := h.pair d₀ c₁ rfl
  exact ⟨epoch ▸ pair.bound, epoch ▸ pair.near, epoch ▸ pair.server, fun _ _ _ => cipher⟩

/-- The switch to the next epoch. -/
theorem SlotsOk.switch {role : DtlsPeerType} {state : DtlsState} {c₀ c₁ : SecurityCore}
    (h : SlotsOk role state (some c₀, some c₁)) (epoch : c₁.epoch = (c₀.epoch + 1) % 2 ^ 16) :
    SlotsOk role state (some c₁, some c₀) := by
  obtain ⟨c, hc, bound⟩ := h.zero
  cases hc
  have pair := h.pair c₀ c₁ rfl
  refine ⟨⟨c₁, rfl, pair.bound⟩, fun d₀ d₁ e => ?_⟩
  cases e
  refine ⟨bound, pair.near.symm, fun hr => (pair.server hr).symm, fun _ _ next => ?_⟩
  omega

theorem slots_countRecord {p : Peer} {s : SecurityParameters} {slot : Slot}
    (h : p.security slot = some s) : (p.countRecord s slot).slots = p.slots := by
  cases slot with
  | zero =>
      have zero : p.security0 = some s := h
      simp only [Peer.slots, Peer.countRecord, Peer.setSecurity, zero, Option.map_some,
        SecurityParameters.core]
  | one =>
      have one : p.security1 = some s := h
      simp only [Peer.slots, Peer.countRecord, Peer.setSecurity, one, Option.map_some,
        SecurityParameters.core]

/-! ## The discipline -/

/-- The slots of all peers. -/
def SlotsOkIn (w : World) : Prop := ∀ a, (w.heap a).Ok

/-- A server's next epoch fits. -/
def EpochFits (x : World × Op) : Prop :=
  ∀ a c, x.2 = .next a → (x.1.heap a).role = .server → (x.1.heap a).slots.1 = some c →
    c.epoch + 1 < 2 ^ 16

/-- The slots in the world of a step, and fresh keys for a switch. -/
structure InOrder (x : World × Op) : Prop where
  slots : SlotsOkIn x.1
  fresh : ∀ a, x.2 = .switch a → FreshKeys (x.1.heap a)

/-- As long as the epochs of servers fit, the slots are in order and each switch finds
    fresh keys. -/
def epochs (env : Env) : Discipline World Op where
  step := Move env
  invariant := SlotsOkIn
  condition := EpochFits
  demand := InOrder

theorem SlotsOkIn.setPeer {w : World} {a : Addr} {p : Peer} (h : SlotsOkIn w) (hp : p.Ok) :
    SlotsOkIn (w.setPeer a p) := by
  intro b
  by_cases hb : b = a
  · subst hb
    rwa [heap_setPeer]
  · rw [heap_setPeer_ne p hb]
    exact h b

theorem Silent.slots {w w' : World} (silent : Silent w w') (a : Addr) :
    (w'.heap a).slots = (w.heap a).slots :=
  Prod.ext (congrArg (fun v => v.security0.map SecurityParameters.core) (silent.view a))
    (congrArg (fun v => v.security1.map SecurityParameters.core) (silent.view a))

theorem SlotsOkIn.silent {w w' : World} (h : SlotsOkIn w) (silent : Silent w w') :
    SlotsOkIn w' := fun a =>
  (h a).of_eq (congrArg View.role (silent.view a)) (congrArg View.state (silent.view a))
    (silent.slots a)

theorem ok_emptyPeer (session : Session) : (emptyPeer session).Ok := slotsOk_single (by decide)

/-- A move that needs no care. -/
def Op.mild : Op → Prop
  | .freeOther _ => True
  | op => op.calm

theorem Op.mild_of_calm {op : Op} (h : op.calm) : op.mild := by
  cases op <;> first | exact h | trivial

/-- **STEP**: calm moves, and the release of the other parameters. -/
theorem mild_free : (epochs env).Free Op.mild := by
  intro w op w' move mild h
  have kept : SlotsOkIn w' := by
    cases move with
    | quiet silent => exact h.silent silent
    | newPeer a session => exact h.setPeer (ok_emptyPeer session)
    | accept a session empty => exact h.setPeer (slotsOk_single (by decide))
    | asClient a =>
        refine h.setPeer ((h a).moved ?_ ?_)
        · exact fun client => by cases client
        · exact fun _ _ _ client => by cases client
    | enter a s =>
        exact SlotsOkIn.setPeer (w := w.emitted (.state a (w.heap a).state s)) h
          ((h a).moved id fun _ _ _ _ waits => absurd waits mild)
    | send a slot s session type payload hs =>
        refine SlotsOkIn.setPeer (w := w) h ((h a).of_eq ?_ ?_ (slots_countRecord hs)) <;>
          cases slot <;> rfl
    | spend a slot s hs =>
        refine h.setPeer ((h a).of_eq ?_ ?_ (slots_countRecord hs)) <;> cases slot <;> rfl
    | sendPlain session type payload => exact h
    | freeOther a =>
        refine h.setPeer ?_
        rcases freeOther_cases (w.heap a) with same | dropped
        · rw [same]
          exact h a
        · rw [dropped]
          exact (h a).drop
    | index a bound => exact h.setPeer ((h a).of_eq rfl rfl rfl)
    | next a s hs => exact mild.elim
    | noNext a => exact mild.elim
    | install a hs preMaster keyed => exact mild.elim
    | switch a => exact mild.elim
  refine ⟨kept, h, fun a switch => ?_⟩
  subst switch
  exact mild.elim

/-! ## Calm programs -/

variable {α β : Type} {m : M α} {f : α → M β} {w : World} {pre : Prop}
  {post : α → World → Prop} {post' : β → World → Prop}

/-- A calm program, and what then holds in any case. -/
theorem guarded_calm (calm : Keeps (Calmly env) m)
    (hpost : pre → ∀ r w', m w = (.ok r, w') → SlotsOkIn w' → post r w') :
    (epochs env).Guarded pre m w post := by
  obtain ⟨l, path, hl⟩ := calm w
  exact Discipline.guarded_of_reaches mild_free ⟨l, path, fun x hx => Op.mild_of_calm (hl x hx)⟩
    fun _ hp r w' hrun hw => hpost hp r w' hrun hw

/-- A calm program in front of another one: what was known before may be used. -/
theorem guarded_calm_bind (calm : Keeps (Calmly env) m)
    (hf : ∀ r w', m w = (.ok r, w') → (epochs env).Guarded pre (f r) w' post') :
    (epochs env).Guarded pre (m >>= f) w post' :=
  have kept : (epochs env).Guarded pre m w fun _ _ => pre :=
    guarded_calm calm fun hp _ _ _ _ => hp
  Discipline.Guarded.bind kept hf

/-- The same of a program that does nothing to be seen. -/
theorem guarded_silent_bind (silent : Keeps Silent m)
    (hf : ∀ r w', m w = (.ok r, w') → Silent w w' → (epochs env).Guarded pre (f r) w' post') :
    (epochs env).Guarded pre (m >>= f) w post' :=
  guarded_calm_bind (calmly_of_silent silent) fun r w' hrun => hf r w' hrun (silent.of_run hrun)

/-- Wherever a peer waits for a Finished, it did so before, with the same slots. -/
def Steady (w w' : World) : Prop :=
  ∀ a, (w'.heap a).state = .waitFinished →
    (w.heap a).state = .waitFinished ∧ (w'.heap a).slots = (w.heap a).slots

theorem Steady.setPeer {w₀ w : World} {a : Addr} {p : Peer} (h : Steady w₀ w)
    (hp : p.state = .waitFinished → (w.heap a).state = .waitFinished ∧
      p.slots = (w.heap a).slots) : Steady w₀ (w.setPeer a p) := by
  intro b
  by_cases hb : b = a
  · subst hb
    rw [heap_setPeer]
    intro waits
    obtain ⟨before, slots⟩ := hp waits
    rw [slots]
    exact h b before
  · rw [heap_setPeer_ne p hb]
    exact h b

theorem Steady.silent {w₀ w w' : World} (h : Steady w₀ w) (silent : Silent w w') :
    Steady w₀ w' := by
  intro a
  have state : (w'.heap a).state = (w.heap a).state := congrArg View.state (silent.view a)
  rw [state, silent.slots a]
  exact h a

theorem steady_of_calmly {w₀ w : World} (h : Calmly env w₀ w) : Steady w₀ w := by
  refine Reaches.invariant (I := Steady w₀) ?_ h fun a waits => ⟨waits, rfl⟩
  intro w op w' move calm before
  cases move with
  | quiet silent => exact before.silent silent
  | newPeer a session => exact before.setPeer fun waits => by cases waits
  | accept a session empty => exact before.setPeer fun waits => by cases waits
  | asClient a => exact before.setPeer fun waits => ⟨waits, rfl⟩
  | enter a s =>
      exact Steady.setPeer (w := w.emitted (.state a (w.heap a).state s)) before
        fun waits => absurd waits calm
  | send a slot s session type payload hs =>
      refine Steady.setPeer (w := w) before fun waits => ⟨?_, slots_countRecord hs⟩
      cases slot <;> exact waits
  | spend a slot s hs =>
      refine before.setPeer fun waits => ⟨?_, slots_countRecord hs⟩
      cases slot <;> exact waits
  | sendPlain session type payload => exact before
  | freeOther a => exact calm.elim
  | index a bound => exact before.setPeer fun waits => ⟨waits, rfl⟩
  | next a s hs => exact calm.elim
  | noNext a => exact calm.elim
  | install a hs preMaster keyed => exact calm.elim
  | switch a => exact calm.elim

/-- Quiet functions leave the slots alone. -/
theorem Quiet.slots {w w' : World} (q : Quiet w w') (a : Addr) :
    (w'.heap a).slots = (w.heap a).slots :=
  Prod.ext (congrArg PeerCore.security0 (q.heap a)) (congrArg PeerCore.security1 (q.heap a))

theorem FreshKeys.of_eq {p p' : Peer} (h : FreshKeys p) (slots : p'.slots = p.slots) :
    FreshKeys p' := by
  unfold FreshKeys at h ⊢
  rwa [slots]

/-- What is known when a peer waits for a Finished. -/
def StillFresh (peer : Option Addr) (role : DtlsPeerType) (w : World) : Prop :=
  ∀ a, peer = some a → (w.heap a).state = .waitFinished → role = .server → FreshKeys (w.heap a)

/-- What is known of the role and the state that a message is handled in. -/
structure Ready (peer : Option Addr) (role : DtlsPeerType) (state : DtlsState) (w : World) :
    Prop where
  waits : ∀ a, peer = some a → (w.heap a).state = .waitFinished → state = .waitFinished
  fresh : ∀ a, peer = some a → state = .waitFinished → role = .server → FreshKeys (w.heap a)

variable {peer : Option Addr} {role : DtlsPeerType} {state : DtlsState} {w' : World}

theorem StillFresh.calmly (h : StillFresh peer role w) (calm : Calmly env w w') :
    StillFresh peer role w' := by
  intro a ha waits server
  obtain ⟨before, slots⟩ := steady_of_calmly calm a waits
  exact (h a ha before server).of_eq slots

theorem Ready.still (h : Ready peer role state w) : StillFresh peer role w :=
  fun a ha waits server => h.fresh a ha (h.waits a ha waits) server

theorem Ready.silent (h : Ready peer role state w) (silent : Silent w w') :
    Ready peer role state w' where
  waits a ha waits := h.waits a ha ((congrArg View.state (silent.view a)).symm.trans waits)
  fresh a ha hs server := (h.fresh a ha hs server).of_eq (silent.slots a)

/-! ## New keys -/

/-- `calculate_key_block` fails with a negative value, and succeeds for a suite that keys
    can be made for. -/
theorem preMasterSecret_cases {h : HandshakeParameters} {session : Session}
    {r : Except Int Bytes} (hrun : preMasterSecret env h session w = (.ok r, w')) :
    (∃ err, r = .error err ∧ err < 0) ∨ ∃ secret, r = .ok secret ∧ Keyed h.cipher := by
  unfold preMasterSecret at hrun
  by_cases psk : isTlsPskWithAes128Ccm8 h.cipher = true
  · rw [if_pos psk] at hrun
    rw [Program.bind_apply] at hrun
    split at hrun
    · rename_i result w₁ hcall
      by_cases failed : result.1 < 0
      · rw [if_pos failed] at hrun
        cases hrun
        exact .inl ⟨_, rfl, failed⟩
      · rw [if_neg failed] at hrun
        cases hrun
        split
        · exact .inl ⟨_, rfl, dtlsAlertFatalCreate_neg _⟩
        · exact .inr ⟨_, rfl, .inl psk⟩
    · cases hrun
  · rw [if_neg psk] at hrun
    by_cases ecdhe : isTlsEcdheEcdsaWithAes128Ccm8 h.cipher = true
    · rw [if_pos ecdhe] at hrun
      cases hrun
      exact .inr ⟨_, rfl, .inr ecdhe⟩
    · rw [if_neg ecdhe] at hrun
      cases hrun
      exact .inl ⟨_, rfl, dtlsAlertFatalCreate_neg _⟩

theorem Keyed.ne_null {cipher : Nat} (h : Keyed cipher) : cipher ≠ tlsNullWithNullNull := by
  rintro rfl
  exact h.elim (by decide) (by decide)

/-- Slot 1 holds new parameters of the next epoch. -/
def NextEpoch (w : World) (a : Addr) : Prop :=
  ∃ s c₀, (w.heap a).security1 = some s ∧ (w.heap a).slots.1 = some c₀ ∧
    s.epoch = (c₀.epoch + 1) % 2 ^ 16

theorem guarded_securityParamsNext (a : Addr) :
    (epochs env).Guarded ((w.heap a).state ≠ .waitFinished) (dtlsSecurityParamsNext env a) w
      fun found w' => found = true → NextEpoch w' a := by
  rw [dtlsSecurityParamsNext]
  refine guarded_silent_bind (silentTacit.still.malloc env) fun found w' _ silent => ?_
  cases found with
  | false =>
      refine Discipline.guarded_step (Move.noNext w' a) fun hw _ _ => ⟨?_, ⟨hw, ?_⟩, ?_⟩
      · exact hw.setPeer (hw a).drop
      · exact fun b switch => by cases switch
      · intro r hr
        cases hr
        exact fun h => by cases h
  | true =>
      refine Discipline.Guarded.gets_bind ?_
      cases zero : (w'.heap a).security0 with
      | none => exact Discipline.guarded_stop
      | some s =>
          have slot : (w'.heap a).slots.1 = some s.core := by rw [Peer.slots, zero]; rfl
          refine Discipline.guarded_step (Move.next w' a s zero) fun hw waits fits => ?_
          have role := fits a s.core rfl
          refine ⟨hw.setPeer ?_, ⟨hw, fun b switch => by cases switch⟩, fun r hr _ => ?_⟩
          · have state : (w'.heap a).state ≠ .waitFinished := fun state =>
              waits ((congrArg View.state (silent.view a)).symm.trans state)
            exact @SlotsOk.next _ _ _ s.core
              { dtlsSecurityNew with epoch := (s.epoch + 1) % 2 ^ 16 }.core (hw a) slot rfl
              (fun server => role server slot) state
          · show NextEpoch (w'.setPeer a { w'.heap a with
              security1 := some { dtlsSecurityNew with epoch := (s.epoch + 1) % 2 ^ 16 } }) a
            rw [NextEpoch, heap_setPeer]
            exact ⟨_, s.core, rfl, slot, rfl⟩

/-- **NEW KEYS**: when `calculate_key_block` succeeds, slot 1 is fresh. -/
theorem guarded_calculateKeyBlock (a : Addr) (session : Session) :
    (epochs env).Guarded ((w.heap a).state ≠ .waitFinished) (calculateKeyBlock env a session) w
      fun res w' => 0 ≤ res → FreshKeys (w'.heap a) := by
  have failed (d : DtlsAlert) {w' : World} : 0 ≤ dtlsAlertFatalCreate d → FreshKeys (w'.heap a) :=
    fun h => absurd h (not_le.mpr (dtlsAlertFatalCreate_neg d))
  refine Discipline.Guarded.gets_bind ?_
  cases (w.heap a).handshakeParams with
  | none => exact Discipline.guarded_pure fun _ _ => failed _
  | some h =>
      refine (guarded_securityParamsNext a).bind fun found w₁ _ => ?_
      cases found with
      | false => exact Discipline.guarded_pure fun _ _ => failed _
      | true =>
          refine guarded_silent_bind (silentTacit.still.preMasterSecret h session)
            fun r w₂ hrun silent => ?_
          rcases preMasterSecret_cases hrun with ⟨err, rfl, neg⟩ | ⟨secret, rfl, keyed⟩
          · exact Discipline.guarded_pure fun _ _ h => absurd h (not_le.mpr neg)
          refine Discipline.guarded_step (Move.install w₂ a h secret keyed) fun hw next _ => ?_
          obtain ⟨s, c₀, one, zero, epoch⟩ := next rfl
          have one' : (w₂.heap a).security1 = some s :=
            (congrArg View.security1 (silent.view a)).trans one
          have zero' : (w₂.heap a).slots.1 = some c₀ :=
            (congrArg Prod.fst (silent.slots a)).trans zero
          have slots : (installKeyBlock env.prims h secret (w₂.heap a)).slots
              = ((w₂.heap a).slots.1, some { s with
                  cipher := h.cipher
                  compression := h.compression
                  rseq := 0
                  keyBlock := keyBlockOf env.prims h (masterSecretOf env.prims h secret) }.core) := by
            rw [Peer.slots, installKeyBlock, one']
            rfl
          have before : (w₂.heap a).slots = ((w₂.heap a).slots.1, some s.core) := by
            rw [Peer.slots, one']
            rfl
          refine ⟨hw.setPeer ?_, ⟨hw, fun b switch => by cases switch⟩, fun r hr _ => ?_⟩
          · unfold Peer.Ok
            have ok := hw a
            rw [Peer.Ok, before] at ok
            rw [slots]
            exact ok.install rfl keyed.ne_null
          · show FreshKeys ((w₂.setPeer a (installKeyBlock env.prims h secret (w₂.heap a))).heap a)
            rw [heap_setPeer, FreshKeys, slots, zero']
            exact ⟨c₀, _, rfl, epoch, keyed.ne_null⟩

/-- The slots are switched when slot 1 is fresh. -/
theorem guarded_switch (a : Addr) :
    (epochs env).Guarded (FreshKeys (w.heap a)) (dtlsSecurityParamsSwitch a) w fun _ _ => True := by
  refine Discipline.guarded_step (Move.switch w a)
    fun hw fresh _ => ⟨?_, ⟨hw, ?_⟩, fun _ _ => trivial⟩
  · obtain ⟨c₀, c₁, slots, epoch, -⟩ := fresh
    refine hw.setPeer ?_
    have swapped : ((w.heap a).slots.2, (w.heap a).slots.1) = (some c₁, some c₀) := by rw [slots]
    show SlotsOk (w.heap a).role (w.heap a).state ((w.heap a).slots.2, (w.heap a).slots.1)
    have ok := hw a
    rw [Peer.Ok, slots] at ok
    rw [swapped]
    exact ok.switch epoch
  · intro b switch
    cases switch
    exact fresh

/-- A quiet and calm program in front of one that needs fresh keys. -/
theorem guarded_quiet_bind {a : Addr} (quiet : Keeps Quiet m) (calm : Keeps (Calmly env) m)
    (hf : ∀ r w', m w = (.ok r, w') →
      (epochs env).Guarded (FreshKeys (w'.heap a)) (f r) w' post') :
    (epochs env).Guarded (FreshKeys (w.heap a)) (m >>= f) w post' := by
  have kept : (epochs env).Guarded (FreshKeys (w.heap a)) m w fun _ w' => FreshKeys (w'.heap a) :=
    guarded_calm calm fun fresh r w' hrun _ => fresh.of_eq ((quiet.of_run hrun).slots a)
  exact Discipline.Guarded.bind kept hf

/-! ## The handlers that switch -/

theorem guarded_changeKeys (a : Addr) :
    (epochs env).Guarded ((w.heap a).state ≠ .waitFinished) (changeKeys env a) w
      fun _ _ => True := by
  refine Discipline.Guarded.gets_bind ?_
  refine (guarded_calculateKeyBlock a _).bind fun res w₁ _ => ?_
  by_cases failed : res < 0
  · rw [if_pos failed]
    exact Discipline.guarded_pure fun _ _ => trivial
  rw [if_neg failed]
  refine Discipline.Guarded.given ?_ fun _ fresh => fresh (not_lt.mp failed)
  refine guarded_quiet_bind (((quietFrame env).sender _).sendCcs) ((calmFrame.sender _).sendCcs)
    fun res w₂ _ => ?_
  by_cases failed : res < 0
  · rw [if_pos failed]
    exact Discipline.guarded_pure fun _ _ => trivial
  rw [if_neg failed]
  refine (guarded_switch a).bind fun _ w₃ _ => ?_
  exact guarded_calm ((calmFrame.sender _).sendFinished _) fun _ _ _ _ _ => trivial

theorem not_waits_of_calmly {a : Addr} (calm : Calmly env w w')
    (h : (w.heap a).state ≠ .waitFinished) : (w'.heap a).state ≠ .waitFinished :=
  fun waits => h (steady_of_calmly calm a waits).1

theorem guarded_checkServerHellodone (a : Addr) (data : Ptr) (dataLength : Nat) :
    (epochs env).Guarded ((w.heap a).state ≠ .waitFinished)
      (checkServerHellodone env a data dataLength) w fun _ _ => True := by
  refine Discipline.Guarded.gets_bind ?_
  refine Discipline.Guarded.ite (fun _ => Discipline.guarded_pure fun _ _ => trivial) fun _ => ?_
  refine guarded_calm_bind (calmTacit.still.updateHsHash a _) fun _ w₁ hash => ?_
  refine guarded_calm_bind ((calmFrame.answer _).sendClientKeyExchange) fun res w₂ sent => ?_
  refine Discipline.Guarded.ite (fun _ => Discipline.guarded_pure fun _ _ => trivial) fun _ => ?_
  refine (guarded_changeKeys a).mono (fun _ h => ?_) fun _ _ _ _ _ _ _ => trivial
  have calm : Calmly env w w₁ := (calmTacit.still.updateHsHash a _).of_run hash
  have calm' : Calmly env w₁ w₂ := ((calmFrame.answer _).sendClientKeyExchange).of_run sent
  exact not_waits_of_calmly (trans_of _ calm calm') h

/-- The value that `handle_handshake_msg` returns. -/
def Outcome.err : Outcome → Int
  | .ret err => err
  | .done _ err => err

theorem guarded_unexpectedMessage :
    (epochs env).Guarded pre unexpectedMessage w fun o w' => 0 ≤ o.err → StillFresh peer role w' :=
  Discipline.guarded_pure fun _ _ h => absurd h (not_le.mpr (dtlsAlertFatalCreate_neg _))

theorem guarded_internalError :
    (epochs env).Guarded pre internalError w fun o w' => 0 ≤ o.err → StillFresh peer role w' :=
  Discipline.guarded_pure fun _ _ h => absurd h (not_le.mpr (dtlsAlertFatalCreate_neg _))

/-- A peer that has left `waitFinished`, at the end of a program. -/
theorem guarded_entered {a : Addr} {s : DtlsState} {o : Outcome} (h : s ≠ .waitFinished) :
    (epochs env).Guarded pre (setState a s >>= fun _ => pure o) w
      fun _ w' => StillFresh (some a) role w' := by
  refine guarded_calm ((calm_state a h).bind fun _ => keeps_pure _) fun _ r w' hrun _ => ?_
  cases hrun
  intro b hb waits
  cases hb
  exact absurd ((congrArg Peer.state (heap_setPeer _ a _)).symm.trans waits) h

theorem guarded_handleServerHelloDone (data : Ptr) (dataLength : Nat) :
    (epochs env).Guarded (Ready peer role state w)
      (handleServerHelloDone env peer state data dataLength) w
      fun o w' => 0 ≤ o.err → StillFresh peer role w' := by
  refine Discipline.Guarded.ite (fun _ => guarded_unexpectedMessage) fun hstate => ?_
  cases peer with
  | none => exact guarded_internalError
  | some a =>
      refine Discipline.Guarded.bind ((guarded_checkServerHellodone a data dataLength).mono
        (fun _ ready waits => ?_) fun _ _ _ _ _ _ _ => trivial) fun err w₁ _ => ?_
      · exact hstate fun h => by cases h.symm.trans (ready.waits a rfl waits)
      refine Discipline.Guarded.ite (fun failed => ?_) fun _ => ?_
      · exact Discipline.guarded_pure fun _ _ h => absurd failed (not_lt.mpr h)
      · exact guarded_entered (by decide) |>.mono (fun _ h => h) fun _ _ _ _ _ _ still _ => still

theorem guarded_answerFinished (a : Addr) (data : Ptr) (dataLength : Nat) :
    (epochs env).Guarded (role = .server → FreshKeys (w.heap a))
      (answerFinished env a role data dataLength) w fun _ _ => True := by
  refine Discipline.Guarded.ite (fun _ => Discipline.guarded_pure fun _ _ => trivial)
    fun server => ?_
  refine Discipline.Guarded.given ?_ fun _ fresh => fresh (not_not.mp server)
  refine guarded_quiet_bind ((quietFrame env).still.updateHsHash a _) (calmFrame.still.updateHsHash a _)
    fun _ w₁ _ => ?_
  refine guarded_quiet_bind (((quietFrame env).sender _).sendCcs) ((calmFrame.sender _).sendCcs)
    fun res w₂ _ => ?_
  refine Discipline.Guarded.ite (fun _ => Discipline.guarded_pure fun _ _ => trivial) fun _ => ?_
  refine (guarded_switch a).bind fun _ w₃ _ => ?_
  exact guarded_calm ((calmFrame.sender _).sendFinished _) fun _ _ _ _ _ => trivial

theorem guarded_handleFinished (data : Ptr) (dataLength : Nat) :
    (epochs env).Guarded (Ready peer role state w)
      (handleFinished env peer role state data dataLength) w
      fun o w' => 0 ≤ o.err → StillFresh peer role w' := by
  refine Discipline.Guarded.ite (fun _ => guarded_unexpectedMessage) fun hstate => ?_
  cases peer with
  | none => exact guarded_internalError
  | some a =>
      refine Discipline.Guarded.gets_bind ?_
      cases (w.heap a).handshakeParams with
      | none => exact guarded_internalError
      | some h =>
          refine Discipline.Guarded.gets_bind ?_
          refine Discipline.Guarded.ite (fun failed => ?_) fun _ => ?_
          · exact Discipline.guarded_pure fun _ _ h => absurd failed (not_lt.mpr h)
          refine Discipline.Guarded.bind ((guarded_answerFinished a data dataLength).mono
            (fun _ ready => ready.fresh a rfl (not_not.mp hstate)) fun _ _ _ _ _ _ _ => trivial)
            fun err w₁ _ => ?_
          refine Discipline.Guarded.ite (fun failed => ?_) fun _ => ?_
          · exact Discipline.guarded_pure fun _ _ h => absurd failed (not_lt.mpr h)
          refine guarded_calm_bind (fun w => ?_) fun _ w₂ _ => ?_
          · exact (Silent.peer (p := { w.heap a with handshakeParams := none }) rfl).calmly
          refine guarded_calm_bind (calmTacit.still.ticks env) fun _ w₃ _ => ?_
          exact guarded_entered (by decide) |>.mono (fun _ h => h) fun _ _ _ _ _ _ still _ => still

/-! ## Messages -/

/-- A handler that makes calm moves only. -/
theorem guarded_calmHandler {m : M Outcome} (calm : Keeps (Calmly env) m) :
    (epochs env).Guarded (Ready peer role state w) m w
      fun o w' => 0 ≤ o.err → StillFresh peer role w' :=
  guarded_calm calm fun ready _ _ hrun _ _ => ready.still.calmly (calm.of_run hrun)

theorem guarded_dispatchMessage (session : Session) (data : Ptr) (dataLength : Nat) :
    (epochs env).Guarded (Ready peer role state w)
      (dispatchMessage env peer session role state data dataLength) w
      fun o w' => 0 ≤ o.err → StillFresh peer role w' := by
  unfold dispatchMessage
  refine Discipline.Guarded.ite
    (fun _ => guarded_calmHandler ((calmFrame.answer _).handleHelloVerifyRequest _ _ _)) fun _ => ?_
  refine Discipline.Guarded.ite
    (fun _ => guarded_calmHandler (calmFrame.handler.handleServerHello _ _ _ _)) fun _ => ?_
  refine Discipline.Guarded.ite
    (fun _ => guarded_calmHandler (calmFrame.handler.handleCertificate _ _ _ _ _)) fun _ => ?_
  refine Discipline.Guarded.ite
    (fun _ => guarded_calmHandler (calmFrame.handler.handleServerKeyExchange _ _ _ _)) fun _ => ?_
  refine Discipline.Guarded.ite (fun _ => guarded_handleServerHelloDone _ _) fun _ => ?_
  refine Discipline.Guarded.ite
    (fun _ => guarded_calmHandler (calmFrame.handler.handleCertificateRequest _ _ _ _)) fun _ => ?_
  refine Discipline.Guarded.ite (fun _ => guarded_handleFinished _ _) fun _ => ?_
  refine Discipline.Guarded.ite
    (fun _ => guarded_calmHandler (calm_handleClientKeyExchange _ _ _ _)) fun _ => ?_
  refine Discipline.Guarded.ite
    (fun _ => guarded_calmHandler (calm_handleCertificateVerify _ _ _ _)) fun _ => ?_
  refine Discipline.Guarded.ite
    (fun _ => guarded_calmHandler (calmFrame.handleClientHello _ _ _ _ _)) fun _ => ?_
  refine Discipline.Guarded.ite
    (fun _ => guarded_calmHandler ((calmFrame.answer _).handleHelloRequest _)) fun _ => ?_
  exact guarded_unexpectedMessage

/-- What `finishMessage` returns. -/
theorem finishMessage_err {o : Outcome} {res : Int} (hrun : finishMessage o w = (.ok res, w')) :
    res = o.err := by
  cases o with
  | ret err => cases hrun; rfl
  | done p err =>
      cases p with
      | none => cases hrun; rfl
      | some a =>
          by_cases h : 0 ≤ err
          · rw [finishMessage, when, if_pos h] at hrun
            cases hrun
            rfl
          · rw [finishMessage, when, if_neg h] at hrun
            cases hrun
            rfl

theorem guarded_handleHandshakeMsg (session : Session) (data : Ptr) (dataLength : Nat) :
    (epochs env).Guarded (Ready peer role state w)
      (handleHandshakeMsg env peer session role state data dataLength) w
      fun res w' => 0 ≤ res → StillFresh peer role w' := by
  refine Discipline.Guarded.gets_bind ?_
  refine guarded_silent_bind (silent_emit (by trivial)) fun _ w₁ _ told => ?_
  refine guarded_silent_bind (silentTacit.stopRetransmissionOf peer) fun _ w₂ _ stopped => ?_
  have silent : Silent w w₂ := trans_of _ told stopped
  refine Discipline.Guarded.bind ((guarded_dispatchMessage session data dataLength).mono
    (fun _ ready => ready.silent silent) fun _ _ _ _ _ _ h => h) fun o w₃ _ => ?_
  have finished : (epochs env).Guarded (0 ≤ o.err → StillFresh peer role w₃) (finishMessage o) w₃
      fun res w' => 0 ≤ res → StillFresh peer role w' := by
    refine guarded_calm (calmFrame.handler.finishMessage o) fun still res w₄ hrun _ hres => ?_
    have calm : Calmly env w₃ w₄ := (calmFrame.handler.finishMessage o).of_run hrun
    exact (still (finishMessage_err hrun ▸ hres)).calmly calm
  refine Discipline.Guarded.bind finished fun res w₄ _ => ?_
  · have handled : Keeps (Calmly env) (emit (.handled res) >>= fun _ => pure res) :=
      (calm_emit (by trivial)).bind fun _ => keeps_pure _
    refine guarded_calm handled fun still r w₅ hrun _ hres => ?_
    cases hrun
    have calm : Calmly env w₄ (w₄.emitted (.handled res)) := calm_emitted rfl rfl trivial
    exact (still hres).calmly calm

theorem guarded_replayMessage (a : Addr) (session : Session) (node : Netq) :
    (epochs env).Guarded (StillFresh (some a) role w) (replayMessage env a session role node) w
      fun res w' => 0 ≤ res → StillFresh (some a) role w' := by
  refine guarded_silent_bind (silent_modifyHandshake a _) fun _ w₁ _ taken => ?_
  refine Discipline.Guarded.gets_bind ?_
  refine guarded_silent_bind (silent_emit (by trivial)) fun _ w₂ hrun told => ?_
  cases hrun
  refine (guarded_handleHandshakeMsg session _ _).mono (fun _ still => ?_) fun _ _ _ _ _ _ h => h
  refine ⟨fun b hb waits => ?_, fun b hb waits server => ?_⟩
  · cases hb
    exact waits
  · cases hb
    have calm : Calmly env w w₁ := taken.calmly
    exact (still.calmly calm) a rfl waits server

theorem guarded_replayQueue (a : Addr) (session : Session) (fuel : Nat) (res : Int) :
    (epochs env).Guarded (StillFresh (some a) role w) (replayQueue env a session role fuel res) w
      fun _ _ => True := by
  induction fuel generalizing w res with
  | zero => exact Discipline.guarded_pure fun _ _ => trivial
  | succ fuel ih =>
      refine Discipline.Guarded.gets_bind ?_
      cases (w.heap a).handshakeParams with
      | none => exact Discipline.guarded_pure fun _ _ => trivial
      | some h =>
          simp only
          cases h.reorderQueue.find? h.isNext with
          | none => exact Discipline.guarded_pure fun _ _ => trivial
          | some node =>
              refine (guarded_replayMessage a session node).bind fun res w₁ _ => ?_
              refine Discipline.Guarded.ite (fun _ => Discipline.guarded_pure fun _ _ => trivial)
                fun more => ?_
              exact (ih res).mono (fun _ still => still (not_lt.mp more)) fun _ _ _ _ _ _ h => h

theorem guarded_handleInSequence (a : Addr) (h : HandshakeParameters) (session : Session)
    (data : Ptr) (dataLength : Nat) :
    (epochs env).Guarded (Ready (some a) role state w)
      (handleInSequence env a h session role state data dataLength) w fun _ _ => True := by
  refine Discipline.Guarded.ite (fun _ => Discipline.guarded_pure fun _ _ => trivial) fun _ => ?_
  refine Discipline.Guarded.ite
    (fun _ => guarded_calm (calmFrame.handler.queueMessage a h _ _) fun _ _ _ _ _ => trivial)
    fun _ => ?_
  refine guarded_silent_bind (silentAssembler.freeReassembleBuffer a) fun _ w₁ _ freed => ?_
  refine Discipline.Guarded.bind ((guarded_handleHandshakeMsg session _ _).mono
    (fun _ ready => ready.silent freed) fun _ _ _ _ _ _ h => h) fun res w₂ _ => ?_
  refine Discipline.Guarded.ite (fun _ => Discipline.guarded_pure fun _ _ => trivial) fun more => ?_
  refine Discipline.Guarded.gets_bind ?_
  exact (guarded_replayQueue a session _ res).mono (fun _ still => still (not_lt.mp more))
    fun _ _ _ _ _ _ h => h

theorem guarded_handleOutside (session : Session) (data : Ptr) (dataLength : Nat) :
    (epochs env).Guarded (Ready peer role state w)
      (handleOutside env peer session role state data dataLength) w fun _ _ => True := by
  refine Discipline.Guarded.ite (fun _ => Discipline.guarded_pure fun _ _ => trivial) fun _ => ?_
  refine Discipline.Guarded.ite (fun _ => ?_) fun _ => Discipline.guarded_pure fun _ _ => trivial
  exact (guarded_handleHandshakeMsg session _ _).mono (fun _ h => h) fun _ _ _ _ _ _ _ => trivial

theorem guarded_handleWhole (session : Session) (data : Ptr) (dataLength : Nat) :
    (epochs env).Guarded (Ready peer role state w)
      (handleWhole env peer session role state data dataLength) w fun _ _ => True := by
  cases peer with
  | none => exact guarded_handleOutside session data dataLength
  | some a =>
      refine Discipline.Guarded.gets_bind ?_
      cases (w.heap a).handshakeParams with
      | none => exact guarded_handleOutside session data dataLength
      | some h => exact guarded_handleInSequence a h session data dataLength

theorem guarded_handleHandshake (session : Session) (data : Ptr) (dataLength : Nat) :
    (epochs env).Guarded (Ready peer role state w)
      (handleHandshake env peer session role state data dataLength) w fun _ _ => True := by
  refine Discipline.Guarded.ite (fun _ => Discipline.guarded_pure fun _ _ => trivial) fun _ => ?_
  refine Discipline.Guarded.ite (fun _ => ?_) fun _ => guarded_handleWhole session data dataLength
  refine guarded_silent_bind (silentAssembler.reassemble peer _ data dataLength)
    fun whole w₁ _ silent => ?_
  cases whole with
  | error res => exact Discipline.guarded_pure fun _ _ => trivial
  | ok m =>
      exact (guarded_handleWhole session m.1 m.2).mono (fun _ ready => ready.silent silent)
        fun _ _ _ _ _ _ h => h

/-! ## Records -/

/-- What is known of a record that has been opened: it is handled in the role and the state
    of the peer, or taken for a ClientHello; and a server that waits for a Finished opens
    a record of the next epoch with fresh keys. -/
structure OpenedFor (peer : Option Addr) (r : OpenRecord) (w : World) : Prop where
  waits : ∀ a, peer = some a → (w.heap a).state = .waitFinished → r.state = .waitFinished
  fresh : ∀ a c, peer = some a → r.state = .waitFinished → r.role = .server →
    (w.heap a).slots.1 = some c → dtlsGetEpoch r.msg = (c.epoch + 1) % 2 ^ 16 → FreshKeys (w.heap a)

theorem ready_none : Ready none role state w :=
  ⟨fun a ha => (Option.some_ne_none a ha.symm).elim, fun a ha => (Option.some_ne_none a ha.symm).elim⟩

theorem guarded_checkEpoch (r : OpenRecord) :
    (epochs env).Guarded (OpenedFor peer r w) (checkEpoch peer r) w
      fun res w' => ∀ r', res = some r' → Ready peer r'.role r'.state w' := by
  cases peer with
  | none => exact Discipline.guarded_pure fun _ _ _ _ => ready_none
  | some a =>
      refine Discipline.Guarded.gets_bind ?_
      cases zero : (w.heap a).security0 with
      | none =>
          -- slot 0 is there
          refine Discipline.guarded_pure fun hw _ => ?_
          have present := (hw a).separate.present
          rw [zero] at present
          exact absurd present Bool.false_ne_true
      | some s =>
          refine Discipline.Guarded.ite (fun epoch => ?_) fun _ => ?_
          · refine Discipline.guarded_pure fun _ opened r' hr' => ?_
            cases hr'
            refine ⟨opened.waits, fun b hb waits server => ?_⟩
            cases hb
            refine opened.fresh a s.core rfl waits server ?_ ?_
            · rw [Peer.slots, zero]
              rfl
            · rw [← epoch, expectedEpoch, if_pos ⟨server, waits⟩]
              rfl
          refine Discipline.Guarded.ite (fun attempt => ?_) fun _ => ?_
          · refine Discipline.guarded_pure fun _ _ r' hr' => ?_
            cases hr'
            refine ⟨fun b hb waits => ?_, fun _ _ waits => by cases waits⟩
            cases hb
            cases (hsAttempt_connected attempt).symm.trans waits
          · exact Discipline.guarded_pure fun _ _ r' hr' => by cases hr'

theorem guarded_handleHandshakeRecord (session : Session) (r : OpenRecord) :
    (epochs env).Guarded (OpenedFor peer r w) (handleHandshakeRecord env peer session r) w
      fun _ _ => True := by
  refine (guarded_checkEpoch r).bind fun res w₁ _ => ?_
  cases res with
  | none => exact Discipline.guarded_pure fun _ _ => trivial
  | some r' =>
      refine Discipline.Guarded.bind ((guarded_handleHandshake session r'.data r'.dataLength).mono
        (fun _ ready => ready r' rfl) fun _ _ _ _ _ _ h => h) fun err w₂ _ => ?_
      exact guarded_calm (calm_handshakeHandled peer session err) fun _ _ _ _ _ => trivial

/-- A ChangeCipherSpec that is waited for: a server has fresh keys when it goes on. -/
theorem guarded_handleCcs (data : Ptr) (dataLength : Nat) :
    (epochs env).Guarded pre (handleCcs env peer data dataLength) w fun _ _ => True := by
  cases peer with
  | none => exact Discipline.guarded_pure fun _ _ => trivial
  | some a =>
      refine Discipline.Guarded.gets_bind ?_
      refine Discipline.Guarded.ite (fun _ => Discipline.guarded_pure fun _ _ => trivial)
        fun waits => ?_
      refine Discipline.Guarded.ite (fun _ => Discipline.guarded_pure fun _ _ => trivial)
        fun _ => ?_
      have state : (w.heap a).state ≠ .waitFinished := by
        rw [not_not.mp waits]
        decide
      have keys : (epochs env).Guarded pre (serverKeyBlock env a (w.heap a)) w
          fun err w' => 0 ≤ err → (w'.heap a).role = .server → FreshKeys (w'.heap a) := by
        refine Discipline.Guarded.ite (fun client => ?_) fun _ => ?_
        · exact Discipline.guarded_pure fun _ _ _ server => absurd server client
        · exact (guarded_calculateKeyBlock a _).mono (fun _ _ => state)
            fun _ _ _ _ _ _ fresh ok _ => fresh ok
      refine keys.bind fun err w₁ _ => ?_
      refine Discipline.Guarded.ite (fun _ => Discipline.guarded_pure fun _ _ => trivial)
        fun more => ?_
      refine Discipline.guarded_step (Move.enter w₁ a .waitFinished) fun hw fresh _ =>
        ⟨?_, ⟨hw, fun b switch => by cases switch⟩, fun _ _ => trivial⟩
      refine SlotsOkIn.setPeer (w := w₁.emitted (.state a (w₁.heap a).state .waitFinished)) hw
        ((hw a).moved id fun c₀ c₁ slots server _ _ => ?_)
      obtain ⟨d₀, d₁, slots', -, keyed⟩ := fresh (not_lt.mp more) server
      have slots'' : (w₁.heap a).slots = (some c₀, some c₁) := slots
      rw [slots''] at slots'
      cases slots'
      exact keyed

theorem guarded_handleCcsRecord (session : Session) (r : OpenRecord) :
    (epochs env).Guarded pre (handleCcsRecord env peer session r) w fun _ _ => True := by
  refine guarded_calm_bind (calmTacit.stopRetransmissionOf peer) fun _ w₁ _ => ?_
  refine (guarded_handleCcs r.data r.dataLength).bind fun err w₂ _ => ?_
  refine Discipline.Guarded.ite (fun _ => Discipline.guarded_pure fun _ _ => trivial) fun _ => ?_
  refine guarded_calm_bind (calmFrame.alertSendFromErr _ _ _) fun _ w₃ _ => ?_
  cases peer with
  | none => exact Discipline.guarded_pure fun _ _ => trivial
  | some a =>
      exact guarded_calm ((calmFrame.destroyPeer a).bind fun _ => keeps_pure _)
        fun _ _ _ _ _ => trivial

theorem guarded_dispatchRecord (session : Session) (r : OpenRecord) :
    (epochs env).Guarded (OpenedFor peer r w) (dispatchRecord env peer session r) w
      fun _ _ => True := by
  refine Discipline.Guarded.ite (fun _ => guarded_handleCcsRecord session r) fun _ => ?_
  refine Discipline.Guarded.ite (fun _ =>
    guarded_calm (calm_handleAlertRecord peer r) fun _ _ _ _ _ => trivial) fun _ => ?_
  refine Discipline.Guarded.ite (fun _ => guarded_handleHandshakeRecord session r) fun _ => ?_
  refine Discipline.Guarded.ite (fun _ =>
    guarded_calm (calm_handleApplicationRecord peer r) fun _ _ _ _ _ => trivial) fun _ => ?_
  exact Discipline.guarded_pure fun _ _ => trivial

/-- The slot that `dtls_security_params_epoch` finds has the epoch. -/
theorem securityParamsEpoch_found {p : Peer} {epoch : Nat} {slot : Slot}
    (h : dtlsSecurityParamsEpoch p epoch = some slot) :
    ∃ s, p.security slot = some s ∧ s.epoch = epoch := by
  rw [dtlsSecurityParamsEpoch] at h
  split at h
  · rename_i zero
    cases h
    obtain ⟨s, hs, he⟩ := (Option.any_eq_true _ _).mp zero
    exact ⟨s, hs, of_decide_eq_true he⟩
  · split at h
    · rename_i one
      cases h
      obtain ⟨s, hs, he⟩ := (Option.any_eq_true _ _).mp one
      exact ⟨s, hs, of_decide_eq_true he⟩
    · cases h

/-- A record that opens is of the epoch of a slot. -/
theorem opened_slot {C : Primitives} {p : Peer} {packet : Ptr} {length : Nat}
    (opened : 0 ≤ (decryptPacket C p packet length).length) :
    ∃ slot s, p.security slot = some s ∧ s.epoch = dtlsGetEpoch packet := by
  cases found : dtlsSecurityParamsEpoch p (dtlsGetEpoch packet) with
  | none =>
      rw [decryptPacket, found] at opened
      exact absurd opened (show ¬ (0 : Int) ≤ -1 by decide)
  | some slot =>
      obtain ⟨s, hs, epoch⟩ := securityParamsEpoch_found found
      exact ⟨slot, s, hs, epoch⟩

/-- A server that waits for a Finished and opens a record of the next epoch has fresh
    keys, and keeps them. -/
theorem fresh_of_opened {C : Primitives} {p : Peer} {packet : Ptr} {length : Nat}
    {c : SecurityCore} (ok : p.Ok) (server : p.role = .server) (waits : p.state = .waitFinished)
    (zero : p.slots.1 = some c) (opened : 0 ≤ (decryptPacket C p packet length).length)
    (epoch : dtlsGetEpoch packet = (c.epoch + 1) % 2 ^ 16) : FreshKeys p ∧ p.freeOther = p := by
  obtain ⟨slot, s, hs, found⟩ := opened_slot opened
  obtain ⟨c', hc', bound⟩ := ok.zero
  rw [zero] at hc'
  cases hc'
  obtain ⟨s₀, hs₀, hc⟩ := Option.map_eq_some_iff.mp zero
  have hc : c.epoch = s₀.epoch := (congrArg SecurityCore.epoch hc).symm
  cases slot with
  | zero =>
      have same : s₀ = s := Option.some.inj (hs₀.symm.trans hs)
      subst same
      omega
  | one =>
      have one : p.security1 = some s := hs
      have slots : p.slots = (some c, some s.core) := by
        rw [← zero, Peer.slots, one]
        rfl
      have pair := ok.pair c s.core slots
      have next := pair.server server
      have core : s.core.epoch = s.epoch := rfl
      refine ⟨⟨c, s.core, slots, ?_, pair.keyed server waits ?_⟩, ?_⟩
      · omega
      · omega
      · simp only [Peer.freeOther, hs₀, one]
        rw [if_pos (by omega)]

/-- If it is a server that waits for a Finished, and the packet is of the next epoch, then it
    has fresh keys. -/
def NextIsFresh (packet : Ptr) (p : Peer) : Prop :=
  ∀ c, p.state = .waitFinished → p.role = .server → p.slots.1 = some c →
    dtlsGetEpoch packet = (c.epoch + 1) % 2 ^ 16 → FreshKeys p

theorem guarded_openPeerRecord (msg : Ptr) (rlen : Nat) :
    (epochs env).Guarded pre (openPeerRecord env peer msg rlen) w
      fun res w' => ∀ r, res = .ok r → OpenedFor peer r w' := by
  cases peer with
  | none =>
      exact Discipline.guarded_pure fun _ _ _ _ =>
        ⟨fun a ha => (Option.some_ne_none a ha.symm).elim,
          fun a _ ha => (Option.some_ne_none a ha.symm).elim⟩
  | some a =>
      -- after decryption, what is known is the peer before it
      have opens : (epochs env).Guarded pre (decryptVerify env a msg rlen) w fun o w' =>
          o = decryptPacket env.prims (w.heap a) msg rlen ∧
            (0 ≤ o.length → NextIsFresh msg (w'.heap a)) := by
        refine Discipline.Guarded.gets_bind ?_
        by_cases verified : (decryptPacket env.prims (w.heap a) msg rlen).verified = true
        · rw [when, if_pos verified]
          refine Discipline.guarded_step (Move.freeOther w a) fun hw _ _ =>
            ⟨(mild_free _ _ _ (Move.freeOther w a) trivial hw).1,
              ⟨hw, fun b switch => by cases switch⟩, fun o ho => ?_⟩
          cases ho
          refine ⟨rfl, fun opened => ?_⟩
          show NextIsFresh msg ((w.setPeer a (w.heap a).freeOther).heap a)
          rw [heap_setPeer]
          intro c waits server zero epoch
          have role := freeOther_view (f := Peer.role) (fun _ => rfl) (w.heap a)
          have state := freeOther_view (f := Peer.state) (fun _ => rfl) (w.heap a)
          have slot := freeOther_view (f := fun p => p.slots.1) (fun _ => rfl) (w.heap a)
          obtain ⟨fresh, same⟩ := fresh_of_opened (hw a) (role ▸ server) (state ▸ waits)
            (slot ▸ zero) opened epoch
          rw [same]
          exact fresh
        · rw [when, if_neg verified]
          refine Discipline.guarded_pure
            fun hw _ => ⟨rfl, fun opened c waits server zero epoch => ?_⟩
          exact (fresh_of_opened (hw a) server waits zero opened epoch).1
      refine opens.bind fun o w₁ _ => ?_
      refine Discipline.Guarded.gets_bind ?_
      refine Discipline.Guarded.ite (fun _ => ?_) fun opened => ?_
      · refine Discipline.Guarded.ite (fun attempt => ?_) fun _ => ?_
        · refine Discipline.guarded_pure fun _ _ r hr => ?_
          cases hr
          refine ⟨fun b hb waits => ?_, fun _ _ _ waits => by cases waits⟩
          cases hb
          cases (hsAttempt_connected attempt).symm.trans waits
        · refine guarded_calm_bind (calmFrame.rejectRecord a _) fun err w₂ _ => ?_
          exact Discipline.guarded_pure fun _ _ r hr => by cases hr
      · refine Discipline.guarded_pure fun _ known r hr => ?_
        cases hr
        obtain ⟨same, fresh⟩ := known
        refine ⟨fun b hb waits => ?_, fun b c hb waits server zero epoch => ?_⟩
        · cases hb
          exact waits
        · cases hb
          refine fresh (not_lt.mp opened) c waits server zero ?_
          rw [← epoch, same]
          exact (decryptPacket_epoch _ _ _ _).symm

theorem guarded_handleRecord (session : Session) (msg : Ptr) (rlen : Nat) :
    (epochs env).Guarded pre (handleRecord env peer session msg rlen) w fun _ _ => True := by
  refine Discipline.Guarded.gets_bind ?_
  refine guarded_calm_bind (calm_emit (by trivial)) fun _ w₁ _ => ?_
  refine (guarded_openPeerRecord msg rlen).bind fun res w₂ _ => ?_
  cases res with
  | error err => exact Discipline.guarded_pure fun _ _ => trivial
  | ok r =>
      refine Discipline.Guarded.bind ((guarded_dispatchRecord session r).mono
        (fun _ opened => opened r rfl) fun _ _ _ _ _ _ h => h) fun res w₃ _ => ?_
      exact Discipline.guarded_pure fun _ _ => trivial

theorem guarded_handleRecords (session : Session) (fuel : Nat) (msg : Ptr) (msglen : Nat) :
    (epochs env).Guarded True (handleRecords env peer session fuel msg msglen) w
      fun _ _ => True := by
  induction fuel generalizing w msg msglen with
  | zero => exact Discipline.guarded_pure fun _ _ => trivial
  | succ fuel ih =>
      refine Discipline.Guarded.ite (fun _ => Discipline.guarded_pure fun _ _ => trivial)
        fun _ => ?_
      refine (guarded_handleRecord session msg _).bind fun next w₁ _ => ?_
      cases next with
      | error err => exact Discipline.guarded_pure fun _ _ => trivial
      | ok msg => exact ih msg _

/-! ## Runs -/

theorem guarded_runInput (i : Input) :
    (epochs env).Guarded True (runInput env i) w fun _ _ => True := by
  by_cases h : ∃ session msg msglen, i = .handleMessage session msg msglen
  · obtain ⟨session, msg, msglen, rfl⟩ := h
    have handled : (epochs env).Guarded True (dtlsHandleMessage env session msg msglen) w
        fun _ _ => True :=
      Discipline.Guarded.gets_bind (guarded_handleRecords session _ msg msglen)
    exact Discipline.Guarded.bind handled fun _ _ _ => Discipline.guarded_pure fun _ _ => trivial
  · exact guarded_calm (calm_runInput fun session msg msglen hi => h ⟨session, msg, msglen, hi⟩)
      fun _ _ _ _ _ => trivial

theorem guarded_runInputs (is : List Input) :
    (epochs env).Guarded True (runInputs env is) w fun _ _ => True := by
  induction is generalizing w with
  | nil => exact Discipline.guarded_pure fun _ _ => trivial
  | cons i is ih => exact (guarded_runInput i).bind fun _ _ _ => ih

theorem slotsOk_initial (h : Initial w) : SlotsOkIn w := by
  intro a
  obtain ⟨session, empty⟩ := h.heap a
  rw [empty]
  exact ok_emptyPeer session

/-- **EVERY RUN IS A RUN OF MOVES**; as long as the epochs of servers fit, the slots are in
    order throughout. -/
theorem moves_runInputs (h : Initial w) (is : List Input) :
    ∃ l, Path (Move env) w l (runInputs env is w).2 ∧
      ((∀ x ∈ l, EpochFits x) → SlotsOkIn (runInputs env is w).2 ∧ ∀ x ∈ l, InOrder x) := by
  have guarded : (epochs env).Guarded True (runInputs env is) w fun _ _ => True :=
    guarded_runInputs is
  obtain ⟨l, path, hl⟩ := guarded
  refine ⟨l, path, fun fits => ?_⟩
  obtain ⟨ok, order, -⟩ := hl (slotsOk_initial h) trivial fits
  exact ⟨ok, order⟩

/-! ## What the switch finds -/

/-- Of the moves in `past` that make or move the keys of the peer at `a`, the last one
    installed a key block in slot 1. -/
def Negotiated (a : Addr) : List (World × Op) → Prop
  | [] => False
  | (_, .install b) :: past => b = a ∨ Negotiated a past
  | (_, .newPeer b) :: past | (_, .next b) :: past | (_, .noNext b) :: past
  | (_, .switch b) :: past => b ≠ a ∧ Negotiated a past
  | _ :: past => Negotiated a past

/-- FreshKeys keys have been negotiated. -/
def FreshNegotiated (past : List (World × Op)) (w : World) : Prop :=
  ∀ a, FreshKeys (w.heap a) → Negotiated a past

theorem not_fresh_single {p : Peer} (h : p.slots.2 = none) : ¬ FreshKeys p := by
  rintro ⟨c₀, c₁, slots, -⟩
  rw [slots] at h
  exact Option.some_ne_none _ h

/-- FreshKeys keys of another peer, or of this one with the same slots. -/
theorem FreshNegotiated.setPeer {past : List (World × Op)} {a : Addr} {p : Peer}
    (h : FreshNegotiated past w) (hp : FreshKeys p → FreshKeys (w.heap a)) :
    FreshNegotiated past (w.setPeer a p) := by
  intro b
  by_cases hb : b = a
  · subst hb
    rw [heap_setPeer]
    exact fun fresh => h b (hp fresh)
  · rw [heap_setPeer_ne p hb]
    exact h b

/-- A peer without fresh keys. -/
theorem FreshNegotiated.elsewhere {past : List (World × Op)} {a : Addr} {p : Peer}
    (h : FreshNegotiated past w) (hp : ¬ FreshKeys p) (b : Addr)
    (fresh : FreshKeys ((w.setPeer a p).heap b)) : a ≠ b ∧ Negotiated b past := by
  by_cases hb : b = a
  · subst hb
    rw [heap_setPeer] at fresh
    exact absurd fresh hp
  · rw [heap_setPeer_ne p hb] at fresh
    exact ⟨Ne.symm hb, h b fresh⟩

/-- After the switch the other slot is one epoch behind. -/
theorem not_fresh_switched {p : Peer} (ok : p.Ok) (fresh : FreshKeys p) :
    ¬ FreshKeys { p with security0 := p.security1, security1 := p.security0 } := by
  rintro ⟨c₀, c₁, swapped, epoch, -⟩
  obtain ⟨d₀, d₁, slots, epoch', -⟩ := fresh
  obtain ⟨c, hc, bound⟩ := ok.zero
  rw [slots] at hc
  have zero : p.slots.2 = some c₀ := congrArg Prod.fst swapped
  have one : p.slots.1 = some c₁ := congrArg Prod.snd swapped
  rw [slots] at zero one
  cases hc
  cases zero
  cases one
  omega

/-- **STEP**: what is known of fresh keys. -/
theorem freshNegotiated_step {past : List (World × Op)} {op : Op} (move : Move env w op w')
    (order : InOrder (w, op)) (h : FreshNegotiated past w) :
    FreshNegotiated ((w, op) :: past) w' := by
  cases move with
  | quiet silent => exact fun a fresh => h a (fresh.of_eq (silent.slots a).symm)
  | asClient a => exact h.setPeer id
  | enter a s => exact FreshNegotiated.setPeer (w := w.emitted _) h id
  | send a slot s session type payload hs =>
      exact FreshNegotiated.setPeer (w := w) h fun fresh =>
        fresh.of_eq (slots_countRecord hs).symm
  | spend a slot s hs => exact h.setPeer fun fresh => fresh.of_eq (slots_countRecord hs).symm
  | sendPlain session type payload => exact h
  | index a bound => exact h.setPeer id
  | accept a session empty =>
      exact h.setPeer fun fresh => absurd fresh (not_fresh_single rfl)
  | freeOther a =>
      refine h.setPeer fun fresh => ?_
      rcases freeOther_cases (w.heap a) with same | dropped
      · rwa [same] at fresh
      · rw [dropped] at fresh
        exact absurd fresh (not_fresh_single rfl)
  | install a params preMaster keyed =>
      intro b fresh
      by_cases hb : b = a
      · exact .inl hb.symm
      · rw [heap_setPeer_ne _ hb] at fresh
        exact .inr (h b fresh)
  | newPeer a session => exact h.elsewhere (not_fresh_single rfl)
  | noNext a => exact h.elsewhere (not_fresh_single rfl)
  | next a s hs =>
      refine h.elsewhere ?_
      rintro ⟨c₀, c₁, slots, -, cipher⟩
      have one : some dtlsSecurityNew.cipher = some c₁.cipher :=
        congrArg (fun x => x.2.map SecurityCore.cipher) slots
      exact cipher (Option.some.inj one).symm
  | switch a => exact h.elsewhere (not_fresh_switched (order.slots a) (order.fresh a rfl))

/-- **RUN**: what is known of fresh keys, as long as the slots are in order. -/
theorem Path.freshNegotiated {w₀ : World} {l : List (World × Op)} (path : Path (Move env) w₀ l w)
    (h₀ : Initial w₀) (order : ∀ x ∈ l, InOrder x) : FreshNegotiated l w := by
  induction path with
  | nil =>
      intro a fresh
      obtain ⟨session, empty⟩ := h₀.heap a
      rw [empty] at fresh
      exact absurd fresh (not_fresh_single rfl)
  | snoc _ last ih =>
      obtain ⟨here, before⟩ := List.forall_mem_cons.mp order
      exact freshNegotiated_step last here (ih before)

end PqDtls.Dtls
