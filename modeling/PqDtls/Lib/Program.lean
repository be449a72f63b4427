import Mathlib.Order.RelClasses

/-! # Programs over a state that may stop

    `Program ε σ α` is a program over states `σ` that returns an `α` or stops
    with an `ε`.  Unlike an exception transformer below a state, the state in
    which a program stops is kept: a property of everything that happened up to
    a stop is a property of that state.

    Three ways to reason are given.  `Keeps R m` says that `m` relates the state
    before to the state after by `R`, however it ends; for a preorder `R` it
    goes through sequencing, so a frame condition of a large program is one
    rule a line.  `Returns m s Q` says that `m` returns, for a run that is
    executed symbolically from the state `s`.
    `Confined e X I m` follows one way to stop: it happens in states of `X` only.
    `Ensures S m s Q` says what holds however `m` ends, and what when it returns. -/

namespace PqDtls

/-- A program over `σ`: it returns an `α`, or stops with an `ε`. -/
def Program (ε σ α : Type) : Type := σ → Except ε α × σ

namespace Program

variable {ε σ α β : Type}

/-- Sequencing: a stop skips what follows and keeps its state. -/
def seq (m : Program ε σ α) (f : α → Program ε σ β) : Program ε σ β := fun s =>
  match m s with
  | (.ok a, s') => f a s'
  | (.error e, s') => (.error e, s')

instance : Monad (Program ε σ) where
  pure a := fun s => (.ok a, s)
  bind := seq

/-- The current state. -/
def get : Program ε σ σ := fun s => (.ok s, s)

/-- A function of the current state. -/
def gets (f : σ → α) : Program ε σ α := fun s => (.ok (f s), s)

def modify (f : σ → σ) : Program ε σ Unit := fun s => (.ok (), f s)

/-- Stop with `e`. -/
def stop (e : ε) : Program ε σ α := fun s => (.error e, s)

/-- The value of an option, or a stop. -/
def ofOption (e : ε) : Option α → Program ε σ α
  | some a => pure a
  | none => stop e

/-- `m` if `c` holds. -/
def when (c : Prop) [Decidable c] (m : Program ε σ Unit) : Program ε σ Unit :=
  if c then m else pure ()

/-! ## Execution -/

@[simp] theorem pure_apply (a : α) (s : σ) : (pure a : Program ε σ α) s = (.ok a, s) := rfl

theorem bind_apply (m : Program ε σ α) (f : α → Program ε σ β) (s : σ) :
    (m >>= f) s = match m s with
      | (.ok a, s') => f a s'
      | (.error e, s') => (.error e, s') := rfl

theorem bind_ok {m : Program ε σ α} {s s' : σ} {a : α} (h : m s = (.ok a, s'))
    (f : α → Program ε σ β) : (m >>= f) s = f a s' := by
  rw [bind_apply, h]

theorem bind_error {m : Program ε σ α} {s s' : σ} {e : ε} (h : m s = (.error e, s'))
    (f : α → Program ε σ β) : (m >>= f) s = (.error e, s') := by
  rw [bind_apply, h]

/-- **INVERSION** of a sequence that returns. -/
theorem bind_returned {m : Program ε σ α} {f : α → Program ε σ β} {s t : σ} {b : β}
    (h : (m >>= f) s = (.ok b, t)) : ∃ a s', m s = (.ok a, s') ∧ f a s' = (.ok b, t) := by
  rw [bind_apply] at h
  rcases hs : m s with ⟨e | a, s'⟩ <;> rw [hs] at h
  · cases h
  · exact ⟨a, s', rfl, h⟩

@[simp] theorem get_apply (s : σ) : (get : Program ε σ σ) s = (.ok s, s) := rfl

@[simp] theorem gets_apply (f : σ → α) (s : σ) :
    (gets f : Program ε σ α) s = (.ok (f s), s) := rfl

@[simp] theorem modify_apply (f : σ → σ) (s : σ) :
    (modify f : Program ε σ Unit) s = (.ok (), f s) := rfl

@[simp] theorem stop_apply (e : ε) (s : σ) :
    (stop e : Program ε σ α) s = (.error e, s) := rfl

@[simp] theorem gets_bind (g : σ → α) (f : α → Program ε σ β) (s : σ) :
    ((gets g : Program ε σ α) >>= f) s = f (g s) s := rfl

@[simp] theorem get_bind (f : σ → Program ε σ β) (s : σ) :
    ((get : Program ε σ σ) >>= f) s = f s s := rfl

@[simp] theorem modify_bind (g : σ → σ) (f : Unit → Program ε σ β) (s : σ) :
    ((modify g : Program ε σ Unit) >>= f) s = f () (g s) := rfl

@[simp] theorem stop_bind (e : ε) (f : α → Program ε σ β) (s : σ) :
    ((stop e : Program ε σ α) >>= f) s = (.error e, s) := rfl

theorem map_id_apply (m : Program ε σ α) : id <$> m = m := by
  funext s
  show (match m s with
    | (.ok a, s') => (Except.ok a, s')
    | (.error e, s') => (.error e, s')) = m s
  rcases m s with ⟨_ | _, _⟩ <;> rfl

theorem bind_assoc_apply {γ : Type} (m : Program ε σ α) (f : α → Program ε σ β)
    (g : β → Program ε σ γ) : m >>= f >>= g = m >>= fun a => f a >>= g := by
  funext s
  simp only [bind_apply]
  rcases m s with ⟨_ | _, _⟩ <;> rfl

instance : LawfulMonad (Program ε σ) :=
  LawfulMonad.mk' _ map_id_apply (fun _ _ => rfl) bind_assoc_apply

/-! ## Frame conditions -/

/-- However `m` ends, the state it leaves is related to the one it found. -/
def Keeps (R : σ → σ → Prop) (m : Program ε σ α) : Prop := ∀ s, R s (m s).2

variable {R : σ → σ → Prop}

section
variable [IsPreorder σ R]

theorem keeps_pure (a : α) : Keeps R (pure a : Program ε σ α) := fun s => refl_of R s

theorem keeps_get : Keeps R (get : Program ε σ σ) := fun s => refl_of R s

theorem keeps_gets (f : σ → α) : Keeps R (gets f : Program ε σ α) := fun s => refl_of R s

theorem keeps_stop (e : ε) : Keeps R (stop e : Program ε σ α) := fun s => refl_of R s

theorem keeps_ofOption (e : ε) (o : Option α) : Keeps R (ofOption (σ := σ) e o) := by
  cases o with
  | none => exact keeps_stop e
  | some a => exact keeps_pure a

theorem Keeps.bind {m : Program ε σ α} {f : α → Program ε σ β} (hm : Keeps R m)
    (hf : ∀ a, Keeps R (f a)) : Keeps R (m >>= f) := by
  intro s
  have h := hm s
  rw [bind_apply]
  rcases hs : m s with ⟨e | a, s'⟩ <;> rw [hs] at h
  · exact h
  · exact trans_of R h (hf a s')

end

theorem keeps_modify {f : σ → σ} (h : ∀ s, R s (f s)) :
    Keeps R (modify f : Program ε σ Unit) := h

theorem Keeps.ite {c : Prop} [Decidable c] {m n : Program ε σ α} (hm : c → Keeps R m)
    (hn : ¬ c → Keeps R n) : Keeps R (if c then m else n) := by
  by_cases h : c
  · rw [if_pos h]; exact hm h
  · rw [if_neg h]; exact hn h

theorem Keeps.when [IsPreorder σ R] {c : Prop} [Decidable c] {m : Program ε σ Unit}
    (hm : c → Keeps R m) : Keeps R (when c m) :=
  Keeps.ite hm fun _ => keeps_pure ()

/-- The states before and after a program that returned. -/
theorem Keeps.of_run {m : Program ε σ α} (h : Keeps R m) {s s' : σ} {a : α}
    (hrun : m s = (.ok a, s')) : R s s' := by
  have kept := h s
  rwa [hrun] at kept

/-- A frame condition implies a weaker one. -/
theorem Keeps.mono {R' : σ → σ → Prop} {m : Program ε σ α} (h : Keeps R m)
    (hR : ∀ s s', R s s' → R' s s') : Keeps R' m := fun s => hR _ _ (h s)

/-- A view of the state that no step changes. -/
def Same {γ : Type} (view : σ → γ) (s s' : σ) : Prop := view s' = view s

instance {γ : Type} (view : σ → γ) : IsPreorder σ (Same view) where
  refl _ := rfl
  trans _ _ _ h h' := Eq.trans h' h

/-- An invariant, as the relation "kept if it held". -/
def Inv (I : σ → Prop) (s s' : σ) : Prop := I s → I s'

instance (I : σ → Prop) : IsPreorder σ (Inv I) where
  refl _ := id
  trans _ _ _ h h' := h' ∘ h

/-- `R`, as long as `P` holds, which it then still does. -/
def Under (P : σ → Prop) (R : σ → σ → Prop) (s s' : σ) : Prop := P s → R s s' ∧ P s'

instance (P : σ → Prop) [IsPreorder σ R] : IsPreorder σ (Under P R) where
  refl s h := ⟨refl_of R s, h⟩
  trans := by
    intro s₁ s₂ s₃ h h' hs
    obtain ⟨h₁, hs₂⟩ := h hs
    obtain ⟨h₂, hs₃⟩ := h' hs₂
    exact ⟨trans_of R h₁ h₂, hs₃⟩

/-- Sequencing from one state: the rest starts where `m` returns. -/
theorem bind_keeps_from [IsPreorder σ R] {m : Program ε σ α} {f : α → Program ε σ β} {s : σ}
    (hm : R s (m s).2) (hf : ∀ a s', m s = (.ok a, s') → R s' (f a s').2) :
    R s ((m >>= f) s).2 := by
  rw [bind_apply]
  rcases hs : m s with ⟨e | a, s'⟩ <;> rw [hs] at hm
  · exact hm
  · exact trans_of R hm (hf a s' hs)

/-! ## Programs that return -/

/-- From `s`, `m` returns, and `Q` holds of what it returns. -/
def Returns (m : Program ε σ α) (s : σ) (Q : α → σ → Prop) : Prop :=
  ∃ a s', m s = (.ok a, s') ∧ Q a s'

variable {Q Q' : α → σ → Prop} {s : σ}

theorem returns_pure {a : α} (h : Q a s) : Returns (pure a : Program ε σ α) s Q := ⟨a, s, rfl, h⟩

/-- Sequencing: the rest starts where `m` returns. -/
theorem Returns.bind {m : Program ε σ α} {f : α → Program ε σ β} {Q' : β → σ → Prop}
    (hm : Returns m s Q) (hf : ∀ a s', m s = (.ok a, s') → Q a s' → Returns (f a) s' Q') :
    Returns (m >>= f) s Q' := by
  obtain ⟨a, s', hrun, hQ⟩ := hm
  obtain ⟨b, s'', hrun', hQ'⟩ := hf a s' hrun hQ
  exact ⟨b, s'', by rw [bind_ok hrun, hrun'], hQ'⟩

theorem Returns.mono {m : Program ε σ α} (h : Returns m s Q) (hQ : ∀ a s', Q a s' → Q' a s') :
    Returns m s Q' := by
  obtain ⟨a, s', hrun, h⟩ := h
  exact ⟨a, s', hrun, hQ a s' h⟩

/-- What is read of the state is known. -/
theorem Returns.gets_bind {g : σ → α} {f : α → Program ε σ β} {Q : β → σ → Prop}
    (h : Returns (f (g s)) s Q) : Returns (gets g >>= f) s Q := h

/-- A program that returns keeps what its frame condition says. -/
theorem Returns.keeps {m : Program ε σ α} (h : Returns m s Q) (hR : Keeps R m) :
    Returns m s fun a s' => Q a s' ∧ R s s' := by
  obtain ⟨a, s', hrun, hQ⟩ := h
  exact ⟨a, s', hrun, hQ, hR.of_run hrun⟩

/-! ## Confined stops -/

/-- From `s`, `m` stops with `e` only in a state of `X`, and leaves a state of `J`. -/
def ConfinedFrom (e : ε) (X J : σ → Prop) (m : Program ε σ α) (s : σ) : Prop :=
  ((m s).1 = .error e → X (m s).2) ∧ J (m s).2

/-- The same from every state of an invariant `I`, which is kept. -/
def Confined (e : ε) (X I : σ → Prop) (m : Program ε σ α) : Prop :=
  ∀ s, I s → ConfinedFrom e X I m s

variable {e : ε} {X I J : σ → Prop}

theorem ConfinedFrom.mono {m : Program ε σ α} (h : ConfinedFrom e X I m s)
    (hIJ : ∀ s, I s → J s) : ConfinedFrom e X J m s := ⟨h.1, hIJ _ h.2⟩

/-- Sequencing: the rest starts where `m` returns. -/
theorem ConfinedFrom.bind {m : Program ε σ α} {f : α → Program ε σ β}
    (hm : ConfinedFrom e X I m s) (hIJ : ∀ s, I s → J s)
    (hf : ∀ a s', m s = (.ok a, s') → I s' → ConfinedFrom e X J (f a) s') :
    ConfinedFrom e X J (m >>= f) s := by
  obtain ⟨hX, hI⟩ := hm
  unfold ConfinedFrom
  rw [bind_apply]
  rcases hs : m s with ⟨e' | a, s'⟩ <;> rw [hs] at hX hI
  · exact ⟨fun he => hX (congrArg Except.error (Except.error.inj he)), hIJ _ hI⟩
  · exact hf a s' hs hI

theorem Confined.bind {m : Program ε σ α} {f : α → Program ε σ β} (hm : Confined e X I m)
    (hf : ∀ a, Confined e X I (f a)) : Confined e X I (m >>= f) :=
  fun s hs => (hm s hs).bind (fun _ => id) fun a s' _ hs' => hf a s' hs'

theorem ConfinedFrom.ite {c : Prop} [Decidable c] {m n : Program ε σ α}
    (hm : c → ConfinedFrom e X J m s) (hn : ¬ c → ConfinedFrom e X J n s) :
    ConfinedFrom e X J (if c then m else n) s := by
  by_cases h : c
  · rw [if_pos h]
    exact hm h
  · rw [if_neg h]
    exact hn h

theorem confinedFrom_pure {a : α} (hs : J s) : ConfinedFrom e X J (pure a : Program ε σ α) s :=
  ⟨nofun, hs⟩

theorem confined_pure (a : α) : Confined e X I (pure a : Program ε σ α) :=
  fun _ => confinedFrom_pure

theorem confined_get : Confined e X I (get : Program ε σ σ) := fun _ hs => ⟨nofun, hs⟩

theorem confined_gets (f : σ → α) : Confined e X I (gets f : Program ε σ α) :=
  fun _ hs => ⟨nofun, hs⟩

theorem confined_stop {e' : ε} (h : e' ≠ e) : Confined e X I (stop e' : Program ε σ α) :=
  fun _ hs => ⟨fun he => absurd (Except.error.inj he) h, hs⟩

theorem confined_ofOption {e' : ε} (h : e' ≠ e) (o : Option α) :
    Confined e X I (ofOption (σ := σ) e' o) := by
  cases o with
  | none => exact confined_stop h
  | some a => exact confined_pure a

theorem confined_modify {f : σ → σ} (h : ∀ s, I s → I (f s)) :
    Confined e X I (modify f : Program ε σ Unit) := fun s hs => ⟨nofun, h s hs⟩

theorem Confined.ite {c : Prop} [Decidable c] {m n : Program ε σ α}
    (hm : c → Confined e X I m) (hn : ¬ c → Confined e X I n) :
    Confined e X I (if c then m else n) :=
  fun s hs => ConfinedFrom.ite (fun hc => hm hc s hs) fun hc => hn hc s hs

theorem Confined.when {c : Prop} [Decidable c] {m : Program ε σ Unit}
    (hm : c → Confined e X I m) : Confined e X I (when c m) :=
  Confined.ite hm fun _ => confined_pure ()

/-- A frame condition that keeps `I`, and what is known of the stops. -/
theorem Confined.of_keeps {m : Program ε σ α} (hR : Keeps R m)
    (hI : ∀ s s', R s s' → I s → I s') (hm : ∀ s, I s → (m s).1 ≠ .error e) :
    Confined e X I m :=
  fun s hs => ⟨fun he => absurd he (hm s hs), hI _ _ (hR s) hs⟩

/-! ## Programs that may stop anywhere -/

/-- However `m` ends, started in `s`, `S` holds; and where it returns, so does `Q`. -/
def Ensures (S : σ → Prop) (m : Program ε σ α) (s : σ) (Q : α → σ → Prop) : Prop :=
  S (m s).2 ∧ ∀ a s', m s = (.ok a, s') → Q a s'

variable {S : σ → Prop} {m : Program ε σ α}

theorem ensures_pure {a : α} (hS : S s) (hQ : Q a s) :
    Ensures S (pure a : Program ε σ α) s Q := by
  refine ⟨hS, ?_⟩
  rintro a' s' h
  cases h
  exact hQ

theorem ensures_stop {e : ε} (hS : S s) : Ensures S (stop e : Program ε σ α) s Q :=
  ⟨hS, fun _ _ h => by cases h⟩

theorem ensures_ofOption {e : ε} {o : Option α} (hS : S s) (hQ : ∀ a, o = some a → Q a s) :
    Ensures S (ofOption (σ := σ) e o) s Q := by
  cases o with
  | none => exact ensures_stop hS
  | some a => exact ensures_pure hS (hQ a rfl)

/-- Sequencing: the rest starts where `m` returns. -/
theorem Ensures.bind {f : α → Program ε σ β} {Q' : β → σ → Prop} (hm : Ensures S m s Q)
    (hf : ∀ a s', m s = (.ok a, s') → S s' → Q a s' → Ensures S (f a) s' Q') :
    Ensures S (m >>= f) s Q' := by
  obtain ⟨hS, hQ⟩ := hm
  unfold Ensures
  rw [bind_apply]
  rcases hs : m s with ⟨e | a, s'⟩ <;> rw [hs] at hS hQ
  · exact ⟨hS, fun _ _ h => by cases h⟩
  · exact hf a s' hs hS (hQ a s' rfl)

/-- Only the run matters. -/
theorem Ensures.of_eq {m' : Program ε σ α} {s' : σ} (h : m s = m' s') (h' : Ensures S m' s' Q) :
    Ensures S m s Q := by
  unfold Ensures
  rw [h]
  exact h'

/-- What is read of the state is known. -/
theorem Ensures.gets_bind {g : σ → α} {f : α → Program ε σ β} {Q' : β → σ → Prop}
    (h : Ensures S (f (g s)) s Q') : Ensures S (gets g >>= f) s Q' := h

theorem Ensures.ite {c : Prop} [Decidable c] {n : Program ε σ α} (hm : c → Ensures S m s Q)
    (hn : ¬ c → Ensures S n s Q) : Ensures S (if c then m else n) s Q := by
  by_cases h : c
  · rw [if_pos h]
    exact hm h
  · rw [if_neg h]
    exact hn h

theorem Ensures.mono (h : Ensures S m s Q) (hQ : ∀ a s', S s' → Q a s' → Q' a s') :
    Ensures S m s Q' := by
  refine ⟨h.1, fun a s' hrun => ?_⟩
  have hS := h.1
  rw [hrun] at hS
  exact hQ a s' hS (h.2 a s' hrun)

/-- A frame condition under which `S` and `Q` hold. -/
theorem Ensures.of_keeps (hR : Keeps R m) (hS : ∀ s', R s s' → S s')
    (hQ : ∀ a s', m s = (.ok a, s') → R s s' → Q a s') : Ensures S m s Q :=
  ⟨hS _ (hR s), fun a s' hrun => hQ a s' hrun (hR.of_run hrun)⟩

end Program

end PqDtls
