import PqDtls.Lib.Program
import Mathlib.Data.List.Basic

/-! # Runs with their history

    A step relation with labels.  `Path step s l t` is a run from `s` to `t`, and `l`
    lists the steps it takes, the last one first, each with the state it is taken in:
    the history of a step is what follows it in the list.

    Three rules go with it.  An invariant may speak of the history (`Path.invariant`).
    `Reaches` is a run of steps of one kind; it is a preorder, so it is a frame
    condition of programs.  A `Discipline` says how steps are to be taken: from states
    of an invariant, and as long as a condition holds at every step, they meet a demand.
    `Guarded` is the triple for it, with a precondition and a postcondition. -/

namespace PqDtls.History

open Program (Keeps)

variable {ε σ ℓ α β : Type} {step : σ → ℓ → σ → Prop}

/-- A run from `s`. -/
inductive Path (step : σ → ℓ → σ → Prop) (s : σ) : List (σ × ℓ) → σ → Prop
  | nil : Path step s [] s
  | snoc {l : List (σ × ℓ)} {t u : σ} {op : ℓ} :
      Path step s l t → step t op u → Path step s ((t, op) :: l) u

theorem Path.single {s t : σ} {op : ℓ} (h : step s op t) : Path step s [(s, op)] t :=
  .snoc .nil h

theorem Path.append {s t u : σ} {l l' : List (σ × ℓ)} (h : Path step s l t)
    (h' : Path step t l' u) : Path step s (l' ++ l) u := by
  induction h' with
  | nil => exact h
  | snoc _ last ih => exact .snoc ih last

/-- A run passes the states of its steps. -/
theorem Path.split {s u : σ} {l l' : List (σ × ℓ)} (h : Path step s (l' ++ l) u) :
    ∃ t, Path step s l t ∧ Path step t l' u := by
  induction l' generalizing u with
  | nil => exact ⟨u, h, .nil⟩
  | cons x l' ih =>
      rw [List.cons_append] at h
      cases h with
      | snoc first last =>
          obtain ⟨t, h₁, h₂⟩ := ih first
          exact ⟨t, h₁, .snoc h₂ last⟩

/-- The history of a step leads to the state it is taken in. -/
theorem Path.history {s u : σ} {l l' : List (σ × ℓ)} {x : σ × ℓ}
    (h : Path step s (l' ++ x :: l) u) : Path step s l x.1 := by
  obtain ⟨t, first, -⟩ := h.split
  cases first with
  | snoc before last => exact before

/-- **INVARIANTS** of the state and the history. -/
theorem Path.invariant {I : List (σ × ℓ) → σ → Prop}
    (kept : ∀ l t op u, step t op u → I l t → I ((t, op) :: l) u) {s t : σ} {l : List (σ × ℓ)}
    (h : Path step s l t) (hs : I [] s) : I l t := by
  induction h with
  | nil => exact hs
  | snoc _ last ih => exact kept _ _ _ _ last ih

/-- An entry that no part of what was added can be was there before, with the same history. -/
theorem suffix_of_not {P : α → Prop} {l l' earlier : List α} {x : α} (h : ∀ y ∈ l, P y)
    (hx : ¬ P x) (hs : x :: earlier <:+ l ++ l') : x :: earlier <:+ l' := by
  induction l with
  | nil => exact hs
  | cons y l ih =>
      obtain ⟨hy, hl⟩ := List.forall_mem_cons.mp h
      rcases List.suffix_cons_iff.mp hs with heq | hs
      · rw [← (List.cons.inj heq).1] at hy
        exact absurd hy hx
      · exact ih hl hs

/-! ## Runs of steps of one kind -/

/-- A run of steps of the kind `P`. -/
def Reaches (step : σ → ℓ → σ → Prop) (P : ℓ → Prop) (s t : σ) : Prop :=
  ∃ l, Path step s l t ∧ ∀ x ∈ l, P x.2

variable {P : ℓ → Prop}

instance : IsPreorder σ (Reaches step P) where
  refl _ := ⟨[], .nil, List.forall_mem_nil _⟩
  trans := by
    rintro s t u ⟨l, h, hl⟩ ⟨l', h', hl'⟩
    exact ⟨l' ++ l, h.append h', List.forall_mem_append.mpr ⟨hl', hl⟩⟩

theorem Reaches.single {s t : σ} {op : ℓ} (h : step s op t) (hop : P op) :
    Reaches step P s t :=
  ⟨[(s, op)], .single h, fun _ hx => by rwa [List.mem_singleton.mp hx]⟩

/-- What steps of this kind keep, such a run keeps. -/
theorem Reaches.invariant {I : σ → Prop} (kept : ∀ t op u, step t op u → P op → I t → I u)
    {s t : σ} (h : Reaches step P s t) (hs : I s) : I t := by
  obtain ⟨l, path, hl⟩ := h
  induction path with
  | nil => exact hs
  | snoc _ last ih =>
      obtain ⟨hop, hl⟩ := List.forall_mem_cons.mp hl
      exact kept _ _ _ last hop (ih hl)

/-! ## Disciplines -/

/-- From states of the invariant, and as long as the condition holds at every step, the
    steps meet the demand. -/
structure Discipline (σ ℓ : Type) where
  step : σ → ℓ → σ → Prop
  invariant : σ → Prop
  condition : σ × ℓ → Prop
  demand : σ × ℓ → Prop

namespace Discipline

variable (D : Discipline σ ℓ)

/-- From `s`, `m` is a run.  If the invariant and `pre` hold in `s` and the condition at
    every step, then the steps meet the demand, the invariant holds in the end, and so
    does `post` of what is returned. -/
def Guarded (pre : Prop) (m : Program ε σ α) (s : σ) (post : α → σ → Prop) : Prop :=
  ∃ l, Path D.step s l (m s).2 ∧
    (D.invariant s → pre → (∀ x ∈ l, D.condition x) →
      D.invariant (m s).2 ∧ (∀ x ∈ l, D.demand x) ∧ ∀ a, (m s).1 = .ok a → post a (m s).2)

/-- Steps of this kind keep the invariant and meet the demand in any case. -/
def Free (P : ℓ → Prop) : Prop :=
  ∀ s op t, D.step s op t → P op → D.invariant s → D.invariant t ∧ D.demand (s, op)

variable {D} {pre pre' : Prop} {m : Program ε σ α} {f : α → Program ε σ β} {s : σ}
  {post post' : α → σ → Prop} {post₂ : β → σ → Prop}

theorem Guarded.mono (h : D.Guarded pre' m s post') (hpre : D.invariant s → pre → pre')
    (hpost : D.invariant s → pre → ∀ a s', m s = (.ok a, s') → D.invariant s' → post' a s' →
      post a s') : D.Guarded pre m s post := by
  obtain ⟨l, path, hl⟩ := h
  refine ⟨l, path, fun hs hp hC => ?_⟩
  obtain ⟨ht, hO, hres⟩ := hl hs (hpre hs hp) hC
  exact ⟨ht, hO, fun a ha => hpost hs hp a _ (Prod.ext ha rfl) ht (hres a ha)⟩

/-- A program of which only its moves matter, under a weaker demand. -/
theorem Guarded.given (h : D.Guarded pre' m s fun _ _ => True)
    (hpre : D.invariant s → pre → pre') : D.Guarded pre m s fun _ _ => True :=
  h.mono hpre fun _ _ _ _ _ _ _ => trivial

theorem guarded_pure {a : α} (h : D.invariant s → pre → post a s) :
    D.Guarded pre (pure a : Program ε σ α) s post := by
  refine ⟨[], .nil, fun hs hp _ => ⟨hs, List.forall_mem_nil _, fun b hb => ?_⟩⟩
  cases hb
  exact h hs hp

theorem guarded_stop {e : ε} : D.Guarded pre (Program.stop e : Program ε σ α) s post :=
  ⟨[], .nil, fun hs _ _ => ⟨hs, List.forall_mem_nil _, fun _ ha => by cases ha⟩⟩

/-- Reading the state. -/
theorem Guarded.gets_bind {g : σ → α} (h : D.Guarded pre (f (g s)) s post₂) :
    D.Guarded pre (Program.gets g >>= f) s post₂ := h

/-- Sequencing: the rest starts where `m` returns. -/
theorem Guarded.bind (hm : D.Guarded pre m s post)
    (hf : ∀ a s', m s = (.ok a, s') → D.Guarded (post a s') (f a) s' post₂) :
    D.Guarded pre (m >>= f) s post₂ := by
  obtain ⟨l, path, hl⟩ := hm
  unfold Guarded
  rw [Program.bind_apply]
  rcases hs : m s with ⟨e | a, s'⟩ <;> rw [hs] at path hl
  · refine ⟨l, path, fun hs hp hC => ?_⟩
    obtain ⟨ht, hO, -⟩ := hl hs hp hC
    exact ⟨ht, hO, fun a ha => by cases ha⟩
  · obtain ⟨l', path', hl'⟩ := hf a s' hs
    refine ⟨l' ++ l, path.append path', fun hs hp hC => ?_⟩
    obtain ⟨hC', hC⟩ := List.forall_mem_append.mp hC
    obtain ⟨ht, hO, hpost⟩ := hl hs hp hC
    obtain ⟨hu, hO', hres⟩ := hl' ht (hpost a rfl) hC'
    exact ⟨hu, List.forall_mem_append.mpr ⟨hO', hO⟩, hres⟩

/-- Sequencing, where `m` returns with `post`. -/
theorem guarded_bind (post : α → σ → Prop) (hm : D.Guarded pre m s post)
    (hf : ∀ a s', m s = (.ok a, s') → D.Guarded (post a s') (f a) s' post₂) :
    D.Guarded pre (m >>= f) s post₂ := hm.bind hf

theorem Guarded.ite {c : Prop} [Decidable c] {n : Program ε σ α}
    (hm : c → D.Guarded pre m s post) (hn : ¬ c → D.Guarded pre n s post) :
    D.Guarded pre (if c then m else n) s post := by
  by_cases h : c
  · rw [if_pos h]
    exact hm h
  · rw [if_neg h]
    exact hn h

/-- One step. -/
theorem guarded_step {op : ℓ} (h : D.step s op (m s).2)
    (kept : D.invariant s → pre → D.condition (s, op) →
      D.invariant (m s).2 ∧ D.demand (s, op) ∧ ∀ a, (m s).1 = .ok a → post a (m s).2) :
    D.Guarded pre m s post := by
  refine ⟨[(s, op)], .single h, fun hs hp hC => ?_⟩
  obtain ⟨ht, hO, hres⟩ := kept hs hp (hC _ (List.mem_singleton_self _))
  exact ⟨ht, fun x hx => by rwa [List.mem_singleton.mp hx], hres⟩

/-- A program whose steps of the kind `P` keep, with the invariant, what is needed for them. -/
theorem guarded_of_moves {J : σ → Prop}
    (kept : ∀ s op t, D.step s op t → P op → D.invariant s → J s →
      D.invariant t ∧ J t ∧ D.demand (s, op))
    (h : Reaches D.step P s (m s).2) (hpre : D.invariant s → pre → J s)
    (hpost : D.invariant s → pre → ∀ a s', m s = (.ok a, s') → D.invariant s' → J s' →
      post a s') :
    D.Guarded pre m s post := by
  obtain ⟨l, path, hl⟩ := h
  have run : ∀ {l t}, Path D.step s l t → (∀ x ∈ l, P x.2) → D.invariant s → J s →
      D.invariant t ∧ J t ∧ ∀ x ∈ l, D.demand x := by
    intro l t path hl hs hJ
    induction path with
    | nil => exact ⟨hs, hJ, List.forall_mem_nil _⟩
    | snoc _ last ih =>
        obtain ⟨hop, hl⟩ := List.forall_mem_cons.mp hl
        obtain ⟨ht, hJt, hO⟩ := ih hl
        obtain ⟨hu, hJu, hO'⟩ := kept _ _ _ last hop ht hJt
        exact ⟨hu, hJu, List.forall_mem_cons.mpr ⟨hO', hO⟩⟩
  refine ⟨l, path, fun hs hp _ => ?_⟩
  obtain ⟨ht, hJt, hO⟩ := run path hl hs (hpre hs hp)
  exact ⟨ht, hO, fun a ha => hpost hs hp a _ (Prod.ext ha rfl) ht hJt⟩

/-- A program whose steps need no care. -/
theorem guarded_of_reaches (free : D.Free P) (h : Reaches D.step P s (m s).2)
    (hpost : D.invariant s → pre → ∀ a s', m s = (.ok a, s') → D.invariant s' → post a s') :
    D.Guarded pre m s post := by
  refine guarded_of_moves (J := fun _ => True) (fun s op t step hop hs _ => ?_) h
    (fun _ _ => trivial) fun hs hp a s' hrun ht _ => hpost hs hp a s' hrun ht
  obtain ⟨ht, hO⟩ := free s op t step hop hs
  exact ⟨ht, trivial, hO⟩

end Discipline

end PqDtls.History
