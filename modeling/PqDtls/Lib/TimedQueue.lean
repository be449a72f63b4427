import Mathlib.Data.List.Nodup
import Mathlib.Data.List.Perm.Basic
import Mathlib.Data.List.TakeWhile

/-! # Queues ordered by time

    Items of any type with a time.  An item is inserted behind all that are not later, so an
    ordered queue stays ordered, and the items that are due are a prefix of it.

    The second part is about items that are retried: the first one is popped and inserted
    again, at another time, or dropped.  Every item has an address, given when it is
    inserted first.  **`History.retries_le`**: if the items count their retries up to a
    limit, no address is retried more often, whatever is inserted, removed and popped, and no
    address is in the queue twice. -/

namespace PqDtls.TimedQueue

variable {α β : Type} (t : α → Nat)

/-! ## Insertion -/

def insert (queue : List α) (x : α) : List α :=
  queue.takeWhile (t · ≤ t x) ++ x :: queue.dropWhile (t · ≤ t x)

def Ordered (queue : List α) : Prop := queue.Pairwise fun x y => t x ≤ t y

theorem perm_insert (queue : List α) (x : α) : (insert t queue x).Perm (x :: queue) := by
  have split := List.takeWhile_append_dropWhile (p := fun y => decide (t y ≤ t x)) (l := queue)
  have middle : (insert t queue x).Perm
      (x :: (queue.takeWhile (t · ≤ t x) ++ queue.dropWhile (t · ≤ t x))) := List.perm_middle
  rwa [split] at middle

theorem mem_insert {queue : List α} {x y : α} : y ∈ insert t queue x ↔ y = x ∨ y ∈ queue :=
  (perm_insert t queue x).mem_iff.trans List.mem_cons

/-- The items that were there keep their order. -/
theorem sublist_insert (queue : List α) (x : α) : queue.Sublist (insert t queue x) := by
  have split := List.takeWhile_append_dropWhile (p := fun y => decide (t y ≤ t x)) (l := queue)
  have longer : (queue.takeWhile (t · ≤ t x) ++ queue.dropWhile (t · ≤ t x)).Sublist
      (insert t queue x) := (List.sublist_cons_self x _).append_left _
  rwa [split] at longer

theorem map_insert {u : β → Nat} {f : α → β} (h : ∀ x, u (f x) = t x) (queue : List α) (x : α) :
    (insert t queue x).map f = insert u (queue.map f) (f x) := by
  have same : (fun y => decide (u y ≤ u (f x))) ∘ f = fun y => decide (t y ≤ t x) :=
    funext fun y => by simp only [Function.comp_apply, h]
  rw [insert, insert, List.map_append, List.map_cons, List.takeWhile_map, List.dropWhile_map, same]

/-- A later item is inserted behind a prefix. -/
theorem insert_append {front : List α} {x : α} (h : ∀ y ∈ front, t y ≤ t x) (back : List α) :
    insert t (front ++ back) x = front ++ insert t back x := by
  have early : ∀ y ∈ front, decide (t y ≤ t x) = true := fun y hy => decide_eq_true (h y hy)
  rw [insert, List.takeWhile_append_of_pos early, List.dropWhile_append_of_pos early, insert,
    List.append_assoc]

variable {t}

theorem Ordered.insert {queue : List α} (h : Ordered t queue) (x : α) :
    Ordered t (insert t queue x) := by
  have split := List.takeWhile_append_dropWhile (p := fun y => decide (t y ≤ t x)) (l := queue)
  have parts := h
  rw [Ordered, ← split, List.pairwise_append] at parts
  obtain ⟨front, back, between⟩ := parts
  have early : ∀ y ∈ queue.takeWhile (t · ≤ t x), t y ≤ t x := fun y hy =>
    of_decide_eq_true (List.mem_takeWhile_imp (p := fun y => decide (t y ≤ t x)) hy)
  have late : ∀ y ∈ queue.dropWhile (t · ≤ t x), t x ≤ t y := by
    cases hback : queue.dropWhile (t · ≤ t x) with
    | nil => exact fun y hy => absurd hy List.not_mem_nil
    | cons z rest =>
        have first : ¬ t z ≤ t x := by
          have head := List.head_dropWhile_not (p := fun y => decide (t y ≤ t x)) (l := queue)
          simp only [hback] at head
          exact of_decide_eq_false (head (by simp))
        rw [hback] at back
        intro y hy
        rcases List.mem_cons.mp hy with rfl | hy
        · omega
        · have after := List.rel_of_pairwise_cons back hy
          omega
  refine List.pairwise_append.mpr ⟨front, List.pairwise_cons.mpr ⟨late, back⟩, ?_⟩
  intro y hy z hz
  rcases List.mem_cons.mp hz with rfl | hz
  · exact early y hy
  · exact between y hy z hz

/-- The first item of an ordered queue is an earliest one. -/
theorem Ordered.head_le {x : α} {queue : List α} (h : Ordered t (x :: queue)) {y : α}
    (hy : y ∈ x :: queue) : t x ≤ t y := by
  rcases List.mem_cons.mp hy with rfl | hy
  · exact Nat.le_refl _
  · exact List.rel_of_pairwise_cons h hy

/-- In an ordered queue the items that are due come first. -/
theorem Ordered.due {queue : List α} (h : Ordered t queue) (now : Nat) :
    queue.filter (t · ≤ now) ++ queue.filter (now < t ·) = queue := by
  induction queue with
  | nil => rfl
  | cons x queue ih =>
      by_cases due : t x ≤ now
      · have late : ¬ now < t x := Nat.not_lt.mpr due
        rw [List.filter_cons_of_pos (p := fun y => decide (t y ≤ now)) (decide_eq_true due),
          List.filter_cons_of_neg (p := fun y => decide (now < t y))
            (by rwa [decide_eq_true_iff]), List.cons_append, ih (List.Pairwise.of_cons h)]
      · have all_late : ∀ y ∈ x :: queue, now < t y := fun y hy =>
          Nat.lt_of_lt_of_le (Nat.lt_of_not_le due) (h.head_le hy)
        have none_due : (x :: queue).filter (t · ≤ now) = [] :=
          List.filter_eq_nil_iff.mpr fun y hy => by
            rw [decide_eq_true_iff]
            exact Nat.not_le.mpr (all_late y hy)
        rw [none_due, List.nil_append, List.filter_eq_self]
        exact fun y hy => decide_eq_true (all_late y hy)

/-- Some items after each other. -/
theorem foldl_insert_perm (t : α → Nat) (items queue : List α) :
    (items.foldl (TimedQueue.insert t) queue).Perm (items ++ queue) := by
  induction items generalizing queue with
  | nil => exact List.Perm.refl queue
  | cons x items ih =>
      have next := (perm_insert t queue x).append_left items
      exact (ih _).trans (next.trans List.perm_middle)

theorem foldl_insert_sublist (t : α → Nat) (items queue : List α) :
    queue.Sublist (items.foldl (TimedQueue.insert t) queue) := by
  induction items generalizing queue with
  | nil => exact List.Sublist.refl queue
  | cons x items ih => exact (sublist_insert t queue x).trans (ih _)

theorem Ordered.foldl_insert {queue : List α} (h : Ordered t queue) (items : List α) :
    Ordered t (items.foldl (TimedQueue.insert t) queue) := by
  induction items generalizing queue with
  | nil => exact h
  | cons x items ih => exact ih (h.insert x)

/-! ## Retries -/

/-- An access to the queue. -/
inductive Access (α : Type)
  /-- A new item. -/
  | insert (x : α)
  /-- Items are taken out, all but those that `keep` keeps. -/
  | remove (keep : α → Bool)
  /-- The first item is popped; the clock shows `now` when it is retried. -/
  | pop (now : Nat)

/-- The queue, each item with its address, and the addresses of what was retried. -/
structure History (α : Type) where
  queue : List (Nat × α)
  /-- No address from here on has been given. -/
  fresh : Nat
  retried : List Nat

/-- Nothing has happened yet. -/
def History.start : History α := ⟨[], 0, []⟩

/-- The items of the queue. -/
def History.items (s : History α) : List α := s.queue.map Prod.snd

variable (t) (retry : Nat → α → Option α)

/-- An item `x` was popped, and `retry now x` is what is inserted again of it. -/
def History.popped (s : History α) (x : Nat × α) (rest : List (Nat × α)) (now : Nat) : History α :=
  match retry now x.2 with
  | none => { s with queue := rest }
  | some y =>
      { s with
        queue := TimedQueue.insert (fun y => t y.2) rest (x.1, y)
        retried := x.1 :: s.retried }

def History.access (s : History α) : Access α → History α
  | .insert x =>
      { s with
        queue := TimedQueue.insert (fun y => t y.2) s.queue (s.fresh, x)
        fresh := s.fresh + 1 }
  | .remove keep => { s with queue := s.queue.filter fun y => keep y.2 }
  | .pop now =>
      match s.queue with
      | [] => s
      | x :: rest => s.popped t retry x rest now

def History.run (s : History α) (accesses : List (Access α)) : History α :=
  accesses.foldl (History.access t retry) s

theorem History.run_append (s : History α) (a b : List (Access α)) :
    s.run t retry (a ++ b) = (s.run t retry a).run t retry b := List.foldl_append

theorem History.items_insert (s : History α) (x : α) :
    (s.access t retry (.insert x)).items = TimedQueue.insert t s.items x :=
  map_insert (fun y : Nat × α => t y.2) (fun _ => rfl) s.queue (s.fresh, x)

theorem History.items_remove (s : History α) (keep : α → Bool) :
    (s.access t retry (.remove keep)).items = s.items.filter keep :=
  List.filter_map.symm

theorem History.items_pop {s : History α} {x : α} {rest : List α} (h : s.items = x :: rest)
    (now : Nat) : (s.access t retry (.pop now)).items
      = (retry now x).elim rest (TimedQueue.insert t rest) := by
  obtain ⟨y, others, hq, rfl, rfl⟩ := List.map_eq_cons_iff.mp h
  have first : s.access t retry (.pop now) = s.popped t retry y others now := by
    simp only [History.access, hq]
  rw [first, History.popped]
  cases retry now y.2 with
  | none => rfl
  | some z => exact map_insert (fun y : Nat × α => t y.2) (fun _ => rfl) others (y.1, z)

/-- Items that count their retries from 0 up to `limit`. -/
structure Counts (count : α → Nat) (limit : Nat) : Prop where
  retried {now : Nat} {x y : α} : retry now x = some y → count x < limit ∧ count y = count x + 1

/-- What is inserted has not been retried. -/
def Access.Fresh (count : α → Nat) : Access α → Prop
  | .insert x => count x = 0
  | _ => True

/-- Addresses are given once, and each item counts its retries. -/
structure History.Ok (count : α → Nat) (limit : Nat) (s : History α) : Prop where
  ordered : Ordered (fun y => t y.2) s.queue
  distinct : (s.queue.map Prod.fst).Nodup
  given : ∀ x ∈ s.queue, x.1 < s.fresh
  counted : ∀ x ∈ s.queue, count x.2 = s.retried.count x.1
  limited : ∀ address, s.retried.count address ≤ limit
  known : ∀ address ∈ s.retried, address < s.fresh

variable {t retry} {count : α → Nat} {limit : Nat} {s : History α}

theorem History.ok_start : (History.start : History α).Ok t count limit where
  ordered := List.Pairwise.nil
  distinct := List.nodup_nil
  given := fun _ hx => absurd hx List.not_mem_nil
  counted := fun _ hx => absurd hx List.not_mem_nil
  limited := fun _ => Nat.zero_le limit
  known := fun _ hx => absurd hx List.not_mem_nil

theorem History.Ok.items_ordered (h : s.Ok t count limit) : Ordered t s.items :=
  List.pairwise_map.mpr h.ordered

/-- Fewer items. -/
theorem History.Ok.sublist (h : s.Ok t count limit) {queue : List (Nat × α)}
    (sub : queue.Sublist s.queue) : History.Ok t count limit { s with queue := queue } where
  ordered := h.ordered.sublist sub
  distinct := h.distinct.sublist (sub.map Prod.fst)
  given := fun x hx => h.given x (sub.subset hx)
  counted := fun x hx => h.counted x (sub.subset hx)
  limited := h.limited
  known := h.known

/-- One item more, whose address is not in the queue. -/
theorem History.Ok.insert (h : s.Ok t count limit) {x : Nat × α} (new : x.1 ∉ s.queue.map Prod.fst)
    (given : x.1 < s.fresh) (counted : count x.2 = s.retried.count x.1) :
    History.Ok t count limit
      { s with queue := TimedQueue.insert (fun y => t y.2) s.queue x } where
  ordered := h.ordered.insert x
  distinct := by
    have perm := (perm_insert (fun y : Nat × α => t y.2) s.queue x).map Prod.fst
    exact perm.nodup_iff.mpr (List.nodup_cons.mpr ⟨new, h.distinct⟩)
  given := fun y hy => by
    rcases (mem_insert _).mp hy with rfl | hy
    · exact given
    · exact h.given y hy
  counted := fun y hy => by
    rcases (mem_insert _).mp hy with rfl | hy
    · exact counted
    · exact h.counted y hy
  limited := h.limited
  known := h.known

/-- The first item is popped. -/
theorem History.Ok.popped (counts : Counts retry count limit) (h : s.Ok t count limit)
    {x : Nat × α} {rest : List (Nat × α)} (hq : s.queue = x :: rest) (now : Nat) :
    (s.popped t retry x rest now).Ok t count limit := by
  have rest_ok : History.Ok t count limit { s with queue := rest } :=
    h.sublist (hq ▸ List.sublist_cons_self x rest)
  unfold History.popped
  cases hy : retry now x.2 with
  | none => exact rest_ok
  | some y =>
      obtain ⟨below, next⟩ := counts.retried hy
      have here : x ∈ s.queue := hq ▸ List.mem_cons_self
      have gone : x.1 ∉ rest.map Prod.fst := by
        have distinct := h.distinct
        rw [hq, List.map_cons, List.nodup_cons] at distinct
        exact distinct.1
      have recorded : History.Ok t count limit
          { s with queue := rest, retried := x.1 :: s.retried } :=
        { rest_ok with
          counted := fun z hz => by
            have other : x.1 ≠ z.1 := fun same =>
              gone (same ▸ List.mem_map_of_mem (f := Prod.fst) hz)
            rw [List.count_cons_of_ne other]
            exact rest_ok.counted z hz
          limited := fun address => by
            by_cases same : x.1 = address
            · rw [← same, List.count_cons_self, ← h.counted x here]
              exact below
            · rw [List.count_cons_of_ne same]
              exact h.limited address
          known := fun address ha => by
            rcases List.mem_cons.mp ha with rfl | ha
            · exact h.given x here
            · exact h.known address ha }
      refine recorded.insert (x := (x.1, y)) gone (h.given x here) ?_
      rw [List.count_cons_self, next, h.counted x here]

/-- **STEP**: every access keeps the addresses and the counters in order. -/
theorem History.Ok.access (counts : Counts retry count limit) (h : s.Ok t count limit)
    {access : Access α} (fresh : access.Fresh count) :
    (s.access t retry access).Ok t count limit := by
  cases access with
  | insert x =>
      have moved : History.Ok t count limit { s with fresh := s.fresh + 1 } :=
        { h with
          given := fun y hy => Nat.lt_succ_of_lt (h.given y hy)
          known := fun y hy => Nat.lt_succ_of_lt (h.known y hy) }
      refine moved.insert (x := (s.fresh, x)) ?_ (Nat.lt_succ_self _) ?_
      · intro old
        obtain ⟨y, hy, same⟩ := List.mem_map.mp old
        exact absurd (h.given y hy) (by rw [same]; exact Nat.lt_irrefl _)
      · have never : s.fresh ∉ s.retried := fun old => Nat.lt_irrefl _ (h.known _ old)
        exact fresh.trans (List.count_eq_zero.mpr never).symm
  | remove keep => exact h.sublist List.filter_sublist
  | pop now =>
      cases hq : s.queue with
      | nil =>
          have same : s.access t retry (.pop now) = s := by
            simp only [History.access, hq]
          rwa [same]
      | cons x rest =>
          have same : s.access t retry (.pop now) = s.popped t retry x rest now := by
            simp only [History.access, hq]
          rw [same]
          exact h.popped counts hq now

theorem History.Ok.run (counts : Counts retry count limit) (h : s.Ok t count limit)
    {accesses : List (Access α)} (fresh : ∀ access ∈ accesses, access.Fresh count) :
    (s.run t retry accesses).Ok t count limit := by
  induction accesses generalizing s with
  | nil => exact h
  | cons access accesses ih =>
      obtain ⟨first, others⟩ := List.forall_mem_cons.mp fresh
      exact ih (h.access counts first) others

/-- **NOTHING IS RETRIED MORE OFTEN THAN THE LIMIT**, and nothing is queued twice. -/
theorem History.retries_le (counts : Counts retry count limit) {accesses : List (Access α)}
    (fresh : ∀ access ∈ accesses, access.Fresh count) :
    (History.start.run t retry accesses).Ok t count limit := History.ok_start.run counts fresh

end PqDtls.TimedQueue
