import PqDtls.Dtls.Sending

/-! # The expansion of the pseudo random function

    `dtls_p_hash`, down to its two HMAC contexts, which are initialised again in place, and
    the buffer it writes.  The hash is any streaming function with digests of 32 bytes.
    **`pHash_expands`**: what is written is the beginning of
    `HMAC(key, A(1) || seed) || HMAC(key, A(2) || seed) || …`, and nothing else. -/

namespace PqDtls.Dtls

/-! ## A streaming hash -/

/-- `dtls_hash_init`, `dtls_hash_update` and `dtls_hash_finalize` of a hash function: what is
    finalised is the hash of all the input since the context was initialised. -/
structure StreamingHash where
  Ctx : Type
  /-- A context after `memset`. -/
  zeroed : Ctx
  init : Ctx → Ctx
  update : Ctx → Bytes → Ctx
  finalize : Ctx → Digest × Ctx
  hash : Bytes → Digest
  streams : ∀ (c : Ctx) (inputs : List Bytes),
    (finalize (inputs.foldl update (init c))).1 = hash inputs.flatten

variable (H : StreamingHash)

/-- The context that collects its input. -/
def collecting (hash : Bytes → Digest) : StreamingHash where
  Ctx := Bytes
  zeroed := []
  init _ := []
  update c input := c ++ input
  finalize c := (hash c, [])
  hash := hash
  streams c inputs := by
    have collected (l : List Bytes) (b : Bytes) : l.foldl (· ++ ·) b = b ++ l.flatten := by
      induction l generalizing b with
      | nil => rw [List.foldl_nil, List.flatten_nil, List.append_nil]
      | cons x l ih => rw [List.foldl_cons, ih, List.flatten_cons, List.append_assoc]
    show hash (inputs.foldl (· ++ ·) []) = _
    rw [collected, List.nil_append]

/-! ## HMAC -/

/-- `dtls_hmac_context_t`. -/
structure HmacState where
  pad : Vector UInt8 64
  data : H.Ctx

/-- `dtls_hmac_init`, on a context of any contents. -/
def hmacInit (key : Bytes) : HmacState H :=
  let keyed : Bytes × H.Ctx :=
    if key.length > 64 then
      let digest := H.finalize (H.update (H.init H.zeroed) key)
      (digest.1.toList, digest.2)
    else (key, H.zeroed)
  let ipad : Vector UInt8 64 := Vector.ofFn fun i => keyed.1.getD i.val 0 ^^^ 0x36
  { pad := ipad.map (· ^^^ 0x6A), data := H.update (H.init keyed.2) ipad.toList }

def hmacUpdate (ctx : HmacState H) (input : Bytes) : HmacState H :=
  { ctx with data := H.update ctx.data input }

/-- `dtls_hmac_finalize`: the result, and the context afterwards. -/
def hmacFinalize (ctx : HmacState H) : Digest × HmacState H :=
  let inner := H.finalize ctx.data
  let outer := H.finalize
    (H.update (H.update (H.init inner.2) ctx.pad.toList) inner.1.toList)
  (outer.1, { ctx with data := outer.2 })

/-- The key as a block: hashed if it is longer, then filled up with zeros. -/
def hmacKey (hash : Bytes → Digest) (key : Bytes) : Vector UInt8 64 :=
  let key := if key.length > 64 then (hash key).toList else key
  Vector.ofFn fun i => key.getD i.val 0

/-- HMAC: `H(K xor opad || H(K xor ipad || data))`. -/
def hmac (hash : Bytes → Digest) (key data : Bytes) : Digest :=
  let K := hmacKey hash key
  hash ((K.map (· ^^^ 0x5C)).toList ++ (hash ((K.map (· ^^^ 0x36)).toList ++ data)).toList)

variable {H}

/-- A context for a key: `ipad` is hashed already. -/
def Primed (ctx : HmacState H) (key : Bytes) (inputs : List Bytes) : Prop :=
  ctx.pad = (hmacKey H.hash key).map (· ^^^ 0x5C) ∧
    ∃ c, ctx.data = (((hmacKey H.hash key).map (· ^^^ 0x36)).toList :: inputs).foldl
      H.update (H.init c)

theorem hmacInit_primed (key : Bytes) : Primed (hmacInit H key) key [] := by
  have opad (x : UInt8) : x ^^^ 0x36 ^^^ 0x6A = x ^^^ 0x5C := by
    rw [UInt8.xor_assoc]
    rfl
  have digest (c : H.Ctx) : (H.finalize (H.update (H.init c) key)).1 = H.hash key := by
    have streams := H.streams c [key]
    rwa [List.flatten_cons, List.flatten_nil, List.append_nil] at streams
  have ipad : (Vector.ofFn fun i : Fin 64 => (if key.length > 64 then
        ((H.finalize (H.update (H.init H.zeroed) key)).1.toList,
          (H.finalize (H.update (H.init H.zeroed) key)).2)
      else (key, H.zeroed)).1.getD i.val 0 ^^^ 0x36)
      = (hmacKey H.hash key).map (· ^^^ 0x36) := by
    apply Vector.ext
    intro i hi
    rw [Vector.getElem_ofFn, Vector.getElem_map, hmacKey, Vector.getElem_ofFn]
    by_cases long : key.length > 64
    · rw [if_pos long, if_pos long, digest]
    · rw [if_neg long, if_neg long]
  unfold hmacInit
  simp only [ipad]
  refine ⟨?_, _, rfl⟩
  rw [Vector.map_map]
  exact congrArg (fun f => (hmacKey H.hash key).map f) (funext opad)

theorem Primed.update {ctx : HmacState H} {key : Bytes} {inputs : List Bytes}
    (h : Primed ctx key inputs) (input : Bytes) :
    Primed (hmacUpdate H ctx input) key (inputs ++ [input]) := by
  obtain ⟨pad, c, data⟩ := h
  refine ⟨pad, c, ?_⟩
  rw [hmacUpdate, data, ← List.cons_append, List.foldl_append]
  rfl

/-- **HMAC**: the result for a key and the inputs since the context was initialised. -/
theorem Primed.finalize {ctx : HmacState H} {key : Bytes} {inputs : List Bytes}
    (h : Primed ctx key inputs) : (hmacFinalize H ctx).1 = hmac H.hash key inputs.flatten := by
  obtain ⟨pad, c, data⟩ := h
  have inner : (H.finalize ctx.data).1 = H.hash
      (((hmacKey H.hash key).map (· ^^^ 0x36)).toList ++ inputs.flatten) := by
    rw [data, H.streams, List.flatten_cons]
  have outer (c : H.Ctx) (a b : Bytes) :
      (H.finalize (H.update (H.update (H.init c) a) b)).1 = H.hash (a ++ b) := by
    have streams := H.streams c [a, b]
    rwa [List.flatten_cons, List.flatten_cons, List.flatten_nil, List.append_nil] at streams
  simp only [hmacFinalize, outer, inner, pad, hmac]

/-! ## The loop -/

variable (H)

/-- `HMAC_UPDATE_SEED` for the label and the two randoms; NULL is an empty one. -/
def updateSeed (ctx : HmacState H) (label random1 random2 : Bytes) : HmacState H :=
  hmacUpdate H (hmacUpdate H (hmacUpdate H ctx label) random1) random2

/-- The variables of the loop; `buf` is the buffer from its beginning, `len` the number of
    bytes written. -/
structure PHashState where
  hmacA : HmacState H
  hmacP : HmacState H
  A : Digest
  buf : Ptr
  len : Nat

/-- The digest for `A`, in the other context. -/
def blockFor (key label random1 random2 : Bytes) (A : Digest) : Digest × HmacState H :=
  hmacFinalize H (updateSeed H (hmacUpdate H (hmacInit H key) A.toList) label random1 random2)

/-- The body of the loop. -/
def pHashStep (key label random1 random2 : Bytes) (s : PHashState H) : PHashState H :=
  let tmp := blockFor H key label random1 random2 s.A
  let next := hmacFinalize H (hmacUpdate H (hmacInit H key) s.A.toList)
  { hmacA := next.2
    hmacP := tmp.2
    A := next.1
    buf := s.buf.overwrite s.len tmp.1.toList
    len := s.len + 32 }

/-- The loop: as long as more than one digest is wanted. -/
def pHashWhile (key label random1 random2 : Bytes) (buflen : Nat) (s : PHashState H) :
    PHashState H :=
  if s.len + 32 < buflen then
    pHashWhile key label random1 random2 buflen (pHashStep H key label random1 random2 s)
  else s
termination_by buflen - s.len
decreasing_by
  simp only [pHashStep]
  omega

/-- `dtls_p_hash` with its contexts: the buffer afterwards, and the result. -/
def pHashInto (key label random1 random2 : Bytes) (buf : Ptr) (buflen : Nat) : Ptr × Nat :=
  let first := hmacFinalize H (updateSeed H (hmacInit H key) label random1 random2)
  let s := pHashWhile H key label random1 random2 buflen
    { hmacA := first.2, hmacP := hmacInit H key, A := first.1, buf := buf, len := 0 }
  let tmp := blockFor H key label random1 random2 s.A
  (s.buf.overwrite s.len (tmp.1.toList.take (buflen - s.len)), buflen)

/-! ## The expansion -/

/-- `A(i)`. -/
def expansionA (hash : Bytes → Digest) (key seed : Bytes) : Nat → Bytes
  | 0 => seed
  | i + 1 => (hmac hash key (expansionA hash key seed i)).toList

/-- The first `n` of the digests `HMAC(key, A(i) || seed)`, from `A(1)` on. -/
def expansion (hash : Bytes → Digest) (key seed : Bytes) (n : Nat) : Bytes :=
  (List.range n).flatMap fun i =>
    (hmac hash key (expansionA hash key seed (i + 1) ++ seed)).toList

theorem length_expansion (hash : Bytes → Digest) (key seed : Bytes) (n : Nat) :
    (expansion hash key seed n).length = 32 * n := by
  induction n with
  | zero => rfl
  | succ n ih =>
      rw [expansion, List.range_succ, List.flatMap_append, List.length_append,
        List.flatMap_singleton, Vector.length_toList]
      have length : (expansion hash key seed n).length + 32 = 32 * (n + 1) := by omega
      exact length

theorem expansion_succ (hash : Bytes → Digest) (key seed : Bytes) (n : Nat) :
    expansion hash key seed (n + 1) = expansion hash key seed n ++
      (hmac hash key (expansionA hash key seed (n + 1) ++ seed)).toList := by
  rw [expansion, List.range_succ, List.flatMap_append, List.flatMap_singleton, ← expansion]

/-- More digests begin with the same bytes. -/
theorem expansion_prefix (hash : Bytes → Digest) (key seed : Bytes) {m n : Nat} (h : m ≤ n) :
    expansion hash key seed m <+: expansion hash key seed n := by
  induction n, h using Nat.le_induction with
  | base => exact List.prefix_rfl
  | succ n _ ih =>
      rw [expansion_succ]
      exact ih.trans (List.prefix_append _ _)

/-- Its first bytes do not depend on the number of digests. -/
theorem take_expansion (hash : Bytes → Digest) (key seed : Bytes) {k m n : Nat}
    (hm : k ≤ 32 * m) (hn : k ≤ 32 * n) :
    (expansion hash key seed m).take k = (expansion hash key seed n).take k := by
  have from_le {m n : Nat} (hm : k ≤ 32 * m) (h : m ≤ n) :
      (expansion hash key seed m).take k = (expansion hash key seed n).take k := by
    obtain ⟨rest, hrest⟩ := expansion_prefix hash key seed h
    rw [← hrest, List.take_append_of_le_length (by rw [length_expansion]; exact hm)]
  rcases Nat.le_total m n with h | h
  · exact from_le hm h
  · exact (from_le hn h).symm

/-! ## What is written -/

variable {H} {key label random1 random2 : Bytes} {buflen : Nat} {buf : Ptr}

theorem overwrite_overwrite (p : Ptr) (a b : Bytes) :
    (p.overwrite 0 a).overwrite a.length b = p.overwrite 0 (a ++ b) := by
  funext i
  simp only [Ptr.overwrite, List.length_append, Nat.cast_zero, zero_add, sub_zero]
  by_cases hb : (a.length : Int) ≤ i ∧ i < a.length + b.length
  · have inside : 0 ≤ i ∧ i < ((a.length + b.length : Nat) : Int) := by omega
    have index : (i - a.length).toNat = i.toNat - a.length := by omega
    rw [if_pos hb, if_pos inside, index, List.getD_eq_getElem?_getD, List.getD_eq_getElem?_getD,
      List.getElem?_append_right (by omega)]
  · rw [if_neg hb]
    by_cases ha : 0 ≤ i ∧ i < a.length
    · have inside : 0 ≤ i ∧ i < ((a.length + b.length : Nat) : Int) := by omega
      rw [if_pos ha, if_pos inside, List.getD_eq_getElem?_getD, List.getD_eq_getElem?_getD,
        List.getElem?_append_left (by omega)]
    · have outside : ¬ (0 ≤ i ∧ i < ((a.length + b.length : Nat) : Int)) := by omega
      rw [if_neg ha, if_neg outside]

/-- The digest for `A` is the HMAC of `A` and the seed. -/
theorem blockFor_eq (A : Digest) : (blockFor H key label random1 random2 A).1
    = hmac H.hash key (A.toList ++ (label ++ random1 ++ random2)) := by
  have keyed := (((@hmacInit_primed H key).update A.toList).update label).update random1
  have keyed := keyed.update random2
  rw [blockFor, updateSeed, keyed.finalize]
  simp only [List.nil_append, List.flatten_append, List.flatten_singleton, List.append_assoc]

/-- What is known when the loop is entered for the digest after the first `n`. -/
structure Expanded (H : StreamingHash) (key seed : Bytes) (buf : Ptr) (n : Nat)
    (s : PHashState H) : Prop where
  A : s.A.toList = expansionA H.hash key seed (n + 1)
  written : s.buf = buf.overwrite 0 (expansion H.hash key seed n)
  len : s.len = 32 * n

theorem pHashStep_expanded {n : Nat} {s : PHashState H}
    (h : Expanded H key (label ++ random1 ++ random2) buf n s) :
    Expanded H key (label ++ random1 ++ random2) buf (n + 1)
      (pHashStep H key label random1 random2 s) := by
  obtain ⟨A, written, len⟩ := h
  refine ⟨?_, ?_, ?_⟩
  · have keyed := (@hmacInit_primed H key).update s.A.toList
    simp only [pHashStep, keyed.finalize, List.nil_append, List.flatten_singleton]
    rw [A]
    rfl
  · simp only [pHashStep, blockFor_eq]
    rw [written, len, ← length_expansion H.hash key (label ++ random1 ++ random2) n,
      overwrite_overwrite, expansion_succ, A]
  · simp only [pHashStep, len]
    omega

/-- **THE LOOP** leaves at most one digest to be written. -/
theorem pHashWhile_expanded {n : Nat} {s : PHashState H}
    (h : Expanded H key (label ++ random1 ++ random2) buf n s) (hn : 32 * n ≤ buflen) :
    ∃ m, Expanded H key (label ++ random1 ++ random2) buf m
        (pHashWhile H key label random1 random2 buflen s) ∧
      32 * m ≤ buflen ∧ buflen ≤ 32 * (m + 1) := by
  induction hk : buflen - s.len using Nat.strong_induction_on generalizing n s with
  | _ k ih =>
      have len := h.len
      rw [pHashWhile]
      by_cases more : s.len + 32 < buflen
      · rw [if_pos more]
        have next := pHashStep_expanded h
        have shorter : buflen - (pHashStep H key label random1 random2 s).len < k := by
          rw [next.len]
          omega
        exact ih _ shorter next (by omega) rfl
      · rw [if_neg more]
        exact ⟨n, h, hn, by omega⟩

/-- **WHAT IS WRITTEN**: the first bytes of the expansion, at the beginning of the buffer. -/
theorem pHashInto_eq (key label random1 random2 : Bytes) (buf : Ptr) (buflen : Nat) {k : Nat}
    (hk : buflen ≤ 32 * k) :
    pHashInto H key label random1 random2 buf buflen
      = (buf.overwrite 0 ((expansion H.hash key (label ++ random1 ++ random2) k).take buflen),
          buflen) := by
  have first : (hmacFinalize H (updateSeed H (hmacInit H key) label random1 random2)).1.toList
      = expansionA H.hash key (label ++ random1 ++ random2) 1 := by
    have keyed := (((@hmacInit_primed H key).update label).update random1).update random2
    rw [updateSeed, keyed.finalize]
    simp only [List.nil_append, List.flatten_append, List.flatten_singleton]
    rfl
  have start : Expanded H key (label ++ random1 ++ random2) buf 0
      { hmacA := (hmacFinalize H (updateSeed H (hmacInit H key) label random1 random2)).2
        hmacP := hmacInit H key
        A := (hmacFinalize H (updateSeed H (hmacInit H key) label random1 random2)).1
        buf := buf
        len := 0 } := by
    refine ⟨first, ?_, rfl⟩
    funext i
    have nothing : ¬ ((0 : Nat) ≤ i ∧ i < (0 : Nat) + (([] : Bytes).length : Int)) := by
      simp only [List.length_nil]
      omega
    exact (if_neg nothing).symm
  obtain ⟨m, ⟨A, written, len⟩, hlo, hhi⟩ := pHashWhile_expanded start (Nat.zero_le _)
  simp only [pHashInto, blockFor_eq]
  rw [written, len, A, ← length_expansion H.hash key (label ++ random1 ++ random2) m,
    overwrite_overwrite, take_expansion _ _ _ hk hhi, expansion_succ, List.take_append]
  have all : (expansion H.hash key (label ++ random1 ++ random2) m).take buflen
      = expansion H.hash key (label ++ random1 ++ random2) m :=
    List.take_of_length_le (by rw [length_expansion]; exact hlo)
  rw [all]

/-- The buffer has the first `buflen` bytes of the expansion, nothing around them has changed,
    and a shorter output is the beginning of it. -/
structure Expands (H : StreamingHash) (key label random1 random2 : Bytes) (buf : Ptr)
    (buflen : Nat) : Prop where
  bytes : ∀ k, buflen ≤ 32 * k →
    (pHashInto H key label random1 random2 buf buflen).1.bytes buflen
      = (expansion H.hash key (label ++ random1 ++ random2) k).take buflen
  beyond : ∀ i : Int, i < 0 ∨ buflen ≤ i →
    (pHashInto H key label random1 random2 buf buflen).1 i = buf i
  length : (pHashInto H key label random1 random2 buf buflen).2 = buflen
  shorter : ∀ m ≤ buflen, ∀ buf', (pHashInto H key label random1 random2 buf' m).1.bytes m
    = ((pHashInto H key label random1 random2 buf buflen).1.bytes buflen).take m

theorem pHashInto_bytes (key label random1 random2 : Bytes) (buf : Ptr) (buflen : Nat) {k : Nat}
    (hk : buflen ≤ 32 * k) : (pHashInto H key label random1 random2 buf buflen).1.bytes buflen
      = (expansion H.hash key (label ++ random1 ++ random2) k).take buflen := by
  have length : ((expansion H.hash key (label ++ random1 ++ random2) k).take buflen).length
      = buflen := by
    rw [List.length_take, length_expansion, Nat.min_eq_left hk]
  rw [pHashInto_eq _ _ _ _ _ _ hk]
  generalize (expansion H.hash key (label ++ random1 ++ random2) k).take buflen = out at length ⊢
  have written := overwrite_bytes buf 0 out []
  rw [List.append_nil, Nat.cast_zero, Ptr.add_zero, length] at written
  exact written

/-- **EXPANSION**: for every key, label and pair of randoms and every length. -/
theorem pHash_expands (H : StreamingHash) (key label random1 random2 : Bytes) (buf : Ptr)
    (buflen : Nat) : Expands H key label random1 random2 buf buflen := by
  have enough : buflen ≤ 32 * buflen := by omega
  refine ⟨fun k hk => pHashInto_bytes key label random1 random2 buf buflen hk, fun i hi => ?_, ?_,
    fun m hm buf' => ?_⟩
  · rw [pHashInto_eq _ _ _ _ _ _ enough]
    refine if_neg ?_
    rw [List.length_take, length_expansion, Nat.min_eq_left enough]
    omega
  · rw [pHashInto_eq _ _ _ _ _ _ enough]
  · rw [pHashInto_bytes _ _ _ _ buf' m (le_trans hm enough),
      pHashInto_bytes _ _ _ _ buf buflen enough, List.take_take, Nat.min_eq_left hm]

/-! ## The function of the engine -/

theorem dtlsHmac_eq (C : Primitives) (key input : Bytes) :
    dtlsHmac C key input = hmac C.sha256 key input := by
  have opad (x : UInt8) : x ^^^ 0x36 ^^^ 0x6A = x ^^^ 0x5C := by
    rw [UInt8.xor_assoc]
    rfl
  have ipad : (Vector.ofFn fun i : Fin 64 =>
      (if key.length > 64 then (C.sha256 key).toList else key).getD i.val 0 ^^^ 0x36)
      = (hmacKey C.sha256 key).map (· ^^^ 0x36) := by
    apply Vector.ext
    intro i hi
    rw [Vector.getElem_ofFn, Vector.getElem_map, hmacKey, Vector.getElem_ofFn]
  simp only [dtlsHmac, dtlsHmacFinalize, dtlsHmacUpdate, dtlsHmacInit, ipad, Vector.map_map]
  rw [hmac]
  have pads : ((fun x : UInt8 => x ^^^ 0x6A) ∘ fun x => x ^^^ 0x36) = fun x => x ^^^ 0x5C :=
    funext opad
  rw [pads]

/-- Behind the first `n` digests there is the next one. -/
theorem drop_expansion (hash : Bytes → Digest) (key seed : Bytes) (n : Nat) (rest : Bytes) :
    (expansion hash key seed (n + 1) ++ rest).drop (32 * n)
      = (hmac hash key (expansionA hash key seed (n + 1) ++ seed)).toList ++ rest := by
  rw [expansion_succ, List.append_assoc, ← length_expansion hash key seed n, List.drop_left]

/-- The loop of the engine, from the digest after the first `n` on. -/
theorem pHashLoop_eq (C : Primitives) (key seed : Bytes) (buflen fuel n : Nat) {A : Digest}
    (hA : A.toList = expansionA C.sha256 key seed (n + 1)) (hfuel : buflen ≤ 32 * (n + fuel + 1))
    {k : Nat} (hk : buflen ≤ 32 * k) :
    pHashLoop C key seed buflen fuel (32 * n) A
      = ((expansion C.sha256 key seed k).take buflen).drop (32 * n) := by
  have block (n : Nat) (A : Digest) (hA : A.toList = expansionA C.sha256 key seed (n + 1)) :
      (dtlsHmac C key (A.toList ++ seed)).toList
        = (hmac C.sha256 key (expansionA C.sha256 key seed (n + 1) ++ seed)).toList := by
    rw [dtlsHmac_eq, hA]
  -- the last digest may be cut off
  have last (n : Nat) (A : Digest) (hA : A.toList = expansionA C.sha256 key seed (n + 1))
      (h : buflen ≤ 32 * (n + 1)) :
      (dtlsHmac C key (A.toList ++ seed)).toList.take (buflen - 32 * n)
        = ((expansion C.sha256 key seed k).take buflen).drop (32 * n) := by
    have next := drop_expansion C.sha256 key seed n []
    rw [List.append_nil, List.append_nil] at next
    rw [take_expansion _ _ _ hk h, List.drop_take, next, block n A hA]
  induction fuel generalizing n A with
  | zero => exact last n A hA hfuel
  | succ fuel ih =>
      rw [pHashLoop]
      by_cases more : 32 * n + 32 < buflen
      · rw [if_pos more]
        have hnext : (dtlsHmac C key A.toList).toList
            = expansionA C.sha256 key seed (n + 1 + 1) := by
          rw [dtlsHmac_eq, hA]
          rfl
        obtain ⟨rest, hrest⟩ := expansion_prefix C.sha256 key seed (show n + 1 ≤ k by omega)
        have cut : (expansion C.sha256 key seed k).take buflen
            = expansion C.sha256 key seed (n + 1) ++ rest.take (buflen - 32 * (n + 1)) := by
          have long : 32 * (n + 1) ≤ buflen := by omega
          rw [← hrest, List.take_append, length_expansion]
          congr 1
          exact List.take_of_length_le (by rw [length_expansion]; exact long)
        have behind := ih (n + 1) hnext (by omega)
        rw [Nat.mul_succ] at behind
        rw [behind, cut, drop_expansion, block n A hA, ← Nat.mul_succ,
          ← length_expansion C.sha256 key seed, List.drop_left]
      · rw [if_neg more]
        exact last n A hA (by omega)

/-- **THE ENGINE** expands its secrets with this function. -/
theorem dtlsPHash_eq (C : Primitives) (key label random1 random2 : Bytes) (buf : Ptr)
    (buflen : Nat) : dtlsPHash C key label random1 random2 buflen
      = (pHashInto (collecting C.sha256) key label random1 random2 buf buflen).1.bytes buflen := by
  have enough : buflen ≤ 32 * buflen := by omega
  have first : (dtlsHmac C key (label ++ random1 ++ random2)).toList
      = expansionA C.sha256 key (label ++ random1 ++ random2) 1 := by
    rw [dtlsHmac_eq]
    rfl
  rw [pHashInto_bytes _ _ _ _ _ _ enough, dtlsPHash]
  exact pHashLoop_eq C key _ buflen buflen 0 first (by omega) enough

end PqDtls.Dtls
