import PqDtls.Sha2.Transform
import PqDtls.Dtls.Prf

/-! # Hashing in pieces

    However the input of a context is cut, the digest is the hash of all of it
    (**`sha256_streams`**).  `Absorbs` is what a context is after an input: the state after
    the whole blocks, the rest in front of the buffer, and the number of bits.

    With it a context can stand for its input, as it does in the engine, and the
    expansions of `dtls_p_hash` are those of the standards. -/

namespace PqDtls.Sha2

open Dtls (Bytes Digest)
open BlockHash (Streamed blocks blocks_single blocks_cons)
open Sha256 (compress initial padding lengthBytes)

/-! ## The buffer -/

variable {ctx : Sha256Ctx} {msg data : Bytes} {b : Vector UInt8 64} {off len : Nat}

theorem getElem_copyTo {i : Nat} (hi : i < 64) : (copyTo b off data)[i]
    = if off ≤ i ∧ i < off + data.length then data.getD (i - off) 0 else b[i] :=
  Vector.getElem_ofFn _

theorem copyTo_toList (h : off + data.length ≤ 64) : (copyTo b off data).toList
    = b.toList.take off ++ data ++ b.toList.drop (off + data.length) := by
  have taken : (b.toList.take off).length = off := by
    rw [List.length_take, Vector.length_toList]
    omega
  refine List.ext_getElem ?_ fun i hi hi' => ?_
  · rw [List.length_append, List.length_append, taken, List.length_drop, Vector.length_toList,
      Vector.length_toList]
    omega
  · have inside : i < 64 := by rwa [Vector.length_toList] at hi
    rw [Vector.getElem_toList, getElem_copyTo inside]
    by_cases before : i < off
    · rw [if_neg (by omega), List.getElem_append_left (by
        rw [List.length_append, taken]; omega), List.getElem_append_left (by omega),
        List.getElem_take, Vector.getElem_toList]
    by_cases new : i < off + data.length
    · rw [if_pos ⟨not_lt.mp before, new⟩, List.getElem_append_left (by
        rw [List.length_append, taken]; exact new), List.getElem_append_right (by omega),
        List.getD_eq_getElem?_getD, List.getElem?_eq_getElem (by omega), Option.getD_some]
      simp only [taken]
    · rw [if_neg (by omega), List.getElem_append_right (by
        rw [List.length_append, taken]; omega), List.getElem_drop, Vector.getElem_toList]
      simp only [List.length_append, taken]
      have same : off + data.length + (i - (off + data.length)) = i := by omega
      simp only [same]

/-- In front of the end of what was copied. -/
theorem copyTo_take (h : off + data.length ≤ 64) :
    (copyTo b off data).toList.take (off + data.length) = b.toList.take off ++ data := by
  rw [copyTo_toList h]
  refine List.take_left' ?_
  rw [List.length_append, List.length_take, Vector.length_toList]
  omega

theorem zeroAt_take (h : off + len ≤ 64) :
    (zeroAt b off len).toList.take (off + len) = b.toList.take off ++ List.replicate len 0 := by
  have copied := @copyTo_take (List.replicate len 0) b off
  rw [List.length_replicate] at copied
  exact copied h

/-! ## The invariant -/

/-- What a context is after the input `msg`. -/
structure Absorbs (ctx : Sha256Ctx) (msg : Bytes) : Prop where
  streamed : Streamed compress 64 initial msg ctx.state (ctx.buffer.toList.take (msg.length % 64))
  bitcount : ctx.bitcount = BitVec.ofNat 64 (8 * msg.length)

theorem absorbs_init (c : Sha256Ctx) : Absorbs (dtlsSha256Init c) [] := by
  refine ⟨?_, rfl⟩
  have state : (dtlsSha256Init c).state = initial := sha256InitialHashValue_eq
  rw [state]
  exact BlockHash.streamed_nil (by decide)

theorem Absorbs.usedspace (h : Absorbs ctx msg) : ctx.usedspace = msg.length % 64 := by
  rw [Sha256Ctx.usedspace, h.bitcount, BitVec.toNat_ushiftRight, BitVec.toNat_ofNat,
    Nat.shiftRight_eq_div_pow]
  show 8 * msg.length % 2 ^ 64 / 2 ^ 3 % 64 = _
  omega

theorem count_bitcount (ctx : Sha256Ctx) (len : Nat) :
    (ctx.count len).bitcount = ctx.bitcount + (BitVec.ofNat 64 len <<< 3) := by
  rw [Sha256Ctx.count]

theorem count_state (ctx : Sha256Ctx) (len : Nat) : (ctx.count len).state = ctx.state := by
  rw [Sha256Ctx.count]

/-- The count after `len` more bytes. -/
theorem bitcount_count (h : ctx.bitcount = BitVec.ofNat 64 (8 * msg.length))
    (hlen : data.length = len) :
    (ctx.count len).bitcount = BitVec.ofNat 64 (8 * (msg ++ data).length) := by
  rw [count_bitcount, h, List.length_append, hlen]
  apply BitVec.eq_of_toNat_eq
  simp only [BitVec.toNat_add, BitVec.toNat_shiftLeft, BitVec.toNat_ofNat, Nat.shiftLeft_eq]
  omega

/-- What waits is as much as fits in front of `usedspace`. -/
theorem Absorbs.waiting (h : Absorbs ctx msg) :
    (ctx.buffer.toList.take (msg.length % 64)).length = msg.length % 64 := h.streamed.length

/-- **A PIECE THAT DOES NOT FILL THE BUFFER** is kept there. -/
theorem Absorbs.keep (h : Absorbs ctx msg) (hd : msg.length % 64 + data.length < 64) :
    Absorbs ({ ctx with
      buffer := copyTo ctx.buffer (msg.length % 64) data }.count data.length) (msg ++ data) := by
  refine ⟨?_, bitcount_count h.bitcount rfl⟩
  have used : (msg ++ data).length % 64 = msg.length % 64 + data.length := by
    rw [List.length_append]
    omega
  show Streamed compress 64 initial (msg ++ data) ctx.state
    ((copyTo ctx.buffer (msg.length % 64) data).toList.take ((msg ++ data).length % 64))
  rw [used, copyTo_take (by omega)]
  refine h.streamed.wait ?_
  rw [List.length_append, h.waiting]
  exact hd

/-- **A PIECE THAT FILLS IT** is transformed with what was there. -/
theorem Absorbs.fill (h : Absorbs ctx msg) {ctx' : Sha256Ctx}
    (hd : msg.length % 64 + data.length = 64)
    (hstate : ctx'.state = compress ctx.state (ctx.buffer.toList.take (msg.length % 64) ++ data))
    (hcount : ctx'.bitcount = (ctx.count data.length).bitcount) : Absorbs ctx' (msg ++ data) := by
  refine ⟨?_, hcount.trans (bitcount_count h.bitcount rfl)⟩
  have used : (msg ++ data).length % 64 = 0 := by
    rw [List.length_append]
    omega
  rw [used, hstate]
  refine h.streamed.fill (by decide) ?_
  rw [List.length_append, h.waiting]
  exact hd

/-! ## `dtls_sha256_update` -/

/-- A whole block at a time, with nothing in the buffer. -/
theorem Absorbs.block (h : Absorbs ctx msg) (hempty : msg.length % 64 = 0)
    (hd : data.length = 64) :
    Absorbs ((dtlsSha256Transform ctx data).count blockLength) (msg ++ data) := by
  refine h.fill (by omega) ?_ ?_
  · rw [count_state, dtlsSha256Transform_state, hempty, List.take_zero, List.nil_append]
  · rw [hd, count_bitcount, count_bitcount, dtlsSha256Transform_bitcount, blockLength]

/-- **THE LOOP** absorbs the whole blocks of the data and leaves less than one. -/
theorem updateBlocks_absorbs {fuel : Nat} (h : Absorbs ctx msg) (hempty : msg.length % 64 = 0)
    (hfuel : data.length ≤ fuel) : ∃ whole, data = whole ++ (updateBlocks fuel ctx data).2 ∧
      (updateBlocks fuel ctx data).2.length < 64 ∧ (msg ++ whole).length % 64 = 0 ∧
      Absorbs (updateBlocks fuel ctx data).1 (msg ++ whole) := by
  induction fuel generalizing ctx msg data with
  | zero =>
      have none' : data.length = 0 := Nat.le_zero.mp hfuel
      refine ⟨[], rfl, ?_, ?_, ?_⟩
      · show data.length < 64
        omega
      · rwa [List.append_nil]
      · rwa [List.append_nil]
  | succ fuel ih =>
      rw [updateBlocks]
      by_cases more : data.length ≥ blockLength
      · rw [if_pos more]
        have full : (data.take blockLength).length = 64 := by
          rw [List.length_take]
          exact Nat.min_eq_left more
        have even : (msg ++ data.take blockLength).length % 64 = 0 := by
          rw [List.length_append, full]
          omega
        have next := h.block hempty full
        have size : blockLength = 64 := rfl
        have fewer : (data.drop blockLength).length ≤ fuel := by
          rw [List.length_drop]
          omega
        obtain ⟨whole, hdata, short, hwhole, absorbs⟩ := ih next even fewer
        refine ⟨data.take blockLength ++ whole, ?_, short, ?_, ?_⟩
        · rw [List.append_assoc, ← hdata, List.take_append_drop]
        · rwa [← List.append_assoc]
        · rwa [← List.append_assoc]
      · rw [if_neg more]
        refine ⟨[], rfl, not_le.mp more, ?_, ?_⟩
        · rwa [List.append_nil]
        · rwa [List.append_nil]

theorem updateRest_absorbs (h : Absorbs ctx msg) (hempty : msg.length % 64 = 0) :
    Absorbs (updateRest ctx data) (msg ++ data) := by
  obtain ⟨whole, hdata, short, hwhole, absorbs⟩ :=
    @updateBlocks_absorbs ctx msg data data.length h hempty le_rfl
  unfold updateRest
  by_cases left : (updateBlocks data.length ctx data).2.length > 0
  · have kept := @Absorbs.keep _ _ (updateBlocks data.length ctx data).2 absorbs (by omega)
    rw [hwhole, List.append_assoc, ← hdata] at kept
    simp only [if_pos left]
    exact kept
  · have nothing : (updateBlocks data.length ctx data).2 = [] := List.length_eq_zero_iff.mp (by omega)
    rw [nothing, List.append_nil] at hdata
    simp only [if_neg left]
    rw [hdata]
    rw [hdata] at absorbs
    exact absorbs

/-- **UPDATE**: the context absorbs any piece. -/
theorem Absorbs.update (h : Absorbs ctx msg) (data : Bytes) :
    Absorbs (dtlsSha256Update ctx data) (msg ++ data) := by
  have size : blockLength = 64 := rfl
  have used := h.usedspace
  unfold dtlsSha256Update
  by_cases none' : data.length = 0
  · rw [if_pos none', List.length_eq_zero_iff.mp none', List.append_nil]
    exact h
  rw [if_neg none']
  by_cases empty : ctx.usedspace > 0
  · rw [if_pos empty, used]
    by_cases full : data.length ≥ blockLength - msg.length % 64
    · simp only [if_pos full]
      let piece := data.take (blockLength - msg.length % 64)
      let buffer := copyTo ctx.buffer (msg.length % 64) piece
      have length : piece.length = blockLength - msg.length % 64 := by
        rw [List.length_take]
        omega
      have whole : buffer.toList = ctx.buffer.toList.take (msg.length % 64) ++ piece := by
        rw [copyTo_toList (by omega), List.drop_of_length_le (by
          rw [Vector.length_toList]; omega), List.append_nil]
      have filled : Absorbs (dtlsSha256Transform
          ({ ctx with buffer := buffer }.count (blockLength - msg.length % 64)) buffer.toList)
          (msg ++ piece) := by
        refine h.fill (by omega) ?_ ?_
        · rw [dtlsSha256Transform_state, whole, count_state]
        · rw [dtlsSha256Transform_bitcount, length, count_bitcount, count_bitcount]
      have even : (msg ++ piece).length % 64 = 0 := by
        rw [List.length_append, length]
        omega
      have rest := @updateRest_absorbs _ _ (data.drop (blockLength - msg.length % 64)) filled even
      rw [List.append_assoc, List.take_append_drop] at rest
      exact rest
    · simp only [if_neg full]
      exact h.keep (by omega)
  · rw [if_neg empty]
    exact updateRest_absorbs h (by omega)

theorem absorbs_updates (c : Sha256Ctx) (inputs : List Bytes) :
    Absorbs (inputs.foldl dtlsSha256Update (dtlsSha256Init c)) inputs.flatten := by
  have from' (ctx : Sha256Ctx) (msg : Bytes) (h : Absorbs ctx msg) :
      Absorbs (inputs.foldl dtlsSha256Update ctx) (msg ++ inputs.flatten) := by
    induction inputs generalizing ctx msg with
    | nil =>
        rw [List.flatten_nil, List.append_nil]
        exact h
    | cons data inputs ih =>
        rw [List.flatten_cons, ← List.append_assoc]
        exact ih _ _ (h.update data)
  exact from' _ [] (absorbs_init c)

/-! ## `dtls_sha256_final` -/

theorem length_lengthBytes (n : Nat) : (lengthBytes n).length = 8 := by
  rw [lengthBytes, List.length_map, List.length_range]

/-- The blocks of what waits and the padding, if that is one block. -/
theorem blocks_one {rest : Bytes} {n : Nat} (hrest : rest.length = n % 64) (hn : n % 64 ≤ 55) :
    blocks 64 (rest ++ padding n)
      = [rest ++ 0x80 :: List.replicate (55 - n % 64) 0 ++ lengthBytes n] := by
  have zeros : (119 - n % 64) % 64 = 55 - n % 64 := by omega
  have size : (rest ++ 0x80 :: List.replicate (55 - n % 64) 0 ++ lengthBytes n).length = 64 := by
    rw [List.length_append, List.length_append, List.length_cons, List.length_replicate,
      length_lengthBytes]
    omega
  rw [padding, zeros, ← List.append_assoc, blocks_single (by decide) size]

/-- And if it is two. -/
theorem blocks_two {rest : Bytes} {n : Nat} (hrest : rest.length = n % 64) (hn : 55 < n % 64) :
    blocks 64 (rest ++ padding n)
      = [rest ++ 0x80 :: List.replicate (63 - n % 64) 0, List.replicate 56 0 ++ lengthBytes n] := by
  have zeros : (119 - n % 64) % 64 = 63 - n % 64 + 56 := by omega
  have first : (rest ++ 0x80 :: List.replicate (63 - n % 64) 0).length = 64 := by
    rw [List.length_append, List.length_cons, List.length_replicate]
    omega
  have second : (List.replicate 56 0 ++ lengthBytes n).length = 64 := by
    rw [List.length_append, List.length_replicate, length_lengthBytes]
  rw [← blocks_single (by decide) second, ← blocks_cons (by decide) first, padding, zeros,
    ← List.replicate_append_replicate]
  simp only [List.append_assoc, List.cons_append]

/-- The one bit behind the first `u` bytes. -/
theorem markAt_take {u : Nat} (hu : u < 64) :
    (copyTo b u [0x80]).toList.take (u + 1) = b.toList.take u ++ [0x80] := by
  have marked := @copyTo_take [0x80] b u hu
  rwa [List.length_singleton] at marked

/-- The bit, and zeros up to index `e`. -/
theorem markZero_take {u e : Nat} (hu : u < e) (he : e ≤ 64) :
    (zeroAt (copyTo b u [0x80]) (u + 1) (e - (u + 1))).toList.take e
      = b.toList.take u ++ 0x80 :: List.replicate (e - 1 - u) 0 := by
  have zeroed := @zeroAt_take (copyTo b u [0x80]) (u + 1) (e - (u + 1)) (by omega)
  have upTo : u + 1 + (e - (u + 1)) = e := by omega
  have zeros : e - (u + 1) = e - 1 - u := by omega
  rw [upTo, markAt_take (by omega), List.append_assoc, List.singleton_append, zeros] at zeroed
  rw [zeros]
  exact zeroed

theorem take_all (b : Vector UInt8 64) : b.toList.take 64 = b.toList :=
  List.take_of_length_le (Nat.le_of_eq Vector.length_toList)

/-- The buffer with the bit and zeros in all the rest of it. -/
theorem markFull {u : Nat} (hu : u < 64) :
    (if u + 1 < blockLength then zeroAt (copyTo b u [0x80]) (u + 1) (blockLength - (u + 1))
      else copyTo b u [0x80]).toList = b.toList.take u ++ 0x80 :: List.replicate (63 - u) 0 := by
  by_cases more : u + 1 < blockLength
  · rw [if_pos more, ← take_all]
    exact markZero_take hu le_rfl
  · obtain rfl : u = 63 := by
      have size : blockLength = 64 := rfl
      omega
    rw [if_neg more, ← take_all]
    exact markAt_take hu

/-- Zeros up to the length. -/
theorem zeroFront_take (b : Vector UInt8 64) :
    (zeroAt b 0 shortBlockLength).toList.take 56 = List.replicate 56 0 := by
  have zeroed := @zeroAt_take b 0 56 (by decide)
  rwa [Nat.zero_add, List.take_zero, List.nil_append] at zeroed

/-- The bit in front of them. -/
theorem markFront_take (b : Vector UInt8 64) :
    (copyTo (zeroAt b 0 shortBlockLength) 0 [0x80]).toList.take 56
      = 0x80 :: List.replicate 55 0 := by
  have zeroed := congrArg (List.drop 1) (zeroFront_take b)
  rw [List.drop_take, List.drop_replicate] at zeroed
  rw [copyTo_toList (by decide), List.take_zero, List.nil_append, List.singleton_append,
    List.take_succ_cons, List.length_singleton, Nat.zero_add]
  exact congrArg (List.cons 0x80) zeroed

/-- What `padded` leaves of the input and its padding: the last block up to the length. -/
theorem Absorbs.padded (h : Absorbs ctx msg) :
    compress (padded ctx).state ((padded ctx).buffer.toList.take 56 ++ lengthBytes msg.length)
      = (blocks 64 (ctx.buffer.toList.take (msg.length % 64) ++ padding msg.length)).foldl compress
          ctx.state := by
  have used := h.usedspace
  have waiting := h.waiting
  have bound : msg.length % 64 < 64 := Nat.mod_lt _ (by decide)
  unfold Sha2.padded
  by_cases empty : ctx.usedspace > 0
  · rw [if_pos empty, used]
    by_cases room : msg.length % 64 + 1 ≤ shortBlockLength
    · have fits : msg.length % 64 < 56 := room
      rw [if_pos room, blocks_one waiting (Nat.le_of_lt_succ fits)]
      show compress ctx.state ((zeroAt _ _ _).toList.take 56 ++ _) = compress ctx.state _
      rw [shortBlockLength, blockLength, markZero_take fits (by decide)]
    · have full : 55 < msg.length % 64 := by
        have size : shortBlockLength = 56 := rfl
        omega
      rw [if_neg room, blocks_two waiting full]
      dsimp only
      rw [zeroFront_take, transformBuffer, dtlsSha256Transform_state, markFull bound]
      rfl
  · have none' : msg.length % 64 = 0 := by omega
    have one := @blocks_one [] msg.length none'.symm (by omega)
    rw [if_neg empty, none', List.take_zero, one, none']
    dsimp only
    rw [markFront_take]
    rfl

/-- The stored count. -/
theorem storedCount (n : Nat) :
    ((List.range 8).map fun i => storedByte (reverse64 (BitVec.ofNat 64 (8 * n))) i)
      = lengthBytes n := by
  refine List.map_congr_left fun i hi => ?_
  have bound : i < 8 := List.mem_range.mp hi
  rw [storedByte_reverse64 _ bound]
  apply UInt8.toNat_inj.mp
  show (BitVec.extractLsb' (56 - 8 * i) 8 (BitVec.ofNat 64 (8 * n))).toNat = _
  rw [BitVec.extractLsb'_toNat, BitVec.toNat_ofNat, UInt8.toNat_ofNat', Nat.shiftRight_eq_div_pow,
    Nat.shiftRight_eq_div_pow]
  interval_cases i <;> omega

theorem length_sha256 (msg : Bytes) : (Sha256.sha256 msg).length = 32 := rfl

theorem toList_ofFn {l : Bytes} (h : l.length = 32) :
    (Vector.ofFn fun i : Fin 32 => l.getD i.val 0).toList = l := by
  refine List.ext_getElem ?_ fun i hi hi' => ?_
  · rw [Vector.length_toList, h]
  · rw [Vector.getElem_toList, Vector.getElem_ofFn, List.getD_eq_getElem?_getD,
      List.getElem?_eq_getElem hi', Option.getD_some]

/-- The last block, with the length. -/
theorem lastBlock (b : Vector UInt8 64) (n : Nat) :
    (copyTo b shortBlockLength (lengthBytes n)).toList = b.toList.take 56 ++ lengthBytes n := by
  have full : shortBlockLength + (lengthBytes n).length = 64 := by
    rw [length_lengthBytes]
    rfl
  have copied := @copyTo_take (lengthBytes n) b shortBlockLength (Nat.le_of_eq full)
  rw [full, take_all] at copied
  exact copied

/-- **FINAL**: the digest of a context is the hash of what it has absorbed. -/
theorem Absorbs.final (h : Absorbs ctx msg) :
    (dtlsSha256Final ctx).1.toList = Sha256.sha256 msg := by
  have closed := h.streamed.closed (by decide) (padding msg.length)
  have words : (fun w => store (reverse32 w)) = Sha256.wordBytes := funext store_reverse32
  unfold dtlsSha256Final
  dsimp only
  rw [toList_ofFn (by rw [words]; rfl), words, transformBuffer, dtlsSha256Transform_state,
    h.bitcount, storedCount]
  dsimp only
  rw [lastBlock, h.padded, ← closed, Sha256.sha256]

/-- The hash of the standard, as a digest. -/
def standardHash (msg : Bytes) : Digest := Dtls.toArray 32 (Sha256.sha256 msg)

theorem final_updates (c : Sha256Ctx) (inputs : List Bytes) :
    (dtlsSha256Final (inputs.foldl dtlsSha256Update (dtlsSha256Init c))).1
      = standardHash inputs.flatten := by
  apply Vector.toList_inj.mp
  rw [(absorbs_updates c inputs).final]
  exact (toList_ofFn (length_sha256 _)).symm

/-- **STREAMING**: from a context of any contents, and however the input is cut, the digest is the
    hash of all of it, and the context is cleared. -/
theorem sha256_streams (c : Sha256Ctx) (inputs : List Bytes) :
    dtlsSha256Final (inputs.foldl dtlsSha256Update (dtlsSha256Init c))
      = (standardHash inputs.flatten, clearedCtx) :=
  Prod.ext (final_updates c inputs) rfl

example : (dtlsSha256Final (dtlsSha256Update (dtlsSha256Init clearedCtx) [97, 98, 99])).1.toList.take
    4 = [0xba, 0x78, 0x16, 0xbf] := by decide +kernel

/-! ## Keyed hashing over these contexts -/

/-- The hash functions of `dtls-hmac.h`. -/
def dtlsHash : Dtls.StreamingHash where
  Ctx := Sha256Ctx
  zeroed := clearedCtx
  init := dtlsSha256Init
  update := dtlsSha256Update
  finalize := dtlsSha256Final
  hash := standardHash
  streams := final_updates

open Dtls (Primitives Ptr HmacState hmacInit hmacUpdate hmacFinalize hmac pHashInto expansion
  dtlsHmac dtlsPrf)

theorem dtlsHash_hash : dtlsHash.hash = standardHash := rfl

theorem collecting_hash (hash : Bytes → Digest) : (Dtls.collecting hash).hash = hash := rfl

/-- An HMAC context that is fed in pieces. -/
theorem hmac_updates (key : Bytes) (inputs : List Bytes) :
    (hmacFinalize dtlsHash (inputs.foldl (hmacUpdate dtlsHash) (hmacInit dtlsHash key))).1
      = hmac standardHash key inputs.flatten := by
  have primed (ctx : HmacState dtlsHash) (before : List Bytes) (h : Dtls.Primed ctx key before) :
      Dtls.Primed (inputs.foldl (hmacUpdate dtlsHash) ctx) key (before ++ inputs) := by
    induction inputs generalizing ctx before with
    | nil =>
        rw [List.append_nil]
        exact h
    | cons input inputs ih =>
        rw [List.foldl_cons, List.append_cons before input inputs]
        exact ih _ _ (h.update input)
  exact (primed _ [] (Dtls.hmacInit_primed key)).finalize

/-- **KEYED HASHING OF THE STANDARDS**: HMAC contexts over the hash contexts of the library give
    HMAC-SHA-256 of all their input, `dtls_p_hash` writes `P_SHA256`, and what the engine computes
    with a hash of whole messages is the same. -/
theorem keyedHash_standard (C : Primitives) (hC : C.sha256 = standardHash) (key : Bytes) :
    (∀ inputs : List Bytes,
      (hmacFinalize dtlsHash (inputs.foldl (hmacUpdate dtlsHash) (hmacInit dtlsHash key))).1
          = hmac standardHash key inputs.flatten ∧
        dtlsHmac C key inputs.flatten = hmac standardHash key inputs.flatten) ∧
      ∀ (label random1 random2 : Bytes) (buf : Ptr) (buflen k : Nat), buflen ≤ 32 * k →
        (pHashInto dtlsHash key label random1 random2 buf buflen).1.bytes buflen
            = (expansion standardHash key (label ++ random1 ++ random2) k).take buflen ∧
          dtlsPrf C key label random1 random2 buflen
            = (pHashInto dtlsHash key label random1 random2 buf buflen).1.bytes buflen := by
  refine ⟨fun inputs => ⟨hmac_updates key inputs, ?_⟩, ?_⟩
  · rw [Dtls.dtlsHmac_eq, hC]
  · intro label random1 random2 buf buflen k hk
    have written := @Dtls.pHashInto_bytes dtlsHash key label random1 random2 buf buflen k hk
    have engine := @Dtls.pHashInto_bytes (Dtls.collecting standardHash) key label random1 random2
      buf buflen k hk
    rw [dtlsHash_hash] at written
    refine ⟨written, ?_⟩
    rw [written, dtlsPrf, Dtls.dtlsPHash_eq C key label random1 random2 buf buflen, hC, engine,
      collecting_hash]

/-- The primitives of the sample process, with the hash of the standard. -/
def hashingPrims : Primitives := { Dtls.sampleEnv.prims with sha256 := standardHash }

theorem keyedHash_standard_master :
    dtlsHmac hashingPrims [1] [2, 3] = hmac standardHash [1] [2, 3] ∧
      dtlsPrf hashingPrims [1] Dtls.prfLabelMaster [4] [5] 48
        = (expansion standardHash [1] (Dtls.prfLabelMaster ++ [4] ++ [5]) 2).take 48 := by
  obtain ⟨keyed, expands⟩ := keyedHash_standard hashingPrims rfl [1]
  obtain ⟨written, engine⟩ := expands Dtls.prfLabelMaster [4] [5] (fun _ => 0) 48 2 (by decide)
  exact ⟨(keyed [[2], [3]]).2, engine.trans written⟩

end PqDtls.Sha2
