import Mathlib.Tactic.Ring
import Mathlib.Data.Nat.ModEq

/-! # Bytes and message memory

    Numbers in messages are big endian; `intToBytes n` and `bytesToInt` are the
    families `dtls_int_to_uint*` and `dtls_uint*_to_int`.

    A pointer into received or caller-owned memory is the function from offsets
    to the bytes found there, `Ptr`.  The length that the code carries beside a
    pointer stays a separate number, as in the source, so a read outside of it
    returns whatever surrounds the message. -/

namespace PqDtls.Dtls

abbrev Bytes := List UInt8

/-- `dtls_int_to_uint8`, `…16`, `…24`, `…32`, `…48`, `…64` for `n` = 1, 2, 3, 4, 6, 8. -/
def intToBytes : Nat → Nat → Bytes
  | 0, _ => []
  | n + 1, v => UInt8.ofNat (v >>> (8 * n)) :: intToBytes n v

/-- `dtls_uint8_to_int` and its wider siblings, by the number of bytes. -/
def bytesToInt (b : Bytes) : Nat := b.foldl (fun v x => 256 * v + x.toNat) 0

def dtlsIntToUint8 : Nat → Bytes := intToBytes 1
def dtlsIntToUint16 : Nat → Bytes := intToBytes 2
def dtlsIntToUint24 : Nat → Bytes := intToBytes 3
def dtlsIntToUint32 : Nat → Bytes := intToBytes 4
def dtlsIntToUint48 : Nat → Bytes := intToBytes 6
def dtlsIntToUint64 : Nat → Bytes := intToBytes 8

@[simp] theorem length_intToBytes (n v : Nat) : (intToBytes n v).length = n := by
  induction n with
  | zero => rfl
  | succ n ih => simp only [intToBytes, List.length_cons, ih]

theorem foldl_bytesToInt (b : Bytes) (v : Nat) :
    b.foldl (fun v x => 256 * v + x.toNat) v = 256 ^ b.length * v + bytesToInt b := by
  unfold bytesToInt
  induction b generalizing v with
  | nil => simp
  | cons x b ih =>
      simp only [List.foldl_cons, List.length_cons]
      rw [ih, ih (256 * 0 + x.toNat), pow_succ]
      ring

theorem bytesToInt_cons (x : UInt8) (b : Bytes) :
    bytesToInt (x :: b) = 256 ^ b.length * x.toNat + bytesToInt b := by
  show b.foldl _ (256 * 0 + x.toNat) = _
  rw [foldl_bytesToInt]
  ring

theorem bytesToInt_lt (b : Bytes) : bytesToInt b < 256 ^ b.length := by
  induction b with
  | nil => exact Nat.one_pos
  | cons x b ih =>
      rw [bytesToInt_cons, List.length_cons, pow_succ]
      have hx : x.toNat ≤ 255 := Nat.le_of_lt_succ x.toNat_lt
      calc 256 ^ b.length * x.toNat + bytesToInt b
          < 256 ^ b.length * x.toNat + 256 ^ b.length := Nat.add_lt_add_left ih _
        _ = 256 ^ b.length * (x.toNat + 1) := by ring
        _ ≤ 256 ^ b.length * 256 := Nat.mul_le_mul_left _ (by omega)

/-- Decoding an encoded number gives it back modulo the width. -/
theorem bytesToInt_intToBytes (n v : Nat) : bytesToInt (intToBytes n v) = v % 256 ^ n := by
  induction n with
  | zero => rw [pow_zero, Nat.mod_one]; rfl
  | succ n ih =>
      have hpow : (2 : Nat) ^ (8 * n) = 256 ^ n := by rw [pow_mul]; norm_num
      have hmod : v % (256 ^ n * 256) = v % 256 ^ n + 256 ^ n * (v / 256 ^ n % 256) :=
        Nat.mod_mul
      rw [intToBytes, bytesToInt_cons, length_intToBytes, ih, Nat.shiftRight_eq_div_pow,
        UInt8.toNat_ofNat', hpow, pow_succ 256 n, hmod]
      exact Nat.add_comm _ _

/-! ## Pointers -/

abbrev Ptr := Int → UInt8

namespace Ptr

/-- `p + k`. -/
def add (p : Ptr) (k : Int) : Ptr := fun i => p (i + k)

/-- The `n` bytes at `p`, as `memcpy` reads them. -/
def bytes (p : Ptr) (n : Nat) : Bytes := (List.range n).map fun i : Nat => p i

/-- The same for an array of known size. -/
def array (p : Ptr) (n : Nat) : Vector UInt8 n := Vector.ofFn fun i => p i.val

/-- The contents of a buffer; what lies around it reads as zero. -/
def ofBytes (b : Bytes) : Ptr := fun i => if 0 ≤ i then b.getD i.toNat 0 else 0

def uint8 (p : Ptr) : Nat := bytesToInt (p.bytes 1)
def uint16 (p : Ptr) : Nat := bytesToInt (p.bytes 2)
def uint24 (p : Ptr) : Nat := bytesToInt (p.bytes 3)
def uint64 (p : Ptr) : Nat := bytesToInt (p.bytes 8)

@[simp] theorem length_bytes (p : Ptr) (n : Nat) : (p.bytes n).length = n := by
  simp [bytes]

@[simp] theorem toList_array (p : Ptr) (n : Nat) : (p.array n).toList = p.bytes n := by
  apply List.ext_getElem <;> simp [array, bytes]

theorem getElem_bytes (p : Ptr) (n i : Nat) (h : i < (p.bytes n).length) :
    (p.bytes n)[i] = p i := by
  simp [bytes]

@[simp] theorem add_zero (p : Ptr) : p.add 0 = p := by
  funext i
  simp [add]

theorem add_add (p : Ptr) (j k : Int) : (p.add j).add k = p.add (j + k) := by
  funext i
  show p (i + k + j) = p (i + (j + k))
  rw [add_assoc, add_comm k j]

/-- Reading on from `p + k` continues the bytes before it. -/
theorem bytes_add (p : Ptr) (m n : Nat) : p.bytes (m + n) = p.bytes m ++ (p.add m).bytes n := by
  simp only [bytes, List.range_add, List.map_append, List.map_map]
  congr 1
  apply List.map_congr_left
  intro i _
  show p ((m + i : Nat) : Int) = p (i + m)
  rw [Nat.cast_add, add_comm]

theorem ofBytes_bytes (b : Bytes) : (ofBytes b).bytes b.length = b := by
  apply List.ext_getElem
  · simp
  · intro i h₁ h₂
    rw [getElem_bytes]
    simp [ofBytes, List.getD_eq_getElem?_getD, h₂]

theorem ofBytes_append_add (a b : Bytes) (i : Nat) :
    ((ofBytes (a ++ b)).add a.length) i = ofBytes b i := by
  have h₁ : (0 : Int) ≤ i + a.length := by omega
  have h₂ : ((i : Int) + a.length).toNat = a.length + i := by omega
  simp only [add, ofBytes, h₁, h₂, Int.natCast_nonneg, if_true, Int.toNat_natCast]
  rw [List.getD_eq_getElem?_getD, List.getD_eq_getElem?_getD,
    List.getElem?_append_right (Nat.le_add_right _ _), Nat.add_sub_cancel_left]

/-- Two pointers that agree from here on read alike. -/
theorem bytes_congr {p q : Ptr} {n : Nat} (h : ∀ i : Nat, i < n → p i = q i) :
    p.bytes n = q.bytes n := by
  apply List.map_congr_left
  intro i hi
  exact h i (List.mem_range.mp hi)

/-- Pointers that read alike agree on what they read. -/
theorem eq_of_bytes {p q : Ptr} {n : Nat} (h : p.bytes n = q.bytes n) {i : Nat} (hi : i < n) :
    p i = q i := by
  have bound : i < (p.bytes n).length := by rwa [length_bytes]
  have bound' : i < (q.bytes n).length := by rwa [length_bytes]
  rw [← getElem_bytes p n i bound, ← getElem_bytes q n i bound']
  exact List.getElem_of_eq h bound

theorem ofBytes_append_bytes (a b : Bytes) (n : Nat) :
    ((ofBytes (a ++ b)).add a.length).bytes n = (ofBytes b).bytes n :=
  bytes_congr fun i _ => ofBytes_append_add a b i

theorem ofBytes_prefix_bytes (a b : Bytes) : (ofBytes (a ++ b)).bytes a.length = a := by
  have h : ∀ i : Nat, i < a.length → ofBytes (a ++ b) i = ofBytes a i := by
    intro i hi
    simp [ofBytes, List.getElem?_append_left hi]
  rw [bytes_congr h, ofBytes_bytes]

end Ptr

/-- A difference computed in `size_t`. -/
def sizeT (x : Int) : Nat := (x % 2 ^ 64).toNat

theorem sizeT_natCast {n : Nat} (h : n < 2 ^ 64) : sizeT n = n := by
  unfold sizeT
  omega

/-- `SKIP_VAR_FIELD`: a field with a length byte in front; `none` is `goto error`. -/
def skipVarField (p : Ptr) (l : Nat) : Option (Ptr × Nat) :=
  if l < p.uint8 + 1 then none
  else some (p.add (p.uint8 + 1), l - (p.uint8 + 1))

end PqDtls.Dtls
