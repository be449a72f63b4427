import PqDtls.Dtls.Ccm

/-! # Hashing, key derivation and the key block

    `dtls-hmac.c` and the parts of `dtls-crypto.c` the engine uses, over an
    arbitrary SHA-256 and block cipher.  A hash context is the input it has been
    fed since it was initialised. -/

namespace PqDtls.Dtls

abbrev Digest := Vector UInt8 32

/-- `dtls_hash_ctx`. -/
abbrev HashCtx := Bytes

/-- The vendored algorithms below the library: SHA-256, AES-128, and the curve. -/
structure Primitives where
  sha256 : Bytes → Digest
  rijndael : Bytes → Block → Block
  ecdh : Digest → Digest → Digest → Digest
  ecdsaValidate : Digest → Digest → Digest → Bytes → Bytes → Int

variable (C : Primitives)

/-! ## HMAC -/

structure HmacContext where
  pad : Vector UInt8 64
  data : HashCtx

def dtlsHmacInit (key : Bytes) : HmacContext :=
  let key := if key.length > 64 then (C.sha256 key).toList else key
  let ipad : Vector UInt8 64 := Vector.ofFn fun i => key.getD i.val 0 ^^^ 0x36
  { pad := ipad.map (· ^^^ 0x6A), data := ipad.toList }

def dtlsHmacUpdate (ctx : HmacContext) (input : Bytes) : HmacContext :=
  { ctx with data := ctx.data ++ input }

def dtlsHmacFinalize (ctx : HmacContext) : Digest :=
  C.sha256 (ctx.pad.toList ++ (C.sha256 ctx.data).toList)

/-- A key, one update, the result. -/
def dtlsHmac (key input : Bytes) : Digest :=
  dtlsHmacFinalize C (dtlsHmacUpdate (dtlsHmacInit C key) input)

/-! ## The pseudo random function -/

/-- The loop of `dtls_p_hash`; `A` is `A(i)`, `len` the bytes written so far. -/
def pHashLoop (key seed : Bytes) (buflen : Nat) : Nat → Nat → Digest → Bytes
  | 0, len, A => (dtlsHmac C key (A.toList ++ seed)).toList.take (buflen - len)
  | fuel + 1, len, A =>
      let tmp := (dtlsHmac C key (A.toList ++ seed)).toList
      if len + 32 < buflen then
        tmp ++ pHashLoop key seed buflen fuel (len + 32) (dtlsHmac C key A.toList)
      else tmp.take (buflen - len)

def dtlsPHash (key label random1 random2 : Bytes) (buflen : Nat) : Bytes :=
  let seed := label ++ random1 ++ random2
  pHashLoop C key seed buflen buflen 0 (dtlsHmac C key seed)

def dtlsPrf (key label random1 random2 : Bytes) (buflen : Nat) : Bytes :=
  dtlsPHash C key label random1 random2 buflen

/-- "master secret" -/
def prfLabelMaster : Bytes := [109, 97, 115, 116, 101, 114, 32, 115, 101, 99, 114, 101, 116]
/-- "key expansion" -/
def prfLabelKey : Bytes := [107, 101, 121, 32, 101, 120, 112, 97, 110, 115, 105, 111, 110]
/-- "client" -/
def prfLabelClient : Bytes := [99, 108, 105, 101, 110, 116]
/-- "server" -/
def prfLabelServer : Bytes := [115, 101, 114, 118, 101, 114]
/-- " finished" -/
def prfLabelFinished : Bytes := [32, 102, 105, 110, 105, 115, 104, 101, 100]

/-- The loop writes `buflen` bytes, whatever fuel is left over. -/
theorem length_pHashLoop (key seed : Bytes) (buflen fuel len : Nat) (A : Digest)
    (h : buflen ≤ 32 * fuel + len + 32) :
    (pHashLoop C key seed buflen fuel len A).length = buflen - len := by
  induction fuel generalizing len A with
  | zero =>
      rw [pHashLoop, List.length_take, Vector.length_toList]
      omega
  | succ fuel ih =>
      rw [pHashLoop]
      split
      · rw [List.length_append, Vector.length_toList, ih _ _ (by omega)]
        omega
      · rw [List.length_take, Vector.length_toList]
        omega

@[simp] theorem length_dtlsPrf (key label random1 random2 : Bytes) (buflen : Nat) :
    (dtlsPrf C key label random1 random2 buflen).length = buflen := by
  rw [dtlsPrf, dtlsPHash, length_pHashLoop _ _ _ _ _ _ _ (by omega), Nat.sub_zero]

/-! ## Secrets and the key block -/

def dtlsMasterSecretLength : Nat := 48
def maxKeyblockLength : Nat := 2 * 0 + 2 * 16 + 2 * 4

/-- `dtls_psk_pre_master_secret`; `none` is `-1`. -/
def dtlsPskPreMasterSecret (key : Bytes) (resultLen : Nat) : Option Bytes :=
  if resultLen < 2 * (2 + key.length) then none
  else some (dtlsIntToUint16 key.length ++ List.replicate key.length 0 ++
    dtlsIntToUint16 key.length ++ key)

/-- `dtls_peer_type`. -/
inductive DtlsPeerType
  | client
  | server
deriving DecidableEq, Repr

/-- `key_block`: client and server write key, client and server IV. -/
abbrev KeyBlock := Vector UInt8 40

def dtlsKbClientWriteKey (k : KeyBlock) : Bytes := k.toList.take 16
def dtlsKbServerWriteKey (k : KeyBlock) : Bytes := (k.toList.drop 16).take 16
def dtlsKbClientIv (k : KeyBlock) : Bytes := (k.toList.drop 32).take 4
def dtlsKbServerIv (k : KeyBlock) : Bytes := (k.toList.drop 36).take 4

def dtlsKbRemoteWriteKey (k : KeyBlock) (role : DtlsPeerType) : Bytes :=
  if role = .server then dtlsKbClientWriteKey k else dtlsKbServerWriteKey k

def dtlsKbLocalWriteKey (k : KeyBlock) (role : DtlsPeerType) : Bytes :=
  if role = .client then dtlsKbClientWriteKey k else dtlsKbServerWriteKey k

def dtlsKbRemoteIv (k : KeyBlock) (role : DtlsPeerType) : Bytes :=
  if role = .server then dtlsKbClientIv k else dtlsKbServerIv k

def dtlsKbLocalIv (k : KeyBlock) (role : DtlsPeerType) : Bytes :=
  if role = .client then dtlsKbClientIv k else dtlsKbServerIv k

/-- A byte string copied into an array of `n` bytes. -/
def toArray (n : Nat) (b : Bytes) : Vector UInt8 n := Vector.ofFn fun i => b.getD i.val 0

/-- `dtls_encrypt`: AES in CCM mode with 8 bytes of MAC and 12 bytes of nonce. -/
def dtlsEncrypt (msg : Bytes) (nonce : Block) (key aad : Bytes) : Bytes :=
  dtlsCcmEncryptMessage (C.rijndael key) 8 3 nonce msg aad

/-- `dtls_decrypt`, in place. -/
def dtlsDecrypt (msg : Bytes) (nonce : Block) (key aad : Bytes) : Option Nat × Bytes :=
  dtlsCcmDecryptMessage (C.rijndael key) 8 3 nonce msg aad

end PqDtls.Dtls
