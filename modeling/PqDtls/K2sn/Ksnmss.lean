import PqDtls.Lib.MerkleTree
import PqDtls.K2sn.Cff

/-! # K2SN-MSS: key generation, signing and verification

    The many-time signature scheme the client signs its TESLA synchronisation
    with: 2^20 one-time key pairs of 262 component keys, an L-tree over the 262
    public components of each, and a Merkle tree over the L-tree roots.

    The hash primitives (SWIFFT and its keys, the random pads, the ChaCha
    generator of secret components) are the parameter `Prims`.  The signer's
    globals `auth`, `keep`, `retain`, `instance` and `MSSPK` are the fields of
    `SignerState`; arrays that are only read and written by index are functions
    of the index, and a treehash stack is a list with the top first (`top` is its
    length minus one). -/

namespace PqDtls.Ksnmss

open Cff MerkleTree

def sklen : Nat := 128
def pklen : Nat := 72
def rglen : Nat := 64
def hlength : Nat := 20
def llength : Nat := 9
def usr : Nat := 1048576
def merlen : Nat := 2 * pklen - sklen
def updateiter : Nat := hlength / 2 - 1
def infy : Nat := 999999
def seedlen : Nat := 32
def k2snMsglen : Nat := 32

/-- `node`: a compressed ring element. -/
abbrev Node := Vector UInt8 pklen

/-- `sk_node`: a secret component, or a merged pair of nodes. -/
abbrev SkNode := Vector UInt8 sklen

/-- `rg_elm`: a ring element with its 64 coefficients. -/
abbrev RgElm := Vector UInt32 rglen

/-- `int xbyte[16][4]`. -/
abbrev XByte := Vector (Vector Nat 4) 16

/-- `vec A[16][4]` with 16 lanes of 16 bits. -/
abbrev SwifftKey := Vector (Vector (Vector UInt16 16) 4) 16

/-- The primitives below the scheme. -/
structure Prims where
  setKey : Nat → Nat → SwifftKey
  SWIFFT : XByte → SwifftKey → Node
  gSWIFFT : Vector (Vector Nat 64) 16 → SwifftKey → RgElm
  setRandomPad : Nat → Nat → SkNode
  generateSecretKeyOTS : Vector UInt8 seedlen → Vector SkNode k2snT

variable (K : Prims)

/-! ## Hashing -/

/-- Two bytes of `x` in each entry, least significant first. -/
def parse (x : SkNode) : XByte :=
  Vector.ofFn fun row => Vector.ofFn fun i =>
    ((x[row.val * 8 + 2 * i.val + 1]!).toNat <<< 8) ||| (x[row.val * 8 + 2 * i.val]!).toNat

/-- Two nodes of 72 bytes in one input of 128 bytes: the last `merlen` bytes of
    the left node are masked with the first of the right one. -/
def merge (left right : Node) : SkNode :=
  Vector.ofFn fun j =>
    if j.val < pklen - merlen then left[j.val]!
    else if j.val < pklen then left[j.val]! ^^^ right[j.val - (pklen - merlen)]!
    else right[j.val - pklen + merlen]!

def xorPad (x rdp : SkNode) : SkNode := Vector.zipWith (· ^^^ ·) x rdp

/-- Merge, mask with the random pad of the address, hash under the key of the
    address. -/
def hashPair (left right : Node) (indx height : Nat) : Node :=
  K.SWIFFT (parse (xorPad (merge left right) (K.setRandomPad indx height)))
    (K.setKey indx height)

/-- The index of a one-time key as the 32-byte seed `idu8`. -/
def idu8 (id : Nat) : Vector UInt8 seedlen :=
  Vector.ofFn fun i => if i.val < 4 then UInt8.ofNat (id >>> (8 * i.val) &&& 0xFF) else 0

def generatePublicKeyOTS (sk : Vector SkNode k2snT) (A : SwifftKey) : Vector Node k2snT :=
  sk.map fun s => K.SWIFFT (parse s) A

/-! ## The L-tree -/

/-- Hash `n` pairs of component keys, from pair `lo` on, into `internal_node[k …]`. -/
def hashComponents (pk : Vector Node k2snT) (idT height lo n k : Nat)
    (internalNode : Nat → Node) : Nat → Node :=
  (List.range n).foldl (fun a i =>
    Function.update a (k + i)
      (hashPair K pk[2 * (lo + i)]! pk[2 * (lo + i) + 1]! (idT + (lo + i)) height))
    internalNode

/-- Hash `n` pairs of `internal_node` in place. -/
def hashLayer (idT height n : Nat) (internalNode : Nat → Node) : Nat → Node :=
  (List.range n).foldl (fun a i =>
    Function.update a i (hashPair K (a (2 * i)) (a (2 * i + 1)) (idT + i) height))
    internalNode

/-- The loop over the upper layers; `w` nodes in the layer of height `l1`. -/
def upperLayers : Nat → Nat → Nat → Nat → (Nat → Node) → Nat → Node
  | 0, _, _, _, a => a
  | k + 1, idT, w, l1, a =>
      upperLayers k (idT / 2) (w >>> 1) (l1 + 1) (hashLayer K (idT / 2) l1 w a)

/-- The root of the L-tree of one-time key `id`. -/
def createLTree (pk : Vector Node k2snT) (id : Nat) : Node :=
  let idT := (id <<< llength) % 2 ^ 32
  let a := hashComponents K pk idT 0 0 6 0 (fun _ => Vector.replicate pklen 0)
  let a := hashLayer K (idT / 2) 1 3 a
  let a := hashComponents K pk (idT / 2) 1 6 125 3 a
  upperLayers K (llength - 2) (idT / 2) (1 <<< (llength - 3)) 2 a 0

/-- The public component keys of one-time key `id`. -/
def otsPublicKey (id : Nat) : Vector Node k2snT :=
  generatePublicKeyOTS K (K.generateSecretKeyOTS (idu8 id)) (K.setKey id 0)

/-- Leaf `id` of the Merkle tree. -/
def otsLeaf (id : Nat) : Node := createLTree K (otsPublicKey K id) id

/-! ## The signer's state -/

/-- `mssnode`. -/
abbrev MssNode := Entry Node

structure Treehash where
  v : Node
  treestack : List MssNode
  finalized : Bool
  startleaf : Nat
  lowheight : Nat

structure SignerState where
  auth : Nat → Node
  keep : Nat → Node
  retain : Node
  instances : Nat → Treehash
  MSSPK : Node

structure KsnmssSig where
  id : Nat
  message : Vector UInt8 k2snMsglen
  sksum : Vector UInt8 (sklen * 8)
  pk : Vector Node k2snT
  auth : Vector Node hlength

/-! ## Key generation -/

/-- What key generation keeps of a node on its way up. -/
def keepNode (n : MssNode) (s : SignerState) : SignerState :=
  let s := if n.indx = 1 then { s with auth := Function.update s.auth n.height n.key } else s
  if n.indx = 3 then
    if n.height < hlength - 2 then
      let t := { s.instances n.height with
        v := n.key, finalized := true, lowheight := infy, treestack := [] }
      { s with instances := Function.update s.instances n.height t }
    else if n.height = hlength - 2 then { s with retain := n.key }
    else s
  else s

/-- The `while` loop: merge with the top of the stack while the heights agree. -/
def mergeLoop : List MssNode → MssNode → SignerState → List MssNode × SignerState
  | [], n, s => ([n], s)
  | t :: st, n, s =>
      if t.height = n.height then
        mergeLoop st ⟨hashPair K t.key n.key (n.indx / 2) (n.height + llength + 1),
          n.height + 1, n.indx / 2⟩ (keepNode n s)
      else (n :: t :: st, s)

/-- One iteration of `key_generation`. -/
def keyGenerationLeaf (p : List MssNode × SignerState) (id : Nat) :
    List MssNode × SignerState :=
  mergeLoop K p.1 ⟨otsLeaf K id, 0, id⟩ p.2

/-- The stack and the globals after the leaves below `n`. -/
def keyGenerationLoop (s : SignerState) (n : Nat) : List MssNode × SignerState :=
  (List.range n).foldl (keyGenerationLeaf K) ([], s)

/-- `memcpy(MSSPK.key,treestack[top].key,pklen)`. -/
def setPublicKey : List MssNode × SignerState → SignerState
  | ([], s) => s
  | (t :: _, s) => { s with MSSPK := t.key }

def keyGeneration (s : SignerState) : SignerState := setPublicKey (keyGenerationLoop K s usr)

/-! ## Signing -/

/-- The bits of a secret component, one a byte. -/
def skBits (sk : SkNode) : Vector UInt8 (sklen * 8) :=
  Vector.ofFn fun k =>
    (sk[k.val / 8]! &&& (1 <<< (k.val % 8).toUInt8)) >>> (k.val % 8).toUInt8

/-- `sksum`: the selected secret components, added bit by bit in bytes. -/
def sumSecrets (sk : Vector SkNode k2snT) : List Nat → Vector UInt8 (sklen * 8)
  | [] => Vector.replicate (sklen * 8) 0
  | k :: ks => ks.foldl (fun sksum le => Vector.zipWith (· + ·) sksum (skBits sk[le]!))
      (skBits sk[k]!)

/-- `while((id_t&1)==0){ tau++; id_t = id_t>>1; }` on 32 bits. -/
def tauLoop : Nat → Nat → Nat → Nat
  | 0, _, tau => tau
  | fuel + 1, idT, tau =>
      if idT &&& 1 = 0 then tauLoop fuel (idT >>> 1) (tau + 1) else tau

/-- `tau`: the number of trailing ones of `id`. -/
def signTau (id : Nat) : Nat := if id &&& 1 = 0 then 0 else tauLoop 32 (id + 1) 0

/-- Step 2: keep the left sibling that the path is about to lose. -/
def signKeep (id tau : Nat) (s : SignerState) : SignerState :=
  if (id >>> (tau + 1)) &&& 1 = 0 ∧ tau < hlength - 1 then
    { s with keep := Function.update s.keep tau (s.auth tau) }
  else s

/-- Step 3: an even leaf is the next leaf's sibling. -/
def signLeaf (id : Nat) (s : SignerState) : SignerState :=
  if id &&& 1 = 0 then
    { s with auth := Function.update s.auth 0 (createLTree K (otsPublicKey K id) id) }
  else s

/-- Step 4, first half: the node of height `tau` from the path and `keep`. -/
def signClimb (id tau : Nat) (s : SignerState) : SignerState :=
  let n := hashPair K (s.auth (tau - 1)) (s.keep (tau - 1)) (id >>> tau) (tau + llength)
  { s with auth := Function.update s.auth tau n }

/-- The right sibling of height `i` that has been prepared. -/
def poppedNode (s : SignerState) (i : Nat) : Node :=
  if i < hlength - 2 then (s.instances i).v
  else if i = hlength - 2 then s.retain
  else s.auth i

/-- Step 4: fetch the right siblings below `tau`. -/
def signPop (i : Nat) (s : SignerState) : SignerState :=
  { s with auth := Function.update s.auth i (poppedNode s i) }

/-- The instance of height `i` started on the next right sibling, if there is one. -/
def releaseTreehash (id i : Nat) (t : Treehash) : Treehash :=
  let tempp := id + 1 + 3 * (1 <<< i)
  if tempp < usr then
    { t with
      finalized := false, startleaf := tempp,
      lowheight := if t.treestack = [] then 0 else t.lowheight }
  else t

/-- Step 4: start the instances that were popped. -/
def signRelease (id i : Nat) (s : SignerState) : SignerState :=
  { s with instances := Function.update s.instances i (releaseTreehash id i (s.instances i)) }

/-- The instance to update: the least `lowheight` among those at work, the lowest on ties. -/
def selectInstance (instances : Nat → Treehash) : Option Nat :=
  let p := (List.range (hlength - 2)).foldl (fun (p : Nat × Nat) j =>
    if (instances j).lowheight ≠ infy ∧ (instances j).finalized = false
        ∧ p.1 > (instances j).lowheight then ((instances j).lowheight, j) else p) (infy, 0)
  if p.1 < infy then some p.2 else none

/-- The `while` loop of an instance: the remaining stack and the node that was built. -/
def treehashLoop : List MssNode → MssNode → List MssNode × MssNode
  | [], n => ([], n)
  | t :: st, n =>
      if n.height = t.height then
        treehashLoop st ⟨hashPair K t.key n.key (n.indx / 2) (n.height + 1 + llength),
          n.height + 1, n.indx / 2⟩
      else (t :: st, n)

/-- One leaf of work on the instance of height `minindx`. -/
def treehashUpdate (minindx : Nat) (t : Treehash) : Treehash :=
  let leaf := otsLeaf K t.startleaf
  if minindx = 0 then { t with v := leaf, finalized := true, lowheight := infy }
  else
    match t.treestack with
    | [] => { t with treestack := [⟨leaf, 0, t.startleaf⟩], startleaf := t.startleaf + 1 }
    | _ :: _ =>
        let (st, n) := treehashLoop K t.treestack ⟨leaf, 0, t.startleaf⟩
        if n.height = minindx then
          { t with v := n.key, finalized := true, lowheight := infy, treestack := [] }
        else
          { t with
            treestack := n :: st
            startleaf := t.startleaf + 1
            lowheight := if st = [] then n.height else t.lowheight }

/-- `updateiter` leaves of work; `break` when no instance is at work. -/
def signUpdates : Nat → SignerState → SignerState
  | 0, s => s
  | n + 1, s =>
      match selectInstance s.instances with
      | none => s
      | some j =>
          let t := treehashUpdate K j (s.instances j)
          signUpdates n { s with instances := Function.update s.instances j t }

/-- Steps 1 to 4: the path for the next signature, and the instances that start anew. -/
def signPath (id : Nat) (s : SignerState) : SignerState :=
  let tau := signTau id
  let s := signKeep id tau s
  let s := signLeaf K id s
  if tau > 0 then
    let s := signClimb K id tau s
    let s := (List.range tau).foldl (fun s i => signPop i s) s
    (List.range tau).foldl (fun s i => signRelease id i s) s
  else s

/-- The signer's globals after the signature for leaf `id`. -/
def signAdvance (id : Nat) (s : SignerState) : SignerState :=
  signUpdates K updateiter (signPath K id s)

/-- `ksnmss_sign`: the signature, and the globals afterwards. -/
def ksnmssSign (s : SignerState) (id : Nat) (ms : Vector UInt8 k2snMsglen) :
    Option (KsnmssSig × SignerState) := do
  let sk := K.generateSecretKeyOTS (idu8 id)
  let pk := generatePublicKeyOTS K sk (K.setKey id 0)
  let componentKey ← cff ms
  let sig : KsnmssSig :=
    { id := id, message := ms, sksum := sumSecrets sk componentKey, pk := pk,
      auth := Vector.ofFn fun h => s.auth h.val }
  some (sig, if id < usr then signAdvance K id s else s)

/-! ## Verification -/

/-- `convert_ring`: the nine-bit coefficients of a compressed ring element. -/
def convertRing (rg8 : Node) : RgElm :=
  Vector.ofFn fun n =>
    let b := fun j => (rg8[9 * (n.val / 8) + j]!).toUInt32
    match n.val % 8 with
    | 0 => b 0 ||| (b 1 &&& 0x1) <<< 8
    | 1 => b 1 >>> 1 ||| (b 2 &&& 0x3) <<< 7
    | 2 => b 2 >>> 2 ||| (b 3 &&& 0x7) <<< 6
    | 3 => b 3 >>> 3 ||| (b 4 &&& 0xF) <<< 5
    | 4 => b 4 >>> 4 ||| (b 5 &&& 0x1F) <<< 4
    | 5 => b 5 >>> 5 ||| (b 6 &&& 0x3F) <<< 3
    | 6 => b 6 >>> 6 ||| (b 7 &&& 0x7F) <<< 2
    | _ => b 7 >>> 7 ||| b 8 <<< 1

/-- The selected public components, added as integers and then reduced modulo 257. -/
def sumPublics (pk : Vector Node k2snT) : List Nat → RgElm
  | [] => Vector.replicate rglen 0
  | k :: ks =>
      (ks.foldl (fun sum le => Vector.zipWith (· + ·) sum (convertRing pk[le]!))
        (convertRing pk[k]!)).map (· % 257)

/-- `x[i][j] = sig->sksum[i*64+j]`. -/
def sksumMatrix (sksum : Vector UInt8 (sklen * 8)) : Vector (Vector Nat 64) 16 :=
  Vector.ofFn fun i => Vector.ofFn fun j => (sksum[i.val * 64 + j.val]!).toNat

/-- `verified`: the differences of two arrays, added up in 32 bits. -/
def verified {n : Nat} (x y : Vector UInt32 n) : UInt32 :=
  (List.finRange n).foldl (fun v i => v + (x.get i - y.get i)) 0

/-- One level of the path: `present` and the sibling in the order of the index. -/
def authStep (auth : Vector Node hlength) (p : Node × Nat) (i : Nat) : Node × Nat :=
  let (present, id) := p
  let (left, right) := if id % 2 = 0 then (present, auth[i]!) else (auth[i]!, present)
  (hashPair K left right (id / 2) (i + llength + 1), id / 2)

/-- The root recomputed from the L-tree of the signature and its path. -/
def authRoot (sig : KsnmssSig) (id : Nat) : Node :=
  ((List.range hlength).foldl (authStep K sig.auth) (createLTree K sig.pk id, id)).1

/-- The bytes of a node as the 32-bit integers they are promoted to. -/
def nodeInts (n : Node) : Vector UInt32 pklen := n.map (·.toUInt32)

/-- `ksnmss_verify` with the root `MSSPK`. -/
def ksnmssVerify (MSSPK : Node) (id : Nat) (ms : Vector UInt8 k2snMsglen) (sig : KsnmssSig) :
    Option Nat :=
  if sig.sksum.any (· > 131) then some 3
  else do
    let componentKey ← cff ms
    let pksum := K.gSWIFFT (sksumMatrix sig.sksum) (K.setKey id 0)
    let sum := sumPublics sig.pk componentKey
    if verified pksum sum ≠ 0 then some 2
    else if verified (nodeInts MSSPK) (nodeInts (authRoot K sig id)) = 0 then some 0
    else some 1

/-! ## Constant primitives, and a signer before key generation -/

/-- Primitives that ignore their input. -/
def constPrims : Prims where
  setKey := fun _ _ => Vector.replicate 16 (Vector.replicate 4 (Vector.replicate 16 0))
  SWIFFT := fun _ _ => Vector.replicate pklen 1
  gSWIFFT := fun _ _ => Vector.replicate rglen 0
  setRandomPad := fun _ _ => Vector.replicate sklen 0
  generateSecretKeyOTS := fun _ => Vector.replicate k2snT (Vector.replicate sklen 0)

/-- The zero-initialised globals. -/
def zeroSigner : SignerState where
  auth := fun _ => Vector.replicate pklen 0
  keep := fun _ => Vector.replicate pklen 0
  retain := Vector.replicate pklen 0
  instances := fun _ => ⟨Vector.replicate pklen 0, [], false, 0, 0⟩
  MSSPK := Vector.replicate pklen 0

end PqDtls.Ksnmss
