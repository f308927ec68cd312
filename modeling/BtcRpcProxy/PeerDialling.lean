import BtcRpcProxy.PeerDiallingCore

/-!
Which peers are dialled without a proxy. `.i2p` peers never are; for the others everything
rests on `tor_proxy` being set, since `tor_only` is dropped with it.
-/

namespace BtcRpcProxy.PeerDialling

/-! Splitting an address. -/

theorem rsplitOnce_none {separator : Char} {chars : List Char} (absent : separator ∉ chars) :
    rsplitOnce separator chars = none := by
  induction chars with
  | nil => rfl
  | cons char rest ih =>
      simp only [List.mem_cons, not_or] at absent
      rw [rsplitOnce, ih absent.2, if_neg fun same => absent.1 same.symm]

theorem rsplitOnce_append {separator : Char} {after : List Char} (absent : separator ∉ after)
    (before : List Char) : rsplitOnce separator (before ++ separator :: after) = some (before, after) := by
  induction before with
  | nil => simp [rsplitOnce, rsplitOnce_none absent]
  | cons char rest ih => simp [rsplitOnce, ih]

theorem colon_notMem_port (port : Nat) : ':' ∉ (toString port).toList := by
  intro member
  have isDigit : (':').isDigit = true := by
    refine Nat.isDigit_of_mem_toDigits (b := 10) (n := port) (by decide) (by decide) ?_
    rwa [← Nat.toList_repr]
  exact absurd isDigit (by decide)

theorem hostOf_withPort (network : NetworkParams) (addr : String) :
    hostOf (withPort network addr) = hostOf addr := by
  unfold withPort
  split
  · rfl
  · rename_i absent
    have noColon : ':' ∉ addr.toList := by simpa using absent
    have split : (addr ++ ":" ++ toString network.defaultPeerPort.toNat).toList =
        addr.toList ++ ':' :: (toString network.defaultPeerPort.toNat).toList := by
      simp
    rw [hostOf, hostOf, split, rsplitOnce_append (colon_notMem_port _), rsplitOnce_none noColon]

/-! What may be dialled. -/

section

variable {SocketAddr : Type}

/-- What the proxies promise of an address that is dialled, or is not. -/
structure KeepsPrivate (config : Config SocketAddr) (addr : String)
    (dialled : Except AnyhowError (Dial SocketAddr)) : Prop where
  i2p : endsWith (hostOf addr) ".i2p" = true → ∀ dial, dialled = .ok dial →
    ∃ proxy target, config.i2pProxy = some proxy ∧ dial = .proxied proxy target
  onion : endsWith (hostOf addr) ".onion" = true → ∀ target, dialled ≠ .ok (.direct target)
  torOnly : config.torOnly = true → endsWith (hostOf addr) ".i2p" = false →
    ∀ target, dialled ≠ .ok (.direct target)

variable {config : Config SocketAddr} {network : NetworkParams} {addr : String}

theorem connect_i2p (isI2p : endsWith (hostOf addr) ".i2p" = true) :
    connect (createState config) (.ok network) addr =
      match config.i2pProxy with
      | some proxy => .ok (.proxied proxy (withPort network addr))
      | none => .error ⟨["no i2p proxy configured, cannot reach " ++ withPort network addr]⟩ := by
  cases isProxy : config.i2pProxy <;> simp [connect, createState, hostOf_withPort, isI2p, isProxy]

theorem connect_direct_iff (config : Config SocketAddr) (network : NetworkParams)
    (notI2p : endsWith (hostOf addr) ".i2p" = false) :
    (∃ target, connect (createState config) (.ok network) addr = .ok (.direct target)) ↔
      ∀ proxy, config.torProxy = some proxy →
        config.torOnly = false ∧ endsWith (hostOf addr) ".onion" = false := by
  simp only [connect, createState, hostOf_withPort, notI2p, Bool.false_eq_true, if_false]
  cases config.torProxy with
  | none => simp
  | some proxy => cases config.torOnly <;> cases endsWith (hostOf addr) ".onion" <;> simp

theorem keepsPrivate_of_i2p (isI2p : endsWith (hostOf addr) ".i2p" = true) :
    KeepsPrivate config addr (connect (createState config) (.ok network) addr) := by
  rw [connect_i2p isI2p]
  cases isProxy : config.i2pProxy with
  | none => constructor <;> simp
  | some proxy =>
      constructor
      · rintro _ dial isDial
        exact ⟨proxy, withPort network addr, isProxy, (Except.ok.inj isDial).symm⟩
      · simp
      · simp

theorem keepsPrivate_iff_of_not_i2p (notI2p : endsWith (hostOf addr) ".i2p" = false) :
    KeepsPrivate config addr (connect (createState config) (.ok network) addr) ↔
      config.torProxy ≠ none ∨ (endsWith (hostOf addr) ".onion" = false ∧ config.torOnly = false) := by
  have direct := connect_direct_iff config network notI2p
  constructor
  · intro keeps
    cases isTor : config.torProxy with
    | some proxy => simp
    | none =>
        -- Without a Tor proxy the address is dialled directly, whatever it is.
        obtain ⟨target, isDirect⟩ := direct.mpr (by simp [isTor])
        right
        constructor
        · rw [← Bool.not_eq_true]
          intro isOnion
          exact keeps.onion isOnion target isDirect
        · rw [← Bool.not_eq_true]
          intro isOnly
          exact keeps.torOnly isOnly notI2p target isDirect
  · intro condition
    refine ⟨by simp [notI2p], ?_, ?_⟩
    · intro isOnion target isDirect
      rcases condition with hasTor | ⟨notOnion, _⟩
      · obtain ⟨proxy, isProxy⟩ := Option.ne_none_iff_exists'.mp hasTor
        obtain ⟨_, notOnion⟩ := direct.mp ⟨target, isDirect⟩ proxy isProxy
        simp [isOnion] at notOnion
      · simp [isOnion] at notOnion
    · intro isOnly _ target isDirect
      rcases condition with hasTor | ⟨_, notOnly⟩
      · obtain ⟨proxy, isProxy⟩ := Option.ne_none_iff_exists'.mp hasTor
        obtain ⟨notOnly, _⟩ := direct.mp ⟨target, isDirect⟩ proxy isProxy
        simp [isOnly] at notOnly
      · simp [isOnly] at notOnly

/-- A Tor proxy is what all but `.i2p` addresses need: without one each is dialled directly. -/
theorem keepsPrivate_iff (config : Config SocketAddr) (networkParams : Except AnyhowError NetworkParams)
    (addr : String) :
    KeepsPrivate config addr (connect (createState config) networkParams addr) ↔
      (∃ error, networkParams = .error error) ∨ config.torProxy ≠ none ∨
        endsWith (hostOf addr) ".i2p" = true ∨
        (endsWith (hostOf addr) ".onion" = false ∧ config.torOnly = false) := by
  cases networkParams with
  | error error =>
      refine iff_of_true ?_ (Or.inl ⟨error, rfl⟩)
      constructor <;> simp [connect]
  | ok network =>
      cases isI2p : endsWith (hostOf addr) ".i2p" with
      | true => exact iff_of_true (keepsPrivate_of_i2p isI2p) (by simp)
      | false => simp [keepsPrivate_iff_of_not_i2p isI2p]

end

/-! Without `tor_proxy`. -/

def withoutTor (torOnly : Bool) : Config String := { torProxy := none, torOnly, i2pProxy := none }

def mainnet : NetworkParams := { defaultPeerPort := 8333 }

/-- `tor_only` is lost, and an onion address is looked up in the DNS. -/
theorem dialled_without_tor :
    connect (createState (withoutTor true)) (.ok mainnet) "203.0.113.9:8333" =
        .ok (.direct "203.0.113.9:8333") ∧
      ¬KeepsPrivate (withoutTor true) "203.0.113.9:8333"
        (connect (createState (withoutTor true)) (.ok mainnet) "203.0.113.9:8333") ∧
      connect (createState (withoutTor false)) (.ok mainnet) "expyuzz4wqqyqhjn.onion" =
        .ok (.direct "expyuzz4wqqyqhjn.onion:8333") ∧
      ¬KeepsPrivate (withoutTor false) "expyuzz4wqqyqhjn.onion"
        (connect (createState (withoutTor false)) (.ok mainnet) "expyuzz4wqqyqhjn.onion") := by
  refine ⟨by decide, ?_, by decide, ?_⟩
  · intro keeps
    exact keeps.torOnly rfl (by decide) "203.0.113.9:8333" (by decide)
  · intro keeps
    exact keeps.onion (by decide) "expyuzz4wqqyqhjn.onion:8333" (by decide)

end BtcRpcProxy.PeerDialling
