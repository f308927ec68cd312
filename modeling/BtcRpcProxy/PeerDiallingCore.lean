import BtcRpcProxy.ResponseCore

/-! How `BitcoinPeerConnection::connect` reaches a peer, and the Tor settings of `create_state`. -/

namespace BtcRpcProxy.PeerDialling

/-- `rsplit_once`. -/
def rsplitOnce (separator : Char) : List Char → Option (List Char × List Char)
  | [] => none
  | char :: rest =>
      match rsplitOnce separator rest with
      | some (before, after) => some (char :: before, after)
      | none => if char = separator then some ([], rest) else none

def hostOf (addr : String) : List Char :=
  match rsplitOnce ':' addr.toList with
  | some (host, _) => host
  | none => addr.toList

def endsWith (host : List Char) (suffix : String) : Bool := suffix.toList.isSuffixOf host

structure TorState (SocketAddr : Type) where
  proxy : SocketAddr
  only : Bool

structure NetworkParams where
  defaultPeerPort : UInt16

structure Config (SocketAddr : Type) where
  torProxy : Option SocketAddr
  torOnly : Bool
  i2pProxy : Option SocketAddr

structure State (SocketAddr : Type) where
  tor : Option (TorState SocketAddr)
  i2pProxy : Option SocketAddr

/-- What a connection is opened to; a name in `addr` is resolved by the proxy where there is one. -/
inductive Dial (SocketAddr : Type)
  | direct (addr : String)
  | proxied (proxy : SocketAddr) (addr : String)
  deriving DecidableEq

section

variable {SocketAddr : Type}

def createState (config : Config SocketAddr) : State SocketAddr :=
  { tor := config.torProxy.map fun proxy => { proxy, only := config.torOnly },
    i2pProxy := config.i2pProxy }

def withPort (network : NetworkParams) (addr : String) : String :=
  if addr.toList.contains ':' then addr else addr ++ ":" ++ toString network.defaultPeerPort.toNat

def connect (state : State SocketAddr) (networkParams : Except AnyhowError NetworkParams) (addr : String) :
    Except AnyhowError (Dial SocketAddr) :=
  match networkParams with
  | .error error => .error error
  | .ok network =>
      let addr := withPort network addr
      let host := hostOf addr
      if endsWith host ".i2p" then
        match state.i2pProxy with
        | some proxy => .ok (.proxied proxy addr)
        | none => .error ⟨["no i2p proxy configured, cannot reach " ++ addr]⟩
      else
        match state.tor with
        | some tor =>
            if tor.only || endsWith host ".onion" then .ok (.proxied tor.proxy addr)
            else .ok (.direct addr)
        | none => .ok (.direct addr)

end

end BtcRpcProxy.PeerDialling
