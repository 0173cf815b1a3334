import Acrylius.Proto.Messages

/-! The transport vocabulary, the peer record and the Event / Action seam between the core
and its host (`link.rs`, `peer.rs`, `config.rs`, `vocab.rs`). Counters and clock readings are
natural numbers. -/
namespace Acrylius
open Proto Std

abbrev LinkId := ℕ
abbrev TransportId := ℕ
abbrev EffectToken := ℕ
abbrev TransferId := ℕ
abbrev DialToken := ℕ

/-- `LinkId::new`: the transport in the high bits, its own counter in the 48 low ones. -/
def LinkId.new (transport : TransportId) (counter : ℕ) : LinkId :=
  transport * 2 ^ 48 + counter % 2 ^ 48

/-- Where a device can be reached: at most one address per transport. -/
abbrev Routes := ExtTreeMap TransportId String

namespace Routes

def set (r : Routes) (transport : TransportId) (addr : String) : Routes := r.insert transport addr

/-- Forget this transport's address if it is the one given, and whether that happened. -/
def forget (r : Routes) (transport : TransportId) (addr : String) : Routes × Bool :=
  if r[transport]? = some addr then (r.erase transport, true) else (r, false)

/-- Routes to try, best first: ascending `TransportId`. -/
def inPreferenceOrder (r : Routes) : List (TransportId × String) := r.toList

/-- Take everything `other` knows, letting it win where both have an answer. -/
def mergeFrom (r other : Routes) : Routes :=
  other.toList.foldl (fun acc e => acc.insert e.1 e.2) r

end Routes

inductive TransportKind where
  | tcpLan
  | unixLoopback
  | bleGatt
  | custom (name : String)
deriving DecidableEq

inductive LatencyClass where
  | loopback
  | lan
  | ble
  | wan
deriving DecidableEq

inductive BulkSupport where
  | none
  | sideChannel
deriving DecidableEq

structure LinkAttrs where
  transport : TransportId
  kind : TransportKind
  /-- Largest whole message this link accepts. -/
  maxMessage : ℕ
  reliable : Bool
  ordered : Bool
  latency : LatencyClass
  bulk : BulkSupport
deriving DecidableEq

namespace LinkAttrs

def tcpLan (transport : TransportId) : LinkAttrs where
  transport := transport
  kind := .tcpLan
  maxMessage := 1048576
  reliable := true
  ordered := true
  latency := .lan
  bulk := .sideChannel

def ble (transport : TransportId) : LinkAttrs where
  transport := transport
  kind := .bleGatt
  maxMessage := 16384
  reliable := true
  ordered := true
  latency := .ble
  bulk := .none

/-- Whether a Noise session on this link may keep its nonce counter internally. -/
def supportsStatefulCipher (a : LinkAttrs) : Bool := a.reliable && a.ordered

end LinkAttrs

inductive LinkDownReason where
  | closed
  | transport (detail : String)
  | protocol (code : ErrorCode)
deriving DecidableEq

structure CoreConfig where
  name : String
  platform : String
  pairingWindowMs : ℕ
  acceptPairRequests : Bool
  pairCooldownMs : ℕ
  pairDeniedCooldownMs : ℕ
  reconnectEveryMs : ℕ
  handshakeTimeoutMs : ℕ
  dialTimeoutMs : ℕ

/-- `CoreConfig::default`; the dial timeout is twice `DIAL_TIMEOUT_MS`. -/
def CoreConfig.default : CoreConfig where
  name := "acrylius"
  platform := "unknown"
  pairingWindowMs := 120000
  acceptPairRequests := true
  pairCooldownMs := 30000
  pairDeniedCooldownMs := 300000
  reconnectEveryMs := 10000
  handshakeTimeoutMs := 15000
  dialTimeoutMs := 12000

structure PeerRecord where
  deviceId : String
  publicKey : Bytes
  name : String
  platform : String
  sessionPsk : Bytes
  greatestSeen : ℕ
  capsOut : List String
  capsIn : List String
deriving DecidableEq

instance : Wire PeerRecord where
  toValue r := .array [Wire.toValue r.deviceId, Wire.toValue r.publicKey, Wire.toValue r.name,
    Wire.toValue r.platform, Wire.toValue r.sessionPsk, Wire.toValue r.greatestSeen,
    Wire.toValue r.capsOut, Wire.toValue r.capsIn]
  ofValue
    | .array vs => do
      let deviceId ← Value.field vs 0
      let publicKey ← Value.field vs 1
      let name ← Value.field vs 2
      let platform ← Value.field vs 3
      let sessionPsk ← Value.field vs 4
      let greatestSeen ← Value.field vs 5
      let capsOut ← Value.field vs 6
      let capsIn ← Value.field vs 7
      some { deviceId, publicKey, name, platform, sessionPsk, greatestSeen, capsOut, capsIn }
    | _ => none
  ofValue_toValue r := by simp [Value.field]

namespace PeerRecord
variable (X : Crates) (r : PeerRecord)

def publicKeyArray : Option PublicKey := Key32.ofBytes r.publicKey

def sessionPskArray : Option Key32 := Key32.ofBytes r.sessionPsk

def fingerprint : Option Fingerprint := r.publicKeyArray.map (Fingerprint.of X)

def id : Option DeviceId := r.publicKeyArray.map (DeviceId.of X)

end PeerRecord

inductive PeerState where
  | unreachable
  | connecting
  | reachable
deriving DecidableEq

structure Now where
  monotonicMs : ℕ
  wallMs : ℕ

/-- The half of the transfer range the core mints from. -/
def mintedHere : ℕ := 2 ^ 63

structure DiscoveredPeer where
  fingerprint : Option Fingerprint
  name : String
  addr : String
  pairing : Bool

inductive MediaAction where
  | play | pause | playPause | next | previous | stop
  | seek (offsetMs : ℤ)
  | setPosition (ms : ℕ)
  | setVolume (percent : ℕ)
deriving DecidableEq

structure TouchPoint where
  id : ℕ
  x : ℕ
  y : ℕ
deriving DecidableEq

inductive TouchpadOp where
  | begin (wMm hMm : ℕ)
  | frame (points : List TouchPoint)
  | end
deriving DecidableEq

inductive Effect where
  | lockSession
  | unlockSession
  | querySession
  | clipboardRead
  | clipboardWrite (mime : String) (data : Bytes)
  | listCommands
  | runCommand (id : String)
  | mediaQuery
  | mediaControl (player : String) (action : MediaAction)
  | sendMagicPacket (macs dests : List String) (port : ℕ)
  | touchpad (order : ℕ) (op : TouchpadOp)
  | custom (ns verb : String) (payload : Bytes)
deriving DecidableEq

inductive EffectKind where
  | session
  | clipboard
  | command
  | wol
  | media
  | share
  | touchpad
  | custom
deriving DecidableEq

abbrev EffectSet := EffectKind → Bool

def EffectSet.new (kinds : List EffectKind) : EffectSet := fun k => k ∈ kinds

inductive EffectResult where
  | ok (value : Bytes)
  | failed (reason : String)
  | unsupported

inductive LocalCommand where
  | requestPairing (transport : TransportId) (addr : String)
  | confirmPairing (accept : Bool)
  | setPeerAddress (peer : DeviceId) (transport : TransportId) (addr : String)
  | connect (peer : DeviceId)
  | reconsiderRoutes
  | disconnect (peer : DeviceId)
  | revoke (peer : DeviceId)
  | plugin (peer : DeviceId) (cap ty : String) (body : Bytes)

inductive Event where
  | linkUp (link : LinkId) (attrs : LinkAttrs) (dial : Option DialToken)
  | linkRecv (link : LinkId) (msg : Bytes)
  | linkDown (link : LinkId) (reason : LinkDownReason)
  | dialFailed (dial : DialToken) (reason : String)
  | discovered (transport : TransportId) (peer : DiscoveredPeer)
  | undiscovered (transport : TransportId) (addr : String)
  | tick
  | bulkListening (transfer : TransferId) (endpoint : String)
  | bulkStarted (transfer : TransferId)
  | bulkFinished (transfer : TransferId) (ok : Bool) (detail : String)
  | localCommand (cmd : LocalCommand)
  | effectDone (token : EffectToken) (result : EffectResult)

inductive UiEvent where
  | pairingSas (name : String) (fingerprint : Fingerprint) (sas : String)
  | pairingComplete (peer : DeviceId) (name : String)
  | revoked (peer : DeviceId)
  | pairingFailed (reason : String)
  | discovered (fingerprint : Fingerprint) (name addr : String) (transport : TransportId)
      (pairing : Bool)
  | undiscovered (fingerprint : Fingerprint)
  | peerReachable (peer : DeviceId) (name : String)
  | peerUnreachable (peer : DeviceId)
  | plugin (peer : DeviceId) (cap ty : String) (body : Bytes)
  | error (peer : Option DeviceId) (code : ErrorCode) (detail : String)
deriving DecidableEq

inductive Sensitivity where
  | secret
  | ordinary
deriving DecidableEq

/-- What the core asks its host to do. The core never emits `Advertise` or `Discover`. -/
inductive Action where
  | dial (transport : TransportId) (addr : String) (dial : DialToken)
  | linkSend (link : LinkId) (msg : Bytes)
  | close (link : LinkId) (reason : LinkDownReason)
  | effect (token : EffectToken) (effect : Effect)
  | persist (key : String) (value : Option Bytes) (sensitivity : Sensitivity)
  | bulkListen (transfer : TransferId) (offeredAs : ℕ) (key : Bytes) (expectBytes : ℕ)
  | bulkSend (transfer : TransferId) (endpoint : String) (key : Bytes)
  | bulkCancel (transfer : TransferId)
  | ui (e : UiEvent)
deriving DecidableEq

structure Outcome where
  actions : List Action
  nextDeadlineMs : Option ℕ

end Acrylius
