import Acrylius.Core.Plugin
import Mathlib.Data.List.MinMax
import Mathlib.Data.Prod.Lex

/-! The core's tables and what is read off them (`core.rs`, first part). -/
namespace Acrylius
open Proto Std

def maxSeen : ℕ := 256

def bulkDialWaitMs : ℕ := 30000

/-- A dial in flight: target, routes not yet tried, whether a person asked. -/
structure PeerDial where
  peer : DeviceId
  routes : List (TransportId × String)
  byHand : Bool

structure PendingLink where
  attrs : LinkAttrs
  deadline : ℕ

structure HandshakingLink (X : Crates) where
  hs : Handshake X
  attrs : LinkAttrs
  deadline : ℕ
  /-- Set when we dialled with a specific peer in mind. -/
  expect : Option DeviceId
  pairingFlow : Bool
  /-- Where we dialled, when we are the one who dialled to pair. -/
  via : Option (TransportId × String)
  /-- Routes not tried yet, kept until the session is up. -/
  fallback : Option PeerDial

structure UpLink (X : Crates) where
  session : Session X
  peer : DeviceId
  /-- Every bulk key is derived from this. -/
  handshakeHash : Bytes
  bulk : BulkSupport
  maxMessage : ℕ
  /-- When something last arrived over this link. -/
  lastRecvMs : ℕ
  transport : TransportId
  kind : TransportKind
  /-- Our `capsOut` ∩ their `capsIn`. -/
  canSend : List String
  /-- Their `capsOut` ∩ our `capsIn`. -/
  canRecv : List String

inductive LinkState (X : Crates) where
  | pending (p : PendingLink)
  | handshaking (h : HandshakingLink X)
  | up (u : UpLink X)

/-- A pairing handshake that finished and is waiting on a person. -/
structure AwaitingConfirm where
  link : LinkId
  record : PeerRecord
  sas : String
  via : Option (TransportId × String)
deriving DecidableEq

structure PairingWindow where
  deadline : ℕ
  awaiting : Option AwaitingConfirm
deriving DecidableEq

structure PendingPairing where
  name : String
  fingerprint : Fingerprint
  sas : String

structure Sighting where
  routes : Routes
  name : String
  pairing : Bool

structure Core (X : Crates) (P : Type) where
  identity : Identity X
  config : CoreConfig
  peers : ExtTreeMap DeviceId PeerRecord
  links : ExtTreeMap LinkId (LinkState X)
  addrs : ExtTreeMap DeviceId Routes
  seen : ExtTreeMap Fingerprint Sighting
  pairing : Option PairingWindow
  pairQuietUntil : ℕ
  pendingPairDials : ExtTreeMap DialToken (TransportId × String)
  pendingPeerDials : ExtTreeMap DialToken (ℕ × PeerDial)
  dialTrouble : ExtTreeMap DeviceId String
  reconnectAt : Option ℕ
  plugins : List P
  effectOwner : ExtTreeMap EffectToken ℕ
  bulkOwner : ExtTreeMap TransferId ℕ
  nextTransfer : ℕ
  bulkWait : ExtTreeMap TransferId ℕ
  capsOut : List String
  capsIn : List String
  capsServed : List String
  serves : EffectSet
  nextToken : ℕ
  nextDial : ℕ
  nextMsgId : UInt32
  wallMs : ℕ
  pluginWake : Option ℕ

variable {X : Crates} {P : Type}

namespace Core

/-- Everything `UiEvent.pairingSas` carries, readable at any moment. -/
def pendingPairing (c : Core X P) : Option PendingPairing := do
  let w ← c.pairing
  let a ← w.awaiting
  let fingerprint ← a.record.fingerprint X
  return { name := a.record.name, fingerprint, sas := a.sas }

/-- Why an inbound pairing handshake will not be answered, or `none` to answer it. -/
def whyNotPair (c : Core X P) (nowMs : ℕ) : Option String :=
  if !c.config.acceptPairRequests then some "this device is not accepting pairing requests"
  else match c.pairing with
    | some ⟨_, some _⟩ => some "already confirming a pairing with somebody else"
    | some ⟨_, none⟩ => some "a pairing is already in progress"
    | none =>
      if nowMs < c.pairQuietUntil then some "too soon after the last pairing attempt" else none

def beginPairing (c : Core X P) (nowMs : ℕ) : Core X P :=
  { c with pairing := some ⟨nowMs + c.config.pairingWindowMs, none⟩ }

def endPairing (c : Core X P) (nowMs : ℕ) (denied : Bool) : Core X P :=
  { c with
    pairing := none
    pairQuietUntil := nowMs +
      if denied then c.config.pairDeniedCooldownMs else c.config.pairCooldownMs }

def recordOf (c : Core X P) (fp : Fingerprint) : Option PeerRecord :=
  (c.peers.toList.find? fun e => e.2.fingerprint X == some fp).map (·.2)

def upLinks (c : Core X P) (peer : DeviceId) : List (LinkId × UpLink X) :=
  c.links.toList.filterMap fun
    | (l, .up u) => if u.peer = peer then some (l, u) else none
    | _ => none

/-- The order in which links are preferred: most recently heard from, then the lower
transport, then the newer link. -/
def rank (e : LinkId × UpLink X) : ℕ ×ₗ ℕᵒᵈ ×ₗ ℕ :=
  toLex (e.2.lastRecvMs, toLex (OrderDual.toDual e.2.transport, e.1))

def bestLink (c : Core X P) (peer : DeviceId) : Option (LinkId × UpLink X) :=
  (c.upLinks peer).argmax rank

def bestLinkTransport (c : Core X P) (peer : DeviceId) : Option TransportId :=
  (c.bestLink peer).map (·.2.transport)

/-- Any up link with a side channel, not just the freshest. -/
def bulkSupportFor (c : Core X P) (peer : DeviceId) : Option BulkSupport :=
  (c.upLinks peer).foldl
    (fun best e => if best = some .sideChannel then best else some e.2.bulk) none

def handshakeHashFor (c : Core X P) (peer : DeviceId) : Option Bytes :=
  (c.bestLink peer).map (·.2.handshakeHash)

/-- The first link that says anything about the peer decides; then dials in flight. -/
def peerState (c : Core X P) (peer : DeviceId) : PeerState :=
  match c.links.toList.findSome? fun
    | (_, .up u) => if u.peer = peer then some PeerState.reachable else none
    | (_, .handshaking h) => if h.expect = some peer then some PeerState.connecting else none
    | (_, .pending _) => none
  with
  | some st => st
  | none =>
    if c.pendingPeerDials.toList.any (fun e => e.2.2.peer = peer) then .connecting
    else .unreachable

def nextDeadline (c : Core X P) : Option ℕ :=
  let consider (best : Option ℕ) (d : ℕ) : Option ℕ := some (best.elim d (min · d))
  let best := c.reconnectAt.elim c.pluginWake (consider c.pluginWake)
  let best := c.pendingPeerDials.toList.foldl (fun b e => consider b e.2.1) best
  let best := c.pairing.elim best fun w => consider best w.deadline
  let best := c.bulkWait.toList.foldl (fun b e => consider b e.2) best
  c.links.toList.foldl (fun b e => match e.2 with
    | .pending p => consider b p.deadline
    | .handshaking h => consider b h.deadline
    | .up _ => b) best

def hello (c : Core X P) : Hello where
  v := wireVersion
  tsMs := c.wallMs
  deviceId := c.identity.deviceId.str
  name := c.config.name
  platform := c.config.platform
  capsOut := c.capsOut
  capsIn := c.capsIn

def peerBlob (X : Crates) (record : PeerRecord) : Action :=
  .persist ("peer/" ++ record.deviceId) (some (X.encode record)) .secret

end Core

/-- One call of `Core::handle` in progress: the core and the actions pushed so far.
`sends` is the history of the messages handed to `dispatchSend`, each with the state it found,
and `dials` that of the dials made for a peer; nothing reads them back. -/
structure Exec (X : Crates) (P : Type) where
  core : Core X P
  actions : List Action
  sends : List (Core X P × PendingSend)
  dials : List (DeviceId × DialToken)

namespace Exec

def push (s : Exec X P) (a : Action) : Exec X P := { s with actions := s.actions ++ [a] }

def ui (s : Exec X P) (e : UiEvent) : Exec X P := s.push (.ui e)

end Exec
end Acrylius
