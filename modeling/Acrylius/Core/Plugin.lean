import Acrylius.Core.Noise

/-! The plugin seam: a plugin only accumulates intentions in a `Cx`, which the core turns into
actions after the plugin returns (`plugin.rs`). -/
namespace Acrylius
open Proto

structure PluginManifest where
  id : String
  /-- Capabilities this side may send. -/
  outgoing : List String
  /-- Capabilities this side can handle. -/
  incoming : List String
  requires : List EffectKind

/-- Matching includes the major version. -/
def handles (m : PluginManifest) (cap : String) : Bool := cap ∈ m.incoming || cap ∈ m.outgoing

inductive PluginError where
  | badBody
  | notAllowed
  | unknownType (ty : String)
  | tooLarge
  | internal (detail : String)
deriving DecidableEq

namespace PluginError

def code : PluginError → ErrorCode
  | .badBody => .badBody
  | .notAllowed => .notAllowed
  | .unknownType _ => .unknownType
  | .tooLarge => .tooLarge
  | .internal _ => .internal

def toString : PluginError → String
  | .badBody => "body did not decode"
  | .notAllowed => "refused by policy"
  | .unknownType ty => "unknown message type " ++ ty.quote
  | .tooLarge => "too large"
  | .internal detail => detail

end PluginError

structure PendingSend where
  peer : DeviceId
  cap : String
  ty : String
  body : Bytes
  re : Option UInt32
deriving DecidableEq

/-- A plugin asking for a side channel; the key is the core's to supply. -/
inductive BulkRequest where
  | listen (peer : DeviceId) (transfer : TransferId) (offeredAs expectBytes : ℕ)
  | send (peer : DeviceId) (transfer : TransferId) (endpoint : String)
  | cancel (transfer : TransferId)
deriving DecidableEq

structure Cx where
  nowMs : ℕ
  nextToken : ℕ
  nextTransfer : ℕ
  sends : List PendingSend
  effects : List (EffectToken × Effect)
  ui : List UiEvent
  wakeAt : Option ℕ
  bulk : List BulkRequest
  serves : EffectSet
  peerBulk : Option BulkSupport

namespace Cx

def new (nowMs nextToken nextTransfer : ℕ) (serves : EffectSet) : Cx where
  nowMs := nowMs
  nextToken := nextToken
  nextTransfer := nextTransfer
  sends := []
  effects := []
  ui := []
  wakeAt := none
  bulk := []
  serves := serves
  peerBulk := none

def forPeerLink (cx : Cx) (bulk : Option BulkSupport) : Cx := { cx with peerBulk := bulk }

/-- Unknown counts as yes: only a link that positively said `None` is refused. -/
def peerCanCarryBulk (cx : Cx) : Bool := cx.peerBulk != some .none

def send (cx : Cx) (peer : DeviceId) (cap ty : String) (body : Bytes) : Cx :=
  { cx with sends := cx.sends ++ [{ peer, cap, ty, body, re := none }] }

def reply (cx : Cx) (peer : DeviceId) (req : Envelope) (ty : String) (body : Bytes) : Cx :=
  { cx with sends := cx.sends ++ [{ peer, cap := req.cap, ty, body, re := some req.id }] }

def sendReply (cx : Cx) (peer : DeviceId) (cap ty : String) (body : Bytes) (re : UInt32) : Cx :=
  { cx with sends := cx.sends ++ [{ peer, cap, ty, body, re := some re }] }

def sendError (X : Crates) (cx : Cx) (peer : DeviceId) (cap : String) (re : UInt32)
    (code message : String) : Cx :=
  cx.sendReply peer cap "err" (X.encode ({ code, message } : ErrorBody)) re

def effect (cx : Cx) (e : Effect) : Cx × EffectToken :=
  let t := cx.nextToken + 1
  ({ cx with nextToken := t, effects := cx.effects ++ [(t, e)] }, t)

/-- A transfer id valid on this device; the top bit marks plugin-minted ids. -/
def newTransfer (cx : Cx) : Cx × TransferId :=
  ({ cx with nextTransfer := cx.nextTransfer + 1 }, mintedHere ||| (cx.nextTransfer + 1))

def emit (cx : Cx) (e : UiEvent) : Cx := { cx with ui := cx.ui ++ [e] }

def bulkListen (cx : Cx) (peer : DeviceId) (transfer : TransferId) (offeredAs expectBytes : ℕ) :
    Cx :=
  { cx with bulk := cx.bulk ++ [.listen peer transfer offeredAs expectBytes] }

def bulkSend (cx : Cx) (peer : DeviceId) (transfer : TransferId) (endpoint : String) : Cx :=
  { cx with bulk := cx.bulk ++ [.send peer transfer endpoint] }

def bulkCancel (cx : Cx) (transfer : TransferId) : Cx :=
  { cx with bulk := cx.bulk ++ [.cancel transfer] }

def wakeIn (cx : Cx) (ms : ℕ) : Cx :=
  let at' := cx.nowMs + ms
  { cx with wakeAt := some (cx.wakeAt.elim at' (min · at')) }

end Cx

/-- The protocol half of a feature. The core holds `Box<dyn Plugin>`s; here `P` is the type
of all of them. -/
class Plugin (P : Type) where
  manifest : P → PluginManifest
  onMessage : P → Cx → DeviceId → Envelope → P × Cx × Except PluginError Unit
  onPeerConnected : P → Cx → DeviceId → P × Cx := fun p cx _ => (p, cx)
  onPeerDisconnected : P → Cx → DeviceId → P × Cx := fun p cx _ => (p, cx)
  onLocal : P → Cx → DeviceId → String → Bytes → P × Cx × Except PluginError Unit :=
    fun p cx _ ty _ => (p, cx, .error (.unknownType ty))
  onEffectResult : P → Cx → EffectToken → EffectResult → P × Cx := fun p cx _ _ => (p, cx)
  onBulkListening : P → Cx → TransferId → String → P × Cx := fun p cx _ _ => (p, cx)
  onBulkFinished : P → Cx → TransferId → Bool → String → P × Cx := fun p cx _ _ _ => (p, cx)
  onTick : P → Cx → P × Cx := fun p cx => (p, cx)

def forEachPlugin {P : Type} (hook : P → Cx → P × Cx) : List P → Cx → List P × Cx
  | [], cx => ([], cx)
  | p :: ps, cx =>
    let (p', cx') := hook p cx
    let (ps', cx'') := forEachPlugin hook ps cx'
    (p' :: ps', cx'')

end Acrylius
