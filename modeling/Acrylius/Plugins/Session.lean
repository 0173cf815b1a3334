import Acrylius.Plugins.Peers

/-! `org.acrylius.session/1`: lock and unlock a desktop session (`session.rs`). -/
namespace Acrylius
open Proto Std

namespace SessionLock

def cap : String := "org.acrylius.session/1"

/-- The host's answer to `querySession`, and the payload of `state`. -/
structure SessionState where
  locked : Bool
  sessionId : String
  kind : String
  active : Bool
deriving DecidableEq

instance : Wire SessionState where
  toValue s := .array [Wire.toValue s.locked, Wire.toValue s.sessionId, Wire.toValue s.kind,
    Wire.toValue s.active]
  ofValue
    | .array vs => do
      let locked ← Value.field vs 0
      let sessionId ← Value.field vs 1
      let kind ← Value.field vs 2
      let active ← Value.field vs 3
      some { locked, sessionId, kind, active }
    | _ => none
  ofValue_toValue s := by simp [Value.field]

def manifest : PluginManifest where
  id := "org.acrylius.session"
  outgoing := [cap]
  incoming := [cap]
  requires := [.session]

/-- What answers a request: `result` for lock and unlock, `state` for a query. A broadcast is
what nobody asked for. -/
inductive Reply where
  | result
  | state
  | broadcast
deriving DecidableEq

def Reply.ty : Reply → String
  | .result => "result"
  | .state => "state"
  | .broadcast => "broadcast"

/-- What a request was, so its answer can be routed back. -/
structure Pending where
  peer : DeviceId
  request : UInt32
  reply : Reply
deriving DecidableEq

end SessionLock

open SessionLock

structure SessionPlugin (X : Crates) where
  pending : ExtTreeMap EffectToken Pending
  connected : List DeviceId
  last : Option SessionState

namespace SessionPlugin
variable {X : Crates}

def default (X : Crates) : SessionPlugin X := ⟨∅, [], none⟩

section Hooks
variable (p : SessionPlugin X) (cx : Cx) (peer : DeviceId)

def broadcastStateExcept (state : SessionState) (alreadyTold : Option DeviceId) : Cx :=
  cx.tell p.connected alreadyTold cap "state" (X.encode state)

def onPeerConnected : SessionPlugin X × Cx :=
  ({ p with connected := Peers.join p.connected peer }, match p.last with
    | some state => cx.send peer cap "state" (X.encode state)
    | none => cx)

def onPeerDisconnected : SessionPlugin X × Cx :=
  ({ p with connected := Peers.leave p.connected peer }, cx)

def ask (e : Effect) (who : Pending) : SessionPlugin X × Cx × Except PluginError Unit :=
  ({ p with pending := p.pending.insert (cx.effect e).2 who }, (cx.effect e).1, .ok ())

def onMessage (env : Envelope) : SessionPlugin X × Cx × Except PluginError Unit :=
  match env.ty with
  | "query" => p.ask cx .querySession { peer, request := env.id, reply := .state }
  | "lock" => p.ask cx .lockSession { peer, request := env.id, reply := .result }
  | "unlock" => p.ask cx .unlockSession { peer, request := env.id, reply := .result }
  | "state" | "result" => (p, cx.emit (.plugin peer cap env.ty env.body), .ok ())
  | other => (p, cx, .error (.unknownType other))

/-- The peer of a `notify` is ignored: it asks for a broadcast. -/
def onLocal (ty : String) : SessionPlugin X × Cx × Except PluginError Unit :=
  match ty with
  | "notify" => p.ask cx .querySession { peer, request := 0, reply := .broadcast }
  | "query" | "lock" | "unlock" => (p, cx.send peer cap ty [], .ok ())
  | other => (p, cx, .error (.unknownType other))

/-- A reading the host made: kept and told around only when it differs from the last. -/
def refresh (state : SessionState) (alreadyTold : Option DeviceId) : SessionPlugin X × Cx :=
  if p.last = some state then (p, cx)
  else ({ p with last := some state }, p.broadcastStateExcept cx state alreadyTold)

def answer (who : Pending) (result : EffectResult) : SessionPlugin X × Cx :=
  match result, who.reply with
  | .ok bytes, .broadcast =>
    match X.decode SessionState bytes with
    | some state => p.refresh cx state none
    | none => (p, cx)
  | .ok bytes, .state =>
    let (p, cx) := match X.decode SessionState bytes with
      | some state => p.refresh cx state (some who.peer)
      | none => (p, cx)
    (p, cx.sendReply who.peer cap who.reply.ty bytes who.request)
  | .ok bytes, .result => (p, cx.sendReply who.peer cap who.reply.ty bytes who.request)
  | .failed _, .broadcast => (p, cx)
  | .failed detail, _ => (p, cx.sendError X who.peer cap who.request "effect_failed" detail)
  | .unsupported, .broadcast => (p, cx)
  | .unsupported, _ =>
    (p, cx.sendError X who.peer cap who.request "not_allowed" "no session on this device")

def onEffectResult (token : EffectToken) (result : EffectResult) : SessionPlugin X × Cx :=
  match p.pending[token]? with
  | none => (p, cx)
  | some who => answer { p with pending := p.pending.erase token } cx who result

end Hooks
end SessionPlugin

instance {X : Crates} : Plugin (SessionPlugin X) where
  manifest _ := SessionLock.manifest
  onMessage p cx peer env := p.onMessage cx peer env
  onPeerConnected p cx peer := p.onPeerConnected cx peer
  onPeerDisconnected p cx peer := p.onPeerDisconnected cx peer
  onLocal p cx peer ty _ := p.onLocal cx peer ty
  onEffectResult p cx token result := p.onEffectResult cx token result

end Acrylius
