import Acrylius.Plugins.Peers

/-! `org.acrylius.clipboard/1`: share the clipboard (`clipboard.rs`). -/
namespace Acrylius
open Proto Std

namespace Clipboard

def cap : String := "org.acrylius.clipboard/1"

def textPlain : String := "text/plain;charset=utf-8"

/-- Anything larger is refused rather than truncated. -/
def maxInline : ℕ := 128 * 1024

structure ClipboardSet where
  mime : String
  data : Bytes
  /-- SHA-256 of `data`. -/
  hash : Bytes
deriving DecidableEq

instance : Wire ClipboardSet where
  toValue s := .array [Wire.toValue s.mime, Wire.toValue s.data, Wire.toValue s.hash]
  ofValue
    | .array vs => do
      let mime ← Value.field vs 0
      let data ← Value.field vs 1
      let hash ← Value.field vs 2
      some { mime, data, hash }
    | _ => none
  ofValue_toValue s := by simp [Value.field]

def hash (X : Crates) (data : Bytes) : Bytes := (X.sha256 data).bytes

def carrying (X : Crates) (data : Bytes) : ClipboardSet := ⟨textPlain, data, hash X data⟩

def manifest : PluginManifest where
  id := "org.acrylius.clipboard"
  outgoing := [cap]
  incoming := [cap]
  requires := [.clipboard]

structure Directions where
  /-- Forward what happens here to peers. -/
  send : Bool
  /-- Apply what peers send. -/
  receive : Bool
deriving DecidableEq

end Clipboard

open Clipboard

structure ClipboardPlugin (X : Crates) where
  directions : Directions
  connected : List DeviceId
  /-- The last value this side put on its own clipboard. -/
  lastLocal : Option Bytes
  /-- The last value a peer sent us. -/
  lastRemote : Option Bytes
  pending : ExtTreeMap EffectToken (Option (DeviceId × UInt32))

namespace ClipboardPlugin
variable {X : Crates}

def new (X : Crates) (directions : Directions) : ClipboardPlugin X := ⟨directions, [], none, none, ∅⟩

/-- `ClipboardPlugin::default`: both directions on. -/
def default (X : Crates) : ClipboardPlugin X := new X ⟨true, true⟩

section Hooks
variable (p : ClipboardPlugin X) (cx : Cx) (peer : DeviceId)

/-- Whether a locally observed value is an echo. The remote slot is one-shot. -/
def takeEcho (h : Bytes) : ClipboardPlugin X × Bool :=
  if p.lastRemote = some h then ({ p with lastRemote := none }, true)
  else (p, p.lastLocal = some h)

def offer (body : Bytes) (deliberate : Bool) : ClipboardPlugin X × Cx × Except PluginError Unit :=
  if !deliberate && !p.directions.send then (p, cx, .ok ())
  else if maxInline < body.length then (p, cx, .error .tooLarge)
  else match p.takeEcho (hash X body) with
    | (p, true) => (p, cx, .ok ())
    | (p, false) =>
      ({ p with lastLocal := some (hash X body) },
        cx.tell p.connected none cap "set" (X.encode (carrying X body)), .ok ())

def onPeerConnected : ClipboardPlugin X × Cx :=
  ({ p with connected := Peers.join p.connected peer }, cx)

def onPeerDisconnected : ClipboardPlugin X × Cx :=
  ({ p with connected := Peers.leave p.connected peer }, cx)

/-- The answer to our own `get`: shown, and never written to the local clipboard. -/
def onAnswer (env : Envelope) : ClipboardPlugin X × Cx × Except PluginError Unit :=
  match X.decode ClipboardSet env.body with
  | none => (p, cx, .error .badBody)
  | some msg =>
    if maxInline < msg.data.length then (p, cx, .error .tooLarge)
    else if msg.hash ≠ hash X msg.data then (p, cx, .error .badBody)
    else (p, cx.emit (.plugin peer cap "set" env.body), .ok ())

def onSet (env : Envelope) : ClipboardPlugin X × Cx × Except PluginError Unit :=
  match X.decode ClipboardSet env.body with
  | none => (p, cx, .error .badBody)
  | some msg =>
    if !p.directions.receive then (p, cx, .error .notAllowed)
    else if maxInline < msg.data.length then (p, cx, .error .tooLarge)
    else if msg.mime ≠ textPlain then (p, cx, .error .notAllowed)
    else if msg.hash ≠ hash X msg.data then (p, cx, .error .badBody)
    else ({ p with lastRemote := some (hash X msg.data) },
      ((cx.emit (.plugin peer cap "set" env.body)).effect (.clipboardWrite msg.mime msg.data)).1,
      .ok ())

def onMessage (env : Envelope) : ClipboardPlugin X × Cx × Except PluginError Unit :=
  match env.ty with
  | "set" => if env.re.isSome then p.onAnswer cx peer env else p.onSet cx peer env
  | "get" =>
    ({ p with pending := p.pending.insert (cx.effect .clipboardRead).2 (some (peer, env.id)) },
      (cx.effect .clipboardRead).1, .ok ())
  | other => (p, cx, .error (.unknownType other))

def onLocal (ty : String) (body : Bytes) : ClipboardPlugin X × Cx × Except PluginError Unit :=
  match ty with
  | "changed" => p.offer cx body false
  | "push" => p.offer cx body true
  | "get" => (p, cx.send peer cap "get" [], .ok ())
  | other => (p, cx, .error (.unknownType other))

def answer (who : DeviceId × UInt32) (result : EffectResult) : ClipboardPlugin X × Cx :=
  match result with
  | .ok data =>
    ({ p with lastLocal := some (hash X data) },
      cx.sendReply who.1 cap "set" (X.encode (carrying X data)) who.2)
  | .failed detail => (p, cx.sendError X who.1 cap who.2 "effect_failed" detail)
  | .unsupported => (p, cx.sendError X who.1 cap who.2 "not_allowed" "no clipboard here")

def onEffectResult (token : EffectToken) (result : EffectResult) : ClipboardPlugin X × Cx :=
  match p.pending[token]? with
  | none => (p, cx)
  | some none => ({ p with pending := p.pending.erase token }, cx)
  | some (some who) => answer { p with pending := p.pending.erase token } cx who result

end Hooks
end ClipboardPlugin

instance {X : Crates} : Plugin (ClipboardPlugin X) where
  manifest _ := Clipboard.manifest
  onMessage p cx peer env := p.onMessage cx peer env
  onPeerConnected p cx peer := p.onPeerConnected cx peer
  onPeerDisconnected p cx peer := p.onPeerDisconnected cx peer
  onLocal p cx peer ty body := p.onLocal cx peer ty body
  onEffectResult p cx token result := p.onEffectResult cx token result

end Acrylius
