import Acrylius.Plugins.Peers

/-! `org.acrylius.wol/1`: wake a sleeping computer with a magic packet, or ask one that is awake
to do it (`wol.rs`). -/
namespace Acrylius
open Proto Std

namespace Wol

def cap : String := "org.acrylius.wol/1"

/-- What a phone needs in order to wake this machine later. -/
structure WolConfig where
  macs : List String
  broadcast : String
  port : UInt16
  lastIpv4 : String
deriving DecidableEq

instance : Wire WolConfig where
  toValue c := .array [Wire.toValue c.macs, Wire.toValue c.broadcast, Wire.toValue c.port,
    Wire.toValue c.lastIpv4]
  ofValue
    | .array vs => do
      let macs ← Value.field vs 0
      let broadcast ← Value.field vs 1
      let port ← Value.field vs 2
      let lastIpv4 ← Value.field vs 3
      some { macs, broadcast, port, lastIpv4 }
    | _ => none
  ofValue_toValue c := by simp [Value.field]

structure RelayRequest where
  mac : String
deriving DecidableEq

instance : Wire RelayRequest where
  toValue r := .array [Wire.toValue r.mac]
  ofValue
    | .array vs => do
      let mac ← Value.field vs 0
      some { mac }
    | _ => none
  ofValue_toValue r := by simp [Value.field]

def manifest : PluginManifest where
  id := "org.acrylius.wol"
  outgoing := [cap]
  incoming := [cap]
  requires := [.wol]

def isHexDigit (c : Char) : Bool :=
  c.isDigit || ('a' ≤ c && c ≤ 'f') || ('A' ≤ c && c ≤ 'F')

def normalizeMac (m : String) : String := String.ofList ((m.toList.filter isHexDigit).map Char.toLower)

end Wol

open Wol

structure WolPlugin (X : Crates) where
  config : WolConfig
  /-- MACs this machine will relay a wake to. -/
  allowlist : List String
  pending : ExtTreeMap EffectToken (DeviceId × UInt32)

namespace WolPlugin
variable {X : Crates}

def new (X : Crates) (config : WolConfig) (allowlist : List String) : WolPlugin X :=
  ⟨config, allowlist, ∅⟩

section Hooks
variable (p : WolPlugin X) (cx : Cx) (peer : DeviceId)

/-- Sent unprompted: by the time the phone wants it, this machine is asleep. -/
def onPeerConnected : WolPlugin X × Cx :=
  (p, if p.config.macs = [] then cx else cx.send peer Wol.cap "config" (X.encode p.config))

/-- Allowlisted only. -/
def onRelay (env : Envelope) : WolPlugin X × Cx × Except PluginError Unit :=
  match X.decode RelayRequest env.body with
  | none => (p, cx, .error .badBody)
  | some req =>
    let e : Effect := .sendMagicPacket [req.mac] [p.config.broadcast] p.config.port.toNat
    if (normalizeMac req.mac).length ≠ 12 then (p, cx, .error .badBody)
    else if !(p.allowlist.any fun m => normalizeMac m = normalizeMac req.mac) then
      (p, cx, .error .notAllowed)
    else ({ p with pending := p.pending.insert (cx.effect e).2 (peer, env.id) }, (cx.effect e).1,
      .ok ())

def onMessage (env : Envelope) : WolPlugin X × Cx × Except PluginError Unit :=
  match env.ty with
  | "ok" | "err" | "config" => (p, cx.emit (.plugin peer Wol.cap env.ty env.body), .ok ())
  | "relay" => p.onRelay cx peer env
  | other => (p, cx, .error (.unknownType other))

def onLocal (ty : String) (body : Bytes) : WolPlugin X × Cx × Except PluginError Unit :=
  match ty with
  | "relay" => (p, cx.send peer Wol.cap "relay" body, .ok ())
  | other => (p, cx, .error (.unknownType other))

def answer (who : DeviceId × UInt32) : EffectResult → Cx
  | .ok _ => cx.sendReply who.1 Wol.cap "ok" [] who.2
  | .failed detail => cx.sendError X who.1 Wol.cap who.2 "effect_failed" detail
  | .unsupported => cx.sendError X who.1 Wol.cap who.2 "not_allowed" "cannot send packets"

def onEffectResult (token : EffectToken) (result : EffectResult) : WolPlugin X × Cx :=
  match p.pending[token]? with
  | none => (p, cx)
  | some who => ({ p with pending := p.pending.erase token }, answer (X := X) cx who result)

end Hooks
end WolPlugin

instance {X : Crates} : Plugin (WolPlugin X) where
  manifest _ := Wol.manifest
  onMessage p cx peer env := p.onMessage cx peer env
  onPeerConnected p cx peer := p.onPeerConnected cx peer
  onLocal p cx peer ty body := p.onLocal cx peer ty body
  onEffectResult p cx token result := p.onEffectResult cx token result

end Acrylius
