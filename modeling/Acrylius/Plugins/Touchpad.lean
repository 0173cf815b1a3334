import Acrylius.Plugins.Peers

/-! `org.acrylius.touchpad/1`: replay a phone's fingers onto a desktop's virtual touchpad
(`touchpad.rs`). -/
namespace Acrylius
open Proto Std

namespace Touchpad

def cap : String := "org.acrylius.touchpad/1"

/-- A frame naming more fingers is refused rather than truncated. -/
def maxPoints : ℕ := 10

structure Begin where
  wMm : UInt16
  hMm : UInt16
deriving DecidableEq

instance : Wire Begin where
  toValue b := .array [Wire.toValue b.wMm, Wire.toValue b.hMm]
  ofValue
    | .array vs => do
      let wMm ← Value.field vs 0
      let hMm ← Value.field vs 1
      some { wMm, hMm }
    | _ => none
  ofValue_toValue b := by simp [Value.field]

structure Point where
  id : UInt8
  x : UInt16
  y : UInt16
deriving DecidableEq

instance : Wire Point where
  toValue p := .array [Wire.toValue p.id, Wire.toValue p.x, Wire.toValue p.y]
  ofValue
    | .array vs => do
      let id ← Value.field vs 0
      let x ← Value.field vs 1
      let y ← Value.field vs 2
      some { id, x, y }
    | _ => none
  ofValue_toValue p := by simp [Value.field]

instance : Wire (List Point) := Wire.list Point

def Point.touch (p : Point) : TouchPoint := ⟨p.id.toNat, p.x.toNat, p.y.toNat⟩

structure Frame where
  seq : UInt32
  /-- Every finger down right now, not a delta. -/
  points : List Point
  tUs : Option UInt32
deriving DecidableEq

instance : Wire Frame where
  toValue f := .record [Wire.toValue f.seq, Wire.toValue f.points] (Wire.toValue f.tUs)
  ofValue
    | .array vs => do
      let seq ← Value.field vs 0
      let points ← Value.field vs 1
      let tUs ← Value.optField vs 2
      some { seq, points, tUs }
    | _ => none
  ofValue_toValue f := by
    obtain ⟨seq, points, tUs⟩ := f
    rcases Value.record_cases rfl [Wire.toValue seq, Wire.toValue points] tUs with
      ⟨rfl, heq⟩ | heq <;> simp [heq, Value.field, Value.optField]

def manifest : PluginManifest where
  id := "org.acrylius.touchpad"
  outgoing := [cap]
  incoming := [cap]
  requires := [.touchpad]

end Touchpad

structure TouchpadPlugin (X : Crates) where
  order : ℕ
  /-- The peer whose stream is currently open, if any. -/
  owner : Option DeviceId

namespace TouchpadPlugin
variable {X : Crates}

def default (X : Crates) : TouchpadPlugin X := ⟨0, none⟩

section Hooks
variable (p : TouchpadPlugin X) (cx : Cx) (peer : DeviceId)

/-- Says that the capability can be served, not only understood. -/
def onPeerConnected : TouchpadPlugin X × Cx :=
  (p, if cx.serves .touchpad then cx.send peer Touchpad.cap "avail" [] else cx)

def operate (op : TouchpadOp) (owner : Option DeviceId) : TouchpadPlugin X × Cx :=
  (⟨p.order + 1, owner⟩, (cx.effect (.touchpad (p.order + 1) op)).1)

/-- Only the stream's own peer disconnecting lifts it. -/
def onPeerDisconnected : TouchpadPlugin X × Cx :=
  if p.owner = some peer then p.operate cx .end none else (p, cx)

/-- What a message asks of the device and whose the stream is then, or why not. -/
def opOf (env : Envelope) : Except PluginError (TouchpadOp × Option DeviceId) :=
  match env.ty with
  | "begin" =>
    match X.decode Touchpad.Begin env.body with
    | none => .error .badBody
    | some b =>
      if b.wMm = 0 ∨ b.hMm = 0 then .error .badBody
      else .ok (.begin b.wMm.toNat b.hMm.toNat, some peer)
  | "frame" =>
    match X.decode Touchpad.Frame env.body with
    | none => .error .badBody
    | some f =>
      if Touchpad.maxPoints < f.points.length then .error .tooLarge
      else .ok (.frame (f.points.map (·.touch)), p.owner)
  | "end" => .ok (.end, none)
  | other => .error (.unknownType other)

def onMessage (env : Envelope) : TouchpadPlugin X × Cx × Except PluginError Unit :=
  if env.ty = "avail" then (p, cx.emit (.plugin peer Touchpad.cap "avail" []), .ok ())
  else if !cx.serves .touchpad then (p, cx, .error .notAllowed)
  else match p.opOf peer env with
    | .error e => (p, cx, .error e)
    | .ok (op, owner) => let (p, cx) := p.operate cx op owner; (p, cx, .ok ())

def onLocal (ty : String) (body : Bytes) : TouchpadPlugin X × Cx × Except PluginError Unit :=
  match ty with
  | "begin" | "frame" | "end" => (p, cx.send peer Touchpad.cap ty body, .ok ())
  | other => (p, cx, .error (.unknownType other))

end Hooks
end TouchpadPlugin

instance {X : Crates} : Plugin (TouchpadPlugin X) where
  manifest _ := Touchpad.manifest
  onMessage p cx peer env := p.onMessage cx peer env
  onPeerConnected p cx peer := p.onPeerConnected cx peer
  onPeerDisconnected p cx peer := p.onPeerDisconnected cx peer
  onLocal p cx peer ty body := p.onLocal cx peer ty body

end Acrylius
