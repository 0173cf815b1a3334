import Acrylius.Plugins.Peers

/-! `org.acrylius.command/1`: run a named command on the computer (`command.rs`). -/
namespace Acrylius
open Proto Std

namespace Command

def cap : String := "org.acrylius.command/1"

structure CommandEntry where
  id : String
  name : String
  needsConfirm : Bool
deriving DecidableEq

instance : Wire CommandEntry where
  toValue c := .array [Wire.toValue c.id, Wire.toValue c.name, Wire.toValue c.needsConfirm]
  ofValue
    | .array vs => do
      let id ← Value.field vs 0
      let name ← Value.field vs 1
      let needsConfirm ← Value.field vs 2
      some { id, name, needsConfirm }
    | _ => none
  ofValue_toValue c := by simp [Value.field]

instance : Wire (List CommandEntry) := Wire.list CommandEntry

structure CommandList where
  commands : List CommandEntry
deriving DecidableEq

instance : Wire CommandList where
  toValue l := .array [Wire.toValue l.commands]
  ofValue
    | .array vs => do
      let commands ← Value.field vs 0
      some { commands }
    | _ => none
  ofValue_toValue l := by simp [Value.field]

structure RunRequest where
  id : String
deriving DecidableEq

instance : Wire RunRequest where
  toValue r := .array [Wire.toValue r.id]
  ofValue
    | .array vs => do
      let id ← Value.field vs 0
      some { id }
    | _ => none
  ofValue_toValue r := by simp [Value.field]

def manifest : PluginManifest where
  id := "org.acrylius.command"
  outgoing := [cap]
  incoming := [cap]
  requires := [.command]

end Command

open Command

structure CommandPlugin (X : Crates) where
  /-- What this machine is willing to run. -/
  catalog : List CommandEntry
  /-- What each peer told us it is willing to run. -/
  remote : ExtTreeMap DeviceId (List CommandEntry)
  pending : ExtTreeMap EffectToken (DeviceId × UInt32)

namespace CommandPlugin
variable {X : Crates}

def new (X : Crates) (catalog : List CommandEntry) : CommandPlugin X := ⟨catalog, ∅, ∅⟩

section Hooks
variable (p : CommandPlugin X) (cx : Cx) (peer : DeviceId)

def onPeerConnected : CommandPlugin X × Cx :=
  (p, if p.catalog = [] then cx
    else cx.send peer Command.cap "list" (X.encode (⟨p.catalog⟩ : CommandList)))

/-- The wire carries an id of the allowlist, never a command. -/
def onRun (env : Envelope) : CommandPlugin X × Cx × Except PluginError Unit :=
  match X.decode RunRequest env.body with
  | none => (p, cx, .error .badBody)
  | some req =>
    if !(p.catalog.any fun c => c.id = req.id) then (p, cx, .error .notAllowed)
    else ({ p with pending := p.pending.insert (cx.effect (.runCommand req.id)).2 (peer, env.id) },
      (cx.effect (.runCommand req.id)).1, .ok ())

def onList (env : Envelope) : CommandPlugin X × Cx × Except PluginError Unit :=
  (match X.decode CommandList env.body with
    | some list => { p with remote := p.remote.insert peer list.commands }
    | none => p, cx.emit (.plugin peer Command.cap "list" env.body), .ok ())

def onMessage (env : Envelope) : CommandPlugin X × Cx × Except PluginError Unit :=
  match env.ty with
  | "run" => p.onRun cx peer env
  | "list" => p.onList cx peer env
  | "started" | "output" | "exited" | "ok" =>
    (p, cx.emit (.plugin peer Command.cap env.ty env.body), .ok ())
  | other => (p, cx, .error (.unknownType other))

/-- A local `list` is answered from what the peer already told us. -/
def onLocal (ty : String) (body : Bytes) : CommandPlugin X × Cx × Except PluginError Unit :=
  match ty with
  | "run" => (p, cx.send peer Command.cap "run" body, .ok ())
  | "list" =>
    let list : CommandList := ⟨(p.remote[peer]?).getD []⟩
    (p, cx.emit (.plugin peer Command.cap "list" (X.encode list)), .ok ())
  | other => (p, cx, .error (.unknownType other))

def answer (who : DeviceId × UInt32) : EffectResult → Cx
  | .ok bytes => cx.sendReply who.1 Command.cap "exited" bytes who.2
  | .failed detail => cx.sendError X who.1 Command.cap who.2 "effect_failed" detail
  | .unsupported => cx.sendError X who.1 Command.cap who.2 "not_allowed" "cannot run commands"

def onEffectResult (token : EffectToken) (result : EffectResult) : CommandPlugin X × Cx :=
  match p.pending[token]? with
  | none => (p, cx)
  | some who => ({ p with pending := p.pending.erase token }, answer (X := X) cx who result)

end Hooks
end CommandPlugin

instance {X : Crates} : Plugin (CommandPlugin X) where
  manifest _ := Command.manifest
  onMessage p cx peer env := p.onMessage cx peer env
  onPeerConnected p cx peer := p.onPeerConnected cx peer
  onLocal p cx peer ty body := p.onLocal cx peer ty body
  onEffectResult p cx token result := p.onEffectResult cx token result

end Acrylius
