import Acrylius.Core.Plugin

/-! `org.acrylius.ping/1`: the smallest possible plugin (`ping.rs`). -/
namespace Acrylius
open Proto

namespace Ping

def cap : String := "org.acrylius.ping/1"

/-- No effects at all, so every host keeps this plugin. -/
def manifest : PluginManifest where
  id := "org.acrylius.ping"
  outgoing := [cap]
  incoming := [cap]
  requires := []

end Ping

structure PingPlugin (X : Crates) where
  /-- Pongs seen since construction. -/
  pongs : ℕ

namespace PingPlugin
variable {X : Crates} (p : PingPlugin X) (cx : Cx) (peer : DeviceId)

def default (X : Crates) : PingPlugin X := ⟨0⟩

def onMessage (env : Envelope) : PingPlugin X × Cx × Except PluginError Unit :=
  match env.ty with
  | "ping" => (p, cx.reply peer env "pong" env.body, .ok ())
  | "pong" => (⟨p.pongs + 1⟩, cx.emit (.plugin peer Ping.cap "pong" env.body), .ok ())
  | other => (p, cx, .error (.unknownType other))

def onLocal (ty : String) (body : Bytes) : PingPlugin X × Cx × Except PluginError Unit :=
  if ty = "ping" then (p, cx.send peer Ping.cap "ping" body, .ok ())
  else (p, cx, .error (.unknownType ty))

end PingPlugin

instance {X : Crates} : Plugin (PingPlugin X) where
  manifest _ := Ping.manifest
  onMessage p cx peer env := p.onMessage cx peer env
  onLocal p cx peer ty body := p.onLocal cx peer ty body

end Acrylius
