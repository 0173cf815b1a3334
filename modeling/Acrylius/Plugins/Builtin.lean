import Acrylius.Plugins.Clipboard
import Acrylius.Plugins.Command
import Acrylius.Plugins.Media
import Acrylius.Plugins.Ping
import Acrylius.Plugins.Session
import Acrylius.Plugins.Share
import Acrylius.Plugins.Touchpad
import Acrylius.Plugins.Wol

/-! The built-in plugins as one type: what stands for `Box<dyn Plugin>` on a host that registers
no others (`plugins/mod.rs`). -/
namespace Acrylius
open Proto Std

inductive Builtin (X : Crates) where
  | clipboard (p : ClipboardPlugin X)
  | command (p : CommandPlugin X)
  | media (p : MediaPlugin X)
  | ping (p : PingPlugin X)
  | session (p : SessionPlugin X)
  | share (p : SharePlugin X)
  | touchpad (p : TouchpadPlugin X)
  | wol (p : WolPlugin X)

namespace Builtin
variable {X : Crates} {α : Type}

/-- What a hook of one of the plugins returns, as a result of a boxed one. -/
def boxed {P : Type} (box : P → Builtin X) (r : P × α) : Builtin X × α := (box r.1, r.2)

end Builtin

open Builtin in
instance {X : Crates} : Plugin (Builtin X) where
  manifest
    | .clipboard p => Plugin.manifest p
    | .command p => Plugin.manifest p
    | .media p => Plugin.manifest p
    | .ping p => Plugin.manifest p
    | .session p => Plugin.manifest p
    | .share p => Plugin.manifest p
    | .touchpad p => Plugin.manifest p
    | .wol p => Plugin.manifest p
  onMessage
    | .clipboard p, cx, peer, env => boxed .clipboard (Plugin.onMessage p cx peer env)
    | .command p, cx, peer, env => boxed .command (Plugin.onMessage p cx peer env)
    | .media p, cx, peer, env => boxed .media (Plugin.onMessage p cx peer env)
    | .ping p, cx, peer, env => boxed .ping (Plugin.onMessage p cx peer env)
    | .session p, cx, peer, env => boxed .session (Plugin.onMessage p cx peer env)
    | .share p, cx, peer, env => boxed .share (Plugin.onMessage p cx peer env)
    | .touchpad p, cx, peer, env => boxed .touchpad (Plugin.onMessage p cx peer env)
    | .wol p, cx, peer, env => boxed .wol (Plugin.onMessage p cx peer env)
  onPeerConnected
    | .clipboard p, cx, peer => boxed .clipboard (Plugin.onPeerConnected p cx peer)
    | .command p, cx, peer => boxed .command (Plugin.onPeerConnected p cx peer)
    | .media p, cx, peer => boxed .media (Plugin.onPeerConnected p cx peer)
    | .ping p, cx, peer => boxed .ping (Plugin.onPeerConnected p cx peer)
    | .session p, cx, peer => boxed .session (Plugin.onPeerConnected p cx peer)
    | .share p, cx, peer => boxed .share (Plugin.onPeerConnected p cx peer)
    | .touchpad p, cx, peer => boxed .touchpad (Plugin.onPeerConnected p cx peer)
    | .wol p, cx, peer => boxed .wol (Plugin.onPeerConnected p cx peer)
  onPeerDisconnected
    | .clipboard p, cx, peer => boxed .clipboard (Plugin.onPeerDisconnected p cx peer)
    | .command p, cx, peer => boxed .command (Plugin.onPeerDisconnected p cx peer)
    | .media p, cx, peer => boxed .media (Plugin.onPeerDisconnected p cx peer)
    | .ping p, cx, peer => boxed .ping (Plugin.onPeerDisconnected p cx peer)
    | .session p, cx, peer => boxed .session (Plugin.onPeerDisconnected p cx peer)
    | .share p, cx, peer => boxed .share (Plugin.onPeerDisconnected p cx peer)
    | .touchpad p, cx, peer => boxed .touchpad (Plugin.onPeerDisconnected p cx peer)
    | .wol p, cx, peer => boxed .wol (Plugin.onPeerDisconnected p cx peer)
  onLocal
    | .clipboard p, cx, peer, ty, body => boxed .clipboard (Plugin.onLocal p cx peer ty body)
    | .command p, cx, peer, ty, body => boxed .command (Plugin.onLocal p cx peer ty body)
    | .media p, cx, peer, ty, body => boxed .media (Plugin.onLocal p cx peer ty body)
    | .ping p, cx, peer, ty, body => boxed .ping (Plugin.onLocal p cx peer ty body)
    | .session p, cx, peer, ty, body => boxed .session (Plugin.onLocal p cx peer ty body)
    | .share p, cx, peer, ty, body => boxed .share (Plugin.onLocal p cx peer ty body)
    | .touchpad p, cx, peer, ty, body => boxed .touchpad (Plugin.onLocal p cx peer ty body)
    | .wol p, cx, peer, ty, body => boxed .wol (Plugin.onLocal p cx peer ty body)
  onEffectResult
    | .clipboard p, cx, t, r => boxed .clipboard (Plugin.onEffectResult p cx t r)
    | .command p, cx, t, r => boxed .command (Plugin.onEffectResult p cx t r)
    | .media p, cx, t, r => boxed .media (Plugin.onEffectResult p cx t r)
    | .ping p, cx, t, r => boxed .ping (Plugin.onEffectResult p cx t r)
    | .session p, cx, t, r => boxed .session (Plugin.onEffectResult p cx t r)
    | .share p, cx, t, r => boxed .share (Plugin.onEffectResult p cx t r)
    | .touchpad p, cx, t, r => boxed .touchpad (Plugin.onEffectResult p cx t r)
    | .wol p, cx, t, r => boxed .wol (Plugin.onEffectResult p cx t r)
  onBulkListening
    | .clipboard p, cx, t, e => boxed .clipboard (Plugin.onBulkListening p cx t e)
    | .command p, cx, t, e => boxed .command (Plugin.onBulkListening p cx t e)
    | .media p, cx, t, e => boxed .media (Plugin.onBulkListening p cx t e)
    | .ping p, cx, t, e => boxed .ping (Plugin.onBulkListening p cx t e)
    | .session p, cx, t, e => boxed .session (Plugin.onBulkListening p cx t e)
    | .share p, cx, t, e => boxed .share (Plugin.onBulkListening p cx t e)
    | .touchpad p, cx, t, e => boxed .touchpad (Plugin.onBulkListening p cx t e)
    | .wol p, cx, t, e => boxed .wol (Plugin.onBulkListening p cx t e)
  onBulkFinished
    | .clipboard p, cx, t, ok, d => boxed .clipboard (Plugin.onBulkFinished p cx t ok d)
    | .command p, cx, t, ok, d => boxed .command (Plugin.onBulkFinished p cx t ok d)
    | .media p, cx, t, ok, d => boxed .media (Plugin.onBulkFinished p cx t ok d)
    | .ping p, cx, t, ok, d => boxed .ping (Plugin.onBulkFinished p cx t ok d)
    | .session p, cx, t, ok, d => boxed .session (Plugin.onBulkFinished p cx t ok d)
    | .share p, cx, t, ok, d => boxed .share (Plugin.onBulkFinished p cx t ok d)
    | .touchpad p, cx, t, ok, d => boxed .touchpad (Plugin.onBulkFinished p cx t ok d)
    | .wol p, cx, t, ok, d => boxed .wol (Plugin.onBulkFinished p cx t ok d)
  onTick
    | .clipboard p, cx => boxed .clipboard (Plugin.onTick p cx)
    | .command p, cx => boxed .command (Plugin.onTick p cx)
    | .media p, cx => boxed .media (Plugin.onTick p cx)
    | .ping p, cx => boxed .ping (Plugin.onTick p cx)
    | .session p, cx => boxed .session (Plugin.onTick p cx)
    | .share p, cx => boxed .share (Plugin.onTick p cx)
    | .touchpad p, cx => boxed .touchpad (Plugin.onTick p cx)
    | .wol p, cx => boxed .wol (Plugin.onTick p cx)

end Acrylius
