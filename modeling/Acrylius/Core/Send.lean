import Acrylius.Core.State

/-! What a plugin's intentions become: encrypted frames, bulk channels, effects and wake-ups
(`core.rs`, `dispatch_send` to `drain_cx`, `dispatch_bulk`). -/
namespace Acrylius
open Proto

variable {X : Crates} {P : Type}

def PendingSend.envelope (m : PendingSend) (id : UInt32) : Envelope where
  v := wireVersion
  id := id
  re := m.re
  cap := m.cap
  ty := m.ty
  body := m.body
  flags := 0
  bulk := none

namespace Exec

def dispatchSend (s : Exec X P) (m : PendingSend) : Exec X P :=
  let s := { s with sends := s.sends ++ [(s.core, m)] }
  match s.core.bestLink m.peer with
  | none => s.ui (.peerUnreachable m.peer)
  | some (link, u) =>
    if m.cap ∉ u.canSend then
      s.ui (.error (some u.peer) .capNotNegotiated (m.cap ++ " is not negotiated with this peer"))
    else
      let id := s.core.nextMsgId + 1
      let s := { s with core.nextMsgId := id }
      match u.session.encrypt (X.encode (m.envelope id)) with
      | .ok (ct, session) =>
        let s := { s with core.links := s.core.links.insert link (.up { u with session }) }
        let msg := Frame.join .transport ct
        -- Measured after sealing: the cipher has already moved on when this refuses.
        if u.maxMessage < msg.length then
          s.ui (.error (some u.peer) .tooLarge (Nat.repr msg.length ++
            " bytes does not fit this link, which takes " ++ Nat.repr u.maxMessage))
        else s.push (.linkSend link msg)
      | .error e => s.ui (.error (some u.peer) .internal e.toString)

def sendError (s : Exec X P) (peer : DeviceId) (req : Envelope) (code : ErrorCode) : Exec X P :=
  s.dispatchSend
    { peer, cap := req.cap, ty := "err", body := X.encode code.asStr, re := some req.id }

def withBulkKey (s : Exec X P) (peer : DeviceId) (transfer : TransferId) (offerer : DeviceId)
    (numbered : ℕ) (start : Exec X P → Bytes → Exec X P) : Exec X P :=
  if s.core.bulkSupportFor peer = some .none then
    let s := s.ui (.error (some peer) .notAllowed ("transport for connection to " ++ peer.str ++
      " does not support file transfers. change transports and try again."))
    let s := s.push (.bulkCancel transfer)
    { s with core.bulkOwner := s.core.bulkOwner.erase transfer }
  else match s.core.handshakeHashFor peer with
    | none => s.ui (.error (some peer) .notAllowed ("no session with " ++ peer.str ++
        " to derive a transfer key from"))
    | some hash => start s (Bulk.key X hash offerer.str numbered)

/-- The key is derived from the offerer's device id and its own number for the transfer. -/
def dispatchBulk (s : Exec X P) (nowMs : ℕ) : BulkRequest → Exec X P
  | .cancel transfer => s.push (.bulkCancel transfer)
  | .listen peer transfer offeredAs expectBytes =>
    s.withBulkKey peer transfer peer offeredAs fun s key =>
      let s := { s with core.bulkWait := s.core.bulkWait.insert transfer (nowMs + bulkDialWaitMs) }
      s.push (.bulkListen transfer offeredAs key expectBytes)
  | .send peer transfer endpoint =>
    s.withBulkKey peer transfer s.core.identity.deviceId transfer fun s key =>
      s.push (.bulkSend transfer endpoint key)

def rememberOwner (s : Exec X P) (cx : Cx) (idx : ℕ) : Exec X P :=
  let effectOwner := cx.effects.foldl (fun o e => o.insert e.1 idx) s.core.effectOwner
  let bulkOwner := cx.bulk.foldl (fun o b => match b with
    | .listen _ transfer _ _ | .send _ transfer _ => o.insert transfer idx
    | .cancel _ => o) s.core.bulkOwner
  { s with core := { s.core with effectOwner, bulkOwner } }

def drainCx (s : Exec X P) (cx : Cx) : Exec X P :=
  let s := cx.ui.foldl ui s
  let s := cx.effects.foldl (fun s e => s.push (.effect e.1 e.2)) s
  let s := cx.bulk.foldl (fun s b => s.dispatchBulk cx.nowMs b) s
  let s := cx.sends.foldl dispatchSend s
  match cx.wakeAt with
  | none => s
  | some w => { s with core.pluginWake := some (s.core.pluginWake.elim w (min · w)) }

def cx (s : Exec X P) (nowMs : ℕ) : Cx :=
  Cx.new nowMs s.core.nextToken s.core.nextTransfer s.core.serves

def callPlugin {α : Type} (s : Exec X P) (idx : ℕ) (cx : Cx) (hook : P → Cx → P × Cx × α) :
    Exec X P × Option α :=
  match s.core.plugins[idx]? with
  | none => (s, none)
  | some p =>
    let (p', cx', a) := hook p cx
    let core := { s.core with
      plugins := s.core.plugins.set idx p'
      nextToken := cx'.nextToken
      nextTransfer := cx'.nextTransfer }
    ((({ s with core }).rememberOwner cx' idx).drainCx cx', some a)

/-- One hook of every plugin over one shared context. Ownership is not recorded here. -/
def callAllPlugins (s : Exec X P) (nowMs : ℕ) (hook : P → Cx → P × Cx) : Exec X P :=
  let (plugins, cx') := forEachPlugin hook s.core.plugins (s.cx nowMs)
  let core := { s.core with
    plugins
    nextToken := cx'.nextToken
    nextTransfer := cx'.nextTransfer }
  ({ s with core }).drainCx cx'

end Exec
end Acrylius
