import Acrylius.Core.Handshaking
import Acrylius.Lib.Table

/-! Local commands, timers, the builder and the single entry point (`core.rs`, `on_local` to
`CoreBuilder`). -/
namespace Acrylius
open Proto Std

variable {X : Crates} {P : Type}

namespace Exec

/-- Offer a machine discovery has seen, on the best route known for it. -/
def announce (s : Exec X P) (fp : Fingerprint) : Exec X P :=
  match s.core.seen[fp]? with
  | none => s
  | some sighting =>
    match sighting.routes.inPreferenceOrder with
    | [] => s
    | (transport, addr) :: _ =>
      if (s.core.recordOf fp).isSome then s
      else s.ui (.discovered fp sighting.name addr transport sighting.pairing)

variable [Plugin P]

/-- Close every established link of a peer, telling the plugins as each one goes. -/
def closeUpLinks (s : Exec X P) (nowMs : ℕ) (peer : DeviceId) (reason : LinkDownReason) :
    Exec X P :=
  (s.core.upLinks peer).foldl (fun s e => (s.push (.close e.1 reason)).onLinkDown nowMs e.1) s

def handleRevoke (s : Exec X P) (nowMs : ℕ) (peer : DeviceId) : Exec X P :=
  let fingerprint := (s.core.peers[peer]?).bind (·.fingerprint X)
  let s := { s with core := { s.core with
    peers := s.core.peers.erase peer
    addrs := s.core.addrs.erase peer
    dialTrouble := s.core.dialTrouble.erase peer } }
  let s := s.push (.persist ("peer/" ++ peer.str) none .secret)
  let s := s.closeUpLinks nowMs peer (.protocol .notPaired)
  let s := s.ui (.revoked peer)
  match fingerprint with
  | some fp => s.announce fp
  | none => s

def onLocalPlugin (s : Exec X P) (nowMs : ℕ) (peer : DeviceId) (cap ty : String) (body : Bytes) :
    Exec X P :=
  match s.core.plugins.findIdx? fun p => handles (Plugin.manifest p) cap with
  | none => s.ui (.error (some peer) .unknownType ("no plugin handles " ++ cap))
  | some idx =>
    let cx := (s.cx nowMs).forPeerLink (s.core.bulkSupportFor peer)
    match s.callPlugin idx cx fun p cx => Plugin.onLocal p cx peer ty body with
    | (s, some (.error e)) => s.ui (.error (some peer) e.code e.toString)
    | (s, _) => s

/-- Claim the slot before dialling, so a stranger's handshake cannot land meanwhile. -/
def requestPairing (s : Exec X P) (nowMs : ℕ) (transport : TransportId) (addr : String) :
    Exec X P :=
  match s.core.whyNotPair nowMs with
  | some why => s.ui (.pairingFailed why)
  | none =>
    let s := { s with core := s.core.beginPairing nowMs }
    let d := s.core.nextDial + 1
    let s := { s with core := { s.core with
      nextDial := d
      pendingPairDials := s.core.pendingPairDials.insert d (transport, addr) } }
    s.push (.dial transport addr d)

def onLocal (s : Exec X P) (nowMs : ℕ) : LocalCommand → Exec X P
  | .requestPairing transport addr => s.requestPairing nowMs transport addr
  | .confirmPairing accept => s.confirmPairing nowMs accept
  | .setPeerAddress peer transport addr =>
    if peer ∈ s.core.peers then
      let routes := (s.core.addrs[peer]?).getD ∅
      { s with core.addrs := s.core.addrs.insert peer (Routes.set routes transport addr) }
    else s.ui (.error (some peer) .notPaired (peer.str ++ " is not a paired device"))
  | .connect peer => s.connectPeer nowMs peer true
  | .reconsiderRoutes =>
    s.core.peers.keys.foldl (fun s peer => s.connectPeer nowMs peer false) s
  | .disconnect peer => s.closeUpLinks nowMs peer .closed
  | .revoke peer => s.handleRevoke nowMs peer
  | .plugin peer cap ty body => s.onLocalPlugin nowMs peer cap ty body

def dispatchToTransferOwner (s : Exec X P) (nowMs : ℕ) (transfer : TransferId)
    (hook : P → Cx → P × Cx) : Exec X P :=
  match s.core.bulkOwner[transfer]? with
  | none => s
  | some idx => (s.callPlugin idx (s.cx nowMs) fun p cx =>
      let (p', cx') := hook p cx
      (p', cx', ())).1

def onEffectDone (s : Exec X P) (nowMs : ℕ) (token : EffectToken) (result : EffectResult) :
    Exec X P :=
  match s.core.effectOwner[token]? with
  | none => s
  | some idx =>
    let s := { s with core.effectOwner := s.core.effectOwner.erase token }
    (s.callPlugin idx (s.cx nowMs) fun p cx =>
      let (p', cx') := Plugin.onEffectResult p cx token result
      (p', cx', ())).1

def lapsePairing (s : Exec X P) (nowMs : ℕ) : Exec X P :=
  match s.core.pairing with
  | none => s
  | some w =>
    if nowMs < w.deadline then s
    else
      let s := { s with core.pairing := none }
      let s := match w.awaiting with
        | some a =>
          let s := s.push (.close a.link .closed)
          { s with core.links := s.core.links.erase a.link }
        | none => s
      let s := { s with core := s.core.endPairing nowMs false }
      s.ui (.pairingFailed "nobody confirmed the pairing in time")

/-- A sender that was told where to connect and never did. -/
def giveUpBulk (s : Exec X P) (nowMs : ℕ) (transfer : TransferId) : Exec X P :=
  let s := { s with core.bulkWait := s.core.bulkWait.erase transfer }
  let s := s.push (.bulkCancel transfer)
  let s := s.dispatchToTransferOwner nowMs transfer fun p cx =>
    Plugin.onBulkFinished p cx transfer false "the sender never connected"
  { s with core.bulkOwner := s.core.bulkOwner.erase transfer }

def stale (nowMs : ℕ) : LinkState X → Bool
  | .pending p => p.deadline ≤ nowMs
  | .handshaking h => h.deadline ≤ nowMs
  | .up _ => false

def closeStale (s : Exec X P) (nowMs : ℕ) (link : LinkId) : Exec X P :=
  let was := s.core.links[link]?
  let s := { s with core.links := s.core.links.erase link }
  let s := s.push (.close link .closed)
  match was with
  | some (.handshaking h) =>
    match h.fallback with
    | some pending => s.tryNextRoute nowMs pending "got answer that cut off half way"
    | none => s
  | _ => s

def expireDial (s : Exec X P) (nowMs : ℕ) (d : DialToken) : Exec X P :=
  match s.core.pendingPeerDials[d]? with
  | none => s
  | some (_, pending) =>
    let s := { s with core.pendingPeerDials := s.core.pendingPeerDials.erase d }
    s.tryNextRoute nowMs pending "peer didn't answer"

def heartbeat (s : Exec X P) (nowMs : ℕ) : Exec X P :=
  if s.core.reconnectAt.all (· ≤ nowMs) then
    let s := { s with core.reconnectAt := some (nowMs + s.core.config.reconnectEveryMs) }
    let waiting := s.core.peers.keys.filter fun id =>
      (s.core.bestLink id).isNone && s.core.addrs.contains id
    waiting.foldl (fun s id => s.connectPeer nowMs id false) s
  else s

def wakePlugins (s : Exec X P) (nowMs : ℕ) : Exec X P :=
  match s.core.pluginWake with
  | none => s
  | some w =>
    if nowMs < w then s
    else ({ s with core.pluginWake := none }).callAllPlugins nowMs Plugin.onTick

def giveUpWaiting (s : Exec X P) (nowMs : ℕ) : Exec X P :=
  ((s.core.bulkWait.toList.filter fun e => e.2 ≤ nowMs).map (·.1)).foldl
    (fun s t => s.giveUpBulk nowMs t) s

def closeStaleLinks (s : Exec X P) (nowMs : ℕ) : Exec X P :=
  ((s.core.links.toList.filter fun e => stale nowMs e.2).map (·.1)).foldl
    (fun s l => s.closeStale nowMs l) s

def expireDials (s : Exec X P) (nowMs : ℕ) : Exec X P :=
  ((s.core.pendingPeerDials.toList.filter fun e => e.2.1 ≤ nowMs).map (·.1)).foldl
    (fun s d => s.expireDial nowMs d) s

def onTick (s : Exec X P) (nowMs : ℕ) : Exec X P :=
  let s := s.lapsePairing nowMs
  let s := s.giveUpWaiting nowMs
  let s := s.closeStaleLinks nowMs
  let s := s.expireDials nowMs
  let s := s.heartbeat nowMs
  s.wakePlugins nowMs

def onDialFailed (s : Exec X P) (nowMs : ℕ) (dial : DialToken) (reason : String) : Exec X P :=
  if dial ∈ s.core.pendingPairDials then
    -- Gives the pairing slot back, without asking whose pairing it holds.
    let s := { s with core := { s.core with
      pendingPairDials := s.core.pendingPairDials.erase dial
      pairing := none } }
    s.ui (.pairingFailed reason)
  else match s.core.pendingPeerDials[dial]? with
    | some (_, pending) =>
      let s := { s with core.pendingPeerDials := s.core.pendingPeerDials.erase dial }
      s.tryNextRoute nowMs pending reason
    | none => s

def onDiscovered (s : Exec X P) (nowMs : ℕ) (transport : TransportId) (peer : DiscoveredPeer) :
    Exec X P :=
  match peer.fingerprint with
  | none => s
  | some fp =>
    let seen := if maxSeen ≤ s.core.seen.size ∧ fp ∉ s.core.seen then ∅ else s.core.seen
    let routes := (seen[fp]?).elim ∅ (·.routes)
    let seen := seen.insert fp
      { routes := Routes.set routes transport peer.addr, name := peer.name, pairing := peer.pairing }
    let s := { s with core.seen := seen }
    match (s.core.recordOf fp).bind (·.id X) with
    | some id =>
      let routes := (s.core.addrs[id]?).getD ∅
      let s := { s with core.addrs := s.core.addrs.insert id (Routes.set routes transport peer.addr) }
      s.connectPeer nowMs id false
    | none => s.announce fp

def onUndiscovered (s : Exec X P) (transport : TransportId) (addr : String) : Exec X P :=
  let gone := (s.core.seen.toList.filter fun e =>
    (e.2.routes.forget transport addr).2 && (e.2.routes.forget transport addr).1.isEmpty).map (·.1)
  let s := { s with core.seen := s.core.seen.map fun _ sighting =>
    { sighting with routes := (sighting.routes.forget transport addr).1 } }
  gone.foldl (fun s fp =>
    let s := { s with core.seen := s.core.seen.erase fp }
    if (s.core.recordOf fp).isSome then s else s.ui (.undiscovered fp)) s

def onEvent (s : Exec X P) (nowMs : ℕ) (seed : X.Seed) : Event → Exec X P
  | .linkUp link attrs dial => s.onLinkUp nowMs seed link attrs dial
  | .linkRecv link msg => s.onLinkRecv nowMs seed link msg
  | .linkDown link _ => s.onLinkDown nowMs link
  | .dialFailed dial reason => s.onDialFailed nowMs dial reason
  | .discovered transport peer => s.onDiscovered nowMs transport peer
  | .undiscovered transport addr => s.onUndiscovered transport addr
  | .bulkListening transfer endpoint =>
    s.dispatchToTransferOwner nowMs transfer fun p cx => Plugin.onBulkListening p cx transfer endpoint
  | .bulkStarted transfer => { s with core.bulkWait := s.core.bulkWait.erase transfer }
  | .bulkFinished transfer ok detail =>
    let s := s.dispatchToTransferOwner nowMs transfer fun p cx =>
      Plugin.onBulkFinished p cx transfer ok detail
    { s with core := { s.core with
      bulkOwner := s.core.bulkOwner.erase transfer
      bulkWait := s.core.bulkWait.erase transfer } }
  | .tick => s.onTick nowMs
  | .localCommand cmd => s.onLocal nowMs cmd
  | .effectDone token result => s.onEffectDone nowMs token result

end Exec

namespace Core
variable [Plugin P]

/-- What the host feeds the core at one call: the clocks, the randomness and the event. -/
structure Input (X : Crates) where
  now : Now
  seed : X.Seed
  event : Event

def exec (c : Core X P) (i : Input X) : Exec X P :=
  Exec.onEvent ⟨{ c with wallMs := i.now.wallMs }, [], [], []⟩ i.now.monotonicMs i.seed i.event

def step (c : Core X P) (i : Input X) : Core X P := (c.exec i).core

def handle (c : Core X P) (i : Input X) : Core X P × Outcome :=
  let s := c.exec i
  (s.core, { actions := s.actions, nextDeadlineMs := s.core.nextDeadline })

end Core

/-- Explicit plugin registration and the peers the host loaded from storage. -/
structure CoreBuilder (X : Crates) (P : Type) where
  identity : Identity X
  config : CoreConfig
  effects : List EffectKind
  plugins : List P
  peers : List PeerRecord

namespace CoreBuilder
variable [Plugin P]

/-- Restored records, keyed by the id their public key gives; a later one wins. -/
def restored (X : Crates) (records : List PeerRecord) : ExtTreeMap DeviceId PeerRecord :=
  Lib.index (PeerRecord.id X) records

def build (b : CoreBuilder X P) : Core X P where
  identity := b.identity
  config := b.config
  peers := restored X b.peers
  links := ∅
  addrs := ∅
  seen := ∅
  pairing := none
  pairQuietUntil := 0
  pendingPairDials := ∅
  pendingPeerDials := ∅
  dialTrouble := ∅
  reconnectAt := none
  plugins := b.plugins
  effectOwner := ∅
  bulkOwner := ∅
  nextTransfer := 0
  bulkWait := ∅
  capsOut := sortDedup (b.plugins.flatMap fun p => (Plugin.manifest p).outgoing)
  capsIn := sortDedup (b.plugins.flatMap fun p => (Plugin.manifest p).incoming)
  capsServed := sortDedup ((b.plugins.filter fun p =>
    (Plugin.manifest p).requires.all (· ∈ b.effects)).flatMap fun p => (Plugin.manifest p).incoming)
  serves := EffectSet.new b.effects
  nextToken := 0
  nextDial := 0
  nextMsgId := 0
  wallMs := 0
  pluginWake := none

end CoreBuilder
end Acrylius
