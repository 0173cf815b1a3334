import Acrylius.Core.Send

/-! Reaching a peer and losing it: route walks, dials, and every way a link leaves the table
(`core.rs`, `try_next_route` to `connect_peer`, `on_link_down` to `fail_link`). -/
namespace Acrylius
open Proto

variable {X : Crates} {P : Type}

namespace Exec

def failLink (s : Exec X P) (link : LinkId) (detail : String) : Exec X P :=
  let peer := match s.core.links[link]? with
    | some (.up u) => some u.peer
    | _ => none
  let s := { s with core.links := s.core.links.erase link }
  let s := s.push (.close link (.protocol .notAllowed))
  s.ui (.error peer .notAllowed detail)

/-- Start a dial towards a peer on one route, keeping the others for later. -/
def dialPeer (s : Exec X P) (nowMs : ℕ) (peer : DeviceId) (route : TransportId × String)
    (routes : List (TransportId × String)) (byHand : Bool) : Exec X P :=
  let d := s.core.nextDial + 1
  let s := { s with core := { s.core with
    nextDial := d
    pendingPeerDials := s.core.pendingPeerDials.insert d
      (nowMs + s.core.config.dialTimeoutMs, { peer, routes, byHand }) } }
  let s := { s with dials := s.dials ++ [(peer, d)] }
  s.push (.dial route.1 route.2 d)

/-- Try the next address for a peer, or record that it cannot be reached. -/
def tryNextRoute (s : Exec X P) (nowMs : ℕ) (pending : PeerDial) (why : String) : Exec X P :=
  if (s.core.bestLink pending.peer).isSome then s
  else match pending.routes with
    | [] =>
      let s := { s with core.dialTrouble := s.core.dialTrouble.insert pending.peer why }
      if pending.byHand then s.ui (.peerUnreachable pending.peer) else s
    | route :: routes => s.dialPeer nowMs pending.peer route routes pending.byHand

/-- Make an attempt already under way count as one a person asked for. -/
def adoptAttempt (s : Exec X P) (peer : DeviceId) : Exec X P :=
  let adopt (d : PeerDial) : PeerDial := if d.peer = peer then { d with byHand := true } else d
  { s with core := { s.core with
    pendingPeerDials := s.core.pendingPeerDials.map fun _ e => (e.1, adopt e.2)
    links := s.core.links.map fun _ st => match st with
      | .handshaking h => .handshaking { h with fallback := h.fallback.map adopt }
      | st => st } }

def nowhere : String :=
  "Device is asleep or unreachable. It might be off or on another network."

/-- Dial the best of these routes, keeping the rest, or say there is none. -/
def connectRoutes (s : Exec X P) (nowMs : ℕ) (peer : DeviceId)
    (routes : List (TransportId × String)) (byHand : Bool) : Exec X P :=
  match routes with
  | [] =>
    let s := { s with core.dialTrouble := s.core.dialTrouble.insert peer nowhere }
    if byHand then
      let s := s.ui (.error (some peer) .notAllowed
        ("no address known for " ++ peer.str ++ ". " ++ nowhere))
      s.ui (.peerUnreachable peer)
    else s
  | route :: routes => s.dialPeer nowMs peer route routes byHand

def connectPeer (s : Exec X P) (nowMs : ℕ) (peer : DeviceId) (byHand : Bool) : Exec X P :=
  if !byHand && s.core.pendingPeerDials.toList.any (fun e => e.2.2.peer = peer) then s
  else
    -- Last-working address first, then whatever discovery has shown.
    let known := (s.core.addrs[peer]?).orElse fun _ => do
      let record ← s.core.peers[peer]?
      let fp ← record.fingerprint X
      let sighting ← s.core.seen[fp]?
      return sighting.routes
    let routes := known.elim [] Routes.inPreferenceOrder
    match s.core.peerState peer with
    | .unreachable => s.connectRoutes nowMs peer routes byHand
    | .connecting => if byHand then s.adoptAttempt peer else s
    | .reachable =>
      if byHand then
        let name := (s.core.peers[peer]?).elim "" (·.name)
        s.ui (.peerReachable peer name)
      else match s.core.bestLinkTransport peer with
        | none => s
        | some current =>
          -- Only a strictly better transport is worth dialling beside a live session.
          let routes := routes.filter (·.1 < current)
          if routes.isEmpty then s else s.connectRoutes nowMs peer routes byHand

variable [Plugin P]

/-- An established link is gone from the table: announce the peer's remaining route, or that
it has none. -/
def lostUpLink (s : Exec X P) (nowMs : ℕ) (u : UpLink X) : Exec X P :=
  if (s.core.bestLink u.peer).isSome then
    let name := (s.core.peers[u.peer]?).elim "" (·.name)
    s.ui (.peerReachable u.peer name)
  else
    let s := s.ui (.peerUnreachable u.peer)
    let s := { s with core.reconnectAt := some 0 }
    s.callAllPlugins nowMs fun p cx => Plugin.onPeerDisconnected p cx u.peer

def onLinkDown (s : Exec X P) (nowMs : ℕ) (link : LinkId) : Exec X P :=
  let was := s.core.links[link]?
  let s := { s with core.links := s.core.links.erase link }
  match was with
  | some (.up u) => s.lostUpLink nowMs u
  | some (.handshaking h) =>
    -- Gives back the pairing slot, without asking whose pairing it holds.
    let s := if h.pairingFlow then { s with core.pairing := none } else s
    match h.fallback with
    | some pending =>
      s.tryNextRoute nowMs pending "connection closed before session was established"
    | none => s
  | _ => s

omit [Plugin P] in
/-- The fallback of a handshake that died is dialled at its next route, or there is none. -/
theorem fallback_cases {R : Exec X P → Exec X P → Prop} {h : HandshakingLink X} {nowMs : ℕ}
    {why : String} {r : Exec X P} (idle : R r r)
    (next : ∀ pending, h.fallback = some pending → R r (r.tryNextRoute nowMs pending why)) :
    R r (match h.fallback with
      | some pending => r.tryNextRoute nowMs pending why
      | none => r) := by
  cases hf : h.fallback with
  | none => exact idle
  | some pending => exact next pending hf

def failUpLink (s : Exec X P) (nowMs : ℕ) (link : LinkId) (u : UpLink X) (detail : String) :
    Exec X P :=
  let s := { s with core.links := s.core.links.insert link (.up u) }
  let s := s.push (.close link (.protocol .notAllowed))
  let s := s.ui (.error (some u.peer) .notAllowed detail)
  s.onLinkDown nowMs link

end Exec
end Acrylius
