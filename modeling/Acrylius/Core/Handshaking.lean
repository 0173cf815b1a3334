import Acrylius.Core.Links

/-! From a raw link to a session or a pairing: link events, handshake frames and their
completion (`core.rs`, `on_link_up` to `confirm_pairing`). `seed` is the randomness a
handshake built in this step draws. -/
namespace Acrylius
open Proto

variable {X : Crates} {P : Type}

namespace Exec

def insertLink (s : Exec X P) (link : LinkId) (st : LinkState X) : Exec X P :=
  { s with core.links := s.core.links.insert link st }

def startSessionInitiator (s : Exec X P) (seed : X.Seed) (link : LinkId) (peer : DeviceId)
    (attrs : LinkAttrs) (deadline : ℕ) (fallback : Option PeerDial) : Exec X P :=
  match s.core.peers[peer]? with
  | none => s.failLink link "no such peer"
  | some record =>
    match record.publicKeyArray, record.sessionPskArray with
    | some pk, some psk =>
      match Handshake.sessionInitiator s.core.identity psk pk seed with
      | .error e => s.failLink link e.toString
      | .ok hs =>
        match hs.write (X.encode s.core.hello) with
        | .error e => s.failLink link e.toString
        | .ok (m, hs) =>
          let s := s.push (.linkSend link (Frame.join .sessionHandshake m))
          s.insertLink link (.handshaking {
            hs, attrs, deadline, fallback
            expect := some peer
            pairingFlow := false
            via := none })
    | _, _ => s.failLink link "corrupt peer record"

/-- A link we dialled to pair: we speak first, with `XX`, whose first message is empty. -/
def startPairInitiator (s : Exec X P) (seed : X.Seed) (link : LinkId) (attrs : LinkAttrs)
    (deadline : ℕ) (via : TransportId × String) : Exec X P :=
  match Handshake.pairInitiator s.core.identity seed with
  | .error e => s.failLink link e.toString
  | .ok hs =>
    match hs.write [] with
    | .error e => s.failLink link e.toString
    | .ok (m, hs) =>
      let s := s.push (.linkSend link (Frame.join .pairHandshake m))
      s.insertLink link (.handshaking {
        hs, attrs, deadline
        expect := none
        pairingFlow := true
        via := some via
        fallback := none })

def onLinkUp (s : Exec X P) (nowMs : ℕ) (seed : X.Seed) (link : LinkId) (attrs : LinkAttrs)
    (dial : Option DialToken) : Exec X P :=
  let deadline := nowMs + s.core.config.handshakeTimeoutMs
  match dial.bind fun d => (s.core.pendingPairDials[d]?).map (d, ·) with
  | some (d, via) =>
    let s := { s with core.pendingPairDials := s.core.pendingPairDials.erase d }
    s.startPairInitiator seed link attrs deadline via
  | none =>
    match dial.bind fun d => (s.core.pendingPeerDials[d]?).map (d, ·) with
    | some (d, _, pending) =>
      let s := { s with core.pendingPeerDials := s.core.pendingPeerDials.erase d }
      s.startSessionInitiator seed link pending.peer attrs deadline (some pending)
    | none => s.insertLink link (.pending { attrs, deadline })

/-- Validate a peer's `Hello` and advance its replay watermark. -/
def acceptHello (s : Exec X P) (peer : DeviceId) (payload : Bytes) : Exec X P × Bool :=
  match X.decode Hello payload with
  | none => (s.ui (.error (some peer) .badBody "handshake payload did not decode"), false)
  | some hello =>
    match s.core.peers[peer]? with
    | none => (s, false)
    | some record =>
      match hello.checkFreshness s.core.wallMs record.greatestSeen with
      | .ok seen =>
        let record := { record with
          greatestSeen := seen
          name := hello.name
          platform := hello.platform
          capsOut := hello.capsOut
          capsIn := hello.capsIn }
        let s := { s with core.peers := s.core.peers.insert peer record }
        (s.push (Core.peerBlob X record), true)
      | .error e => (s.ui (.error (some peer) .notAllowed e.toString), false)

section
variable [Plugin P]

def finishSession (s : Exec X P) (nowMs : ℕ) (link : LinkId) (hs : Handshake X)
    (attrs : LinkAttrs) (peer : DeviceId) : Exec X P :=
  let handshakeHash := match hs.handshakeHash with
    | .ok h => h
    | .error _ => []
  match hs.intoSession attrs with
  | .error e => s.failLink link e.toString
  | .ok session =>
    match s.core.peers[peer]? with
    | none => s.failLink link "peer vanished mid-handshake"
    | some record =>
      let s := s.insertLink link (.up {
        session, peer, handshakeHash
        bulk := attrs.bulk
        maxMessage := attrs.maxMessage
        lastRecvMs := nowMs
        transport := attrs.transport
        kind := attrs.kind
        canSend := negotiate s.core.capsOut record.capsIn
        canRecv := negotiate record.capsOut s.core.capsIn })
      let s := { s with core.dialTrouble := s.core.dialTrouble.erase peer }
      let s := s.ui (.peerReachable peer record.name)
      s.callAllPlugins nowMs fun p cx => Plugin.onPeerConnected p cx peer

end

def pairingAttemptFailed (s : Exec X P) (nowMs : ℕ) (link : LinkId) : Exec X P :=
  let s := s.failLink link "pairing handshake failed"
  let s := { s with core := s.core.endPairing nowMs false }
  s.ui (.pairingFailed "the pairing handshake failed")

/-- The record a completed pairing handshake proposes. -/
def pairedRecord (X : Crates) (hash : Bytes) (pk : PublicKey) (hello : Hello) : PeerRecord where
  deviceId := (DeviceId.of X pk).str
  publicKey := pk.bytes
  name := hello.name
  platform := hello.platform
  sessionPsk := (Pairing.sessionPsk X hash).bytes
  greatestSeen := 0
  capsOut := hello.capsOut
  capsIn := hello.capsIn

def pairingCompleted (s : Exec X P) (nowMs : ℕ) (link : LinkId) (h : HandshakingLink X)
    (payload : Bytes) : Exec X P :=
  match h.hs.handshakeHash, h.hs.peerStatic with
  | .ok hash, some pk =>
    match X.decode Hello payload with
    | none => s.pairingAttemptFailed nowMs link
    | some hello =>
      let record := pairedRecord X hash pk hello
      let sas := Pairing.sas X hash
      let s := s.insertLink link (.pending { attrs := h.attrs, deadline := h.deadline })
      match s.core.pairing with
      | none => s.failLink link "no pairing is in progress"
      | some ⟨_, some _⟩ => s.failLink link "a confirmation is already waiting"
      | some ⟨_, none⟩ =>
        let deadline := nowMs + s.core.config.pairingWindowMs
        let s := { s with core.pairing := some ⟨deadline, some { link, record, sas, via := h.via }⟩ }
        s.ui (.pairingSas record.name (Fingerprint.of X pk) sas)
  | _, _ => s.failLink link "handshake completed without a peer key"

/-- Where a device paired just now can be reached: the address we dialled, or what discovery
has shown. -/
def keepRoutes (s : Exec X P) (id : DeviceId) (a : AwaitingConfirm) : Exec X P :=
  let routes := (s.core.addrs[id]?).getD ∅
  match a.via with
  | some (transport, addr) =>
    { s with core.addrs := s.core.addrs.insert id (Routes.set routes transport addr) }
  | none =>
    match (a.record.fingerprint X).bind fun fp => s.core.seen[fp]? with
    | some sighting =>
      { s with core.addrs := s.core.addrs.insert id (Routes.mergeFrom routes sighting.routes) }
    | none => s

def confirmPairing (s : Exec X P) (nowMs : ℕ) (accept : Bool) : Exec X P :=
  match s.core.pairing with
  | some ⟨deadline, some a⟩ =>
    if !accept then
      let s := s.push (.close a.link (.protocol .notAllowed))
      let s := { s with core.links := s.core.links.erase a.link }
      let s := { s with core := s.core.endPairing nowMs true }
      s.ui (.pairingFailed "the codes did not match")
    else match a.record.id X with
      | none => { s with core.pairing := some ⟨deadline, none⟩ }
      | some id =>
        let s := s.keepRoutes id a
        let s := s.push (Core.peerBlob X a.record)
        let s := s.ui (.pairingComplete id a.record.name)
        let s := { s with core.peers := s.core.peers.insert id a.record }
        let s := { s with core.pairing := none }
        let s := s.push (.close a.link .closed)
        let s := { s with core.links := s.core.links.erase a.link }
        { s with core.reconnectAt := some 0 }
  | _ => s

/-- An inbound pairing handshake, answered only if the admission policy lets it. -/
def onPairOpener (s : Exec X P) (nowMs : ℕ) (seed : X.Seed) (link : LinkId) (p : PendingLink)
    (body : Bytes) : Exec X P :=
  match s.core.whyNotPair nowMs with
  | some why => s.failLink link why
  | none =>
    match Handshake.pairResponder s.core.identity seed with
    | .error e => s.failLink link e.toString
    | .ok hs =>
      match hs.read body with
      | .error _ =>
        let s := { s with core.pairQuietUntil := nowMs + s.core.config.pairCooldownMs }
        s.failLink link "malformed pairing handshake"
      | .ok (_, hs) =>
        match hs.write (X.encode s.core.hello) with
        | .error e => s.failLink link e.toString
        | .ok (m, hs) =>
          let s := { s with core := s.core.beginPairing nowMs }
          let s := s.push (.linkSend link (Frame.join .pairHandshake m))
          s.insertLink link (.handshaking {
            hs
            attrs := p.attrs
            deadline := p.deadline
            expect := none
            pairingFlow := true
            via := none
            fallback := none })

variable [Plugin P]

/-- A session opener: learn who is calling, then replay the message into a real responder. -/
def onSessionOpener (s : Exec X P) (nowMs : ℕ) (seed : X.Seed) (link : LinkId) (p : PendingLink)
    (body : Bytes) : Exec X P :=
  match Handshake.sessionIdentify s.core.identity body seed with
  | .error _ => s.failLink link "unreadable session opener"
  | .ok pk =>
    let id := DeviceId.of X pk
    match s.core.peers[id]? with
    | none => s.failLink link "unknown device"
    | some record =>
      match record.sessionPskArray with
      | none => s.failLink link "corrupt peer record"
      | some psk =>
        match Handshake.sessionResponder s.core.identity psk seed with
        | .error e => s.failLink link e.toString
        | .ok hs =>
          match hs.read body with
          | .error e => s.failLink link e.toString
          | .ok (payload, hs) =>
            match s.acceptHello id payload with
            | (s, false) => s.failLink link "stale or replayed opener"
            | (s, true) =>
              match hs.write (X.encode s.core.hello) with
              | .error e => s.failLink link e.toString
              | .ok (m, hs) =>
                let s := s.push (.linkSend link (Frame.join .sessionHandshake m))
                s.finishSession nowMs link hs p.attrs id

/-- The first thing an inbound peer says decides which handshake this is. -/
def onFirstFrame (s : Exec X P) (nowMs : ℕ) (seed : X.Seed) (link : LinkId) (p : PendingLink)
    (kind : FrameKind) (body : Bytes) : Exec X P :=
  match kind with
  | .pairHandshake => s.onPairOpener nowMs seed link p body
  | .sessionHandshake => s.onSessionOpener nowMs seed link p body
  | .transport => s.failLink link "transport frame before a handshake"

def onSessionReply (s : Exec X P) (nowMs : ℕ) (link : LinkId) (h : HandshakingLink X)
    (payload : Bytes) : Exec X P :=
  match h.expect with
  | none => s.failLink link "session handshake with no expected peer"
  | some peer =>
    match s.acceptHello peer payload with
    | (s, false) => s.failLink link "stale or replayed response"
    | (s, true) => s.finishSession nowMs link h.hs h.attrs peer

def afterHandshakeRead (s : Exec X P) (nowMs : ℕ) (link : LinkId) (h : HandshakingLink X)
    (payload : Bytes) : Exec X P :=
  if !h.hs.isComplete then s.insertLink link (.handshaking h)
  else if h.pairingFlow then s.pairingCompleted nowMs link h payload
  else s.onSessionReply nowMs link h payload

def onHandshakeFrame (s : Exec X P) (nowMs : ℕ) (link : LinkId) (h : HandshakingLink X)
    (kind : FrameKind) (body : Bytes) : Exec X P :=
  if kind ≠ (if h.pairingFlow then .pairHandshake else .sessionHandshake) then
    s.failLink link "handshake frame of the wrong kind"
  else match h.hs.read body with
    | .error e =>
      if h.pairingFlow then s.pairingAttemptFailed nowMs link else s.failLink link e.toString
    | .ok (payload, hs) =>
      let h := { h with hs }
      -- A pairing initiator owes one more message before either side is done.
      if h.pairingFlow && h.hs.isMyTurn then
        match h.hs.write (X.encode s.core.hello) with
        | .ok (m, hs) =>
          (s.push (.linkSend link (Frame.join .pairHandshake m))).afterHandshakeRead
            nowMs link { h with hs } payload
        | .error e => s.failLink link e.toString
      else s.afterHandshakeRead nowMs link h payload

def routeEnvelope (s : Exec X P) (nowMs : ℕ) (peer : DeviceId) (env : Envelope) : Exec X P :=
  match s.core.plugins.findIdx? fun p => handles (Plugin.manifest p) env.cap with
  | none => s.sendError peer env .capNotNegotiated
  | some idx =>
    let cx := (s.cx nowMs).forPeerLink (s.core.bulkSupportFor peer)
    match s.callPlugin idx cx fun p cx => Plugin.onMessage p cx peer env with
    | (s, some (.error e)) => s.sendError peer env e.code
    | (s, _) => s

def onTransportFrame (s : Exec X P) (nowMs : ℕ) (link : LinkId) (u : UpLink X) (kind : FrameKind)
    (body : Bytes) : Exec X P :=
  if kind ≠ .transport then
    s.failUpLink nowMs link u "handshake frame on an established link"
  else match u.session.decrypt body with
    | .error e => s.failUpLink nowMs link u e.toString
    | .ok (plaintext, session) =>
      let s := s.insertLink link (.up { u with session, lastRecvMs := nowMs })
      match X.decode Envelope plaintext with
      | none => s.ui (.error (some u.peer) .badBody "envelope did not decode")
      | some env =>
        if env.cap ∉ u.canRecv then s.sendError u.peer env .capNotNegotiated
        else if env.ty = "err" then s.ui (.plugin u.peer env.cap "err" env.body)
        else s.routeEnvelope nowMs u.peer env

def onLinkRecv (s : Exec X P) (nowMs : ℕ) (seed : X.Seed) (link : LinkId) (msg : Bytes) :
    Exec X P :=
  match Frame.split msg with
  | none => s.failLink link "malformed frame"
  | some (kind, body) =>
    let was := s.core.links[link]?
    let s := { s with core.links := s.core.links.erase link }
    match was with
    | some (.pending p) => s.onFirstFrame nowMs seed link p kind body
    | some (.handshaking h) => s.onHandshakeFrame nowMs link h kind body
    | some (.up u) => s.onTransportFrame nowMs link u kind body
    | none => s.failLink link "frame on an unknown link"

end Exec
end Acrylius
