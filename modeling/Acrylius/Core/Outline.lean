import Acrylius.Core.Background

/-! What one step can do: the event's own move on the link table and the trust store, then an
aftermath in which established links are only used or announced lost. -/
namespace Acrylius
open Proto Std

variable {X : Crates} {P : Type}

/-- The message a handshake sends at its turn, if it owes one. -/
def Handshake.Turn (owes : Bool) (payload : Bytes) (hs : Handshake X) (reply : List Bytes)
    (hs' : Handshake X) : Prop :=
  if owes then ∃ m, hs.write payload = .ok (m, hs') ∧ reply = [m] else reply = [] ∧ hs' = hs

def framesFor (l : LinkId) (kind : FrameKind) (ms : List Bytes) : List Action :=
  ms.map fun m => .linkSend l (Frame.join kind m)

/-- What a refused link leaves behind: its closing, and words for a person. -/
def Action.refuses (l : LinkId) : Action → Bool
  | .close l' _ => l' = l
  | .ui _ => true
  | _ => false

theorem stored_framesFor (l : LinkId) (kind : FrameKind) (ms : List Bytes) :
    stored (framesFor l kind ms) = [] :=
  stored_of_unstored (by simp [framesFor, Action.unstored])

theorem stored_refuses {l : LinkId} {as : List Action} (h : ∀ a ∈ as, a.refuses l) :
    stored as = [] := by
  refine stored_of_unstored fun a ha => ?_
  have := h a ha
  cases a <;> simp_all [Action.refuses, Action.unstored]

def Exec.unlink (s : Exec X P) (l : LinkId) : Exec X P :=
  { s with core.links := s.core.links.erase l }

/-- The link may be refused in this step: it is being opened, or it carried a frame and is not
established, or the frame was not a frame at all. -/
def Refusable (i : Core.Input X) (s : Exec X P) (l : LinkId) : Prop :=
  (∃ attrs dial, i.event = .linkUp l attrs dial) ∨
  ∃ msg, i.event = .linkRecv l msg ∧
    (Frame.split msg = none ∨ ∀ u : UpLink X, s.core.links[l]? ≠ some (.up u))

/-- A session handshake message was read: whose it is, its payload, where the handshake stands
and whether it owes an answer. -/
inductive SessionRead (i : Core.Input X) (s : Exec X P) (l : LinkId) :
    LinkAttrs → DeviceId → Bytes → Handshake X → Bool → Prop where
  | opener {msg body payload : Bytes} {p : PendingLink} {pk psk : Key32} {record : PeerRecord}
      {hs₀ hs : Handshake X} (event : i.event = .linkRecv l msg)
      (frame : Frame.split msg = some (.sessionHandshake, body))
      (link : s.core.links[l]? = some (.pending p))
      (caller : Handshake.sessionIdentify s.core.identity body i.seed = .ok pk)
      (known : s.core.peers[DeviceId.of X pk]? = some record)
      (key : record.sessionPskArray = some psk)
      (build : Handshake.sessionResponder s.core.identity psk i.seed = .ok hs₀)
      (read : hs₀.read body = .ok (payload, hs)) :
      SessionRead i s l p.attrs (DeviceId.of X pk) payload hs true
  | reply {msg body payload : Bytes} {h : HandshakingLink X} {peer : DeviceId} {hs : Handshake X}
      (event : i.event = .linkRecv l msg)
      (frame : Frame.split msg = some (.sessionHandshake, body))
      (link : s.core.links[l]? = some (.handshaking h)) (flow : h.pairingFlow = false)
      (read : h.hs.read body = .ok (payload, hs)) (done : hs.isComplete)
      (expect : h.expect = some peer) :
      SessionRead i s l h.attrs peer payload hs false

structure Accepted (s : Exec X P) (peer : DeviceId) (payload : Bytes) (hello : Hello)
    (record record' : PeerRecord) : Prop where
  decoded : X.decode Hello payload = some hello
  known : s.core.peers[peer]? = some record
  fresh : hello.checkFreshness s.core.wallMs record.greatestSeen = .ok hello.tsMs
  updated : record' = { record with
    greatestSeen := hello.tsMs
    name := hello.name
    platform := hello.platform
    capsOut := hello.capsOut
    capsIn := hello.capsIn }

/-- A message of a pairing handshake was read on the link, and answered if it was our turn. -/
structure PairRead (i : Core.Input X) (s : Exec X P) (l : LinkId) (h : HandshakingLink X)
    (payload : Bytes) (reply : List Bytes) (hs' : Handshake X) : Prop where
  link : s.core.links[l]? = some (.handshaking h)
  flow : h.pairingFlow
  read : ∃ msg body hs, i.event = .linkRecv l msg ∧
    Frame.split msg = some (.pairHandshake, body) ∧ h.hs.read body = .ok (payload, hs) ∧
    hs.Turn hs.isMyTurn (X.encode s.core.hello) reply hs'

def freshLink (s : Exec X P) (nowMs : ℕ) (hs : Handshake X) (session : Session X)
    (attrs : LinkAttrs) (peer : DeviceId) (record : PeerRecord) : UpLink X where
  session := session
  peer := peer
  handshakeHash := X.getHandshakeHash hs.state
  bulk := attrs.bulk
  maxMessage := attrs.maxMessage
  lastRecvMs := nowMs
  transport := attrs.transport
  kind := attrs.kind
  canSend := negotiate s.core.capsOut record.capsIn
  canRecv := negotiate record.capsOut s.core.capsIn

/-- What the event itself does to links, trust and plugins. -/
inductive Head [Plugin P] (i : Core.Input X) (s : Exec X P) : Exec X P → Prop where
  | idle : Head i s s
  | opened {l attrs dial p t} (event : i.event = .linkUp l attrs dial)
      (view : t.view = { s.view with links := s.view.links.insert l (.pending p) }) : Head i s t
  | dialledSession {l attrs d peer record pk psk hs hs' m t} {h : HandshakingLink X}
      (event : i.event = .linkUp l attrs (some d)) (known : s.core.peers[peer]? = some record)
      (hpk : record.publicKeyArray = some pk) (hpsk : record.sessionPskArray = some psk)
      (build : Handshake.sessionInitiator s.core.identity psk pk i.seed = .ok hs)
      (write : hs.write (X.encode s.core.hello) = .ok (m, hs')) (state : h.hs = hs')
      (expect : h.expect = some peer) (flow : h.pairingFlow = false) (hattrs : h.attrs = attrs)
      (view : t.view = { s.view with
        links := s.view.links.insert l (.handshaking h)
        actions := s.view.actions ++ framesFor l .sessionHandshake [m] }) : Head i s t
  | dialledPair {l attrs d via hs hs' m t} {h : HandshakingLink X}
      (event : i.event = .linkUp l attrs (some d)) (dialled : s.core.pendingPairDials[d]? = some via)
      (build : Handshake.pairInitiator s.core.identity i.seed = .ok hs)
      (write : hs.write [] = .ok (m, hs')) (state : h.hs = hs') (flow : h.pairingFlow)
      (hvia : h.via = some via)
      (view : t.view = { s.view with
        trust := { s.view.trust with pendingPairDials := s.core.pendingPairDials.erase d }
        links := s.view.links.insert l (.handshaking h)
        actions := s.view.actions ++ framesFor l .pairHandshake [m] }) : Head i s t
  | failed {l dials quiet as t} (may : Refusable i s l) (hs : ∀ a ∈ as, a.refuses l)
      (view : t.view = { s.view with
        trust := { s.view.trust with
          pendingPairDials := dials
          pairQuietUntil := quiet }
        links := s.view.links.erase l
        actions := s.view.actions ++ as }) : Head i s t
  | answered {l msg body payload hs₀ hs hs' m p t} {h : HandshakingLink X}
      (event : i.event = .linkRecv l msg) (frame : Frame.split msg = some (.pairHandshake, body))
      (link : s.core.links[l]? = some (.pending p)) (free : s.core.pairing = none)
      (build : Handshake.pairResponder s.core.identity i.seed = .ok hs₀)
      (read : hs₀.read body = .ok (payload, hs))
      (write : hs.write (X.encode s.core.hello) = .ok (m, hs')) (state : h.hs = hs')
      (flow : h.pairingFlow)
      (view : t.view = { s.view with
        trust := { s.view.trust with
          pairing := some ⟨i.now.monotonicMs + s.core.config.pairingWindowMs, none⟩ }
        links := s.view.links.insert l (.handshaking h)
        actions := s.view.actions ++ framesFor l .pairHandshake [m] }) : Head i s t
  | wasted {l attrs peer payload hs owes hello record record' reply as t}
      (read : SessionRead i s l attrs peer payload hs owes)
      (accept : Accepted s peer payload hello record record')
      (hreply : reply = [] ∨ ∃ hs', hs.Turn owes (X.encode s.core.hello) reply hs')
      (has : ∀ a ∈ as, a.refuses l)
      (view : t.view = { s.view with
        trust := { s.view.trust with peers := s.core.peers.insert peer record' }
        links := s.view.links.erase l
        actions := s.view.actions ++
          Core.peerBlob X record' :: (framesFor l .sessionHandshake reply ++ as) }) : Head i s t
  | established {l attrs peer payload hs owes hello record record' reply hs' session}
      {mid : Exec X P}
      (read : SessionRead i s l attrs peer payload hs owes)
      (accept : Accepted s peer payload hello record record')
      (turn : hs.Turn owes (X.encode s.core.hello) reply hs')
      (open_ : hs'.intoSession attrs = .ok session)
      (view : mid.view = { s.view with
        trust := { s.view.trust with peers := s.core.peers.insert peer record' }
        links := s.view.links.insert l
          (.up (freshLink s i.now.monotonicMs hs' session attrs peer record'))
        actions := s.view.actions ++ Core.peerBlob X record' ::
          (framesFor l .sessionHandshake reply ++ [.ui (.peerReachable peer record'.name)]) }) :
      Head i s (mid.callAllPlugins i.now.monotonicMs fun p cx => Plugin.onPeerConnected p cx peer)
  | continued {l msg kind body payload reply hs hs' t} {h : HandshakingLink X}
      (event : i.event = .linkRecv l msg) (frame : Frame.split msg = some (kind, body))
      (fits : kind = if h.pairingFlow then .pairHandshake else .sessionHandshake)
      (link : s.core.links[l]? = some (.handshaking h)) (read : h.hs.read body = .ok (payload, hs))
      (turn : hs.Turn (h.pairingFlow && hs.isMyTurn) (X.encode s.core.hello) reply hs')
      (waiting : hs'.isComplete = false)
      (view : t.view = { s.view with
        links := s.view.links.insert l (.handshaking { h with hs := hs' })
        actions := s.view.actions ++ framesFor l .pairHandshake reply }) : Head i s t
  | abandoned {l msg body h reply as t} (event : i.event = .linkRecv l msg)
      (frame : Frame.split msg = some (.pairHandshake, body))
      (link : s.core.links[l]? = some (.handshaking h)) (flow : h.pairingFlow)
      (unread : (∃ e, h.hs.read body = .error e) ∧ reply = [] ∨
        ∃ payload hs', PairRead i s l h payload reply hs' ∧ hs'.isComplete ∧
          hs'.peerStatic.isSome ∧ X.decode Hello payload = none)
      (has : ∀ a ∈ as, a.refuses l)
      (view : t.view = { s.view with
        trust := { s.view.trust with
          pairing := none
          pairQuietUntil := i.now.monotonicMs + s.core.config.pairCooldownMs }
        links := s.view.links.erase l
        actions := s.view.actions ++ (framesFor l .pairHandshake reply ++ as) }) : Head i s t
  | unwanted {l h payload reply hs' as t} (read : PairRead i s l h payload reply hs')
      (has : ∀ a ∈ as, a.refuses l)
      (view : t.view = { s.view with
        links := s.view.links.erase l
        actions := s.view.actions ++ (framesFor l .pairHandshake reply ++ as) }) : Head i s t
  | awaited {l h payload reply hs' hash pk hello deadline t}
      (read : PairRead i s l h payload reply hs') (hash_ok : hs'.handshakeHash = .ok hash)
      (static : hs'.peerStatic = some pk) (decoded : X.decode Hello payload = some hello)
      (window : s.core.pairing = some ⟨deadline, none⟩)
      (view : t.view = { s.view with
        trust := { s.view.trust with
          pairing := some ⟨i.now.monotonicMs + s.core.config.pairingWindowMs, some {
            link := l
            record := Exec.pairedRecord X hash pk hello
            sas := Pairing.sas X hash
            via := h.via }⟩ }
        links := s.view.links.insert l (.pending ⟨h.attrs, h.deadline⟩)
        actions := s.view.actions ++ (framesFor l .pairHandshake reply ++
          [.ui (.pairingSas hello.name (Fingerprint.of X pk) (Pairing.sas X hash))]) }) : Head i s t
  | received {l msg body u plaintext session t} (event : i.event = .linkRecv l msg)
      (frame : Frame.split msg = some (.transport, body)) (link : s.core.links[l]? = some (.up u))
      (decrypt : u.session.decrypt body = .ok (plaintext, session))
      (view : t.view = { s.view with
        links := s.view.links.insert l
          (.up { u with session, lastRecvMs := i.now.monotonicMs }) }) : Head i s t
  | hungUp {l reason h t} (event : i.event = .linkDown l reason)
      (link : s.core.links[l]? = some (.handshaking h)) (flow : h.pairingFlow)
      (view : t.view = { s.view with
        trust := { s.view.trust with pairing := none }
        links := s.view.links.erase l }) : Head i s t
  | undialled {d reason t} (event : i.event = .dialFailed d reason)
      (dialled : d ∈ s.core.pendingPairDials)
      (view : t.view = { s.view with
        trust := { s.view.trust with
          pairing := none
          pendingPairDials := s.core.pendingPairDials.erase d }
        actions := s.view.actions ++ [.ui (.pairingFailed reason)] }) : Head i s t
  | lapsed {w t} (event : i.event = .tick) (window : s.core.pairing = some w)
      (due : w.deadline ≤ i.now.monotonicMs)
      (view : t.view = { s.view with
        trust := { s.view.trust with
          pairing := none
          pairQuietUntil := i.now.monotonicMs + s.core.config.pairCooldownMs }
        links := w.awaiting.elim s.view.links fun a => s.view.links.erase a.link
        actions := s.view.actions ++
          ((w.awaiting.elim [] fun a => [.close a.link .closed]) ++
            [.ui (.pairingFailed "nobody confirmed the pairing in time")]) }) : Head i s t
  | denied {a deadline t} (event : i.event = .localCommand (.confirmPairing false))
      (window : s.core.pairing = some ⟨deadline, some a⟩)
      (view : t.view = { s.view with
        trust := { s.view.trust with
          pairing := none
          pairQuietUntil := i.now.monotonicMs + s.core.config.pairDeniedCooldownMs }
        links := s.view.links.erase a.link
        actions := s.view.actions ++ [.close a.link (.protocol .notAllowed),
          .ui (.pairingFailed "the codes did not match")] }) : Head i s t
  | unkeyed {a deadline t} (event : i.event = .localCommand (.confirmPairing true))
      (window : s.core.pairing = some ⟨deadline, some a⟩) (nokey : a.record.id X = none)
      (view : t.view = { s.view with
        trust := { s.view.trust with pairing := some ⟨deadline, none⟩ } }) : Head i s t
  | confirmed {a deadline id t} (event : i.event = .localCommand (.confirmPairing true))
      (window : s.core.pairing = some ⟨deadline, some a⟩) (key : a.record.id X = some id)
      (view : t.view = { s.view with
        trust := { s.view.trust with
          pairing := none
          peers := s.core.peers.insert id a.record }
        links := s.view.links.erase a.link
        actions := s.view.actions ++ [Core.peerBlob X a.record,
          .ui (.pairingComplete id a.record.name), .close a.link .closed] }) : Head i s t
  | claimed {transport addr d t} (event : i.event = .localCommand (.requestPairing transport addr))
      (free : s.core.pairing = none)
      (view : t.view = { s.view with
        trust := { s.view.trust with
          pairing := some ⟨i.now.monotonicMs + s.core.config.pairingWindowMs, none⟩
          pendingPairDials := s.core.pendingPairDials.insert d (transport, addr) }
        actions := s.view.actions ++ [.dial transport addr d] }) : Head i s t
  | revoked {peer t} (event : i.event = .localCommand (.revoke peer))
      (view : t.view = { s.view with
        trust := { s.view.trust with peers := s.core.peers.erase peer }
        actions := s.view.actions ++ [.persist ("peer/" ++ peer.str) none .secret] }) : Head i s t

/-- What follows: messages, dials and announcements, and links leaving the table in order. -/
inductive Aftermath [Plugin P] (nowMs : ℕ) : Exec X P → Exec X P → Prop where
  | drift {s t : Exec X P} (h : Drift s t) : Aftermath nowMs s t
  | close (s : Exec X P) (l : LinkId) (r : LinkDownReason) : Aftermath nowMs s (s.push (.close l r))
  | forget {s : Exec X P} {l : LinkId} (h : ∀ u : UpLink X, s.core.links[l]? ≠ some (.up u)) :
      Aftermath nowMs s (s.unlink l)
  | lose {s : Exec X P} {l : LinkId} {u : UpLink X} (h : s.core.links[l]? = some (.up u)) :
      Aftermath nowMs s ((s.unlink l).lostUpLink nowMs u)
  | trans {s t r : Exec X P} (h : Aftermath nowMs s t) (h' : Aftermath nowMs t r) :
      Aftermath nowMs s r

namespace Aftermath
variable [Plugin P] {nowMs : ℕ} {s t : Exec X P} {l : LinkId}

theorem trust (h : Aftermath nowMs s t) : t.core.trust = s.core.trust := by
  induction h with
  | drift h => exact h.trust
  | close => rfl
  | forget => rfl
  | lose => exact (Exec.lostUpLink_stir _ _ _).trust
  | trans _ _ ih ih' => exact ih'.trans ih

/-- What an aftermath puts on each link, and what becomes of the link. -/
theorem trace (h : Aftermath nowMs s t) : Trace Action.unstored LinkFate s t := by
  have stir : ∀ {s t : Exec X P}, Stir s t → Trace Action.unstored LinkFate s t := fun h =>
    h.trace.mono (fun _ => Action.unstored_of_minor) (fun _ _ _ _ => .drift)
  have erased : ∀ (s : Exec X P) (l : LinkId), Trace Action.unstored LinkFate s (s.unlink l) := by
    intro s l
    refine ⟨[], [], by simp [Exec.unlink], by simp [Exec.unlink], by simp, by simp, fun b _ l' => ?_⟩
    refine ⟨_, .refl _, ?_⟩
    simp only [Exec.unlink, ExtTreeMap.getElem?_erase]
    split
    · exact .inr rfl
    · exact .inl rfl
  induction h with
  | drift h => exact stir h.toStir
  | close s l r =>
    refine ⟨[.close l r], [], rfl, by simp [Exec.push], by simp [Action.unstored], by simp [framesOn],
      fun b _ l' => ?_⟩
    exact .drift (.refl _)
  | forget => exact erased _ _
  | lose =>
    exact (erased _ _).trans (fun _ _ _ _ _ _ => LinkFate.trans) (stir (Exec.lostUpLink_stir _ _ _))
  | trans _ _ ih ih' => exact ih.trans (fun _ _ _ _ _ _ => LinkFate.trans) ih'

theorem up_of (h : Aftermath nowMs s t) {v : UpLink X} (hv : t.core.links[l]? = some (.up v)) :
    ∃ u fs, s.core.links[l]? = some (.up u) ∧ Sealing false u fs v := by
  obtain ⟨as, hist, -, -, -, -, hl⟩ := h.trace
  have hfate := hl false (by simp) l
  rw [hv] at hfate
  obtain ⟨u, hu, hs⟩ := hfate.up_of
  exact ⟨u, _, hu, hs⟩

theorem none_of (h : Aftermath nowMs s t) (hl : s.core.links[l]? = none) :
    t.core.links[l]? = none := by
  obtain ⟨as, hist, -, -, -, -, hfate⟩ := h.trace
  have := hfate false (by simp) l
  rw [hl] at this
  exact this.of_none.1

theorem pending_of (h : Aftermath nowMs s t) {p : PendingLink}
    (hp : t.core.links[l]? = some (.pending p)) : s.core.links[l]? = some (.pending p) := by
  obtain ⟨as, hist, -, -, -, -, hl⟩ := h.trace
  have hfate := hl false (by simp) l
  rw [hp] at hfate
  exact hfate.pending_of

theorem handshaking_of (h : Aftermath nowMs s t) {h' : HandshakingLink X}
    (hh : t.core.links[l]? = some (.handshaking h')) :
    ∃ h₀, s.core.links[l]? = some (.handshaking h₀) ∧
      h' = { h₀ with fallback := h'.fallback } := by
  obtain ⟨as, hist, -, -, -, -, hl⟩ := h.trace
  have hfate := hl false (by simp) l
  rw [hh] at hfate
  exact hfate.handshaking_of

end Aftermath

/-- A step outlined: its head and its aftermath. -/
def Outline [Plugin P] (i : Core.Input X) (s t : Exec X P) : Prop :=
  ∃ mid, Head i s mid ∧ Aftermath i.now.monotonicMs mid t

end Acrylius
