import Acrylius.Core.Forgetting

/-! A device that was revoked and is not paired again stays forgotten, if nothing was under way
towards it when it was revoked. -/
namespace Acrylius
open Proto Std

variable {X : Crates} {P : Type}

namespace Exec
variable {p : DeviceId} {s : Exec X P}

theorem failLink_clear (h : Clear p s) (l : LinkId) (detail : String) :
    Clear p (s.failLink l detail) := by
  unfold failLink
  exact ((h.unlink l).add (.close l (.protocol .notAllowed)) rfl).say _ rfl

theorem dialPeer_clear (h : Clear p s) (nowMs : ℕ) {peer : DeviceId} (hp : peer ≠ p)
    (route : TransportId × String) (routes : List (TransportId × String)) (byHand : Bool) :
    Clear p (s.dialPeer nowMs peer route routes byHand) := by
  unfold dialPeer
  refine Clear.add ?_ _ rfl
  refine ⟨h.store, h.keyed, h.addrs, h.trouble, ?_, h.links, ?_, h.told⟩
  · intro d e he
    rcases Lib.getElem?_of_insert he with ⟨-, rfl⟩ | ⟨-, hold⟩
    · exact hp
    · exact h.dials d e hold
  · intro e he
    rcases List.mem_append.mp he with hold | hnew
    · exact h.made e hold
    · rw [List.mem_singleton.mp hnew]
      exact hp

theorem unreachable_ne {p q : DeviceId} (h : q ≠ p) : (UiEvent.peerUnreachable q).presence ≠ some p := by
  intro he
  exact h (Option.some.inj he)

theorem reachable_ne {p q : DeviceId} (h : q ≠ p) (name : String) :
    (UiEvent.peerReachable q name).presence ≠ some p := by
  intro he
  exact h (Option.some.inj he)

theorem tryNextRoute_clear (h : Clear p s) (nowMs : ℕ) {pending : PeerDial} (hp : pending.peer ≠ p)
    (why : String) : Clear p (s.tryNextRoute nowMs pending why) := by
  unfold tryNextRoute
  split
  · exact h
  · split
    · dsimp only
      split
      · exact (h.insertTrouble hp why).ui _ (unreachable_ne hp)
      · exact h.insertTrouble hp why
    · exact dialPeer_clear h nowMs hp _ _ _

theorem adoptAttempt_clear (h : Clear p s) (peer : DeviceId) : Clear p (s.adoptAttempt peer) := by
  have hadopt : ∀ d : PeerDial,
      (if d.peer = peer then { d with byHand := true } else d).peer = d.peer := by
    intro d
    split <;> rfl
  refine ⟨h.store, h.keyed, h.addrs, h.trouble, ?_, ?_, h.made, h.told⟩
  · intro d e he
    simp only [adoptAttempt, ExtTreeMap.getElem?_map, Option.map_eq_some_iff] at he
    obtain ⟨e', he', rfl⟩ := he
    rw [hadopt]
    exact h.dials d e' he'
  · intro l st hst
    simp only [adoptAttempt, ExtTreeMap.getElem?_map, Option.map_eq_some_iff] at hst
    obtain ⟨st', hst', rfl⟩ := hst
    have hold := h.links l st' hst'
    cases st' with
    | pending q => exact hold
    | up u => exact hold
    | handshaking g =>
      simpa [LinkState.face, Face.Regards, Option.map_map, Function.comp_def, hadopt] using hold

theorem connectRoutes_clear (h : Clear p s) (nowMs : ℕ) {peer : DeviceId} (hp : peer ≠ p)
    (routes : List (TransportId × String)) (byHand : Bool) :
    Clear p (s.connectRoutes nowMs peer routes byHand) := by
  unfold connectRoutes
  split
  · dsimp only
    split
    · refine Clear.ui (Clear.say ?_ _ rfl) _ (unreachable_ne hp)
      exact h.insertTrouble hp nowhere
    · exact h.insertTrouble hp nowhere
  · exact dialPeer_clear h nowMs hp _ _ _

theorem connectPeer_clear (h : Clear p s) (nowMs : ℕ) {peer : DeviceId} (hp : peer ≠ p)
    (byHand : Bool) : Clear p (s.connectPeer nowMs peer byHand) := by
  unfold connectPeer
  split
  · exact h
  dsimp only
  split
  · exact connectRoutes_clear h nowMs hp _ _
  · split
    · exact adoptAttempt_clear h peer
    · exact h
  · split
    · exact h.ui _ (reachable_ne hp _)
    · split
      · exact h
      · split
        · exact h
        · exact connectRoutes_clear h nowMs hp _ _

theorem insertLink_pending_clear (h : Clear p s) (l : LinkId) (q : PendingLink) :
    Clear p (s.insertLink l (.pending q)) :=
  h.insertLink l id

theorem startSessionInitiator_clear (h : Clear p s) (seed : X.Seed) (l : LinkId) {peer : DeviceId}
    (attrs : LinkAttrs) (deadline : ℕ) {fallback : Option PeerDial}
    (hf : fallback.map (·.peer) ≠ some p) :
    Clear p (s.startSessionInitiator seed l peer attrs deadline fallback) := by
  unfold startSessionInitiator
  split
  · exact failLink_clear h _ _
  rename_i record hrecord
  split
  · split
    · exact failLink_clear h _ _
    split
    · exact failLink_clear h _ _
    refine Clear.insertLink (h.add _ rfl) l ?_
    rintro (he | hn)
    · exact h.ne_of_known hrecord (Option.some.inj he)
    · exact hf hn
  · exact failLink_clear h _ _

theorem startPairInitiator_clear (h : Clear p s) (seed : X.Seed) (l : LinkId) (attrs : LinkAttrs)
    (deadline : ℕ) (via : TransportId × String) :
    Clear p (s.startPairInitiator seed l attrs deadline via) := by
  unfold startPairInitiator
  split
  · exact failLink_clear h _ _
  split
  · exact failLink_clear h _ _
  exact Clear.insertLink (h.add _ rfl) l (by simp [LinkState.face, Face.Regards])

theorem onLinkUp_clear (h : Clear p s) (nowMs : ℕ) (seed : X.Seed) (l : LinkId) (attrs : LinkAttrs)
    (dial : Option DialToken) : Clear p (s.onLinkUp nowMs seed l attrs dial) := by
  unfold onLinkUp
  dsimp only
  split
  · refine startPairInitiator_clear ?_ _ _ _ _ _
    exact h.of_same rfl rfl rfl rfl rfl
  · split
    · rename_i d due pending hdial
      obtain ⟨d', -, hd'⟩ := Option.bind_eq_some_iff.mp hdial
      obtain ⟨e, he, heq⟩ := Option.map_eq_some_iff.mp hd'
      cases heq
      refine startSessionInitiator_clear (h.eraseDial d) _ _ _ _ ?_
      intro hp
      exact h.dials d _ he (Option.some.inj hp)
    · exact insertLink_pending_clear h l _

theorem acceptHello_clear (h : Clear p s) (peer : DeviceId) (payload : Bytes) :
    Clear p (s.acceptHello peer payload).1 := by
  unfold acceptHello
  split
  · exact h.say _ rfl
  split
  · exact h
  · rename_i record hrecord
    split
    · refine Clear.add ?_ _ rfl
      exact h.insertPeer (h.ne_of_known hrecord) (h.keyed peer record hrecord)
    · exact h.say _ rfl

theorem pairingAttemptFailed_clear (h : Clear p s) (nowMs : ℕ) (l : LinkId) :
    Clear p (s.pairingAttemptFailed nowMs l) := by
  unfold pairingAttemptFailed
  dsimp only
  have hfail := failLink_clear h l "pairing handshake failed"
  refine Clear.say ?_ _ rfl
  exact hfail.of_same rfl rfl rfl rfl rfl

theorem pairingCompleted_clear (h : Clear p s) (nowMs : ℕ) (l : LinkId) (g : HandshakingLink X)
    (payload : Bytes) : Clear p (s.pairingCompleted nowMs l g payload) := by
  unfold pairingCompleted
  split
  · split
    · exact pairingAttemptFailed_clear h nowMs l
    · have hpending := insertLink_pending_clear h l { attrs := g.attrs, deadline := g.deadline }
      dsimp only
      split
      · exact failLink_clear hpending _ _
      · exact failLink_clear hpending _ _
      · refine Clear.say ?_ _ rfl
        exact hpending.of_same rfl rfl rfl rfl rfl
  · exact failLink_clear h _ _

theorem keepRoutes_clear (h : Clear p s) {id : DeviceId} (hid : id ≠ p) (a : AwaitingConfirm) :
    Clear p (s.keepRoutes id a) := by
  unfold keepRoutes
  dsimp only
  split
  · exact h.insertAddrs hid _
  · split
    · exact h.insertAddrs hid _
    · exact h

theorem confirmPairing_clear (h : Clear p s) (nowMs : ℕ) {accept : Bool}
    (hother : accept = true → ∀ deadline a, s.core.pairing = some ⟨deadline, some a⟩ →
      a.record.id X ≠ some p) : Clear p (s.confirmPairing nowMs accept) := by
  unfold confirmPairing
  split
  · rename_i deadline a hw
    cases accept with
    | false =>
      have hclosed := (h.add (.close a.link (.protocol .notAllowed)) rfl).unlink a.link
      refine Clear.say ?_ _ rfl
      exact hclosed.of_same rfl rfl rfl rfl rfl
    | true =>
      rw [if_neg (by decide)]
      split
      · exact h.of_same rfl rfl rfl rfl rfl
      · rename_i id hid
        have hne : id ≠ p := by
          rintro rfl
          exact hother rfl deadline a hw hid
        have hkept := ((keepRoutes_clear h hne a).add (Core.peerBlob X a.record) rfl).say
          (.pairingComplete id a.record.name) rfl
        have hstored := (hkept.insertPeer hne hid).add (.close a.link .closed) rfl
        exact (hstored.unlink a.link).of_same rfl rfl rfl rfl rfl
  · exact h

theorem onPairOpener_clear (h : Clear p s) (nowMs : ℕ) (seed : X.Seed) (l : LinkId)
    (q : PendingLink) (body : Bytes) : Clear p (s.onPairOpener nowMs seed l q body) := by
  unfold onPairOpener
  split
  · exact failLink_clear h _ _
  split
  · exact failLink_clear h _ _
  split
  · refine failLink_clear ?_ _ _
    exact h.of_same rfl rfl rfl rfl rfl
  split
  · exact failLink_clear h _ _
  · refine Clear.insertLink (Clear.add ?_ _ rfl) l ?_
    · exact h.of_same rfl rfl rfl rfl rfl
    · simp [LinkState.face, Face.Regards]

theorem announce_clear (h : Clear p s) (fp : Fingerprint) : Clear p (s.announce fp) := by
  unfold announce
  split
  · exact h
  · split
    · exact h
    · split
      · exact h
      · exact h.say _ rfl

theorem lapsePairing_clear (h : Clear p s) (nowMs : ℕ) : Clear p (s.lapsePairing nowMs) := by
  unfold lapsePairing
  split
  · exact h
  · split
    · exact h
    · refine Clear.say ?_ _ rfl
      split
      · rename_i a ha
        have hclosed := (h.add (.close a.link .closed) rfl).unlink a.link
        exact hclosed.of_same rfl rfl rfl rfl rfl
      · exact h.of_same rfl rfl rfl rfl rfl

/-- A link that goes while it was in handshake leaves its fallback, which is for somebody else. -/
theorem fallback_ne (h : Clear p s) {l : LinkId} {g : HandshakingLink X} {pending : PeerDial}
    (hl : s.core.links[l]? = some (.handshaking g)) (hf : g.fallback = some pending) :
    pending.peer ≠ p := by
  rintro rfl
  refine h.links l _ hl (.inr ?_)
  rw [hf]
  rfl

theorem closeStale_clear (h : Clear p s) (nowMs : ℕ) (l : LinkId) :
    Clear p (s.closeStale nowMs l) := by
  have hclosed := (h.unlink l).add (.close l .closed) rfl
  unfold closeStale
  dsimp only
  split
  · rename_i g hl
    split
    · exact tryNextRoute_clear hclosed nowMs (fallback_ne h hl ‹_›) _
    · exact hclosed
  · exact hclosed

theorem expireDial_clear (h : Clear p s) (nowMs : ℕ) (d : DialToken) :
    Clear p (s.expireDial nowMs d) := by
  unfold expireDial
  split
  · exact h
  · rename_i due pending hd
    exact tryNextRoute_clear (h.eraseDial d) nowMs (h.dials d _ hd) _

theorem onDialFailed_clear (h : Clear p s) (nowMs : ℕ) (d : DialToken) (reason : String) :
    Clear p (s.onDialFailed nowMs d reason) := by
  unfold onDialFailed
  split
  · refine Clear.say ?_ _ rfl
    exact h.of_same rfl rfl rfl rfl rfl
  · split
    · rename_i due pending hd
      exact tryNextRoute_clear (h.eraseDial d) nowMs (h.dials d _ hd) _
    · exact h

theorem ne_of_mem (h : Clear p s) {q : DeviceId} (hq : q ∈ s.core.peers) : q ≠ p := by
  rintro rfl
  exact h.store hq

theorem heartbeat_clear (h : Clear p s) (nowMs : ℕ) : Clear p (s.heartbeat nowMs) := by
  unfold heartbeat
  split
  · refine Clear.foldl (fun r q hq hr => ?_) (h.of_same rfl rfl rfl rfl rfl)
    have hmem : q ∈ s.core.peers := ExtTreeMap.mem_keys.mp (List.mem_filter.mp hq).1
    exact connectPeer_clear hr nowMs (ne_of_mem h hmem) false
  · exact h

theorem recordOf_mem {c : Core X P} {fp : Fingerprint} {r : PeerRecord}
    (h : c.recordOf fp = some r) : ∃ q : DeviceId, c.peers[q]? = some r := by
  obtain ⟨⟨q, r'⟩, hfind, rfl⟩ := Option.map_eq_some_iff.mp h
  exact ⟨q, ExtTreeMap.mem_toList_iff_getElem?_eq_some.mp (List.mem_of_find?_eq_some hfind)⟩

theorem onDiscovered_clear (h : Clear p s) (nowMs : ℕ) (transport : TransportId)
    (peer : DiscoveredPeer) : Clear p (s.onDiscovered nowMs transport peer) := by
  unfold onDiscovered
  split
  · exact h
  dsimp only
  split
  · rename_i fp _ id hid
    -- A record lies under the id of its own key, so whoever is found by it is a peer.
    obtain ⟨r, hr, hkey⟩ := Option.bind_eq_some_iff.mp hid
    obtain ⟨q, hq⟩ := recordOf_mem hr
    have hsame : q = id := Option.some.inj ((h.keyed q r hq).symm.trans hkey)
    have hne : id ≠ p := hsame ▸ h.ne_of_known hq
    refine connectPeer_clear ?_ nowMs hne false
    exact Clear.of_same (h.insertAddrs hne _) rfl rfl rfl rfl rfl
  · refine announce_clear ?_ _
    exact h.of_same rfl rfl rfl rfl rfl

theorem onUndiscovered_clear (h : Clear p s) (transport : TransportId) (addr : String) :
    Clear p (s.onUndiscovered transport addr) := by
  unfold onUndiscovered
  dsimp only
  refine Clear.foldl (fun r fp _ hr => ?_) ?_
  · split
    · exact hr.of_same rfl rfl rfl rfl rfl
    · refine Clear.say ?_ _ rfl
      exact hr.of_same rfl rfl rfl rfl rfl
  · exact h.of_same rfl rfl rfl rfl rfl

theorem requestPairing_clear (h : Clear p s) (nowMs : ℕ) (transport : TransportId) (addr : String) :
    Clear p (s.requestPairing nowMs transport addr) := by
  unfold requestPairing
  split
  · exact h.say _ rfl
  · refine Clear.add ?_ _ rfl
    exact h.of_same rfl rfl rfl rfl rfl

section Plugins
variable [Plugin P] (law : Plugin.Modest P)
include law

theorem callPlugin_clear (h : Clear p s) (idx : ℕ) {cx : Cx} (hcx : cx.ui = []) (c : Call) :
    Clear p (s.callPlugin idx cx fun q cx => Plugin.call q cx c).1 :=
  h.aloof (callPlugin_aloof s idx cx _ fun q => law q cx c (Cx.demure_of_nil hcx))

/-- A call whose failure is told to somebody, by an event or an `err` message. -/
theorem callPlugin_then_clear (h : Clear p s) (idx : ℕ) {cx : Cx} (hcx : cx.ui = []) (c : Call)
    (tell : Exec X P → PluginError → Exec X P) (ht : ∀ r e, Aloof r (tell r e)) :
    Clear p (match s.callPlugin idx cx fun q cx => Plugin.call q cx c with
      | (s, some (.error e)) => tell s e
      | (s, _) => s) := by
  have hcall := callPlugin_clear law h idx hcx c
  split
  · rename_i heq
    rw [heq] at hcall
    exact hcall.aloof (ht _ _)
  · rename_i heq
    rw [heq] at hcall
    exact hcall

theorem callAll_clear (h : Clear p s) (nowMs : ℕ) (c : Call) : Clear p
    (s.callAllPlugins nowMs fun q cx => ((Plugin.call q cx c).1, (Plugin.call q cx c).2.1)) :=
  h.aloof (callAllPlugins_aloof s nowMs _ fun q cx hcx => law q cx c hcx)

theorem lostUpLink_clear (h : Clear p s) (nowMs : ℕ) {u : UpLink X} (hu : u.peer ≠ p) :
    Clear p (s.lostUpLink nowMs u) := by
  unfold lostUpLink
  split
  · exact h.ui _ (reachable_ne hu _)
  · refine callAll_clear law ?_ nowMs (.disconnected u.peer)
    have htold := h.ui (.peerUnreachable u.peer) (unreachable_ne hu)
    exact htold.of_same rfl rfl rfl rfl rfl

theorem onLinkDown_clear (h : Clear p s) (nowMs : ℕ) (l : LinkId) :
    Clear p (s.onLinkDown nowMs l) := by
  have hgone := h.unlink l
  unfold onLinkDown
  dsimp only
  split
  · rename_i u hl
    exact lostUpLink_clear law hgone nowMs (h.links l _ hl)
  · rename_i g hl
    refine fallback_cases (R := fun r r' => Clear p r → Clear p r') id
      (fun pending hp hr => tryNextRoute_clear hr nowMs (fallback_ne h hl hp) _) ?_
    split
    · exact hgone.of_same rfl rfl rfl rfl rfl
    · exact hgone
  · exact hgone

theorem failUpLink_clear (h : Clear p s) (nowMs : ℕ) (l : LinkId) {u : UpLink X} (hu : u.peer ≠ p)
    (detail : String) : Clear p (s.failUpLink nowMs l u detail) := by
  have hput : Clear p (s.insertLink l (.up u)) := h.insertLink l hu
  unfold failUpLink
  exact onLinkDown_clear law ((hput.add (.close l (.protocol .notAllowed)) rfl).say _ rfl) nowMs l

theorem finishSession_clear (h : Clear p s) (nowMs : ℕ) (l : LinkId) (hs : Handshake X)
    (attrs : LinkAttrs) (peer : DeviceId) : Clear p (s.finishSession nowMs l hs attrs peer) := by
  unfold finishSession
  dsimp only
  split
  · exact failLink_clear h _ _
  split
  · exact failLink_clear h _ _
  rename_i record hrecord
  have hne := h.ne_of_known hrecord
  refine callAll_clear law (Clear.ui ?_ _ (reachable_ne hne _)) nowMs (.connected peer)
  have hup : ∀ u : UpLink X, u.peer = peer → Clear p (s.insertLink l (.up u)) := by
    rintro u rfl
    exact h.insertLink l hne
  refine ⟨h.store, h.keyed, h.addrs, ?_, h.dials, (hup _ rfl).links, h.made, h.told⟩
  rw [Lib.mem_erase]
  exact fun hm => h.trouble hm.2

omit [Plugin P] law in
theorem acceptHello_then_clear (h : Clear p s) {peer : DeviceId} {payload : Bytes}
    {next : Exec X P → Exec X P} (l : LinkId) (detail : String)
    (hnext : ∀ r, Clear p r → Clear p (next r)) :
    Clear p (match s.acceptHello peer payload with
      | (s, false) => s.failLink l detail
      | (s, true) => next s) := by
  have hc := acceptHello_clear h peer payload
  split
  · rename_i r heq
    rw [heq] at hc
    exact failLink_clear hc _ _
  · rename_i r heq
    rw [heq] at hc
    exact hnext r hc

theorem onSessionOpener_clear (h : Clear p s) (nowMs : ℕ) (seed : X.Seed) (l : LinkId)
    (q : PendingLink) (body : Bytes) : Clear p (s.onSessionOpener nowMs seed l q body) := by
  unfold onSessionOpener
  split
  · exact failLink_clear h _ _
  dsimp only
  split
  · exact failLink_clear h _ _
  split
  · exact failLink_clear h _ _
  split
  · exact failLink_clear h _ _
  split
  · exact failLink_clear h _ _
  refine acceptHello_then_clear h l _ fun r hr => ?_
  split
  · exact failLink_clear hr _ _
  · exact finishSession_clear law (hr.add _ rfl) _ _ _ _ _

theorem onFirstFrame_clear (h : Clear p s) (nowMs : ℕ) (seed : X.Seed) (l : LinkId)
    (q : PendingLink) (kind : FrameKind) (body : Bytes) :
    Clear p (s.onFirstFrame nowMs seed l q kind body) := by
  cases kind with
  | pairHandshake => exact onPairOpener_clear h _ _ _ _ _
  | sessionHandshake => exact onSessionOpener_clear law h _ _ _ _ _
  | transport => exact failLink_clear h _ _

theorem afterHandshakeRead_clear (h : Clear p s) (nowMs : ℕ) (l : LinkId) {g : HandshakingLink X}
    (hg : ¬ (LinkState.handshaking g).face.Regards p) (payload : Bytes) :
    Clear p (s.afterHandshakeRead nowMs l g payload) := by
  unfold afterHandshakeRead
  split
  · exact h.insertLink l hg
  split
  · exact pairingCompleted_clear h _ _ _ _
  · unfold onSessionReply
    split
    · exact failLink_clear h _ _
    · exact acceptHello_then_clear h l _ fun r hr => finishSession_clear law hr _ _ _ _ _

theorem onHandshakeFrame_clear (h : Clear p s) (nowMs : ℕ) (l : LinkId) {g : HandshakingLink X}
    (hg : ¬ (LinkState.handshaking g).face.Regards p) (kind : FrameKind) (body : Bytes) :
    Clear p (s.onHandshakeFrame nowMs l g kind body) := by
  unfold onHandshakeFrame
  by_cases hkind : kind = if g.pairingFlow then .pairHandshake else .sessionHandshake
  case neg =>
    rw [if_pos hkind]
    exact failLink_clear h _ _
  rw [if_neg (not_not.mpr hkind)]
  have hg' : ∀ hs : Handshake X, ¬ (LinkState.handshaking { g with hs }).face.Regards p :=
    fun _ => hg
  cases g.hs.read body with
  | error e =>
    dsimp only
    split
    · exact pairingAttemptFailed_clear h _ _
    · exact failLink_clear h _ _
  | ok r =>
    dsimp only
    split
    · split
      · refine afterHandshakeRead_clear law ?_ _ _ (hg' _) _
        exact h.add _ rfl
      · exact failLink_clear h _ _
    · exact afterHandshakeRead_clear law h _ _ (hg' _) _

theorem routeEnvelope_clear (h : Clear p s) (nowMs : ℕ) (peer : DeviceId) (env : Envelope) :
    Clear p (s.routeEnvelope nowMs peer env) := by
  unfold routeEnvelope
  split
  · exact h.aloof (sendError_aloof _ _ _ _)
  · exact callPlugin_then_clear law h _ rfl (.message peer env)
      (fun r e => r.sendError peer env e.code) fun r e => sendError_aloof _ _ _ _

theorem onTransportFrame_clear (h : Clear p s) (nowMs : ℕ) (l : LinkId) {u : UpLink X}
    (hu : u.peer ≠ p) (kind : FrameKind) (body : Bytes) :
    Clear p (s.onTransportFrame nowMs l u kind body) := by
  have hput : ∀ (session : Session X) (lastRecvMs : ℕ),
      Clear p (s.insertLink l (.up { u with session, lastRecvMs })) := fun _ _ => h.insertLink l hu
  unfold onTransportFrame
  split
  · exact failUpLink_clear law h nowMs l hu _
  split
  · exact failUpLink_clear law h nowMs l hu _
  dsimp only
  split
  · exact (hput _ _).say _ rfl
  split
  · exact (hput _ _).aloof (sendError_aloof _ _ _ _)
  split
  · exact (hput _ _).say _ rfl
  · exact routeEnvelope_clear law (hput _ _) _ _ _

theorem onLinkRecv_clear (h : Clear p s) (nowMs : ℕ) (seed : X.Seed) (l : LinkId) (msg : Bytes) :
    Clear p (s.onLinkRecv nowMs seed l msg) := by
  have hgone := h.unlink l
  unfold onLinkRecv
  split
  · exact failLink_clear h _ _
  dsimp only
  split
  · exact onFirstFrame_clear law hgone _ _ _ _ _ _
  · rename_i g hl
    exact onHandshakeFrame_clear law hgone _ _ (h.links l _ hl) _ _
  · rename_i u hl
    exact onTransportFrame_clear law hgone _ _ (h.links l _ hl) _ _
  · exact failLink_clear hgone _ _

theorem closeUpLinks_clear (h : Clear p s) (nowMs : ℕ) (peer : DeviceId) (reason : LinkDownReason) :
    Clear p (s.closeUpLinks nowMs peer reason) :=
  Clear.foldl (fun _ e _ hr => onLinkDown_clear law (hr.add (.close e.1 reason) rfl) nowMs e.1) h

theorem handleRevoke_clear (h : Clear p s) (nowMs : ℕ) (peer : DeviceId) :
    Clear p (s.handleRevoke nowMs peer) := by
  have hforgot : Clear p { s with core := { s.core with
      peers := s.core.peers.erase peer
      addrs := s.core.addrs.erase peer
      dialTrouble := s.core.dialTrouble.erase peer } } := by
    refine ⟨?_, ?_, ?_, ?_, h.dials, h.links, h.made, h.told⟩
    · exact fun hm => h.store (Lib.mem_erase.mp hm).2
    · exact fun q r hr => h.keyed q r (Lib.getElem?_of_erase hr).2
    · exact fun hm => h.addrs (Lib.mem_erase.mp hm).2
    · exact fun hm => h.trouble (Lib.mem_erase.mp hm).2
  have hclosed := closeUpLinks_clear law
    (hforgot.add (.persist ("peer/" ++ peer.str) none .secret) rfl) nowMs peer (.protocol .notPaired)
  unfold handleRevoke
  dsimp only
  split
  · exact announce_clear (hclosed.say _ rfl) _
  · exact hclosed.say _ rfl

theorem onLocalPlugin_clear (h : Clear p s) (nowMs : ℕ) (peer : DeviceId) (cap ty : String)
    (body : Bytes) : Clear p (s.onLocalPlugin nowMs peer cap ty body) := by
  unfold onLocalPlugin
  split
  · exact h.say _ rfl
  · exact callPlugin_then_clear law h _ rfl (.request peer ty body)
      (fun r e => r.ui (.error (some peer) e.code e.toString)) fun r e => .ui _ _ rfl

theorem dispatchToTransferOwner_clear (h : Clear p s) (nowMs : ℕ) (t : TransferId)
    (hook : P → Cx → P × Cx) {c : Call}
    (hc : ∀ q cx, (hook q cx).2 = (Plugin.call q cx c).2.1) :
    Clear p (s.dispatchToTransferOwner nowMs t hook) := by
  unfold dispatchToTransferOwner
  split
  · exact h
  · refine h.aloof (callPlugin_aloof s _ _ _ fun q => ?_)
    have hmodest := law q (s.cx nowMs) c (Cx.demure_of_nil rfl)
    rwa [← hc] at hmodest

theorem onEffectDone_clear (h : Clear p s) (nowMs : ℕ) (token : EffectToken)
    (result : EffectResult) : Clear p (s.onEffectDone nowMs token result) := by
  unfold onEffectDone
  split
  · exact h
  · refine Clear.aloof ?_ (callPlugin_aloof _ _ _ _ fun q =>
      law q _ (.effectResult token result) (Cx.demure_of_nil rfl))
    exact h.of_same rfl rfl rfl rfl rfl

theorem giveUpBulk_clear (h : Clear p s) (nowMs : ℕ) (t : TransferId) :
    Clear p (s.giveUpBulk nowMs t) := by
  have hstopped : Clear p { s with core.bulkWait := s.core.bulkWait.erase t } :=
    h.of_same rfl rfl rfl rfl rfl
  have hcancel := hstopped.add (.bulkCancel t) rfl
  have htold := dispatchToTransferOwner_clear law hcancel nowMs t
    (fun q cx => Plugin.onBulkFinished q cx t false "the sender never connected")
    (c := .bulkFinished t false "the sender never connected") fun _ _ => rfl
  exact htold.of_same rfl rfl rfl rfl rfl

theorem wakePlugins_clear (h : Clear p s) (nowMs : ℕ) : Clear p (s.wakePlugins nowMs) := by
  unfold wakePlugins
  split
  · exact h
  · split
    · exact h
    · refine callAll_clear law ?_ nowMs .tick
      exact h.of_same rfl rfl rfl rfl rfl

theorem onTick_clear (h : Clear p s) (nowMs : ℕ) : Clear p (s.onTick nowMs) := by
  have hlapsed := lapsePairing_clear h nowMs
  have hgiven : Clear p ((s.lapsePairing nowMs).giveUpWaiting nowMs) :=
    Clear.foldl (fun _ t _ hr => giveUpBulk_clear law hr nowMs t) hlapsed
  have hclosed : Clear p (((s.lapsePairing nowMs).giveUpWaiting nowMs).closeStaleLinks nowMs) :=
    Clear.foldl (fun _ l _ hr => closeStale_clear hr nowMs l) hgiven
  have hexpired : Clear p
      ((((s.lapsePairing nowMs).giveUpWaiting nowMs).closeStaleLinks nowMs).expireDials nowMs) :=
    Clear.foldl (fun _ d _ hr => expireDial_clear hr nowMs d) hclosed
  exact wakePlugins_clear law (heartbeat_clear hexpired nowMs) nowMs

end Plugins
end Exec

def LocalCommand.names : LocalCommand → Option DeviceId
  | .setPeerAddress peer _ _ | .connect peer | .disconnect peer | .revoke peer
  | .plugin peer _ _ _ => some peer
  | .requestPairing _ _ | .confirmPairing _ | .reconsiderRoutes => none

def Event.Names (p : DeviceId) : Event → Prop
  | .localCommand cmd => cmd.names = some p
  | _ => False

section Steps
variable [Plugin P] (law : Plugin.Modest P)
include law

theorem Exec.onLocal_clear {p : DeviceId} {s : Exec X P} (h : Clear p s) (nowMs : ℕ)
    {cmd : LocalCommand} (hcmd : cmd.names ≠ some p)
    (hother : cmd = .confirmPairing true → ∀ deadline a, s.core.pairing = some ⟨deadline, some a⟩ →
      a.record.id X ≠ some p) : Clear p (s.onLocal nowMs cmd) := by
  cases cmd with
  | requestPairing transport addr => exact requestPairing_clear h nowMs transport addr
  | confirmPairing accept =>
    refine confirmPairing_clear h nowMs ?_
    rintro rfl
    exact hother rfl
  | setPeerAddress peer transport addr =>
    have hne : peer ≠ p := fun he => hcmd (congrArg some he)
    simp only [onLocal]
    split
    · exact h.insertAddrs hne _
    · exact h.say _ rfl
  | connect peer =>
    have hne : peer ≠ p := fun he => hcmd (congrArg some he)
    exact connectPeer_clear h nowMs hne true
  | reconsiderRoutes =>
    refine Clear.foldl (fun r q hq hr => ?_) h
    exact connectPeer_clear hr nowMs (ne_of_mem h (ExtTreeMap.mem_keys.mp hq)) false
  | disconnect peer => exact closeUpLinks_clear law h nowMs peer .closed
  | revoke peer => exact handleRevoke_clear law h nowMs peer
  | plugin peer cap ty body => exact onLocalPlugin_clear law h nowMs peer cap ty body

theorem Exec.onEvent_clear {p : DeviceId} {s : Exec X P} (h : Clear p s) (nowMs : ℕ) (seed : X.Seed)
    {e : Event} (he : ¬ e.Names p)
    (hother : e = .localCommand (.confirmPairing true) → ∀ deadline a,
      s.core.pairing = some ⟨deadline, some a⟩ → a.record.id X ≠ some p) :
    Clear p (s.onEvent nowMs seed e) := by
  cases e with
  | linkUp l attrs dial => exact onLinkUp_clear h _ _ _ _ _
  | linkRecv l msg => exact onLinkRecv_clear law h _ _ _ _
  | linkDown l reason => exact onLinkDown_clear law h _ _
  | dialFailed d reason => exact onDialFailed_clear h _ _ _
  | discovered transport peer => exact onDiscovered_clear h _ _ _
  | undiscovered transport addr => exact onUndiscovered_clear h _ _
  | tick =>
    dsimp only [onEvent]
    exact onTick_clear law h _
  | bulkListening t endpoint =>
    exact dispatchToTransferOwner_clear law h _ _ _ (c := .bulkListening t endpoint) fun _ _ => rfl
  | bulkStarted t => exact h.of_same rfl rfl rfl rfl rfl
  | bulkFinished t ok detail =>
    have htold := dispatchToTransferOwner_clear law h nowMs t
      (fun q cx => Plugin.onBulkFinished q cx t ok detail)
      (c := .bulkFinished t ok detail) fun _ _ => rfl
    exact htold.of_same rfl rfl rfl rfl rfl
  | localCommand cmd =>
    refine onLocal_clear law h nowMs he ?_
    rintro rfl
    exact hother rfl
  | effectDone token result => exact onEffectDone_clear law h _ _ _

end Steps

/-- What is kept about peers stays, and so do the links, but for established ones that go. -/
structure Fade (s t : Exec X P) : Prop where
  roll : t.core.roll = s.core.roll
  face : ∀ l, t.core.face l = s.core.face l ∨
    t.core.face l = none ∧ ∃ q, s.core.face l = some (.up q)

namespace Fade
variable {s t r : Exec X P}

theorem of_same (hroll : t.core.roll = s.core.roll) (hlinks : t.core.links = s.core.links) :
    Fade s t :=
  ⟨hroll, fun l => .inl (by rw [Core.face, Core.face, hlinks])⟩

theorem of_aloof (h : Aloof s t) : Fade s t := ⟨h.roll, fun l => .inl (h.face l)⟩

theorem trans (h : Fade s t) (h' : Fade t r) : Fade s r := by
  refine ⟨h'.roll.trans h.roll, fun l => ?_⟩
  rcases h'.face l with hsame | ⟨hnone, q, hq⟩
  · rw [hsame]
    exact h.face l
  · rcases h.face l with hsame | ⟨hnone', -⟩
    · exact .inr ⟨hnone, q, hsame ▸ hq⟩
    · cases hnone'.symm.trans hq

theorem handshaking_iff (h : Fade s t) {l : LinkId} {expect next : Option DeviceId} :
    t.core.face l = some (.handshaking expect next) ↔
      s.core.face l = some (.handshaking expect next) := by
  rcases h.face l with hsame | ⟨hnone, q, hq⟩
  · rw [hsame]
  · simp [hnone, hq]

end Fade

namespace Exec
variable [Plugin P] (law : Plugin.Modest P)
include law

theorem lostUpLink_fade (s : Exec X P) (nowMs : ℕ) (u : UpLink X) :
    Fade s (s.lostUpLink nowMs u) := by
  unfold lostUpLink
  split
  · exact .of_same rfl rfl
  · refine Fade.trans ?_ (.of_aloof (callAllPlugins_aloof _ nowMs _ fun q cx hcx =>
      law q cx (.disconnected u.peer) hcx))
    exact .of_same rfl rfl

theorem onLinkDown_fade {s : Exec X P} {l : LinkId} (h : UpOrGone s l) (nowMs : ℕ) :
    Fade s (s.onLinkDown nowMs l) := by
  have hgone : Fade s (s.unlink l) := by
    refine ⟨rfl, fun l' => ?_⟩
    by_cases he : l' = l
    · subst he
      have hnone : (s.unlink l').core.face l' = none := by simp [Core.face, unlink]
      cases hl : s.core.links[l']? with
      | none => exact .inl (by rw [hnone, Core.face, hl]; rfl)
      | some st =>
        obtain ⟨u, rfl⟩ := h st hl
        exact .inr ⟨hnone, u.peer, Core.face_of hl⟩
    · refine .inl ?_
      unfold Core.face unlink
      rw [Lib.getElem?_erase_of_ne he]
  unfold onLinkDown
  cases hl : s.core.links[l]? with
  | none => exact hgone
  | some st =>
    obtain ⟨u, rfl⟩ := h st hl
    exact hgone.trans (lostUpLink_fade law _ nowMs u)

theorem closeEach_fade {nowMs : ℕ} (reason : LinkDownReason) (es : List (LinkId × UpLink X))
    (s : Exec X P) (h : ∀ e ∈ es, UpOrGone s e.1) :
    Fade s (es.foldl (fun s e => (s.push (.close e.1 reason)).onLinkDown nowMs e.1) s) := by
  induction es generalizing s with
  | nil => exact .of_same rfl rfl
  | cons e es ih =>
    have he : UpOrGone (s.push (.close e.1 reason)) e.1 := h e (by simp)
    have hpush : Fade s (s.push (.close e.1 reason)) := .of_same rfl rfl
    refine (hpush.trans (onLinkDown_fade law he nowMs)).trans (ih _ ?_)
    intro e' hmem
    exact UpOrGone.linkDown (s := s.push (.close e.1 reason)) (h e' (List.mem_cons_of_mem _ hmem))
      nowMs e.1 he

omit [Plugin P] law in
theorem announce_fade (s : Exec X P) (fp : Fingerprint) : Fade s (s.announce fp) := by
  unfold announce
  split
  · exact .of_same rfl rfl
  · split
    · exact .of_same rfl rfl
    · split
      · exact .of_same rfl rfl
      · exact .of_same rfl rfl

omit [Plugin P] law in
theorem revoked_fade (r : Exec X P) (peer : DeviceId) (fp : Option Fingerprint) :
    Fade r (match fp with
      | some fp => (r.ui (.revoked peer)).announce fp
      | none => r.ui (.revoked peer)) := by
  have htold : Fade r (r.ui (.revoked peer)) := .of_same rfl rfl
  split
  · exact htold.trans (announce_fade _ _)
  · exact htold

/-- Revoking a peer strikes it off the roll and closes its established links, and that is all. -/
theorem handleRevoke_fade (s : Exec X P) (nowMs : ℕ) (peer : DeviceId) :
    Fade { s with core := { s.core with
      peers := s.core.peers.erase peer
      addrs := s.core.addrs.erase peer
      dialTrouble := s.core.dialTrouble.erase peer } } (s.handleRevoke nowMs peer) := by
  unfold handleRevoke
  dsimp only
  refine Fade.trans ?_ (revoked_fade _ _ _)
  refine Fade.trans ?_ (closeEach_fade law (.protocol .notPaired) _ _ (upLinks_upOrGone _ peer))
  exact .of_same rfl rfl

end Exec

namespace Core

/-- Nothing is left of the peer: no address, no trouble in reaching it, no dial under way, no
handshake meant for it or that would dial it next, and it counts as unreachable. -/
structure Forgotten (p : DeviceId) (c : Core X P) : Prop where
  addrs : p ∉ c.addrs
  trouble : p ∉ c.dialTrouble
  dials : ∀ (d : DialToken) (e : ℕ × PeerDial), c.pendingPeerDials[d]? = some e → e.2.peer ≠ p
  expects : ∀ (l : LinkId) (h : HandshakingLink X), c.links[l]? = some (.handshaking h) →
    h.expect ≠ some p
  fallbacks : ∀ (l : LinkId) (h : HandshakingLink X), c.links[l]? = some (.handshaking h) →
    ∀ f, h.fallback = some f → f.peer ≠ p
  state : c.peerState p = .unreachable

/-- Something is under way towards the peer: a dial, or a handshake meant for it or that would
dial it next. -/
def underWay (p : DeviceId) (c : Core X P) : Bool :=
  c.pendingPeerDials.toList.any (fun e => e.2.2.peer = p) || c.links.toList.any fun
    | (_, .handshaking h) => h.expect = some p || h.fallback.any (·.peer = p)
    | _ => false

theorem underWay_iff {p : DeviceId} {c : Core X P} : c.underWay p ↔
    (∃ (d : DialToken) (e : ℕ × PeerDial), c.pendingPeerDials[d]? = some e ∧ e.2.peer = p) ∨
      ∃ l expect next, c.face l = some (.handshaking expect next) ∧
        (expect = some p ∨ next = some p) := by
  unfold underWay
  rw [Bool.or_eq_true, List.any_eq_true, List.any_eq_true]
  refine or_congr ?_ ?_
  · constructor
    · rintro ⟨⟨d, e⟩, hmem, hp⟩
      exact ⟨d, e, ExtTreeMap.mem_toList_iff_getElem?_eq_some.mp hmem, by simpa using hp⟩
    · rintro ⟨d, e, he, hp⟩
      exact ⟨(d, e), ExtTreeMap.mem_toList_iff_getElem?_eq_some.mpr he, by simpa using hp⟩
  · constructor
    · rintro ⟨⟨l, st⟩, hmem, hp⟩
      have hl := face_of (ExtTreeMap.mem_toList_iff_getElem?_eq_some.mp hmem)
      cases st with
      | pending q => cases hp
      | up u => cases hp
      | handshaking h =>
        refine ⟨l, _, _, hl, ?_⟩
        simpa [Option.any_eq_true] using hp
    · rintro ⟨l, expect, next, hface, hp⟩
      obtain ⟨st, hst, heq⟩ := Option.map_eq_some_iff.mp hface
      cases st with
      | pending q => cases heq
      | up u => cases heq
      | handshaking h =>
        refine ⟨(l, .handshaking h), ExtTreeMap.mem_toList_iff_getElem?_eq_some.mpr hst, ?_⟩
        cases heq
        simpa [Option.any_eq_true] using hp

theorem peerState_unreachable {p : DeviceId} {c : Core X P}
    (hlinks : ∀ (l : LinkId) (st : LinkState X), c.links[l]? = some st → ¬ st.face.Regards p)
    (hdials : ∀ (d : DialToken) (e : ℕ × PeerDial), c.pendingPeerDials[d]? = some e →
      e.2.peer ≠ p) : c.peerState p = .unreachable := by
  unfold peerState
  split
  · rename_i st hst
    obtain ⟨⟨l, x⟩, hmem, hx⟩ := List.exists_of_findSome?_eq_some hst
    have hnot := hlinks l x (ExtTreeMap.mem_toList_iff_getElem?_eq_some.mp hmem)
    cases x with
    | pending q => cases hx
    | up u =>
      have hpeer : u.peer ≠ p := hnot
      dsimp only at hx
      rw [if_neg hpeer] at hx
      cases hx
    | handshaking h =>
      dsimp only at hx
      rw [if_neg fun he => hnot (.inl he)] at hx
      cases hx
  · rw [if_neg]
    intro hany
    obtain ⟨⟨d, e⟩, hmem, hp⟩ := List.any_eq_true.mp hany
    exact hdials d e (ExtTreeMap.mem_toList_iff_getElem?_eq_some.mp hmem) (by simpa using hp)

end Core

theorem Clear.forgotten {p : DeviceId} {s : Exec X P} (h : Clear p s) : s.core.Forgotten p where
  addrs := h.addrs
  trouble := h.trouble
  dials := h.dials
  expects l g hl he := h.links l _ hl (.inl he)
  fallbacks l g hl f hf he := h.links l _ hl (.inr (by rw [hf, ← he]; rfl))
  state := Core.peerState_unreachable h.links h.dials

/-- A new step starts with nothing said and nothing dialled. -/
theorem Clear.restart {p : DeviceId} {s : Exec X P} (h : Clear p s) :
    Clear p ⟨s.core, [], [], []⟩ :=
  ⟨h.store, h.keyed, h.addrs, h.trouble, h.dials, h.links, nofun, by simp⟩

namespace Core
variable [Plugin P]

def writes (p : DeviceId) (c : Core X P) (i : Input X) : Bool :=
  (c.exec i).sends.any fun m => m.2.peer = p

/-- The step dials nobody on the peer's behalf and reports it neither as reachable nor as
unreachable. -/
def Mute (p : DeviceId) (c : Core X P) (i : Input X) : Prop :=
  (∀ e ∈ (c.exec i).dials, e.1 ≠ p) ∧ ∀ a ∈ (c.handle i).2.actions, a.presence ≠ some p

/-- The step is neither a command about the peer nor pairs it. -/
def Spares (p : DeviceId) (c : Core X P) (i : Input X) : Prop :=
  ¬ i.event.Names p ∧ ¬ c.Stores i p

theorem step_clear (law : Plugin.Modest P) {p : DeviceId} {c : Core X P} {i : Input X}
    (h : Clear p ⟨c, [], [], []⟩) (hi : c.Spares p i) : Clear p (c.exec i) := by
  have hstart : Clear p (c.start i) := h.of_same rfl rfl rfl rfl rfl
  refine Exec.onEvent_clear law hstart _ _ hi.1 ?_
  intro he deadline a hw hid
  exact hi.2 ⟨he, deadline, a, hw, hid⟩

theorem Clear.mute_iff {p : DeviceId} {c : Core X P} {i : Input X} (h : Clear p (c.exec i)) :
    c.Mute p i ↔ ¬ c.writes p i := by
  have htold : (∃ a ∈ (c.exec i).actions, a.presence = some p) ↔ c.writes p i := by
    rw [h.told, writes, List.any_eq_true]
    simp
  rw [← htold]
  constructor
  · rintro ⟨-, hmute⟩ ⟨a, ha, hp⟩
    exact hmute a ha hp
  · intro hnone
    exact ⟨h.made, fun a ha hp => hnone ⟨a, ha, hp⟩⟩

theorem revoke_fade (law : Plugin.Modest P) {p : DeviceId} (c : Core X P) {i : Input X}
    (hrev : i.event = .localCommand (.revoke p)) :
    Fade { c.start i with core := { (c.start i).core with
      peers := c.peers.erase p
      addrs := c.addrs.erase p
      dialTrouble := c.dialTrouble.erase p } } (c.exec i) := by
  unfold exec
  rw [hrev]
  exact Exec.handleRevoke_fade law (c.start i) i.now.monotonicMs p

/-- If nothing is under way towards a peer, revoking it leaves nothing. -/
theorem revoke_clear (law : Plugin.Modest P) {p : DeviceId} {c : Core X P} {i : Input X}
    (hkeyed : ∀ (q : DeviceId) (r : PeerRecord), c.peers[q]? = some r → r.id X = some q)
    (hrev : i.event = .localCommand (.revoke p)) (hidle : ¬ c.underWay p) :
    Clear p ⟨c.step i, [], [], []⟩ := by
  have hfade := c.revoke_fade law hrev
  have hdials : (c.step i).pendingPeerDials = c.pendingPeerDials := congrArg Roll.dials hfade.roll
  have haddrs : (c.step i).addrs = c.addrs.erase p := congrArg Roll.addrs hfade.roll
  have htrouble : (c.step i).dialTrouble = c.dialTrouble.erase p := congrArg Roll.trouble hfade.roll
  have hnone : ¬ ((∃ (d : DialToken) (e : ℕ × PeerDial), c.pendingPeerDials[d]? = some e ∧
      e.2.peer = p) ∨ ∃ l expect next, c.face l = some (.handshaking expect next) ∧
        (expect = some p ∨ next = some p)) := fun h => hidle (underWay_iff.mpr h)
  refine ⟨not_mem_peers_revoke hrev, fun q r => step_keyed hkeyed q r, ?_, ?_, ?_, ?_, nofun,
    by simp⟩
  · rw [haddrs]
    exact fun hm => (Lib.mem_erase.mp hm).1 rfl
  · rw [htrouble]
    exact fun hm => (Lib.mem_erase.mp hm).1 rfl
  · rw [hdials]
    exact fun d e he hp => hnone (.inl ⟨d, e, he, hp⟩)
  · intro l st hl hregards
    cases st with
    | pending q => exact hregards
    | up u => exact step_revoked hrev hl hregards
    | handshaking h =>
      have hface : c.face l = some (.handshaking h.expect (h.fallback.map (·.peer))) :=
        hfade.handshaking_iff.mp (face_of hl)
      exact hnone (.inr ⟨l, _, _, hface, hregards⟩)

/-- What is under way towards a peer outlives its revocation. -/
theorem not_forgotten_of_underWay (law : Plugin.Modest P) {p : DeviceId} {c : Core X P}
    {i : Input X} (hrev : i.event = .localCommand (.revoke p)) (hway : c.underWay p) :
    ¬ (c.step i).Forgotten p := by
  have hfade := c.revoke_fade law hrev
  have hdials : (c.step i).pendingPeerDials = c.pendingPeerDials := congrArg Roll.dials hfade.roll
  intro hf
  rcases underWay_iff.mp hway with ⟨d, e, he, hp⟩ | ⟨l, expect, next, hface, hp⟩
  · exact hf.dials d e (hdials ▸ he) hp
  · have hface' : (c.step i).face l = some (.handshaking expect next) :=
      hfade.handshaking_iff.mpr hface
    obtain ⟨st, hst, heq⟩ := Option.map_eq_some_iff.mp hface'
    cases st with
    | pending q => cases heq
    | up u => cases heq
    | handshaking h =>
      cases heq
      rcases hp with he | hn
      · exact hf.expects l h hst he
      · obtain ⟨f, hfb, hfp⟩ := Option.map_eq_some_iff.mp hn
        exact hf.fallbacks l h hst f hfb hfp

/-- In every run that revokes a peer and then neither names it nor pairs it again, nothing is left
of the peer in any later state, no dial is made for it and nothing is reported of it, exactly when
nothing was under way towards it as it was revoked and no plugin writes to it afterwards. -/
theorem revoked_stays_forgotten_iff (law : Plugin.Modest P) (b : CoreBuilder X P)
    (is js : List (Input X)) {i : Input X} {p : DeviceId}
    (hrev : i.event = .localCommand (.revoke p))
    (hjs : Lib.Along step (Spares p) ((b.build.run is).step i) js) :
    (((b.build.run is).step i).Forgotten p ∧
      Lib.Along step (fun c j => (c.step j).Forgotten p ∧ c.Mute p j)
        ((b.build.run is).step i) js) ↔
    ((b.build.run is).underWay p = false ∧
      Lib.Along step (fun c j => c.writes p j = false) ((b.build.run is).step i) js) := by
  have hkeyed : ∀ (q : DeviceId) (r : PeerRecord), (b.build.run is).peers[q]? = some r →
      r.id X = some q :=
    Lib.run_inv (I := fun c : Core X P => ∀ (q : DeviceId) (r : PeerRecord),
      c.peers[q]? = some r → r.id X = some q) (fun _ _ h => step_keyed h) b.authentic.keyed is
  cases hway : (b.build.run is).underWay p with
  | false =>
    have hclear := revoke_clear law hkeyed hrev (by simp [hway])
    have hforgotten : ((b.build.run is).step i).Forgotten p := hclear.forgotten
    rw [and_iff_right hforgotten, and_iff_right rfl]
    refine Lib.Along.iff_of_inv (I := fun c => Clear p ⟨c, [], [], []⟩) ?_ ?_ hjs hclear
    · intro c j hc hj
      have hexec := step_clear law hc hj
      have hnext : (c.step j).Forgotten p := hexec.forgotten
      rw [and_iff_right hnext, Clear.mute_iff hexec, Bool.not_eq_true]
    · intro c j hc hj _
      exact (step_clear law hc hj).restart
  | true =>
    have hnot := not_forgotten_of_underWay law hrev hway
    simp [hnot]

theorem idle_modest : Plugin.Modest Unit := by
  intro p cx c h
  cases c <;> exact h

def phoneListed : List (Input Mock.crates) :=
  phoneWaiting ++ [Mock.at_ 0 0 (.localCommand (.confirmPairing true)),
    Mock.at_ 0 0 (.localCommand (.setPeerAddress (DeviceId.of Mock.crates (Mock.device 5).publicKey)
      1 "192.168.1.5:4000")),
    Mock.at_ 0 0 (.localCommand (.setPeerAddress (DeviceId.of Mock.crates (Mock.device 5).publicKey)
      2 "AA:BB:CC:DD:EE:05"))]

def phoneRevoked : Input Mock.crates :=
  Mock.at_ 0 0 (.localCommand (.revoke (DeviceId.of Mock.crates (Mock.device 5).publicKey)))

/-- A phone that was only listed is revoked, and a tick later nothing is left of it. -/
theorem listed_phone_forgotten :
    (((Mock.fresh (P := Unit) 1 []).build.run phoneListed).step phoneRevoked).Forgotten
      (DeviceId.of Mock.crates (Mock.device 5).publicKey) ∧
    Lib.Along step (fun c j =>
        (c.step j).Forgotten (DeviceId.of Mock.crates (Mock.device 5).publicKey) ∧
        c.Mute (DeviceId.of Mock.crates (Mock.device 5).publicKey) j)
      (((Mock.fresh (P := Unit) 1 []).build.run phoneListed).step phoneRevoked)
      [Mock.at_ 60000 0 .tick] :=
  (revoked_stays_forgotten_iff idle_modest (Mock.fresh 1 []) phoneListed [Mock.at_ 60000 0 .tick]
    (i := phoneRevoked) rfl ⟨⟨id, by rintro ⟨h, -⟩; cases h⟩, trivial⟩).mpr
    ⟨by decide +kernel, by decide +kernel⟩

/-- A phone is revoked while it is being dialled: the dial is still waited for, and when it fails
the phone's next address is dialled. -/
theorem dialled_phone_not_forgotten :
    ¬ (((Mock.fresh (P := Unit) 1 []).build.run (phoneListed ++ [Mock.at_ 0 0 (.localCommand
        (.connect (DeviceId.of Mock.crates (Mock.device 5).publicKey)))])).step
      phoneRevoked).Forgotten (DeviceId.of Mock.crates (Mock.device 5).publicKey) ∧
    Action.dial 2 "AA:BB:CC:DD:EE:05" 2 ∈
      ((((Mock.fresh (P := Unit) 1 []).build.run (phoneListed ++ [Mock.at_ 0 0 (.localCommand
        (.connect (DeviceId.of Mock.crates (Mock.device 5).publicKey)))])).step phoneRevoked).handle
          (Mock.at_ 0 0 (.dialFailed 1 "refused"))).2.actions ∧
    (DeviceId.of Mock.crates (Mock.device 5).publicKey, 2) ∈
      ((((Mock.fresh (P := Unit) 1 []).build.run (phoneListed ++ [Mock.at_ 0 0 (.localCommand
        (.connect (DeviceId.of Mock.crates (Mock.device 5).publicKey)))])).step phoneRevoked).exec
          (Mock.at_ 0 0 (.dialFailed 1 "refused"))).dials :=
  ⟨not_forgotten_of_underWay idle_modest rfl (by decide +kernel), by decide +kernel,
    by decide +kernel⟩

end Core
end Acrylius
