import Acrylius.Core.Pursuit

/-! Why a peer could not be reached is forgotten when it is, and said of no peer while it is. Every
stretch of a step is looked at for the peers that it would leave connected and in trouble. -/
namespace Acrylius
open Proto Std

variable {X : Crates} {P : Type}

/-- The peer is connected, and there is a reason why it could not be reached. -/
def Core.Troubled (c : Core X P) (p : DeviceId) : Prop := c.Reaches p ∧ p ∈ c.dialTrouble

/-- A stretch of a step that puts no connected peer in trouble, and connects none that is. -/
def Eases (s t : Exec X P) : Prop := ∀ p, t.core.Troubled p → s.core.Troubled p

namespace Eases
variable {s t r : Exec X P}

theorem refl (s : Exec X P) : Eases s s := fun _ h => h

theorem trans (h : Eases s t) (h' : Eases t r) : Eases s r := fun p hp => h p (h' p hp)

theorem of_sub (hup : ∀ p l, t.core.UpWith p l → s.core.UpWith p l)
    (htrouble : ∀ p ∈ t.core.dialTrouble, p ∈ s.core.dialTrouble) : Eases s t := by
  intro p ⟨hreach, hwhy⟩
  obtain ⟨l, hl⟩ := hreach
  exact ⟨⟨l, hup p l hl⟩, htrouble p hwhy⟩

theorem of_same (hlinks : t.core.links = s.core.links)
    (htrouble : t.core.dialTrouble = s.core.dialTrouble) : Eases s t := by
  apply of_sub
  · intro p l ⟨u, hu, hp⟩
    rw [hlinks] at hu
    exact ⟨u, hu, hp⟩
  · intro p hp
    rw [htrouble] at hp
    exact hp

theorem still (h : Still s t) : Eases s t := by
  intro p ⟨hreach, hwhy⟩
  rw [h.trouble] at hwhy
  exact ⟨h.reaches.mp hreach, hwhy⟩

theorem push (s : Exec X P) (a : Action) : Eases s (s.push a) := of_same rfl rfl

theorem ui (s : Exec X P) (e : UiEvent) : Eases s (s.ui e) := of_same rfl rfl

theorem unlink (s : Exec X P) (l : LinkId) : Eases s (s.unlink l) := by
  apply of_sub
  · intro p m ⟨u, hu, hp⟩
    exact ⟨u, (Lib.getElem?_of_erase hu).2, hp⟩
  · intro p hp
    exact hp

/-- A link that is no session takes the place of whatever had its id. -/
theorem insertLink (s : Exec X P) (l : LinkId) {st : LinkState X} (hst : ∀ u, st ≠ .up u) :
    Eases s (s.insertLink l st) := by
  apply of_sub
  · intro p m ⟨u, hu, hp⟩
    rcases Lib.getElem?_of_insert hu with ⟨-, heq⟩ | ⟨-, hu⟩
    · exact absurd heq.symm (hst u)
    · exact ⟨u, hu, hp⟩
  · intro p hp
    exact hp

/-- Somebody cannot be reached who indeed is not. -/
theorem insertTrouble {p : DeviceId} (hnot : ¬ s.core.Reaches p) (why : String) :
    Eases s { s with core.dialTrouble := s.core.dialTrouble.insert p why } := by
  intro q ⟨hreach, hwhy⟩
  have hreach : s.core.Reaches q := hreach
  rcases Lib.mem_insert.mp hwhy with hsame | hwhy
  · subst hsame
    exact absurd hreach hnot
  · exact ⟨hreach, hwhy⟩

theorem connect (s : Exec X P) (l : LinkId) (u : UpLink X) : Eases s { s.insertLink l (.up u) with
    core.dialTrouble := s.core.dialTrouble.erase u.peer } := by
  intro q ⟨hreach, hwhy⟩
  obtain ⟨hne, hwhy⟩ := Lib.mem_erase.mp hwhy
  obtain ⟨m, v, hv, hq⟩ := hreach
  rcases Lib.getElem?_of_insert hv with ⟨-, heq⟩ | ⟨-, hv⟩
  · have hself : v = u := LinkState.up.inj heq
    subst hself
    exact absurd hq.symm hne
  · exact ⟨⟨m, v, hv, hq⟩, hwhy⟩

theorem foldl {α : Type} {f : Exec X P → α → Exec X P} (hf : ∀ s a, Eases s (f s a))
    (as : List α) (s : Exec X P) : Eases s (as.foldl f s) := by
  induction as generalizing s with
  | nil => exact refl s
  | cons a as ih => exact (hf s a).trans (ih _)

end Eases

namespace Exec
variable {s : Exec X P} {nowMs : ℕ}

theorem failLink_eases (s : Exec X P) (l : LinkId) (detail : String) :
    Eases s (s.failLink l detail) := by
  have hgone : Eases s (s.unlink l) := .unlink s l
  have hclosed := hgone.trans (.push _ (.close l (.protocol .notAllowed)))
  exact hclosed.trans (.ui _ _)

theorem dialPeer_eases (s : Exec X P) (peer : DeviceId) (route : TransportId × String)
    (routes : List (TransportId × String)) (byHand : Bool) :
    Eases s (s.dialPeer nowMs peer route routes byHand) := .of_same rfl rfl

/-- An attempt that fails beside a session is not filed. -/
theorem tryNextRoute_eases (s : Exec X P) (a : PeerDial) (why : String) :
    Eases s (s.tryNextRoute nowMs a why) := by
  unfold tryNextRoute
  split
  · exact .refl s
  · rename_i hnone
    have hnot : ¬ s.core.Reaches a.peer := by
      intro hreach
      exact hnone (Core.bestLink_isSome.mpr hreach)
    split
    · have hfiled := Eases.insertTrouble hnot why
      dsimp only
      split
      · exact hfiled.trans (.ui _ _)
      · exact hfiled
    · exact dialPeer_eases s _ _ _ _

theorem adoptAttempt_eases (s : Exec X P) (peer : DeviceId) : Eases s (s.adoptAttempt peer) := by
  apply Eases.of_sub
  · intro p l ⟨u, hu, hp⟩
    have hu : (s.adoptAttempt peer).core.links[l]? = some (.up u) := hu
    unfold adoptAttempt at hu
    rw [ExtTreeMap.getElem?_map, Option.map_eq_some_iff] at hu
    obtain ⟨st, hst, heq⟩ := hu
    cases st with
    | pending q => cases heq
    | handshaking g => cases heq
    | up v =>
      have hself : v = u := LinkState.up.inj heq
      subst hself
      exact ⟨v, hst, hp⟩
  · intro p hp
    exact hp

/-- Nowhere to dial is said of a peer that is not connected. -/
theorem connectRoutes_eases (s : Exec X P) (peer : DeviceId)
    {routes : List (TransportId × String)} (h : s.core.Reaches peer → routes ≠ [])
    (byHand : Bool) : Eases s (s.connectRoutes nowMs peer routes byHand) := by
  unfold connectRoutes
  split
  · have hnot : ¬ s.core.Reaches peer := by
      intro hreach
      exact h hreach rfl
    have hfiled := Eases.insertTrouble hnot nowhere
    dsimp only
    split
    · exact (hfiled.trans (.ui _ _)).trans (.ui _ _)
    · exact hfiled
  · exact dialPeer_eases s _ _ _ _

theorem not_reaches_of_unreachable {c : Core X P} {p : DeviceId} (h : c.peerState p = .unreachable) :
    ¬ c.Reaches p := by
  rcases Core.peerState_cases c p with ⟨l, -, hst, -⟩ | ⟨l, -, hst, -⟩ | ⟨hnot, -⟩
  · rw [h] at hst
    cases hst
  · rw [h] at hst
    cases hst
  · exact hnot

theorem connectPeer_eases (s : Exec X P) (peer : DeviceId) (byHand : Bool) :
    Eases s (s.connectPeer nowMs peer byHand) := by
  unfold connectPeer
  dsimp only
  split
  · exact .refl s
  · split
    · rename_i hst
      apply connectRoutes_eases
      intro hreach
      exact absurd hreach (not_reaches_of_unreachable hst)
    · split
      · exact adoptAttempt_eases s peer
      · exact .refl s
    · split
      · exact .ui s _
      · split
        · exact .refl s
        · split
          · exact .refl s
          · rename_i hsome
            apply connectRoutes_eases
            intro _ hnil
            exact hsome (List.isEmpty_iff.mpr hnil)

theorem startSessionInitiator_eases (s : Exec X P) (seed : X.Seed) (l : LinkId) (peer : DeviceId)
    (attrs : LinkAttrs) (deadline : ℕ) (fallback : Option PeerDial) :
    Eases s (s.startSessionInitiator seed l peer attrs deadline fallback) := by
  unfold startSessionInitiator
  split
  · exact failLink_eases s _ _
  · split
    · split
      · exact failLink_eases s _ _
      · split
        · exact failLink_eases s _ _
        · exact (Eases.push s _).trans (.insertLink _ l nofun)
    · exact failLink_eases s _ _

theorem startPairInitiator_eases (s : Exec X P) (seed : X.Seed) (l : LinkId) (attrs : LinkAttrs)
    (deadline : ℕ) (via : TransportId × String) :
    Eases s (s.startPairInitiator seed l attrs deadline via) := by
  unfold startPairInitiator
  split
  · exact failLink_eases s _ _
  · split
    · exact failLink_eases s _ _
    · exact (Eases.push s _).trans (.insertLink _ l nofun)

theorem onLinkUp_eases (s : Exec X P) (seed : X.Seed) (l : LinkId) (attrs : LinkAttrs)
    (dial : Option DialToken) : Eases s (s.onLinkUp nowMs seed l attrs dial) := by
  unfold onLinkUp
  dsimp only
  split
  · refine Eases.trans ?_ (startPairInitiator_eases _ _ _ _ _ _)
    exact .of_same rfl rfl
  · split
    · refine Eases.trans ?_ (startSessionInitiator_eases _ _ _ _ _ _ _)
      exact .of_same rfl rfl
    · exact .insertLink s l nofun

theorem pairingAttemptFailed_eases (s : Exec X P) (l : LinkId) :
    Eases s (s.pairingAttemptFailed nowMs l) := by
  have hfailed := failLink_eases s l "pairing handshake failed"
  exact (hfailed.trans (.of_same rfl rfl)).trans (.ui _ _)

theorem pairingCompleted_eases (s : Exec X P) (l : LinkId) (g : HandshakingLink X)
    (payload : Bytes) : Eases s (s.pairingCompleted nowMs l g payload) := by
  unfold pairingCompleted
  split
  · split
    · exact pairingAttemptFailed_eases s l
    · have hput : Eases s (s.insertLink l (.pending ⟨g.attrs, g.deadline⟩)) := .insertLink s l nofun
      dsimp only
      split
      · exact hput.trans (failLink_eases _ _ _)
      · exact hput.trans (failLink_eases _ _ _)
      · exact (hput.trans (.of_same rfl rfl)).trans (.ui _ _)
  · exact failLink_eases s _ _

theorem confirmPairing_eases (s : Exec X P) (accept : Bool) :
    Eases s (s.confirmPairing nowMs accept) := by
  have kept : ∀ (id : DeviceId) (a : AwaitingConfirm), Eases s (s.keepRoutes id a) := by
    intro id a
    unfold keepRoutes
    dsimp only
    split
    · exact .of_same rfl rfl
    · split
      · exact .of_same rfl rfl
      · exact .refl s
  unfold confirmPairing
  split
  · rename_i a _
    split
    · have hgone := (Eases.push s (.close a.link (.protocol .notAllowed))).trans (.unlink _ a.link)
      exact (hgone.trans (.of_same rfl rfl)).trans (.ui _ _)
    · split
      · exact .of_same rfl rfl
      · rename_i id _
        have hfiled : Eases s { (s.keepRoutes id a).push (Core.peerBlob X a.record) with
            core.peers := (s.keepRoutes id a).core.peers.insert id a.record
            core.pairing := none } := (kept id a).trans (.of_same rfl rfl)
        exact (hfiled.trans (.unlink _ a.link)).trans (.of_same rfl rfl)
  · exact .refl s

theorem onPairOpener_eases (s : Exec X P) (seed : X.Seed) (l : LinkId) (q : PendingLink)
    (body : Bytes) : Eases s (s.onPairOpener nowMs seed l q body) := by
  unfold onPairOpener
  split
  · exact failLink_eases s _ _
  · split
    · exact failLink_eases s _ _
    · split
      · refine Eases.trans ?_ (failLink_eases _ _ _)
        exact .of_same rfl rfl
      · split
        · exact failLink_eases s _ _
        · have hbegun : Eases s { s with core := s.core.beginPairing nowMs } := .of_same rfl rfl
          exact (hbegun.trans (.push _ _)).trans (.insertLink _ l nofun)

section Hooks
variable [Plugin P]

theorem lostUpLink_eases (s : Exec X P) (u : UpLink X) : Eases s (s.lostUpLink nowMs u) := by
  unfold lostUpLink
  split
  · exact .ui s _
  · have htold : Eases s { s.ui (.peerUnreachable u.peer) with core.reconnectAt := some 0 } :=
      .of_same rfl rfl
    exact htold.trans (.still (callAllPlugins_still _ _ _))

theorem onLinkDown_eases (s : Exec X P) (l : LinkId) : Eases s (s.onLinkDown nowMs l) := by
  have hgone : Eases s (s.unlink l) := .unlink s l
  unfold onLinkDown
  dsimp only
  cases s.core.links[l]? with
  | none => exact hgone
  | some st =>
    cases st with
    | pending q => exact hgone
    | up u => exact hgone.trans (lostUpLink_eases _ u)
    | handshaking g =>
      have hback : Eases (s.unlink l) (if g.pairingFlow then { s.unlink l with
          core.pairing := none } else s.unlink l) := by
        split
        · exact .of_same rfl rfl
        · exact .refl _
      dsimp only
      cases g.fallback with
      | none => exact hgone.trans hback
      | some a => exact (hgone.trans hback).trans (tryNextRoute_eases _ a _)

theorem finishSession_eases (s : Exec X P) (l : LinkId) (hs : Handshake X) (attrs : LinkAttrs)
    (peer : DeviceId) : Eases s (s.finishSession nowMs l hs attrs peer) := by
  unfold finishSession
  dsimp only
  split
  · exact failLink_eases s _ _
  · split
    · exact failLink_eases s _ _
    · refine Eases.trans (Eases.trans ?_ (.ui _ _)) (.still (callAllPlugins_still _ _ _))
      exact .connect s l _

omit [Plugin P] in
theorem afterHello_eases (s : Exec X P) {l : LinkId} {peer : DeviceId} {payload : Bytes}
    {next : Exec X P → Exec X P} (hnext : ∀ s : Exec X P, Eases s (next s)) (detail : String) :
    Eases s (match s.acceptHello peer payload with
      | (s, false) => s.failLink l detail
      | (s, true) => next s) := by
  have hread : Eases s (s.acceptHello peer payload).1 := .still (acceptHello_still s peer payload)
  split
  · rename_i heq
    rw [heq] at hread
    exact hread.trans (failLink_eases _ _ _)
  · rename_i heq
    rw [heq] at hread
    exact hread.trans (hnext _)

theorem onSessionOpener_eases (s : Exec X P) (seed : X.Seed) (l : LinkId) (q : PendingLink)
    (body : Bytes) : Eases s (s.onSessionOpener nowMs seed l q body) := by
  unfold onSessionOpener
  split
  · exact failLink_eases s _ _
  · dsimp only
    split
    · exact failLink_eases s _ _
    · split
      · exact failLink_eases s _ _
      · split
        · exact failLink_eases s _ _
        · split
          · exact failLink_eases s _ _
          · apply afterHello_eases
            intro s
            split
            · exact failLink_eases s _ _
            · exact (Eases.push s _).trans (finishSession_eases _ _ _ _ _)

theorem onFirstFrame_eases (s : Exec X P) (seed : X.Seed) (l : LinkId) (q : PendingLink)
    (kind : FrameKind) (body : Bytes) : Eases s (s.onFirstFrame nowMs seed l q kind body) := by
  cases kind with
  | pairHandshake => exact onPairOpener_eases s seed l q body
  | sessionHandshake => exact onSessionOpener_eases s seed l q body
  | transport => exact failLink_eases s _ _

theorem afterHandshakeRead_eases (s : Exec X P) (l : LinkId) (g : HandshakingLink X)
    (payload : Bytes) : Eases s (s.afterHandshakeRead nowMs l g payload) := by
  unfold afterHandshakeRead
  split
  · exact .insertLink s l nofun
  · split
    · exact pairingCompleted_eases s l g payload
    · unfold onSessionReply
      split
      · exact failLink_eases s _ _
      · apply afterHello_eases
        intro s
        exact finishSession_eases s _ _ _ _

theorem onHandshakeFrame_eases (s : Exec X P) (l : LinkId) (g : HandshakingLink X)
    (kind : FrameKind) (body : Bytes) : Eases s (s.onHandshakeFrame nowMs l g kind body) := by
  unfold onHandshakeFrame
  by_cases hkind : kind = if g.pairingFlow then .pairHandshake else .sessionHandshake
  case neg =>
    rw [if_pos hkind]
    exact failLink_eases s _ _
  rw [if_neg (not_not.mpr hkind)]
  cases g.hs.read body with
  | error e =>
    dsimp only
    split
    · exact pairingAttemptFailed_eases s l
    · exact failLink_eases s _ _
  | ok r =>
    dsimp only
    split
    · split
      · exact (Eases.push s _).trans (afterHandshakeRead_eases _ _ _ _)
      · exact failLink_eases s _ _
    · exact afterHandshakeRead_eases s _ _ _

/-- The session is put back only to be taken down. -/
theorem failUpLink_eases (s : Exec X P) (l : LinkId) (u : UpLink X) (detail : String) :
    Eases s (s.failUpLink nowMs l u detail) := by
  have hback : ((s.insertLink l (.up u)).core.links)[l]? = some (.up u) :=
    ExtTreeMap.getElem?_insert_self
  have hgone : Eases s (((s.insertLink l (.up u)).push (.close l (.protocol .notAllowed))).ui
      (.error (some u.peer) .notAllowed detail) |>.unlink l) := by
    apply Eases.of_sub
    · intro p m ⟨v, hv, hp⟩
      obtain ⟨hne, hv⟩ := Lib.getElem?_of_erase hv
      have hv : (s.core.links.insert l (.up u))[m]? = some (.up v) := hv
      rw [Lib.getElem?_insert_of_ne hne] at hv
      exact ⟨v, hv, hp⟩
    · intro p hp
      exact hp
  have hdown : s.failUpLink nowMs l u detail =
      (((s.insertLink l (.up u)).push (.close l (.protocol .notAllowed))).ui
        (.error (some u.peer) .notAllowed detail) |>.unlink l).lostUpLink nowMs u := by
    unfold failUpLink onLinkDown
    dsimp only [push, ui]
    split
    · rename_i v hv
      have hself := hback.symm.trans hv
      cases hself
      rfl
    · rename_i g hg
      have hself := hback.symm.trans hg
      cases hself
    · rename_i hnot _
      exact absurd hback (hnot u)
  rw [hdown]
  exact hgone.trans (lostUpLink_eases _ u)

omit [Plugin P] in
/-- A session whose cipher moved on is with the same peer. -/
theorem reseal_eases {l : LinkId} {u v : UpLink X} (hl : s.core.links[l]? = some (.up u))
    (hpeer : v.peer = u.peer) : Eases s ((s.unlink l).insertLink l (.up v)) := by
  apply Eases.of_sub
  · intro p m ⟨w, hw, hp⟩
    rcases Lib.getElem?_of_insert hw with ⟨hm, heq⟩ | ⟨-, hw⟩
    · have hself : w = v := LinkState.up.inj heq
      subst hself
      rw [hm]
      exact ⟨u, hl, hpeer.symm.trans hp⟩
    · exact ⟨w, (Lib.getElem?_of_erase hw).2, hp⟩
  · intro p hp
    exact hp

theorem onTransportFrame_eases {l : LinkId} {u : UpLink X} (hl : s.core.links[l]? = some (.up u))
    (kind : FrameKind) (body : Bytes) :
    Eases s ((s.unlink l).onTransportFrame nowMs l u kind body) := by
  have hgone : Eases s (s.unlink l) := .unlink s l
  unfold onTransportFrame
  split
  · exact hgone.trans (failUpLink_eases _ l u _)
  · split
    · exact hgone.trans (failUpLink_eases _ l u _)
    · rename_i plaintext session _
      have hput : Eases s ((s.unlink l).insertLink l
          (.up { u with session, lastRecvMs := nowMs })) := reseal_eases hl rfl
      dsimp only
      split
      · exact hput.trans (.ui _ _)
      · split
        · exact hput.trans (.still (sendError_still _ _ _ _))
        · split
          · exact hput.trans (.ui _ _)
          · exact hput.trans (.still (routeEnvelope_still _ _ _ _))

theorem onLinkRecv_eases (s : Exec X P) (seed : X.Seed) (l : LinkId) (msg : Bytes) :
    Eases s (s.onLinkRecv nowMs seed l msg) := by
  have hgone : Eases s (s.unlink l) := .unlink s l
  unfold onLinkRecv
  split
  · exact failLink_eases s _ _
  · dsimp only
    cases hl : s.core.links[l]? with
    | none => exact hgone.trans (failLink_eases _ _ _)
    | some st =>
      cases st with
      | pending q => exact hgone.trans (onFirstFrame_eases _ seed l q _ _)
      | handshaking g => exact hgone.trans (onHandshakeFrame_eases _ l g _ _)
      | up u => exact onTransportFrame_eases hl _ _

theorem closeUpLinks_eases (s : Exec X P) (peer : DeviceId) (reason : LinkDownReason) :
    Eases s (s.closeUpLinks nowMs peer reason) := by
  apply Eases.foldl
  intro s e
  exact (Eases.push s _).trans (onLinkDown_eases _ _)

theorem handleRevoke_eases (s : Exec X P) (peer : DeviceId) :
    Eases s (s.handleRevoke nowMs peer) := by
  have herased : Eases s (push { s with core := { s.core with
      peers := s.core.peers.erase peer
      addrs := s.core.addrs.erase peer
      dialTrouble := s.core.dialTrouble.erase peer } }
      (.persist ("peer/" ++ peer.str) none .secret)) := by
    apply Eases.of_sub
    · intro p l hl
      exact hl
    · intro p hp
      exact (Lib.mem_erase.mp hp).2
  unfold handleRevoke
  dsimp only
  split
  · refine Eases.trans (Eases.trans ?_ (.ui _ _)) (.still (announce_still _ _))
    exact herased.trans (closeUpLinks_eases _ peer _)
  · refine Eases.trans ?_ (.ui _ _)
    exact herased.trans (closeUpLinks_eases _ peer _)

omit [Plugin P] in
theorem requestPairing_eases (s : Exec X P) (transport : TransportId) (addr : String) :
    Eases s (s.requestPairing nowMs transport addr) := by
  unfold requestPairing
  split
  · exact .ui s _
  · exact .of_same rfl rfl

theorem onLocal_eases (s : Exec X P) (cmd : LocalCommand) : Eases s (s.onLocal nowMs cmd) := by
  cases cmd <;> dsimp only [onLocal]
  case requestPairing transport addr => exact requestPairing_eases s transport addr
  case confirmPairing accept => exact confirmPairing_eases s accept
  case setPeerAddress peer transport addr =>
    split
    · exact .of_same rfl rfl
    · exact .ui s _
  case connect peer => exact connectPeer_eases s peer true
  case reconsiderRoutes =>
    apply Eases.foldl
    intro s p
    exact connectPeer_eases s p false
  case disconnect peer => exact closeUpLinks_eases s peer .closed
  case revoke peer => exact handleRevoke_eases s peer
  case plugin peer cap ty body => exact .still (onLocalPlugin_still s nowMs peer cap ty body)

omit [Plugin P] in
theorem closeStale_eases (s : Exec X P) (l : LinkId) : Eases s (s.closeStale nowMs l) := by
  have hgone : Eases s ((s.unlink l).push (.close l .closed)) :=
    (Eases.unlink s l).trans (.push _ _)
  unfold closeStale
  dsimp only
  cases s.core.links[l]? with
  | none => exact hgone
  | some st =>
    cases st with
    | pending q => exact hgone
    | up u => exact hgone
    | handshaking g =>
      dsimp only
      cases g.fallback with
      | none => exact hgone
      | some a => exact hgone.trans (tryNextRoute_eases _ a _)

omit [Plugin P] in
theorem expireDial_eases (s : Exec X P) (d : DialToken) : Eases s (s.expireDial nowMs d) := by
  unfold expireDial
  split
  · exact .refl s
  · refine Eases.trans ?_ (tryNextRoute_eases _ _ _)
    exact .of_same rfl rfl

omit [Plugin P] in
theorem heartbeat_eases (s : Exec X P) : Eases s (s.heartbeat nowMs) := by
  unfold heartbeat
  split
  · refine Eases.trans ?_ (.foldl (fun s p => connectPeer_eases s p false) _ _)
    exact .of_same rfl rfl
  · exact .refl s

omit [Plugin P] in
theorem lapsePairing_eases (s : Exec X P) : Eases s (s.lapsePairing nowMs) := by
  unfold lapsePairing
  split
  · exact .refl s
  · split
    · exact .refl s
    · dsimp only
      split
      · rename_i a _
        have hgone := (Eases.push s (.close a.link .closed)).trans (.unlink _ a.link)
        exact (hgone.trans (.of_same rfl rfl)).trans (.ui _ _)
      · exact .of_same rfl rfl

omit [Plugin P] in
theorem closeStaleLinks_eases (s : Exec X P) : Eases s (s.closeStaleLinks nowMs) :=
  .foldl (fun s l => closeStale_eases s l) _ s

omit [Plugin P] in
theorem expireDials_eases (s : Exec X P) : Eases s (s.expireDials nowMs) :=
  .foldl (fun s d => expireDial_eases s d) _ s

theorem onTick_eases (s : Exec X P) : Eases s (s.onTick nowMs) := by
  unfold onTick
  dsimp only
  refine Eases.trans ?_ (.still (wakePlugins_still _ nowMs))
  refine Eases.trans ?_ (heartbeat_eases _)
  refine Eases.trans ?_ (expireDials_eases _)
  refine Eases.trans ?_ (closeStaleLinks_eases _)
  exact (lapsePairing_eases s).trans (.still (giveUpWaiting_still _ nowMs))

omit [Plugin P] in
theorem onDialFailed_eases (s : Exec X P) (d : DialToken) (reason : String) :
    Eases s (s.onDialFailed nowMs d reason) := by
  unfold onDialFailed
  split
  · exact .of_same rfl rfl
  · split
    · refine Eases.trans ?_ (tryNextRoute_eases _ _ _)
      exact .of_same rfl rfl
    · exact .refl s

omit [Plugin P] in
theorem onDiscovered_eases (s : Exec X P) (transport : TransportId) (peer : DiscoveredPeer) :
    Eases s (s.onDiscovered nowMs transport peer) := by
  unfold onDiscovered
  split
  · exact .refl s
  · dsimp only
    split
    · refine Eases.trans ?_ (connectPeer_eases _ _ _)
      exact .of_same rfl rfl
    · refine Eases.trans ?_ (.still (announce_still _ _))
      exact .of_same rfl rfl

theorem onEvent_eases (s : Exec X P) (seed : X.Seed) (e : Event) :
    Eases s (s.onEvent nowMs seed e) := by
  cases e <;> dsimp only [onEvent]
  case linkUp l attrs dial => exact onLinkUp_eases s seed l attrs dial
  case linkRecv l msg => exact onLinkRecv_eases s seed l msg
  case linkDown l reason => exact onLinkDown_eases s l
  case dialFailed d reason => exact onDialFailed_eases s d reason
  case discovered transport peer => exact onDiscovered_eases s transport peer
  case undiscovered transport addr => exact .still (onUndiscovered_still s transport addr)
  case bulkListening t endpoint => exact .still (dispatchToTransferOwner_still s nowMs t _)
  case bulkStarted t => exact .of_same rfl rfl
  case bulkFinished t ok detail =>
    have htold : Eases s (s.dispatchToTransferOwner nowMs t fun p cx =>
        Plugin.onBulkFinished p cx t ok detail) := .still (dispatchToTransferOwner_still s nowMs t _)
    exact htold.trans (.of_same rfl rfl)
  case tick => exact onTick_eases s
  case localCommand cmd => exact onLocal_eases s cmd
  case effectDone token result => exact .still (onEffectDone_still s nowMs token result)

end Hooks
end Exec

section
variable [Plugin P]

/-- No connected peer is in trouble. -/
def Core.Untroubled (c : Core X P) : Prop := ∀ p, ¬ c.Troubled p

theorem Core.Untroubled.step {c : Core X P} (h : c.Untroubled) (i : Core.Input X) :
    (c.step i).Untroubled := by
  intro p hp
  have heases : Eases (c.start i) (c.exec i) := Exec.onEvent_eases _ _ _
  exact h p (heases p hp)

/-- No peer with a session has a reason filed why it could not be reached, whatever happened. -/
theorem connected_untroubled (b : CoreBuilder X P) (is : List (Core.Input X)) (p : DeviceId)
    (connected : (b.build.run is).Reaches p) : p ∉ (b.build.run is).dialTrouble := by
  have hstart : b.build.Untroubled := by
    intro q ⟨hreach, _⟩
    obtain ⟨l, u, hu, -⟩ := hreach
    simp [CoreBuilder.build] at hu
  have hrun : (b.build.run is).Untroubled := Lib.run_inv (fun _ i hc => hc.step i) hstart is
  intro hwhy
  exact hrun p ⟨connected, hwhy⟩

end

namespace Mock

def callsAfterAll : List (Core.Input crates) :=
  [at_ 0 0 (.localCommand (.connect caller)),
    at_ 1 0 (.linkUp (.new 2 1) (.ble 2) none),
    at_ 2 3 (.linkRecv (.new 2 1) (openerFrame 5 1 (phoneHello 1)))]

end Mock

/-- Why the phone could not be reached is forgotten when it calls. -/
theorem call_forgets_trouble :
    Mock.caller ∈ ((Mock.paired (P := Unit) 1 5 []).build.run (Mock.callsAfterAll.take 1)).dialTrouble ∧
    Mock.caller ∉ ((Mock.paired (P := Unit) 1 5 []).build.run Mock.callsAfterAll).dialTrouble := by
  have hreach : ((Mock.paired (P := Unit) 1 5 []).build.run Mock.callsAfterAll).Reaches
      Mock.caller := by decide +kernel
  exact ⟨by decide +kernel, connected_untroubled _ Mock.callsAfterAll Mock.caller hreach⟩

end Acrylius
