import Acrylius.Core.Pursuit

/-! Attempts to reach a peer, wherever they are kept: each is a pending dial or rides on the
handshake it led to, under a token already issued, with its untried routes in order. -/
namespace Acrylius
open Proto Std

variable {X : Crates} {P : Type}

/-- Every route comes before the ones behind it: by ascending transport. -/
def Ascending (routes : List (TransportId × String)) : Prop :=
  routes.Pairwise fun r r' => r.1 < r'.1

theorem Routes.ascending (r : Routes) : Ascending r.inPreferenceOrder := by
  have hord := r.ordered_keys_toList
  refine hord.imp fun {a b} h => ?_
  exact Nat.compare_eq_lt.mp h

theorem Ascending.tail {r : TransportId × String} {rs : List (TransportId × String)}
    (h : Ascending (r :: rs)) : Ascending rs :=
  (List.pairwise_cons.mp h).2

theorem Ascending.filter {rs : List (TransportId × String)} (h : Ascending rs)
    (f : TransportId × String → Bool) : Ascending (rs.filter f) :=
  List.Pairwise.filter f h

theorem Ascending.nodup {rs : List (TransportId × String)} (h : Ascending rs) : rs.Nodup := by
  refine List.Pairwise.imp (fun {a b} hlt heq => ?_) h
  subst heq
  exact Nat.lt_irrefl _ hlt

/-- The attempt a handshake carries is for the peer it is meant for, and none is carried to pair. -/
structure HandshakingLink.Carries (h : HandshakingLink X) : Prop where
  meant : h.fallback.map (·.peer) = h.expect
  ascending : ∀ a, h.fallback = some a → Ascending a.routes
  session : h.fallback.isSome → h.pairingFlow = false

/-- Attempts are kept in order: dials under tokens that were issued, handshakes with the attempt
they belong to. -/
structure Core.Orderly (c : Core X P) : Prop where
  issued : ∀ (d : DialToken) (e : ℕ × PeerDial), c.pendingPeerDials[d]? = some e → d ≤ c.nextDial
  ascending : ∀ (d : DialToken) (e : ℕ × PeerDial), c.pendingPeerDials[d]? = some e →
    Ascending e.2.routes
  carried : ∀ (l : LinkId) (h : HandshakingLink X), c.links[l]? = some (.handshaking h) → h.Carries

/-- A state of a handshake that may be put into the table, or of no handshake at all. -/
def LinkState.Carries : LinkState X → Prop
  | .handshaking h => h.Carries
  | _ => True

namespace Core.Orderly
variable {s t : Exec X P}

theorem of_tables {c d : Core X P} (h : c.Orderly) (hnext : d.nextDial = c.nextDial)
    (hdials : d.pendingPeerDials = c.pendingPeerDials) (hlinks : d.links = c.links) :
    d.Orderly := by
  constructor
  · rw [hnext, hdials]
    exact h.issued
  · rw [hdials]
    exact h.ascending
  · rw [hlinks]
    exact h.carried

theorem still (h : s.core.Orderly) (hst : Still s t) : t.core.Orderly := by
  constructor
  · rw [hst.nextDial, hst.peerDials]
    exact h.issued
  · rw [hst.peerDials]
    exact h.ascending
  · intro l g hg
    exact h.carried l g ((hst.links l).handshaking_iff.mp hg)

theorem push (h : s.core.Orderly) (a : Action) : (s.push a).core.Orderly :=
  h.of_tables rfl rfl rfl

theorem unlink (h : s.core.Orderly) (l : LinkId) : (s.unlink l).core.Orderly :=
  ⟨h.issued, h.ascending, fun l' g hg => h.carried l' g (Lib.getElem?_of_erase hg).2⟩

theorem insertLink (h : s.core.Orderly) (l : LinkId) {st : LinkState X} (hst : st.Carries) :
    (s.insertLink l st).core.Orderly := by
  refine ⟨h.issued, h.ascending, fun l' g hg => ?_⟩
  rcases Lib.getElem?_of_insert hg with ⟨-, rfl⟩ | ⟨-, hg⟩
  · exact hst
  · exact h.carried l' g hg

theorem eraseDial (h : s.core.Orderly) (d : DialToken) :
    Core.Orderly { s.core with pendingPeerDials := s.core.pendingPeerDials.erase d } :=
  ⟨fun d' e he => h.issued d' e (Lib.getElem?_of_erase he).2,
    fun d' e he => h.ascending d' e (Lib.getElem?_of_erase he).2, h.carried⟩

theorem foldl {α : Type} {f : Exec X P → α → Exec X P} (as : List α)
    (hf : ∀ s a, s.core.Orderly → (f s a).core.Orderly) (h : s.core.Orderly) :
    (as.foldl f s).core.Orderly := by
  induction as generalizing s with
  | nil => exact h
  | cons a as ih => exact ih (hf s a h)

end Core.Orderly

namespace Exec
variable {s : Exec X P} {nowMs : ℕ} {l : LinkId}

theorem failLink_orderly (h : s.core.Orderly) (l : LinkId) (detail : String) :
    (s.failLink l detail).core.Orderly :=
  (h.unlink l).of_tables rfl rfl rfl

theorem dialPeer_orderly (h : s.core.Orderly) (peer : DeviceId) (route : TransportId × String)
    {routes : List (TransportId × String)} (hr : Ascending routes) (byHand : Bool) :
    (s.dialPeer nowMs peer route routes byHand).core.Orderly := by
  constructor
  · intro d e he
    change d ≤ s.core.nextDial + 1
    rcases Lib.getElem?_of_insert he with ⟨rfl, -⟩ | ⟨-, he⟩
    · exact Nat.le_refl _
    · have hissued := h.issued d e he
      exact Nat.le_succ_of_le hissued
  · intro d e he
    rcases Lib.getElem?_of_insert he with ⟨-, rfl⟩ | ⟨-, he⟩
    · exact hr
    · exact h.ascending d e he
  · exact h.carried

theorem tryNextRoute_orderly (h : s.core.Orderly) {pending : PeerDial}
    (hp : Ascending pending.routes) (why : String) :
    (s.tryNextRoute nowMs pending why).core.Orderly := by
  unfold tryNextRoute
  split
  · exact h
  · split
    · dsimp only
      split
      · exact h.of_tables rfl rfl rfl
      · exact h.of_tables rfl rfl rfl
    · rename_i route routes heq
      rw [heq] at hp
      exact dialPeer_orderly h _ _ hp.tail _

theorem adoptAttempt_orderly (h : s.core.Orderly) (peer : DeviceId) :
    (s.adoptAttempt peer).core.Orderly := by
  unfold adoptAttempt
  have same : ∀ a : PeerDial,
      (if a.peer = peer then { a with byHand := true } else a).peer = a.peer ∧
        (if a.peer = peer then { a with byHand := true } else a).routes = a.routes := by
    intro a
    split <;> exact ⟨rfl, rfl⟩
  constructor
  · intro d e he
    rw [ExtTreeMap.getElem?_map, Option.map_eq_some_iff] at he
    obtain ⟨e', he', -⟩ := he
    exact h.issued d e' he'
  · intro d e he
    rw [ExtTreeMap.getElem?_map, Option.map_eq_some_iff] at he
    obtain ⟨e', he', rfl⟩ := he
    have hasc := h.ascending d e' he'
    rw [← (same e'.2).2] at hasc
    exact hasc
  · intro l g hg
    rw [ExtTreeMap.getElem?_map, Option.map_eq_some_iff] at hg
    obtain ⟨st, hst, heq⟩ := hg
    cases st with
    | pending => cases heq
    | up => cases heq
    | handshaking g' =>
      have hc := h.carried l g' hst
      cases heq
      constructor
      · rw [← hc.meant]
        cases hf : g'.fallback with
        | none => rfl
        | some a => exact congrArg some (same a).1
      · intro a ha
        obtain ⟨a', ha', rfl⟩ := Option.map_eq_some_iff.mp ha
        have hasc := hc.ascending a' ha'
        rw [← (same a').2] at hasc
        exact hasc
      · intro hsome
        rw [Option.isSome_map] at hsome
        exact hc.session hsome

theorem connectRoutes_orderly (h : s.core.Orderly) (peer : DeviceId)
    {routes : List (TransportId × String)} (hr : Ascending routes) (byHand : Bool) :
    (s.connectRoutes nowMs peer routes byHand).core.Orderly := by
  unfold connectRoutes
  split
  · dsimp only
    split
    · exact h.of_tables rfl rfl rfl
    · exact h.of_tables rfl rfl rfl
  · exact dialPeer_orderly h _ _ hr.tail _

theorem connectPeer_orderly (h : s.core.Orderly) (peer : DeviceId) (byHand : Bool) :
    (s.connectPeer nowMs peer byHand).core.Orderly := by
  have known : ∀ k : Option Routes, Ascending (k.elim [] Routes.inPreferenceOrder) := by
    intro k
    cases k with
    | none => exact .nil
    | some r => exact r.ascending
  unfold connectPeer
  dsimp only
  split
  · exact h
  · split
    · exact connectRoutes_orderly h _ (known _) _
    · split
      · exact adoptAttempt_orderly h _
      · exact h
    · split
      · exact h.of_tables rfl rfl rfl
      · split
        · exact h
        · split
          · exact h
          · exact connectRoutes_orderly h _ ((known _).filter _) _

theorem startSessionInitiator_orderly (h : s.core.Orderly) (seed : X.Seed) (l : LinkId)
    {pending : PeerDial} (hp : Ascending pending.routes) (attrs : LinkAttrs) (deadline : ℕ) :
    (s.startSessionInitiator seed l pending.peer attrs deadline (some pending)).core.Orderly := by
  unfold startSessionInitiator
  split
  · exact failLink_orderly h _ _
  · split
    · split
      · exact failLink_orderly h _ _
      · split
        · exact failLink_orderly h _ _
        · refine (h.push _).insertLink l ⟨rfl, fun a ha => ?_, fun _ => rfl⟩
          cases ha
          exact hp
    · exact failLink_orderly h _ _

theorem startPairInitiator_orderly (h : s.core.Orderly) (seed : X.Seed) (l : LinkId)
    (attrs : LinkAttrs) (deadline : ℕ) (via : TransportId × String) :
    (s.startPairInitiator seed l attrs deadline via).core.Orderly := by
  unfold startPairInitiator
  split
  · exact failLink_orderly h _ _
  · split
    · exact failLink_orderly h _ _
    · exact (h.push _).insertLink l ⟨rfl, nofun, nofun⟩

theorem onLinkUp_orderly (h : s.core.Orderly) (seed : X.Seed) (l : LinkId) (attrs : LinkAttrs)
    (dial : Option DialToken) : (s.onLinkUp nowMs seed l attrs dial).core.Orderly := by
  unfold onLinkUp
  dsimp only
  split
  · refine startPairInitiator_orderly ?_ seed l attrs _ _
    exact h.of_tables rfl rfl rfl
  · split
    · rename_i d t pending heq
      obtain ⟨d', -, hd⟩ := Option.bind_eq_some_iff.mp heq
      obtain ⟨e, he, heq'⟩ := Option.map_eq_some_iff.mp hd
      cases heq'
      exact startSessionInitiator_orderly (h.eraseDial d) seed l (h.ascending d _ he) attrs _
    · exact h.insertLink l trivial

theorem pairingAttemptFailed_orderly (h : s.core.Orderly) (l : LinkId) :
    (s.pairingAttemptFailed nowMs l).core.Orderly := by
  have hfailed := failLink_orderly h l "pairing handshake failed"
  exact hfailed.of_tables rfl rfl rfl

theorem pairingCompleted_orderly (h : s.core.Orderly) (l : LinkId) (g : HandshakingLink X)
    (payload : Bytes) : (s.pairingCompleted nowMs l g payload).core.Orderly := by
  unfold pairingCompleted
  split
  · split
    · exact pairingAttemptFailed_orderly h l
    · have hput : (s.insertLink l (.pending ⟨g.attrs, g.deadline⟩)).core.Orderly :=
        h.insertLink l trivial
      dsimp only
      split
      · exact failLink_orderly hput _ _
      · exact failLink_orderly hput _ _
      · exact hput.of_tables rfl rfl rfl
  · exact failLink_orderly h _ _

theorem confirmPairing_orderly (h : s.core.Orderly) (accept : Bool) :
    (s.confirmPairing nowMs accept).core.Orderly := by
  have kept : ∀ (id : DeviceId) (a : AwaitingConfirm), (s.keepRoutes id a).core.Orderly := by
    intro id a
    unfold keepRoutes
    dsimp only
    split
    · exact h.of_tables rfl rfl rfl
    · split
      · exact h.of_tables rfl rfl rfl
      · exact h
  unfold confirmPairing
  split
  · rename_i a _
    split
    · exact (h.unlink a.link).of_tables rfl rfl rfl
    · split
      · exact h.of_tables rfl rfl rfl
      · rename_i id _
        exact ((kept id a).unlink a.link).of_tables rfl rfl rfl
  · exact h

theorem onPairOpener_orderly (h : s.core.Orderly) (seed : X.Seed) (l : LinkId) (p : PendingLink)
    (body : Bytes) : (s.onPairOpener nowMs seed l p body).core.Orderly := by
  unfold onPairOpener
  split
  · exact failLink_orderly h _ _
  · split
    · exact failLink_orderly h _ _
    · split
      · refine failLink_orderly ?_ _ _
        exact h.of_tables rfl rfl rfl
      · split
        · exact failLink_orderly h _ _
        · refine Core.Orderly.insertLink (.push ?_ _) l ⟨rfl, nofun, nofun⟩
          exact h.of_tables rfl rfl rfl

section Hooks
variable [Plugin P]

theorem lostUpLink_orderly (h : s.core.Orderly) (u : UpLink X) :
    (s.lostUpLink nowMs u).core.Orderly := by
  unfold lostUpLink
  split
  · exact h.of_tables rfl rfl rfl
  · refine Core.Orderly.still ?_ (callAllPlugins_still _ _ _)
    exact h.of_tables rfl rfl rfl

theorem onLinkDown_orderly (h : s.core.Orderly) (l : LinkId) :
    (s.onLinkDown nowMs l).core.Orderly := by
  have hgone := h.unlink l
  unfold onLinkDown
  dsimp only
  cases hl : s.core.links[l]? with
  | none => exact hgone
  | some st =>
    cases st with
    | pending => exact hgone
    | up u => exact lostUpLink_orderly hgone u
    | handshaking g =>
      have hback : (if g.pairingFlow then { s.unlink l with
          core.pairing := none } else s.unlink l).core.Orderly := by
        split
        · exact hgone.of_tables rfl rfl rfl
        · exact hgone
      dsimp only
      cases hf : g.fallback with
      | none => exact hback
      | some a => exact tryNextRoute_orderly hback ((h.carried l g hl).ascending a hf) _

theorem failUpLink_orderly (h : s.core.Orderly) (l : LinkId) (u : UpLink X) (detail : String) :
    (s.failUpLink nowMs l u detail).core.Orderly := by
  refine onLinkDown_orderly ?_ l
  have hput : (s.insertLink l (.up u)).core.Orderly := h.insertLink l trivial
  exact hput.of_tables rfl rfl rfl

theorem finishSession_orderly (h : s.core.Orderly) (l : LinkId) (hs : Handshake X)
    (attrs : LinkAttrs) (peer : DeviceId) : (s.finishSession nowMs l hs attrs peer).core.Orderly := by
  unfold finishSession
  dsimp only
  split
  · exact failLink_orderly h _ _
  · split
    · exact failLink_orderly h _ _
    · refine Core.Orderly.still ?_ (callAllPlugins_still _ _ _)
      refine Core.Orderly.push (s := { s.insertLink l _ with
        core.dialTrouble := s.core.dialTrouble.erase peer }) ?_ _
      have hput : ∀ u : UpLink X, (s.insertLink l (.up u)).core.Orderly := fun u =>
        h.insertLink l trivial
      exact (hput _).of_tables rfl rfl rfl

omit [Plugin P] in
theorem afterHello_orderly (h : s.core.Orderly) {peer : DeviceId} {payload : Bytes}
    {next : Exec X P → Exec X P} (hnext : ∀ s : Exec X P, s.core.Orderly → (next s).core.Orderly)
    (detail : String) : (match s.acceptHello peer payload with
      | (s, false) => s.failLink l detail
      | (s, true) => next s).core.Orderly := by
  have hread := h.still (acceptHello_still s peer payload)
  split
  · rename_i heq
    rw [heq] at hread
    exact failLink_orderly hread _ _
  · rename_i heq
    rw [heq] at hread
    exact hnext _ hread

theorem onSessionOpener_orderly (h : s.core.Orderly) (seed : X.Seed) (l : LinkId) (p : PendingLink)
    (body : Bytes) : (s.onSessionOpener nowMs seed l p body).core.Orderly := by
  unfold onSessionOpener
  split
  · exact failLink_orderly h _ _
  · dsimp only
    split
    · exact failLink_orderly h _ _
    · split
      · exact failLink_orderly h _ _
      · split
        · exact failLink_orderly h _ _
        · split
          · exact failLink_orderly h _ _
          · refine afterHello_orderly h (fun s hs => ?_) _
            split
            · exact failLink_orderly hs _ _
            · refine finishSession_orderly ?_ _ _ _ _
              exact hs.of_tables rfl rfl rfl

theorem onFirstFrame_orderly (h : s.core.Orderly) (seed : X.Seed) (l : LinkId) (p : PendingLink)
    (kind : FrameKind) (body : Bytes) : (s.onFirstFrame nowMs seed l p kind body).core.Orderly := by
  unfold onFirstFrame
  split
  · exact onPairOpener_orderly h seed l p body
  · exact onSessionOpener_orderly h seed l p body
  · exact failLink_orderly h _ _

theorem afterHandshakeRead_orderly (h : s.core.Orderly) (l : LinkId) {g : HandshakingLink X}
    (hg : g.Carries) (payload : Bytes) : (s.afterHandshakeRead nowMs l g payload).core.Orderly := by
  unfold afterHandshakeRead
  split
  · exact h.insertLink l hg
  · split
    · exact pairingCompleted_orderly h l g payload
    · unfold onSessionReply
      split
      · exact failLink_orderly h _ _
      · exact afterHello_orderly h (fun s hs => finishSession_orderly hs _ _ _ _) _

theorem onHandshakeFrame_orderly (h : s.core.Orderly) (l : LinkId) {g : HandshakingLink X}
    (hg : g.Carries) (kind : FrameKind) (body : Bytes) :
    (s.onHandshakeFrame nowMs l g kind body).core.Orderly := by
  have hg' : ∀ hs : Handshake X, HandshakingLink.Carries { g with hs } := fun _ =>
    ⟨hg.meant, hg.ascending, hg.session⟩
  unfold onHandshakeFrame
  by_cases hkind : kind = if g.pairingFlow then .pairHandshake else .sessionHandshake
  case neg =>
    rw [if_pos hkind]
    exact failLink_orderly h _ _
  rw [if_neg (not_not.mpr hkind)]
  cases g.hs.read body with
  | error e =>
    dsimp only
    split
    · exact pairingAttemptFailed_orderly h l
    · exact failLink_orderly h _ _
  | ok r =>
    dsimp only
    split
    · split
      · exact afterHandshakeRead_orderly (h.push _) l (hg' _) _
      · exact failLink_orderly h _ _
    · exact afterHandshakeRead_orderly h l (hg' _) _

theorem onTransportFrame_orderly (h : s.core.Orderly) (l : LinkId) (u : UpLink X)
    (kind : FrameKind) (body : Bytes) : (s.onTransportFrame nowMs l u kind body).core.Orderly := by
  unfold onTransportFrame
  split
  · exact failUpLink_orderly h l u _
  · split
    · exact failUpLink_orderly h l u _
    · rename_i plaintext session _
      have hput : (s.insertLink l (.up { u with session, lastRecvMs := nowMs })).core.Orderly :=
        h.insertLink l trivial
      dsimp only
      split
      · exact hput.still (.ui _ _)
      · split
        · exact hput.still (sendError_still _ _ _ _)
        · split
          · exact hput.still (.ui _ _)
          · exact hput.still (routeEnvelope_still _ _ _ _)

theorem onLinkRecv_orderly (h : s.core.Orderly) (seed : X.Seed) (l : LinkId) (msg : Bytes) :
    (s.onLinkRecv nowMs seed l msg).core.Orderly := by
  have hgone := h.unlink l
  unfold onLinkRecv
  split
  · exact failLink_orderly h _ _
  · dsimp only
    cases hl : s.core.links[l]? with
    | none => exact failLink_orderly hgone _ _
    | some st =>
      cases st with
      | pending p => exact onFirstFrame_orderly hgone seed l p _ _
      | handshaking g => exact onHandshakeFrame_orderly hgone l (h.carried l g hl) _ _
      | up u => exact onTransportFrame_orderly hgone l u _ _

theorem closeUpLinks_orderly (h : s.core.Orderly) (peer : DeviceId) (reason : LinkDownReason) :
    (s.closeUpLinks nowMs peer reason).core.Orderly := by
  refine Core.Orderly.foldl _ (fun s e hs => ?_) h
  refine onLinkDown_orderly ?_ e.1
  exact hs.of_tables rfl rfl rfl

theorem handleRevoke_orderly (h : s.core.Orderly) (peer : DeviceId) :
    (s.handleRevoke nowMs peer).core.Orderly := by
  unfold handleRevoke
  dsimp only
  have hclosed : (closeUpLinks (push { s with core := { s.core with
      peers := s.core.peers.erase peer
      addrs := s.core.addrs.erase peer
      dialTrouble := s.core.dialTrouble.erase peer } } (.persist ("peer/" ++ peer.str) none .secret))
      nowMs peer (.protocol .notPaired)).core.Orderly := by
    refine closeUpLinks_orderly ?_ peer _
    exact h.of_tables rfl rfl rfl
  split
  · exact (hclosed.still (.ui _ _)).still (announce_still _ _)
  · exact hclosed.still (.ui _ _)

theorem onLocal_orderly (h : s.core.Orderly) (cmd : LocalCommand) :
    (s.onLocal nowMs cmd).core.Orderly := by
  cases cmd <;> dsimp only [onLocal]
  case requestPairing transport addr =>
    unfold requestPairing
    split
    · exact h.of_tables rfl rfl rfl
    · exact ⟨fun d e he => Nat.le_succ_of_le (h.issued d e he), h.ascending, h.carried⟩
  case confirmPairing accept => exact confirmPairing_orderly h accept
  case setPeerAddress peer transport addr =>
    split
    · exact h.of_tables rfl rfl rfl
    · exact h.of_tables rfl rfl rfl
  case connect peer => exact connectPeer_orderly h peer true
  case reconsiderRoutes => exact .foldl _ (fun s p hs => connectPeer_orderly hs p false) h
  case disconnect peer => exact closeUpLinks_orderly h peer .closed
  case revoke peer => exact handleRevoke_orderly h peer
  case plugin peer cap ty body => exact h.still (onLocalPlugin_still s nowMs peer cap ty body)

omit [Plugin P] in
theorem closeStale_orderly (h : s.core.Orderly) (l : LinkId) :
    (s.closeStale nowMs l).core.Orderly := by
  have hgone : ((s.unlink l).push (.close l .closed)).core.Orderly :=
    (h.unlink l).of_tables rfl rfl rfl
  unfold closeStale
  dsimp only
  cases hl : s.core.links[l]? with
  | none => exact hgone
  | some st =>
    cases st with
    | pending => exact hgone
    | up => exact hgone
    | handshaking g =>
      dsimp only
      cases hf : g.fallback with
      | none => exact hgone
      | some a => exact tryNextRoute_orderly hgone ((h.carried l g hl).ascending a hf) _

omit [Plugin P] in
theorem expireDial_orderly (h : s.core.Orderly) (d : DialToken) :
    (s.expireDial nowMs d).core.Orderly := by
  unfold expireDial
  split
  · exact h
  · rename_i he
    exact tryNextRoute_orderly (h.eraseDial d) (h.ascending d _ he) _

omit [Plugin P] in
theorem heartbeat_orderly (h : s.core.Orderly) : (s.heartbeat nowMs).core.Orderly := by
  unfold heartbeat
  split
  · refine Core.Orderly.foldl _ (fun s p hs => connectPeer_orderly hs p false) ?_
    exact h.of_tables rfl rfl rfl
  · exact h

omit [Plugin P] in
theorem lapsePairing_orderly (h : s.core.Orderly) : (s.lapsePairing nowMs).core.Orderly := by
  unfold lapsePairing
  split
  · exact h
  · split
    · exact h
    · dsimp only
      split
      · rename_i a _
        exact (h.unlink a.link).of_tables rfl rfl rfl
      · exact h.of_tables rfl rfl rfl

theorem onTick_orderly (h : s.core.Orderly) : (s.onTick nowMs).core.Orderly := by
  have hlapsed : (s.lapsePairing nowMs).core.Orderly := lapsePairing_orderly h
  have hwaited := hlapsed.still (giveUpWaiting_still _ nowMs)
  have hclosed : (((s.lapsePairing nowMs).giveUpWaiting nowMs).closeStaleLinks nowMs).core.Orderly :=
    .foldl _ (fun s l hs => closeStale_orderly hs l) hwaited
  have hexpired : ((((s.lapsePairing nowMs).giveUpWaiting nowMs).closeStaleLinks
      nowMs).expireDials nowMs).core.Orderly :=
    .foldl _ (fun s d hs => expireDial_orderly hs d) hclosed
  exact (heartbeat_orderly hexpired).still (wakePlugins_still _ nowMs)

omit [Plugin P] in
theorem onDialFailed_orderly (h : s.core.Orderly) (d : DialToken) (reason : String) :
    (s.onDialFailed nowMs d reason).core.Orderly := by
  unfold onDialFailed
  split
  · exact h.of_tables rfl rfl rfl
  · split
    · rename_i he
      exact tryNextRoute_orderly (h.eraseDial d) (h.ascending d _ he) _
    · exact h

omit [Plugin P] in
theorem onDiscovered_orderly (h : s.core.Orderly) (transport : TransportId)
    (peer : DiscoveredPeer) : (s.onDiscovered nowMs transport peer).core.Orderly := by
  unfold onDiscovered
  split
  · exact h
  · dsimp only
    split
    · refine connectPeer_orderly ?_ _ _
      exact h.of_tables rfl rfl rfl
    · refine Core.Orderly.still ?_ (announce_still _ _)
      exact h.of_tables rfl rfl rfl

theorem onEvent_orderly (h : s.core.Orderly) (seed : X.Seed) (e : Event) :
    (s.onEvent nowMs seed e).core.Orderly := by
  cases e <;> dsimp only [onEvent]
  case linkUp l attrs dial => exact onLinkUp_orderly h seed l attrs dial
  case linkRecv l msg => exact onLinkRecv_orderly h seed l msg
  case linkDown l reason => exact onLinkDown_orderly h l
  case dialFailed d reason => exact onDialFailed_orderly h d reason
  case discovered transport peer => exact onDiscovered_orderly h transport peer
  case undiscovered transport addr => exact h.still (onUndiscovered_still s transport addr)
  case bulkListening t endpoint => exact h.still (dispatchToTransferOwner_still s nowMs t _)
  case bulkStarted t => exact h.of_tables rfl rfl rfl
  case bulkFinished t ok detail =>
    exact (h.still (dispatchToTransferOwner_still s nowMs t _)).of_tables rfl rfl rfl
  case tick => exact onTick_orderly h
  case localCommand cmd => exact onLocal_orderly h cmd
  case effectDone token result => exact h.still (onEffectDone_still s nowMs token result)

end Hooks
end Exec

section
variable [Plugin P]

theorem CoreBuilder.orderly (b : CoreBuilder X P) : b.build.Orderly :=
  ⟨fun d e he => by simp [build] at he, fun d e he => by simp [build] at he,
    fun l h hl => by simp [build] at hl⟩

namespace Core

theorem Orderly.step {c : Core X P} (h : c.Orderly) (i : Input X) : (c.step i).Orderly := by
  refine Exec.onEvent_orderly ?_ i.seed i.event
  exact ⟨h.issued, h.ascending, h.carried⟩

theorem Orderly.run {c : Core X P} (h : c.Orderly) (is : List (Input X)) : (c.run is).Orderly :=
  Lib.run_inv (fun _ i hc => hc.step i) h is

end Core
end
end Acrylius
