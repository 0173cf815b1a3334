import Acrylius.Core.Calls

/-! The list of machines discovery offers, and what leaves it alone: everything but sightings,
withdrawals and revocations. -/
namespace Acrylius
open Proto Std

variable {X : Crates} {P : Type}

/-- What is said about a machine discovery offers (`Nearby`, without its fingerprint). -/
structure Listing where
  name : String
  addr : String
  transport : TransportId
  pairing : Bool
deriving DecidableEq

def Sighting.listing (s : Sighting) : Option Listing :=
  s.routes.inPreferenceOrder.head?.map fun r =>
    { name := s.name, addr := r.2, transport := r.1, pairing := s.pairing }

namespace Core

def Paired (c : Core X P) (fp : Fingerprint) : Prop := (c.recordOf fp).isSome

instance (c : Core X P) (fp : Fingerprint) : Decidable (c.Paired fp) :=
  inferInstanceAs (Decidable (_ = true))

/-- Machines discovery can see that this one is not paired with, each on its best known route. -/
def nearby (c : Core X P) : List (Fingerprint × Listing) :=
  c.seen.toList.filterMap fun e =>
    if c.Paired e.1 then none else e.2.listing.map fun listing => (e.1, listing)

end Core

def UiEvent.lists : UiEvent → Bool
  | .discovered .. | .undiscovered _ => true
  | _ => false

theorem UiEvent.lists_of_own (e : UiEvent) (h : e.own) : e.lists = false := by
  cases e with
  | plugin | error => rfl
  | _ => cases h

def Action.lists : Action → Bool
  | .ui e => e.lists
  | _ => false

/-- A stretch of a step that changes no sighting and says nothing about any. -/
def Unlisted (s t : Exec X P) : Prop :=
  t.core.seen = s.core.seen ∧ ∃ as, t.actions = s.actions ++ as ∧ ∀ a ∈ as, a.lists = false

/-- Plugins say nothing about what discovery sees. -/
def Plugin.Discreet (P : Type) [Plugin P] : Prop :=
  ∀ (p : P) (cx : Cx) (c : Call), ∀ e ∈ (Plugin.call p cx c).2.1.ui, e ∈ cx.ui ∨ e.lists = false

namespace Unlisted
variable {s t r : Exec X P}

theorem of_same (hseen : t.core.seen = s.core.seen) (ha : t.actions = s.actions) :
    Unlisted s t :=
  ⟨hseen, [], ha.trans (List.append_nil _).symm, by simp⟩

theorem refl (s : Exec X P) : Unlisted s s := of_same rfl rfl

theorem trans (h : Unlisted s t) (h' : Unlisted t r) : Unlisted s r := by
  obtain ⟨hseen, as, ha, hmute⟩ := h
  obtain ⟨hseen', bs, hb, hmute'⟩ := h'
  refine ⟨hseen'.trans hseen, as ++ bs, by rw [hb, ha, List.append_assoc], fun a hmem => ?_⟩
  rcases List.mem_append.mp hmem with hmem | hmem
  · exact hmute a hmem
  · exact hmute' a hmem

theorem push (s : Exec X P) (a : Action) (h : a.lists = false) : Unlisted s (s.push a) :=
  ⟨rfl, [a], rfl, by simpa using h⟩

theorem ui (s : Exec X P) (e : UiEvent) (h : e.lists = false) : Unlisted s (s.ui e) :=
  push s (.ui e) h

theorem say (h : Unlisted s t) (a : Action) (ha : a.lists = false) : Unlisted s (t.push a) :=
  h.trans (push t a ha)

theorem same (h : Unlisted s t) (hseen : r.core.seen = t.core.seen) (ha : r.actions = t.actions) :
    Unlisted s r :=
  h.trans (of_same hseen ha)

theorem foldl {α : Type} {f : Exec X P → α → Exec X P} (as : List α)
    (hf : ∀ a ∈ as, ∀ s, Unlisted s (f s a)) (s : Exec X P) : Unlisted s (as.foldl f s) := by
  induction as generalizing s with
  | nil => exact refl s
  | cons a as ih =>
    have hone := hf a List.mem_cons_self s
    exact hone.trans (ih (fun b hb => hf b (List.mem_cons_of_mem _ hb)) _)

end Unlisted

namespace Exec
variable {nowMs : ℕ}

section Moves

theorem dispatchSend_unlisted (s : Exec X P) (m : PendingSend) :
    Unlisted s (s.dispatchSend m) := by
  unfold dispatchSend
  dsimp only
  split
  · exact .ui s _ rfl
  · split
    · exact .ui s _ rfl
    · split
      · split
        · exact .same (.ui s _ rfl) rfl rfl
        · exact .same (.push s _ rfl) rfl rfl
      · exact .ui s _ rfl

theorem dispatchBulk_unlisted (s : Exec X P) (b : BulkRequest) :
    Unlisted s (s.dispatchBulk nowMs b) := by
  have key : ∀ (peer offerer : DeviceId) (t : TransferId) (n : ℕ)
      (start : Exec X P → Bytes → Exec X P), (∀ s k, Unlisted s (start s k)) →
      Unlisted s (s.withBulkKey peer t offerer n start) := by
    intro peer offerer t n start h
    unfold withBulkKey
    split
    · exact .say (.ui s _ rfl) _ rfl
    · split
      · exact .ui s _ rfl
      · exact h s _
  cases b <;> dsimp only [dispatchBulk]
  case cancel t => exact .push s _ rfl
  case send => exact key _ _ _ _ _ fun s k => .push s _ rfl
  case listen => exact key _ _ _ _ _ fun s k => .say (.of_same rfl rfl) _ rfl

theorem drainCx_unlisted (s : Exec X P) (cx : Cx) (h : ∀ e ∈ cx.ui, e.lists = false) :
    Unlisted s (s.drainCx cx) := by
  have told : Unlisted s (cx.ui.foldl ui s) := .foldl _ (fun e he s => .ui s e (h e he)) s
  have acted : ∀ r : Exec X P,
      Unlisted r (cx.effects.foldl (fun s e => s.push (.effect e.1 e.2)) r) :=
    .foldl _ fun e _ s => .push s _ rfl
  have asked : ∀ r : Exec X P,
      Unlisted r (cx.bulk.foldl (fun s b => s.dispatchBulk cx.nowMs b) r) :=
    .foldl _ fun b _ s => dispatchBulk_unlisted s b
  have sent : ∀ r : Exec X P, Unlisted r (cx.sends.foldl dispatchSend r) :=
    .foldl _ fun m _ s => dispatchSend_unlisted s m
  have all := ((told.trans (acted _)).trans (asked _)).trans (sent _)
  unfold drainCx
  dsimp only
  split
  · exact all
  · exact all.same rfl rfl

theorem failLink_unlisted (s : Exec X P) (l : LinkId) (detail : String) :
    Unlisted s (s.failLink l detail) := by
  unfold failLink
  exact .say (.say (.of_same rfl rfl) _ rfl) _ rfl

theorem dialPeer_unlisted (s : Exec X P) (peer : DeviceId) (route : TransportId × String)
    (routes : List (TransportId × String)) (byHand : Bool) :
    Unlisted s (s.dialPeer nowMs peer route routes byHand) := by
  unfold dialPeer
  exact .say (.of_same rfl rfl) _ rfl

theorem tryNextRoute_unlisted (s : Exec X P) (a : PeerDial) (why : String) :
    Unlisted s (s.tryNextRoute nowMs a why) := by
  unfold tryNextRoute
  split
  · exact .refl s
  · split
    · dsimp only
      split
      · exact .say (.of_same rfl rfl) _ rfl
      · exact .of_same rfl rfl
    · exact dialPeer_unlisted s _ _ _ _

theorem connectRoutes_unlisted (s : Exec X P) (peer : DeviceId)
    (routes : List (TransportId × String)) (byHand : Bool) :
    Unlisted s (s.connectRoutes nowMs peer routes byHand) := by
  unfold connectRoutes
  split
  · dsimp only
    split
    · exact .say (.say (.of_same rfl rfl) _ rfl) _ rfl
    · exact .of_same rfl rfl
  · exact dialPeer_unlisted s _ _ _ _

theorem connectPeer_unlisted (s : Exec X P) (peer : DeviceId) (byHand : Bool) :
    Unlisted s (s.connectPeer nowMs peer byHand) := by
  unfold connectPeer
  dsimp only
  split
  · exact .refl s
  · split
    · exact connectRoutes_unlisted s _ _ _
    · split
      · exact .of_same rfl rfl
      · exact .refl s
    · split
      · exact .ui s _ rfl
      · split
        · exact .refl s
        · split
          · exact .refl s
          · exact connectRoutes_unlisted s _ _ _

theorem startSessionInitiator_unlisted (s : Exec X P) (seed : X.Seed) (l : LinkId)
    (peer : DeviceId) (attrs : LinkAttrs) (deadline : ℕ) (fallback : Option PeerDial) :
    Unlisted s (s.startSessionInitiator seed l peer attrs deadline fallback) := by
  unfold startSessionInitiator
  split
  · exact failLink_unlisted s _ _
  · split
    · split
      · exact failLink_unlisted s _ _
      · split
        · exact failLink_unlisted s _ _
        · exact .same (.push s _ rfl) rfl rfl
    · exact failLink_unlisted s _ _

theorem startPairInitiator_unlisted (s : Exec X P) (seed : X.Seed) (l : LinkId)
    (attrs : LinkAttrs) (deadline : ℕ) (via : TransportId × String) :
    Unlisted s (s.startPairInitiator seed l attrs deadline via) := by
  unfold startPairInitiator
  split
  · exact failLink_unlisted s _ _
  · split
    · exact failLink_unlisted s _ _
    · exact .same (.push s _ rfl) rfl rfl

theorem onLinkUp_unlisted (s : Exec X P) (seed : X.Seed) (l : LinkId) (attrs : LinkAttrs)
    (dial : Option DialToken) : Unlisted s (s.onLinkUp nowMs seed l attrs dial) := by
  unfold onLinkUp
  dsimp only
  split
  · refine Unlisted.trans ?_ (startPairInitiator_unlisted _ seed l attrs _ _)
    exact .of_same rfl rfl
  · split
    · refine Unlisted.trans ?_ (startSessionInitiator_unlisted _ seed l _ attrs _ _)
      exact .of_same rfl rfl
    · exact .of_same rfl rfl

theorem acceptHello_unlisted (s : Exec X P) (peer : DeviceId) (payload : Bytes) :
    Unlisted s (s.acceptHello peer payload).1 := by
  unfold acceptHello
  split
  · exact .ui s _ rfl
  · split
    · exact .refl s
    · split
      · exact .say (.of_same rfl rfl) _ rfl
      · exact .ui s _ rfl

theorem pairingAttemptFailed_unlisted (s : Exec X P) (l : LinkId) :
    Unlisted s (s.pairingAttemptFailed nowMs l) := by
  unfold pairingAttemptFailed
  exact .say (.same (failLink_unlisted s l _) rfl rfl) _ rfl

theorem pairingCompleted_unlisted (s : Exec X P) (l : LinkId) (h : HandshakingLink X)
    (payload : Bytes) : Unlisted s (s.pairingCompleted nowMs l h payload) := by
  have put : Unlisted s (s.insertLink l (.pending ⟨h.attrs, h.deadline⟩)) := .of_same rfl rfl
  unfold pairingCompleted
  split
  · split
    · exact pairingAttemptFailed_unlisted s l
    · dsimp only
      split
      · exact put.trans (failLink_unlisted _ _ _)
      · exact put.trans (failLink_unlisted _ _ _)
      · exact .say (.same put rfl rfl) _ rfl
  · exact failLink_unlisted s _ _

theorem keepRoutes_unlisted (s : Exec X P) (id : DeviceId) (a : AwaitingConfirm) :
    Unlisted s (s.keepRoutes id a) := by
  unfold keepRoutes
  dsimp only
  split
  · exact .of_same rfl rfl
  · split
    · exact .of_same rfl rfl
    · exact .refl s

theorem confirmPairing_unlisted (s : Exec X P) (accept : Bool) :
    Unlisted s (s.confirmPairing nowMs accept) := by
  unfold confirmPairing
  split
  · rename_i deadline a _
    split
    · have closed : Unlisted s (s.push (.close a.link (.protocol .notAllowed))) := .push s _ rfl
      exact .say (.same closed rfl rfl) _ rfl
    · split
      · exact .of_same rfl rfl
      · rename_i id _
        have said := ((keepRoutes_unlisted s id a).say (Core.peerBlob X a.record) rfl).say
          (.ui (.pairingComplete id a.record.name)) rfl
        exact (said.say (.close a.link .closed) rfl).same rfl rfl
  · exact .refl s

theorem onPairOpener_unlisted (s : Exec X P) (seed : X.Seed) (l : LinkId) (p : PendingLink)
    (body : Bytes) : Unlisted s (s.onPairOpener nowMs seed l p body) := by
  unfold onPairOpener
  split
  · exact failLink_unlisted s _ _
  · split
    · exact failLink_unlisted s _ _
    · split
      · refine Unlisted.trans ?_ (failLink_unlisted _ _ _)
        exact .of_same rfl rfl
      · split
        · exact failLink_unlisted s _ _
        · rename_i m hs' _
          have sent : Unlisted s (s.push (.linkSend l (Frame.join .pairHandshake m))) :=
            .push s _ rfl
          exact sent.same rfl rfl

theorem requestPairing_unlisted (s : Exec X P) (transport : TransportId) (addr : String) :
    Unlisted s (s.requestPairing nowMs transport addr) := by
  unfold requestPairing
  split
  · exact .ui s _ rfl
  · exact .say (.of_same rfl rfl) _ rfl

theorem lapsePairing_unlisted (s : Exec X P) : Unlisted s (s.lapsePairing nowMs) := by
  unfold lapsePairing
  split
  · exact .refl s
  · split
    · exact .refl s
    · dsimp only
      split
      · rename_i a _
        have closed : Unlisted s (s.push (.close a.link .closed)) := .push s _ rfl
        exact .say (.same closed rfl rfl) _ rfl
      · exact .say (.of_same rfl rfl) _ rfl

theorem closeStale_unlisted (s : Exec X P) (l : LinkId) : Unlisted s (s.closeStale nowMs l) := by
  have closed : Unlisted s ((s.unlink l).push (.close l .closed)) := .say (.of_same rfl rfl) _ rfl
  unfold closeStale
  dsimp only
  split
  · split
    · exact closed.trans (tryNextRoute_unlisted _ _ _)
    · exact closed
  · exact closed

theorem expireDial_unlisted (s : Exec X P) (d : DialToken) :
    Unlisted s (s.expireDial nowMs d) := by
  unfold expireDial
  split
  · exact .refl s
  · refine Unlisted.trans ?_ (tryNextRoute_unlisted _ _ _)
    exact .of_same rfl rfl

theorem heartbeat_unlisted (s : Exec X P) : Unlisted s (s.heartbeat nowMs) := by
  unfold heartbeat
  split
  · refine Unlisted.trans ?_ (.foldl _ (fun p _ s => connectPeer_unlisted s p false) _)
    exact .of_same rfl rfl
  · exact .refl s

theorem onDialFailed_unlisted (s : Exec X P) (d : DialToken) (reason : String) :
    Unlisted s (s.onDialFailed nowMs d reason) := by
  unfold onDialFailed
  split
  · exact .say (.of_same rfl rfl) _ rfl
  · split
    · refine Unlisted.trans ?_ (tryNextRoute_unlisted _ _ _)
      exact .of_same rfl rfl
    · exact .refl s

end Moves

section Calls
variable [Plugin P] (law : Plugin.Discreet P)
include law

theorem callPlugin_unlisted {α : Type} (s : Exec X P) (idx : ℕ) (cx : Cx) (c : Call)
    (hcx : cx.ui = []) {hook : P → Cx → P × Cx × α}
    (hhook : ∀ p cx, (hook p cx).2.1 = (Plugin.call p cx c).2.1) :
    Unlisted s (s.callPlugin idx cx hook).1 := by
  unfold callPlugin
  split
  · exact .refl s
  · rename_i p _
    refine Unlisted.trans ?_ (drainCx_unlisted _ _ fun e he => ?_)
    · exact .of_same rfl rfl
    · rw [hhook] at he
      have hnew := law p cx c e he
      rw [hcx] at hnew
      exact hnew.resolve_left List.not_mem_nil

theorem callAllPlugins_unlisted (s : Exec X P) (c : Call) :
    Unlisted s (s.callAllPlugins nowMs fun p cx =>
      ((Plugin.call p cx c).1, (Plugin.call p cx c).2.1)) := by
  have mute : ∀ (ps : List P) (cx : Cx), (∀ e ∈ cx.ui, e.lists = false) →
      ∀ e ∈ (forEachPlugin (fun p cx => ((Plugin.call p cx c).1, (Plugin.call p cx c).2.1)) ps
        cx).2.ui, e.lists = false := by
    intro ps
    induction ps with
    | nil => exact fun cx h => h
    | cons p ps ih =>
      intro cx h
      refine ih _ fun e he => ?_
      rcases law p cx c e he with hold | hnew
      · exact h e hold
      · exact hnew
  unfold callAllPlugins
  refine Unlisted.trans ?_ (drainCx_unlisted _ _ (mute _ _ ?_))
  · exact .of_same rfl rfl
  · intro e he
    cases he

theorem lostUpLink_unlisted (s : Exec X P) (u : UpLink X) :
    Unlisted s (s.lostUpLink nowMs u) := by
  unfold lostUpLink
  split
  · exact .ui s _ rfl
  · refine Unlisted.trans ?_ (callAllPlugins_unlisted law _ (.disconnected u.peer))
    exact .same (.ui s (.peerUnreachable u.peer) rfl) rfl rfl

theorem onLinkDown_unlisted (s : Exec X P) (l : LinkId) : Unlisted s (s.onLinkDown nowMs l) := by
  have gone : Unlisted s (s.unlink l) := .of_same rfl rfl
  unfold onLinkDown
  dsimp only
  split
  · exact gone.trans (lostUpLink_unlisted law _ _)
  · rename_i h _
    have back : Unlisted s (if h.pairingFlow then { s.unlink l with core.pairing := none }
        else s.unlink l) := by
      split
      · exact gone.same rfl rfl
      · exact gone
    split
    · exact back.trans (tryNextRoute_unlisted _ _ _)
    · exact back
  · exact gone

theorem failUpLink_unlisted (s : Exec X P) (l : LinkId) (u : UpLink X) (detail : String) :
    Unlisted s (s.failUpLink nowMs l u detail) := by
  unfold failUpLink
  refine Unlisted.trans ?_ (onLinkDown_unlisted law _ l)
  exact .say (.say (.of_same rfl rfl) _ rfl) _ rfl

theorem finishSession_unlisted (s : Exec X P) (l : LinkId) (hs : Handshake X) (attrs : LinkAttrs)
    (peer : DeviceId) : Unlisted s (s.finishSession nowMs l hs attrs peer) := by
  unfold finishSession
  dsimp only
  split
  · exact failLink_unlisted s _ _
  · split
    · exact failLink_unlisted s _ _
    · refine Unlisted.trans ?_ (callAllPlugins_unlisted law _ (.connected peer))
      exact .say (.of_same rfl rfl) _ rfl

theorem onSessionOpener_unlisted (s : Exec X P) (seed : X.Seed) (l : LinkId) (p : PendingLink)
    (body : Bytes) : Unlisted s (s.onSessionOpener nowMs seed l p body) := by
  unfold onSessionOpener
  split
  · exact failLink_unlisted s _ _
  · rename_i pk _
    dsimp only
    split
    · exact failLink_unlisted s _ _
    · split
      · exact failLink_unlisted s _ _
      · split
        · exact failLink_unlisted s _ _
        · split
          · exact failLink_unlisted s _ _
          · rename_i payload hs _
            have read := acceptHello_unlisted s (DeviceId.of X pk) payload
            split
            · rename_i heq
              rw [heq] at read
              exact read.trans (failLink_unlisted _ _ _)
            · rename_i heq
              rw [heq] at read
              split
              · exact read.trans (failLink_unlisted _ _ _)
              · exact (read.say _ rfl).trans (finishSession_unlisted law _ _ _ _ _)

theorem onFirstFrame_unlisted (s : Exec X P) (seed : X.Seed) (l : LinkId) (p : PendingLink)
    (kind : FrameKind) (body : Bytes) :
    Unlisted s (s.onFirstFrame nowMs seed l p kind body) := by
  cases kind with
  | pairHandshake => exact onPairOpener_unlisted s seed l p body
  | sessionHandshake => exact onSessionOpener_unlisted law s seed l p body
  | transport => exact failLink_unlisted s _ _

theorem onSessionReply_unlisted (s : Exec X P) (l : LinkId) (h : HandshakingLink X)
    (payload : Bytes) : Unlisted s (s.onSessionReply nowMs l h payload) := by
  unfold onSessionReply
  split
  · exact failLink_unlisted s _ _
  · rename_i peer _
    have read := acceptHello_unlisted s peer payload
    split
    · rename_i heq
      rw [heq] at read
      exact read.trans (failLink_unlisted _ _ _)
    · rename_i heq
      rw [heq] at read
      exact read.trans (finishSession_unlisted law _ _ _ _ _)

theorem afterHandshakeRead_unlisted (s : Exec X P) (l : LinkId) (h : HandshakingLink X)
    (payload : Bytes) : Unlisted s (s.afterHandshakeRead nowMs l h payload) := by
  unfold afterHandshakeRead
  split
  · exact .of_same rfl rfl
  · split
    · exact pairingCompleted_unlisted s l h payload
    · exact onSessionReply_unlisted law s l h payload

theorem onHandshakeFrame_unlisted (s : Exec X P) (l : LinkId) (h : HandshakingLink X)
    (kind : FrameKind) (body : Bytes) :
    Unlisted s (s.onHandshakeFrame nowMs l h kind body) := by
  unfold onHandshakeFrame
  by_cases hkind : kind = if h.pairingFlow then .pairHandshake else .sessionHandshake
  · rw [if_neg (not_not.mpr hkind)]
    split
    · split
      · exact pairingAttemptFailed_unlisted s l
      · exact failLink_unlisted s _ _
    · dsimp only
      split
      · split
        · exact (Unlisted.push s _ rfl).trans (afterHandshakeRead_unlisted law _ _ _ _)
        · exact failLink_unlisted s _ _
      · exact afterHandshakeRead_unlisted law s _ _ _
  · rw [if_pos hkind]
    exact failLink_unlisted s _ _

theorem routeEnvelope_unlisted (s : Exec X P) (peer : DeviceId) (env : Envelope) :
    Unlisted s (s.routeEnvelope nowMs peer env) := by
  unfold routeEnvelope
  split
  · exact dispatchSend_unlisted s _
  · rename_i idx _
    have called := callPlugin_unlisted law s idx
      ((s.cx nowMs).forPeerLink (s.core.bulkSupportFor peer)) (.message peer env) rfl
      fun p cx => Eq.refl (Plugin.onMessage p cx peer env).2.1
    dsimp only
    split
    · rename_i heq
      rw [heq] at called
      exact called.trans (dispatchSend_unlisted _ _)
    · rename_i heq
      rw [heq] at called
      exact called

theorem onTransportFrame_unlisted (s : Exec X P) (l : LinkId) (u : UpLink X) (kind : FrameKind)
    (body : Bytes) : Unlisted s (s.onTransportFrame nowMs l u kind body) := by
  unfold onTransportFrame
  split
  · exact failUpLink_unlisted law s _ _ _
  · split
    · exact failUpLink_unlisted law s _ _ _
    · rename_i plaintext session _
      have put : Unlisted s (s.insertLink l (.up { u with session, lastRecvMs := nowMs })) :=
        .of_same rfl rfl
      dsimp only
      split
      · exact put.say _ rfl
      · split
        · exact put.trans (dispatchSend_unlisted _ _)
        · split
          · exact put.say _ rfl
          · exact put.trans (routeEnvelope_unlisted law _ _ _)

theorem onLinkRecv_unlisted (s : Exec X P) (seed : X.Seed) (l : LinkId) (msg : Bytes) :
    Unlisted s (s.onLinkRecv nowMs seed l msg) := by
  have gone : Unlisted s (s.unlink l) := .of_same rfl rfl
  unfold onLinkRecv
  split
  · exact failLink_unlisted s _ _
  · dsimp only
    split
    · exact gone.trans (onFirstFrame_unlisted law _ _ _ _ _ _)
    · exact gone.trans (onHandshakeFrame_unlisted law _ _ _ _ _)
    · exact gone.trans (onTransportFrame_unlisted law _ _ _ _ _)
    · exact gone.trans (failLink_unlisted _ _ _)

theorem closeUpLinks_unlisted (s : Exec X P) (peer : DeviceId) (reason : LinkDownReason) :
    Unlisted s (s.closeUpLinks nowMs peer reason) := by
  refine .foldl _ (fun e _ s => ?_) s
  exact (Unlisted.push s _ rfl).trans (onLinkDown_unlisted law _ _)

theorem onLocalPlugin_unlisted (s : Exec X P) (peer : DeviceId) (cap ty : String)
    (body : Bytes) : Unlisted s (s.onLocalPlugin nowMs peer cap ty body) := by
  unfold onLocalPlugin
  split
  · exact .ui s _ rfl
  · rename_i idx _
    have called := callPlugin_unlisted law s idx
      ((s.cx nowMs).forPeerLink (s.core.bulkSupportFor peer)) (.request peer ty body) rfl
      fun p cx => Eq.refl (Plugin.onLocal p cx peer ty body).2.1
    dsimp only
    split
    · rename_i heq
      rw [heq] at called
      exact called.say _ rfl
    · rename_i heq
      rw [heq] at called
      exact called

theorem onLocal_unlisted (s : Exec X P) {cmd : LocalCommand} (hcmd : ∀ peer, cmd ≠ .revoke peer) :
    Unlisted s (s.onLocal nowMs cmd) := by
  cases cmd <;> dsimp only [onLocal]
  case requestPairing transport addr => exact requestPairing_unlisted s transport addr
  case confirmPairing accept => exact confirmPairing_unlisted s accept
  case setPeerAddress peer transport addr =>
    split
    · exact .of_same rfl rfl
    · exact .ui s _ rfl
  case connect peer => exact connectPeer_unlisted s peer true
  case reconsiderRoutes => exact .foldl _ (fun p _ s => connectPeer_unlisted s p false) s
  case disconnect peer => exact closeUpLinks_unlisted law s peer .closed
  case revoke peer => exact absurd rfl (hcmd peer)
  case plugin peer cap ty body => exact onLocalPlugin_unlisted law s peer cap ty body

theorem dispatchToTransferOwner_unlisted (s : Exec X P) (t : TransferId) (c : Call) :
    Unlisted s (s.dispatchToTransferOwner nowMs t fun p cx =>
      ((Plugin.call p cx c).1, (Plugin.call p cx c).2.1)) := by
  unfold dispatchToTransferOwner
  split
  · exact .refl s
  · exact callPlugin_unlisted law s _ _ c rfl fun _ _ => rfl

theorem onEffectDone_unlisted (s : Exec X P) (token : EffectToken) (result : EffectResult) :
    Unlisted s (s.onEffectDone nowMs token result) := by
  unfold onEffectDone
  split
  · exact .refl s
  · refine Unlisted.trans ?_ (callPlugin_unlisted law _ _ _ (.effectResult token result) rfl ?_)
    · exact .of_same rfl rfl
    · exact fun _ _ => rfl

theorem giveUpBulk_unlisted (s : Exec X P) (t : TransferId) :
    Unlisted s (s.giveUpBulk nowMs t) := by
  have cancelled : Unlisted s (push { s with core.bulkWait := s.core.bulkWait.erase t }
      (.bulkCancel t)) := .say (.of_same rfl rfl) _ rfl
  unfold giveUpBulk
  exact (cancelled.trans (dispatchToTransferOwner_unlisted law _ t
    (.bulkFinished t false "the sender never connected"))).same rfl rfl

theorem wakePlugins_unlisted (s : Exec X P) : Unlisted s (s.wakePlugins nowMs) := by
  unfold wakePlugins
  split
  · exact .refl s
  · split
    · exact .refl s
    · refine Unlisted.trans ?_ (callAllPlugins_unlisted law _ .tick)
      exact .of_same rfl rfl

theorem onTick_unlisted (s : Exec X P) : Unlisted s (s.onTick nowMs) := by
  have waited : ∀ r : Exec X P, Unlisted r (r.giveUpWaiting nowMs) :=
    fun r => .foldl _ (fun t _ s => giveUpBulk_unlisted law s t) r
  have closed : ∀ r : Exec X P, Unlisted r (r.closeStaleLinks nowMs) :=
    fun r => .foldl _ (fun l _ s => closeStale_unlisted s l) r
  have expired : ∀ r : Exec X P, Unlisted r (r.expireDials nowMs) :=
    fun r => .foldl _ (fun d _ s => expireDial_unlisted s d) r
  have lapsed : Unlisted s (s.lapsePairing nowMs) := lapsePairing_unlisted s
  have begun := lapsed.trans (waited _)
  have dropped := (begun.trans (closed _)).trans (expired _)
  exact (dropped.trans (heartbeat_unlisted _)).trans (wakePlugins_unlisted law _)

end Calls
end Exec

/-- An event about what discovery sees, or one that stops hiding a machine. -/
def Event.listing : Event → Bool
  | .discovered .. | .undiscovered .. | .localCommand (.revoke _) => true
  | _ => false

theorem Exec.onEvent_unlisted [Plugin P] (law : Plugin.Discreet P) (nowMs : ℕ) (s : Exec X P)
    (seed : X.Seed) {e : Event} (he : e.listing = false) :
    Unlisted s (s.onEvent nowMs seed e) := by
  cases e <;> dsimp only [onEvent]
  case linkUp l attrs dial => exact onLinkUp_unlisted s seed l attrs dial
  case linkRecv l msg => exact onLinkRecv_unlisted law s seed l msg
  case linkDown l reason => exact onLinkDown_unlisted law s l
  case dialFailed d reason => exact onDialFailed_unlisted s d reason
  case discovered => cases he
  case undiscovered => cases he
  case bulkListening t endpoint =>
    exact dispatchToTransferOwner_unlisted law s t (.bulkListening t endpoint)
  case bulkStarted t => exact .of_same rfl rfl
  case bulkFinished t ok detail =>
    exact (dispatchToTransferOwner_unlisted law s t (.bulkFinished t ok detail)).same rfl rfl
  case tick => exact onTick_unlisted law s
  case localCommand cmd =>
    refine onLocal_unlisted law s fun peer hrev => ?_
    rw [hrev] at he
    cases he
  case effectDone token result => exact onEffectDone_unlisted law s token result

end Acrylius
