import Acrylius.Core.Inversion

/-! Which plugins a step calls, with what, and when: everything else a step does leaves the
plugins and their transfers alone. -/
namespace Acrylius
open Proto Std

variable {X : Crates} {P : Type}

inductive Call where
  | message (peer : DeviceId) (env : Envelope)
  | connected (peer : DeviceId)
  | disconnected (peer : DeviceId)
  | request (peer : DeviceId) (ty : String) (body : Bytes)
  | effectResult (token : EffectToken) (result : EffectResult)
  | bulkListening (transfer : TransferId) (endpoint : String)
  | bulkFinished (transfer : TransferId) (ok : Bool) (detail : String)
  | tick

/-- The hook a call goes to. Hooks that return nothing cannot fail. -/
def Plugin.call [Plugin P] (p : P) (cx : Cx) : Call → P × Cx × Except PluginError Unit
  | .message peer env => Plugin.onMessage p cx peer env
  | .connected peer => let r := Plugin.onPeerConnected p cx peer; (r.1, r.2, .ok ())
  | .disconnected peer => let r := Plugin.onPeerDisconnected p cx peer; (r.1, r.2, .ok ())
  | .request peer ty body => Plugin.onLocal p cx peer ty body
  | .effectResult token result => let r := Plugin.onEffectResult p cx token result; (r.1, r.2, .ok ())
  | .bulkListening t endpoint => let r := Plugin.onBulkListening p cx t endpoint; (r.1, r.2, .ok ())
  | .bulkFinished t ok detail => let r := Plugin.onBulkFinished p cx t ok detail; (r.1, r.2, .ok ())
  | .tick => let r := Plugin.onTick p cx; (r.1, r.2, .ok ())

/-- Calls every plugin gets, over one shared context. -/
def Call.forAll : Call → Bool
  | .connected _ | .disconnected _ | .tick => true
  | _ => false

/-- The plugins, the number of transfers minted, and which transfers are in whose hands. -/
@[ext] structure Ledger (P : Type) where
  plugins : List P
  nextTransfer : ℕ
  bulkOwner : ExtTreeMap TransferId ℕ
  bulkWait : ExtTreeMap TransferId ℕ

def Core.ledger (c : Core X P) : Ledger P where
  plugins := c.plugins
  nextTransfer := c.nextTransfer
  bulkOwner := c.bulkOwner
  bulkWait := c.bulkWait

/-- Actions the core emits on its own account: no bulk channel, no effect, and of a plugin's
events only the `err` a peer sent. -/
def Action.plain : Action → Bool
  | .bulkListen .. | .bulkSend .. | .bulkCancel .. | .effect .. => false
  | .ui (.plugin _ _ ty _) => ty = "err"
  | _ => true

/-- Of what may be shown, what is a plugin's to show: its own events, and errors. -/
def UiEvent.own : UiEvent → Bool
  | .plugin .. | .error .. => true
  | _ => false

/-- A stretch of a step that involves no plugin and no transfer. -/
def Plain (s t : Exec X P) : Prop :=
  t.core.ledger = s.core.ledger ∧ ∃ as, t.actions = s.actions ++ as ∧ ∀ a ∈ as, a.plain

namespace Plain
variable {s t r : Exec X P}

theorem of_ledger (h : t.core.ledger = s.core.ledger) (ha : t.actions = s.actions) : Plain s t :=
  ⟨h, [], by simpa using ha, by simp⟩

theorem refl (s : Exec X P) : Plain s s := of_ledger rfl rfl

theorem trans (h : Plain s t) (h' : Plain t r) : Plain s r := by
  obtain ⟨hl, as, ha, hp⟩ := h
  obtain ⟨hl', bs, hb, hp'⟩ := h'
  refine ⟨hl'.trans hl, as ++ bs, by rw [hb, ha, List.append_assoc], ?_⟩
  intro a hmem
  rcases List.mem_append.mp hmem with h | h
  · exact hp a h
  · exact hp' a h

theorem push (s : Exec X P) (a : Action) (h : a.plain) : Plain s (s.push a) :=
  ⟨rfl, [a], rfl, by simpa using h⟩

theorem foldl {α : Type} {f : Exec X P → α → Exec X P} (hf : ∀ s a, Plain s (f s a))
    (as : List α) (s : Exec X P) : Plain s (as.foldl f s) := by
  induction as generalizing s with
  | nil => exact refl s
  | cons a as ih => exact (hf s a).trans (ih _)

end Plain

namespace Exec

theorem dispatchSend_plain (s : Exec X P) (m : PendingSend) : Plain s (s.dispatchSend m) := by
  unfold dispatchSend
  dsimp only
  split
  · exact ⟨rfl, [_], rfl, by simp [Action.plain]⟩
  · split
    · exact ⟨rfl, [_], rfl, by simp [Action.plain]⟩
    · split
      · split
        · exact ⟨rfl, [_], rfl, by simp [Action.plain]⟩
        · exact ⟨rfl, [_], rfl, by simp [Action.plain]⟩
      · exact ⟨rfl, [_], rfl, by simp [Action.plain]⟩

theorem sendError_plain (s : Exec X P) (peer : DeviceId) (req : Envelope) (code : ErrorCode) :
    Plain s (s.sendError peer req code) :=
  dispatchSend_plain s _

theorem failLink_plain (s : Exec X P) (l : LinkId) (detail : String) :
    Plain s (s.failLink l detail) :=
  ⟨rfl, [_, _], List.append_assoc _ _ _, by simp [Action.plain]⟩

theorem dialPeer_plain (s : Exec X P) (nowMs : ℕ) (peer : DeviceId) (route : TransportId × String)
    (routes : List (TransportId × String)) (byHand : Bool) :
    Plain s (s.dialPeer nowMs peer route routes byHand) :=
  ⟨rfl, [_], rfl, by simp [Action.plain]⟩

theorem tryNextRoute_plain (s : Exec X P) (nowMs : ℕ) (pending : PeerDial) (why : String) :
    Plain s (s.tryNextRoute nowMs pending why) := by
  unfold tryNextRoute
  split
  · exact .refl s
  · split
    · dsimp only
      split
      · exact ⟨rfl, [_], rfl, by simp [Action.plain]⟩
      · exact .of_ledger rfl rfl
    · exact dialPeer_plain _ _ _ _ _ _

theorem connectRoutes_plain (s : Exec X P) (nowMs : ℕ) (peer : DeviceId)
    (routes : List (TransportId × String)) (byHand : Bool) :
    Plain s (s.connectRoutes nowMs peer routes byHand) := by
  unfold connectRoutes
  split
  · dsimp only
    split
    · exact ⟨rfl, [_, _], List.append_assoc _ _ _, by simp [Action.plain]⟩
    · exact .of_ledger rfl rfl
  · exact dialPeer_plain _ _ _ _ _ _

theorem connectPeer_plain (s : Exec X P) (nowMs : ℕ) (peer : DeviceId) (byHand : Bool) :
    Plain s (s.connectPeer nowMs peer byHand) := by
  unfold connectPeer
  dsimp only
  split
  · exact .refl s
  · split
    · exact connectRoutes_plain _ _ _ _ _
    · split
      · exact .of_ledger rfl rfl
      · exact .refl s
    · split
      · exact .push s _ rfl
      · split
        · exact .refl s
        · split
          · exact .refl s
          · exact connectRoutes_plain _ _ _ _ _

theorem onLinkUp_plain (s : Exec X P) (nowMs : ℕ) (seed : X.Seed) (l : LinkId) (attrs : LinkAttrs)
    (dial : Option DialToken) : Plain s (s.onLinkUp nowMs seed l attrs dial) := by
  have fail : ∀ (r : Exec X P) (detail : String), r.core.ledger = s.core.ledger →
      r.actions = s.actions → Plain s (r.failLink l detail) := fun r detail h ha =>
    (Plain.of_ledger h ha).trans (failLink_plain _ _ _)
  unfold onLinkUp
  dsimp only
  split
  · unfold startPairInitiator
    split
    · exact fail _ _ rfl rfl
    · split
      · exact fail _ _ rfl rfl
      · exact ⟨rfl, [_], rfl, by simp [Action.plain]⟩
  · split
    · unfold startSessionInitiator
      split
      · exact fail _ _ rfl rfl
      · split
        · split
          · exact fail _ _ rfl rfl
          · split
            · exact fail _ _ rfl rfl
            · exact ⟨rfl, [_], rfl, by simp [Action.plain]⟩
        · exact fail _ _ rfl rfl
    · exact .of_ledger rfl rfl

theorem onPairOpener_plain (s : Exec X P) (nowMs : ℕ) (seed : X.Seed) (l : LinkId) (p : PendingLink)
    (body : Bytes) : Plain s (s.onPairOpener nowMs seed l p body) := by
  unfold onPairOpener
  split
  · exact failLink_plain _ _ _
  · split
    · exact failLink_plain _ _ _
    · split
      · exact (Plain.of_ledger rfl rfl).trans (failLink_plain _ _ _)
      · split
        · exact failLink_plain _ _ _
        · exact ⟨rfl, [_], rfl, by simp [Action.plain]⟩

theorem acceptHello_plain (s : Exec X P) (peer : DeviceId) (payload : Bytes) :
    Plain s (s.acceptHello peer payload).1 := by
  unfold acceptHello
  split
  · exact .push s _ rfl
  · split
    · exact .refl s
    · split
      · exact ⟨rfl, [_], rfl, by simp [Action.plain, Core.peerBlob]⟩
      · exact .push s _ rfl

theorem pairingAttemptFailed_plain (s : Exec X P) (nowMs : ℕ) (l : LinkId) :
    Plain s (s.pairingAttemptFailed nowMs l) := by
  unfold pairingAttemptFailed
  refine (failLink_plain s l "pairing handshake failed").trans ?_
  exact ⟨rfl, [_], rfl, by simp [Action.plain]⟩

theorem pairingCompleted_plain (s : Exec X P) (nowMs : ℕ) (l : LinkId) (h : HandshakingLink X)
    (payload : Bytes) : Plain s (s.pairingCompleted nowMs l h payload) := by
  unfold pairingCompleted
  split
  · split
    · exact pairingAttemptFailed_plain _ _ _
    · dsimp only
      split
      · exact (Plain.of_ledger rfl rfl).trans (failLink_plain _ _ _)
      · exact (Plain.of_ledger rfl rfl).trans (failLink_plain _ _ _)
      · exact ⟨rfl, [_], rfl, by simp [Action.plain]⟩
  · exact failLink_plain _ _ _

theorem confirmPairing_plain (s : Exec X P) (nowMs : ℕ) (accept : Bool) :
    Plain s (s.confirmPairing nowMs accept) := by
  unfold confirmPairing
  split
  · split
    · exact ⟨rfl, [_, _], List.append_assoc _ _ _, by simp [Action.plain]⟩
    · split
      · exact .of_ledger rfl rfl
      · rename_i a hw _ _ id hid
        have keep : Plain s (s.keepRoutes id a) := by
          unfold keepRoutes
          dsimp only
          split
          · exact .of_ledger rfl rfl
          · split
            · exact .of_ledger rfl rfl
            · exact .refl s
        refine keep.trans ⟨rfl, [Core.peerBlob X a.record, .ui (.pairingComplete id a.record.name),
          .close a.link .closed], ?_, by simp [Action.plain, Core.peerBlob]⟩
        simp only [push, ui, List.append_assoc, List.cons_append, List.nil_append]
  · exact .refl s

theorem announce_plain (s : Exec X P) (fp : Fingerprint) : Plain s (s.announce fp) := by
  unfold announce
  split
  · exact .refl s
  · split
    · exact .refl s
    · split
      · exact .refl s
      · exact .push s _ rfl

theorem lapsePairing_plain (s : Exec X P) (nowMs : ℕ) : Plain s (s.lapsePairing nowMs) := by
  unfold lapsePairing
  split
  · exact .refl s
  · split
    · exact .refl s
    · dsimp only
      split
      · exact ⟨rfl, [_, _], List.append_assoc _ _ _, by simp [Action.plain]⟩
      · exact ⟨rfl, [_], rfl, by simp [Action.plain]⟩

theorem closeStale_plain (s : Exec X P) (nowMs : ℕ) (l : LinkId) :
    Plain s (s.closeStale nowMs l) := by
  have closed : Plain s ((s.unlink l).push (.close l .closed)) :=
    ⟨rfl, [_], rfl, by simp [Action.plain]⟩
  unfold closeStale
  dsimp only
  split
  · split
    · exact closed.trans (tryNextRoute_plain _ _ _ _)
    · exact closed
  · exact closed

theorem expireDial_plain (s : Exec X P) (nowMs : ℕ) (d : DialToken) :
    Plain s (s.expireDial nowMs d) := by
  unfold expireDial
  split
  · exact .refl s
  · exact (Plain.of_ledger rfl rfl).trans (tryNextRoute_plain _ _ _ _)

theorem heartbeat_plain (s : Exec X P) (nowMs : ℕ) : Plain s (s.heartbeat nowMs) := by
  unfold heartbeat
  split
  · exact (Plain.of_ledger rfl rfl).trans
      (.foldl (fun s id => connectPeer_plain s nowMs id false) _ _)
  · exact .refl s

theorem onDialFailed_plain (s : Exec X P) (nowMs : ℕ) (d : DialToken) (reason : String) :
    Plain s (s.onDialFailed nowMs d reason) := by
  unfold onDialFailed
  split
  · exact ⟨rfl, [_], rfl, by simp [Action.plain]⟩
  · split
    · exact (Plain.of_ledger rfl rfl).trans (tryNextRoute_plain _ _ _ _)
    · exact .refl s

theorem onDiscovered_plain (s : Exec X P) (nowMs : ℕ) (transport : TransportId)
    (peer : DiscoveredPeer) : Plain s (s.onDiscovered nowMs transport peer) := by
  unfold onDiscovered
  split
  · exact .refl s
  · dsimp only
    split
    · exact (Plain.of_ledger rfl rfl).trans (connectPeer_plain _ _ _ _)
    · exact (Plain.of_ledger rfl rfl).trans (announce_plain _ _)

theorem onUndiscovered_plain (s : Exec X P) (transport : TransportId) (addr : String) :
    Plain s (s.onUndiscovered transport addr) := by
  unfold onUndiscovered
  dsimp only
  refine (Plain.of_ledger rfl rfl).trans (.foldl (fun s fp => ?_) _ _)
  split
  · exact .of_ledger rfl rfl
  · exact ⟨rfl, [_], rfl, by simp [Action.plain]⟩

theorem requestPairing_plain (s : Exec X P) (nowMs : ℕ) (transport : TransportId) (addr : String) :
    Plain s (s.requestPairing nowMs transport addr) := by
  unfold requestPairing
  split
  · exact .push s _ rfl
  · exact ⟨rfl, [_], rfl, by simp [Action.plain]⟩

end Exec

section Deeds
variable [Plugin P]

/-- What the core has checked when it calls one plugin. `s₀` is the state the step started
from, `s` the state at the call. -/
inductive Due (i : Core.Input X) (s₀ s : Exec X P) (idx : ℕ) : Cx → Call → Prop where
  | message {l msg body plaintext env} {u : UpLink X} {session : Session X}
      (event : i.event = .linkRecv l msg) (frame : Frame.split msg = some (.transport, body))
      (link : s₀.core.links[l]? = some (.up u))
      (decrypt : u.session.decrypt body = .ok (plaintext, session))
      (decoded : X.decode Envelope plaintext = some env) (negotiated : env.cap ∈ u.canRecv)
      (message : env.ty ≠ "err")
      (owner : s₀.core.plugins.findIdx? (fun p => handles (Plugin.manifest p) env.cap) = some idx)
      (state : s = s₀.insertLink l (.up { u with session, lastRecvMs := i.now.monotonicMs })) :
      Due i s₀ s idx ((s.cx i.now.monotonicMs).forPeerLink (s.core.bulkSupportFor u.peer))
        (.message u.peer env)
  | request {peer cap ty body} (event : i.event = .localCommand (.plugin peer cap ty body))
      (owner : s₀.core.plugins.findIdx? (fun p => handles (Plugin.manifest p) cap) = some idx)
      (state : s = s₀) :
      Due i s₀ s idx ((s.cx i.now.monotonicMs).forPeerLink (s.core.bulkSupportFor peer))
        (.request peer ty body)
  | effectResult {token result} (event : i.event = .effectDone token result) :
      Due i s₀ s idx (s.cx i.now.monotonicMs) (.effectResult token result)
  | listening {t endpoint} (event : i.event = .bulkListening t endpoint)
      (owner : s₀.core.bulkOwner[t]? = some idx) (state : s = s₀) :
      Due i s₀ s idx (s.cx i.now.monotonicMs) (.bulkListening t endpoint)
  | finished {t ok detail} (event : i.event = .bulkFinished t ok detail)
      (owner : s₀.core.bulkOwner[t]? = some idx) (state : s = s₀) :
      Due i s₀ s idx (s.cx i.now.monotonicMs) (.bulkFinished t ok detail)
  | expired {t d} (event : i.event = .tick) (waiting : s₀.core.bulkWait[t]? = some d)
      (late : d ≤ i.now.monotonicMs) (owner : s.core.bulkOwner[t]? = some idx) :
      Due i s₀ s idx (s.cx i.now.monotonicMs) (.bulkFinished t false "the sender never connected")

omit [Plugin P] in
/-- The entries of a table that outlive a removal were there before. -/
def Within (m m' : ExtTreeMap TransferId ℕ) : Prop :=
  ∀ (t : TransferId) (n : ℕ), m[t]? = some n → m'[t]? = some n

/-- A step, or a stretch of one, as far as plugins and transfers can tell. -/
inductive Deeds (i : Core.Input X) (s₀ : Exec X P) : Exec X P → Exec X P → Prop where
  | plain {s t : Exec X P} (h : Plain s t) : Deeds i s₀ s t
  | called {s : Exec X P} {idx : ℕ} {cx : Cx} {c : Call} (due : Due i s₀ s idx cx c) :
      Deeds i s₀ s (s.callPlugin idx cx fun p cx => Plugin.call p cx c).1
  | calledAll {s : Exec X P} {c : Call} (h : c.forAll) :
      Deeds i s₀ s (s.callAllPlugins i.now.monotonicMs fun p cx =>
        ((Plugin.call p cx c).1, (Plugin.call p cx c).2.1))
  | released {s t : Exec X P} (plugins : t.core.plugins = s.core.plugins)
      (minted : t.core.nextTransfer = s.core.nextTransfer)
      (owners : Within t.core.bulkOwner s.core.bulkOwner)
      (waits : Within t.core.bulkWait s.core.bulkWait) (actions : t.actions = s.actions) :
      Deeds i s₀ s t
  | gaveUp {s : Exec X P} {t : TransferId} {d : ℕ} (event : i.event = .tick)
      (waiting : s₀.core.bulkWait[t]? = some d) (late : d ≤ i.now.monotonicMs) :
      Deeds i s₀ s (s.push (.bulkCancel t))
  | trans {s t r : Exec X P} (h : Deeds i s₀ s t) (h' : Deeds i s₀ t r) : Deeds i s₀ s r

namespace Exec
variable {i : Core.Input X} {s₀ s : Exec X P} {l : LinkId}

omit [Plugin P] in
/-- What a call does to the core does not depend on what the hook returns. -/
theorem callPlugin_congr {α β : Type} (idx : ℕ) (cx : Cx) {hook : P → Cx → P × Cx × α}
    (hook' : P → Cx → P × Cx × β)
    (h : ∀ p, (hook p cx).1 = (hook' p cx).1 ∧ (hook p cx).2.1 = (hook' p cx).2.1) :
    (s.callPlugin idx cx hook).1 = (s.callPlugin idx cx hook').1 := by
  unfold callPlugin
  split
  · rfl
  · rename_i p hp
    simp only [(h p).1, (h p).2]

theorem lostUpLink_deeds (s : Exec X P) (u : UpLink X) :
    Deeds i s₀ s (s.lostUpLink i.now.monotonicMs u) := by
  unfold lostUpLink
  split
  · exact .plain (.push s _ rfl)
  · dsimp only
    refine .trans (.plain (t := { s.ui (.peerUnreachable u.peer) with core.reconnectAt := some 0 })
      ⟨rfl, [_], rfl, by simp [Action.plain]⟩) ?_
    exact .calledAll (c := .disconnected u.peer) rfl

theorem onLinkDown_deeds (s : Exec X P) (l : LinkId) :
    Deeds i s₀ s (s.onLinkDown i.now.monotonicMs l) := by
  have gone : Deeds i s₀ s (s.unlink l) := .plain (.of_ledger rfl rfl)
  unfold onLinkDown
  dsimp only
  split
  · exact gone.trans (lostUpLink_deeds _ _)
  · rename_i h hl
    have retry (r : Exec X P) (why : String) := fallback_cases (R := Plain) (h := h) (.refl r)
      fun pending _ => tryNextRoute_plain r i.now.monotonicMs pending why
    cases h.pairingFlow with
    | true => exact .plain ((Plain.of_ledger rfl rfl).trans (retry _ _))
    | false => exact gone.trans (.plain (retry _ _))
  · exact gone

theorem failUpLink_deeds (s : Exec X P) (l : LinkId) (u : UpLink X) (detail : String) :
    Deeds i s₀ s (s.failUpLink i.now.monotonicMs l u detail) := by
  unfold failUpLink
  refine .trans (.plain ?_) (onLinkDown_deeds _ l)
  exact ⟨rfl, [_, _], List.append_assoc _ _ _, by simp [Action.plain]⟩

theorem finishSession_deeds (s : Exec X P) (l : LinkId) (hs : Handshake X) (attrs : LinkAttrs)
    (peer : DeviceId) : Deeds i s₀ s (s.finishSession i.now.monotonicMs l hs attrs peer) := by
  unfold finishSession
  dsimp only
  split
  · exact .plain (failLink_plain _ _ _)
  · split
    · exact .plain (failLink_plain _ _ _)
    · refine .trans (.plain ?_) (.calledAll (c := .connected peer) rfl)
      exact ⟨rfl, [_], rfl, by simp [Action.plain]⟩

theorem acceptHello_deeds {peer : DeviceId} {payload : Bytes} {next : Exec X P → Exec X P}
    (s : Exec X P) (detail : String) (h : ∀ r, Deeds i s₀ r (next r)) :
    Deeds i s₀ s (match s.acceptHello peer payload with
      | (s, false) => s.failLink l detail
      | (s, true) => next s) := by
  have hp := acceptHello_plain s peer payload
  split
  · rename_i r heq
    rw [heq] at hp
    exact .plain (hp.trans (failLink_plain _ _ _))
  · rename_i r heq
    rw [heq] at hp
    exact .trans (.plain hp) (h _)

theorem onSessionOpener_deeds (s : Exec X P) (l : LinkId) (p : PendingLink) (body : Bytes) :
    Deeds i s₀ s (s.onSessionOpener i.now.monotonicMs i.seed l p body) := by
  have fail : ∀ (r : Exec X P) detail, Deeds i s₀ r (r.failLink l detail) :=
    fun r detail => .plain (failLink_plain r l detail)
  unfold onSessionOpener
  split
  · exact fail _ _
  dsimp only
  split
  · exact fail _ _
  split
  · exact fail _ _
  split
  · exact fail _ _
  split
  · exact fail _ _
  rename_i hs _
  refine acceptHello_deeds s _ fun r => ?_
  split
  · exact fail _ _
  · exact .trans (.plain (.push _ _ rfl)) (finishSession_deeds _ _ _ _ _)

theorem onFirstFrame_deeds (s : Exec X P) (l : LinkId) (p : PendingLink) (kind : FrameKind)
    (body : Bytes) : Deeds i s₀ s (s.onFirstFrame i.now.monotonicMs i.seed l p kind body) := by
  cases kind with
  | pairHandshake => exact .plain (onPairOpener_plain _ _ _ _ _ _)
  | sessionHandshake => exact onSessionOpener_deeds _ _ _ _
  | transport => exact .plain (failLink_plain _ _ _)

theorem afterHandshakeRead_deeds (s : Exec X P) (l : LinkId) (h : HandshakingLink X)
    (payload : Bytes) : Deeds i s₀ s (s.afterHandshakeRead i.now.monotonicMs l h payload) := by
  unfold afterHandshakeRead
  split
  · exact .plain (.of_ledger rfl rfl)
  · split
    · exact .plain (pairingCompleted_plain _ _ _ _ _)
    · unfold onSessionReply
      split
      · exact .plain (failLink_plain _ _ _)
      · exact acceptHello_deeds s _ fun r => finishSession_deeds _ _ _ _ _

theorem onHandshakeFrame_deeds (s : Exec X P) (l : LinkId) (h : HandshakingLink X)
    (kind : FrameKind) (body : Bytes) :
    Deeds i s₀ s (s.onHandshakeFrame i.now.monotonicMs l h kind body) := by
  unfold onHandshakeFrame
  by_cases hkind : kind = if h.pairingFlow then .pairHandshake else .sessionHandshake
  case neg =>
    rw [if_pos hkind]
    exact .plain (failLink_plain _ _ _)
  rw [if_neg (not_not.mpr hkind)]
  cases h.hs.read body with
  | error e =>
    dsimp only
    split
    · exact .plain (pairingAttemptFailed_plain _ _ _)
    · exact .plain (failLink_plain _ _ _)
  | ok r =>
    dsimp only
    split
    · split
      · exact .trans (.plain (.push _ _ rfl)) (afterHandshakeRead_deeds _ _ _ _)
      · exact .plain (failLink_plain _ _ _)
    · exact afterHandshakeRead_deeds _ _ _ _

/-- A call whose failure is told to somebody, by an event or an `err` message. -/
theorem callPlugin_deeds {idx : ℕ} {cx : Cx} {c : Call} (s : Exec X P) (due : Due i s₀ s idx cx c)
    (tell : Exec X P → PluginError → Exec X P) (ht : ∀ r e, Plain r (tell r e)) :
    Deeds i s₀ s (match s.callPlugin idx cx fun p cx => Plugin.call p cx c with
      | (s, some (.error e)) => tell s e
      | (s, _) => s) := by
  have hcall : Deeds i s₀ s (s.callPlugin idx cx fun p cx => Plugin.call p cx c).1 := .called due
  split
  · rename_i heq
    rw [heq] at hcall
    exact hcall.trans (.plain (ht _ _))
  · rename_i heq
    rw [heq] at hcall
    exact hcall

theorem onTransportFrame_deeds {msg body : Bytes} {kind : FrameKind} {u : UpLink X}
    (he : i.event = .linkRecv l msg) (hf : Frame.split msg = some (kind, body))
    (hl : s.core.links[l]? = some (.up u)) :
    Deeds i s s ((s.unlink l).onTransportFrame i.now.monotonicMs l u kind body) := by
  have gone : Deeds i s s (s.unlink l) := .plain (.of_ledger rfl rfl)
  unfold onTransportFrame
  split
  · exact gone.trans (failUpLink_deeds _ _ _ _)
  rename_i hkind
  obtain rfl : kind = .transport := not_not.mp hkind
  split
  · exact gone.trans (failUpLink_deeds _ _ _ _)
  rename_i plaintext session hdec
  have read : Deeds i s s ((s.unlink l).insertLink l
    (.up { u with session, lastRecvMs := i.now.monotonicMs })) := .plain (.of_ledger rfl rfl)
  dsimp only
  split
  · exact read.trans (.plain (.push _ _ rfl))
  rename_i env henv
  split
  · exact read.trans (.plain (sendError_plain _ _ _ _))
  rename_i hcap
  split
  · exact read.trans (.plain (.push _ _ rfl))
  rename_i hty
  unfold routeEnvelope
  split
  · exact read.trans (.plain (sendError_plain _ _ _ _))
  · rename_i idx hidx
    refine read.trans (callPlugin_deeds (c := .message u.peer env) _ ?_
      (fun r e => r.sendError u.peer env e.code) fun r e => sendError_plain _ _ _ _)
    refine .message he hf hl hdec henv (not_not.mp hcap) hty hidx ?_
    simp only [insertLink, unlink, Lib.erase_insert]

theorem onLinkRecv_deeds {msg : Bytes} (he : i.event = .linkRecv l msg) :
    Deeds i s s (s.onLinkRecv i.now.monotonicMs i.seed l msg) := by
  have gone : Deeds i s s (s.unlink l) := .plain (.of_ledger rfl rfl)
  unfold onLinkRecv
  split
  · exact .plain (failLink_plain _ _ _)
  · rename_i kind body hf
    dsimp only
    split
    · exact gone.trans (onFirstFrame_deeds _ _ _ _ _)
    · exact gone.trans (onHandshakeFrame_deeds _ _ _ _ _)
    · exact onTransportFrame_deeds he hf ‹_›
    · exact gone.trans (.plain (failLink_plain _ _ _))

theorem closeUpLinks_deeds (s : Exec X P) (peer : DeviceId) (reason : LinkDownReason) :
    Deeds i s₀ s (s.closeUpLinks i.now.monotonicMs peer reason) := by
  unfold closeUpLinks
  generalize s.core.upLinks peer = es
  induction es generalizing s with
  | nil => exact .plain (.refl s)
  | cons e es ih =>
    exact .trans (.trans (.plain (.push s _ rfl)) (onLinkDown_deeds _ e.1)) (ih _)

omit [Plugin P] in
theorem revoked_plain (r : Exec X P) (peer : DeviceId) (fp : Option Fingerprint) :
    Plain r (match fp with
      | some fp => (r.ui (.revoked peer)).announce fp
      | none => r.ui (.revoked peer)) := by
  split
  · exact (Plain.push _ _ rfl).trans (announce_plain _ _)
  · exact .push _ _ rfl

theorem handleRevoke_deeds (s : Exec X P) (peer : DeviceId) :
    Deeds i s₀ s (s.handleRevoke i.now.monotonicMs peer) := by
  refine .trans (.plain ?_) (.trans (closeUpLinks_deeds _ peer (.protocol .notPaired))
    (.plain (revoked_plain _ peer ((s.core.peers[peer]?).bind (·.fingerprint X)))))
  exact ⟨rfl, [_], rfl, by simp [Action.plain]⟩

theorem onLocal_deeds {cmd : LocalCommand} (he : i.event = .localCommand cmd) :
    Deeds i s s (s.onLocal i.now.monotonicMs cmd) := by
  cases cmd <;> dsimp only [onLocal]
  case requestPairing => exact .plain (requestPairing_plain _ _ _ _)
  case confirmPairing => exact .plain (confirmPairing_plain _ _ _)
  case setPeerAddress =>
    split
    · exact .plain (.of_ledger rfl rfl)
    · exact .plain (.push s _ rfl)
  case connect => exact .plain (connectPeer_plain _ _ _ _)
  case reconsiderRoutes =>
    exact .plain (.foldl (fun s peer => connectPeer_plain s _ peer false) _ _)
  case disconnect => exact closeUpLinks_deeds _ _ _
  case revoke => exact handleRevoke_deeds _ _
  case plugin peer cap ty body =>
    unfold onLocalPlugin
    split
    · exact .plain (.push s _ rfl)
    · rename_i idx hidx
      exact callPlugin_deeds (c := .request peer ty body) s (.request he hidx rfl)
        (fun r e => r.ui (.error (some peer) e.code e.toString)) fun r e => .push r _ rfl

theorem dispatchToTransferOwner_deeds {t : TransferId} {c : Call} {hook : P → Cx → P × Cx}
    (hhook : ∀ p cx, hook p cx = ((Plugin.call p cx c).1, (Plugin.call p cx c).2.1))
    (due : ∀ idx, s.core.bulkOwner[t]? = some idx → Due i s₀ s idx (s.cx i.now.monotonicMs) c) :
    Deeds i s₀ s (s.dispatchToTransferOwner i.now.monotonicMs t hook) := by
  unfold dispatchToTransferOwner
  split
  · exact .plain (.refl s)
  · rename_i idx hidx
    rw [callPlugin_congr idx _ (fun p cx => Plugin.call p cx c) fun p => by simp [hhook]]
    exact .called (due idx hidx)

omit [Plugin P] in
theorem Within.erase (m : ExtTreeMap TransferId ℕ) (t : TransferId) : Within (m.erase t) m :=
  fun _ _ h => (Lib.getElem?_of_erase h).2

omit [Plugin P] in
theorem Within.refl (m : ExtTreeMap TransferId ℕ) : Within m m := fun _ _ h => h

theorem giveUpBulk_deeds {t : TransferId} {d : ℕ} (s : Exec X P) (he : i.event = .tick)
    (hw : s₀.core.bulkWait[t]? = some d) (hd : d ≤ i.now.monotonicMs) :
    Deeds i s₀ s (s.giveUpBulk i.now.monotonicMs t) := by
  have waited : Deeds i s₀ s ({ s with core.bulkWait := s.core.bulkWait.erase t }) :=
    .released rfl rfl (Within.refl _) (Within.erase _ t) rfl
  have told : Deeds i s₀ s ((({ s with core.bulkWait := s.core.bulkWait.erase t }).push
      (.bulkCancel t)).dispatchToTransferOwner i.now.monotonicMs t fun p cx =>
        Plugin.onBulkFinished p cx t false "the sender never connected") :=
    (waited.trans (.gaveUp he hw hd)).trans
      (dispatchToTransferOwner_deeds (fun _ _ => rfl) fun idx hidx => .expired he hw hd hidx)
  exact told.trans (.released rfl rfl (Within.erase _ t) (Within.refl _) rfl)

theorem giveUpWaiting_deeds (he : i.event = .tick) (hw : s.core.bulkWait = s₀.core.bulkWait) :
    Deeds i s₀ s (s.giveUpWaiting i.now.monotonicMs) := by
  have each : ∀ (ts : List TransferId) (r : Exec X P), (∀ t ∈ ts, ∃ d,
      s₀.core.bulkWait[t]? = some d ∧ d ≤ i.now.monotonicMs) →
      Deeds i s₀ r (ts.foldl (fun s t => s.giveUpBulk i.now.monotonicMs t) r) := by
    intro ts
    induction ts with
    | nil => exact fun r _ => .plain (.refl r)
    | cons t ts ih =>
      intro r h
      obtain ⟨d, hd, hlate⟩ := h t (by simp)
      exact .trans (giveUpBulk_deeds r he hd hlate) (ih _ fun t ht => h t (List.mem_cons_of_mem _ ht))
  refine each _ s fun t ht => ?_
  simp only [List.mem_map, List.mem_filter, decide_eq_true_eq] at ht
  obtain ⟨⟨t', d⟩, ⟨hm, hd⟩, rfl⟩ := ht
  rw [ExtTreeMap.mem_toList_iff_getElem?_eq_some, hw] at hm
  exact ⟨d, hm, hd⟩

theorem wakePlugins_deeds (s : Exec X P) : Deeds i s₀ s (s.wakePlugins i.now.monotonicMs) := by
  unfold wakePlugins
  split
  · exact .plain (.refl s)
  · split
    · exact .plain (.refl s)
    · exact .trans (t := { s with core.pluginWake := none }) (.plain (.of_ledger rfl rfl))
        (.calledAll (c := .tick) rfl)

theorem onTick_deeds (he : i.event = .tick) : Deeds i s s (s.onTick i.now.monotonicMs) := by
  have hlapse := lapsePairing_plain s i.now.monotonicMs
  have links : ∀ r : Exec X P, Plain r (r.closeStaleLinks i.now.monotonicMs) := fun r =>
    .foldl (fun s l => closeStale_plain s _ l) _ r
  have dials : ∀ r : Exec X P, Plain r (r.expireDials i.now.monotonicMs) := fun r =>
    .foldl (fun s d => expireDial_plain s _ d) _ r
  have waits := giveUpWaiting_deeds (s := s.lapsePairing i.now.monotonicMs) he
    (congrArg Ledger.bulkWait hlapse.1)
  refine .trans (.trans (.plain hlapse) waits) (.trans (.plain ?_) (wakePlugins_deeds _))
  exact ((links _).trans (dials _)).trans (heartbeat_plain _ _)

theorem onEvent_deeds : Deeds i s s (s.onEvent i.now.monotonicMs i.seed i.event) := by
  cases he : i.event <;> dsimp only [onEvent]
  case linkUp => exact .plain (onLinkUp_plain _ _ _ _ _ _)
  case linkRecv => exact onLinkRecv_deeds he
  case linkDown => exact onLinkDown_deeds _ _
  case dialFailed => exact .plain (onDialFailed_plain _ _ _ _)
  case discovered => exact .plain (onDiscovered_plain _ _ _ _)
  case undiscovered => exact .plain (onUndiscovered_plain _ _ _)
  case bulkListening =>
    exact dispatchToTransferOwner_deeds (fun _ _ => rfl) fun idx h => .listening he h rfl
  case bulkStarted => exact .released rfl rfl (Within.refl _) (Within.erase _ _) rfl
  case bulkFinished =>
    exact .trans (dispatchToTransferOwner_deeds (fun _ _ => rfl) fun idx h => .finished he h rfl)
      (.released rfl rfl (Within.erase _ _) (Within.erase _ _) rfl)
  case tick => exact onTick_deeds he
  case localCommand => exact onLocal_deeds he
  case effectDone token result =>
    unfold onEffectDone
    split
    · exact .plain (.refl s)
    · rename_i idx hidx
      refine .trans (.plain (t := { s with core.effectOwner := s.core.effectOwner.erase token })
        (.of_ledger rfl rfl)) ?_
      rw [callPlugin_congr idx _ (fun p cx => Plugin.call p cx (.effectResult token result))
        fun p => by simp [Plugin.call]]
      exact .called (.effectResult he)

end Exec
end Deeds

variable [Plugin P]

theorem Core.exec_deeds (c : Core X P) (i : Core.Input X) :
    Deeds i (c.start i) (c.start i) (c.exec i) :=
  Exec.onEvent_deeds

structure Turn where
  cx : Cx
  call : Call

def Plugin.turn (p : P) (τ : Turn) : P := (Plugin.call p τ.cx τ.call).1

/-- A plugin that also writes down how it was called. -/
structure Recorded (P : Type) where
  inner : P
  calls : List Call

namespace Recorded

instance : Plugin (Recorded P) where
  manifest p := Plugin.manifest p.inner
  onMessage p cx peer env :=
    let (p', r) := Plugin.onMessage p.inner cx peer env
    (⟨p', p.calls ++ [.message peer env]⟩, r)
  onPeerConnected p cx peer :=
    let (p', cx') := Plugin.onPeerConnected p.inner cx peer
    (⟨p', p.calls ++ [.connected peer]⟩, cx')
  onPeerDisconnected p cx peer :=
    let (p', cx') := Plugin.onPeerDisconnected p.inner cx peer
    (⟨p', p.calls ++ [.disconnected peer]⟩, cx')
  onLocal p cx peer ty body :=
    let (p', r) := Plugin.onLocal p.inner cx peer ty body
    (⟨p', p.calls ++ [.request peer ty body]⟩, r)
  onEffectResult p cx token result :=
    let (p', cx') := Plugin.onEffectResult p.inner cx token result
    (⟨p', p.calls ++ [.effectResult token result]⟩, cx')
  onBulkListening p cx transfer endpoint :=
    let (p', cx') := Plugin.onBulkListening p.inner cx transfer endpoint
    (⟨p', p.calls ++ [.bulkListening transfer endpoint]⟩, cx')
  onBulkFinished p cx transfer ok detail :=
    let (p', cx') := Plugin.onBulkFinished p.inner cx transfer ok detail
    (⟨p', p.calls ++ [.bulkFinished transfer ok detail]⟩, cx')
  onTick p cx :=
    let (p', cx') := Plugin.onTick p.inner cx
    (⟨p', p.calls ++ [.tick]⟩, cx')

theorem run_calls (p : Recorded P) (τs : List Turn) :
    (Lib.run Plugin.turn p τs).calls = p.calls ++ τs.map (·.call) := by
  induction τs generalizing p with
  | nil => simp
  | cons τ τs ih =>
    have hturn : (Plugin.turn p τ).calls = p.calls ++ [τ.call] := by
      obtain ⟨cx, c⟩ := τ
      cases c <;> rfl
    rw [Lib.run_cons, ih, hturn, List.map_cons, List.append_assoc]
    rfl

end Recorded

def CoreBuilder.recorded (b : CoreBuilder X P) : CoreBuilder X (Recorded P) :=
  { b with plugins := b.plugins.map (⟨·, []⟩) }

namespace Exec

omit [Plugin P] in
/-- Turning a plugin's requests into actions calls no plugin and mints no number. -/
theorem dispatchBulk_kept (s : Exec X P) (nowMs : ℕ) (r : BulkRequest) :
    (s.dispatchBulk nowMs r).core.plugins = s.core.plugins ∧
      (s.dispatchBulk nowMs r).core.nextTransfer = s.core.nextTransfer := by
  have key : ∀ (peer offerer : DeviceId) (t : TransferId) (n : ℕ)
      (start : Exec X P → Bytes → Exec X P), (∀ s k, (start s k).core.plugins = s.core.plugins ∧
        (start s k).core.nextTransfer = s.core.nextTransfer) →
      (s.withBulkKey peer t offerer n start).core.plugins = s.core.plugins ∧
        (s.withBulkKey peer t offerer n start).core.nextTransfer = s.core.nextTransfer := by
    intro peer offerer t n start h
    unfold withBulkKey
    split
    · exact ⟨rfl, rfl⟩
    · split
      · exact ⟨rfl, rfl⟩
      · exact h s _
  cases r with
  | cancel t => exact ⟨rfl, rfl⟩
  | listen => exact key _ _ _ _ _ fun s k => ⟨rfl, rfl⟩
  | send => exact key _ _ _ _ _ fun s k => ⟨rfl, rfl⟩

omit [Plugin P] in
theorem drainCx_kept (s : Exec X P) (cx : Cx) :
    (s.drainCx cx).core.plugins = s.core.plugins ∧
      (s.drainCx cx).core.nextTransfer = s.core.nextTransfer := by
  have fold : ∀ {α : Type} {f : Exec X P → α → Exec X P}, (∀ s a,
      (f s a).core.plugins = s.core.plugins ∧ (f s a).core.nextTransfer = s.core.nextTransfer) →
      ∀ (as : List α) (s : Exec X P), (as.foldl f s).core.plugins = s.core.plugins ∧
        (as.foldl f s).core.nextTransfer = s.core.nextTransfer := by
    intro α f hf as
    induction as with
    | nil => exact fun s => ⟨rfl, rfl⟩
    | cons a as ih => exact fun s => ⟨(ih _).1.trans (hf s a).1, (ih _).2.trans (hf s a).2⟩
  have told := fold (fun s (e : UiEvent) => ⟨rfl, rfl⟩) (f := ui) cx.ui s
  have acted := fold (fun s (e : EffectToken × Effect) => ⟨rfl, rfl⟩)
    (f := fun s e => s.push (.effect e.1 e.2)) cx.effects (cx.ui.foldl ui s)
  have asked := fold (fun s r => dispatchBulk_kept s cx.nowMs r) cx.bulk
    (cx.effects.foldl (fun s e => s.push (.effect e.1 e.2)) (cx.ui.foldl ui s))
  have sent := fold (fun s m => ⟨congrArg Ledger.plugins (dispatchSend_plain s m).1,
    congrArg Ledger.nextTransfer (dispatchSend_plain s m).1⟩) cx.sends
    (cx.bulk.foldl (fun s b => s.dispatchBulk cx.nowMs b)
      (cx.effects.foldl (fun s e => s.push (.effect e.1 e.2)) (cx.ui.foldl ui s)))
  have all := And.intro (((sent.1.trans asked.1).trans acted.1).trans told.1)
    (((sent.2.trans asked.2).trans acted.2).trans told.2)
  unfold drainCx
  dsimp only
  split
  · exact all
  · exact all

/-- A plugin has returned: its new state and what it minted are kept, and what it asked for is
recorded as its own. -/
def handOver (s : Exec X P) (idx : ℕ) (p : P) (cx : Cx) : Exec X P :=
  Exec.rememberOwner { s with core := { s.core with
    plugins := s.core.plugins.set idx p
    nextToken := cx.nextToken
    nextTransfer := cx.nextTransfer } } cx idx

omit [Plugin P] in
theorem callPlugin_eq {α : Type} (s : Exec X P) {idx : ℕ} (cx : Cx) (hook : P → Cx → P × Cx × α)
    {p : P} (hp : s.core.plugins[idx]? = some p) :
    (s.callPlugin idx cx hook).1 =
      (s.handOver idx (hook p cx).1 (hook p cx).2.1).drainCx (hook p cx).2.1 := by
  unfold callPlugin
  rw [hp]
  rfl

omit [Plugin P] in
theorem callPlugin_kept {α : Type} (s : Exec X P) {idx : ℕ} (cx : Cx) (hook : P → Cx → P × Cx × α)
    {p : P} (hp : s.core.plugins[idx]? = some p) :
    (s.callPlugin idx cx hook).1.core.plugins = s.core.plugins.set idx (hook p cx).1 ∧
      (s.callPlugin idx cx hook).1.core.nextTransfer = (hook p cx).2.1.nextTransfer := by
  rw [callPlugin_eq s cx hook hp]
  exact drainCx_kept _ _

omit [Plugin P] in
theorem callAllPlugins_kept (s : Exec X P) (nowMs : ℕ) (hook : P → Cx → P × Cx) :
    (s.callAllPlugins nowMs hook).core.plugins =
        (forEachPlugin hook s.core.plugins (s.cx nowMs)).1 ∧
      (s.callAllPlugins nowMs hook).core.nextTransfer =
        (forEachPlugin hook s.core.plugins (s.cx nowMs)).2.nextTransfer :=
  drainCx_kept _ _

end Exec

/-- A plugin, and how many transfer numbers the core had handed out when it was last called. -/
structure Desk (P : Type) where
  plugin : P
  minted : ℕ

def Desk.turn (d : Desk P) (τ : Turn) : Desk P :=
  let r := Plugin.call d.plugin τ.cx τ.call
  ⟨r.1, r.2.1.nextTransfer⟩

theorem Desk.run_plugin (d : Desk P) (τs : List Turn) :
    (Lib.run Desk.turn d τs).plugin = Lib.run Plugin.turn d.plugin τs := by
  induction τs generalizing d with
  | nil => rfl
  | cons τ τs ih => exact ih (d.turn τ)

/-- Numbers are only ever handed out: `Cx` has no way to take one back. -/
def Plugin.Counting (P : Type) [Plugin P] : Prop :=
  ∀ (p : P) (cx : Cx) (c : Call), cx.nextTransfer ≤ (Plugin.call p cx c).2.1.nextTransfer

/-- The counter a plugin is called with is never behind the one it left. -/
def Desk.Follows (d : Desk P) (τ : Turn) : Prop := d.minted ≤ τ.cx.nextTransfer

theorem forEachPlugin_counting (law : Plugin.Counting P) (c : Call) (ps : List P) (cx : Cx) :
    cx.nextTransfer ≤ (forEachPlugin (fun p cx =>
      ((Plugin.call p cx c).1, (Plugin.call p cx c).2.1)) ps cx).2.nextTransfer := by
  induction ps generalizing cx with
  | nil => exact le_rfl
  | cons q ps ih => exact (law q cx c).trans (ih _)

/-- Each plugin of a list has its turn, in a context that depends on those before it. -/
theorem forEachPlugin_turn (c : Call) {ps : List P} {idx : ℕ} {p : P} (cx : Cx)
    (hp : ps[idx]? = some p) :
    ∃ cx', (forEachPlugin (fun p cx => ((Plugin.call p cx c).1, (Plugin.call p cx c).2.1)) ps
        cx).1[idx]? = some (Plugin.call p cx' c).1 ∧
      (Plugin.Counting P → cx.nextTransfer ≤ cx'.nextTransfer ∧
        (Plugin.call p cx' c).2.1.nextTransfer ≤ (forEachPlugin (fun p cx =>
          ((Plugin.call p cx c).1, (Plugin.call p cx c).2.1)) ps cx).2.nextTransfer) := by
  induction ps generalizing idx cx with
  | nil => simp at hp
  | cons q ps ih =>
    cases idx with
    | zero =>
      obtain rfl : q = p := by simpa using hp
      exact ⟨cx, rfl, fun law => ⟨le_rfl, forEachPlugin_counting law c ps _⟩⟩
    | succ idx =>
      obtain ⟨cx', hturn, hcount⟩ := ih (Plugin.call q cx c).2.1 (by simpa using hp)
      exact ⟨cx', hturn, fun law => ⟨(law q cx c).trans (hcount law).1, (hcount law).2⟩⟩

theorem Due.nextTransfer {i : Core.Input X} {s₀ s : Exec X P} {idx : ℕ} {cx : Cx} {c : Call}
    (h : Due i s₀ s idx cx c) : cx.nextTransfer = s.core.nextTransfer := by
  cases h <;> rfl

/-- During a step a plugin changes only by the calls it gets, each of which is due, and the
counter follows. -/
theorem Deeds.turns {i : Core.Input X} {s₀ s t : Exec X P} (h : Deeds i s₀ s t) {idx : ℕ} {p : P}
    (hp : s.core.plugins[idx]? = some p) (n : ℕ) :
    ∃ τs : List Turn, t.core.plugins[idx]? = some (Lib.run Plugin.turn p τs) ∧
      (∀ τ ∈ τs, τ.call.forAll ∨ ∃ r, Due i s₀ r idx τ.cx τ.call) ∧
      (Plugin.Counting P → n ≤ s.core.nextTransfer →
        Lib.Along Desk.turn Desk.Follows ⟨p, n⟩ τs ∧
          (Lib.run Desk.turn ⟨p, n⟩ τs).minted ≤ t.core.nextTransfer) := by
  induction h generalizing p n with
  | plain h =>
    have hplugins := congrArg Ledger.plugins h.1
    have hminted := congrArg Ledger.nextTransfer h.1
    dsimp only [Core.ledger] at hplugins hminted
    exact ⟨[], by rw [hplugins]; exact hp, by simp, fun _ hn => ⟨.nil _, by rwa [hminted]⟩⟩
  | @called s idx' cx c due =>
    cases hq : s.core.plugins[idx']? with
    | none =>
      unfold Exec.callPlugin
      rw [hq]
      exact ⟨[], hp, by simp, fun _ hn => ⟨.nil _, hn⟩⟩
    | some q =>
      rw [(Exec.callPlugin_kept s cx _ hq).1, (Exec.callPlugin_kept s cx _ hq).2,
        List.getElem?_set]
      by_cases hidx : idx' = idx
      · subst hidx
        obtain rfl := Option.some.inj (hq.symm.trans hp)
        have hlt : idx' < s.core.plugins.length := (List.getElem?_eq_some_iff.mp hp).1
        refine ⟨[⟨cx, c⟩], by simp [hlt, Plugin.turn], ?_, fun _ hn => ⟨⟨?_, .nil _⟩, le_rfl⟩⟩
        · intro τ hτ
          rw [List.mem_singleton.mp hτ]
          exact .inr ⟨s, due⟩
        · exact hn.trans due.nextTransfer.ge
      · refine ⟨[], by simpa [hidx] using hp, by simp, fun law hn => ⟨.nil _, ?_⟩⟩
        exact (hn.trans due.nextTransfer.ge).trans (law q cx c)
  | @calledAll s c hc =>
    obtain ⟨cx, hturn, hcount⟩ := forEachPlugin_turn c (s.cx i.now.monotonicMs) hp
    rw [(Exec.callAllPlugins_kept s _ _).1, (Exec.callAllPlugins_kept s _ _).2]
    refine ⟨[⟨cx, c⟩], hturn, ?_, fun law hn => ⟨⟨hn.trans (hcount law).1, .nil _⟩, (hcount law).2⟩⟩
    intro τ hτ
    rw [List.mem_singleton.mp hτ]
    exact .inl hc
  | released hplugins hminted =>
    exact ⟨[], by rw [hplugins]; exact hp, by simp, fun _ hn => ⟨.nil _, by rwa [hminted]⟩⟩
  | gaveUp => exact ⟨[], hp, by simp, fun _ hn => ⟨.nil _, hn⟩⟩
  | trans _ _ ih ih' =>
    obtain ⟨τs, h1, hdue, hcount⟩ := ih hp n
    obtain ⟨τs', h2, hdue', hcount'⟩ := ih' h1 (Lib.run Desk.turn ⟨p, n⟩ τs).minted
    have hdesk : Lib.run Desk.turn ⟨p, n⟩ τs =
        ⟨Lib.run Plugin.turn p τs, (Lib.run Desk.turn ⟨p, n⟩ τs).minted⟩ := by
      rw [← Desk.run_plugin ⟨p, n⟩ τs]
    refine ⟨τs ++ τs', by rw [h2, Lib.run_append], ?_, fun law hn => ?_⟩
    · intro τ hτ
      rcases List.mem_append.mp hτ with hτ | hτ
      · exact hdue τ hτ
      · exact hdue' τ hτ
    · obtain ⟨hfollow, hle⟩ := hcount law hn
      obtain ⟨hfollow', hle'⟩ := hcount' law hle
      rw [← hdesk] at hfollow' hle'
      exact ⟨Lib.Along.append.mpr ⟨hfollow, hfollow'⟩, by rwa [Lib.run_append]⟩

/-- A state of a plugin, and of the counter behind it, that the core can bring about. -/
theorem Core.step_turns (c : Core X P) (i : Core.Input X) {idx : ℕ} {p : P}
    (hp : c.plugins[idx]? = some p) (n : ℕ) :
    ∃ τs : List Turn, (c.step i).plugins[idx]? = some (Lib.run Plugin.turn p τs) ∧
      (∀ τ ∈ τs, τ.call.forAll ∨ ∃ r, Due i (c.start i) r idx τ.cx τ.call) ∧
      (Plugin.Counting P → n ≤ c.nextTransfer → Lib.Along Desk.turn Desk.Follows ⟨p, n⟩ τs ∧
        (Lib.run Desk.turn ⟨p, n⟩ τs).minted ≤ (c.step i).nextTransfer) :=
  (c.exec_deeds i).turns hp n

end Acrylius
