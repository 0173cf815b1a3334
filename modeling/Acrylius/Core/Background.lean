import Acrylius.Core.Drift

/-! Every operation that only sends, dials or calls a plugin is a drift. -/
namespace Acrylius
open Proto Std

variable {X : Crates} {P : Type} [Plugin P]

namespace Exec

/-- A message that was not sealed: one event more, and no session moved. -/
private theorem refused_drift {s s' : Exec X P} {m : PendingSend} {e : UiEvent} (id : UInt32)
    (hs : s' = { core := { s.core with nextMsgId := id }, actions := s.actions ++ [.ui e],
                 sends := s.sends ++ [(s.core, m)], dials := s.dials })
    (hf : s.core.sealedFrame m = none) : Drift s s' := by
  subst hs
  refine ⟨⟨rfl, [.ui e], [(s.core, m)], rfl, rfl,
    by simp [Action.minor], ?_, fun b _ l => .refl _⟩, fun _ _ => rfl⟩
  intro l
  simp [Core.sealedOn, hf, framesOn]

omit [Plugin P] in
/-- A sealed message moves the session of the link it took, and no other. -/
private theorem sealed_links {s : Exec X P} {l : LinkId} {u : UpLink X} {b : Bool}
    {as : List Action} {session : Session X}
    (hl : s.core.links[l]? = some (.up u)) (hother : ∀ l', l' ≠ l → framesOn l' as = [])
    (h : LinkDrift b (some (.up u)) (framesOn l as) (some (.up { u with session }))) (l' : LinkId) :
    LinkDrift b (s.core.links[l']?) (framesOn l' as)
      ((s.core.links.insert l (LinkState.up { u with session }))[l']?) := by
  rw [ExtTreeMap.getElem?_insert]
  by_cases he : l = l'
  · subst he
    simpa [hl] using h
  · rw [hother l' (Ne.symm he)]
    simpa [he] using LinkDrift.refl _

theorem dispatchSend_drift (s : Exec X P) (m : PendingSend) : Drift s (s.dispatchSend m) := by
  unfold dispatchSend
  dsimp only
  cases hb : s.core.bestLink m.peer with
  | none =>
    exact refused_drift s.core.nextMsgId rfl (by simp [Core.sealedFrame, hb])
  | some e =>
    obtain ⟨l, u⟩ := e
    dsimp only
    by_cases hcap : m.cap ∈ u.canSend
    case neg =>
      rw [if_pos hcap]
      exact refused_drift s.core.nextMsgId rfl (by simp [Core.sealedFrame, hb, hcap])
    rw [if_neg (not_not.mpr hcap)]
    cases henc : u.session.encrypt (X.encode (m.envelope (s.core.nextMsgId + 1))) with
    | error e =>
      exact refused_drift _ rfl (by simp [Core.sealedFrame, hb, hcap, henc])
    | ok r =>
      obtain ⟨ct, session⟩ := r
      dsimp only
      obtain ⟨hl, -⟩ := Core.bestLink_up hb
      by_cases hbig : u.maxMessage < (Frame.join .transport ct).length
      · have hframe : s.core.sealedFrame m = none := by
          simp only [Core.sealedFrame, hb, hcap, henc, not_true_eq_false, if_false, if_pos hbig]
        rw [if_pos hbig]
        refine ⟨⟨rfl, [.ui _], [(s.core, m)], rfl, rfl,
          by simp [Action.minor], ?_, ?_⟩, fun _ _ => rfl⟩
        · intro l'
          simp [Core.sealedOn, hframe, framesOn]
        · intro b hfit l'
          refine sealed_links hl (by simp [framesOn]) ?_ l'
          cases b with
          | false => exact .up (.lost rfl (.nil u) henc)
          | true =>
            -- A message that fits is either short enough or was never sealed.
            obtain ⟨hlaw, hall⟩ := hfit rfl
            obtain ⟨hlen, hmax⟩ := hlaw _ _ _ _ (Session.encrypt_ok henc).1
            have hfits := hall (s.core, m) (by simp)
            simp only [Core.fits, hb, hcap, not_true_eq_false, decide_false, Bool.false_or,
              Bool.or_eq_true, decide_eq_true_eq] at hfits
            simp only [Frame.length_join] at hbig
            omega
      · have hframe : s.core.sealedFrame m = some (l, Frame.join .transport ct) := by
          simp only [Core.sealedFrame, hb, hcap, henc, not_true_eq_false, if_false, if_neg hbig]
        rw [if_neg hbig]
        refine ⟨⟨rfl, [.linkSend l _], [(s.core, m)], rfl,
          rfl, by simp [Action.minor], ?_, ?_⟩, fun _ _ => rfl⟩
        · intro l'
          by_cases he : l = l' <;> simp [Core.sealedOn, hframe, framesOn, he]
        · intro b _ l'
          refine sealed_links hl ?_ ?_ l'
          · intro l' hne
            simp [framesOn, Ne.symm hne]
          · simpa [framesOn] using LinkDrift.up (.sent (.nil u) henc)

theorem sendError_drift (s : Exec X P) (peer : DeviceId) (req : Envelope) (code : ErrorCode) :
    Drift s (s.sendError peer req code) :=
  dispatchSend_drift s _

theorem dispatchBulk_drift (s : Exec X P) (nowMs : ℕ) (r : BulkRequest) :
    Drift s (s.dispatchBulk nowMs r) := by
  have key : ∀ (peer offerer : DeviceId) (t : TransferId) (n : ℕ)
      (start : Exec X P → Bytes → Exec X P), (∀ s k, Drift s (start s k)) →
      Drift s (s.withBulkKey peer t offerer n start) := by
    intro peer offerer t n start hstart
    unfold withBulkKey
    split
    · have h := (Drift.ui s (.error (some peer) .notAllowed ("transport for connection to " ++
        peer.str ++ " does not support file transfers. change transports and try again."))).trans
        (Drift.push _ (.bulkCancel t) rfl)
      exact h.trans (Drift.of_view rfl)
    · split
      · exact Drift.ui s _
      · exact hstart s _
  cases r <;> dsimp only [dispatchBulk]
  case cancel t => exact Drift.push s (.bulkCancel t) rfl
  case listen peer t n bytes =>
    refine key peer peer t n _ fun s k => ?_
    refine Drift.trans ?_ (Drift.push _ (.bulkListen t n k bytes) rfl)
    exact Drift.of_view rfl
  case send peer t endpoint =>
    exact key peer _ t t _ fun s k => Drift.push s (.bulkSend t endpoint k) rfl

theorem rememberOwner_drift (s : Exec X P) (cx : Cx) (idx : ℕ) : Drift s (s.rememberOwner cx idx) :=
  Drift.of_view rfl

theorem drainCx_drift (s : Exec X P) (cx : Cx) : Drift s (s.drainCx cx) := by
  unfold drainCx
  dsimp only
  have h := (((Drift.foldl Drift.ui cx.ui s).trans
    (Drift.foldl (fun s e => Drift.push s (.effect e.1 e.2) rfl) cx.effects _)).trans
    (Drift.foldl (fun s b => dispatchBulk_drift s cx.nowMs b) cx.bulk _)).trans
    (Drift.foldl dispatchSend_drift cx.sends _)
  split
  · exact h
  · exact h.trans (Drift.of_view rfl)

/-- A hook that leaves every quiet observation of its plugin alone. -/
def QuietHook {α : Type} (hook : P → Cx → P × α) : Prop :=
  ∀ {β : Type} (obs : P → β), Plugin.Quiet obs → ∀ p cx, obs (hook p cx).1 = obs p

theorem callPlugin_drift {α : Type} (s : Exec X P) (idx : ℕ) (cx : Cx)
    (hook : P → Cx → P × Cx × α) (h : QuietHook hook) : Drift s (s.callPlugin idx cx hook).1 := by
  unfold callPlugin
  split
  · exact Drift.refl s
  · rename_i p hp
    refine Drift.trans ?_ ((rememberOwner_drift _ _ _).trans (drainCx_drift _ _))
    refine ⟨.of_tables rfl rfl rfl rfl, fun obs ho => ?_⟩
    obtain ⟨hi, rfl⟩ := List.getElem?_eq_some_iff.mp hp
    rw [List.map_set, h obs ho, ← List.map_set, List.set_getElem_self]

theorem callAllPlugins_stir (s : Exec X P) (nowMs : ℕ) (hook : P → Cx → P × Cx) :
    Stir s (s.callAllPlugins nowMs hook) := by
  unfold callAllPlugins
  refine Stir.trans ?_ (drainCx_drift _ _).toStir
  exact .of_tables rfl rfl rfl rfl

omit [Plugin P] in
theorem forEachPlugin_map {α : Type} {hook : P → Cx → P × Cx} {obs : P → α} {f : α → α}
    (h : ∀ p cx, obs (hook p cx).1 = f (obs p)) (ps : List P) (cx : Cx) :
    (forEachPlugin hook ps cx).1.map obs = (ps.map obs).map f := by
  induction ps generalizing cx with
  | nil => rfl
  | cons p ps ih => simp [forEachPlugin, h, ih]

/-- What a hook called on every plugin does to an observation it acts on. -/
theorem callAllPlugins_map {α : Type} (s : Exec X P) (nowMs : ℕ) {hook : P → Cx → P × Cx}
    {obs : P → α} {f : α → α} (ho : Plugin.Quiet obs) (h : ∀ p cx, obs (hook p cx).1 = f (obs p)) :
    (s.callAllPlugins nowMs hook).core.plugins.map obs = (s.core.plugins.map obs).map f := by
  unfold callAllPlugins
  exact ((drainCx_drift _ _).plugins obs ho).trans (forEachPlugin_map h _ _)

theorem callAllPlugins_drift (s : Exec X P) (nowMs : ℕ) {hook : P → Cx → P × Cx}
    (h : QuietHook hook) : Drift s (s.callAllPlugins nowMs hook) where
  toStir := callAllPlugins_stir s nowMs hook
  plugins obs ho := by
    rw [callAllPlugins_map s nowMs (f := id) ho (h obs ho), List.map_id]

theorem lostUpLink_stir (s : Exec X P) (nowMs : ℕ) (u : UpLink X) :
    Stir s (s.lostUpLink nowMs u) := by
  unfold lostUpLink
  split
  · exact (Drift.ui _ _).toStir
  · refine Stir.trans (Drift.toStir ?_) (callAllPlugins_stir _ _ _)
    have h : Drift s { s.ui (.peerUnreachable u.peer) with core.reconnectAt := some 0 } :=
      (Drift.ui s (.peerUnreachable u.peer)).trans (Drift.of_view rfl)
    exact h

theorem dialPeer_drift (s : Exec X P) (nowMs : ℕ) (peer : DeviceId) (route : TransportId × String)
    (routes : List (TransportId × String)) (byHand : Bool) :
    Drift s (s.dialPeer nowMs peer route routes byHand) := by
  unfold dialPeer
  refine Drift.trans ?_ (Drift.push _ (.dial route.1 route.2 _) rfl)
  exact Drift.of_view rfl

theorem tryNextRoute_drift (s : Exec X P) (nowMs : ℕ) (pending : PeerDial) (why : String) :
    Drift s (s.tryNextRoute nowMs pending why) := by
  unfold tryNextRoute
  split
  · exact Drift.refl s
  · split
    · dsimp only
      split
      · refine Drift.trans ?_ (Drift.ui _ _)
        exact Drift.of_view rfl
      · exact Drift.of_view rfl
    · exact dialPeer_drift _ _ _ _ _ _

theorem adoptAttempt_drift (s : Exec X P) (peer : DeviceId) : Drift s (s.adoptAttempt peer) := by
  refine ⟨⟨rfl, [], [], by simp [adoptAttempt], by simp [adoptAttempt], by simp, by simp,
    fun b _ l => ?_⟩, fun _ _ => rfl⟩
  simp only [adoptAttempt, ExtTreeMap.getElem?_map, framesOn_nil]
  cases hl : s.core.links[l]? with
  | none => exact .none
  | some st =>
    cases st with
    | pending p => exact .pending p
    | handshaking h => exact .handshaking h _
    | up u => exact .up (.nil u)

theorem connectRoutes_drift (s : Exec X P) (nowMs : ℕ) (peer : DeviceId)
    (routes : List (TransportId × String)) (byHand : Bool) :
    Drift s (s.connectRoutes nowMs peer routes byHand) := by
  unfold connectRoutes
  split
  · dsimp only
    split
    · refine Drift.trans (Drift.trans ?_ (Drift.ui _ _)) (Drift.ui _ _)
      exact Drift.of_view rfl
    · exact Drift.of_view rfl
  · exact dialPeer_drift _ _ _ _ _ _

theorem connectPeer_drift (s : Exec X P) (nowMs : ℕ) (peer : DeviceId) (byHand : Bool) :
    Drift s (s.connectPeer nowMs peer byHand) := by
  unfold connectPeer
  split
  · exact Drift.refl s
  · dsimp only
    split
    · exact connectRoutes_drift _ _ _ _ _
    · split
      · exact adoptAttempt_drift _ _
      · exact Drift.refl s
    · split
      · exact Drift.ui _ _
      · split
        · exact Drift.refl s
        · split
          · exact Drift.refl s
          · exact connectRoutes_drift _ _ _ _ _

theorem announce_drift (s : Exec X P) (fp : Fingerprint) : Drift s (s.announce fp) := by
  unfold announce
  split
  · exact Drift.refl s
  · split
    · exact Drift.refl s
    · split
      · exact Drift.refl s
      · exact Drift.ui _ _

theorem dispatchToTransferOwner_drift (s : Exec X P) (nowMs : ℕ) (t : TransferId)
    {hook : P → Cx → P × Cx} (h : QuietHook hook) :
    Drift s (s.dispatchToTransferOwner nowMs t hook) := by
  unfold dispatchToTransferOwner
  split
  · exact Drift.refl s
  · exact callPlugin_drift _ _ _ _ h

theorem onEffectDone_drift (s : Exec X P) (nowMs : ℕ) (token : EffectToken)
    (result : EffectResult) : Drift s (s.onEffectDone nowMs token result) := by
  unfold onEffectDone
  split
  · exact Drift.refl s
  · refine Drift.trans ?_ (callPlugin_drift _ _ _ _ fun obs ho p cx => ho.effect p cx token result)
    exact Drift.of_view rfl

theorem onLocalPlugin_drift (s : Exec X P) (nowMs : ℕ) (peer : DeviceId) (cap ty : String)
    (body : Bytes) : Drift s (s.onLocalPlugin nowMs peer cap ty body) := by
  unfold onLocalPlugin
  split
  · exact Drift.ui _ _
  · dsimp only
    have h := callPlugin_drift s ‹ℕ› ((s.cx nowMs).forPeerLink (s.core.bulkSupportFor peer))
      (fun p cx => Plugin.onLocal p cx peer ty body) fun obs ho p cx => ho.command p cx peer ty body
    split
    · rename_i heq
      rw [heq] at h
      exact h.trans (Drift.ui _ _)
    · rename_i heq
      rw [heq] at h
      exact h

theorem routeEnvelope_drift (s : Exec X P) (nowMs : ℕ) (peer : DeviceId) (env : Envelope) :
    Drift s (s.routeEnvelope nowMs peer env) := by
  unfold routeEnvelope
  split
  · exact sendError_drift _ _ _ _
  · dsimp only
    have h := callPlugin_drift s ‹ℕ› ((s.cx nowMs).forPeerLink (s.core.bulkSupportFor peer))
      (fun p cx => Plugin.onMessage p cx peer env) fun obs ho p cx => ho.message p cx peer env
    split
    · rename_i heq
      rw [heq] at h
      exact h.trans (sendError_drift _ _ _ _)
    · rename_i heq
      rw [heq] at h
      exact h

theorem giveUpBulk_drift (s : Exec X P) (nowMs : ℕ) (t : TransferId) :
    Drift s (s.giveUpBulk nowMs t) := by
  unfold giveUpBulk
  have h : Drift s ({ s with core.bulkWait := s.core.bulkWait.erase t }) :=
    Drift.of_view rfl
  have h' := (h.trans (Drift.push _ (.bulkCancel t) rfl)).trans
    (dispatchToTransferOwner_drift _ nowMs t fun obs ho p cx =>
      ho.finished p cx t false "the sender never connected")
  exact h'.trans (Drift.of_view rfl)

theorem expireDial_drift (s : Exec X P) (nowMs : ℕ) (d : DialToken) :
    Drift s (s.expireDial nowMs d) := by
  unfold expireDial
  split
  · exact Drift.refl s
  · refine Drift.trans ?_ (tryNextRoute_drift _ _ _ _)
    exact Drift.of_view rfl

theorem giveUpWaiting_drift (s : Exec X P) (nowMs : ℕ) : Drift s (s.giveUpWaiting nowMs) :=
  Drift.foldl (fun s t => giveUpBulk_drift s nowMs t) _ s

theorem expireDials_drift (s : Exec X P) (nowMs : ℕ) : Drift s (s.expireDials nowMs) :=
  Drift.foldl (fun s d => expireDial_drift s nowMs d) _ s

theorem heartbeat_drift (s : Exec X P) (nowMs : ℕ) : Drift s (s.heartbeat nowMs) := by
  unfold heartbeat
  split
  · refine Drift.trans ?_ (Drift.foldl (fun s id => connectPeer_drift s nowMs id false) _ _)
    exact Drift.of_view rfl
  · exact Drift.refl s

theorem wakePlugins_drift (s : Exec X P) (nowMs : ℕ) : Drift s (s.wakePlugins nowMs) := by
  unfold wakePlugins
  split
  · exact Drift.refl s
  · split
    · exact Drift.refl s
    · refine Drift.trans ?_ (callAllPlugins_drift _ _ fun obs ho p cx => ho.tick p cx)
      exact Drift.of_view rfl

theorem onDiscovered_drift (s : Exec X P) (nowMs : ℕ) (transport : TransportId)
    (peer : DiscoveredPeer) : Drift s (s.onDiscovered nowMs transport peer) := by
  unfold onDiscovered
  split
  · exact Drift.refl s
  · dsimp only
    split
    · refine Drift.trans ?_ (connectPeer_drift _ _ _ _)
      exact Drift.of_view rfl
    · refine Drift.trans ?_ (announce_drift _ _)
      exact Drift.of_view rfl

theorem onUndiscovered_drift (s : Exec X P) (transport : TransportId) (addr : String) :
    Drift s (s.onUndiscovered transport addr) := by
  unfold onUndiscovered
  dsimp only
  refine Drift.trans ?_ (Drift.foldl ?_ _ _)
  · exact Drift.of_view rfl
  · intro s fp
    split
    · exact Drift.of_view rfl
    · refine Drift.trans ?_ (Drift.ui _ _)
      exact Drift.of_view rfl

end Exec
end Acrylius
