import Acrylius.Core.Errors

/-! What a step asks for and hands over, plugin call by plugin call: tokens, who answers for
them, and messages. -/
namespace Acrylius
open Proto Std

variable {X : Crates} {P : Type}

/-- The tokens given out, the plugin each is owed to, and the messages handed over. -/
@[ext] structure Errands (X : Crates) (P : Type) where
  nextToken : ℕ
  effectOwner : ExtTreeMap EffectToken ℕ
  sends : List (Core X P × PendingSend)

def Action.asks : Action → Option (EffectToken × Effect)
  | .effect t e => some (t, e)
  | _ => none

def asked (as : List Action) : List (EffectToken × Effect) := as.filterMap Action.asks

@[simp] theorem asked_append (as bs : List Action) : asked (as ++ bs) = asked as ++ asked bs := by
  simp [asked]

theorem asked_of_plain {as : List Action} (h : ∀ a ∈ as, a.plain) : asked as = [] := by
  rw [asked, List.filterMap_eq_nil_iff]
  intro a ha
  have := h a ha
  cases a <;> simp_all [Action.plain, Action.asks]

namespace Exec

def errands (s : Exec X P) : Errands X P where
  nextToken := s.core.nextToken
  effectOwner := s.core.effectOwner
  sends := s.sends

theorem push_asked (s : Exec X P) (a : Action) :
    asked (s.push a).actions = asked s.actions ++ a.asks.toList := by
  cases h : a.asks with
  | none => simp [push, asked, h]
  | some e => simp [push, asked, h]

@[simp] theorem push_errands (s : Exec X P) (a : Action) : (s.push a).errands = s.errands := rfl

@[simp] theorem ui_errands (s : Exec X P) (e : UiEvent) : (s.ui e).errands = s.errands := rfl

@[simp] theorem unlink_errands (s : Exec X P) (l : LinkId) : (s.unlink l).errands = s.errands := rfl

@[simp] theorem failLink_errands (s : Exec X P) (l : LinkId) (detail : String) :
    (s.failLink l detail).errands = s.errands := rfl

theorem foldl_errands {α : Type} {f : Exec X P → α → Exec X P}
    (hf : ∀ s a, (f s a).errands = s.errands) (as : List α) (s : Exec X P) :
    (as.foldl f s).errands = s.errands := by
  induction as generalizing s with
  | nil => rfl
  | cons a as ih => exact (ih _).trans (hf s a)

theorem tryNextRoute_errands (s : Exec X P) (nowMs : ℕ) (pending : PeerDial) (why : String) :
    (s.tryNextRoute nowMs pending why).errands = s.errands := by
  unfold tryNextRoute
  split
  · rfl
  · split
    · dsimp only
      split
      · rfl
      · rfl
    · rfl

theorem connectRoutes_errands (s : Exec X P) (nowMs : ℕ) (peer : DeviceId)
    (routes : List (TransportId × String)) (byHand : Bool) :
    (s.connectRoutes nowMs peer routes byHand).errands = s.errands := by
  unfold connectRoutes
  split
  · dsimp only
    split
    · rfl
    · rfl
  · rfl

theorem connectPeer_errands (s : Exec X P) (nowMs : ℕ) (peer : DeviceId) (byHand : Bool) :
    (s.connectPeer nowMs peer byHand).errands = s.errands := by
  unfold connectPeer
  dsimp only
  split
  · rfl
  · split
    · exact connectRoutes_errands _ _ _ _ _
    · split
      · rfl
      · rfl
    · split
      · rfl
      · split
        · rfl
        · split
          · rfl
          · exact connectRoutes_errands _ _ _ _ _

theorem onLinkUp_errands (s : Exec X P) (nowMs : ℕ) (seed : X.Seed) (l : LinkId) (attrs : LinkAttrs)
    (dial : Option DialToken) : (s.onLinkUp nowMs seed l attrs dial).errands = s.errands := by
  unfold onLinkUp
  dsimp only
  split
  · unfold startPairInitiator
    split
    · rfl
    · split
      · rfl
      · rfl
  · split
    · unfold startSessionInitiator
      split
      · rfl
      · split
        · split
          · rfl
          · split
            · rfl
            · rfl
        · rfl
    · rfl

theorem onPairOpener_errands (s : Exec X P) (nowMs : ℕ) (seed : X.Seed) (l : LinkId)
    (p : PendingLink) (body : Bytes) : (s.onPairOpener nowMs seed l p body).errands = s.errands := by
  unfold onPairOpener
  split
  · rfl
  · split
    · rfl
    · split
      · rfl
      · split
        · rfl
        · rfl

theorem acceptHello_errands (s : Exec X P) (peer : DeviceId) (payload : Bytes) :
    (s.acceptHello peer payload).1.errands = s.errands := by
  unfold acceptHello
  split
  · rfl
  · split
    · rfl
    · split
      · rfl
      · rfl

theorem pairingAttemptFailed_errands (s : Exec X P) (nowMs : ℕ) (l : LinkId) :
    (s.pairingAttemptFailed nowMs l).errands = s.errands := rfl

theorem pairingCompleted_errands (s : Exec X P) (nowMs : ℕ) (l : LinkId) (h : HandshakingLink X)
    (payload : Bytes) : (s.pairingCompleted nowMs l h payload).errands = s.errands := by
  unfold pairingCompleted
  split
  · split
    · rfl
    · dsimp only
      split
      · rfl
      · rfl
      · rfl
  · rfl

theorem confirmPairing_errands (s : Exec X P) (nowMs : ℕ) (accept : Bool) :
    (s.confirmPairing nowMs accept).errands = s.errands := by
  unfold confirmPairing
  split
  · split
    · rfl
    · split
      · rfl
      · rename_i a _ _ _ id _
        have keep : (s.keepRoutes id a).errands = s.errands := by
          unfold keepRoutes
          dsimp only
          split
          · rfl
          · split
            · rfl
            · rfl
        exact keep
  · rfl

theorem announce_errands (s : Exec X P) (fp : Fingerprint) : (s.announce fp).errands = s.errands := by
  unfold announce
  split
  · rfl
  · split
    · rfl
    · split
      · rfl
      · rfl

theorem lapsePairing_errands (s : Exec X P) (nowMs : ℕ) :
    (s.lapsePairing nowMs).errands = s.errands := by
  unfold lapsePairing
  split
  · rfl
  · split
    · rfl
    · dsimp only
      split
      · rfl
      · rfl

theorem closeStale_errands (s : Exec X P) (nowMs : ℕ) (l : LinkId) :
    (s.closeStale nowMs l).errands = s.errands := by
  unfold closeStale
  dsimp only
  split
  · split
    · exact tryNextRoute_errands _ _ _ _
    · rfl
  · rfl

theorem expireDial_errands (s : Exec X P) (nowMs : ℕ) (d : DialToken) :
    (s.expireDial nowMs d).errands = s.errands := by
  unfold expireDial
  split
  · rfl
  · exact tryNextRoute_errands _ _ _ _

theorem heartbeat_errands (s : Exec X P) (nowMs : ℕ) : (s.heartbeat nowMs).errands = s.errands := by
  unfold heartbeat
  split
  · exact foldl_errands (fun s id => connectPeer_errands s nowMs id false) _ _
  · rfl

theorem onDialFailed_errands (s : Exec X P) (nowMs : ℕ) (d : DialToken) (reason : String) :
    (s.onDialFailed nowMs d reason).errands = s.errands := by
  unfold onDialFailed
  split
  · rfl
  · split
    · exact tryNextRoute_errands _ _ _ _
    · rfl

theorem onDiscovered_errands (s : Exec X P) (nowMs : ℕ) (transport : TransportId)
    (peer : DiscoveredPeer) : (s.onDiscovered nowMs transport peer).errands = s.errands := by
  unfold onDiscovered
  split
  · rfl
  · dsimp only
    split
    · exact connectPeer_errands _ _ _ _
    · exact announce_errands _ _

theorem onUndiscovered_errands (s : Exec X P) (transport : TransportId) (addr : String) :
    (s.onUndiscovered transport addr).errands = s.errands := by
  have each := fun (s : Exec X P) (fp : Fingerprint) =>
    show (if (({ s with core.seen := s.core.seen.erase fp } : Exec X P).core.recordOf fp).isSome then
      ({ s with core.seen := s.core.seen.erase fp } : Exec X P)
      else Exec.ui { s with core.seen := s.core.seen.erase fp } (.undiscovered fp)).errands =
        s.errands by
      split
      · rfl
      · rfl
  exact foldl_errands each _ _

theorem requestPairing_errands (s : Exec X P) (nowMs : ℕ) (transport : TransportId)
    (addr : String) : (s.requestPairing nowMs transport addr).errands = s.errands := by
  unfold requestPairing
  split
  · rfl
  · rfl

end Exec

/-- A stretch of a step that calls no plugin, hands nothing over and asks for nothing. -/
structure Calm (s t : Exec X P) : Prop where
  plain : Plain s t
  errands : t.errands = s.errands

namespace Calm
variable {s t r : Exec X P}

theorem refl (s : Exec X P) : Calm s s := ⟨.refl s, rfl⟩

theorem trans (h : Calm s t) (h' : Calm t r) : Calm s r :=
  ⟨h.plain.trans h'.plain, h'.errands.trans h.errands⟩

theorem push (s : Exec X P) (a : Action) (h : a.plain) : Calm s (s.push a) := ⟨.push s a h, rfl⟩

theorem of_same (hl : t.core.ledger = s.core.ledger) (he : t.errands = s.errands)
    (ha : t.actions = s.actions) : Calm s t := ⟨.of_ledger hl ha, he⟩

theorem failLink (s : Exec X P) (l : LinkId) (detail : String) : Calm s (s.failLink l detail) :=
  ⟨Exec.failLink_plain s l detail, rfl⟩

theorem plugins (h : Calm s t) : t.core.plugins = s.core.plugins :=
  congrArg Ledger.plugins h.plain.1

theorem asked (h : Calm s t) : asked t.actions = asked s.actions := by
  obtain ⟨as, ha, hp⟩ := h.plain.2
  rw [ha, asked_append, asked_of_plain hp, List.append_nil]

end Calm

namespace Exec

theorem dispatchSend_errands (s : Exec X P) (m : PendingSend) :
    (s.dispatchSend m).errands = { s.errands with sends := s.sends ++ [(s.core, m)] } := by
  unfold dispatchSend
  dsimp only
  split
  · rfl
  · split
    · rfl
    · split
      · split
        · rfl
        · rfl
      · rfl

theorem dispatchSends (ms : List PendingSend) (s : Exec X P) :
    ∃ new, (ms.foldl dispatchSend s).errands = { s.errands with sends := s.sends ++ new } ∧
      new.map (·.2) = ms ∧ asked (ms.foldl dispatchSend s).actions = asked s.actions ∧
      (ms.foldl dispatchSend s).core.plugins = s.core.plugins := by
  induction ms generalizing s with
  | nil => exact ⟨[], by simp [errands], rfl, rfl, rfl⟩
  | cons m ms ih =>
    obtain ⟨new, hnew, hmap, hasked, hplugins⟩ := ih (s.dispatchSend m)
    have hone := s.dispatchSend_errands m
    have hsends : (s.dispatchSend m).sends = s.sends ++ [(s.core, m)] :=
      congrArg Errands.sends hone
    have hplain := s.dispatchSend_plain m
    obtain ⟨as, has, hp⟩ := hplain.2
    refine ⟨(s.core, m) :: new, ?_, ?_, ?_, ?_⟩
    · rw [List.foldl_cons, hnew, hone, hsends, List.append_assoc]
      rfl
    · rw [List.map_cons, hmap]
    · rw [List.foldl_cons, hasked, has, asked_append, asked_of_plain hp, List.append_nil]
    · exact hplugins.trans (congrArg Ledger.plugins hplain.1)

theorem dispatchBulk_errands (s : Exec X P) (nowMs : ℕ) (r : BulkRequest) :
    (s.dispatchBulk nowMs r).errands = s.errands ∧
      asked (s.dispatchBulk nowMs r).actions = asked s.actions := by
  have key : ∀ (peer offerer : DeviceId) (t : TransferId) (n : ℕ)
      (start : Exec X P → Bytes → Exec X P), (∀ s k, (start s k).errands = s.errands ∧
        asked (start s k).actions = asked s.actions) →
      (s.withBulkKey peer t offerer n start).errands = s.errands ∧
        asked (s.withBulkKey peer t offerer n start).actions = asked s.actions := by
    intro peer offerer t n start h
    unfold withBulkKey
    split
    · exact ⟨rfl, by simp [push_asked, ui, Action.asks]⟩
    · split
      · exact ⟨rfl, by simp [push_asked, ui, Action.asks]⟩
      · exact h s _
  cases r with
  | cancel t => exact ⟨rfl, by simp [dispatchBulk, push_asked, Action.asks]⟩
  | listen => exact key _ _ _ _ _ fun s k => ⟨rfl, by simp [push_asked, Action.asks]⟩
  | send => exact key _ _ _ _ _ fun s k => ⟨rfl, by simp [push_asked, Action.asks]⟩

/-- Of a plugin's intentions, the effects become actions and the messages are handed over. -/
theorem drainCx_spec (s : Exec X P) (cx : Cx) :
    ∃ new, (s.drainCx cx).errands = { s.errands with sends := s.sends ++ new } ∧
      new.map (·.2) = cx.sends ∧
      asked (s.drainCx cx).actions = asked s.actions ++ cx.effects ∧
      (s.drainCx cx).core.plugins = s.core.plugins := by
  have told : ∀ (es : List UiEvent) (s : Exec X P), (es.foldl ui s).errands = s.errands ∧
      asked (es.foldl ui s).actions = asked s.actions := by
    intro es
    induction es with
    | nil => exact fun s => ⟨rfl, rfl⟩
    | cons e es ih =>
      intro s
      obtain ⟨herrands, hasked⟩ := ih (s.ui e)
      exact ⟨herrands, by rw [List.foldl_cons, hasked, ui, push_asked]; simp [Action.asks]⟩
  have acted : ∀ (es : List (EffectToken × Effect)) (s : Exec X P),
      (es.foldl (fun s e => s.push (.effect e.1 e.2)) s).errands = s.errands ∧
      asked (es.foldl (fun s e => s.push (.effect e.1 e.2)) s).actions = asked s.actions ++ es := by
    intro es
    induction es with
    | nil => exact fun s => ⟨rfl, by simp⟩
    | cons e es ih =>
      intro s
      obtain ⟨herrands, hasked⟩ := ih (s.push (.effect e.1 e.2))
      exact ⟨herrands, by rw [List.foldl_cons, hasked, push_asked]; simp [Action.asks]⟩
  have bulk : ∀ (rs : List BulkRequest) (s : Exec X P),
      (rs.foldl (fun s b => s.dispatchBulk cx.nowMs b) s).errands = s.errands ∧
      asked (rs.foldl (fun s b => s.dispatchBulk cx.nowMs b) s).actions = asked s.actions := by
    intro rs
    induction rs with
    | nil => exact fun s => ⟨rfl, rfl⟩
    | cons r rs ih =>
      intro s
      have hone := s.dispatchBulk_errands cx.nowMs r
      exact ⟨(ih _).1.trans hone.1, (ih _).2.trans hone.2⟩
  have hplugins := (s.drainCx_kept cx).1
  obtain ⟨ht, hta⟩ := told cx.ui s
  obtain ⟨he, hea⟩ := acted cx.effects (cx.ui.foldl ui s)
  obtain ⟨hb, hba⟩ := bulk cx.bulk
    (cx.effects.foldl (fun s e => s.push (.effect e.1 e.2)) (cx.ui.foldl ui s))
  obtain ⟨new, hnew, hmap, hasked, -⟩ := dispatchSends cx.sends
    (cx.bulk.foldl (fun s b => s.dispatchBulk cx.nowMs b)
      (cx.effects.foldl (fun s e => s.push (.effect e.1 e.2)) (cx.ui.foldl ui s)))
  have hsame := (hb.trans he).trans ht
  have hsends := congrArg Errands.sends hsame
  dsimp only [errands] at hsends
  refine ⟨new, ?_, hmap, ?_, hplugins⟩
  · rw [hsame, hsends] at hnew
    unfold drainCx
    dsimp only
    split
    · exact hnew
    · exact hnew
  · rw [hba, hea, hta] at hasked
    unfold drainCx
    dsimp only
    split
    · exact hasked
    · exact hasked

/-- What one call of one plugin leaves behind: its new state, the token it went up to, itself as
the owner of what it asked for, and its messages. -/
theorem callPlugin_spec {α : Type} (s : Exec X P) {idx : ℕ} (cx : Cx)
    (hook : P → Cx → P × Cx × α) {p : P} (hp : s.core.plugins[idx]? = some p) :
    ∃ new, (s.callPlugin idx cx hook).1.errands =
        { nextToken := (hook p cx).2.1.nextToken
          effectOwner := (hook p cx).2.1.effects.foldl (fun o e => o.insert e.1 idx)
            s.core.effectOwner
          sends := s.sends ++ new } ∧
      new.map (·.2) = (hook p cx).2.1.sends ∧
      asked (s.callPlugin idx cx hook).1.actions = asked s.actions ++ (hook p cx).2.1.effects ∧
      (s.callPlugin idx cx hook).1.core.plugins = s.core.plugins.set idx (hook p cx).1 := by
  rw [callPlugin_eq s cx hook hp]
  obtain ⟨new, hnew, hmap, hasked, hplugins⟩ :=
    (s.handOver idx (hook p cx).1 (hook p cx).2.1).drainCx_spec (hook p cx).2.1
  exact ⟨new, hnew, hmap, hasked, hplugins⟩

theorem callAllPlugins_spec (s : Exec X P) (nowMs : ℕ) (hook : P → Cx → P × Cx) :
    ∃ new, (s.callAllPlugins nowMs hook).errands =
        { nextToken := (forEachPlugin hook s.core.plugins (s.cx nowMs)).2.nextToken
          effectOwner := s.core.effectOwner
          sends := s.sends ++ new } ∧
      new.map (·.2) = (forEachPlugin hook s.core.plugins (s.cx nowMs)).2.sends ∧
      asked (s.callAllPlugins nowMs hook).actions =
        asked s.actions ++ (forEachPlugin hook s.core.plugins (s.cx nowMs)).2.effects ∧
      (s.callAllPlugins nowMs hook).core.plugins =
        (forEachPlugin hook s.core.plugins (s.cx nowMs)).1 :=
  drainCx_spec _ _

end Exec

namespace Core

def lastLinkOf (c : Core X P) (l : LinkId) : Option DeviceId :=
  match c.links[l]? with
  | some (.up u) => if (c.upLinks u.peer).all fun e => e.1 = l then some u.peer else none
  | _ => none

/-- The peer whose last session the event takes, with word to the plugins: the link went down or
broke, or a person closed every link there was. -/
def parts (c : Core X P) (i : Input X) : Option DeviceId :=
  match i.event with
  | .linkDown l _ => c.lastLinkOf l
  | .linkRecv l msg =>
    match Frame.split msg, c.links[l]? with
    | some (.transport, body), some (.up u) =>
      match u.session.decrypt body with
      | .ok _ => none
      | .error _ => c.lastLinkOf l
    | some _, some (.up _) => c.lastLinkOf l
    | _, _ => none
  | .localCommand (.disconnect p) => if (c.upLinks p).isEmpty then none else some p
  | .localCommand (.revoke p) => if (c.upLinks p).isEmpty then none else some p
  | _ => none

/-- A link is the last one of its peer if the peer has none without it. -/
theorem lastLinkOf_eq {c : Core X P} {l : LinkId} {u : UpLink X}
    (hu : c.links[l]? = some (.up u))
    (hnone : ∀ (l' : LinkId) (u' : UpLink X), (c.links.erase l)[l']? = some (.up u') →
      u'.peer ≠ u.peer) : c.lastLinkOf l = some u.peer := by
  have hall : ((c.upLinks u.peer).all fun e => e.1 = l) = true := by
    rw [List.all_eq_true]
    rintro ⟨l', u'⟩ hmem
    obtain ⟨hl', hp⟩ := mem_upLinks.mp hmem
    by_contra hne
    have hne' : l' ≠ l := by simpa using hne
    exact hnone l' u' ((Lib.getElem?_erase_of_ne hne').trans hl') hp
  unfold lastLinkOf
  rw [hu]
  dsimp only
  rw [if_pos hall]

end Core

section Rounds
variable [Plugin P]

/-- A step, or a stretch of one, as a sequence of plugin calls and refusals. -/
inductive Rounds (i : Core.Input X) (s₀ : Exec X P) : Exec X P → Exec X P → Prop where
  | calm {s t : Exec X P} (h : Calm s t) : Rounds i s₀ s t
  | released {s t : Exec X P} (plugins : t.core.plugins = s.core.plugins)
      (errands : t.errands = s.errands) (asked : asked t.actions = asked s.actions) :
      Rounds i s₀ s t
  | called {s : Exec X P} {idx : ℕ} {cx : Cx} {c : Call} (due : Due i s₀ s idx cx c)
      (other : ∀ token result, c ≠ .effectResult token result) :
      Rounds i s₀ s (s.callPlugin idx cx fun p cx => Plugin.call p cx c).1
  | calledAll {s : Exec X P} {c : Call} (h : c.forAll)
      (parted : ∀ peer, c = .disconnected peer → s₀.core.parts i = some peer) :
      Rounds i s₀ s (s.callAllPlugins i.now.monotonicMs fun p cx =>
        ((Plugin.call p cx c).1, (Plugin.call p cx c).2.1))
  | refused {s : Exec X P} {l : LinkId} {u : UpLink X} {session : Session X} {env : Envelope}
      (heard : s₀.core.Hears i l u session env) (code : ErrorCode) :
      Rounds i s₀ s (s.sendError u.peer env code)
  | settled {s : Exec X P} {token : EffectToken} {result : EffectResult} {idx : ℕ}
      (event : i.event = .effectDone token result) (state : s = s₀)
      (owner : s.core.effectOwner[token]? = some idx) :
      Rounds i s₀ s (Exec.callPlugin { s with core.effectOwner := s.core.effectOwner.erase token }
        idx (s.cx i.now.monotonicMs) fun p cx => Plugin.call p cx (.effectResult token result)).1
  | trans {s t r : Exec X P} (h : Rounds i s₀ s t) (h' : Rounds i s₀ t r) : Rounds i s₀ s r

namespace Exec
variable {i : Core.Input X} {s₀ s : Exec X P} {l : LinkId}

/-- The last session of a peer takes its plugins' word with it. -/
theorem lostUpLink_rounds (s : Exec X P) (u : UpLink X)
    (parted : (∀ (l : LinkId) (v : UpLink X), s.core.links[l]? = some (.up v) →
      v.peer ≠ u.peer) → s₀.core.parts i = some u.peer) :
    Rounds i s₀ s (s.lostUpLink i.now.monotonicMs u) := by
  unfold lostUpLink
  split
  · exact .calm (.push s _ rfl)
  · rename_i hbest
    have hnone := Core.bestLink_eq_none.mp (Option.not_isSome_iff_eq_none.mp hbest)
    dsimp only
    refine .trans (.calm (t := { s.ui (.peerUnreachable u.peer) with core.reconnectAt := some 0 })
      ⟨⟨rfl, [_], rfl, by simp [Action.plain]⟩, rfl⟩) ?_
    refine .calledAll (c := .disconnected u.peer) rfl ?_
    rintro peer ⟨⟩
    exact parted hnone

theorem onLinkDown_rounds (s : Exec X P) (l : LinkId)
    (parted : ∀ u : UpLink X, s.core.links[l]? = some (.up u) →
      (∀ (l' : LinkId) (v : UpLink X), (s.core.links.erase l)[l']? = some (.up v) →
        v.peer ≠ u.peer) → s₀.core.parts i = some u.peer) :
    Rounds i s₀ s (s.onLinkDown i.now.monotonicMs l) := by
  have gone : Rounds i s₀ s (s.unlink l) := .calm (.of_same rfl rfl rfl)
  unfold onLinkDown
  dsimp only
  split
  · rename_i u hu
    exact gone.trans (lostUpLink_rounds _ _ (parted u hu))
  · rename_i h hl
    have retry (r : Exec X P) (why : String) := fallback_cases (R := Calm) (h := h) (.refl r)
      fun pending _ =>
        ⟨tryNextRoute_plain r i.now.monotonicMs pending why, tryNextRoute_errands _ _ _ _⟩
    cases h.pairingFlow with
    | true =>
      have slot : Calm s { s.unlink l with core.pairing := none } := .of_same rfl rfl rfl
      exact .calm (slot.trans (retry _ _))
    | false => exact gone.trans (.calm (retry _ _))
  · exact gone

theorem failUpLink_rounds (s : Exec X P) (l : LinkId) (u : UpLink X) (detail : String)
    (parted : (∀ (l' : LinkId) (v : UpLink X), (s.core.links.erase l)[l']? = some (.up v) →
      v.peer ≠ u.peer) → s₀.core.parts i = some u.peer) :
    Rounds i s₀ s (s.failUpLink i.now.monotonicMs l u detail) := by
  unfold failUpLink
  refine .trans (.calm ?_) (onLinkDown_rounds _ l ?_)
  · exact ⟨⟨rfl, [_, _], List.append_assoc _ _ _, by simp [Action.plain]⟩, rfl⟩
  · intro v hv hnone
    have hback : (s.core.links.insert l (LinkState.up u)).erase l = s.core.links.erase l :=
      Lib.insert_erase _ _ _
    have hv' : (s.core.links.insert l (LinkState.up u))[l]? = some (.up v) := hv
    rw [ExtTreeMap.getElem?_insert_self, Option.some.injEq, LinkState.up.injEq] at hv'
    subst hv'
    refine parted fun l' w hw => hnone l' w ?_
    change ((s.core.links.insert l (LinkState.up u)).erase l)[l']? = _
    rw [hback]
    exact hw

theorem finishSession_rounds (s : Exec X P) (l : LinkId) (hs : Handshake X) (attrs : LinkAttrs)
    (peer : DeviceId) : Rounds i s₀ s (s.finishSession i.now.monotonicMs l hs attrs peer) := by
  unfold finishSession
  dsimp only
  split
  · exact .calm (.failLink _ _ _)
  · split
    · exact .calm (.failLink _ _ _)
    · refine .trans (.calm ?_) (.calledAll (c := .connected peer) rfl fun _ h => by cases h)
      exact ⟨⟨rfl, [_], rfl, by simp [Action.plain]⟩, rfl⟩

theorem acceptHello_rounds {peer : DeviceId} {payload : Bytes} {next : Exec X P → Exec X P}
    (s : Exec X P) (detail : String) (h : ∀ r, Rounds i s₀ r (next r)) :
    Rounds i s₀ s (match s.acceptHello peer payload with
      | (s, false) => s.failLink l detail
      | (s, true) => next s) := by
  have hcalm : Calm s (s.acceptHello peer payload).1 :=
    ⟨acceptHello_plain s peer payload, acceptHello_errands s peer payload⟩
  split
  · rename_i r heq
    rw [heq] at hcalm
    exact .calm (hcalm.trans (.failLink _ _ _))
  · rename_i r heq
    rw [heq] at hcalm
    exact .trans (.calm hcalm) (h _)

theorem onSessionOpener_rounds (s : Exec X P) (l : LinkId) (p : PendingLink) (body : Bytes) :
    Rounds i s₀ s (s.onSessionOpener i.now.monotonicMs i.seed l p body) := by
  have fail : ∀ (r : Exec X P) detail, Rounds i s₀ r (r.failLink l detail) :=
    fun r detail => .calm (.failLink r l detail)
  unfold onSessionOpener
  split
  · exact fail _ _
  dsimp only
  split
  · exact fail _ _
  split
  · exact fail _ _
  split
  · exact fail _ _
  split
  · exact fail _ _
  rename_i hs _
  refine acceptHello_rounds s _ fun r => ?_
  split
  · exact fail _ _
  · exact .trans (.calm (.push _ _ rfl)) (finishSession_rounds _ _ _ _ _)

theorem onFirstFrame_rounds (s : Exec X P) (l : LinkId) (p : PendingLink) (kind : FrameKind)
    (body : Bytes) : Rounds i s₀ s (s.onFirstFrame i.now.monotonicMs i.seed l p kind body) := by
  cases kind with
  | pairHandshake => exact .calm ⟨onPairOpener_plain _ _ _ _ _ _, onPairOpener_errands _ _ _ _ _ _⟩
  | sessionHandshake => exact onSessionOpener_rounds _ _ _ _
  | transport => exact .calm (.failLink _ _ _)

theorem afterHandshakeRead_rounds (s : Exec X P) (l : LinkId) (h : HandshakingLink X)
    (payload : Bytes) : Rounds i s₀ s (s.afterHandshakeRead i.now.monotonicMs l h payload) := by
  unfold afterHandshakeRead
  split
  · exact .calm (.of_same rfl rfl rfl)
  · split
    · exact .calm ⟨pairingCompleted_plain _ _ _ _ _, pairingCompleted_errands _ _ _ _ _⟩
    · unfold onSessionReply
      split
      · exact .calm (.failLink _ _ _)
      · exact acceptHello_rounds s _ fun r => finishSession_rounds _ _ _ _ _

theorem onHandshakeFrame_rounds (s : Exec X P) (l : LinkId) (h : HandshakingLink X)
    (kind : FrameKind) (body : Bytes) :
    Rounds i s₀ s (s.onHandshakeFrame i.now.monotonicMs l h kind body) := by
  unfold onHandshakeFrame
  by_cases hkind : kind = if h.pairingFlow then .pairHandshake else .sessionHandshake
  case neg =>
    rw [if_pos hkind]
    exact .calm (.failLink _ _ _)
  rw [if_neg (not_not.mpr hkind)]
  cases h.hs.read body with
  | error e =>
    dsimp only
    split
    · exact .calm ⟨pairingAttemptFailed_plain _ _ _, pairingAttemptFailed_errands _ _ _⟩
    · exact .calm (.failLink _ _ _)
  | ok r =>
    dsimp only
    split
    · split
      · exact .trans (.calm (.push _ _ rfl)) (afterHandshakeRead_rounds _ _ _ _)
      · exact .calm (.failLink _ _ _)
    · exact afterHandshakeRead_rounds _ _ _ _

theorem onTransportFrame_rounds {msg body : Bytes} {kind : FrameKind} {u : UpLink X}
    (he : i.event = .linkRecv l msg) (hf : Frame.split msg = some (kind, body))
    (hl : s.core.links[l]? = some (.up u)) :
    Rounds i s s ((s.unlink l).onTransportFrame i.now.monotonicMs l u kind body) := by
  have gone : Rounds i s s (s.unlink l) := .calm (.of_same rfl rfl rfl)
  have last : (∀ (l' : LinkId) (v : UpLink X), ((s.core.links.erase l).erase l)[l']? =
      some (.up v) → v.peer ≠ u.peer) → s.core.lastLinkOf l = some u.peer := by
    rw [Lib.erase_erase]
    exact Core.lastLinkOf_eq hl
  unfold onTransportFrame
  split
  · rename_i hkind
    refine gone.trans (failUpLink_rounds _ _ _ _ fun hnone => ?_)
    rw [← last hnone]
    unfold Core.parts
    cases kind with
    | transport => exact absurd rfl hkind
    | pairHandshake => simp only [he, hf, hl]
    | sessionHandshake => simp only [he, hf, hl]
  rename_i hkind
  obtain rfl : kind = .transport := not_not.mp hkind
  split
  · rename_i e hdec
    refine gone.trans (failUpLink_rounds _ _ _ _ fun hnone => ?_)
    rw [← last hnone]
    unfold Core.parts
    simp only [he, hf, hl, hdec]
  rename_i plaintext session hdec
  have read : Rounds i s s ((s.unlink l).insertLink l
    (.up { u with session, lastRecvMs := i.now.monotonicMs })) := .calm (.of_same rfl rfl rfl)
  dsimp only
  split
  · exact read.trans (.calm (.push _ _ rfl))
  rename_i env henv
  have heard : s.core.Hears i l u session env := ⟨he, hf, hl, hdec, henv⟩
  split
  · exact read.trans (.refused heard _)
  rename_i hcap
  split
  · exact read.trans (.calm (.push _ _ rfl))
  rename_i hty
  unfold routeEnvelope
  split
  · exact read.trans (.refused heard _)
  · rename_i idx hidx
    have hback : (s.unlink l).insertLink l (.up { u with session, lastRecvMs := i.now.monotonicMs }) =
        s.insertLink l (.up { u with session, lastRecvMs := i.now.monotonicMs }) := by
      simp only [insertLink, unlink, Lib.erase_insert]
    have due := Due.message he hf hl hdec henv (not_not.mp hcap) hty hidx hback
    have hcall := Rounds.called due fun token result h => by cases h
    refine read.trans ?_
    dsimp only [Plugin.call] at hcall ⊢
    split
    · rename_i heq
      rw [heq] at hcall
      exact hcall.trans (.refused heard _)
    · rename_i heq
      rw [heq] at hcall
      exact hcall

theorem onLinkRecv_rounds {msg : Bytes} (he : i.event = .linkRecv l msg) :
    Rounds i s s (s.onLinkRecv i.now.monotonicMs i.seed l msg) := by
  have gone : Rounds i s s (s.unlink l) := .calm (.of_same rfl rfl rfl)
  unfold onLinkRecv
  split
  · exact .calm (.failLink _ _ _)
  · rename_i kind body hf
    dsimp only
    split
    · exact gone.trans (onFirstFrame_rounds _ _ _ _ _)
    · exact gone.trans (onHandshakeFrame_rounds _ _ _ _ _)
    · exact onTransportFrame_rounds he hf ‹_›
    · exact gone.trans (.calm (.failLink _ _ _))

/-- Links of one peer, closed one after the other: whoever is told gone is that peer. -/
theorem closeEach_rounds {peer : DeviceId} {reason : LinkDownReason}
    (parted : s₀.core.parts i = some peer) (es : List (LinkId × UpLink X)) (s : Exec X P)
    (hup : ∀ e ∈ es, UpOrGone s e.1)
    (hpeer : ∀ e ∈ es, ∀ u : UpLink X, s.core.links[e.1]? = some (.up u) → u.peer = peer) :
    Rounds i s₀ s (es.foldl (fun s e =>
      (s.push (.close e.1 reason)).onLinkDown i.now.monotonicMs e.1) s) := by
  induction es generalizing s with
  | nil => exact .calm (.refl s)
  | cons e es ih =>
    have he : UpOrGone (s.push (.close e.1 reason)) e.1 := hup e (by simp)
    have down : Aftermath i.now.monotonicMs _ _ := onLinkDown_aftermath _ he
    refine .trans (.trans (.calm (.push s _ rfl)) (onLinkDown_rounds _ e.1 ?_)) (ih _ ?_ ?_)
    · intro u hu _
      rw [hpeer e (by simp) u hu]
      exact parted
    · intro e' hmem
      exact UpOrGone.linkDown (s := s.push (.close e.1 reason)) (hup e' (List.mem_cons_of_mem _ hmem))
        _ e.1 he
    · intro e' hmem v hv
      obtain ⟨u, fs, hu, hs⟩ := down.up_of hv
      rw [hs.peer_eq]
      exact hpeer e' (List.mem_cons_of_mem _ hmem) u hu

theorem closeUpLinks_rounds (s : Exec X P) (peer : DeviceId) (reason : LinkDownReason)
    (parted : ¬ (s.core.upLinks peer).isEmpty → s₀.core.parts i = some peer) :
    Rounds i s₀ s (s.closeUpLinks i.now.monotonicMs peer reason) := by
  unfold closeUpLinks
  by_cases hempty : (s.core.upLinks peer).isEmpty
  · rw [List.isEmpty_iff.mp hempty]
    exact .calm (.refl s)
  · refine closeEach_rounds (parted hempty) _ s (upLinks_upOrGone s peer) ?_
    rintro ⟨l, u⟩ hmem v hv
    obtain ⟨hl, hp⟩ := Core.mem_upLinks.mp hmem
    have hvu : v = u := by simpa [hl] using hv.symm
    rw [hvu, hp]

omit [Plugin P] in
theorem revoked_errands (r : Exec X P) (peer : DeviceId) (fp : Option Fingerprint) :
    (match fp with
      | some fp => (r.ui (.revoked peer)).announce fp
      | none => r.ui (.revoked peer)).errands = r.errands := by
  cases fp with
  | none => rfl
  | some fp => exact announce_errands _ _

theorem handleRevoke_rounds (s : Exec X P) (peer : DeviceId)
    (he : i.event = .localCommand (.revoke peer)) :
    Rounds i s s (s.handleRevoke i.now.monotonicMs peer) := by
  let fp := (s.core.peers[peer]?).bind (·.fingerprint X)
  refine .trans (.calm ?_) (.trans (closeUpLinks_rounds _ peer (.protocol .notPaired) ?_)
    (.calm ⟨revoked_plain _ peer fp, revoked_errands _ peer fp⟩))
  · exact ⟨⟨rfl, [_], rfl, by simp [Action.plain]⟩, rfl⟩
  · intro hsome
    have hsome' : ¬ (s.core.upLinks peer).isEmpty := hsome
    unfold Core.parts
    simp only [he, if_neg hsome']

theorem onLocal_rounds {cmd : LocalCommand} (he : i.event = .localCommand cmd) :
    Rounds i s s (s.onLocal i.now.monotonicMs cmd) := by
  cases cmd <;> dsimp only [onLocal]
  case requestPairing => exact .calm ⟨requestPairing_plain _ _ _ _, requestPairing_errands _ _ _ _⟩
  case confirmPairing => exact .calm ⟨confirmPairing_plain _ _ _, confirmPairing_errands _ _ _⟩
  case setPeerAddress =>
    split
    · exact .calm (.of_same rfl rfl rfl)
    · exact .calm (.push s _ rfl)
  case connect => exact .calm ⟨connectPeer_plain _ _ _ _, connectPeer_errands _ _ _ _⟩
  case reconsiderRoutes =>
    exact .calm ⟨.foldl (fun s peer => connectPeer_plain s _ peer false) _ _,
      foldl_errands (fun s peer => connectPeer_errands s _ peer false) _ _⟩
  case disconnect peer =>
    refine closeUpLinks_rounds _ _ _ fun hsome => ?_
    unfold Core.parts
    simp only [he, if_neg hsome]
  case revoke => exact handleRevoke_rounds _ _ he
  case plugin peer cap ty body =>
    unfold onLocalPlugin
    split
    · exact .calm (.push s _ rfl)
    · rename_i idx hidx
      have due : Due i s s idx ((s.cx i.now.monotonicMs).forPeerLink (s.core.bulkSupportFor peer))
          (.request peer ty body) := .request he hidx rfl
      have hcall := Rounds.called due fun token result h => by cases h
      dsimp only [Plugin.call] at hcall ⊢
      split
      · rename_i heq
        rw [heq] at hcall
        exact hcall.trans (.calm (.push _ _ rfl))
      · rename_i heq
        rw [heq] at hcall
        exact hcall

theorem dispatchToTransferOwner_rounds {t : TransferId} {c : Call} {hook : P → Cx → P × Cx}
    (hhook : ∀ p cx, hook p cx = ((Plugin.call p cx c).1, (Plugin.call p cx c).2.1))
    (due : ∀ idx, s.core.bulkOwner[t]? = some idx → Due i s₀ s idx (s.cx i.now.monotonicMs) c)
    (other : ∀ token result, c ≠ .effectResult token result) :
    Rounds i s₀ s (s.dispatchToTransferOwner i.now.monotonicMs t hook) := by
  unfold dispatchToTransferOwner
  split
  · exact .calm (.refl s)
  · rename_i idx hidx
    rw [callPlugin_congr idx _ (fun p cx => Plugin.call p cx c) fun p => by simp [hhook]]
    exact .called (due idx hidx) other

theorem giveUpBulk_rounds {t : TransferId} {d : ℕ} (s : Exec X P) (he : i.event = .tick)
    (hw : s₀.core.bulkWait[t]? = some d) (hd : d ≤ i.now.monotonicMs) :
    Rounds i s₀ s (s.giveUpBulk i.now.monotonicMs t) := by
  have cancelled : Rounds i s₀ s (({ s with core.bulkWait := s.core.bulkWait.erase t }).push
      (.bulkCancel t)) := by
    refine .released rfl rfl ?_
    simp [push_asked, Action.asks]
  exact (cancelled.trans (dispatchToTransferOwner_rounds (fun _ _ => rfl)
    (fun idx hidx => .expired he hw hd hidx) fun token result h => by cases h)).trans
    (.released rfl rfl rfl)

theorem giveUpWaiting_rounds (he : i.event = .tick) (hw : s.core.bulkWait = s₀.core.bulkWait) :
    Rounds i s₀ s (s.giveUpWaiting i.now.monotonicMs) := by
  have each : ∀ (ts : List TransferId) (r : Exec X P), (∀ t ∈ ts, ∃ d,
      s₀.core.bulkWait[t]? = some d ∧ d ≤ i.now.monotonicMs) →
      Rounds i s₀ r (ts.foldl (fun s t => s.giveUpBulk i.now.monotonicMs t) r) := by
    intro ts
    induction ts with
    | nil => exact fun r _ => .calm (.refl r)
    | cons t ts ih =>
      intro r h
      obtain ⟨d, hd, hlate⟩ := h t (by simp)
      exact .trans (giveUpBulk_rounds r he hd hlate) (ih _ fun t ht => h t (List.mem_cons_of_mem _ ht))
  refine each _ s fun t ht => ?_
  simp only [List.mem_map, List.mem_filter, decide_eq_true_eq] at ht
  obtain ⟨⟨t', d⟩, ⟨hm, hd⟩, rfl⟩ := ht
  rw [ExtTreeMap.mem_toList_iff_getElem?_eq_some, hw] at hm
  exact ⟨d, hm, hd⟩

theorem wakePlugins_rounds (s : Exec X P) :
    Rounds i s₀ s (s.wakePlugins i.now.monotonicMs) := by
  unfold wakePlugins
  split
  · exact .calm (.refl s)
  · split
    · exact .calm (.refl s)
    · exact .trans (t := { s with core.pluginWake := none }) (.calm (.of_same rfl rfl rfl))
        (.calledAll (c := .tick) rfl fun _ h => by cases h)

theorem onTick_rounds (he : i.event = .tick) : Rounds i s s (s.onTick i.now.monotonicMs) := by
  have hlapse : Calm s (s.lapsePairing i.now.monotonicMs) :=
    ⟨lapsePairing_plain s _, lapsePairing_errands s _⟩
  have links : ∀ r : Exec X P, Calm r (r.closeStaleLinks i.now.monotonicMs) := fun r =>
    ⟨.foldl (fun s l => closeStale_plain s _ l) _ r,
      foldl_errands (fun s l => closeStale_errands s _ l) _ r⟩
  have dials : ∀ r : Exec X P, Calm r (r.expireDials i.now.monotonicMs) := fun r =>
    ⟨.foldl (fun s d => expireDial_plain s _ d) _ r,
      foldl_errands (fun s d => expireDial_errands s _ d) _ r⟩
  have beat : ∀ r : Exec X P, Calm r (r.heartbeat i.now.monotonicMs) := fun r =>
    ⟨heartbeat_plain r _, heartbeat_errands r _⟩
  have waits := giveUpWaiting_rounds (s := s.lapsePairing i.now.monotonicMs) he
    (congrArg Ledger.bulkWait hlapse.plain.1)
  refine .trans (.trans (.calm hlapse) waits) (.trans (.calm ?_) (wakePlugins_rounds _))
  exact ((links _).trans (dials _)).trans (beat _)

theorem onEvent_rounds : Rounds i s s (s.onEvent i.now.monotonicMs i.seed i.event) := by
  cases he : i.event <;> dsimp only [onEvent]
  case linkUp => exact .calm ⟨onLinkUp_plain _ _ _ _ _ _, onLinkUp_errands _ _ _ _ _ _⟩
  case linkRecv => exact onLinkRecv_rounds he
  case linkDown l _ =>
    refine onLinkDown_rounds _ l fun u hu hnone => ?_
    unfold Core.parts
    simp only [he]
    exact Core.lastLinkOf_eq hu hnone
  case dialFailed => exact .calm ⟨onDialFailed_plain _ _ _ _, onDialFailed_errands _ _ _ _⟩
  case discovered => exact .calm ⟨onDiscovered_plain _ _ _ _, onDiscovered_errands _ _ _ _⟩
  case undiscovered => exact .calm ⟨onUndiscovered_plain _ _ _, onUndiscovered_errands _ _ _⟩
  case bulkListening =>
    exact dispatchToTransferOwner_rounds (fun _ _ => rfl) (fun idx h => .listening he h rfl)
      fun token result h => by cases h
  case bulkStarted => exact .released rfl rfl rfl
  case bulkFinished =>
    exact .trans (dispatchToTransferOwner_rounds (fun _ _ => rfl) (fun idx h => .finished he h rfl)
      fun token result h => by cases h) (.released rfl rfl rfl)
  case tick => exact onTick_rounds he
  case localCommand => exact onLocal_rounds he
  case effectDone token result =>
    unfold onEffectDone
    split
    · exact .calm (.refl s)
    · rename_i idx hidx
      rw [callPlugin_congr idx _ (fun p cx => Plugin.call p cx (.effectResult token result))
        fun p => by simp [Plugin.call]]
      exact .settled he rfl hidx

end Exec
end Rounds

theorem Core.exec_rounds [Plugin P] (c : Core X P) (i : Core.Input X) :
    Rounds i (c.start i) (c.start i) (c.exec i) :=
  Exec.onEvent_rounds

end Acrylius
