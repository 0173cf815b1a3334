import Acrylius.Core.Calls
import Acrylius.Core.Reaching

/-! What the core keeps of its attempts to reach peers, and the stretches of a step that leave all
of it alone: whatever plugins ask for, they dial nobody and end no attempt. -/
namespace Acrylius
open Proto Std

variable {X : Crates} {P : Type}

/-- The tables of the attempts to reach peers, and what they are made with. -/
@[ext] structure Pursuit where
  config : CoreConfig
  nextDial : ℕ
  peerDials : ExtTreeMap DialToken (ℕ × PeerDial)
  pairDials : ExtTreeMap DialToken (TransportId × String)
  trouble : ExtTreeMap DeviceId String
  reconnectAt : Option ℕ

def Core.pursuit (c : Core X P) : Pursuit where
  config := c.config
  nextDial := c.nextDial
  peerDials := c.pendingPeerDials
  pairDials := c.pendingPairDials
  trouble := c.dialTrouble
  reconnectAt := c.reconnectAt

def Action.isDial : Action → Bool
  | .dial .. => true
  | _ => false

/-- The same link, or the same established link with its cipher moved on. -/
def Resealed (x y : Option (LinkState X)) : Prop :=
  y = x ∨ ∃ u session, x = some (.up u) ∧ y = some (.up { u with session })

namespace Resealed
variable {x y z : Option (LinkState X)}

theorem refl (x : Option (LinkState X)) : Resealed x x := .inl rfl

theorem trans (h : Resealed x y) (h' : Resealed y z) : Resealed x z := by
  rcases h with rfl | ⟨u, session, hx, rfl⟩
  · exact h'
  · rcases h' with rfl | ⟨v, session', hv, rfl⟩
    · exact .inr ⟨u, session, hx, rfl⟩
    · cases hv
      exact .inr ⟨u, session', hx, rfl⟩

theorem handshaking_iff (h : Resealed x y) {g : HandshakingLink X} :
    y = some (.handshaking g) ↔ x = some (.handshaking g) := by
  rcases h with rfl | ⟨u, session, rfl, rfl⟩
  · exact .rfl
  · simp

theorem up_of (h : Resealed x y) {v : UpLink X} (hv : y = some (.up v)) :
    ∃ u, x = some (.up u) ∧ v = { u with session := v.session } := by
  rcases h with rfl | ⟨u, session, rfl, rfl⟩
  · exact ⟨v, hv, rfl⟩
  · cases hv
    exact ⟨u, rfl, rfl⟩

theorem up_to (h : Resealed x y) {u : UpLink X} (hu : x = some (.up u)) :
    ∃ session, y = some (.up { u with session }) := by
  rcases h with rfl | ⟨v, session, rfl, rfl⟩
  · exact ⟨u.session, hu⟩
  · cases hu
    exact ⟨session, rfl⟩

end Resealed

namespace Core
variable {c d : Core X P} {p : DeviceId}

theorem upWith_iff {l : LinkId} (h : Resealed c.links[l]? d.links[l]?) :
    d.UpWith p l ↔ c.UpWith p l := by
  constructor
  · rintro ⟨v, hv, hp⟩
    obtain ⟨u, hu, heq⟩ := h.up_of hv
    rw [heq] at hp
    exact ⟨u, hu, hp⟩
  · rintro ⟨u, hu, hp⟩
    obtain ⟨session, hv⟩ := h.up_to hu
    exact ⟨_, hv, hp⟩

theorem reaches_of_upWith (h : ∀ l, d.UpWith p l ↔ c.UpWith p l) : d.Reaches p ↔ c.Reaches p :=
  exists_congr h

theorem bestLink_isSome : (c.bestLink p).isSome ↔ c.Reaches p := by
  constructor
  · intro h
    obtain ⟨⟨l, u⟩, hb⟩ := Option.isSome_iff_exists.mp h
    exact ⟨l, u, bestLink_up hb⟩
  · rintro ⟨l, u, hu, hp⟩
    by_contra h
    have hnone := Option.not_isSome_iff_eq_none.mp h
    exact bestLink_eq_none.mp hnone l u hu hp

end Core

/-- A stretch of a step that dials nobody and leaves every attempt and every link where it is. -/
structure Still (s t : Exec X P) : Prop where
  pursuit : t.core.pursuit = s.core.pursuit
  links : ∀ l : LinkId, Resealed s.core.links[l]? t.core.links[l]?
  made : t.dials = s.dials
  mute : ∃ as, t.actions = s.actions ++ as ∧ ∀ a ∈ as, a.isDial = false

namespace Still
variable {s t r : Exec X P} {p : DeviceId}

theorem of_same (hpursuit : t.core.pursuit = s.core.pursuit)
    (hlinks : t.core.links = s.core.links) (hmade : t.dials = s.dials)
    (hactions : t.actions = s.actions) : Still s t where
  pursuit := hpursuit
  links l := by
    rw [hlinks]
    exact .refl _
  made := hmade
  mute := ⟨[], by simpa using hactions, by simp⟩

theorem refl (s : Exec X P) : Still s s := of_same rfl rfl rfl rfl

theorem trans (h : Still s t) (h' : Still t r) : Still s r where
  pursuit := h'.pursuit.trans h.pursuit
  links l := (h.links l).trans (h'.links l)
  made := h'.made.trans h.made
  mute := by
    obtain ⟨as, ha, hmute⟩ := h.mute
    obtain ⟨bs, hb, hmute'⟩ := h'.mute
    refine ⟨as ++ bs, by rw [hb, ha, List.append_assoc], fun a hmem => ?_⟩
    rcases List.mem_append.mp hmem with hmem | hmem
    · exact hmute a hmem
    · exact hmute' a hmem

theorem push (s : Exec X P) (a : Action) (h : a.isDial = false) : Still s (s.push a) where
  pursuit := rfl
  links _ := .refl _
  made := rfl
  mute := ⟨[a], rfl, by simpa using h⟩

theorem ui (s : Exec X P) (e : UiEvent) : Still s (s.ui e) := push s (.ui e) rfl

theorem foldl {α : Type} {f : Exec X P → α → Exec X P} (hf : ∀ s a, Still s (f s a))
    (as : List α) (s : Exec X P) : Still s (as.foldl f s) := by
  induction as generalizing s with
  | nil => exact refl s
  | cons a as ih => exact (hf s a).trans (ih _)

theorem peerDials (h : Still s t) : t.core.pendingPeerDials = s.core.pendingPeerDials :=
  congrArg Pursuit.peerDials h.pursuit

theorem pairDials (h : Still s t) : t.core.pendingPairDials = s.core.pendingPairDials :=
  congrArg Pursuit.pairDials h.pursuit

theorem nextDial (h : Still s t) : t.core.nextDial = s.core.nextDial :=
  congrArg Pursuit.nextDial h.pursuit

theorem trouble (h : Still s t) : t.core.dialTrouble = s.core.dialTrouble :=
  congrArg Pursuit.trouble h.pursuit

theorem reconnectAt (h : Still s t) : t.core.reconnectAt = s.core.reconnectAt :=
  congrArg Pursuit.reconnectAt h.pursuit

theorem reaches (h : Still s t) : t.core.Reaches p ↔ s.core.Reaches p :=
  Core.reaches_of_upWith fun l => Core.upWith_iff (h.links l)

end Still

namespace Exec

theorem dispatchSend_still (s : Exec X P) (m : PendingSend) : Still s (s.dispatchSend m) := by
  have same : ∀ {t : Exec X P} (a : Action), t.core.pursuit = s.core.pursuit →
      (∀ l : LinkId, Resealed s.core.links[l]? t.core.links[l]?) → t.dials = s.dials →
      t.actions = s.actions ++ [a] → a.isDial = false → Still s t := by
    intro t a hpursuit hlinks hmade hact ha
    exact ⟨hpursuit, hlinks, hmade, [a], hact, by simpa using ha⟩
  unfold dispatchSend
  dsimp only
  cases hb : s.core.bestLink m.peer with
  | none => exact same _ rfl (fun _ => .refl _) rfl rfl rfl
  | some e =>
    obtain ⟨l, u⟩ := e
    obtain ⟨hl, -⟩ := Core.bestLink_up hb
    have sealed : ∀ (session : Session X) (l' : LinkId), Resealed s.core.links[l']?
        (s.core.links.insert l (.up { u with session }))[l']? := by
      intro session l'
      by_cases he : l' = l
      · subst he
        rw [ExtTreeMap.getElem?_insert_self, hl]
        exact .inr ⟨u, session, rfl, rfl⟩
      · rw [Lib.getElem?_insert_of_ne he]
        exact .refl _
    dsimp only
    split
    · exact same _ rfl (fun _ => .refl _) rfl rfl rfl
    · split
      · split
        · exact same _ rfl (sealed _) rfl rfl rfl
        · exact same _ rfl (sealed _) rfl rfl rfl
      · exact same _ rfl (fun _ => .refl _) rfl rfl rfl

theorem sendError_still (s : Exec X P) (peer : DeviceId) (req : Envelope) (code : ErrorCode) :
    Still s (s.sendError peer req code) :=
  dispatchSend_still s _

theorem dispatchBulk_still (s : Exec X P) (nowMs : ℕ) (b : BulkRequest) :
    Still s (s.dispatchBulk nowMs b) := by
  have key : ∀ (peer offerer : DeviceId) (t : TransferId) (n : ℕ)
      (start : Exec X P → Bytes → Exec X P), (∀ s k, Still s (start s k)) →
      Still s (s.withBulkKey peer t offerer n start) := by
    intro peer offerer t n start h
    unfold withBulkKey
    split
    · have mute : ∀ e : UiEvent, ∀ a ∈ [Action.ui e, .bulkCancel t], a.isDial = false := by
        simp [Action.isDial]
      exact ⟨rfl, fun _ => .refl _, rfl, _, List.append_assoc _ _ _, mute _⟩
    · split
      · exact .ui s _
      · exact h s _
  cases b <;> dsimp only [dispatchBulk]
  case cancel t => exact .push s _ rfl
  case send => exact key _ _ _ _ _ fun s k => .push s _ rfl
  case listen peer t n bytes =>
    refine key _ _ _ _ _ fun s k => ?_
    refine Still.trans ?_ (.push _ (.bulkListen t n k bytes) rfl)
    exact .of_same rfl rfl rfl rfl

theorem drainCx_still (s : Exec X P) (cx : Cx) : Still s (s.drainCx cx) := by
  have told : Still s (cx.ui.foldl ui s) := .foldl Still.ui _ _
  have acted : ∀ r : Exec X P,
      Still r (cx.effects.foldl (fun s e => s.push (.effect e.1 e.2)) r) :=
    .foldl (fun s e => .push s _ rfl) _
  have asked : ∀ r : Exec X P, Still r (cx.bulk.foldl (fun s b => s.dispatchBulk cx.nowMs b) r) :=
    .foldl (fun s b => dispatchBulk_still s _ b) _
  have sent : ∀ r : Exec X P, Still r (cx.sends.foldl dispatchSend r) :=
    .foldl dispatchSend_still _
  have all := ((told.trans (acted _)).trans (asked _)).trans (sent _)
  unfold drainCx
  dsimp only
  split
  · exact all
  · exact all.trans (.of_same rfl rfl rfl rfl)

theorem callPlugin_still {α : Type} (s : Exec X P) (idx : ℕ) (cx : Cx)
    (hook : P → Cx → P × Cx × α) : Still s (s.callPlugin idx cx hook).1 := by
  unfold callPlugin
  split
  · exact .refl s
  · refine Still.trans ?_ (drainCx_still _ _)
    exact .of_same rfl rfl rfl rfl

theorem callAllPlugins_still (s : Exec X P) (nowMs : ℕ) (hook : P → Cx → P × Cx) :
    Still s (s.callAllPlugins nowMs hook) := by
  unfold callAllPlugins
  refine Still.trans ?_ (drainCx_still _ _)
  exact .of_same rfl rfl rfl rfl

theorem acceptHello_still (s : Exec X P) (peer : DeviceId) (payload : Bytes) :
    Still s (s.acceptHello peer payload).1 := by
  unfold acceptHello
  split
  · exact .ui s _
  · split
    · exact .refl s
    · split
      · dsimp only
        refine Still.trans ?_ (.push _ _ rfl)
        exact .of_same rfl rfl rfl rfl
      · exact .ui s _

theorem announce_still (s : Exec X P) (fp : Fingerprint) : Still s (s.announce fp) := by
  unfold announce
  split
  · exact .refl s
  · split
    · exact .refl s
    · split
      · exact .refl s
      · exact .ui s _

theorem onUndiscovered_still (s : Exec X P) (transport : TransportId) (addr : String) :
    Still s (s.onUndiscovered transport addr) := by
  unfold onUndiscovered
  dsimp only
  refine Still.trans ?_ (.foldl (fun s fp => ?_) _ _)
  · exact .of_same rfl rfl rfl rfl
  · split
    · exact .of_same rfl rfl rfl rfl
    · refine Still.trans ?_ (.ui _ _)
      exact .of_same rfl rfl rfl rfl

section Hooks
variable [Plugin P]

theorem onLocalPlugin_still (s : Exec X P) (nowMs : ℕ) (peer : DeviceId) (cap ty : String)
    (body : Bytes) : Still s (s.onLocalPlugin nowMs peer cap ty body) := by
  unfold onLocalPlugin
  split
  · exact .ui s _
  · rename_i idx _
    have called := callPlugin_still s idx ((s.cx nowMs).forPeerLink (s.core.bulkSupportFor peer))
      fun p cx => Plugin.onLocal p cx peer ty body
    dsimp only
    split
    · rename_i s' e heq
      rw [heq] at called
      exact called.trans (.ui _ _)
    · rename_i heq
      rw [heq] at called
      exact called

theorem routeEnvelope_still (s : Exec X P) (nowMs : ℕ) (peer : DeviceId) (env : Envelope) :
    Still s (s.routeEnvelope nowMs peer env) := by
  unfold routeEnvelope
  split
  · exact sendError_still s _ _ _
  · rename_i idx _
    have called := callPlugin_still s idx ((s.cx nowMs).forPeerLink (s.core.bulkSupportFor peer))
      fun p cx => Plugin.onMessage p cx peer env
    dsimp only
    split
    · rename_i s' e heq
      rw [heq] at called
      exact called.trans (sendError_still _ _ _ _)
    · rename_i heq
      rw [heq] at called
      exact called

omit [Plugin P] in
theorem dispatchToTransferOwner_still (s : Exec X P) (nowMs : ℕ) (t : TransferId)
    (hook : P → Cx → P × Cx) : Still s (s.dispatchToTransferOwner nowMs t hook) := by
  unfold dispatchToTransferOwner
  split
  · exact .refl s
  · exact callPlugin_still s _ _ _

theorem onEffectDone_still (s : Exec X P) (nowMs : ℕ) (token : EffectToken)
    (result : EffectResult) : Still s (s.onEffectDone nowMs token result) := by
  unfold onEffectDone
  split
  · exact .refl s
  · refine Still.trans ?_ (callPlugin_still _ _ _ _)
    exact .of_same rfl rfl rfl rfl

theorem giveUpBulk_still (s : Exec X P) (nowMs : ℕ) (t : TransferId) :
    Still s (s.giveUpBulk nowMs t) := by
  have cancelled : Still s (push { s with core.bulkWait := s.core.bulkWait.erase t }
      (.bulkCancel t)) := by
    refine Still.trans ?_ (.push _ _ rfl)
    exact .of_same rfl rfl rfl rfl
  unfold giveUpBulk
  exact (cancelled.trans (dispatchToTransferOwner_still _ _ _ _)).trans (.of_same rfl rfl rfl rfl)

theorem giveUpWaiting_still (s : Exec X P) (nowMs : ℕ) : Still s (s.giveUpWaiting nowMs) :=
  .foldl (fun s t => giveUpBulk_still s nowMs t) _ _

theorem wakePlugins_still (s : Exec X P) (nowMs : ℕ) : Still s (s.wakePlugins nowMs) := by
  unfold wakePlugins
  split
  · exact .refl s
  · split
    · exact .refl s
    · refine Still.trans ?_ (callAllPlugins_still _ _ _)
      exact .of_same rfl rfl rfl rfl

theorem lostUpLink_links (s : Exec X P) (nowMs : ℕ) (u : UpLink X) (l : LinkId) :
    Resealed s.core.links[l]? (s.lostUpLink nowMs u).core.links[l]? := by
  unfold lostUpLink
  split
  · exact .refl _
  · exact (callAllPlugins_still _ _ _).links l

end Hooks
end Exec
end Acrylius
