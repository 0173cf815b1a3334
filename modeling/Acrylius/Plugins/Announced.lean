import Acrylius.Plugins.Builtin
import Acrylius.Plugins.Outcomes
import Acrylius.Core.Rounds

/-! The offers that reach the screen: every plugin speaks there under its own capability, so an
event that reads as an offer is the share plugin's, about an offer it has just taken in. -/
namespace Acrylius
open Proto Std Share

variable {X : Crates}

/-- The clock a plugin sees, and the wake-up and the channels it asks for. -/
def Cx.asked (cx : Cx) : ℕ × Option ℕ × List BulkRequest := (cx.nowMs, cx.wakeAt, cx.bulk)

/-- A call asks for no wake-up and no channel, and what it puts on the screen it puts there under
this capability. -/
structure Cx.Under (c : String) (cx cx' : Cx) : Prop where
  asked : cx'.asked = cx.asked
  tells : ∃ es, cx'.ui = cx.ui ++ es ∧ ∀ e ∈ es, ∃ peer ty body, e = .plugin peer c ty body

namespace Cx.Under
variable {c : String} {cx cx' : Cx}

theorem same (h : cx'.ui = cx.ui) (asked : cx'.asked = cx.asked) : cx.Under c cx' := by
  refine ⟨asked, [], ?_, ?_⟩
  · rw [h, List.append_nil]
  · intro e he
    cases he

theorem emit (cx : Cx) (peer : DeviceId) (ty : String) (body : Bytes) :
    cx.Under c (cx.emit (.plugin peer c ty body)) := by
  refine ⟨rfl, _, rfl, ?_⟩
  intro e he
  rw [List.mem_singleton.mp he]
  exact ⟨peer, ty, body, rfl⟩

theorem effect (h : cx.Under c cx') (e : Effect) : cx.Under c (cx'.effect e).1 := ⟨h.asked, h.tells⟩

theorem sendReply (h : cx.Under c cx') (peer : DeviceId) (ty : String) (body : Bytes)
    (re : UInt32) : cx.Under c (cx'.sendReply peer c ty body re) := ⟨h.asked, h.tells⟩

theorem tell (peers : List DeviceId) (alreadyTold : Option DeviceId) (ty : String) (body : Bytes) :
    cx.Under c (cx.tell peers alreadyTold c ty body) := by
  rw [Cx.tell_eq]
  exact same rfl rfl

end Cx.Under

section Others
variable (cx : Cx)

theorem PingPlugin.call_under (p : PingPlugin X) (c : Call) :
    cx.Under Ping.cap (Plugin.call p cx c).2.1 := by
  cases c with
  | message peer env =>
    show cx.Under _ (p.onMessage cx peer env).2.1
    unfold onMessage
    split
    · exact .same rfl rfl
    · exact .emit _ _ _ _
    · exact .same rfl rfl
  | request peer ty body =>
    show cx.Under _ (p.onLocal cx peer ty body).2.1
    unfold onLocal
    split
    · exact .same rfl rfl
    · exact .same rfl rfl
  | _ => exact .same rfl rfl

theorem TouchpadPlugin.call_under (p : TouchpadPlugin X) (c : Call) :
    cx.Under Touchpad.cap (Plugin.call p cx c).2.1 := by
  cases c with
  | message peer env =>
    show cx.Under _ (p.onMessage cx peer env).2.1
    unfold onMessage
    split
    · exact .emit _ _ _ _
    · split
      · exact .same rfl rfl
      · split
        · exact .same rfl rfl
        · exact .same rfl rfl
  | request peer ty body =>
    show cx.Under _ (p.onLocal cx peer ty body).2.1
    unfold onLocal
    split
    · exact .same rfl rfl
    · exact .same rfl rfl
    · exact .same rfl rfl
    · exact .same rfl rfl
  | connected peer =>
    show cx.Under _ (p.onPeerConnected cx peer).2
    unfold onPeerConnected
    dsimp only
    split
    · exact .same rfl rfl
    · exact .same rfl rfl
  | disconnected peer =>
    show cx.Under _ (p.onPeerDisconnected cx peer).2
    unfold onPeerDisconnected
    split
    · exact .same rfl rfl
    · exact .same rfl rfl
  | _ => exact .same rfl rfl

theorem WolPlugin.call_under (p : WolPlugin X) (c : Call) :
    cx.Under Wol.cap (Plugin.call p cx c).2.1 := by
  cases c with
  | message peer env =>
    show cx.Under _ (p.onMessage cx peer env).2.1
    unfold onMessage
    split
    · exact .emit _ _ _ _
    · exact .emit _ _ _ _
    · exact .emit _ _ _ _
    · unfold onRelay
      split
      · exact .same rfl rfl
      · dsimp only
        split_ifs
        · exact .same rfl rfl
        · exact .same rfl rfl
        · exact .same rfl rfl
    · exact .same rfl rfl
  | request peer ty body =>
    show cx.Under _ (p.onLocal cx peer ty body).2.1
    unfold onLocal
    split
    · exact .same rfl rfl
    · exact .same rfl rfl
  | connected peer =>
    show cx.Under _ (p.onPeerConnected cx peer).2
    unfold onPeerConnected
    dsimp only
    split
    · exact .same rfl rfl
    · exact .same rfl rfl
  | effectResult token result =>
    show cx.Under _ (p.onEffectResult cx token result).2
    unfold onEffectResult
    split
    · exact .same rfl rfl
    · cases result with
      | _ => exact .same rfl rfl
  | _ => exact .same rfl rfl

theorem CommandPlugin.call_under (p : CommandPlugin X) (c : Call) :
    cx.Under Command.cap (Plugin.call p cx c).2.1 := by
  cases c with
  | message peer env =>
    show cx.Under _ (p.onMessage cx peer env).2.1
    unfold onMessage
    split
    · unfold onRun
      split
      · exact .same rfl rfl
      · split
        · exact .same rfl rfl
        · exact .same rfl rfl
    · exact .emit _ _ _ _
    · exact .emit _ _ _ _
    · exact .emit _ _ _ _
    · exact .emit _ _ _ _
    · exact .emit _ _ _ _
    · exact .same rfl rfl
  | request peer ty body =>
    show cx.Under _ (p.onLocal cx peer ty body).2.1
    unfold onLocal
    split
    · exact .same rfl rfl
    · exact .emit _ _ _ _
    · exact .same rfl rfl
  | connected peer =>
    show cx.Under _ (p.onPeerConnected cx peer).2
    unfold onPeerConnected
    dsimp only
    split
    · exact .same rfl rfl
    · exact .same rfl rfl
  | effectResult token result =>
    show cx.Under _ (p.onEffectResult cx token result).2
    unfold onEffectResult
    split
    · exact .same rfl rfl
    · cases result with
      | _ => exact .same rfl rfl
  | _ => exact .same rfl rfl

theorem ClipboardPlugin.offer_under (p : ClipboardPlugin X) (body : Bytes) (deliberate : Bool) :
    cx.Under Clipboard.cap (p.offer cx body deliberate).2.1 := by
  unfold offer
  split
  · exact .same rfl rfl
  · split
    · exact .same rfl rfl
    · split
      · exact .same rfl rfl
      · exact .tell _ _ _ _

theorem ClipboardPlugin.call_under (p : ClipboardPlugin X) (c : Call) :
    cx.Under Clipboard.cap (Plugin.call p cx c).2.1 := by
  cases c with
  | message peer env =>
    show cx.Under _ (p.onMessage cx peer env).2.1
    unfold onMessage
    split
    · split
      · unfold onAnswer
        split
        · exact .same rfl rfl
        · split_ifs
          · exact .same rfl rfl
          · exact .same rfl rfl
          · exact .emit _ _ _ _
      · unfold onSet
        split
        · exact .same rfl rfl
        · split_ifs
          · exact .same rfl rfl
          · exact .same rfl rfl
          · exact .same rfl rfl
          · exact .same rfl rfl
          · exact (Cx.Under.emit cx _ _ _).effect _
    · exact .same rfl rfl
    · exact .same rfl rfl
  | request peer ty body =>
    show cx.Under _ (p.onLocal cx peer ty body).2.1
    unfold onLocal
    split
    · exact p.offer_under cx body false
    · exact p.offer_under cx body true
    · exact .same rfl rfl
    · exact .same rfl rfl
  | effectResult token result =>
    show cx.Under _ (p.onEffectResult cx token result).2
    unfold onEffectResult
    split
    · exact .same rfl rfl
    · exact .same rfl rfl
    · cases result with
      | _ => exact .same rfl rfl
  | _ => exact .same rfl rfl

theorem MediaPlugin.refresh_under (p : MediaPlugin X) (state : Media.MediaState)
    (alreadyTold : Option DeviceId) : cx.Under Media.cap (p.refresh cx state alreadyTold).2 := by
  unfold refresh
  dsimp only
  split
  · exact .tell _ _ _ _
  · exact .same rfl rfl

theorem MediaPlugin.call_under (p : MediaPlugin X) (c : Call) :
    cx.Under Media.cap (Plugin.call p cx c).2.1 := by
  cases c with
  | message peer env =>
    show cx.Under _ (p.onMessage cx peer env).2.1
    unfold onMessage
    split
    · exact .same rfl rfl
    · exact .emit _ _ _ _
    · split
      · exact .same rfl rfl
      · split
        · exact .same rfl rfl
        · exact .same rfl rfl
  | request peer ty body =>
    show cx.Under _ (p.onLocal cx peer ty body).2.1
    unfold onLocal
    split
    · exact .same rfl rfl
    · exact .same rfl rfl
    · split
      · exact .same rfl rfl
      · split
        · exact .same rfl rfl
        · exact .same rfl rfl
  | connected peer =>
    show cx.Under _ (p.onPeerConnected cx peer).2
    unfold onPeerConnected
    dsimp only
    split
    · exact .same rfl rfl
    · exact .same rfl rfl
  | effectResult token result =>
    show cx.Under _ (p.onEffectResult cx token result).2
    unfold onEffectResult
    split
    · exact .same rfl rfl
    · unfold answer
      split
      · split
        · exact .same rfl rfl
        · exact .same rfl rfl
        · exact refresh_under cx _ _ _
        · exact (refresh_under cx _ _ _).sendReply _ _ _ _
      · exact .same rfl rfl
      · exact .same rfl rfl
      · exact .same rfl rfl
      · exact .same rfl rfl
  | _ => exact .same rfl rfl

theorem SessionPlugin.refresh_under (p : SessionPlugin X) (state : SessionLock.SessionState)
    (alreadyTold : Option DeviceId) :
    cx.Under SessionLock.cap (p.refresh cx state alreadyTold).2 := by
  unfold refresh
  split
  · exact .same rfl rfl
  · exact .tell _ _ _ _

theorem SessionPlugin.call_under (p : SessionPlugin X) (c : Call) :
    cx.Under SessionLock.cap (Plugin.call p cx c).2.1 := by
  cases c with
  | message peer env =>
    show cx.Under _ (p.onMessage cx peer env).2.1
    unfold onMessage
    split
    · exact .same rfl rfl
    · exact .same rfl rfl
    · exact .same rfl rfl
    · exact .emit _ _ _ _
    · exact .emit _ _ _ _
    · exact .same rfl rfl
  | request peer ty body =>
    show cx.Under _ (p.onLocal cx peer ty).2.1
    unfold onLocal
    split
    · exact .same rfl rfl
    · exact .same rfl rfl
    · exact .same rfl rfl
    · exact .same rfl rfl
    · exact .same rfl rfl
  | connected peer =>
    show cx.Under _ (p.onPeerConnected cx peer).2
    unfold onPeerConnected
    dsimp only
    split
    · exact .same rfl rfl
    · exact .same rfl rfl
  | effectResult token result =>
    show cx.Under _ (p.onEffectResult cx token result).2
    unfold onEffectResult
    split
    · exact .same rfl rfl
    · unfold answer
      split
      · split
        · exact refresh_under cx _ _ _
        · exact .same rfl rfl
      · rename_i bytes _
        cases X.decode SessionLock.SessionState bytes with
        | some state =>
          exact (refresh_under cx { p with pending := p.pending.erase token } _ _).sendReply _ _ _ _
        | none => exact .same rfl rfl
      · exact .same rfl rfl
      · exact .same rfl rfl
      · exact .same rfl rfl
      · exact .same rfl rfl
      · exact .same rfl rfl
  | _ => exact .same rfl rfl

end Others

def UiEvent.offered (X : Crates) : UiEvent → Option (DeviceId × Offer)
  | .plugin peer c ty body =>
    if c = cap ∧ ty = "offer" then (X.decode Offer body).map (peer, ·) else none
  | _ => none

theorem heeds_offered : Heeds (UiEvent.offered X) := by
  intro e he
  cases e with
  | plugin peer c ty body =>
    refine ⟨peer, c, ty, body, rfl, ?_⟩
    rintro rfl
    simp [UiEvent.offered] at he
  | _ => simp [UiEvent.offered] at he

/-- Under any other capability there are no offers. -/
theorem Cx.Under.offered {c : String} {cx cx' : Cx} (h : cx.Under c cx') (hc : c ≠ cap) :
    cx'.ui.filterMap (UiEvent.offered X) = cx.ui.filterMap (UiEvent.offered X) := by
  obtain ⟨es, hui, hes⟩ := h.tells
  have hnone : es.filterMap (UiEvent.offered X) = [] := by
    rw [List.filterMap_eq_nil_iff]
    intro e he
    obtain ⟨peer, ty, body, rfl⟩ := hes e he
    exact if_neg fun h => hc h.1
  rw [hui, List.filterMap_append, hnone, List.append_nil]

namespace SharePlugin

def Has (p : SharePlugin X) (e : DeviceId × Offer) : Prop :=
  ∃ i, p.offered[e.2.transfer]? = some i ∧ i.peer = e.1 ∧
    { i.offer with transfer := e.2.transfer } = e.2

theorem call_offered (p : SharePlugin X) (cx : Cx) (c : Call) {e : DeviceId × Offer}
    (he : e ∈ (Plugin.call p cx c).2.1.ui.filterMap (UiEvent.offered X)) :
    e ∈ cx.ui.filterMap (UiEvent.offered X) ∨
      (∃ peer env, c = .message peer env) ∧ (Plugin.call p cx c).1.Has e := by
  have hmove := p.call_move cx c
  revert hmove he
  generalize (Plugin.call p cx c).1 = p'
  generalize (Plugin.call p cx c).2.1 = cx'
  intro he hmove
  have told : ∀ (cx' : Cx) (e' : UiEvent), e'.offered X = none →
      (cx'.emit e').ui.filterMap (UiEvent.offered X) = cx'.ui.filterMap (UiEvent.offered X) := by
    intro cx' e' hnone
    show (cx'.ui ++ [e']).filterMap _ = _
    rw [List.filterMap_append, List.filterMap_cons, hnone]
    exact List.append_nil _
  have other : ∀ (peer : DeviceId) (ty : String) (body : Bytes), ty ≠ "offer" →
      UiEvent.offered X (.plugin peer cap ty body) = none := by
    intro peer ty body hty
    exact if_neg fun h => hty h.2
  cases hmove with
  | @offered peer env offer ty served decoded small named =>
    have he' : e ∈ (cx.ui ++ [UiEvent.plugin peer cap "offer"
        (X.encode { offer with transfer := cx.newTransfer.2 })]).filterMap
          (UiEvent.offered X) := he
    rw [List.filterMap_append, List.mem_append] at he'
    rcases he' with hold | hnew
    · exact .inl hold
    · have heq : e = (peer, { offer with transfer := cx.newTransfer.2 }) := by
        simpa [UiEvent.offered] using hnew
      rw [heq]
      exact .inr ⟨⟨peer, env, rfl⟩, _, ExtTreeMap.getElem?_insert_self, rfl, rfl⟩
  | rejected ty decoded ours =>
    rw [announce, told _ _ (other _ _ _ (by decide))] at he
    exact .inl he
  | finished ty decoded about =>
    rw [announce, told _ _ (other _ _ _ (by decide))] at he
    exact .inl he
  | unsendable decoded link =>
    rw [announce, told _ _ (other _ _ _ (by decide)), told _ _ rfl] at he
    exact .inl he
  | ended ours =>
    rw [announce, told _ _ (other _ _ _ (by decide))] at he
    exact .inl he
  | _ => exact .inl he

end SharePlugin

namespace Builtin

def isShare : Builtin X → Bool
  | .share _ => true
  | _ => false

theorem eq_share (b : Builtin X) (h : b.isShare) : ∃ p, b = .share p := by
  cases b with
  | share p => exact ⟨p, rfl⟩
  | _ => cases h

theorem handles_share (b : Builtin X) : handles (Plugin.manifest b) Share.cap = b.isShare := by
  cases b <;> rfl

theorem handles_of_share (p : SharePlugin X) {c : String}
    (h : handles (Plugin.manifest (Builtin.share p)) c) : c = Share.cap := by
  have hmem : (c ∈ [Share.cap] || c ∈ [Share.cap]) = true := h
  simpa using hmem

theorem call_share (p : SharePlugin X) (cx : Cx) (c : Call) :
    Plugin.call (Builtin.share p) cx c =
      (.share (Plugin.call p cx c).1, (Plugin.call p cx c).2) := by
  cases c <;> rfl

theorem call_isShare (b : Builtin X) (cx : Cx) (c : Call) :
    (Plugin.call b cx c).1.isShare = b.isShare := by
  cases b <;> cases c <;> rfl

/-- Every built-in plugin but the share plugin keeps to a capability of its own. -/
theorem call_under (b : Builtin X) (cx : Cx) (c : Call) (h : b.isShare = false) :
    ∃ own, own ≠ Share.cap ∧ cx.Under own (Plugin.call b cx c).2.1 := by
  have boxed {P : Type} [Plugin P] {p : P} {own : String}
      (hunder : cx.Under own (Plugin.call p cx c).2.1) (hown : own ≠ Share.cap)
      (hsame : (Plugin.call b cx c).2.1 = (Plugin.call p cx c).2.1) :
      ∃ own, own ≠ Share.cap ∧ cx.Under own (Plugin.call b cx c).2.1 := by
    rw [hsame]
    exact ⟨own, hown, hunder⟩
  cases b with
  | share p => cases h
  | clipboard p => exact boxed (p.call_under cx c) (by decide) (by cases c <;> rfl)
  | command p => exact boxed (p.call_under cx c) (by decide) (by cases c <;> rfl)
  | media p => exact boxed (p.call_under cx c) (by decide) (by cases c <;> rfl)
  | ping p => exact boxed (p.call_under cx c) (by decide) (by cases c <;> rfl)
  | session p => exact boxed (p.call_under cx c) (by decide) (by cases c <;> rfl)
  | touchpad p => exact boxed (p.call_under cx c) (by decide) (by cases c <;> rfl)
  | wol p => exact boxed (p.call_under cx c) (by decide) (by cases c <;> rfl)

/-- A call of a built-in plugin shows no offer, unless it is the share plugin that takes one in. -/
theorem call_offered (b : Builtin X) (cx : Cx) (c : Call) {e : DeviceId × Offer}
    (he : e ∈ (Plugin.call b cx c).2.1.ui.filterMap (UiEvent.offered X)) :
    e ∈ cx.ui.filterMap (UiEvent.offered X) ∨ (∃ peer env, c = .message peer env) ∧
      ∃ p, (Plugin.call b cx c).1 = .share p ∧ p.Has e := by
  by_cases hshare : b.isShare
  · obtain ⟨p, rfl⟩ := b.eq_share hshare
    rw [call_share] at he ⊢
    rcases p.call_offered cx c he with hold | ⟨hmessage, hhas⟩
    · exact .inl hold
    · exact .inr ⟨hmessage, _, rfl, hhas⟩
  · obtain ⟨own, hown, hunder⟩ := b.call_under cx c (Bool.of_not_eq_true hshare)
    rw [hunder.offered hown] at he
    exact .inl he

end Builtin
end Acrylius
