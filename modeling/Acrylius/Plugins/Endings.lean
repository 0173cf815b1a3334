import Acrylius.Plugins.Isolation

/-! Who learns that a transfer has ended: an entry that leaves the tables against the events
announced as it goes. -/
namespace Acrylius
open Proto Std Share

variable {X : Crates}

namespace SharePlugin

def endsTransfer (X : Crates) (t : TransferId) : UiEvent → Bool
  | .plugin _ c ty body => c = cap && (ty = "finished" || ty = "reject") &&
      (X.decode Finished body).any fun f => f.transfer = t
  | _ => false

def Leaves (p p' : SharePlugin X) (t : TransferId) : Prop :=
  (∃ i, p.offered[t]? = some i ∧ p'.offered[t]? ≠ some i) ∨
    ∃ o, p.sending[t]? = some o ∧ p'.sending[t]? ≠ some o

def OwnEnding (X : Crates) (t : TransferId) : Call → Prop
  | .request _ ty body =>
    (ty = "reject" ∨ ty = "cancel") ∧ ∃ f, X.decode Finished body = some f ∧ f.transfer = t
  | _ => False

def told (p : SharePlugin X) (τ : Turn) : List UiEvent :=
  (Plugin.call p τ.cx τ.call).2.1.ui.drop τ.cx.ui.length

def asked (p : SharePlugin X) (τ : Turn) : List BulkRequest :=
  (Plugin.call p τ.cx τ.call).2.1.bulk.drop τ.cx.bulk.length

/-- Whatever ends in this call is announced once, unless the user ended it; and a peer that is
gone ends what was under way with it, cancelling what the host had been handed. -/
structure Announces (p : SharePlugin X) (handed : TransferId → Prop) (τ : Turn) : Prop where
  endings : ∀ t, p.Leaves (Plugin.turn p τ) t →
    (p.told τ).countP (endsTransfer X t) = 1 ∨ OwnEnding X t τ.call
  session : ∀ peer, τ.call = .disconnected peer → ∀ t, p.Holds peer t →
    (p.told τ).countP (endsTransfer X t) = 1 ∧ (handed t → BulkRequest.cancel t ∈ p.asked τ)

/-- The call takes no entry out behind the user's back: no peer is lost that a transfer is under
way with, no offer is made under the number of another that is under way, and no number is
minted twice. -/
def Spares (p : SharePlugin X) (τ : Turn) : Prop :=
  match τ.call with
  | .disconnected peer => ∀ t, ¬ p.Holds peer t
  | .request peer ty body => ty = "offer" → ∀ offer, X.decode Offer body = some offer →
      offer.size ≤ maxBytes → τ.cx.peerCanCarryBulk →
      ∀ o, p.sending[offer.transfer]? = some o → o = { peer, offer }
  | .message peer env => env.ty = "offer" → τ.cx.serves .share → ∀ offer,
      X.decode Offer env.body = some offer → offer.size ≤ maxBytes → offer.name ≠ "" →
      ∀ i, p.offered[τ.cx.newTransfer.2]? = some i →
        i = { peer, offer, request := env.id, offeredAs := offer.transfer }
  | _ => True

section Leaving
variable {p p' : SharePlugin X} {t : TransferId}

theorem not_leaves_self : ¬ p.Leaves p t := by
  rintro (⟨i, hi, hne⟩ | ⟨o, ho, hne⟩)
  · exact hne hi
  · exact hne ho

/-- Only the transfer removed leaves. -/
theorem leaves_remove {t' : TransferId} (h : p.Leaves (p.remove t') t) : t = t' := by
  by_contra hne
  rcases h with ⟨i, hi, hgone⟩ | ⟨o, ho, hgone⟩
  · exact hgone ((Lib.getElem?_erase_of_ne hne).trans hi)
  · exact hgone ((Lib.getElem?_erase_of_ne hne).trans ho)

end Leaving

theorem endsTransfer_finished (peer : DeviceId) {ty : String} (h : ty = "finished" ∨ ty = "reject")
    (f : Finished) :
    endsTransfer X f.transfer (.plugin peer cap ty (X.encode f)) = true := by
  rcases h with rfl | rfl <;> simp [endsTransfer]

/-- A call that spares the entries announces whatever ends. -/
theorem Spares.announces {p : SharePlugin X} {τ : Turn} (h : p.Spares τ)
    (handed : TransferId → Prop) : p.Announces handed τ := by
  obtain ⟨cx, c⟩ := τ
  have hmove := p.call_move cx c
  refine ⟨?_, ?_⟩
  · intro t
    unfold told Plugin.turn
    dsimp only
    revert hmove
    generalize (Plugin.call p cx c).1 = p'
    generalize (Plugin.call p cx c).2.1 = cx'
    intro hmove hleaves
    -- One event at the end of the list, about the transfer that leaves.
    have once : ∀ {e : UiEvent}, endsTransfer X t e = true →
        ((cx.ui ++ [e]).drop cx.ui.length).countP (endsTransfer X t) = 1 := by
      intro e he
      simp [he]
    cases hmove with
    | idle
    | accepted
    | unsendable
    | taken
    | listening => exact (not_leaves_self hleaves).elim
    | offered ty served decoded small named =>
      rcases hleaves with ⟨i, hi, hne⟩ | ⟨o, ho, hne⟩
      · by_cases ht : t = cx.newTransfer.2
        · subst ht
          have := h ty served _ decoded small named i hi
          subst this
          exact (hne ExtTreeMap.getElem?_insert_self).elim
        · exact (hne ((Lib.getElem?_insert_of_ne ht).trans hi)).elim
      · exact (hne ho).elim
    | @rejected peer env f ty decoded ours =>
      have ht : t = f.transfer := by
        by_contra hne
        rcases hleaves with ⟨i, hi, hgone⟩ | ⟨o, ho, hgone⟩
        · exact hgone hi
        · exact hgone ((Lib.getElem?_erase_of_ne hne).trans ho)
      subst ht
      exact .inl (once (endsTransfer_finished peer (.inr rfl) f))
    | @finished peer env f transfer ty decoded about =>
      obtain rfl := leaves_remove hleaves
      exact .inl (once (endsTransfer_finished peer (.inl rfl) { f with transfer := t }))
    | disconnected peer =>
      have kept := fun t => h t
      rcases hleaves with ⟨i, hi, hgone⟩ | ⟨o, ho, hgone⟩
      · refine (hgone (Lib.getElem?_filter_eq_some.mpr ⟨hi, ?_⟩)).elim
        simp only [decide_eq_true_eq]
        exact fun hp => kept t (.inl ⟨i, hi, hp⟩)
      · refine (hgone (Lib.getElem?_filter_eq_some.mpr ⟨ho, ?_⟩)).elim
        simp only [decide_eq_true_eq]
        exact fun hp => kept t (.inr ⟨o, ho, hp⟩)
    | @sent peer body offer decoded small link =>
      rcases hleaves with ⟨i, hi, hne⟩ | ⟨o, ho, hne⟩
      · exact (hne hi).elim
      · by_cases ht : t = offer.transfer
        · subst ht
          have := h rfl offer decoded small link o ho
          subst this
          exact (hne ExtTreeMap.getElem?_insert_self).elim
        · exact (hne ((Lib.getElem?_insert_of_ne ht).trans ho)).elim
    | @declined peer body f incoming decoded ours =>
      refine .inr ⟨.inl rfl, f, decoded, ?_⟩
      by_contra hne
      rcases hleaves with ⟨i, hi, hgone⟩ | ⟨o, ho, hgone⟩
      · exact hgone ((Lib.getElem?_erase_of_ne (Ne.symm hne)).trans hi)
      · exact hgone ho
    | @cancelled peer body f decoded =>
      exact .inr ⟨.inr rfl, f, decoded, (leaves_remove hleaves).symm⟩
    | @ended t' ok detail peer ours =>
      obtain rfl := leaves_remove hleaves
      exact .inl (once (endsTransfer_finished peer (.inl rfl) ⟨t, ok, detail⟩))
  · rintro peer hc t ht
    dsimp only at hc
    subst hc
    exact (h t ht).elim

/-- A call that announces whatever ends spares the entries. -/
theorem Announces.spares {p : SharePlugin X} {τ : Turn} {handed : TransferId → Prop}
    (h : p.Announces handed τ) : p.Spares τ := by
  obtain ⟨cx, c⟩ := τ
  cases c with
  | disconnected peer =>
    intro t ht
    have hone := (h.session peer rfl t ht).1
    have hnone : p.told ⟨cx, .disconnected peer⟩ = [] := List.drop_length ..
    rw [hnone] at hone
    cases hone
  | request peer ty body =>
    rintro rfl offer decoded small link o ho
    by_contra hne
    have hcall : Plugin.call p cx (.request peer "offer" body) =
        ({ p with sending := p.sending.insert offer.transfer { peer, offer } },
          cx.send peer cap "offer" body, .ok ()) := by
      have hlink : cx.peerCanCarryBulk = true := link
      simp only [Plugin.call, Plugin.onLocal, onLocal, localOffer, decoded,
        if_neg (Nat.not_lt.mpr small), hlink, Bool.not_true, Bool.false_eq_true, if_false]
    have hleaves : p.Leaves (Plugin.turn p ⟨cx, .request peer "offer" body⟩) offer.transfer := by
      refine .inr ⟨o, ho, ?_⟩
      simp only [Plugin.turn, hcall, ExtTreeMap.getElem?_insert_self]
      exact fun he => hne (Option.some.inj he).symm
    rcases h.endings _ hleaves with hone | ⟨hty, -⟩
    · simp only [told, hcall, Cx.send, List.drop_length, List.countP_nil] at hone
      cases hone
    · simp at hty
  | message peer env =>
    rintro hty served offer decoded small named i hi
    by_contra hne
    have hserved : cx.serves .share = true := served
    have hcall : Plugin.call p cx (.message peer env) =
        ({ p with offered := p.offered.insert cx.newTransfer.2 ⟨peer, offer, env.id, offer.transfer⟩ },
          announce X cx.newTransfer.1 peer "offer" { offer with transfer := cx.newTransfer.2 },
          .ok ()) := by
      simp only [Plugin.call, Plugin.onMessage, onMessage, hty, onOffer, hserved, Bool.not_true,
        Bool.false_eq_true, if_false, decoded, if_neg (Nat.not_lt.mpr small), if_neg named]
    have hleaves : p.Leaves (Plugin.turn p ⟨cx, .message peer env⟩) cx.newTransfer.2 := by
      refine .inl ⟨i, hi, ?_⟩
      simp only [Plugin.turn, hcall, ExtTreeMap.getElem?_insert_self]
      exact fun he => hne (Option.some.inj he).symm
    rcases h.endings _ hleaves with hone | hown
    · have htold : p.told ⟨cx, .message peer env⟩ =
          [.plugin peer cap "offer" (X.encode { offer with transfer := cx.newTransfer.2 })] := by
        simp only [told, hcall, announce, Cx.emit, Cx.newTransfer, List.drop_left]
      rw [htold] at hone
      simp [endsTransfer] at hone
    · exact hown
  | connected
  | effectResult
  | bulkListening
  | bulkFinished
  | tick => trivial

/-- Over every run of calls: every ending is announced exactly when no call takes an entry out
behind the user's back. -/
theorem endings_are_announced_iff (handed : TransferId → Prop) (τs : List Turn) :
    Lib.Along Plugin.turn (fun p τ => p.Announces handed τ) (SharePlugin.default X) τs ↔
      Lib.Along Plugin.turn Spares (SharePlugin.default X) τs :=
  Lib.Along.congr fun _ _ => ⟨Announces.spares, fun h => h.announces handed⟩

/-- A picture the host was told to send, whose receiver goes away in the middle: nobody is told
and nothing is cancelled. -/
theorem lost_peer_is_not_announced :
    let cx := (Cx.new 0 0 0 (EffectSet.new [.share])).forPeerLink (some .sideChannel)
    let picture : Offer := ⟨1, "cat.jpg", 3, "image/jpeg"⟩
    let yes : Accept := ⟨1, "192.168.1.2:4000"⟩
    ¬ Lib.Along Plugin.turn (fun p τ => p.Announces (· = 1) τ) (SharePlugin.default Mock.crates)
      [⟨cx, .request Mock.phone "offer" (Mock.crates.encode picture)⟩,
        ⟨cx, .message Mock.phone ⟨wireVersion, 1, none, cap, "accept", Mock.crates.encode yes, 0,
          none⟩⟩,
        ⟨cx, .disconnected Mock.phone⟩] := by
  rintro cx picture yes ⟨-, -, h, -⟩
  exact h.spares 1 (.inr ⟨⟨Mock.phone, picture⟩, by decide +kernel, rfl⟩)

end SharePlugin
end Acrylius
