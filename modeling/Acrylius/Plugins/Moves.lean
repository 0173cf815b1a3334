import Acrylius.Plugins.Share
import Acrylius.Core.Channels

/-! What a call of the share plugin can do: one case for each way through its handlers. -/
namespace Acrylius
open Proto Std Share

variable {X : Crates}

namespace SharePlugin

/-- What the handlers make of a call: the plugin and the context they leave. -/
inductive Move (p : SharePlugin X) (cx : Cx) : Call → SharePlugin X → Cx → Prop where
  | idle (c : Call) : Move p cx c p cx
  | offered {peer env offer} (ty : env.ty = "offer") (served : cx.serves .share)
      (decoded : X.decode Offer env.body = some offer) (small : offer.size ≤ maxBytes)
      (named : offer.name ≠ "") :
      Move p cx (.message peer env)
        { p with
          offered := p.offered.insert cx.newTransfer.2
            { peer, offer, request := env.id, offeredAs := offer.transfer } }
        (announce X cx.newTransfer.1 peer "offer" { offer with transfer := cx.newTransfer.2 })
  | accepted {peer env accept} (ty : env.ty = "accept")
      (decoded : X.decode Accept env.body = some accept)
      (ours : p.isSendingTo peer accept.transfer) :
      Move p cx (.message peer env) p (cx.bulkSend peer accept.transfer accept.endpoint)
  | rejected {peer env f} (ty : env.ty = "reject") (decoded : X.decode Finished env.body = some f)
      (ours : p.isSendingTo peer f.transfer) :
      Move p cx (.message peer env) { p with sending := p.sending.erase f.transfer }
        (announce X cx peer "reject" f)
  | finished {peer env f transfer} (ty : env.ty = "finished")
      (decoded : X.decode Finished env.body = some f)
      (about : p.finishing peer f.transfer = some transfer) :
      Move p cx (.message peer env) (p.remove transfer)
        (announce X cx peer "finished" { f with transfer })
  | disconnected (peer : DeviceId) :
      Move p cx (.disconnected peer) (p.onPeerDisconnected cx peer).1 cx
  | unsendable {peer body offer detail} (decoded : X.decode Offer body = some offer)
      (link : cx.peerCanCarryBulk = false) :
      Move p cx (.request peer "offer" body) p
        (announce X (cx.emit (.error (some peer) .notAllowed detail)) peer "reject"
          ({ transfer := offer.transfer, ok := false, detail := "this link cannot carry files" } :
            Finished))
  | sent {peer body offer} (decoded : X.decode Offer body = some offer)
      (small : offer.size ≤ maxBytes) (link : cx.peerCanCarryBulk) :
      Move p cx (.request peer "offer" body)
        { p with sending := p.sending.insert offer.transfer { peer, offer } }
        (cx.send peer cap "offer" body)
  | taken {peer body f incoming} (decoded : X.decode Finished body = some f)
      (ours : p.offered[f.transfer]? = some incoming) :
      Move p cx (.request peer "accept" body) p
        (cx.bulkListen incoming.peer f.transfer incoming.offeredAs incoming.offer.size)
  | declined {peer body f incoming} (decoded : X.decode Finished body = some f)
      (ours : p.offered[f.transfer]? = some incoming) :
      Move p cx (.request peer "reject" body) { p with offered := p.offered.erase f.transfer }
        (cx.sendReply incoming.peer cap "reject"
          (X.encode { f with transfer := incoming.offeredAs }) incoming.request)
  | cancelled {peer body f} (decoded : X.decode Finished body = some f) :
      Move p cx (.request peer "cancel" body) (p.remove f.transfer)
        ((cx.bulkCancel f.transfer).send peer cap "finished"
          (X.encode { f with transfer := p.asThePeerNumbersIt f.transfer }))
  | listening {t endpoint incoming} (ours : p.offered[t]? = some incoming) :
      Move p cx (.bulkListening t endpoint) p (cx.sendReply incoming.peer cap "accept"
        (X.encode ({ transfer := incoming.offeredAs, endpoint } : Accept)) incoming.request)
  | ended {t ok detail peer} (ours : p.partner t = some peer) :
      Move p cx (.bulkFinished t ok detail) (p.remove t)
        (announce X
          (cx.send peer cap "finished" (X.encode (⟨p.asThePeerNumbersIt t, ok, detail⟩ : Finished)))
          peer "finished" (⟨t, ok, detail⟩ : Finished))

variable (p : SharePlugin X) (cx : Cx)

theorem partner_eq_none {t : TransferId} (h : p.partner t = none) :
    p.offered[t]? = none ∧ p.sending[t]? = none := by
  unfold partner at h
  cases ho : p.offered[t]? with
  | some i => simp [ho] at h
  | none =>
    cases hs : p.sending[t]? with
    | some o => simp [ho, hs] at h
    | none => exact ⟨rfl, rfl⟩

theorem remove_of_partner {t : TransferId} (h : p.partner t = none) : p.remove t = p := by
  obtain ⟨ho, hs⟩ := p.partner_eq_none h
  simp [remove, Lib.erase_of_none ho, Lib.erase_of_none hs]

theorem message_move (peer : DeviceId) (env : Envelope) :
    Move p cx (.message peer env) (p.onMessage cx peer env).1 (p.onMessage cx peer env).2.1 := by
  unfold onMessage
  split
  · rename_i hty
    unfold onOffer
    split
    · exact .idle _
    · rename_i hserved
      split
      · exact .idle _
      · rename_i offer hdec
        split
        · exact .idle _
        · rename_i hsmall
          split
          · exact .idle _
          · exact .offered hty (by simpa using hserved) hdec (Nat.le_of_not_lt hsmall) ‹_›
  · rename_i hty
    unfold onAccept
    split
    · exact .idle _
    · rename_i accept hdec
      split
      · exact .idle _
      · rename_i hours
        exact .accepted hty hdec (by simpa using hours)
  · rename_i hty
    unfold onReject
    split
    · exact .idle _
    · rename_i f hdec
      split
      · exact .idle _
      · rename_i hours
        exact .rejected hty hdec (by simpa using hours)
  · rename_i hty
    unfold onFinished
    split
    · exact .idle _
    · rename_i f hdec
      split
      · exact .idle _
      · rename_i transfer habout
        exact .finished hty hdec habout
  · exact .idle _

theorem request_move (peer : DeviceId) (ty : String) (body : Bytes) :
    Move p cx (.request peer ty body) (p.onLocal cx peer ty body).1
      (p.onLocal cx peer ty body).2.1 := by
  unfold onLocal
  split
  · unfold localOffer
    split
    · exact .idle _
    · rename_i offer hdec
      split
      · exact .idle _
      · rename_i hsmall
        split
        · rename_i hlink
          exact .unsendable hdec (by simpa using hlink)
        · rename_i hlink
          exact .sent hdec (Nat.le_of_not_lt hsmall) (by simpa using hlink)
  · unfold localAccept
    split
    · exact .idle _
    · rename_i f hdec
      split
      · exact .idle _
      · exact .taken hdec ‹_›
  · unfold localReject
    split
    · exact .idle _
    · rename_i f hdec
      split
      · exact .idle _
      · exact .declined hdec ‹_›
  · unfold localCancel
    split
    · exact .idle _
    · exact .cancelled ‹_›
  · exact .idle _

theorem call_move (c : Call) :
    Move p cx c (Plugin.call p cx c).1 (Plugin.call p cx c).2.1 := by
  cases c with
  | message peer env => exact p.message_move cx peer env
  | request peer ty body => exact p.request_move cx peer ty body
  | connected
  | effectResult
  | tick => exact .idle _
  | disconnected peer => exact .disconnected peer
  | bulkListening t endpoint =>
    change Move p cx _ (p.onBulkListening cx t endpoint).1 (p.onBulkListening cx t endpoint).2
    unfold onBulkListening
    split
    · exact .idle _
    · exact .listening ‹_›
  | bulkFinished t ok detail =>
    change Move p cx _ (p.onBulkFinished cx t ok detail).1 (p.onBulkFinished cx t ok detail).2
    unfold onBulkFinished
    dsimp only
    split
    · rename_i hnone
      rw [p.remove_of_partner hnone]
      exact .idle _
    · exact .ended ‹_›

end SharePlugin

theorem SharePlugin.call_shows (p : SharePlugin X) (cx : Cx) (c : Call) :
    ∃ es, (Plugin.call p cx c).2.1.ui = cx.ui ++ es ∧ ∀ e ∈ es, e.own := by
  have one : ∀ (cx : Cx) (e : UiEvent), e.own → ∃ es, (cx.emit e).ui = cx.ui ++ es ∧
      ∀ e ∈ es, e.own := by
    intro cx e hown
    refine ⟨[e], rfl, fun e' he => ?_⟩
    rwa [List.mem_singleton.mp he]
  have hmove := p.call_move cx c
  revert hmove
  generalize (Plugin.call p cx c).1 = p'
  generalize (Plugin.call p cx c).2.1 = cx'
  intro hmove
  cases hmove
  case unsendable =>
    refine ⟨[_, _], List.append_assoc _ _ _, fun e he => ?_⟩
    rcases List.mem_cons.mp he with rfl | he
    · rfl
    · rw [List.mem_singleton.mp he]
      rfl
  case offered | rejected | finished | ended => exact one _ _ rfl
  all_goals exact ⟨[], (List.append_nil _).symm, by simp⟩

end Acrylius
