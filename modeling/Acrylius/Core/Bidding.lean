import Acrylius.Core.Bids
import Acrylius.Core.Gate

/-! The core's steps, as far as pairing can tell, are the moves of `Bid.apply`. -/
namespace Acrylius
open Proto Std

variable {X : Crates} {P : Type}

namespace Exec

section Pieces
variable (s : Exec X P) (l : LinkId)

theorem push_pairs {a : Action} (h : a.isPairFrame = false) : (s.push a).pairs = s.pairs := by
  simp [pairs, push, h]

theorem ui_pairs (e : UiEvent) : (s.ui e).pairs = s.pairs := s.push_pairs rfl

theorem sendPair_pairs (m : Bytes) :
    (s.push (.linkSend l (Frame.join .pairHandshake m))).pairs = { s.pairs with spoke := true } := by
  simp [pairs, push, Action.isPairFrame]

theorem unlink_pairs : (s.unlink l).pairs = s.pairs.drop l := by
  have hshaking : (s.unlink l).pairs.shaking = (s.pairs.drop l).shaking := by
    funext l'
    by_cases hl : l' = l
    · subst hl
      simp [pairs, unlink, Pairs.drop]
    · simp [pairs, unlink, Pairs.drop, hl, Lib.getElem?_erase_of_ne hl]
  exact Pairs.ext rfl rfl rfl hshaking rfl

theorem insertLink_pairs (st : LinkState X) : (s.insertLink l st).pairs =
    { s.pairs with shaking := Function.update s.pairs.shaking l st.pairDeadline } := by
  have hshaking : (s.insertLink l st).pairs.shaking =
      Function.update s.pairs.shaking l st.pairDeadline := by
    funext l'
    by_cases hl : l' = l
    · subst hl
      simp [pairs, insertLink]
    · simp [pairs, insertLink, hl, Lib.getElem?_insert_of_ne hl]
  exact Pairs.ext rfl rfl rfl hshaking rfl

theorem failLink_pairs (detail : String) : (s.failLink l detail).pairs = s.pairs.drop l := by
  unfold failLink
  dsimp only
  rw [ui_pairs, push_pairs _ rfl]
  exact s.unlink_pairs l

end Pieces

end Exec

theorem LinkDrift.pairDeadline {b : Bool} {x y : Option (LinkState X)} {fs : List Bytes}
    (h : LinkDrift b x fs y) : y.bind LinkState.pairDeadline = x.bind LinkState.pairDeadline := by
  cases h <;> rfl

/-- A stretch that gains or loses no link and decides nothing leaves pairing where it was. -/
theorem Stir.pairs {s t : Exec X P} (h : Stir s t) : t.pairs = s.pairs := by
  obtain ⟨htrust, as, hist, hact, -, -, hframes, hlinks⟩ := h
  have hspoke : as.any Action.isPairFrame = false := by
    rw [List.any_eq_false]
    intro a ha hpair
    cases a with
    | linkSend l msg =>
      have hmem : msg ∈ framesOn l as := mem_framesOn.mpr ha
      rw [hframes l] at hmem
      have htransport := (Core.isTransport_sealedOn hmem).1
      unfold Action.isPairFrame at hpair
      unfold isTransport at htransport
      cases hsplit : Frame.split msg with
      | none => simp [hsplit] at hpair
      | some e =>
        simp only [hsplit, Option.any_some, decide_eq_true_eq] at hpair htransport
        rw [hpair] at htransport
        cases htransport
    | _ => cases hpair
  refine Pairs.ext (congrArg Trust.pairing htrust) (congrArg Trust.pairQuietUntil htrust)
    (congrArg Trust.pendingPairDials htrust) ?_ ?_
  · funext l
    exact (hlinks false (by simp) l).pairDeadline
  · simp [Exec.pairs, hact, hspoke]

namespace Exec
variable [Plugin P] {s : Exec X P} {nowMs : ℕ} {seed : X.Seed} {l : LinkId}

section Links

omit [Plugin P] in
theorem startSessionInitiator_pairs (s : Exec X P) (seed : X.Seed) (l : LinkId) (peer : DeviceId)
    (attrs : LinkAttrs) (deadline : ℕ) (fallback : Option PeerDial) :
    (s.startSessionInitiator seed l peer attrs deadline fallback).pairs = s.pairs.drop l := by
  unfold startSessionInitiator
  split
  · exact failLink_pairs _ _ _
  · split
    · split
      · exact failLink_pairs _ _ _
      · split
        · exact failLink_pairs _ _ _
        · dsimp only
          rw [insertLink_pairs, push_pairs]
          · rfl
          · simp [Action.isPairFrame]
    · exact failLink_pairs _ _ _

omit [Plugin P] in
theorem onLinkUp_pairs (s : Exec X P) (nowMs : ℕ) (seed : X.Seed) (l : LinkId) (attrs : LinkAttrs)
    (dial : Option DialToken) : (s.onLinkUp nowMs seed l attrs dial).pairs =
      (s.bid nowMs seed (.linkUp l attrs dial)).apply s.core.config nowMs s.pairs := by
  unfold onLinkUp bid
  dsimp only
  cases dial.bind fun d => (s.core.pendingPairDials[d]?).map (d, ·) with
  | none =>
    dsimp only
    split
    · exact startSessionInitiator_pairs _ _ _ _ _ _ _
    · exact insertLink_pairs _ _ _
  | some e =>
    obtain ⟨d, via⟩ := e
    unfold startPairInitiator canOpen
    dsimp only
    cases Handshake.pairInitiator s.core.identity seed with
    | error e => exact failLink_pairs _ _ _
    | ok hs =>
      dsimp only
      cases hs.write [] with
      | error e => exact failLink_pairs _ _ _
      | ok r =>
        dsimp only
        rw [insertLink_pairs, sendPair_pairs]
        rfl

theorem onLinkDown_pairs (s : Exec X P) (nowMs : ℕ) (l : LinkId) : (s.onLinkDown nowMs l).pairs =
    (if (s.pairs.shaking l).isSome then .hungUp l else .closed l : Bid).apply s.core.config nowMs
      s.pairs := by
  have hgone : (s.unlink l).pairs = s.pairs.drop l := s.unlink_pairs l
  unfold onLinkDown
  dsimp only
  cases hl : s.core.links[l]? with
  | none =>
    have hnone : s.pairs.shaking l = none := by simp [pairs, hl]
    rw [hnone]
    exact hgone
  | some st =>
    cases st with
    | pending p =>
      have hnone : s.pairs.shaking l = none := by simp [pairs, hl, LinkState.pairDeadline]
      rw [hnone]
      exact hgone
    | up u =>
      have hnone : s.pairs.shaking l = none := by simp [pairs, hl, LinkState.pairDeadline]
      rw [hnone]
      exact ((lostUpLink_stir (s.unlink l) nowMs u).pairs).trans hgone
    | handshaking h =>
      have retry (r : Exec X P) (why : String) :=
        fallback_cases (R := fun r r' => r'.pairs = r.pairs) (h := h) rfl
          fun pending _ => (tryNextRoute_drift r nowMs pending why).toStir.pairs
      have hshaking : s.pairs.shaking l = if h.pairingFlow then some h.deadline else none := by
        simp [pairs, hl, LinkState.pairDeadline]
      rw [hshaking]
      dsimp only
      refine (retry _ _).trans ?_
      cases h.pairingFlow with
      | false => exact hgone
      | true =>
        simp only [if_true, Option.isSome_some, Bid.apply]
        rw [← hgone]
        rfl

end Links

section Frames

omit [Plugin P] in
theorem acceptHello_pairs (s : Exec X P) (peer : DeviceId) (payload : Bytes) :
    (s.acceptHello peer payload).1.pairs = s.pairs := by
  unfold acceptHello
  split
  · exact ui_pairs _ _
  · split
    · rfl
    · split
      · exact push_pairs _ rfl
      · exact ui_pairs _ _

theorem finishSession_pairs (s : Exec X P) (nowMs : ℕ) (l : LinkId) (hs : Handshake X)
    (attrs : LinkAttrs) (peer : DeviceId) :
    (s.finishSession nowMs l hs attrs peer).pairs = s.pairs.drop l := by
  have hup : ∀ u : UpLink X, (s.insertLink l (.up u)).pairs = s.pairs.drop l :=
    fun u => s.insertLink_pairs l (.up u)
  unfold finishSession
  dsimp only
  split
  · exact failLink_pairs _ _ _
  · split
    · exact failLink_pairs _ _ _
    · rw [(callAllPlugins_stir _ _ _).pairs, ui_pairs]
      exact hup _

omit [Plugin P] in
theorem acceptHello_next {peer : DeviceId} {payload : Bytes} {next : Exec X P → Exec X P}
    (s : Exec X P) (detail : String) (h : ∀ r, (next r).pairs = r.pairs.drop l) :
    (match s.acceptHello peer payload with
      | (s, false) => s.failLink l detail
      | (s, true) => next s).pairs = s.pairs.drop l := by
  have hp := acceptHello_pairs s peer payload
  split
  · rename_i r heq
    rw [heq] at hp
    rw [failLink_pairs, hp]
  · rename_i r heq
    rw [heq] at hp
    rw [h, hp]

theorem onSessionOpener_pairs (s : Exec X P) (nowMs : ℕ) (seed : X.Seed) (l : LinkId)
    (p : PendingLink) (body : Bytes) :
    (s.onSessionOpener nowMs seed l p body).pairs = s.pairs.drop l := by
  unfold onSessionOpener
  split
  · exact failLink_pairs _ _ _
  dsimp only
  split
  · exact failLink_pairs _ _ _
  split
  · exact failLink_pairs _ _ _
  split
  · exact failLink_pairs _ _ _
  split
  · exact failLink_pairs _ _ _
  refine acceptHello_next s _ fun r => ?_
  split
  · exact failLink_pairs _ _ _
  · rw [finishSession_pairs, push_pairs]
    simp [Action.isPairFrame]

omit [Plugin P] in
theorem onPairOpener_pairs (s : Exec X P) (nowMs : ℕ) (seed : X.Seed) (l : LinkId)
    (p : PendingLink) (body : Bytes) : (s.onPairOpener nowMs seed l p body).pairs =
      (s.bidOnOpener nowMs seed l p body).apply s.core.config nowMs s.pairs := by
  unfold onPairOpener bidOnOpener
  cases s.core.whyNotPair nowMs with
  | some why => exact failLink_pairs _ _ _
  | none =>
    dsimp only
    cases Handshake.pairResponder s.core.identity seed with
    | error e => exact failLink_pairs _ _ _
    | ok hs =>
      dsimp only
      cases hs.read body with
      | error e => exact failLink_pairs _ _ _
      | ok r =>
        dsimp only
        cases r.2.write (X.encode s.core.hello) with
        | error e => exact failLink_pairs _ _ _
        | ok r =>
          dsimp only
          rw [insertLink_pairs, sendPair_pairs]
          rfl

omit [Plugin P] in
theorem pairingAttemptFailed_pairs (s : Exec X P) (nowMs : ℕ) (l : LinkId) :
    (s.pairingAttemptFailed nowMs l).pairs = (Bid.broken l).apply s.core.config nowMs s.pairs := by
  have hfail := s.failLink_pairs l "pairing handshake failed"
  unfold pairingAttemptFailed
  dsimp only
  rw [ui_pairs]
  unfold Bid.apply
  rw [← hfail]
  rfl

omit [Plugin P] in
/-- A pairing handshake whose last message has been read, its link taken out to read it. -/
theorem pairingCompleted_pairs (s : Exec X P) (nowMs : ℕ) (l : LinkId) (h : HandshakingLink X)
    (hdone : h.hs.isComplete) (payload : Bytes) :
    (s.pairingCompleted nowMs l h payload).pairs =
      (s.bidAfterRead l h h.hs payload).apply s.core.config nowMs (s.pairs.shake l h.deadline) := by
  have hdrop : (s.pairs.shake l h.deadline).drop l = s.pairs.drop l := by
    simp [Pairs.drop, Pairs.shake]
  have hfail : ∀ detail, (s.failLink l detail).pairs = (s.pairs.shake l h.deadline).drop l := by
    intro detail
    rw [failLink_pairs, hdrop]
  have hpending : ∀ q, (s.insertLink l (.pending q)).pairs = (s.pairs.shake l h.deadline).drop l := by
    intro q
    rw [insertLink_pairs, hdrop]
    rfl
  have hlater : ∀ q detail, ((s.insertLink l (.pending q)).failLink l detail).pairs =
      (s.pairs.shake l h.deadline).drop l := by
    intro q detail
    rw [failLink_pairs, hpending, Pairs.drop_drop]
  have hsame : ∀ q, (s.insertLink l (.pending q)).core.pairing = s.core.pairing := fun _ => rfl
  unfold pairingCompleted bidAfterRead
  simp only [hdone, Bool.not_true, Bool.false_eq_true, if_false]
  cases h.hs.handshakeHash with
  | error e => exact hfail _
  | ok hash =>
    cases h.hs.peerStatic with
    | none => exact hfail _
    | some pk =>
      dsimp only
      cases X.decode Hello payload with
      | none =>
        refine (pairingAttemptFailed_pairs s nowMs l).trans ?_
        simp only [Bid.apply, hdrop]
      | some hello =>
        dsimp only
        rw [hsame]
        rcases hslot : s.core.pairing with _ | ⟨deadline, _ | a⟩
        · exact hlater _ _
        · dsimp only
          rw [ui_pairs]
          unfold Bid.apply
          rw [← hpending ⟨h.attrs, h.deadline⟩]
          rfl
        · exact hlater _ _

/-- What becomes of a pairing handshake whose link has been taken out to read a message. -/
theorem afterHandshakeRead_pairs (s : Exec X P) (nowMs : ℕ) (l : LinkId) (h : HandshakingLink X)
    (hflow : h.pairingFlow) (payload : Bytes) :
    (s.afterHandshakeRead nowMs l h payload).pairs =
      (s.bidAfterRead l h h.hs payload).apply s.core.config nowMs (s.pairs.shake l h.deadline) := by
  unfold afterHandshakeRead
  cases hdone : h.hs.isComplete with
  | false =>
    refine (insertLink_pairs s l _).trans ?_
    unfold bidAfterRead
    simp [hdone, LinkState.pairDeadline, hflow, Bid.apply, Pairs.shake]
  | true =>
    simp only [Bool.not_true, Bool.false_eq_true, if_false, hflow, if_true]
    exact pairingCompleted_pairs s nowMs l h hdone payload

theorem onHandshakeFrame_pairs (s : Exec X P) (nowMs : ℕ) (l : LinkId) (h : HandshakingLink X)
    (kind : FrameKind) (body : Bytes) : (s.onHandshakeFrame nowMs l h kind body).pairs =
      if h.pairingFlow then
        (s.bidOnReply l h kind body).apply s.core.config nowMs (s.pairs.shake l h.deadline)
      else s.pairs.drop l := by
  have hdrop : (s.pairs.shake l h.deadline).drop l = s.pairs.drop l := by
    simp [Pairs.drop, Pairs.shake]
  have hfail : ∀ detail, (s.failLink l detail).pairs = (s.pairs.shake l h.deadline).drop l := by
    intro detail
    rw [failLink_pairs, hdrop]
  unfold onHandshakeFrame bidOnReply
  cases hflow : h.pairingFlow with
  | false =>
    simp only [Bool.false_eq_true, if_false, Bool.false_and]
    split
    · exact failLink_pairs _ _ _
    · cases h.hs.read body with
      | error e => exact failLink_pairs _ _ _
      | ok r =>
        dsimp only
        unfold afterHandshakeRead
        split
        · refine (insertLink_pairs s l _).trans ?_
          simp [LinkState.pairDeadline, Pairs.drop]
        · simp only [Bool.false_eq_true, if_false]
          unfold onSessionReply
          split
          · exact failLink_pairs _ _ _
          · exact acceptHello_next s _ fun r => finishSession_pairs _ _ _ _ _ _
  | true =>
    simp only [if_true, Bool.true_and]
    split
    · exact hfail _
    · cases h.hs.read body with
      | error e =>
        refine (pairingAttemptFailed_pairs s nowMs l).trans ?_
        simp only [Bid.apply, hdrop]
      | ok r =>
        dsimp only
        cases r.2.isMyTurn with
        | false =>
          rw [if_neg Bool.false_ne_true, if_neg Bool.false_ne_true]
          exact afterHandshakeRead_pairs s nowMs l _ rfl r.1
        | true =>
          simp only [if_true]
          cases r.2.write (X.encode s.core.hello) with
          | error e => exact hfail _
          | ok w =>
            dsimp only
            refine (afterHandshakeRead_pairs _ nowMs l _ rfl r.1).trans ?_
            rw [sendPair_pairs]
            exact Bid.apply_spoke s.core.config nowMs (s.pairs.shake l h.deadline)
              (s.bidAfterRead l h w.2 r.1)

theorem onTransportFrame_pairs (s : Exec X P) (nowMs : ℕ) (l : LinkId) (u : UpLink X)
    (kind : FrameKind) (body : Bytes) :
    (s.onTransportFrame nowMs l u kind body).pairs = s.pairs.drop l := by
  have hup : ∀ v : UpLink X, (s.insertLink l (.up v)).pairs = s.pairs.drop l :=
    fun v => s.insertLink_pairs l (.up v)
  have hfail : ∀ detail, (s.failUpLink nowMs l u detail).pairs = s.pairs.drop l := by
    intro detail
    unfold failUpLink
    dsimp only
    rw [onLinkDown_pairs, ui_pairs, push_pairs _ rfl]
    have hin := hup u
    unfold insertLink at hin
    rw [hin, Pairs.drop_shaking_self]
    exact Pairs.drop_drop _ _
  unfold onTransportFrame
  split
  · exact hfail _
  split
  · exact hfail _
  dsimp only
  split
  · rw [ui_pairs, hup]
  split
  · rw [(sendError_drift _ _ _ _).toStir.pairs, hup]
  split
  · rw [ui_pairs, hup]
  · rw [(routeEnvelope_drift _ _ _ _).toStir.pairs, hup]

theorem onLinkRecv_pairs (s : Exec X P) (nowMs : ℕ) (seed : X.Seed) (l : LinkId) (msg : Bytes) :
    (s.onLinkRecv nowMs seed l msg).pairs =
      (s.bidOnFrame nowMs seed l msg).apply s.core.config nowMs s.pairs := by
  have hgone : (s.unlink l).pairs = s.pairs.drop l := s.unlink_pairs l
  unfold onLinkRecv bidOnFrame
  cases Frame.split msg with
  | none => exact failLink_pairs _ _ _
  | some e =>
    obtain ⟨kind, body⟩ := e
    dsimp only
    cases hl : s.core.links[l]? with
    | none =>
      refine (failLink_pairs (s.unlink l) l _).trans ?_
      rw [hgone, Pairs.drop_drop]
      cases kind <;> rfl
    | some st =>
      cases st with
      | pending p =>
        have hnone : s.pairs.shaking l = none := by simp [pairs, hl, LinkState.pairDeadline]
        rw [Pairs.drop_of_none hnone] at hgone
        cases kind with
        | pairHandshake =>
          refine (onPairOpener_pairs (s.unlink l) nowMs seed l p body).trans ?_
          rw [hgone]
          rfl
        | sessionHandshake =>
          refine (onSessionOpener_pairs (s.unlink l) nowMs seed l p body).trans ?_
          rw [hgone]
          rfl
        | transport =>
          refine (failLink_pairs (s.unlink l) l _).trans ?_
          rw [hgone]
          rfl
      | handshaking h =>
        refine (onHandshakeFrame_pairs (s.unlink l) nowMs l h kind body).trans ?_
        rw [hgone, Pairs.drop_shake, Pairs.drop_drop]
        cases hflow : h.pairingFlow with
        | true =>
          have hsome : s.pairs.shaking l = some h.deadline := by
            simp [pairs, hl, LinkState.pairDeadline, hflow]
          rw [Pairs.shake_of_some hsome, if_pos rfl]
          cases kind <;> simp only [hflow, if_true] <;> rfl
        | false =>
          rw [if_neg Bool.false_ne_true]
          cases kind <;> simp only [hflow, Bool.false_eq_true, if_false] <;> rfl
      | up u =>
        refine (onTransportFrame_pairs (s.unlink l) nowMs l u kind body).trans ?_
        rw [hgone, Pairs.drop_drop]
        cases kind <;> rfl

end Frames

section Commands

omit [Plugin P] in
theorem requestPairing_pairs (s : Exec X P) (nowMs : ℕ) (transport : TransportId) (addr : String) :
    (s.requestPairing nowMs transport addr).pairs =
      (if (s.core.whyNotPair nowMs).isNone then .claimed (s.core.nextDial + 1) (transport, addr)
        else .aside : Bid).apply s.core.config nowMs s.pairs := by
  unfold requestPairing
  cases s.core.whyNotPair nowMs with
  | some why => exact ui_pairs _ _
  | none => exact push_pairs _ rfl

omit [Plugin P] in
theorem keepRoutes_pairs (s : Exec X P) (id : DeviceId) (a : AwaitingConfirm) :
    (s.keepRoutes id a).pairs = s.pairs := by
  unfold keepRoutes
  dsimp only
  split
  · rfl
  · split <;> rfl

omit [Plugin P] in
theorem confirmPairing_pairs (s : Exec X P) (nowMs : ℕ) (seed : X.Seed) (accept : Bool) :
    (s.confirmPairing nowMs accept).pairs =
      (s.bid nowMs seed (.localCommand (.confirmPairing accept))).apply s.core.config nowMs
        s.pairs := by
  have hgone : ∀ (r : Exec X P) (l : LinkId), r.pairs = s.pairs →
      (r.unlink l).pairs = s.pairs.drop l := by
    intro r l h
    rw [unlink_pairs, h]
  unfold confirmPairing bid
  dsimp only
  rcases hslot : s.core.pairing with _ | ⟨deadline, _ | a⟩
  · rfl
  · rfl
  · cases accept with
    | false =>
      simp only [Bool.not_false, if_true, Bid.apply]
      rw [ui_pairs, ← hgone (s.push (.close a.link (.protocol .notAllowed))) a.link (push_pairs _ rfl)]
      rfl
    | true =>
      simp only [Bool.not_true, Bool.false_eq_true, if_false]
      cases a.record.id X with
      | none =>
        simp only [Option.isSome_none, Bool.false_eq_true, if_false, Bid.apply]
        exact Pairs.ext (by simp [pairs, hslot]) rfl rfl rfl rfl
      | some id =>
        simp only [Option.isSome_some, if_true, Bid.apply]
        have hkept : ((((s.keepRoutes id a).push (Core.peerBlob X a.record)).ui
            (.pairingComplete id a.record.name)).push (.close a.link .closed)).pairs = s.pairs := by
          rw [push_pairs _ rfl, ui_pairs, push_pairs _ rfl, keepRoutes_pairs]
        rw [← hgone _ a.link hkept]
        rfl

/-- Closing established links is no business of pairing. -/
theorem closeEach_pairs (nowMs : ℕ) (reason : LinkDownReason) (es : List (LinkId × UpLink X))
    (s : Exec X P) (h : ∀ e ∈ es, s.pairs.shaking e.1 = none) :
    (es.foldl (fun s e => (s.push (.close e.1 reason)).onLinkDown nowMs e.1) s).pairs = s.pairs := by
  induction es generalizing s with
  | nil => rfl
  | cons e es ih =>
    have hstep : ((s.push (.close e.1 reason)).onLinkDown nowMs e.1).pairs = s.pairs := by
      have hnone := h e (by simp)
      rw [onLinkDown_pairs, push_pairs _ rfl, hnone]
      exact Pairs.drop_of_none hnone
    rw [List.foldl_cons, ih, hstep]
    intro e' he'
    rw [hstep]
    exact h e' (List.mem_cons_of_mem _ he')

theorem closeUpLinks_pairs (s : Exec X P) (nowMs : ℕ) (peer : DeviceId) (reason : LinkDownReason) :
    (s.closeUpLinks nowMs peer reason).pairs = s.pairs := by
  refine closeEach_pairs nowMs reason _ s ?_
  rintro ⟨l, u⟩ he
  obtain ⟨hl, -⟩ := Core.mem_upLinks.mp he
  simp [pairs, hl, LinkState.pairDeadline]

theorem handleRevoke_pairs (s : Exec X P) (nowMs : ℕ) (peer : DeviceId) :
    (s.handleRevoke nowMs peer).pairs = s.pairs := by
  refine ((revoked_drift _ peer ((s.core.peers[peer]?).bind (·.fingerprint X))).toStir.pairs).trans ?_
  rw [closeUpLinks_pairs]
  exact push_pairs _ rfl

theorem onLocal_pairs (s : Exec X P) (nowMs : ℕ) (seed : X.Seed) (cmd : LocalCommand) :
    (s.onLocal nowMs cmd).pairs =
      (s.bid nowMs seed (.localCommand cmd)).apply s.core.config nowMs s.pairs := by
  cases cmd with
  | requestPairing transport addr => exact requestPairing_pairs s nowMs transport addr
  | confirmPairing accept => exact confirmPairing_pairs s nowMs seed accept
  | setPeerAddress peer transport addr =>
    dsimp only [onLocal]
    split
    · rfl
    · exact ui_pairs _ _
  | connect peer => exact (connectPeer_drift _ _ _ _).toStir.pairs
  | reconsiderRoutes =>
    exact (Drift.foldl (fun s peer => connectPeer_drift s nowMs peer false) _ s).toStir.pairs
  | disconnect peer => exact closeUpLinks_pairs _ _ _ _
  | revoke peer => exact handleRevoke_pairs _ _ _
  | plugin peer cap ty body => exact (onLocalPlugin_drift _ _ _ _ _ _).toStir.pairs

end Commands

section Ticks

omit [Plugin P] in
theorem lapsePairing_pairs (s : Exec X P) (nowMs : ℕ) :
    (s.lapsePairing nowMs).pairs = Bid.lapse s.core.config nowMs s.pairs := by
  unfold lapsePairing Bid.lapse
  rcases hslot : s.core.pairing with _ | ⟨deadline, awaiting⟩
  · have hnone : s.pairs.slot = none := hslot
    rw [hnone]
  · have hsome : s.pairs.slot = some ⟨deadline, awaiting⟩ := hslot
    rw [hsome]
    dsimp only
    split
    · rfl
    · rw [ui_pairs]
      cases awaiting with
      | none => rfl
      | some a =>
        have hgone : ((s.push (.close a.link .closed)).unlink a.link).pairs = s.pairs.drop a.link := by
          rw [unlink_pairs, push_pairs _ rfl]
        dsimp only [Option.elim_some]
        rw [← hgone]
        rfl

theorem closeStale_pairs (s : Exec X P) (nowMs : ℕ) (l : LinkId) :
    (s.closeStale nowMs l).pairs = s.pairs.drop l := by
  have hgone : ((s.unlink l).push (.close l .closed)).pairs = s.pairs.drop l := by
    rw [push_pairs _ rfl, unlink_pairs]
  unfold closeStale
  dsimp only
  split
  · split
    · exact ((tryNextRoute_drift _ _ _ _).toStir.pairs).trans hgone
    · exact hgone
  · exact hgone

theorem foldl_closeStale_pairs (ls : List LinkId) (s : Exec X P) (nowMs : ℕ) :
    (ls.foldl (fun s l => s.closeStale nowMs l) s).pairs =
      { s.pairs with shaking := fun l => if l ∈ ls then none else s.pairs.shaking l } := by
  induction ls generalizing s with
  | nil => simp
  | cons l ls ih =>
    rw [List.foldl_cons, ih, closeStale_pairs]
    refine Pairs.ext rfl rfl rfl ?_ rfl
    funext l'
    by_cases hl : l' = l
    · subst hl
      simp
    · simp [hl, Pairs.drop]

theorem closeStaleLinks_pairs (s : Exec X P) (nowMs : ℕ) : (s.closeStaleLinks nowMs).pairs =
    { s.pairs with shaking := fun l => (s.pairs.shaking l).filter (nowMs < ·) } := by
  unfold closeStaleLinks
  rw [foldl_closeStale_pairs]
  refine Pairs.ext rfl rfl rfl ?_ rfl
  funext l
  have hmem : l ∈ (s.core.links.toList.filter fun e => stale nowMs e.2).map (·.1) ↔
      ∃ st, s.core.links[l]? = some st ∧ stale nowMs st := by
    simp only [List.mem_map, List.mem_filter, Prod.exists, exists_and_right, exists_eq_right,
      ExtTreeMap.mem_toList_iff_getElem?_eq_some]
  have hshaking : s.pairs.shaking l = (s.core.links[l]?).bind LinkState.pairDeadline := rfl
  dsimp only
  simp only [hmem, hshaking]
  rcases s.core.links[l]? with _ | st
  · simp
  · cases st with
    | pending p => simp [LinkState.pairDeadline]
    | up u => simp [LinkState.pairDeadline]
    | handshaking h =>
      cases hflow : h.pairingFlow with
      | false => simp [LinkState.pairDeadline, hflow]
      | true =>
        by_cases hd : h.deadline ≤ nowMs
        · have hlate : ¬ nowMs < h.deadline := by omega
          simp [LinkState.pairDeadline, hflow, stale, hd, Option.filter, hlate]
        · have hearly : nowMs < h.deadline := by omega
          simp [LinkState.pairDeadline, hflow, stale, hd, Option.filter, hearly]

theorem onTick_pairs (s : Exec X P) (nowMs : ℕ) :
    (s.onTick nowMs).pairs = Bid.ticked.apply s.core.config nowMs s.pairs := by
  unfold onTick
  dsimp only
  rw [(wakePlugins_drift _ _).toStir.pairs, (heartbeat_drift _ _).toStir.pairs,
    (expireDials_drift _ _).toStir.pairs, closeStaleLinks_pairs,
    (giveUpWaiting_drift _ _).toStir.pairs, lapsePairing_pairs]
  rfl

end Ticks

/-- What a step does about pairing is what its event meant when it came. -/
theorem onEvent_pairs (s : Exec X P) (nowMs : ℕ) (seed : X.Seed) (e : Event) :
    (s.onEvent nowMs seed e).pairs = (s.bid nowMs seed e).apply s.core.config nowMs s.pairs := by
  cases e with
  | linkUp l attrs dial => exact onLinkUp_pairs s nowMs seed l attrs dial
  | linkRecv l msg => exact onLinkRecv_pairs s nowMs seed l msg
  | linkDown l reason => exact onLinkDown_pairs s nowMs l
  | dialFailed d reason =>
    dsimp only [onEvent, bid]
    unfold onDialFailed
    split
    · exact ui_pairs _ _
    · split
      · exact (tryNextRoute_drift _ _ _ _).toStir.pairs
      · rfl
  | discovered transport peer => exact (onDiscovered_drift _ _ _ _).toStir.pairs
  | undiscovered transport addr => exact (onUndiscovered_drift _ _ _).toStir.pairs
  | bulkListening t endpoint =>
    exact (dispatchToTransferOwner_drift _ _ _ fun obs ho p cx =>
      ho.listening p cx t endpoint).toStir.pairs
  | bulkStarted t => rfl
  | bulkFinished t ok detail =>
    exact (dispatchToTransferOwner_drift s nowMs t fun obs ho p cx =>
      ho.finished p cx t ok detail).toStir.pairs
  | tick => exact onTick_pairs s nowMs
  | effectDone token result => exact (onEffectDone_drift _ _ _ _).toStir.pairs
  | localCommand cmd => exact onLocal_pairs s nowMs seed cmd

end Exec

namespace Core

variable [Plugin P]

theorem exec_pairs (c : Core X P) (i : Input X) :
    (c.exec i).pairs = (c.bid i).apply c.config i.now.monotonicMs c.pairs :=
  Exec.onEvent_pairs (c.start i) _ _ _

theorem step_pairs (c : Core X P) (i : Input X) : (c.step i).pairs =
    { (c.bid i).apply c.config i.now.monotonicMs c.pairs with spoke := false } := by
  rw [← exec_pairs]
  rfl

end Core
end Acrylius
