import Acrylius.Core.Attempts
import Acrylius.Core.Deadlines

/-! The retry heartbeat: what starts it, that it never stops once started, and what that means for
peers nothing reaches. -/
namespace Acrylius
open Proto Std

variable {X : Crates} {P : Type}

namespace Core

/-- The link is established and the only one with its peer. -/
def LastLink (c : Core X P) (l : LinkId) : Prop :=
  ∃ u, c.links[l]? = some (.up u) ∧
    ∀ (m : LinkId) (v : UpLink X), c.links[m]? = some (.up v) → v.peer = u.peer → m = l

/-- An event that sets the heartbeat: a tick, the loss of a last session, a confirmed pairing. -/
def Arms (c : Core X P) (i : Input X) : Prop :=
  match i.event with
  | .tick => True
  | .linkDown l _ => c.LastLink l
  | .linkRecv l msg => c.LastLink l ∧ ∃ kind body u, Frame.split msg = some (kind, body) ∧
      c.links[l]? = some (.up u) ∧ (kind ≠ .transport ∨ ∃ e, u.session.decrypt body = .error e)
  | .localCommand (.disconnect p) => c.Reaches p
  | .localCommand (.revoke p) => c.Reaches p
  | .localCommand (.confirmPairing accept) => accept = true ∧
      ∃ w a, c.pairing = some w ∧ w.awaiting = some a ∧ (a.record.id X).isSome
  | _ => False

end Core

namespace Exec
variable {nowMs : ℕ}

/-! What leaves the heartbeat alone. -/

theorem tryNextRoute_reconnectAt (s : Exec X P) (pending : PeerDial) (why : String) :
    (s.tryNextRoute nowMs pending why).core.reconnectAt = s.core.reconnectAt := by
  unfold tryNextRoute
  split
  · rfl
  · split
    · dsimp only
      split <;> rfl
    · rfl

theorem connectPeer_reconnectAt (s : Exec X P) (peer : DeviceId) (byHand : Bool) :
    (s.connectPeer nowMs peer byHand).core.reconnectAt = s.core.reconnectAt := by
  have walk : ∀ routes, (s.connectRoutes nowMs peer routes byHand).core.reconnectAt =
      s.core.reconnectAt := by
    intro routes
    unfold connectRoutes
    split
    · dsimp only
      split <;> rfl
    · rfl
  unfold connectPeer
  dsimp only
  split
  · rfl
  · split
    · exact walk _
    · split <;> rfl
    · split
      · rfl
      · split
        · rfl
        · split
          · rfl
          · exact walk _

theorem startSessionInitiator_reconnectAt (s : Exec X P) (seed : X.Seed) (l : LinkId)
    (peer : DeviceId) (attrs : LinkAttrs) (deadline : ℕ) (fallback : Option PeerDial) :
    (s.startSessionInitiator seed l peer attrs deadline fallback).core.reconnectAt =
      s.core.reconnectAt := by
  unfold startSessionInitiator
  split
  · rfl
  · split
    · split
      · rfl
      · split <;> rfl
    · rfl

theorem onLinkUp_reconnectAt (s : Exec X P) (seed : X.Seed) (l : LinkId) (attrs : LinkAttrs)
    (dial : Option DialToken) :
    (s.onLinkUp nowMs seed l attrs dial).core.reconnectAt = s.core.reconnectAt := by
  unfold onLinkUp
  dsimp only
  split
  · unfold startPairInitiator
    split
    · rfl
    · split <;> rfl
  · split
    · exact startSessionInitiator_reconnectAt _ _ _ _ _ _ _
    · rfl

theorem pairingCompleted_reconnectAt (s : Exec X P) (l : LinkId) (h : HandshakingLink X)
    (payload : Bytes) : (s.pairingCompleted nowMs l h payload).core.reconnectAt =
      s.core.reconnectAt := by
  unfold pairingCompleted
  split
  · split
    · rfl
    · dsimp only
      split <;> rfl
  · rfl

theorem onPairOpener_reconnectAt (s : Exec X P) (seed : X.Seed) (l : LinkId) (p : PendingLink)
    (body : Bytes) : (s.onPairOpener nowMs seed l p body).core.reconnectAt = s.core.reconnectAt := by
  unfold onPairOpener
  split
  · rfl
  · split
    · rfl
    · split
      · rfl
      · split <;> rfl

theorem onDialFailed_reconnectAt (s : Exec X P) (d : DialToken) (reason : String) :
    (s.onDialFailed nowMs d reason).core.reconnectAt = s.core.reconnectAt := by
  unfold onDialFailed
  split
  · rfl
  · split
    · exact tryNextRoute_reconnectAt _ _ _
    · rfl

theorem onDiscovered_reconnectAt (s : Exec X P) (transport : TransportId) (peer : DiscoveredPeer) :
    (s.onDiscovered nowMs transport peer).core.reconnectAt = s.core.reconnectAt := by
  unfold onDiscovered
  split
  · rfl
  · dsimp only
    split
    · exact connectPeer_reconnectAt _ _ _
    · exact (announce_still _ _).reconnectAt

section Hooks
variable [Plugin P]

theorem finishSession_reconnectAt (s : Exec X P) (l : LinkId) (hs : Handshake X)
    (attrs : LinkAttrs) (peer : DeviceId) :
    (s.finishSession nowMs l hs attrs peer).core.reconnectAt = s.core.reconnectAt := by
  unfold finishSession
  dsimp only
  split
  · rfl
  · split
    · rfl
    · exact (callAllPlugins_still _ _ _).reconnectAt

omit [Plugin P] in
theorem afterHello_reconnectAt (s : Exec X P) (l : LinkId) {peer : DeviceId} {payload : Bytes}
    {next : Exec X P → Exec X P}
    (hnext : ∀ s : Exec X P, (next s).core.reconnectAt = s.core.reconnectAt) (detail : String) :
    (match s.acceptHello peer payload with
      | (s, false) => s.failLink l detail
      | (s, true) => next s).core.reconnectAt = s.core.reconnectAt := by
  have hread := (acceptHello_still s peer payload).reconnectAt
  split
  · rename_i heq
    rw [heq] at hread
    exact hread
  · rename_i heq
    rw [heq] at hread
    exact (hnext _).trans hread

theorem onSessionOpener_reconnectAt (s : Exec X P) (seed : X.Seed) (l : LinkId) (p : PendingLink)
    (body : Bytes) : (s.onSessionOpener nowMs seed l p body).core.reconnectAt =
      s.core.reconnectAt := by
  unfold onSessionOpener
  split
  · rfl
  · dsimp only
    split
    · rfl
    · split
      · rfl
      · split
        · rfl
        · split
          · rfl
          · refine afterHello_reconnectAt s l (fun s => ?_) _
            split
            · rfl
            · exact finishSession_reconnectAt _ _ _ _ _

theorem onFirstFrame_reconnectAt (s : Exec X P) (seed : X.Seed) (l : LinkId) (p : PendingLink)
    (kind : FrameKind) (body : Bytes) :
    (s.onFirstFrame nowMs seed l p kind body).core.reconnectAt = s.core.reconnectAt := by
  cases kind with
  | pairHandshake => exact onPairOpener_reconnectAt s seed l p body
  | sessionHandshake => exact onSessionOpener_reconnectAt s seed l p body
  | transport => rfl

theorem afterHandshakeRead_reconnectAt (s : Exec X P) (l : LinkId) (h : HandshakingLink X)
    (payload : Bytes) : (s.afterHandshakeRead nowMs l h payload).core.reconnectAt =
      s.core.reconnectAt := by
  unfold afterHandshakeRead
  split
  · rfl
  · split
    · exact pairingCompleted_reconnectAt s l h payload
    · unfold onSessionReply
      split
      · rfl
      · exact afterHello_reconnectAt s l (fun s => finishSession_reconnectAt s _ _ _ _) _

theorem onHandshakeFrame_reconnectAt (s : Exec X P) (l : LinkId) (h : HandshakingLink X)
    (kind : FrameKind) (body : Bytes) :
    (s.onHandshakeFrame nowMs l h kind body).core.reconnectAt = s.core.reconnectAt := by
  unfold onHandshakeFrame
  by_cases hkind : kind = if h.pairingFlow then .pairHandshake else .sessionHandshake
  case neg =>
    rw [if_pos hkind]
    rfl
  rw [if_neg (not_not.mpr hkind)]
  cases h.hs.read body with
  | error e =>
    dsimp only
    split <;> rfl
  | ok r =>
    dsimp only
    split
    · split
      · exact afterHandshakeRead_reconnectAt _ _ _ _
      · rfl
    · exact afterHandshakeRead_reconnectAt s _ _ _

/-! What sets it. -/

theorem lostUpLink_reconnectAt (s : Exec X P) (u : UpLink X) :
    (s.lostUpLink nowMs u).core.reconnectAt =
      if s.core.Reaches u.peer then s.core.reconnectAt else some 0 := by
  unfold lostUpLink
  by_cases h : (s.core.bestLink u.peer).isSome
  · rw [if_pos h, if_pos (Core.bestLink_isSome.mp h)]
    rfl
  · rw [if_neg h, if_neg fun hr => h (Core.bestLink_isSome.mpr hr)]
    exact (callAllPlugins_still _ _ _).reconnectAt

omit [Plugin P] in
theorem unlink_upWith (s : Exec X P) (l m : LinkId) (p : DeviceId) :
    (s.unlink l).core.UpWith p m ↔ m ≠ l ∧ s.core.UpWith p m := by
  constructor
  · rintro ⟨u, hu, hp⟩
    obtain ⟨hne, hu⟩ := Lib.getElem?_of_erase hu
    exact ⟨hne, u, hu, hp⟩
  · rintro ⟨hne, u, hu, hp⟩
    exact ⟨u, (Lib.getElem?_erase_of_ne hne).trans hu, hp⟩

theorem onLinkDown_up {s : Exec X P} {l : LinkId} {u : UpLink X}
    (hl : s.core.links[l]? = some (.up u)) :
    s.onLinkDown nowMs l = (s.unlink l).lostUpLink nowMs u := by
  unfold onLinkDown
  rw [hl]
  rfl

theorem onLinkDown_upWith {s : Exec X P} {l : LinkId} {u : UpLink X}
    (hl : s.core.links[l]? = some (.up u)) (nowMs : ℕ) (m : LinkId) (p : DeviceId) :
    (s.onLinkDown nowMs l).core.UpWith p m ↔ m ≠ l ∧ s.core.UpWith p m := by
  rw [onLinkDown_up hl, ← unlink_upWith]
  exact Core.upWith_iff (lostUpLink_links _ _ u m)

omit [Plugin P] in
theorem lastLink_iff {c : Core X P} {l : LinkId} {u : UpLink X} (hl : c.links[l]? = some (.up u)) :
    c.LastLink l ↔ ∀ m, c.UpWith u.peer m → m = l := by
  constructor
  · rintro ⟨u', hu', hlast⟩ m ⟨v, hv, hp⟩
    obtain rfl : u = u' := by
      rw [hl] at hu'
      exact LinkState.up.inj (Option.some.inj hu')
    exact hlast m v hv hp
  · intro h
    exact ⟨u, hl, fun m v hv hp => h m ⟨v, hv, hp⟩⟩

theorem onLinkDown_armed (s : Exec X P) (l : LinkId) :
    (s.onLinkDown nowMs l).core.reconnectAt.isSome ↔
      s.core.reconnectAt.isSome ∨ s.core.LastLink l := by
  have other : (∀ u, s.core.links[l]? ≠ some (.up u)) → ¬ s.core.LastLink l := by
    rintro h ⟨u, hu, -⟩
    exact h u hu
  cases hl : s.core.links[l]? with
  | none =>
    have hsame : (s.onLinkDown nowMs l).core.reconnectAt = s.core.reconnectAt := by
      unfold onLinkDown
      rw [hl]
    rw [hsame, or_iff_left (other fun u hu => by rw [hl] at hu; cases hu)]
  | some st =>
    cases st with
    | up u =>
      rw [onLinkDown_up hl, lostUpLink_reconnectAt, lastLink_iff hl]
      by_cases hr : (s.unlink l).core.Reaches u.peer
      · have hmore : ¬ ∀ m, s.core.UpWith u.peer m → m = l := by
          intro hall
          obtain ⟨m, hm⟩ := hr
          have hm' := (unlink_upWith s l m u.peer).mp hm
          exact hm'.1 (hall m hm'.2)
        rw [if_pos hr, or_iff_left hmore]
        rfl
      · have hlast : ∀ m, s.core.UpWith u.peer m → m = l := by
          intro m hm
          by_contra hne
          exact hr ⟨m, (unlink_upWith s l m u.peer).mpr ⟨hne, hm⟩⟩
        rw [if_neg hr]
        exact iff_of_true rfl (.inr hlast)
    | pending p =>
      have hsame : (s.onLinkDown nowMs l).core.reconnectAt = s.core.reconnectAt := by
        unfold onLinkDown
        rw [hl]
      rw [hsame, or_iff_left (other fun u hu => by rw [hl] at hu; cases hu)]
    | handshaking h =>
      have hsame : (s.onLinkDown nowMs l).core.reconnectAt = s.core.reconnectAt := by
        unfold onLinkDown
        rw [hl]
        dsimp only
        split
        · refine (tryNextRoute_reconnectAt _ _ _).trans ?_
          split <;> rfl
        · split <;> rfl
      rw [hsame, or_iff_left (other fun u hu => by rw [hl] at hu; cases hu)]

/-- Closing every link of a peer sets the heartbeat if there was one. -/
theorem closeLinks_armed {p : DeviceId} (reason : LinkDownReason) (ls : List LinkId)
    (hnodup : ls.Nodup) (s : Exec X P) (h : ∀ l, s.core.UpWith p l ↔ l ∈ ls) :
    (ls.foldl (fun s l => (s.push (.close l reason)).onLinkDown nowMs l) s).core.reconnectAt.isSome ↔
      s.core.reconnectAt.isSome ∨ ls ≠ [] := by
  induction ls generalizing s with
  | nil => simp
  | cons l ls ih =>
    obtain ⟨hl, hls⟩ := List.nodup_cons.mp hnodup
    obtain ⟨u, hu, hp⟩ := (h l).mpr (by simp)
    have hnext : ∀ m, ((s.push (.close l reason)).onLinkDown nowMs l).core.UpWith p m ↔ m ∈ ls := by
      intro m
      have hdown := onLinkDown_upWith (s := s.push (.close l reason)) hu nowMs m p
      have hsame : (s.push (.close l reason)).core.UpWith p m ↔ m ∈ l :: ls := h m
      rw [hdown, hsame, List.mem_cons]
      constructor
      · rintro ⟨hne, hm⟩
        exact hm.resolve_left hne
      · intro hm
        refine ⟨?_, .inr hm⟩
        rintro rfl
        exact hl hm
    rw [List.foldl_cons, ih hls _ hnext, onLinkDown_armed]
    have hlast : s.core.LastLink l ↔ ls = [] := by
      rw [lastLink_iff hu, hp]
      constructor
      · intro hall
        refine List.eq_nil_iff_forall_not_mem.mpr fun m hm => hl ?_
        have hm' := hall m ((h m).mpr (List.mem_cons_of_mem _ hm))
        exact hm' ▸ hm
      · rintro rfl m hm
        have hm' := (h m).mp hm
        simpa using hm'
    have hpush : (s.push (.close l reason)).core.LastLink l ↔ s.core.LastLink l := .rfl
    have hkept : (s.push (.close l reason)).core.reconnectAt = s.core.reconnectAt := rfl
    rw [hpush, hlast, hkept]
    by_cases hnil : ls = []
    · simp [hnil]
    · simp [hnil]

omit [Plugin P] in
theorem upWith_iff_mem_ids {c : Core X P} {p : DeviceId} {l : LinkId} :
    c.UpWith p l ↔ l ∈ (c.upLinks p).map (·.1) := by
  rw [List.mem_map]
  constructor
  · rintro ⟨u, hu, hp⟩
    exact ⟨(l, u), Core.mem_upLinks.mpr ⟨hu, hp⟩, rfl⟩
  · rintro ⟨⟨l', u⟩, he, rfl⟩
    exact ⟨u, Core.mem_upLinks.mp he⟩

theorem closeUpLinks_eq (s : Exec X P) (nowMs : ℕ) (p : DeviceId) (reason : LinkDownReason) :
    s.closeUpLinks nowMs p reason = ((s.core.upLinks p).map (·.1)).foldl
      (fun s l => (s.push (.close l reason)).onLinkDown nowMs l) s := by
  rw [List.foldl_map]
  rfl

theorem closeUpLinks_armed (s : Exec X P) (nowMs : ℕ) (p : DeviceId) (reason : LinkDownReason) :
    (s.closeUpLinks nowMs p reason).core.reconnectAt.isSome ↔
      s.core.reconnectAt.isSome ∨ s.core.Reaches p := by
  have hsome : (s.core.upLinks p).map (·.1) ≠ [] ↔ s.core.Reaches p := by
    rw [← Core.upLinks_isEmpty, List.isEmpty_eq_false_iff, ne_eq, List.map_eq_nil_iff]
  rw [closeUpLinks_eq, closeLinks_armed reason _ (Core.upLinks_nodup s.core p) s
    fun l => upWith_iff_mem_ids, hsome]

omit [Plugin P] in
theorem lastLink_congr {c d : Core X P} (h : d.links = c.links) (l : LinkId) :
    d.LastLink l ↔ c.LastLink l := by
  unfold Core.LastLink
  rw [h]

theorem onTransportFrame_armed {s : Exec X P} {l : LinkId} {u : UpLink X}
    (hl : s.core.links[l]? = some (.up u)) (nowMs : ℕ) (kind : FrameKind) (body : Bytes) :
    ((s.unlink l).onTransportFrame nowMs l u kind body).core.reconnectAt.isSome ↔
      s.core.reconnectAt.isSome ∨
        s.core.LastLink l ∧ (kind ≠ .transport ∨ ∃ e, u.session.decrypt body = .error e) := by
  have failed : ∀ detail, ((s.unlink l).failUpLink nowMs l u detail).core.reconnectAt.isSome ↔
      s.core.reconnectAt.isSome ∨ s.core.LastLink l := by
    intro detail
    have hback : (s.core.links.erase l).insert l (.up u) = s.core.links := Lib.restore hl
    unfold failUpLink
    rw [onLinkDown_armed]
    exact or_congr .rfl (lastLink_congr hback l)
  unfold onTransportFrame
  by_cases hkind : kind = .transport
  case neg =>
    rw [if_pos hkind, failed]
    simp [hkind]
  rw [if_neg (not_not.mpr hkind)]
  cases hd : u.session.decrypt body with
  | error e =>
    dsimp only
    rw [failed]
    simp
  | ok r =>
    obtain ⟨plaintext, session⟩ := r
    have hno : ¬ (s.core.LastLink l ∧ (kind ≠ .transport ∨
        ∃ e, Except.ok (plaintext, session) = (.error e : Except NoiseError _))) := by
      rintro ⟨-, hne | ⟨e, he⟩⟩
      · exact hne hkind
      · cases he
    rw [or_iff_left hno]
    dsimp only
    split
    · rfl
    · split
      · rw [(sendError_still _ _ _ _).reconnectAt]
        rfl
      · split
        · rfl
        · rw [(routeEnvelope_still _ _ _ _).reconnectAt]
          rfl

theorem onLinkRecv_armed (s : Exec X P) (seed : X.Seed) (l : LinkId) (msg : Bytes) :
    (s.onLinkRecv nowMs seed l msg).core.reconnectAt.isSome ↔ s.core.reconnectAt.isSome ∨
      s.core.LastLink l ∧ ∃ kind body u, Frame.split msg = some (kind, body) ∧
        s.core.links[l]? = some (.up u) ∧
        (kind ≠ .transport ∨ ∃ e, u.session.decrypt body = .error e) := by
  unfold onLinkRecv
  cases hf : Frame.split msg with
  | none =>
    rw [or_iff_left (by simp)]
    rfl
  | some r =>
    obtain ⟨kind, body⟩ := r
    dsimp only
    have quiet : ∀ (x : Option (LinkState X)) (t : Exec X P), s.core.links[l]? = x →
        t.core.reconnectAt = s.core.reconnectAt → (∀ u, x ≠ some (.up u)) →
        (t.core.reconnectAt.isSome ↔ s.core.reconnectAt.isSome ∨ s.core.LastLink l ∧
          ∃ kind' body' u, some (kind, body) = some (kind', body') ∧ x = some (.up u) ∧
            (kind' ≠ .transport ∨ ∃ e, u.session.decrypt body' = .error e)) := by
      intro x t hx ht hno
      rw [ht, or_iff_left]
      rintro ⟨⟨u, hu, -⟩, -⟩
      exact hno u (hx.symm.trans hu)
    cases hl : s.core.links[l]? with
    | none => exact quiet _ _ hl rfl nofun
    | some st =>
      cases st with
      | pending p => exact quiet _ _ hl (onFirstFrame_reconnectAt _ _ _ _ _ _) nofun
      | handshaking h => exact quiet _ _ hl (onHandshakeFrame_reconnectAt _ _ _ _ _) nofun
      | up u =>
        have hframe := onTransportFrame_armed hl nowMs kind body
        refine hframe.trans (or_congr .rfl (and_congr .rfl ?_))
        constructor
        · intro hbad
          exact ⟨kind, body, u, rfl, rfl, hbad⟩
        · rintro ⟨kind', body', u', heq, hu', hbad⟩
          cases heq
          cases hu'
          exact hbad

theorem onTick_armed (s : Exec X P) : (s.onTick nowMs).core.reconnectAt.isSome := by
  have beat : ∀ t : Exec X P, (t.heartbeat nowMs).core.reconnectAt.isSome := by
    intro t
    have kept : ∀ (ps : List DeviceId) (r : Exec X P),
        (ps.foldl (fun s p => s.connectPeer nowMs p false) r).core.reconnectAt =
          r.core.reconnectAt := by
      intro ps
      induction ps with
      | nil => exact fun r => rfl
      | cons p ps ih => exact fun r => (ih _).trans (connectPeer_reconnectAt r p false)
    unfold heartbeat
    by_cases hdue : t.core.reconnectAt.all (· ≤ nowMs)
    · rw [if_pos hdue]
      dsimp only
      rw [kept]
      rfl
    · rw [if_neg hdue]
      by_contra hnone
      rw [Option.not_isSome_iff_eq_none] at hnone
      exact hdue (by rw [hnone]; rfl)
  unfold onTick
  dsimp only
  rw [(wakePlugins_still _ nowMs).reconnectAt]
  exact beat _

omit [Plugin P] in
theorem confirmPairing_armed (s : Exec X P) (accept : Bool) :
    (s.confirmPairing nowMs accept).core.reconnectAt.isSome ↔ s.core.reconnectAt.isSome ∨
      accept = true ∧ ∃ w a, s.core.pairing = some w ∧ w.awaiting = some a ∧
        (a.record.id X).isSome := by
  unfold confirmPairing
  cases hw : s.core.pairing with
  | none => simp
  | some w =>
    obtain ⟨deadline, awaiting⟩ := w
    cases awaiting with
    | none => simp
    | some a =>
      cases accept with
      | false =>
        rw [or_iff_left (by simp)]
        rfl
      | true =>
        cases hid : a.record.id X with
        | none => simp [hid]
        | some id => simp [hid]

theorem handleRevoke_armed (s : Exec X P) (p : DeviceId) :
    (s.handleRevoke nowMs p).core.reconnectAt.isSome ↔
      s.core.reconnectAt.isSome ∨ s.core.Reaches p := by
  unfold handleRevoke
  dsimp only
  have hclosed := closeUpLinks_armed (push { s with core := { s.core with
    peers := s.core.peers.erase p
    addrs := s.core.addrs.erase p
    dialTrouble := s.core.dialTrouble.erase p } } (.persist ("peer/" ++ p.str) none .secret)) nowMs
    p (.protocol .notPaired)
  split
  · rw [(announce_still _ _).reconnectAt]
    exact hclosed
  · exact hclosed

/-- The heartbeat is set after a step exactly if it was before or the event sets it. -/
theorem onEvent_armed (s : Exec X P) (i : Core.Input X) :
    (s.onEvent i.now.monotonicMs i.seed i.event).core.reconnectAt.isSome ↔
      s.core.reconnectAt.isSome ∨ s.core.Arms i := by
  have same : ∀ t : Exec X P, t.core.reconnectAt = s.core.reconnectAt → ¬ s.core.Arms i →
      (t.core.reconnectAt.isSome ↔ s.core.reconnectAt.isSome ∨ s.core.Arms i) := by
    intro t ht hno
    rw [ht, or_iff_left hno]
  unfold Core.Arms at same ⊢
  cases he : i.event <;> rw [he] at same
  case linkUp l attrs dial => exact same _ (onLinkUp_reconnectAt s _ _ _ _) nofun
  case linkRecv l msg => exact onLinkRecv_armed s _ l msg
  case linkDown l reason => exact onLinkDown_armed s l
  case dialFailed d reason => exact same _ (onDialFailed_reconnectAt s d reason) nofun
  case discovered transport peer => exact same _ (onDiscovered_reconnectAt s _ _) nofun
  case undiscovered transport addr =>
    exact same _ (onUndiscovered_still s transport addr).reconnectAt nofun
  case tick =>
    dsimp only [onEvent]
    exact iff_of_true (onTick_armed s) (.inr trivial)
  case bulkListening t endpoint =>
    exact same _ (dispatchToTransferOwner_still s _ t _).reconnectAt nofun
  case bulkStarted t => exact same _ rfl nofun
  case bulkFinished t ok detail =>
    exact same _ (dispatchToTransferOwner_still s _ t _).reconnectAt nofun
  case effectDone token result => exact same _ (onEffectDone_still s _ token result).reconnectAt nofun
  case localCommand cmd =>
    cases cmd <;> dsimp only [onEvent, onLocal] at same ⊢
    case requestPairing transport addr =>
      refine same _ ?_ nofun
      unfold requestPairing
      split <;> rfl
    case confirmPairing accept => exact confirmPairing_armed s accept
    case setPeerAddress p transport addr =>
      refine same _ ?_ nofun
      split <;> rfl
    case connect p => exact same _ (connectPeer_reconnectAt s p true) nofun
    case reconsiderRoutes =>
      refine same _ ?_ nofun
      generalize s.core.peers.keys = ps
      have kept : ∀ r : Exec X P, (ps.foldl (fun s p => s.connectPeer i.now.monotonicMs p false)
          r).core.reconnectAt = r.core.reconnectAt := by
        induction ps with
        | nil => exact fun r => rfl
        | cons p ps ih => exact fun r => (ih _).trans (connectPeer_reconnectAt r p false)
      exact kept s
    case disconnect p => exact closeUpLinks_armed s _ p .closed
    case revoke p => exact handleRevoke_armed s p
    case plugin p cap ty body => exact same _ (onLocalPlugin_still s _ _ _ _ _).reconnectAt nofun

end Hooks
end Exec

namespace Core

/-- A paired peer with an address on file that has neither a session nor an attempt in flight. -/
structure Waiting (c : Core X P) (p : DeviceId) : Prop where
  paired : p ∈ c.peers
  address : p ∈ c.addrs
  down : ¬ c.Reaches p
  idle : ¬ c.Dialling p
  alone : ∀ l, ¬ c.Towards p l

/-- Nothing is under way to a peer of which neither table of attempts says anything. -/
theorem waiting_of_empty {c : Core X P} {p : DeviceId} (paired : p ∈ c.peers)
    (address : p ∈ c.addrs) (links : c.links.isEmpty) (dials : c.pendingPeerDials.isEmpty) :
    c.Waiting p := by
  have gone : ∀ (l : LinkId) (st : LinkState X), c.links[l]? ≠ some st := by
    intro l st
    rw [ExtTreeMap.isEmpty_iff.mp links]
    simp
  refine ⟨paired, address, ?_, ?_, ?_⟩
  · rintro ⟨l, u, hu, -⟩
    exact gone l _ hu
  · rintro ⟨d, e, he, -⟩
    rw [ExtTreeMap.isEmpty_iff.mp dials] at he
    simp at he
  · rintro l ⟨h, hl, -⟩
    exact gone l _ hl

variable [Plugin P]

/-- After the event, the host is told when to tick if some peer waits to be retried. -/
def Retried (c : Core X P) (i : Input X) : Prop :=
  (∃ p, (c.handle i).1.Waiting p) → (c.handle i).2.nextDeadlineMs.isSome

theorem step_armed (c : Core X P) (i : Input X) :
    (c.step i).reconnectAt.isSome ↔ c.reconnectAt.isSome ∨ c.Arms i :=
  (c.start i).onEvent_armed i

end Core

/-- A phone is seen on the network by a core just started, and the dial to it is refused. -/
def Mock.refusedOnce : List (Core.Input Mock.crates) :=
  [Mock.at_ 0 0 (.discovered 1 ⟨some (Fingerprint.of Mock.crates (Mock.device 5).publicKey),
    "phone", "10.0.0.9:7", false⟩)]

/-- Then nothing will make the core try again, and it asks for no tick. -/
theorem refused_never_retried :
    ((Mock.paired (P := Unit) 1 5 []).build.run (Mock.refusedOnce ++
      [Mock.at_ 1 0 (.dialFailed 1 "refused")])).nextDeadline = none ∧
    ¬ ∀ (js : List (Core.Input Mock.crates)) (i : Core.Input Mock.crates),
      (∀ j ∈ js ++ [i], j.event ≠ .tick) →
      ((Mock.paired (P := Unit) 1 5 []).build.run js).Retried i := by
  have hnone : ((Mock.paired (P := Unit) 1 5 []).build.run (Mock.refusedOnce ++
      [Mock.at_ 1 0 (.dialFailed 1 "refused")])).nextDeadline = none := by decide +kernel
  refine ⟨hnone, fun h => ?_⟩
  have hwaiting : (((Mock.paired (P := Unit) 1 5 []).build.run Mock.refusedOnce).handle
      (Mock.at_ 1 0 (.dialFailed 1 "refused"))).1.Waiting Mock.caller :=
    Core.waiting_of_empty (by decide +kernel) (by decide +kernel) (by decide +kernel)
      (by decide +kernel)
  have hsome := h Mock.refusedOnce (Mock.at_ 1 0 (.dialFailed 1 "refused")) ?_ ⟨_, hwaiting⟩
  · have hnext : (((Mock.paired (P := Unit) 1 5 []).build.run Mock.refusedOnce).handle
        (Mock.at_ 1 0 (.dialFailed 1 "refused"))).2.nextDeadlineMs = none := hnone
    rw [hnext] at hsome
    cases hsome
  · intro j hj htick
    rw [Mock.refusedOnce, List.singleton_append, List.mem_cons, List.mem_singleton] at hj
    rcases hj with rfl | rfl
    · cases htick
    · cases htick

end Acrylius
