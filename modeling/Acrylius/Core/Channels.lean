import Acrylius.Core.Calls
import Acrylius.Mock

/-! What becomes of a plugin's request for a bulk channel. -/
namespace Acrylius
open Proto Std

variable {X : Crates} {P : Type}

namespace BulkRequest

def transfer : BulkRequest → TransferId
  | .listen _ t _ _ => t
  | .send _ t _ => t
  | .cancel t => t

/-- The peer a request wants a channel with. -/
def channel : BulkRequest → Option DeviceId
  | .listen peer _ _ _ => some peer
  | .send peer _ _ => some peer
  | .cancel _ => none

/-- The action hands the request to the host, under whatever key. -/
def startedBy : BulkRequest → Action → Bool
  | .listen _ t offeredAs bytes, .bulkListen t' offeredAs' _ bytes' =>
    t = t' ∧ offeredAs = offeredAs' ∧ bytes = bytes'
  | .send _ t endpoint, .bulkSend t' endpoint' _ => t = t' ∧ endpoint = endpoint'
  | _, _ => false

end BulkRequest

namespace Core

def HasSideChannel (c : Core X P) (peer : DeviceId) : Prop :=
  ∃ (l : LinkId) (u : UpLink X), c.links[l]? = some (.up u) ∧ u.peer = peer ∧ u.bulk = .sideChannel

/-- Once a side channel is found it stays found; otherwise the last link decides. -/
theorem foldl_bulk_sideChannel (es : List (LinkId × UpLink X)) (best : Option BulkSupport) :
    es.foldl (fun best e => if best = some .sideChannel then best else some e.2.bulk) best =
      some .sideChannel ↔ best = some .sideChannel ∨ ∃ e ∈ es, e.2.bulk = .sideChannel := by
  induction es generalizing best with
  | nil => simp
  | cons e es ih =>
    rw [List.foldl_cons, ih]
    by_cases hb : best = some .sideChannel
    · simp [hb]
    · simp [hb]

theorem bulkSupportFor_eq_sideChannel {c : Core X P} {peer : DeviceId} :
    c.bulkSupportFor peer = some .sideChannel ↔ c.HasSideChannel peer := by
  unfold bulkSupportFor
  rw [foldl_bulk_sideChannel]
  constructor
  · rintro (h | ⟨⟨l, u⟩, hm, hb⟩)
    · cases h
    · obtain ⟨hl, hp⟩ := mem_upLinks.mp hm
      exact ⟨l, u, hl, hp, hb⟩
  · rintro ⟨l, u, hl, hp, hb⟩
    exact .inr ⟨(l, u), mem_upLinks.mpr ⟨hl, hp⟩, hb⟩

theorem HasSideChannel.session {c : Core X P} {peer : DeviceId} (h : c.HasSideChannel peer) :
    ∃ hash, c.handshakeHashFor peer = some hash := by
  obtain ⟨l, u, hl, hp, -⟩ := h
  unfold handshakeHashFor
  cases hb : c.bestLink peer with
  | none => exact (bestLink_eq_none.mp hb l u hl hp).elim
  | some e => exact ⟨_, rfl⟩

/-- No link says anything about bulk only if there is no session. -/
theorem handshakeHashFor_of_bulkSupportFor {c : Core X P} {peer : DeviceId}
    (h : c.bulkSupportFor peer = none) : c.handshakeHashFor peer = none := by
  have hnil : c.upLinks peer = [] := by
    unfold bulkSupportFor at h
    rw [List.eq_nil_iff_forall_not_mem]
    intro e he
    obtain ⟨es, es', hsplit⟩ := List.append_of_mem he
    have some_of : ∀ (es : List (LinkId × UpLink X)) (b : BulkSupport), ∃ b', es.foldl
        (fun best e => if best = some .sideChannel then best else some e.2.bulk) (some b) =
          some b' := by
      intro es
      induction es with
      | nil => exact fun b => ⟨b, rfl⟩
      | cons e es ih =>
        intro b
        rw [List.foldl_cons]
        split
        · exact ih b
        · exact ih e.2.bulk
    rw [hsplit, List.foldl_append, List.foldl_cons] at h
    split at h
    · rename_i hs
      rw [hs] at h
      obtain ⟨b, hb⟩ := some_of es' .sideChannel
      rw [hb] at h
      cases h
    · obtain ⟨b, hb⟩ := some_of es' e.2.bulk
      rw [hb] at h
      cases h
  simp [handshakeHashFor, bestLink, hnil]

end Core

namespace Exec

/-- With a side channel the request is started under the key of the freshest session. -/
theorem withBulkKey_started {s : Exec X P} {peer : DeviceId} (offerer : DeviceId)
    (t : TransferId) (n : ℕ) (start : Exec X P → Bytes → Exec X P) (h : s.core.HasSideChannel peer) :
    ∃ key, s.withBulkKey peer t offerer n start = start s key := by
  obtain ⟨hash, hhash⟩ := h.session
  have hsupport := Core.bulkSupportFor_eq_sideChannel.mpr h
  refine ⟨Bulk.key X hash offerer.str n, ?_⟩
  unfold withBulkKey
  rw [hsupport, if_neg (by simp), hhash]

/-- Without one it is refused: an event, and at most a cancellation nobody asked for. -/
theorem withBulkKey_refused {s : Exec X P} {peer : DeviceId} (offerer : DeviceId)
    (t : TransferId) (n : ℕ) (start : Exec X P → Bytes → Exec X P) (h : ¬ s.core.HasSideChannel peer) :
    (s.withBulkKey peer t offerer n start).core.bulkWait = s.core.bulkWait ∧
    ∃ as, (s.withBulkKey peer t offerer n start).actions = s.actions ++ as ∧
      ∀ a ∈ as, a = .bulkCancel t ∨ ∃ e, a = .ui e := by
  unfold withBulkKey
  split
  · exact ⟨rfl, [_, _], List.append_assoc _ _ _, by simp⟩
  · rename_i hsupport
    have hnone : s.core.bulkSupportFor peer = none := by
      cases hb : s.core.bulkSupportFor peer with
      | none => rfl
      | some b =>
        cases b with
        | none => exact (hsupport hb).elim
        | sideChannel => exact (h (Core.bulkSupportFor_eq_sideChannel.mp hb)).elim
    rw [Core.handshakeHashFor_of_bulkSupportFor hnone]
    exact ⟨rfl, [_], rfl, by simp⟩

/-- Draining a request hands it to the host exactly when its peer has a side channel. -/
theorem dispatchBulk_starts {s : Exec X P} {nowMs : ℕ} {r : BulkRequest} {peer : DeviceId}
    (hr : r.channel = some peer) :
    (∃ a ∈ (s.dispatchBulk nowMs r).actions.drop s.actions.length, r.startedBy a) ↔
      s.core.HasSideChannel peer := by
  by_cases h : s.core.HasSideChannel peer
  · refine ⟨fun _ => h, fun _ => ?_⟩
    cases r with
    | cancel t => cases hr
    | listen q t n bytes =>
      obtain rfl : q = peer := Option.some.inj hr
      unfold dispatchBulk
      dsimp only
      obtain ⟨key, hkey⟩ := withBulkKey_started _ t n _ h
      rw [hkey]
      exact ⟨.bulkListen t n key bytes, by simp [push], by simp [BulkRequest.startedBy]⟩
    | send q t endpoint =>
      obtain rfl : q = peer := Option.some.inj hr
      unfold dispatchBulk
      dsimp only
      obtain ⟨key, hkey⟩ := withBulkKey_started _ t t _ h
      rw [hkey]
      exact ⟨.bulkSend t endpoint key, by simp [push], by simp [BulkRequest.startedBy]⟩
  · refine ⟨?_, fun h' => (h h').elim⟩
    have none : ∀ {t : TransferId} {t' : Exec X P}, (∃ as, t'.actions = s.actions ++ as ∧
        ∀ a ∈ as, a = .bulkCancel t ∨ ∃ e, a = .ui e) →
        ¬ ∃ a ∈ t'.actions.drop s.actions.length, r.startedBy a := by
      rintro t t' ⟨as, ha, has⟩ ⟨a, hmem, hstart⟩
      rw [ha, List.drop_left] at hmem
      rcases has a hmem with rfl | ⟨e, rfl⟩
      · cases r <;> cases hstart
      · cases r <;> cases hstart
    intro hstart
    cases r with
    | cancel t => cases hr
    | listen q t n bytes =>
      obtain rfl : q = peer := Option.some.inj hr
      exact (none (withBulkKey_refused _ _ _ _ h).2 hstart).elim
    | send q t endpoint =>
      obtain rfl : q = peer := Option.some.inj hr
      exact (none (withBulkKey_refused _ _ _ _ h).2 hstart).elim

theorem dispatchBulk_links (s : Exec X P) (nowMs : ℕ) (r : BulkRequest) :
    (s.dispatchBulk nowMs r).core.links = s.core.links := by
  have key : ∀ (peer offerer : DeviceId) (t : TransferId) (n : ℕ)
      (start : Exec X P → Bytes → Exec X P), (∀ s k, (start s k).core.links = s.core.links) →
      (s.withBulkKey peer t offerer n start).core.links = s.core.links := by
    intro peer offerer t n start h
    unfold withBulkKey
    split
    · rfl
    · split
      · rfl
      · exact h s _
  cases r with
  | cancel t => rfl
  | listen => exact key _ _ _ _ _ fun s k => rfl
  | send => exact key _ _ _ _ _ fun s k => rfl

/-- The step in progress when the request at position `k` of a context is drained. -/
def drained (s : Exec X P) (cx : Cx) (k : ℕ) : Exec X P :=
  (cx.bulk.take k).foldl (fun s b => s.dispatchBulk cx.nowMs b)
    (cx.effects.foldl (fun s e => s.push (.effect e.1 e.2)) (cx.ui.foldl ui s))

theorem drained_links (s : Exec X P) (cx : Cx) (k : ℕ) :
    (s.drained cx k).core.links = s.core.links := by
  have fold : ∀ {α : Type} {f : Exec X P → α → Exec X P},
      (∀ s a, (f s a).core.links = s.core.links) → ∀ (as : List α) (s : Exec X P),
        (as.foldl f s).core.links = s.core.links := by
    intro α f hf as
    induction as with
    | nil => exact fun s => rfl
    | cons a as ih => exact fun s => (ih _).trans (hf s a)
  have told := fold (f := ui) (fun s _ => rfl) cx.ui s
  have acted := fold (f := fun s e => s.push (.effect e.1 e.2)) (fun s _ => rfl) cx.effects
    (cx.ui.foldl ui s)
  exact (fold (fun s b => dispatchBulk_links s cx.nowMs b) _ _).trans (acted.trans told)

theorem drained_succ (s : Exec X P) (cx : Cx) {k : ℕ} {r : BulkRequest} (hr : cx.bulk[k]? = some r) :
    s.drained cx (k + 1) = (s.drained cx k).dispatchBulk cx.nowMs r := by
  unfold drained
  rw [List.take_add_one, hr, List.foldl_append]
  rfl

/-- The request at position `k` of what a plugin asked for is answered: the host is handed it as
it is drained, or by the end of the drain the plugin has been told that the transfer failed. -/
def Answered (s : Exec X (Recorded P)) (cx : Cx) (idx k : ℕ) (r : BulkRequest) : Prop :=
  (∃ a ∈ (s.drained cx (k + 1)).actions.drop (s.drained cx k).actions.length, r.startedBy a) ∨
  ∃ p p' detail, s.core.plugins[idx]? = some p ∧ (s.drainCx cx).core.plugins[idx]? = some p' ∧
    Call.bulkFinished r.transfer false detail ∈ p'.calls.drop p.calls.length

/-- Whatever the state and whatever a plugin asked for: a request for a bulk channel is answered
exactly when its peer has an established link with a side channel. -/
theorem bulk_request_answered_iff (s : Exec X (Recorded P)) (cx : Cx) (idx k : ℕ) {r : BulkRequest}
    {peer : DeviceId} (hr : cx.bulk[k]? = some r) (hpeer : r.channel = some peer) :
    s.Answered cx idx k r ↔ s.core.HasSideChannel peer := by
  have hlinks : (s.drained cx k).core.HasSideChannel peer ↔ s.core.HasSideChannel peer := by
    unfold Core.HasSideChannel
    rw [drained_links]
  unfold Answered
  rw [← hlinks, drained_succ s cx hr, dispatchBulk_starts hpeer]
  refine ⟨fun h => h.resolve_right ?_, .inl⟩
  rintro ⟨p, p', detail, hp, hp', hcall⟩
  -- Draining calls no plugin, so nobody can have been told.
  rw [(drainCx_kept s cx).1, hp] at hp'
  cases hp'
  simp at hcall

/-- A picture offered by a phone over such a link, and the laptop's yes to it: the step in
progress when the plugin has returned, and what the plugin asked for. -/
def accepting (attrs : LinkAttrs) : Exec Mock.crates (Recorded (SharePlugin Mock.crates)) × Cx :=
  let plugins : List (Recorded (SharePlugin Mock.crates)) := [⟨.default Mock.crates, []⟩]
  let c := Lib.run Core.step (Mock.laptop plugins).build (Mock.pictureOffered plugins attrs)
  let s := c.start (Mock.pictureAccepted 3)
  match c.plugins[0]?, (Mock.pictureAccepted 3).event with
  | some p, .localCommand (.plugin peer _ ty body) =>
    let cx := (s.cx 3).forPeerLink (c.bulkSupportFor peer)
    let r := Plugin.call p cx (.request peer ty body)
    (s.handOver 0 r.1 r.2.1, r.2.1)
  | _, _ => (s, s.cx 3)

/-- Over the local network the yes is answered. -/
theorem lan_accept_answered : (accepting (.tcpLan 0)).1.Answered (accepting (.tcpLan 0)).2 0 0
    (.listen Mock.phone (mintedHere ||| 1) 1 3) :=
  (bulk_request_answered_iff _ _ 0 0 (by decide +kernel) rfl).mpr
    (Core.bulkSupportFor_eq_sideChannel.mp (by decide +kernel))

/-- Over Bluetooth it goes nowhere, and the plugin still holds the offer. -/
theorem bluetooth_accept_unanswered :
    (accepting (.ble 1)).2.bulk = [.listen Mock.phone (mintedHere ||| 1) 1 3] ∧
      ¬ (accepting (.ble 1)).1.Answered (accepting (.ble 1)).2 0 0
        (.listen Mock.phone (mintedHere ||| 1) 1 3) ∧
      ((accepting (.ble 1)).1.drainCx (accepting (.ble 1)).2).core.plugins.map
        (fun p => p.inner.offered.keys) = [[mintedHere ||| 1]] := by
  refine ⟨by decide +kernel, ?_, by decide +kernel⟩
  rintro (⟨a, ha, hstart⟩ | ⟨p, p', detail, hp, hp', hcall⟩)
  · have none : (((accepting (.ble 1)).1.drained (accepting (.ble 1)).2 1).actions.drop
        ((accepting (.ble 1)).1.drained (accepting (.ble 1)).2 0).actions.length).all
        (fun a => !(BulkRequest.listen Mock.phone (mintedHere ||| 1) 1 3).startedBy a) := by
      decide +kernel
    have hnot := List.all_eq_true.mp none a ha
    rw [hstart] at hnot
    cases hnot
  · rw [(drainCx_kept _ _).1, hp] at hp'
    cases hp'
    simp at hcall

end Exec
end Acrylius
