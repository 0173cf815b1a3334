import Acrylius.Core.Admission

/-! What takes the digits of a waiting confirmation off the screen. -/
namespace Acrylius
open Proto Std

variable {X : Crates} {P : Type} [Plugin P]

namespace Core

/-- The events that are meant to end a confirmation: an answer, or its window running out. -/
def decides (c : Core X P) (i : Input X) : Bool :=
  match i.event, c.pairing with
  | .localCommand (.confirmPairing _), _ => true
  | .tick, some w => w.deadline ≤ i.now.monotonicMs
  | _, _ => false

variable {c : Core X P} {i : Input X} {a : AwaitingConfirm} {d : ℕ}

theorem pairing_step_of_spared (hw : c.pairing = some ⟨d, some a⟩) (hd : c.decides i = false)
    (hs : c.strikes i = false) : (c.step i).pairing = some ⟨d, some a⟩ := by
  obtain ⟨mid, hhead, htrust, -⟩ := step_trust (c := c) (i := i)
  have hmid : (c.step i).pairing = mid.core.pairing := congrArg Trust.pairing htrust
  rw [hmid]
  have hw' : (c.start i).core.pairing = some ⟨d, some a⟩ := hw
  rcases hhead.pairing_cases rfl with h | ⟨h, -⟩ | ⟨_, _, _, _, _, _, _, _, _, _, -, -, -, h, -⟩ |
    ⟨accept, _, _, he, -⟩ | ⟨he, -, w, hw₁, hdue⟩ | ⟨h, -⟩
  · exact h.trans hw'
  · simp [hw'] at h
  · simp [hw'] at h
  · simp [decides, he] at hd
  · have : w = ⟨d, some a⟩ := Option.some.inj (hw₁.symm.trans hw')
    subst this
    simp only [decides, he, hw, decide_eq_false_iff_not] at hd
    exact absurd hdue hd
  · have : c.strikes i = true := h
    simp [hs] at this

omit [Plugin P] in
/-- An old pair dial failing empties the slot. -/
theorem pairing_of_undialled {token : DialToken} {reason : String} (s : Exec X P) (nowMs : ℕ)
    (h : token ∈ s.core.pendingPairDials) :
    (s.onDialFailed nowMs token reason).core.pairing = none := by
  rw [Exec.onDialFailed, if_pos h]
  rfl

/-- A link going down in the middle of a pairing handshake empties the slot. -/
theorem pairing_of_hungUp {l : LinkId} {h : HandshakingLink X} (s : Exec X P) (nowMs : ℕ)
    (hl : s.core.links[l]? = some (.handshaking h)) (hflow : h.pairingFlow) :
    (s.onLinkDown nowMs l).core.pairing = none := by
  unfold Exec.onLinkDown
  rw [hl]
  dsimp only
  rw [if_pos hflow]
  split
  · rw [(Exec.tryNextRoute_drift _ _ _ _).pairing]
  · rfl

/-- A pairing handshake that ends on a message with no `Hello` in it empties the slot. -/
theorem pairing_of_no_hello {l : LinkId} {h : HandshakingLink X} {payload : Bytes} (s : Exec X P)
    (nowMs : ℕ) (hflow : h.pairingFlow) (hdone : h.hs.isComplete) (hkey : h.hs.peerStatic.isSome)
    (hdec : X.decode Hello payload = none) :
    (s.afterHandshakeRead nowMs l h payload).core.pairing = none := by
  obtain ⟨pk, hpk⟩ := Option.isSome_iff_exists.mp hkey
  have hhash : h.hs.handshakeHash = .ok (X.getHandshakeHash h.hs.state) := by
    rw [Handshake.handshakeHash, if_pos hdone]
  unfold Exec.afterHandshakeRead
  rw [if_neg (by simp [hdone]), if_pos hflow]
  unfold Exec.pairingCompleted
  rw [hhash, hpk]
  dsimp only
  rw [hdec]
  rfl

/-- A frame on which a pairing handshake breaks empties the slot. -/
theorem pairing_of_abandoned {l : LinkId} {h : HandshakingLink X} {body : Bytes} (s : Exec X P)
    (nowMs : ℕ) (hflow : h.pairingFlow)
    (hbreak : (match h.hs.read body with
      | .error _ => true
      | .ok (payload, hs) =>
        match s.core.pairingAfter hs with
        | some hs' => hs'.isComplete && hs'.peerStatic.isSome && (X.decode Hello payload).isNone
        | none => false) = true) :
    (s.onHandshakeFrame nowMs l h .pairHandshake body).core.pairing = none := by
  unfold Exec.onHandshakeFrame
  rw [if_neg (by simp [hflow])]
  cases hread : h.hs.read body with
  | error e =>
    dsimp only
    rw [if_pos hflow]
    rfl
  | ok r =>
    obtain ⟨payload, hs⟩ := r
    rw [hread] at hbreak
    simp only [pairingAfter] at hbreak
    dsimp only
    cases hmine : hs.isMyTurn with
    | true =>
      rw [hflow, if_pos (by decide)]
      rw [hmine, if_pos rfl] at hbreak
      cases hw : hs.write (X.encode s.core.hello) with
      | error e => simp [hw] at hbreak
      | ok r =>
        obtain ⟨m, hs'⟩ := r
        simp only [hw, Bool.and_eq_true, Option.isNone_iff_eq_none] at hbreak
        obtain ⟨⟨hdone, hkey⟩, hdec⟩ := hbreak
        exact pairing_of_no_hello _ nowMs rfl hdone hkey hdec
    | false =>
      rw [hflow, if_neg (by decide)]
      simp only [hmine, Bool.false_eq_true, if_false, Bool.and_eq_true,
        Option.isNone_iff_eq_none] at hbreak
      obtain ⟨⟨hdone, hkey⟩, hdec⟩ := hbreak
      exact pairing_of_no_hello _ nowMs rfl hdone hkey hdec

/-- Every event of the three kinds empties the slot, whoever holds it. -/
theorem pairing_step_of_struck (h : c.strikes i) : (c.step i).pairing = none := by
  unfold step exec
  unfold strikes at h
  cases he : i.event <;> rw [he] at h <;> dsimp only [Exec.onEvent] at h ⊢
  case dialFailed token reason => exact pairing_of_undialled _ _ (by simpa using h)
  case linkDown l reason =>
    split at h
    · rename_i hs hl
      exact pairing_of_hungUp _ _ hl h
    · cases h
  case linkRecv l msg =>
    split at h
    · rename_i body hs hf hl
      rw [Bool.and_eq_true] at h
      unfold Exec.onLinkRecv
      rw [hf]
      dsimp only
      rw [hl]
      exact pairing_of_abandoned _ _ h.1 h.2
    · cases h
  all_goals cases h

/-- A waiting confirmation survives an event exactly when the event does not give back a pairing
slot it does not own, and so survives every run of such events. -/
theorem confirmation_kept_iff (b : CoreBuilder X P) (is : List (Input X)) (d : ℕ)
    (a : AwaitingConfirm) (hw : (b.build.run is).pairing = some ⟨d, some a⟩) :
    (∀ i, (b.build.run is).decides i = false →
      ((∃ d', ((b.build.run is).step i).pairing = some ⟨d', some a⟩) ↔
        (b.build.run is).strikes i = false)) ∧
    ∀ js, Lib.Along step (fun c i => c.decides i = false ∧ c.strikes i = false)
      (b.build.run is) js → ((b.build.run is).run js).pairing = some ⟨d, some a⟩ := by
  constructor
  · intro i hd
    constructor
    · rintro ⟨d', h⟩
      rw [Bool.eq_false_iff]
      intro hs
      rw [pairing_step_of_struck hs] at h
      cases h
    · intro hs
      exact ⟨d, pairing_step_of_spared hw hd hs⟩
  · intro js hjs
    exact hjs.inv (I := fun c => c.pairing = some ⟨d, some a⟩)
      (fun c i hc h => pairing_step_of_spared hc h.1 h.2) hw

omit [Plugin P] in
theorem waiting_of_isSome (h : (c.pairing.bind (·.awaiting)).isSome) :
    ∃ d a, c.pairing = some ⟨d, some a⟩ := by
  obtain ⟨a, ha⟩ := Option.isSome_iff_exists.mp h
  obtain ⟨⟨d, w⟩, hw, rfl⟩ := Option.bind_eq_some_iff.mp ha
  exact ⟨d, a, hw⟩

/-- A device that dialled to pair, waited out the window, and was then dialled by a phone. -/
def abandonedDial : Core Mock.crates Unit :=
  (Mock.fresh 1 []).build.run
    ([Mock.at_ 0 0 (.localCommand (.requestPairing 1 "10.0.0.9:7")), Mock.at_ 120000 0 .tick,
      Mock.at_ 200000 0 (.linkUp 1 (.tcpLan 1) none)] ++
    (Mock.pairFrames 5).map fun m => Mock.at_ 200000 0 (.linkRecv 1 m))

theorem confirmation_kept_at_abandonedDial : ∃ d a,
    abandonedDial.pairing = some ⟨d, some a⟩ ∧
    ∃ d', (abandonedDial.step (Mock.at_ 200001 0 .tick)).pairing = some ⟨d', some a⟩ := by
  obtain ⟨d, a, hw⟩ := waiting_of_isSome (c := abandonedDial) (by decide +kernel)
  exact ⟨d, a, hw, ((confirmation_kept_iff _ _ d a hw).1 _ (by decide +kernel)).mpr
    (by decide +kernel)⟩

/-- The dial it had given up on fails, and takes the phone's digits off the screen. -/
theorem confirmation_lost_to_old_dial : ∃ d a,
    abandonedDial.pairing = some ⟨d, some a⟩ ∧
    abandonedDial.decides (Mock.at_ 200001 0 (.dialFailed 1 "timed out")) = false ∧
    (abandonedDial.step (Mock.at_ 200001 0 (.dialFailed 1 "timed out"))).pairing = none := by
  obtain ⟨d, a, hw⟩ := waiting_of_isSome (c := abandonedDial) (by decide +kernel)
  exact ⟨d, a, hw, by decide +kernel, by decide +kernel⟩

end Core
end Acrylius
