import Acrylius.Core.Conduct
import Acrylius.Core.Sessions

/-! Noise counts messages without saying so: every message sealed on a link has to be a message
sent on it, or the two ends fall out of step. -/
namespace Acrylius
open Proto Std

variable {X : Crates} {P : Type}

def isTransport (f : Bytes) : Bool := (Frame.split f).any fun e => e.1 = .transport

@[simp] theorem isTransport_join (kind : FrameKind) (body : Bytes) :
    isTransport (Frame.join kind body) = decide (kind = .transport) := by
  simp [isTransport, Frame.split_join]

theorem Sealing.isTransport {b : Bool} {u v : UpLink X} {fs : List Bytes} (h : Sealing b u fs v) :
    ∀ f ∈ fs, isTransport f := by
  induction h with
  | nil => simp
  | sent _ _ ih =>
    intro f hf
    rcases List.mem_append.mp hf with hf | hf
    · exact ih f hf
    · rw [List.mem_singleton.mp hf, isTransport_join]
      rfl
  | lost _ _ _ ih => exact ih

theorem Session.decrypt_ok {s s' : Session X} {ct p : Bytes} (h : s.decrypt ct = .ok (p, s')) :
    X.transportRead s.state ct = .ok (p, s'.state) ∧ s'.sent = s.sent := by
  unfold Session.decrypt at h
  split_ifs at h
  cases hr : X.transportRead s.state ct with
  | error e => simp [hr, Crates.lift, bind, Except.bind] at h
  | ok r =>
    simp only [hr, Crates.lift, bind, Except.bind, pure, Except.pure, Except.ok.injEq,
      Prod.mk.injEq] at h
    obtain ⟨rfl, rfl⟩ := h
    exact ⟨rfl, rfl⟩

theorem Handshake.intoSession_ok {hs : Handshake X} {attrs : LinkAttrs} {session : Session X}
    (h : hs.intoSession attrs = .ok session) :
    X.intoTransportMode hs.state = .ok session.state ∧ session.sent = 0 := by
  unfold Handshake.intoSession at h
  split_ifs at h
  cases hr : X.intoTransportMode hs.state with
  | error e => simp [hr, Crates.lift, bind, Except.bind] at h
  | ok st =>
    simp only [hr, Crates.lift, bind, Except.bind, pure, Except.pure, Except.ok.injEq] at h
    subst h
    exact ⟨rfl, rfl⟩

variable [Plugin P]

/-- Every message handed to `dispatchSend` in this call fits the link it takes. -/
def Core.AllFit (c : Core X P) (i : Core.Input X) : Prop := ∀ e ∈ (c.exec i).sends, e.1.fits e.2

instance (c : Core X P) (i : Core.Input X) : Decidable (c.AllFit i) :=
  inferInstanceAs (Decidable (∀ e ∈ (c.exec i).sends, e.1.fits e.2))

/-- A core with a count, for each link, of the sealed messages sent since it came up. -/
structure Metered (X : Crates) (P : Type) where
  core : Core X P
  count : LinkId → ℕ

namespace Metered

def step (m : Metered X P) (i : Core.Input X) : Metered X P where
  core := m.core.step i
  count l := (if m.core.isUp l then m.count l else 0) +
    (framesOn l (m.core.handle i).2.actions).countP isTransport

/-- Each session sealed as many messages as its link sent. -/
def Balanced (m : Metered X P) : Prop :=
  ∀ (l : LinkId) (u : UpLink X), m.core.links[l]? = some (.up u) → u.session.sent = m.count l

theorem Balanced.step {m : Metered X P} (law : X.SealLaw) (h : m.Balanced) {i : Core.Input X}
    (hfit : m.core.AllFit i) : (m.step i).Balanced := by
  intro l v hv
  obtain ⟨fs, gs, y, htouch, hframes, hfate⟩ :=
    m.core.step_link i l true fun _ => ⟨law, hfit⟩
  have hv' : (m.core.step i).links[l]? = some (.up v) := hv
  rw [hv'] at hfate
  obtain ⟨u, rfl, hs⟩ := hfate.up_of
  have hgs : gs.countP isTransport = gs.length := List.countP_eq_length.mpr hs.isTransport
  have hsent := hs.sent_eq
  change v.session.sent = (if m.core.isUp l then m.count l else 0) +
    (framesOn l (m.core.handle i).2.actions).countP isTransport
  rw [hframes, List.countP_append, hgs]
  generalize hy : (some (LinkState.up u) : Option (LinkState X)) = y at htouch
  cases htouch with
  | kept =>
    have hu : m.core.links[l]? = some (.up u) := hy.symm
    have := h l u hu
    simp only [Core.isUp, hu, if_true, List.countP_nil]
    omega
  | established est =>
    cases hy
    cases est with
    | intro read accept turn open_ =>
      have hfresh := (Handshake.intoSession_ok open_).2
      have hold : m.core.isUp l = false := by
        cases read with
        | opener _ _ link =>
          have link' : m.core.links[l]? = _ := link
          simp [Core.isUp, link']
        | reply _ _ link =>
          have link' : m.core.links[l]? = _ := link
          simp [Core.isUp, link']
      have hnone : ∀ reply : List Bytes,
          (reply.map (Frame.join .sessionHandshake)).countP isTransport = 0 := by
        intro reply
        rw [List.countP_eq_zero]
        simp
      rw [hold, hnone]
      simp only [freshLink, hfresh] at hsent
      simpa using hsent
  | received event frame link decrypt =>
    cases hy
    have hu : m.core.links[l]? = some (.up _) := link
    have := h l _ hu
    have := (Session.decrypt_ok decrypt).2
    dsimp only at hsent
    simp only [Core.isUp, hu, if_true, List.countP_nil]
    omega
  | gone | opened | dialledSession | dialledPair | answered | wasted | continued => cases hy
  | paired _ _ _ after =>
    subst hy
    obtain h | ⟨q, h⟩ := after <;> cases h

theorem balanced_build (b : CoreBuilder X P) : Balanced ⟨b.build, fun _ => 0⟩ := by
  intro l u hu
  simp [CoreBuilder.build] at hu

end Metered
end Acrylius
