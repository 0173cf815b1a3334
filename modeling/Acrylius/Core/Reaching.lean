import Acrylius.Core.Presence
import Acrylius.Mock

/-! What the core reports about reaching a peer, against what its tables hold. -/
namespace Acrylius
open Proto Std

/-- Links of a better transport come first. -/
theorem LinkId.new_lt_new {t t' : TransportId} (h : t < t') (n n' : ℕ) :
    LinkId.new t n < LinkId.new t' n' := by
  have hmod := Nat.mod_lt n (show 0 < 2 ^ 48 by decide)
  have key : ∀ a b : ℕ, a < b → a * 2 ^ 48 + n % 2 ^ 48 < b * 2 ^ 48 + n' % 2 ^ 48 := by
    intro a b hlt
    omega
  exact key t t' h

variable {X : Crates} {P : Type}

/-- What a link says about the peer. -/
def LinkState.report (p : DeviceId) : LinkState X → Option PeerState
  | .up u => if u.peer = p then some .reachable else none
  | .handshaking h => if h.expect = some p then some .connecting else none
  | .pending _ => none

namespace Core

/-- A handshake on the link is meant for the peer. -/
def Towards (c : Core X P) (p : DeviceId) (l : LinkId) : Prop :=
  ∃ h, c.links[l]? = some (.handshaking h) ∧ h.expect = some p

def Dialling (c : Core X P) (p : DeviceId) : Prop :=
  ∃ (d : DialToken) (e : ℕ × PeerDial), c.pendingPeerDials[d]? = some e ∧ e.2.peer = p

def UpWith (c : Core X P) (p : DeviceId) (l : LinkId) : Prop :=
  ∃ u, c.links[l]? = some (.up u) ∧ u.peer = p

/-- What `peerState` says of the peer is what the tables hold. -/
structure ReportsTruly (c : Core X P) (p : DeviceId) : Prop where
  reachable : c.peerState p = .reachable ↔ c.Reaches p
  connecting : c.peerState p = .connecting ↔
    ¬ c.Reaches p ∧ (c.Dialling p ∨ ∃ l, c.Towards p l)

/-- No handshake meant for a peer that has a session comes before every session with it. -/
def SessionsFirst (c : Core X P) (p : DeviceId) : Prop :=
  ∀ l, c.Towards p l → c.Reaches p → ∃ m < l, c.UpWith p m

variable {c : Core X P} {p : DeviceId}

theorem Towards.not_up {l m : LinkId} (h : c.Towards p l) (h' : c.UpWith p m) : m ≠ l := by
  rintro rfl
  obtain ⟨g, hg, -⟩ := h
  obtain ⟨u, hu, -⟩ := h'
  rw [hg] at hu
  cases hu

theorem dialling_iff :
    c.pendingPeerDials.toList.any (fun e => e.2.2.peer = p) = true ↔ c.Dialling p := by
  rw [List.any_eq_true]
  constructor
  · rintro ⟨⟨d, e⟩, hmem, hp⟩
    exact ⟨d, e, ExtTreeMap.mem_toList_iff_getElem?_eq_some.mp hmem, by simpa using hp⟩
  · rintro ⟨d, e, he, hp⟩
    exact ⟨(d, e), ExtTreeMap.mem_toList_iff_getElem?_eq_some.mpr he, by simpa using hp⟩

theorem UpWith.report {l : LinkId} (h : c.UpWith p l) :
    ∃ st, c.links[l]? = some st ∧ st.report p = some .reachable := by
  obtain ⟨u, hu, hpeer⟩ := h
  exact ⟨.up u, hu, if_pos hpeer⟩

theorem Towards.report {l : LinkId} (h : c.Towards p l) :
    ∃ st, c.links[l]? = some st ∧ st.report p = some .connecting := by
  obtain ⟨g, hg, hexp⟩ := h
  exact ⟨.handshaking g, hg, if_pos hexp⟩

/-- Whatever a link says, it is established with the peer or in a handshake meant for it. -/
theorem report_cases {l : LinkId} {x : LinkState X} {st : PeerState} (hl : c.links[l]? = some x)
    (h : x.report p = some st) :
    (st = .reachable ∧ c.UpWith p l) ∨ (st = .connecting ∧ c.Towards p l) := by
  cases x with
  | pending q => cases h
  | up u =>
    by_cases hpeer : u.peer = p
    · rw [LinkState.report, if_pos hpeer] at h
      cases h
      exact .inl ⟨rfl, u, hl, hpeer⟩
    · rw [LinkState.report, if_neg hpeer] at h
      cases h
  | handshaking g =>
    by_cases hexp : g.expect = some p
    · rw [LinkState.report, if_pos hexp] at h
      cases h
      exact .inr ⟨rfl, g, hl, hexp⟩
    · rw [LinkState.report, if_neg hexp] at h
      cases h

theorem peerState_eq (c : Core X P) (p : DeviceId) :
    c.peerState p = (c.links.toList.findSome? fun e => e.2.report p).getD
      (if c.pendingPeerDials.toList.any (fun e => e.2.2.peer = p) then .connecting
        else .unreachable) := by
  have hsame : ∀ f : LinkId × LinkState X → Option PeerState, (∀ e, f e = e.2.report p) →
      c.links.toList.findSome? f = c.links.toList.findSome? fun e => e.2.report p :=
    fun f hf => congrArg (c.links.toList.findSome? ·) (funext hf)
  unfold peerState
  rw [hsame _ ?same]
  case same =>
    rintro ⟨l, st⟩
    cases st <;> rfl
  cases c.links.toList.findSome? fun e => e.2.report p <;> rfl

/-- The first link, by id, that says anything about the peer decides; else a pending dial. -/
theorem peerState_cases (c : Core X P) (p : DeviceId) :
    (∃ l, c.UpWith p l ∧ c.peerState p = .reachable ∧ ∀ m < l, ¬ c.Towards p m) ∨
    (∃ l, c.Towards p l ∧ c.peerState p = .connecting ∧ ∀ m < l, ¬ c.UpWith p m) ∨
    (¬ c.Reaches p ∧ (∀ l, ¬ c.Towards p l) ∧ (c.peerState p = .connecting ↔ c.Dialling p) ∧
      c.peerState p ≠ .reachable) := by
  rw [peerState_eq]
  cases hscan : c.links.toList.findSome? fun e => e.2.report p with
  | some st =>
    obtain ⟨l, x, hl, hx, hbefore⟩ := Lib.findSome?_toList_eq_some hscan
    have silent : ∀ m < l, ∀ (y : LinkState X) st', c.links[m]? = some y →
        y.report p ≠ some st' := by
      intro m hm y st' hy hrep
      have hnone := hbefore m y (Nat.compare_eq_lt.mpr hm) hy
      rw [hrep] at hnone
      cases hnone
    rcases report_cases hl hx with ⟨rfl, hup⟩ | ⟨rfl, htowards⟩
    · refine .inl ⟨l, hup, rfl, fun m hm h => ?_⟩
      obtain ⟨y, hy, hrep⟩ := h.report
      exact silent m hm y _ hy hrep
    · refine .inr (.inl ⟨l, htowards, rfl, fun m hm h => ?_⟩)
      obtain ⟨y, hy, hrep⟩ := h.report
      exact silent m hm y _ hy hrep
  | none =>
    have silent : ∀ (l : LinkId) (y : LinkState X) st', c.links[l]? = some y →
        y.report p ≠ some st' := by
      intro l y st' hy hrep
      have hnone := Lib.findSome?_toList_eq_none hscan hy
      rw [hrep] at hnone
      cases hnone
    refine .inr (.inr ⟨?_, ?_, ?_⟩)
    · rintro ⟨l, hup⟩
      obtain ⟨y, hy, hrep⟩ := UpWith.report hup
      exact silent l y _ hy hrep
    · intro l htowards
      obtain ⟨y, hy, hrep⟩ := htowards.report
      exact silent l y _ hy hrep
    · rw [← dialling_iff, Option.getD_none]
      by_cases hdial : c.pendingPeerDials.toList.any fun e => e.2.2.peer = p
      · rw [if_pos hdial]
        exact ⟨iff_of_true rfl hdial, nofun⟩
      · rw [if_neg hdial]
        exact ⟨iff_of_false nofun hdial, nofun⟩

/-- An attempt on a better transport, by its id, hides every session with the peer. -/
theorem connecting_of_towards_first {l : LinkId} (h : c.Towards p l)
    (hfirst : ∀ m, c.UpWith p m → l < m) : c.peerState p = .connecting := by
  rcases c.peerState_cases p with ⟨m, hup, -, hbefore⟩ | ⟨m, -, hst, -⟩ | ⟨-, hnone, -, -⟩
  · exact absurd h (hbefore l (hfirst m hup))
  · exact hst
  · exact absurd h (hnone l)

/-- Reachability is reported truly exactly where sessions come first. -/
theorem reports_truly_iff (c : Core X P) (p : DeviceId) : c.ReportsTruly p ↔ c.SessionsFirst p := by
  constructor
  · intro htrue l htowards hreach
    have hst := htrue.reachable.mpr hreach
    rcases c.peerState_cases p with ⟨m, hup, -, hbefore⟩ | ⟨m, -, hst', -⟩ | ⟨hnot, -, -, -⟩
    · by_cases hlt : m < l
      · exact ⟨m, hlt, hup⟩
      · have hne := htowards.not_up hup
        exact absurd htowards (hbefore l (Nat.lt_of_le_of_ne (Nat.le_of_not_lt hlt) hne.symm))
    · rw [hst] at hst'
      cases hst'
    · exact absurd hreach hnot
  · intro hfirst
    rcases c.peerState_cases p with ⟨l, hup, hst, -⟩ | ⟨l, htowards, hst, hbefore⟩ |
      ⟨hnot, hnone, hdial, hst⟩
    · have hreach : c.Reaches p := ⟨l, hup⟩
      constructor <;> simp [hst, hreach]
    · have hnot : ¬ c.Reaches p := by
        intro hreach
        obtain ⟨m, hlt, hup⟩ := hfirst l htowards hreach
        exact hbefore m hlt hup
      have hsome : ∃ l, c.Towards p l := ⟨l, htowards⟩
      constructor <;> simp [hst, hnot, hsome]
    · constructor
      · simp [hst, hnot]
      · simp [hdial, hnot, hnone]

end Core

namespace Mock

def caller : DeviceId := DeviceId.of crates (device 5).publicKey

/-- A phone calls over Bluetooth, is seen on the network, and the dial there is answered. -/
def upgrade : List (Core.Input crates) :=
  [at_ 0 0 (.linkUp (.new 2 1) (.ble 2) none),
    at_ 1 3 (.linkRecv (.new 2 1) (openerFrame 5 1 (phoneHello 1))),
    at_ 2 0 (.discovered 1 ⟨some (Fingerprint.of crates (device 5).publicKey), "phone",
      "10.0.0.9:7", false⟩),
    at_ 3 4 (.linkUp (.new 1 1) (.tcpLan 1) (some 1))]

end Mock

/-- While the dial on the network shakes hands, the phone with its session looks not reachable. -/
theorem upgrade_hides_session :
    ((Mock.paired (P := Unit) 1 5 []).build.run Mock.upgrade).Reaches Mock.caller ∧
    ((Mock.paired (P := Unit) 1 5 []).build.run Mock.upgrade).peerState Mock.caller = .connecting ∧
    ¬ ∀ (is : List (Core.Input Mock.crates)) (p : DeviceId),
      ((Mock.paired (P := Unit) 1 5 []).build.run is).ReportsTruly p := by
  have hreach : ((Mock.paired (P := Unit) 1 5 []).build.run Mock.upgrade).Reaches Mock.caller := by
    decide +kernel
  have hst : ((Mock.paired (P := Unit) 1 5 []).build.run Mock.upgrade).peerState Mock.caller =
      .connecting := by decide +kernel
  refine ⟨hreach, hst, fun h => ?_⟩
  have htrue := (h Mock.upgrade Mock.caller).reachable.mpr hreach
  rw [hst] at htrue
  cases htrue

end Acrylius
