import Acrylius.Core.Attempts

/-! What an automatic trigger dials, against what is already under way to the peer. -/
namespace Acrylius
open Proto Std

variable {X : Crates} {P : Type}

namespace Core

/-- The routes known for a peer, best first: those on file, else what discovery has shown. -/
def knownRoutes (c : Core X P) (p : DeviceId) : List (TransportId × String) :=
  ((c.addrs[p]?).orElse fun _ => do
    let record ← c.peers[p]?
    let fp ← record.fingerprint X
    let sighting ← c.seen[fp]?
    return sighting.routes).elim [] Routes.inPreferenceOrder

/-- The routes an automatic trigger would walk for a peer. -/
def autoRoutes (c : Core X P) (p : DeviceId) : List (TransportId × String) :=
  if c.pendingPeerDials.toList.any (fun e => e.2.2.peer = p) then []
  else match c.peerState p with
    | .unreachable => c.knownRoutes p
    | .connecting => []
    | .reachable => (c.bestLinkTransport p).elim [] fun current =>
      (c.knownRoutes p).filter (·.1 < current)

/-- A dial for the peer on this transport adds to nothing that is there: no dial and no handshake
is under way, and every session is on a worse transport. -/
structure DialInOrder (c : Core X P) (p : DeviceId) (t : TransportId) : Prop where
  alone : ¬ c.Dialling p
  first : ∀ l, ¬ c.Towards p l
  better : ∀ (l : LinkId) (u : UpLink X), c.links[l]? = some (.up u) → u.peer = p → t < u.transport

/-- The peer has a session before every handshake with it, in the order of the links, and a route
is known that is better than the session last heard on; yet a handshake is under way, or another
session is on a transport as good as that route. -/
structure Overlap (c : Core X P) (p : DeviceId) : Prop where
  idle : ¬ c.Dialling p
  session : ∃ l, c.UpWith p l ∧ ∀ m < l, ¬ c.Towards p m
  route : ∃ r current, (c.knownRoutes p).head? = some r ∧ c.bestLinkTransport p = some current ∧
    r.1 < current ∧ ((∃ l, c.Towards p l) ∨
      ∃ (l : LinkId) (u : UpLink X), c.links[l]? = some (.up u) ∧ u.peer = p ∧ u.transport ≤ r.1)

variable {c : Core X P} {p : DeviceId}

theorem knownRoutes_ascending (c : Core X P) (p : DeviceId) : Ascending (c.knownRoutes p) := by
  have known : ∀ k : Option Routes, Ascending (k.elim [] Routes.inPreferenceOrder) := by
    intro k
    cases k with
    | none => exact .nil
    | some r => exact r.ascending
  exact known _

/-- Of ascending routes, the best one that is good enough is the best one there is. -/
theorem head_of_filter {routes rs : List (TransportId × String)} {r : TransportId × String}
    {t : TransportId} (h : Ascending routes) (hr : routes.filter (·.1 < t) = r :: rs) :
    routes.head? = some r ∧ r.1 < t := by
  cases routes with
  | nil => cases hr
  | cons r₀ rest =>
    have hmem : r ∈ (r₀ :: rest).filter (·.1 < t) := by simp [hr]
    obtain ⟨hmem, hlt⟩ := List.mem_filter.mp hmem
    have hlt : r.1 < t := by simpa using hlt
    have hfirst : r₀.1 < t := by
      rcases List.mem_cons.mp hmem with rfl | hmem
      · exact hlt
      · exact Nat.lt_trans ((List.pairwise_cons.mp h).1 r hmem) hlt
    rw [List.filter_cons_of_pos (by simpa using hfirst)] at hr
    cases hr
    exact ⟨rfl, hlt⟩

theorem filter_of_head {routes : List (TransportId × String)} {r : TransportId × String}
    {t : TransportId} (h : routes.head? = some r) (hlt : r.1 < t) :
    ∃ rs, routes.filter (·.1 < t) = r :: rs := by
  cases routes with
  | nil => cases h
  | cons r₀ rest =>
    cases h
    exact ⟨_, List.filter_cons_of_pos (by simpa using hlt)⟩

theorem autoRoutes_of_idle (h : ¬ c.Dialling p) : c.autoRoutes p = match c.peerState p with
    | .unreachable => c.knownRoutes p
    | .connecting => []
    | .reachable => (c.bestLinkTransport p).elim [] fun current =>
      (c.knownRoutes p).filter (·.1 < current) := by
  rw [autoRoutes, if_neg (fun hany => h (dialling_iff.mp hany))]

theorem idle_of_autoRoutes {r : TransportId × String} {rs : List (TransportId × String)}
    (h : c.autoRoutes p = r :: rs) : ¬ c.Dialling p := by
  intro hdial
  rw [autoRoutes, if_pos (dialling_iff.mpr hdial)] at h
  cases h

theorem inOrder_of_unreachable (hidle : ¬ c.Dialling p) (h : c.peerState p = .unreachable)
    (t : TransportId) : c.DialInOrder p t := by
  rcases c.peerState_cases p with ⟨l, -, hst, -⟩ | ⟨l, -, hst, -⟩ | ⟨hnot, hnone, -, -⟩
  · rw [h] at hst
    cases hst
  · rw [h] at hst
    cases hst
  · exact ⟨hidle, hnone, fun l u hu hp => absurd ⟨l, u, hu, hp⟩ hnot⟩

/-- An automatic dial is out of order exactly where attempts or sessions overlap. -/
theorem overlap_iff : c.Overlap p ↔
    ∃ r rs, c.autoRoutes p = r :: rs ∧ ¬ c.DialInOrder p r.1 := by
  constructor
  · rintro ⟨hidle, ⟨l, hup, hfirst⟩, r, current, hhead, hbest, hlt, hother⟩
    have hst : c.peerState p = .reachable := by
      rcases c.peerState_cases p with ⟨m, -, hst, -⟩ | ⟨m, htowards, -, hbefore⟩ | ⟨hnot, -, -, -⟩
      · exact hst
      · by_cases hml : m < l
        · exact absurd htowards (hfirst m hml)
        · have hne := htowards.not_up hup
          exact absurd hup (hbefore l (Nat.lt_of_le_of_ne (Nat.le_of_not_lt hml) hne))
      · exact absurd ⟨l, hup⟩ hnot
    obtain ⟨rs, hrs⟩ := filter_of_head hhead hlt
    refine ⟨r, rs, ?_, ?_⟩
    · rw [autoRoutes_of_idle hidle, hst, hbest]
      exact hrs
    · intro horder
      rcases hother with ⟨m, htowards⟩ | ⟨m, u, hu, hp, hle⟩
      · exact horder.first m htowards
      · have hlt' := horder.better m u hu hp
        exact absurd hlt' (Nat.not_lt_of_le hle)
  · rintro ⟨r, rs, hroutes, hnot⟩
    have hidle := idle_of_autoRoutes hroutes
    rw [autoRoutes_of_idle hidle] at hroutes
    rcases c.peerState_cases p with ⟨l, hup, hst, hfirst⟩ | ⟨l, -, hst, -⟩ | ⟨-, -, -, hst⟩
    · rw [hst] at hroutes
      cases hbest : c.bestLinkTransport p with
      | none =>
        rw [hbest] at hroutes
        cases hroutes
      | some current =>
        rw [hbest] at hroutes
        obtain ⟨hhead, hlt⟩ := head_of_filter (c.knownRoutes_ascending p) hroutes
        refine ⟨hidle, ⟨l, hup, hfirst⟩, r, current, hhead, hbest, hlt, ?_⟩
        by_cases htowards : ∃ m, c.Towards p m
        · exact .inl htowards
        · right
          by_contra hworse
          refine hnot ⟨hidle, fun m hm => htowards ⟨m, hm⟩, fun m u hu hp => ?_⟩
          by_contra hle
          exact hworse ⟨m, u, hu, hp, Nat.le_of_not_lt hle⟩
    · rw [hst] at hroutes
      cases hroutes
    · cases hcase : c.peerState p with
      | unreachable => exact absurd (inOrder_of_unreachable hidle hcase r.1) hnot
      | connecting =>
        rw [hcase] at hroutes
        cases hroutes
      | reachable => exact absurd hcase hst

end Core

/-- A dial as it is made: for whom, under which token, and on which route. -/
abbrev Made := DeviceId × DialToken × (TransportId × String)

structure Dials (s t : Exec X P) (made : List Made) : Prop where
  dials : t.dials = s.dials ++ made.map fun m => (m.1, m.2.1)
  actions : ∃ as, t.actions = s.actions ++ as ∧
    as.filter Action.isDial = made.map fun m => .dial m.2.2.1 m.2.2.2 m.2.1

namespace Dials
variable {s t r : Exec X P} {made made' : List Made}

theorem trans (h : Dials s t made) (h' : Dials t r made') : Dials s r (made ++ made') := by
  obtain ⟨hd, as, ha, hf⟩ := h
  obtain ⟨hd', bs, hb, hg⟩ := h'
  refine ⟨?_, as ++ bs, ?_, ?_⟩
  · rw [hd', hd, List.map_append, List.append_assoc]
  · rw [hb, ha, List.append_assoc]
  · rw [List.filter_append, hf, hg, List.map_append]

theorem of_still (h : Still s t) : Dials s t [] := by
  obtain ⟨as, ha, hmute⟩ := h.mute
  refine ⟨by simp [h.made], as, ha, ?_⟩
  rw [List.filter_eq_nil_iff.mpr fun a hmem => by simp [hmute a hmem]]
  rfl

end Dials

namespace Exec
variable {nowMs : ℕ}

/-- What an automatic trigger does about a peer is walk these routes. -/
theorem connectPeer_auto (s : Exec X P) (nowMs : ℕ) (p : DeviceId) :
    (∃ r rs, s.core.autoRoutes p = r :: rs ∧
      s.connectPeer nowMs p false = s.dialPeer nowMs p r rs false) ∨
    (s.core.autoRoutes p = [] ∧ ∃ trouble,
      s.connectPeer nowMs p false = { s with core.dialTrouble := trouble }) := by
  have walk : ∀ routes, (∃ r rs, routes = r :: rs ∧
      s.connectRoutes nowMs p routes false = s.dialPeer nowMs p r rs false) ∨
      (routes = [] ∧ ∃ trouble,
        s.connectRoutes nowMs p routes false = { s with core.dialTrouble := trouble }) := by
    intro routes
    cases routes with
    | nil => exact .inr ⟨rfl, _, rfl⟩
    | cons r rs => exact .inl ⟨r, rs, rfl, rfl⟩
  have same : s.core.autoRoutes p = [] → s.connectPeer nowMs p false = s →
      (∃ r rs, s.core.autoRoutes p = r :: rs ∧
        s.connectPeer nowMs p false = s.dialPeer nowMs p r rs false) ∨
      (s.core.autoRoutes p = [] ∧ ∃ trouble,
        s.connectPeer nowMs p false = { s with core.dialTrouble := trouble }) :=
    fun hnil hs => .inr ⟨hnil, s.core.dialTrouble, hs⟩
  by_cases hdial : s.core.Dialling p
  · have hany := Core.dialling_iff.mpr hdial
    refine same ?_ ?_
    · rw [Core.autoRoutes, if_pos hany]
    · simp [connectPeer, hany]
  · have hany : ¬ s.core.pendingPeerDials.toList.any (fun e => e.2.2.peer = p) = true :=
      fun h => hdial (Core.dialling_iff.mp h)
    have hroutes := Core.autoRoutes_of_idle hdial
    cases hst : s.core.peerState p with
    | unreachable =>
      have hconn : s.connectPeer nowMs p false =
          s.connectRoutes nowMs p (s.core.knownRoutes p) false := by
        simp only [connectPeer, hany, hst, Bool.not_false, Bool.true_and]
        rfl
      rw [hst] at hroutes
      rw [hroutes, hconn]
      exact walk _
    | connecting =>
      rw [hst] at hroutes
      exact same hroutes (by simp [connectPeer, hany, hst])
    | reachable =>
      rw [hst] at hroutes
      cases hbest : s.core.bestLinkTransport p with
      | none =>
        rw [hbest] at hroutes
        exact same hroutes (by simp [connectPeer, hany, hst, hbest])
      | some current =>
        rw [hbest] at hroutes
        have hconn : s.connectPeer nowMs p false =
            if ((s.core.knownRoutes p).filter (·.1 < current)).isEmpty then s
            else s.connectRoutes nowMs p ((s.core.knownRoutes p).filter (·.1 < current)) false := by
          simp only [connectPeer, hany, hst, hbest, Bool.not_false, Bool.true_and]
          rfl
        by_cases hnil : (s.core.knownRoutes p).filter (·.1 < current) = []
        · refine same (hroutes.trans hnil) ?_
          rw [hconn, hnil]
          rfl
        · rw [hconn, if_neg (by simpa using hnil), hroutes]
          exact walk _

/-- What is dialled for a peer depends on its own dials only. -/
theorem autoRoutes_congr {c d : Core X P} {p : DeviceId} (hlinks : d.links = c.links)
    (hpeers : d.peers = c.peers) (haddrs : d.addrs = c.addrs) (hseen : d.seen = c.seen)
    (hdial : d.Dialling p ↔ c.Dialling p) : d.autoRoutes p = c.autoRoutes p := by
  have hany : d.pendingPeerDials.toList.any (fun e => e.2.2.peer = p) =
      c.pendingPeerDials.toList.any (fun e => e.2.2.peer = p) := by
    rw [Bool.eq_iff_iff, Core.dialling_iff, Core.dialling_iff]
    exact hdial
  have hstate : d.peerState p = c.peerState p := by
    rw [Core.peerState_eq, Core.peerState_eq, hlinks, hany]
  have hknown : d.knownRoutes p = c.knownRoutes p := by
    unfold Core.knownRoutes
    rw [hpeers, haddrs, hseen]
  have hbest : d.bestLinkTransport p = c.bestLinkTransport p := by
    unfold Core.bestLinkTransport Core.bestLink Core.upLinks
    rw [hlinks]
  unfold Core.autoRoutes
  rw [hany, hstate, hknown, hbest]

theorem dialPeer_dialling {s : Exec X P} (h : s.core.Orderly) {p q : DeviceId} (hne : q ≠ p)
    (r : TransportId × String) (rs : List (TransportId × String)) (byHand : Bool) :
    (s.dialPeer nowMs p r rs byHand).core.Dialling q ↔ s.core.Dialling q := by
  constructor
  · rintro ⟨d, e, he, hq⟩
    rcases Lib.getElem?_of_insert he with ⟨-, rfl⟩ | ⟨-, he⟩
    · exact absurd hq.symm hne
    · exact ⟨d, e, he, hq⟩
  · rintro ⟨d, e, he, hq⟩
    have hissued := h.issued d e he
    have hnew : d ≠ s.core.nextDial + 1 := by
      rintro rfl
      exact Nat.not_succ_le_self _ hissued
    refine ⟨d, e, ?_, hq⟩
    exact (Lib.getElem?_insert_of_ne hnew).trans he

theorem dialPeer_dials (s : Exec X P) (p : DeviceId) (r : TransportId × String)
    (rs : List (TransportId × String)) (byHand : Bool) :
    Dials s (s.dialPeer nowMs p r rs byHand) [(p, s.core.nextDial + 1, r)] :=
  ⟨rfl, [_], rfl, rfl⟩

/-- A pass over distinct peers dials each on its own first route, under a token of its own. -/
theorem connectAll_dials (nowMs : ℕ) (qs : List DeviceId) (hnodup : qs.Nodup) {s : Exec X P}
    (h : s.core.Orderly) :
    ∃ made, Dials s (qs.foldl (fun s p => s.connectPeer nowMs p false) s) made ∧
      (∀ m ∈ made, s.core.nextDial < m.2.1) ∧
      (∀ m ∈ made, ∀ m' ∈ made, m.2.1 = m'.2.1 → m = m') ∧
      (∀ m ∈ made, m.1 ∈ qs ∧ ∃ rs, s.core.autoRoutes m.1 = m.2.2 :: rs) ∧
      ∀ q ∈ qs, ∀ r rs, s.core.autoRoutes q = r :: rs → ∃ d, (q, d, r) ∈ made := by
  induction qs generalizing s with
  | nil => exact ⟨[], ⟨(List.append_nil _).symm, [], (List.append_nil _).symm, rfl⟩, by simp⟩
  | cons p qs ih =>
    obtain ⟨hp, hqs⟩ := List.nodup_cons.mp hnodup
    have hnext : (s.connectPeer nowMs p false).core.Orderly := connectPeer_orderly h p false
    rw [List.foldl_cons]
    rcases s.connectPeer_auto nowMs p with ⟨r, rs, hroutes, heq⟩ | ⟨hnil, trouble, heq⟩
    · rw [heq] at hnext ⊢
      obtain ⟨made, hmade, hlate, huniq, hfrom, hto⟩ := ih hqs hnext
      have hsame : ∀ q ∈ qs, (s.dialPeer nowMs p r rs false).core.autoRoutes q =
          s.core.autoRoutes q := by
        intro q hq
        have hne : q ≠ p := by
          rintro rfl
          exact hp hq
        exact autoRoutes_congr rfl rfl rfl rfl (dialPeer_dialling h hne r rs false)
      have hlate' : ∀ m ∈ made, s.core.nextDial + 1 < m.2.1 := hlate
      refine ⟨(p, s.core.nextDial + 1, r) :: made, (dialPeer_dials s p r rs false).trans hmade,
        ?_, ?_, ?_, ?_⟩
      · intro m hm
        rcases List.mem_cons.mp hm with rfl | hm
        · exact Nat.lt_succ_self _
        · exact Nat.lt_of_succ_lt (hlate' m hm)
      · intro m hm m' hm' hd
        rcases List.mem_cons.mp hm with rfl | hm <;> rcases List.mem_cons.mp hm' with rfl | hm'
        · rfl
        · exact absurd hd (Nat.ne_of_lt (hlate' m' hm'))
        · exact absurd hd.symm (Nat.ne_of_lt (hlate' m hm))
        · exact huniq m hm m' hm' hd
      · intro m hm
        rcases List.mem_cons.mp hm with rfl | hm
        · exact ⟨by simp, rs, hroutes⟩
        · obtain ⟨hmem, rs', hr⟩ := hfrom m hm
          rw [hsame m.1 hmem] at hr
          exact ⟨List.mem_cons_of_mem _ hmem, rs', hr⟩
      · intro q hq r' rs' hr
        rcases List.mem_cons.mp hq with rfl | hq
        · rw [hroutes] at hr
          cases hr
          exact ⟨s.core.nextDial + 1, by simp⟩
        · rw [← hsame q hq] at hr
          obtain ⟨d, hd⟩ := hto q hq r' rs' hr
          exact ⟨d, List.mem_cons_of_mem _ hd⟩
    · rw [heq] at hnext ⊢
      obtain ⟨made, hmade, hlate, huniq, hfrom, hto⟩ := ih hqs hnext
      have hnone : Dials s { s with core.dialTrouble := trouble } [] :=
        ⟨(List.append_nil _).symm, [], (List.append_nil _).symm, rfl⟩
      refine ⟨made, hnone.trans hmade, hlate, huniq, ?_, ?_⟩
      · intro m hm
        obtain ⟨hmem, rs, hr⟩ := hfrom m hm
        exact ⟨List.mem_cons_of_mem _ hmem, rs, hr⟩
      · intro q hq r rs hr
        rcases List.mem_cons.mp hq with rfl | hq
        · rw [hnil] at hr
          cases hr
        · exact hto q hq r rs hr

variable [Plugin P]

def beforeBeat (s : Exec X P) (nowMs : ℕ) : Exec X P :=
  (((s.lapsePairing nowMs).giveUpWaiting nowMs).closeStaleLinks nowMs).expireDials nowMs

/-- Where the automatic dialling of an event starts, and the peers it goes through. -/
def autoStart (s : Exec X P) (nowMs : ℕ) : Event → Exec X P × List DeviceId
  | .discovered transport peer =>
    match peer.fingerprint with
    | none => (s, [])
    | some fp =>
      let seen := if maxSeen ≤ s.core.seen.size ∧ fp ∉ s.core.seen then ∅ else s.core.seen
      let routes := (seen[fp]?).elim ∅ (·.routes)
      let seen := seen.insert fp
        { routes := Routes.set routes transport peer.addr, name := peer.name,
          pairing := peer.pairing }
      match (s.core.recordOf fp).bind (·.id X) with
      | some id =>
        let routes := (s.core.addrs[id]?).getD ∅
        let addrs := s.core.addrs.insert id (Routes.set routes transport peer.addr)
        ({ s with core := { s.core with seen, addrs } }, [id])
      | none => ({ s with core.seen := seen }, [])
  | .tick =>
    let s := s.beforeBeat nowMs
    if s.core.reconnectAt.all (· ≤ nowMs) then
      let s := { s with core.reconnectAt := some (nowMs + s.core.config.reconnectEveryMs) }
      (s, s.core.peers.keys.filter fun id => (s.core.bestLink id).isNone && s.core.addrs.contains id)
    else (s, [])
  | .localCommand .reconsiderRoutes => (s, s.core.peers.keys)
  | _ => (s, [])

theorem beforeBeat_orderly {s : Exec X P} (h : s.core.Orderly) :
    (s.beforeBeat nowMs).core.Orderly := by
  unfold beforeBeat
  have hlapsed : (s.lapsePairing nowMs).core.Orderly := lapsePairing_orderly h
  have hwaited := hlapsed.still (giveUpWaiting_still _ nowMs)
  have hclosed : (((s.lapsePairing nowMs).giveUpWaiting nowMs).closeStaleLinks nowMs).core.Orderly :=
    .foldl _ (fun s l hs => closeStale_orderly hs l) hwaited
  exact .foldl _ (fun s d hs => expireDial_orderly hs d) hclosed

end Exec

/-- The events on which the core dials of its own accord. -/
def Event.automatic : Event → Bool
  | .discovered .. | .tick | .localCommand .reconsiderRoutes => true
  | _ => false

namespace Exec
variable {nowMs : ℕ} [Plugin P]

theorem autoStart_orderly {s : Exec X P} (h : s.core.Orderly) (nowMs : ℕ) (e : Event) :
    (s.autoStart nowMs e).1.core.Orderly := by
  cases e <;> dsimp only [autoStart]
  case discovered transport peer =>
    split
    · exact h
    · split
      · exact h.of_tables rfl rfl rfl
      · exact h.of_tables rfl rfl rfl
  case tick =>
    have hbeat : (s.beforeBeat nowMs).core.Orderly := beforeBeat_orderly h
    generalize s.beforeBeat nowMs = t at hbeat
    split
    · exact hbeat.of_tables rfl rfl rfl
    · exact hbeat
  case localCommand cmd => cases cmd <;> exact h
  all_goals exact h

theorem autoStart_nodup (s : Exec X P) (nowMs : ℕ) (e : Event) : (s.autoStart nowMs e).2.Nodup := by
  have keys : ∀ m : ExtTreeMap DeviceId PeerRecord, m.keys.Nodup := fun m => ExtTreeMap.nodup_keys
  cases e <;> dsimp only [autoStart]
  case discovered transport peer =>
    split
    · exact List.nodup_nil
    · split
      · exact List.nodup_singleton _
      · exact List.nodup_nil
  case tick =>
    generalize s.beforeBeat nowMs = t
    split
    · exact (keys _).filter _
    · exact List.nodup_nil
  case localCommand cmd =>
    cases cmd
    case reconsiderRoutes => exact keys _
    all_goals exact List.nodup_nil
  all_goals exact List.nodup_nil

theorem onDiscovered_auto (s : Exec X P) (transport : TransportId) (peer : DiscoveredPeer) :
    Still ((s.autoStart nowMs (.discovered transport peer)).2.foldl
      (fun s p => s.connectPeer nowMs p false) (s.autoStart nowMs (.discovered transport peer)).1)
      (s.onDiscovered nowMs transport peer) := by
  unfold onDiscovered autoStart
  dsimp only
  cases peer.fingerprint with
  | none => exact .refl s
  | some fp =>
    dsimp only
    generalize (if maxSeen ≤ s.core.seen.size ∧ fp ∉ s.core.seen then
      (∅ : ExtTreeMap Fingerprint Sighting) else s.core.seen) = seen
    split
    · rename_i id hid
      split
      · rename_i id' hid'
        obtain rfl : id = id' := Option.some.inj (hid.symm.trans hid')
        exact .refl _
      · rename_i hid'
        cases hid.symm.trans hid'
    · rename_i hid
      split
      · rename_i id' hid'
        cases hid.symm.trans hid'
      · exact announce_still _ fp

theorem heartbeat_auto (s : Exec X P) :
    (s.beforeBeat nowMs).heartbeat nowMs = (s.autoStart nowMs .tick).2.foldl
      (fun s p => s.connectPeer nowMs p false) (s.autoStart nowMs .tick).1 := by
  unfold autoStart
  generalize s.beforeBeat nowMs = t
  unfold heartbeat
  by_cases hdue : t.core.reconnectAt.all (· ≤ nowMs)
  · simp only [hdue, if_true]
  · simp only [hdue]
    rfl

/-- From there an automatic event goes through those peers, and dials nobody else. -/
theorem onEvent_auto (s : Exec X P) (nowMs : ℕ) (seed : X.Seed) {e : Event} (auto : e.automatic) :
    Still ((s.autoStart nowMs e).2.foldl (fun s p => s.connectPeer nowMs p false)
      (s.autoStart nowMs e).1) (s.onEvent nowMs seed e) := by
  cases e <;> try cases auto
  case discovered transport peer => exact s.onDiscovered_auto transport peer
  case tick =>
    have htick : s.onEvent nowMs seed .tick =
        ((s.beforeBeat nowMs).heartbeat nowMs).wakePlugins nowMs := rfl
    rw [← heartbeat_auto, htick]
    exact wakePlugins_still _ _
  case localCommand cmd =>
    cases cmd <;> try cases auto
    exact .refl _

end Exec

namespace Core
variable [Plugin P]

/-- Every dial that an automatic trigger makes for a peer was in order when the dialling began. -/
def DialsInOrder (c : Core X P) (i : Input X) : Prop :=
  i.event.automatic → ∀ p t addr d,
    (p, d) ∈ (c.exec i).dials.drop
      ((c.start i).autoStart i.now.monotonicMs i.event).1.dials.length →
    .dial t addr d ∈ (c.exec i).actions.drop
      ((c.start i).autoStart i.now.monotonicMs i.event).1.actions.length →
    ((c.start i).autoStart i.now.monotonicMs i.event).1.core.DialInOrder p t

/-- Automatic dialling keeps to its rule exactly where no peer it considers has attempts or sessions
that overlap. -/
theorem dials_in_order_iff (b : CoreBuilder X P) (is : List (Input X)) (i : Input X) :
    (b.build.run is).DialsInOrder i ↔ (i.event.automatic →
      ∀ p ∈ (((b.build.run is).start i).autoStart i.now.monotonicMs i.event).2,
        ¬ (((b.build.run is).start i).autoStart i.now.monotonicMs i.event).1.core.Overlap p) := by
  refine forall_congr' fun auto => ?_
  have horder : ((b.build.run is).start i).core.Orderly :=
    (b.orderly.run is).of_tables rfl rfl rfl
  have hstill := ((b.build.run is).start i).onEvent_auto i.now.monotonicMs i.seed auto
  have hexec : (b.build.run is).exec i =
    ((b.build.run is).start i).onEvent i.now.monotonicMs i.seed i.event := rfl
  rw [← hexec] at hstill
  have hstart := Exec.autoStart_orderly horder i.now.monotonicMs i.event
  have hnodup := ((b.build.run is).start i).autoStart_nodup i.now.monotonicMs i.event
  obtain ⟨made, hmade, -, huniq, hfrom, hto⟩ :=
    Exec.connectAll_dials i.now.monotonicMs _ hnodup hstart
  have hall := hmade.trans (.of_still hstill)
  rw [List.append_nil] at hall
  obtain ⟨hdials, as, hacts, hfilter⟩ := hall
  rw [hdials, hacts, List.drop_left, List.drop_left]
  have hact : ∀ t addr d, Action.dial t addr d ∈ as ↔ ∃ m ∈ made, m.2.1 = d ∧ m.2.2 = (t, addr) := by
    intro t addr d
    have hmem : Action.dial t addr d ∈ as ↔ Action.dial t addr d ∈ as.filter Action.isDial := by
      simp [Action.isDial]
    rw [hmem, hfilter, List.mem_map]
    constructor
    · rintro ⟨m, hm, heq⟩
      cases heq
      exact ⟨m, hm, rfl, rfl⟩
    · rintro ⟨m, hm, hd, hr⟩
      exact ⟨m, hm, by rw [hd, hr]⟩
  constructor
  · intro hgood p hp hover
    obtain ⟨r, rs, hroutes, hnot⟩ := overlap_iff.mp hover
    obtain ⟨d, hd⟩ := hto p hp r rs hroutes
    refine hnot (hgood p r.1 r.2 d ?_ ?_)
    · exact List.mem_map.mpr ⟨_, hd, rfl⟩
    · exact (hact _ _ _).mpr ⟨_, hd, rfl, rfl⟩
  · intro hclear p t addr d hp hdial
    obtain ⟨m, hm, heq⟩ := List.mem_map.mp hp
    obtain ⟨m', hm', hd, hr⟩ := (hact _ _ _).mp hdial
    have hsame : m = m' := huniq m hm m' hm' (by rw [hd]; exact congrArg Prod.snd heq)
    subst hsame
    obtain ⟨hmem, rs, hroutes⟩ := hfrom m hm
    have hpeer : m.1 = p := congrArg Prod.fst heq
    rw [hpeer] at hmem hroutes
    by_contra hnot
    rw [hr] at hroutes
    exact hclear p hmem (overlap_iff.mpr ⟨_, rs, hroutes, hnot⟩)

end Core

namespace Mock

/-- A phone is connected over the network and, heard later, over Bluetooth; then it is seen on the
network again. -/
def seenTwice : List (Core.Input crates) :=
  [at_ 0 0 (.linkUp (.new 1 1) (.tcpLan 1) none),
    at_ 1 3 (.linkRecv (.new 1 1) (openerFrame 5 1 (phoneHello 1))),
    at_ 2 0 (.linkUp (.new 2 1) (.ble 2) none),
    at_ 3 4 (.linkRecv (.new 2 1) (openerFrame 5 1 (phoneHello 2)))]

def seenAgain : Core.Input crates :=
  at_ 4 0 (.discovered 1 ⟨some (Fingerprint.of crates (device 5).publicKey), "phone",
    "10.0.0.9:7", false⟩)

end Mock

/-- The sighting dials the phone on the transport that carries its session. -/
theorem session_transport_dialled :
    (((Mock.paired (P := Unit) 1 5 []).build.run Mock.seenTwice).exec Mock.seenAgain).actions =
      [.dial 1 "10.0.0.9:7" 1] ∧
    ¬ ∀ (is : List (Core.Input Mock.crates)) (i : Core.Input Mock.crates),
      ((Mock.paired (P := Unit) 1 5 []).build.run is).DialsInOrder i := by
  refine ⟨by decide +kernel, fun h => ?_⟩
  have horder := h Mock.seenTwice Mock.seenAgain rfl Mock.caller 1 "10.0.0.9:7" 1
    (by decide +kernel) (by decide +kernel)
  have hany : (((((Mock.paired (P := Unit) 1 5 []).build.run Mock.seenTwice).start
      Mock.seenAgain).autoStart Mock.seenAgain.now.monotonicMs Mock.seenAgain.event).1.core.upLinks
      Mock.caller).any
      (fun e => e.2.transport ≤ 1) := by decide +kernel
  obtain ⟨⟨l, u⟩, hmem, hle⟩ := List.any_eq_true.mp hany
  obtain ⟨hu, hp⟩ := Core.mem_upLinks.mp hmem
  have hlt := horder.better l u hu hp
  have hle : u.transport ≤ 1 := by simpa using hle
  exact absurd hlt (Nat.not_lt_of_le hle)

end Acrylius
