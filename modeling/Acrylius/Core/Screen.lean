import Acrylius.Core.Listing
import Acrylius.Core.Sessions
import Acrylius.Mock
import Acrylius.Plugins.Moves

/-! The screen a host keeps by folding what the core tells it, against the list the core gives
when asked. -/
namespace Acrylius
open Proto Std

variable {X : Crates} {P : Type}

abbrev Screen := ExtTreeMap Fingerprint Listing

/-- A screen follows the two events about machines and ignores the rest. -/
def Screen.follow (m : Screen) : Action → Screen
  | .ui (.discovered fp name addr transport pairing) =>
    m.insert fp { name, addr, transport, pairing }
  | .ui (.undiscovered fp) => m.erase fp
  | _ => m

namespace Screen

theorem follow_of_mute (m : Screen) {a : Action} (h : a.lists = false) : m.follow a = m := by
  unfold follow
  split
  · cases h
  · cases h
  · rfl

theorem foldl_of_mute (m : Screen) {as : List Action} (h : ∀ a ∈ as, a.lists = false) :
    as.foldl follow m = m := by
  induction as with
  | nil => rfl
  | cons a as ih =>
    rw [List.foldl_cons, follow_of_mute m (h a List.mem_cons_self)]
    exact ih fun b hb => h b (List.mem_cons_of_mem _ hb)

end Screen

namespace Core
variable {c d : Core X P} {fp : Fingerprint}

theorem paired_iff : c.Paired fp ↔
    ∃ (q : DeviceId) (r : PeerRecord), c.peers[q]? = some r ∧ r.fingerprint X = some fp := by
  unfold Paired recordOf
  rw [Option.isSome_map, List.find?_isSome]
  constructor
  · rintro ⟨⟨q, r⟩, hmem, hfp⟩
    exact ⟨q, r, ExtTreeMap.mem_toList_iff_getElem?_eq_some.mp hmem, by simpa using hfp⟩
  · rintro ⟨q, r, hr, hfp⟩
    exact ⟨(q, r), ExtTreeMap.mem_toList_iff_getElem?_eq_some.mpr hr, by simpa using hfp⟩

theorem paired_congr (h : d.peers = c.peers) : d.Paired fp ↔ c.Paired fp := by
  unfold Paired recordOf
  rw [h]

/-- There is no room for a sighting of another machine, so all are forgotten. -/
def Wipes (c : Core X P) (fp : Fingerprint) : Prop := maxSeen ≤ c.seen.size ∧ fp ∉ c.seen

instance (c : Core X P) (fp : Fingerprint) : Decidable (c.Wipes fp) :=
  inferInstanceAs (Decidable (_ ∧ _))

theorem paired_replace {p : DeviceId} {r r' : PeerRecord} (hr : c.peers[p]? = some r)
    (hkey : r'.fingerprint X = r.fingerprint X) (hd : d.peers = c.peers.insert p r') :
    d.Paired fp ↔ c.Paired fp := by
  rw [paired_iff, paired_iff, hd]
  constructor
  · rintro ⟨q, r'', hq, hfp⟩
    rcases Lib.getElem?_of_insert hq with ⟨rfl, rfl⟩ | ⟨-, hq⟩
    · exact ⟨q, r, hr, hkey ▸ hfp⟩
    · exact ⟨q, r'', hq, hfp⟩
  · rintro ⟨q, r'', hq, hfp⟩
    by_cases hqp : q = p
    · subst hqp
      rw [hr] at hq
      cases hq
      exact ⟨q, r', ExtTreeMap.getElem?_insert_self, hkey.trans hfp⟩
    · exact ⟨q, r'', (Lib.getElem?_insert_of_ne hqp).trans hq, hfp⟩

/-- Only a confirmed pairing and a revocation change which machines are paired. -/
theorem step_paired [Plugin P] {i : Input X}
    (hconfirm : i.event ≠ .localCommand (.confirmPairing true))
    (hrevoke : ∀ peer, i.event ≠ .localCommand (.revoke peer)) :
    (c.step i).Paired fp ↔ c.Paired fp := by
  rcases c.step_peers_cases i with ⟨hpeers, -⟩ | ⟨_, _, p, _, _, _, _, r, r', -, hacc, hpeers, -⟩ |
    ⟨_, _, _, he, -⟩ | ⟨p, he, -⟩
  · exact paired_congr hpeers
  · exact paired_replace hacc.known (by rw [hacc.updated]; rfl) hpeers
  · exact absurd he hconfirm
  · exact absurd he (hrevoke p)

def offer (c : Core X P) (fp : Fingerprint) : Option Listing := (c.seen[fp]?).bind Sighting.listing

/-- Every machine in the table can still be seen somewhere. -/
def Sighted (c : Core X P) : Prop :=
  ∀ (fp : Fingerprint) (s : Sighting), c.seen[fp]? = some s → s.listing.isSome

theorem Sighted.offer_eq_none (h : c.Sighted) : c.offer fp = none ↔ c.seen[fp]? = none := by
  unfold offer
  cases hs : c.seen[fp]? with
  | none => simp
  | some s =>
    have hsome := h fp s hs
    simpa [Option.isSome_iff_ne_none] using hsome

end Core

/-- What a screen makes of a stretch of a step. -/
def Tells (s t : Exec X P) (m m' : Screen) : Prop :=
  ∃ as, t.actions = s.actions ++ as ∧ as.foldl Screen.follow m = m'

namespace Tells
variable {s t r : Exec X P} {m m' m'' : Screen}

theorem trans (h : Tells s t m m') (h' : Tells t r m' m'') : Tells s r m m'' := by
  obtain ⟨as, ha, hm⟩ := h
  obtain ⟨bs, hb, hm'⟩ := h'
  refine ⟨as ++ bs, by rw [hb, ha, List.append_assoc], ?_⟩
  rw [List.foldl_append, hm, hm']

theorem of_unlisted (h : Unlisted s t) (m : Screen) : Tells s t m m := by
  obtain ⟨-, as, ha, hmute⟩ := h
  exact ⟨as, ha, Screen.foldl_of_mute m hmute⟩

theorem of_actions (h : t.actions = s.actions) (m : Screen) : Tells s t m m :=
  ⟨[], h.trans (List.append_nil _).symm, rfl⟩

theorem ui (s : Exec X P) (e : UiEvent) (m : Screen) : Tells s (s.ui e) m (m.follow (.ui e)) :=
  ⟨[.ui e], rfl, rfl⟩

end Tells

/-- A sighting after a transport withdraws an address, if a route is left. -/
def Sighting.without (g : Sighting) (transport : TransportId) (addr : String) : Option Sighting :=
  let r := g.routes.forget transport addr
  if r.2 && r.1.isEmpty then none else some { g with routes := r.1 }

/-- The address is the one shown for the machine, and it has another. -/
def Sighting.Masks (g : Sighting) (transport : TransportId) (addr : String) : Prop :=
  g.routes.inPreferenceOrder.head? = some (transport, addr) ∧
    g.routes.inPreferenceOrder ≠ [(transport, addr)]

namespace Sighting
variable {g : Sighting} {transport : TransportId} {addr : String}

theorem listing_inj {r r' : Routes} {name : String} {pairing : Bool} :
    Sighting.listing ⟨r, name, pairing⟩ = Sighting.listing ⟨r', name, pairing⟩ ↔
      r.inPreferenceOrder.head? = r'.inPreferenceOrder.head? := by
  refine (Option.map_injective fun e e' h => ?_).eq_iff
  have haddr := congrArg Listing.addr h
  have htransport := congrArg Listing.transport h
  exact Prod.ext htransport haddr

theorem listing_isSome : g.listing.isSome ↔ g.routes.inPreferenceOrder ≠ [] := by
  unfold listing
  rw [Option.isSome_map, List.isSome_head?]

theorem without_of_other (h : g.routes[transport]? ≠ some addr) :
    g.without transport addr = some g := by
  unfold without Routes.forget
  rw [if_neg h]
  rfl

theorem without_of_route (h : g.routes[transport]? = some addr) :
    g.without transport addr = if g.routes.inPreferenceOrder = [(transport, addr)] then none
      else some { g with routes := g.routes.erase transport } := by
  have hlist : (g.routes.erase transport).toList =
      g.routes.toList.filter fun e => e.1 ≠ transport := Lib.toList_erase
  have hmem := ExtTreeMap.mem_toList_iff_getElem?_eq_some.mpr h
  have hlast : (g.routes.erase transport).isEmpty ↔
      g.routes.inPreferenceOrder = [(transport, addr)] := by
    rw [ExtTreeMap.isEmpty_iff, ← ExtTreeMap.toList_eq_nil_iff, hlist, List.filter_eq_nil_iff]
    constructor
    · intro hall
      have honly : ∀ e ∈ g.routes.toList, e = (transport, addr) := by
        intro e he
        have hkey : e.1 = transport := by simpa using hall e he
        have hval := ExtTreeMap.mem_toList_iff_getElem?_eq_some.mp he
        rw [hkey, h] at hval
        exact Prod.ext hkey (Option.some.inj hval).symm
      have hnodup : g.routes.toList.Nodup :=
        g.routes.distinct_keys_toList.imp fun {a b} hne heq => hne (by simp [heq])
      have hperm := (List.perm_ext_iff_of_nodup hnodup (List.nodup_singleton _)).mpr fun e => by
        constructor
        · exact fun he => List.mem_singleton.mpr (honly e he)
        · exact fun he => List.mem_singleton.mp he ▸ hmem
      exact List.perm_singleton.mp hperm
    · intro honly e he
      rw [show g.routes.toList = [(transport, addr)] from honly] at he
      rw [List.mem_singleton.mp he]
      simp
  unfold without Routes.forget
  rw [if_pos h]
  by_cases hone : g.routes.inPreferenceOrder = [(transport, addr)]
  · rw [if_pos hone]
    simp [hlast.mpr hone]
  · rw [if_neg hone]
    simp [hlast, hone]

/-- A machine that a withdrawal leaves in the table is still seen somewhere. -/
theorem without_listed {g' : Sighting} (h : g.listing.isSome)
    (hg : g.without transport addr = some g') : g'.listing.isSome := by
  unfold without at hg
  dsimp only at hg
  split at hg
  · cases hg
  · rename_i hkeep
    cases hg
    rw [listing_isSome] at h ⊢
    dsimp only
    unfold Routes.forget at hkeep ⊢
    by_cases hroute : g.routes[transport]? = some addr
    · rw [if_pos hroute] at hkeep ⊢
      intro hnil
      refine hkeep ?_
      rw [Bool.true_and, ExtTreeMap.isEmpty_iff]
      exact ExtTreeMap.toList_eq_nil_iff.mp hnil
    · rwa [if_neg hroute]

/-- A withdrawal leaves a machine shown as it was, or takes it off, exactly if the address is not
the shown one of several. -/
theorem without_listing :
    (g.without transport addr).elim none (fun _ => g.listing) =
      (g.without transport addr).bind listing ↔ ¬ g.Masks transport addr := by
  by_cases hroute : g.routes[transport]? = some addr
  · rw [without_of_route hroute, Masks]
    by_cases hone : g.routes.inPreferenceOrder = [(transport, addr)]
    · simp [hone]
    · rw [if_neg hone]
      have hlist : Routes.inPreferenceOrder (g.routes.erase transport) =
          g.routes.inPreferenceOrder.filter fun e => e.1 ≠ transport := Lib.toList_erase
      have hmem := ExtTreeMap.mem_toList_iff_getElem?_eq_some.mpr hroute
      have hview : g.listing = (Sighting.mk (g.routes.erase transport) g.name g.pairing).listing ↔
          g.routes.inPreferenceOrder.head? =
            (g.routes.inPreferenceOrder.filter fun e => e.1 ≠ transport).head? := by
        rw [← hlist]
        exact listing_inj
      refine hview.trans ?_
      rw [and_iff_left hone]
      cases horder : g.routes.inPreferenceOrder with
      | nil =>
        rw [show g.routes.toList = [] from horder] at hmem
        cases hmem
      | cons e rest =>
        by_cases hkey : e.1 = transport
        · have hval := ExtTreeMap.mem_toList_iff_getElem?_eq_some.mp
            (show e ∈ g.routes.toList by rw [show g.routes.toList = e :: rest from horder]; simp)
          rw [hkey, hroute] at hval
          have he : e = (transport, addr) := Prod.ext hkey (Option.some.inj hval).symm
          subst he
          refine iff_of_false ?_ (not_not.mpr rfl)
          intro hhead
          have hin := List.mem_of_head? hhead.symm
          have hne := (List.mem_filter.mp hin).2
          simp at hne
        · refine iff_of_true ?_ ?_
          · rw [List.filter_cons_of_pos (by simpa using hkey)]
            rfl
          · intro hhead
            have he : e = (transport, addr) := Option.some.inj hhead
            rw [he] at hkey
            exact hkey rfl
  · rw [without_of_other hroute]
    refine iff_of_true rfl ?_
    rintro ⟨hhead, -⟩
    have hmem := List.mem_of_head? hhead
    exact hroute (ExtTreeMap.mem_toList_iff_getElem?_eq_some.mp hmem)

end Sighting

namespace Exec
variable {nowMs : ℕ}

theorem announce_core (s : Exec X P) (fp : Fingerprint) : (s.announce fp).core = s.core := by
  unfold announce
  split
  · rfl
  · split
    · rfl
    · split <;> rfl

theorem announce_of_paired {s : Exec X P} {fp : Fingerprint} (h : s.core.Paired fp) :
    s.announce fp = s := by
  unfold announce
  split
  · rfl
  · split
    · rfl
    · exact if_pos h

theorem announce_tells {s : Exec X P} {fp : Fingerprint} (h : ¬ s.core.Paired fp) (m : Screen) :
    Tells s (s.announce fp) m ((s.core.offer fp).elim m (m.insert fp)) := by
  unfold announce Core.offer
  cases hs : s.core.seen[fp]? with
  | none => exact .of_actions rfl m
  | some g =>
    dsimp only [Option.bind_some]
    unfold Sighting.listing
    cases hroutes : g.routes.inPreferenceOrder with
    | nil => exact .of_actions rfl m
    | cons r rest =>
      dsimp only
      rw [if_neg (show ¬ (s.core.recordOf fp).isSome from h)]
      exact .ui s _ m

/-- One machine gone from the table, said unless it is paired. -/
def withdraw (s : Exec X P) (fp : Fingerprint) : Exec X P :=
  let s := { s with core.seen := s.core.seen.erase fp }
  if (s.core.recordOf fp).isSome then s else s.ui (.undiscovered fp)

theorem withdraw_foldl (gone : List Fingerprint) (s : Exec X P) (m : Screen) :
    (gone.foldl withdraw s).core.peers = s.core.peers ∧
    (∀ fp, (gone.foldl withdraw s).core.seen[fp]? =
      if fp ∈ gone then none else s.core.seen[fp]?) ∧
    ∃ m' : Screen, Tells s (gone.foldl withdraw s) m m' ∧
      ∀ fp, ¬ s.core.Paired fp → m'[fp]? = if fp ∈ gone then none else m[fp]? := by
  induction gone generalizing s m with
  | nil => exact ⟨rfl, fun _ => rfl, m, .of_actions rfl m, fun _ _ => rfl⟩
  | cons fp gone ih =>
    have hpeers : (s.withdraw fp).core.peers = s.core.peers := by
      unfold withdraw
      dsimp only
      split <;> rfl
    have hseen : (s.withdraw fp).core.seen = s.core.seen.erase fp := by
      unfold withdraw
      dsimp only
      split <;> rfl
    have hone : Tells s (s.withdraw fp) m (if s.core.Paired fp then m else m.erase fp) := by
      unfold withdraw
      dsimp only
      by_cases hp : s.core.Paired fp
      · rw [if_pos hp]
        split
        · exact .of_actions rfl m
        · rename_i hno
          exact absurd hp hno
      · rw [if_neg hp]
        split
        · rename_i hyes
          exact absurd hyes hp
        · exact .trans (.of_actions rfl m) (.ui _ (.undiscovered fp) m)
    obtain ⟨hpeers', hseen', m', htells, hm'⟩ :=
      ih (s.withdraw fp) (if s.core.Paired fp then m else m.erase fp)
    refine ⟨hpeers'.trans hpeers, fun fp' => ?_, m', hone.trans htells, fun fp' hp => ?_⟩
    · rw [List.foldl_cons, hseen', hseen]
      by_cases hfp : fp' = fp
      · subst hfp
        simp
      · simp [Lib.getElem?_erase_of_ne hfp, hfp]
    · rw [hm' fp' (fun h => hp ((Core.paired_congr hpeers).mp h))]
      by_cases hfp : fp' = fp
      · subst hfp
        simp [hp]
      · by_cases hpaired : s.core.Paired fp
        · simp [hpaired, hfp]
        · simp [hpaired, hfp, Lib.getElem?_erase_of_ne hfp]

theorem onUndiscovered_tells (s : Exec X P) (transport : TransportId) (addr : String)
    (m : Screen) :
    (s.onUndiscovered transport addr).core.peers = s.core.peers ∧
    (∀ fp : Fingerprint, (s.onUndiscovered transport addr).core.seen[fp]? =
      (s.core.seen[fp]?).bind fun g => Sighting.without g transport addr) ∧
    ∃ m' : Screen, Tells s (s.onUndiscovered transport addr) m m' ∧
      ∀ fp : Fingerprint, ¬ s.core.Paired fp → m'[fp]? = (s.core.seen[fp]?).elim m[fp]? fun g =>
        (Sighting.without g transport addr).elim none fun _ => m[fp]? := by
  have gone : ∀ fp, fp ∈ (s.core.seen.toList.filter fun e =>
      (e.2.routes.forget transport addr).2 && (e.2.routes.forget transport addr).1.isEmpty).map (·.1)
      ↔ ∃ g, s.core.seen[fp]? = some g ∧ g.without transport addr = none := by
    intro fp
    rw [List.mem_map]
    constructor
    · rintro ⟨e, he, rfl⟩
      obtain ⟨hmem, hempty⟩ := List.mem_filter.mp he
      refine ⟨e.2, ExtTreeMap.mem_toList_iff_getElem?_eq_some.mp hmem, ?_⟩
      exact if_pos hempty
    · rintro ⟨g, hg, hnone⟩
      refine ⟨(fp, g), List.mem_filter.mpr ⟨ExtTreeMap.mem_toList_iff_getElem?_eq_some.mpr hg, ?_⟩,
        rfl⟩
      by_contra hempty
      have hsome : g.without transport addr = some { g with
        routes := (g.routes.forget transport addr).1 } := if_neg hempty
      rw [hsome] at hnone
      cases hnone
  obtain ⟨hpeers, hseen, m', htells, hm'⟩ := withdraw_foldl
    ((s.core.seen.toList.filter fun e => (e.2.routes.forget transport addr).2 &&
      (e.2.routes.forget transport addr).1.isEmpty).map (·.1))
    { s with core.seen := s.core.seen.map fun _ sighting =>
      { sighting with routes := (sighting.routes.forget transport addr).1 } } m
  refine ⟨hpeers, fun fp => (hseen fp).trans ?_, m', .trans (.of_actions rfl m) htells,
    fun fp hp => (hm' fp hp).trans ?_⟩
  · rw [ExtTreeMap.getElem?_map]
    by_cases hgone : ∃ g, s.core.seen[fp]? = some g ∧ g.without transport addr = none
    · rw [if_pos ((gone fp).mpr hgone)]
      obtain ⟨g, hg, hnone⟩ := hgone
      rw [hg, Option.bind_some, hnone]
    · rw [if_neg fun h => hgone ((gone fp).mp h)]
      cases hg : s.core.seen[fp]? with
      | none => rfl
      | some g =>
        have hkeep : ¬ ((g.routes.forget transport addr).2 &&
            (g.routes.forget transport addr).1.isEmpty) = true :=
          fun hempty => hgone ⟨g, hg, if_pos hempty⟩
        rw [Option.bind_some, Option.map_some]
        exact (if_neg hkeep).symm
  · cases hg : s.core.seen[fp]? with
    | none =>
      refine if_neg fun h => ?_
      obtain ⟨g, hg', -⟩ := (gone fp).mp h
      rw [hg] at hg'
      cases hg'
    | some g =>
      rw [Option.elim_some]
      cases hw : g.without transport addr with
      | none => exact if_pos ((gone fp).mpr ⟨g, hg, hw⟩)
      | some g' =>
        refine if_neg fun h => ?_
        obtain ⟨g'', hg'', hnone⟩ := (gone fp).mp h
        rw [hg] at hg''
        cases hg''
        rw [hw] at hnone
        cases hnone

theorem onDiscovered_tells (s : Exec X P) (nowMs : ℕ) (transport : TransportId) {peer : DiscoveredPeer}
    {fp : Fingerprint} (hfp : peer.fingerprint = some fp) (m : Screen) :
    ∃ g : Sighting, g.listing.isSome ∧
      g.routes = Routes.set ((s.core.seen[fp]?).elim ∅ (·.routes)) transport peer.addr ∧
      (∀ fp', (s.onDiscovered nowMs transport peer).core.seen[fp']? =
        if fp' = fp then some g else if s.core.Wipes fp then none else s.core.seen[fp']?) ∧
      (s.core.Paired fp → Tells s (s.onDiscovered nowMs transport peer) m m) ∧
      (¬ s.core.Paired fp →
        Tells s (s.onDiscovered nowMs transport peer) m (g.listing.elim m (m.insert fp))) := by
  unfold onDiscovered
  rw [hfp]
  dsimp only
  have hlook : ∀ g : Sighting, ∀ fp', ((if maxSeen ≤ s.core.seen.size ∧ fp ∉ s.core.seen then ∅
      else s.core.seen).insert fp g)[fp']? =
      if fp' = fp then some g else if s.core.Wipes fp then none else s.core.seen[fp']? := by
    intro g fp'
    by_cases hfp' : fp' = fp
    · subst hfp'
      rw [if_pos rfl, ExtTreeMap.getElem?_insert_self]
    · rw [if_neg hfp', Lib.getElem?_insert_of_ne hfp']
      by_cases hwipes : s.core.Wipes fp
      · rw [if_pos hwipes, if_pos (show _ ∧ _ from hwipes)]
        simp
      · rw [if_neg hwipes, if_neg (show ¬ (_ ∧ _) from hwipes)]
  have hbefore : (if maxSeen ≤ s.core.seen.size ∧ fp ∉ s.core.seen then
      (∅ : ExtTreeMap Fingerprint Sighting) else s.core.seen)[fp]? = s.core.seen[fp]? := by
    split
    · rename_i hwipes
      have hnone := hwipes.2
      rw [ExtTreeMap.mem_iff_isSome_getElem?, Option.not_isSome_iff_eq_none] at hnone
      rw [hnone]
      simp
    · rfl
  generalize (if maxSeen ≤ s.core.seen.size ∧ fp ∉ s.core.seen then
    (∅ : ExtTreeMap Fingerprint Sighting) else s.core.seen) = seen at hlook hbefore ⊢
  rw [hbefore]
  have hroutes : ∀ r : Routes, Routes.inPreferenceOrder (Routes.set r transport peer.addr) ≠ [] := by
    intro r hnil
    have hget : (Routes.set r transport peer.addr)[transport]? = some peer.addr :=
      ExtTreeMap.getElem?_insert_self
    have hmem := ExtTreeMap.mem_toList_iff_getElem?_eq_some.mpr hget
    rw [show (Routes.set r transport peer.addr).toList = [] from hnil] at hmem
    cases hmem
  generalize hg : Sighting.mk (Routes.set ((s.core.seen[fp]?).elim ∅ (·.routes)) transport
    peer.addr) peer.name peer.pairing = g
  have hgroutes : g.routes = Routes.set ((s.core.seen[fp]?).elim ∅ (·.routes)) transport
      peer.addr := by
    rw [← hg]
  have hlisted : g.listing.isSome := by
    rw [Sighting.listing_isSome, ← hg]
    exact hroutes _
  cases hrec : s.core.recordOf fp with
  | none =>
    rw [show (({ s with core.seen := seen.insert fp g } : Exec X P).core.recordOf fp) = none from hrec]
    dsimp only [Option.bind_none]
    have hunpaired : ¬ s.core.Paired fp := by
      unfold Core.Paired
      rw [hrec]
      nofun
    refine ⟨g, hlisted, hgroutes, ?_, fun hp => absurd hp hunpaired, fun _ => ?_⟩
    · rw [announce_core]
      exact hlook g
    · have hfree : ¬ ({ s with core.seen := seen.insert fp g } : Exec X P).core.Paired fp :=
        hunpaired
      have htells := announce_tells hfree m
      have hoffer : ({ s with core.seen := seen.insert fp g } : Exec X P).core.offer fp =
          g.listing := by
        unfold Core.offer
        rw [ExtTreeMap.getElem?_insert_self]
        rfl
      rw [hoffer] at htells
      exact .trans (.of_actions rfl m) htells
  | some r =>
    rw [show (({ s with core.seen := seen.insert fp g } : Exec X P).core.recordOf fp) = some r
      from hrec]
    have hpaired : s.core.Paired fp := by
      unfold Core.Paired
      rw [hrec]
      rfl
    have hkey : ∃ id, r.id X = some id := by
      obtain ⟨e, hfind, rfl⟩ := Option.map_eq_some_iff.mp hrec
      have hprint : e.2.fingerprint X = some fp := by simpa using List.find?_some hfind
      obtain ⟨pk, hpk, -⟩ := Option.map_eq_some_iff.mp hprint
      exact ⟨DeviceId.of X pk, by rw [PeerRecord.id, hpk]; rfl⟩
    obtain ⟨id, hid⟩ := hkey
    rw [Option.bind_some, hid]
    dsimp only
    refine ⟨g, hlisted, hgroutes, ?_, fun _ => ?_, fun hp => absurd hpaired hp⟩
    · rw [(connectPeer_unlisted _ _ _).1]
      exact hlook g
    · exact .trans (.of_actions rfl m) (.of_unlisted (connectPeer_unlisted _ _ _) m)

variable [Plugin P]

theorem handleRevoke_tells (law : Plugin.Discreet P) (s : Exec X P) (nowMs : ℕ)
    (peer : DeviceId) (m : Screen) : (s.handleRevoke nowMs peer).core.seen = s.core.seen ∧
      ∃ m' : Screen, Tells s (s.handleRevoke nowMs peer) m m' ∧
      ∀ fp : Fingerprint, ¬ (s.handleRevoke nowMs peer).core.Paired fp →
        m'[fp]? = if ((s.core.peers[peer]?).bind (·.fingerprint X)) = some fp
          then (s.core.offer fp).or m[fp]? else m[fp]? := by
  have before : Unlisted s ((closeUpLinks (push { s with core := { s.core with
      peers := s.core.peers.erase peer
      addrs := s.core.addrs.erase peer
      dialTrouble := s.core.dialTrouble.erase peer } } (.persist ("peer/" ++ peer.str) none .secret))
      nowMs peer (.protocol .notPaired)).ui (.revoked peer)) := by
    have erased : Unlisted s (push { s with core := { s.core with
        peers := s.core.peers.erase peer
        addrs := s.core.addrs.erase peer
        dialTrouble := s.core.dialTrouble.erase peer } }
        (.persist ("peer/" ++ peer.str) none .secret)) := .say (.of_same rfl rfl) _ rfl
    exact (erased.trans (closeUpLinks_unlisted law _ peer _)).say _ rfl
  unfold handleRevoke
  dsimp only
  generalize (closeUpLinks (push { s with core := { s.core with
      peers := s.core.peers.erase peer
      addrs := s.core.addrs.erase peer
      dialTrouble := s.core.dialTrouble.erase peer } } (.persist ("peer/" ++ peer.str) none .secret))
      nowMs peer (.protocol .notPaired)).ui (.revoked peer) = t at before ⊢
  have hsame := Tells.of_unlisted before m
  cases (s.core.peers[peer]?).bind (·.fingerprint X) with
  | none => exact ⟨before.1, m, hsame, fun fp _ => (if_neg nofun).symm⟩
  | some fp =>
    dsimp only
    rw [announce_core]
    refine ⟨before.1, ?_⟩
    by_cases hp : t.core.Paired fp
    · rw [announce_of_paired hp]
      refine ⟨m, hsame, fun fp' hp' => (if_neg ?_).symm⟩
      intro heq
      exact hp' (Option.some.inj heq ▸ hp)
    · have hoffer : t.core.offer fp = s.core.offer fp := by
        unfold Core.offer
        rw [before.1]
      refine ⟨_, hsame.trans (announce_tells hp m), fun fp' _ => ?_⟩
      rw [hoffer]
      by_cases hfp : fp' = fp
      · subst hfp
        rw [if_pos rfl]
        cases s.core.offer fp' with
        | none => rfl
        | some listing => exact ExtTreeMap.getElem?_insert_self
      · rw [if_neg fun h => hfp (Option.some.inj h).symm]
        cases s.core.offer fp with
        | none => rfl
        | some listing => exact Lib.getElem?_insert_of_ne hfp

end Exec

/-- A core and the screen of the host that drives it. -/
structure Mirrored (X : Crates) (P : Type) where
  core : Core X P
  screen : Screen

namespace Mirrored

/-- The screen without the machines that are paired is what the core answers. -/
def Matches (w : Mirrored X P) : Prop :=
  (w.screen.toList.filter fun e => ¬ w.core.Paired e.1) = w.core.nearby

instance (w : Mirrored X P) : Decidable w.Matches := inferInstanceAs (Decidable (_ = _))

theorem matches_iff (w : Mirrored X P) :
    w.Matches ↔ ∀ fp, ¬ w.core.Paired fp → w.screen[fp]? = w.core.offer fp := by
  have hshown : (w.screen.toList.filter fun e => ¬ w.core.Paired e.1) =
      (w.screen.filter fun fp _ => ¬ w.core.Paired fp).toList := by
    rw [ExtTreeMap.toList_filter]
  have hnearby : w.core.nearby = (w.core.seen.filterMap fun fp s =>
      if w.core.Paired fp then none else s.listing).toList := by
    rw [ExtTreeMap.toList_filterMap]
    unfold Core.nearby
    congr 1
    funext e
    split <;> rfl
  rw [Matches, hshown, hnearby, ExtTreeMap.toList_inj]
  have look : ∀ fp, (w.screen.filter fun fp _ => ¬ w.core.Paired fp)[fp]? =
      (w.core.seen.filterMap fun fp s => if w.core.Paired fp then none else s.listing)[fp]? ↔
      (¬ w.core.Paired fp → w.screen[fp]? = w.core.offer fp) := by
    intro fp
    rw [ExtTreeMap.getElem?_filter', ExtTreeMap.getElem?_filterMap']
    by_cases hp : w.core.Paired fp
    · simp [hp]
    · cases w.screen[fp]? <;> simp [hp, Core.offer, Option.filter]
  constructor
  · intro h fp
    exact (look fp).mp (by rw [h])
  · intro h
    ext fp : 1
    exact (look fp).mpr (h fp)

variable [Plugin P]

def step (w : Mirrored X P) (i : Core.Input X) : Mirrored X P where
  core := (w.core.handle i).1
  screen := (w.core.handle i).2.actions.foldl Screen.follow w.screen

def start (b : CoreBuilder X P) : Mirrored X P := ⟨b.build, ∅⟩

/-- The event leaves no machine on the screen that the core has forgotten: no wiping of the table
while a machine is listed, no withdrawal of the shown one of several routes, and no machine that
stops being paired while the screen and the table differ on it. -/
def Shows (w : Mirrored X P) (i : Core.Input X) : Prop :=
  match i.event with
  | .discovered _ peer => ∀ fp, peer.fingerprint = some fp → w.core.Wipes fp →
      ∀ fp' ∈ w.core.seen, w.core.Paired fp'
  | .undiscovered transport addr => ∀ (fp : Fingerprint) (g : Sighting),
      w.core.seen[fp]? = some g → g.Masks transport addr → w.core.Paired fp
  | .localCommand (.revoke peer) => ∀ r fp, w.core.peers[peer]? = some r →
      r.fingerprint X = some fp →
      ¬ Core.Paired { w.core with peers := w.core.peers.erase peer } fp →
      fp ∉ w.core.seen → fp ∉ w.screen
  | .localCommand (.confirmPairing true) => ∀ (deadline : ℕ) (a : AwaitingConfirm) (id : DeviceId)
      (r : PeerRecord) (fp : Fingerprint), w.core.pairing = some ⟨deadline, some a⟩ →
      a.record.id X = some id → w.core.peers[id]? = some r → r.fingerprint X = some fp →
      ¬ Core.Paired { w.core with peers := w.core.peers.insert id a.record } fp →
      w.screen[fp]? = w.core.offer fp
  | _ => True

variable {w : Mirrored X P} {i : Core.Input X}

theorem step_screen {m : Screen} (h : Tells (w.core.start i) (w.core.exec i) w.screen m) :
    (w.step i).screen = m := by
  obtain ⟨as, ha, hm⟩ := h
  have hacts : (w.core.handle i).2.actions = as := ha
  rw [← hm, ← hacts]
  rfl

theorem step_unlisted (law : Plugin.Discreet P) (he : i.event.listing = false) :
    (w.step i).core.seen = w.core.seen ∧ (w.step i).screen = w.screen := by
  have hmute := Exec.onEvent_unlisted law i.now.monotonicMs (w.core.start i) i.seed he
  exact ⟨hmute.1, step_screen (.of_unlisted hmute _)⟩

theorem step_discovered {transport : TransportId} {peer : DiscoveredPeer}
    (he : i.event = .discovered transport peer) (hs : w.core.Sighted) (hw : w.Matches) :
    (w.step i).Matches ↔ w.Shows i := by
  have hpaired : ∀ fp, (w.step i).core.Paired fp ↔ w.core.Paired fp := fun fp =>
    Core.step_paired (by rw [he]; nofun) (by rw [he]; nofun)
  rw [matches_iff] at hw
  unfold Shows
  rw [matches_iff, he]
  dsimp only
  have hexec : w.core.exec i = (w.core.start i).onDiscovered i.now.monotonicMs transport peer := by
    unfold Core.exec
    rw [he]
    rfl
  cases hfp : peer.fingerprint with
  | none =>
    have hidle : w.core.exec i = w.core.start i := by
      rw [hexec, Exec.onDiscovered, hfp]
    have hscreen : (w.step i).screen = w.screen := step_screen (.of_actions (by rw [hidle]) _)
    refine iff_of_true (fun fp hp => ?_) nofun
    have hoffer : (w.step i).core.offer fp = w.core.offer fp := by
      change (w.core.exec i).core.offer fp = _
      rw [hidle]
      rfl
    rw [hscreen, hoffer]
    exact hw fp fun h => hp ((hpaired fp).mpr h)
  | some fp =>
    obtain ⟨g, hlisted, -, hseen, hold, hnew⟩ := Exec.onDiscovered_tells (w.core.start i)
      i.now.monotonicMs transport hfp w.screen
    rw [← hexec] at hseen hold hnew
    have hoffer : ∀ fp', (w.step i).core.offer fp' = if fp' = fp then g.listing
        else if w.core.Wipes fp then none else w.core.offer fp' := by
      intro fp'
      change ((w.core.exec i).core.seen[fp']?).bind Sighting.listing = _
      rw [hseen]
      split
      · rfl
      · split
        · rename_i hwipes
          exact (if_pos hwipes).symm
        · rename_i hwipes
          exact (if_neg hwipes).symm
    have hscreen : ∀ fp', fp' ≠ fp → (w.step i).screen[fp']? = w.screen[fp']? := by
      intro fp' hne
      by_cases hp : w.core.Paired fp
      · rw [step_screen (hold hp)]
      · rw [step_screen (hnew hp)]
        cases g.listing with
        | none => rfl
        | some listing => exact Lib.getElem?_insert_of_ne hne
    have hgone : ∀ fp' : Fingerprint, w.core.offer fp' = none ↔ fp' ∉ w.core.seen := by
      intro fp'
      rw [hs.offer_eq_none, ExtTreeMap.mem_iff_isSome_getElem?, Option.not_isSome_iff_eq_none]
    constructor
    · intro hall f hf hwipes fp' hmem
      obtain rfl := Option.some.inj hf
      by_contra hp
      have hne : fp' ≠ fp := by
        rintro rfl
        exact hwipes.2 hmem
      have hafter := hall fp' fun h => hp ((hpaired fp').mp h)
      rw [hscreen fp' hne, hoffer, if_neg hne, if_pos hwipes, hw fp' hp] at hafter
      exact (hgone fp').mp hafter hmem
    · intro hok fp' hp'
      have hp : ¬ w.core.Paired fp' := fun h => hp' ((hpaired fp').mpr h)
      by_cases hne : fp' = fp
      · subst hne
        rw [step_screen (hnew hp), hoffer, if_pos rfl]
        obtain ⟨listing, hlisting⟩ := Option.isSome_iff_exists.mp hlisted
        rw [hlisting]
        exact ExtTreeMap.getElem?_insert_self
      · rw [hscreen fp' hne, hoffer, if_neg hne, hw fp' hp]
        split
        · rename_i hwipes
          exact (hgone fp').mpr fun hmem => hp (hok fp rfl hwipes fp' hmem)
        · rfl

theorem step_undiscovered {transport : TransportId} {addr : String}
    (he : i.event = .undiscovered transport addr) (hw : w.Matches) :
    (w.step i).Matches ↔ w.Shows i := by
  have hpaired : ∀ fp, (w.step i).core.Paired fp ↔ w.core.Paired fp := fun fp =>
    Core.step_paired (by rw [he]; nofun) (by rw [he]; nofun)
  rw [matches_iff] at hw
  unfold Shows
  rw [matches_iff, he]
  dsimp only
  have hexec : w.core.exec i = (w.core.start i).onUndiscovered transport addr := by
    unfold Core.exec
    rw [he]
    rfl
  obtain ⟨-, hseen, m, htells, hm⟩ :=
    (w.core.start i).onUndiscovered_tells transport addr w.screen
  rw [← hexec] at hseen htells
  -- A machine not paired is shown rightly unless the address masks another.
  have hone : ∀ fp, ¬ w.core.Paired fp → ((w.step i).screen[fp]? = (w.step i).core.offer fp ↔
      ∀ g, w.core.seen[fp]? = some g → ¬ g.Masks transport addr) := by
    intro fp hp
    have hoffer : (w.step i).core.offer fp =
        ((w.core.seen[fp]?).bind fun g => g.without transport addr).bind Sighting.listing :=
      congrArg (·.bind Sighting.listing) (hseen fp)
    have hstart : (w.core.start i).core.seen[fp]? = w.core.seen[fp]? := rfl
    rw [step_screen htells, hm fp hp, hoffer, hstart, hw fp hp]
    unfold Core.offer
    cases hg : w.core.seen[fp]? with
    | none => exact iff_of_true rfl nofun
    | some g =>
      have hwithout : (g.without transport addr).elim none (fun _ => g.listing) =
          (g.without transport addr).bind Sighting.listing ↔ ¬ g.Masks transport addr :=
        g.without_listing
      rw [Option.bind_some, Option.bind_some, Option.elim_some]
      refine hwithout.trans ?_
      constructor
      · rintro hno g' hg'
        cases hg'
        exact hno
      · exact fun hno => hno g rfl
  constructor
  · intro hall fp g hg hmasks
    by_contra hp
    exact (hone fp hp).mp (hall fp fun h => hp ((hpaired fp).mp h)) g hg hmasks
  · intro hok fp hp'
    have hp : ¬ w.core.Paired fp := fun h => hp' ((hpaired fp).mpr h)
    exact (hone fp hp).mpr fun g hg hmasks => hp (hok fp g hg hmasks)

theorem step_revoke (law : Plugin.Discreet P) {peer : DeviceId}
    (he : i.event = .localCommand (.revoke peer)) (hs : w.core.Sighted) (hw : w.Matches) :
    (w.step i).Matches ↔ w.Shows i := by
  have hexec : w.core.exec i = (w.core.start i).handleRevoke i.now.monotonicMs peer := by
    unfold Core.exec
    rw [he]
    rfl
  have hpeers : (w.step i).core.peers = w.core.peers.erase peer := by
    change (w.core.exec i).core.peers = _
    rw [hexec]
    exact Exec.handleRevoke_peers _ _ _
  have hpaired : ∀ fp, (w.step i).core.Paired fp ↔
      Core.Paired { w.core with peers := w.core.peers.erase peer } fp :=
    fun fp => Core.paired_congr hpeers
  obtain ⟨hseen, m, htells, hm⟩ :=
    Exec.handleRevoke_tells law (w.core.start i) i.now.monotonicMs peer w.screen
  rw [← hexec] at hseen htells hm
  have hoffer : ∀ fp, (w.step i).core.offer fp = w.core.offer fp := by
    intro fp
    change ((w.core.exec i).core.seen[fp]?).bind Sighting.listing = _
    rw [hseen]
    rfl
  rw [matches_iff] at hw
  unfold Shows
  rw [matches_iff, he]
  dsimp only
  constructor
  · intro hall r fp hr hfp hp hunseen
    have hafter := hall fp fun h => hp ((hpaired fp).mp h)
    have hnone : w.core.offer fp = none := hs.offer_eq_none.mpr (by
      rwa [ExtTreeMap.mem_iff_isSome_getElem?, Option.not_isSome_iff_eq_none] at hunseen)
    have hold : ((w.core.start i).core.peers[peer]?).bind (·.fingerprint X) = some fp := by
      change (w.core.peers[peer]?).bind (·.fingerprint X) = some fp
      rw [hr, Option.bind_some, hfp]
    rw [step_screen htells, hm fp fun h => hp ((hpaired fp).mp h), if_pos hold, hoffer] at hafter
    change (w.core.offer fp).or w.screen[fp]? = _ at hafter
    rw [hnone, Option.none_or] at hafter
    rw [ExtTreeMap.mem_iff_isSome_getElem?, hafter]
    nofun
  · intro hok fp hp'
    have hp : ¬ Core.Paired { w.core with peers := w.core.peers.erase peer } fp :=
      fun h => hp' ((hpaired fp).mpr h)
    rw [step_screen htells, hm fp hp', hoffer]
    by_cases hold : ((w.core.start i).core.peers[peer]?).bind (·.fingerprint X) = some fp
    · rw [if_pos hold]
      change (w.core.offer fp).or w.screen[fp]? = _
      cases hof : w.core.offer fp with
      | some listing => rfl
      | none =>
        obtain ⟨r, hr, hfp⟩ := Option.bind_eq_some_iff.mp hold
        have hunseen : fp ∉ w.core.seen := by
          rw [ExtTreeMap.mem_iff_isSome_getElem?, Option.not_isSome_iff_eq_none]
          exact hs.offer_eq_none.mp hof
        have hgone := hok r fp hr hfp hp hunseen
        rw [ExtTreeMap.mem_iff_isSome_getElem?, Option.not_isSome_iff_eq_none] at hgone
        rw [hgone]
        rfl
    · rw [if_neg hold]
      refine hw fp fun hpair => hp ?_
      obtain ⟨q, r, hq, hfp⟩ := Core.paired_iff.mp hpair
      refine Core.paired_iff.mpr ⟨q, r, ?_, hfp⟩
      have hne : q ≠ peer := by
        rintro rfl
        exact hold (by
          change (w.core.peers[q]?).bind (·.fingerprint X) = some fp
          rw [hq, Option.bind_some, hfp])
      exact (Lib.getElem?_erase_of_ne hne).trans hq

omit [Plugin P] in
/-- A confirmed pairing writes its record, or there was none to confirm. -/
theorem confirmPairing_peers (s : Exec X P) (nowMs : ℕ) :
    (∃ deadline a id, s.core.pairing = some ⟨deadline, some a⟩ ∧ a.record.id X = some id ∧
      (s.confirmPairing nowMs true).core.peers = s.core.peers.insert id a.record) ∨
    ((∀ deadline a id, s.core.pairing = some ⟨deadline, some a⟩ → a.record.id X ≠ some id) ∧
      (s.confirmPairing nowMs true).core.peers = s.core.peers) := by
  have kept : ∀ (id : DeviceId) (a : AwaitingConfirm),
      (s.keepRoutes id a).core.peers = s.core.peers := by
    intro id a
    unfold Exec.keepRoutes
    dsimp only
    split
    · rfl
    · split <;> rfl
  unfold Exec.confirmPairing
  split
  · rename_i deadline a hw
    rw [if_neg (by simp)]
    cases hid : a.record.id X with
    | none =>
      refine .inr ⟨fun deadline' a' id hw' => ?_, rfl⟩
      rw [hw] at hw'
      cases hw'
      rw [hid]
      nofun
    | some id =>
      refine .inl ⟨deadline, a, id, hw, hid, ?_⟩
      rw [← kept id a]
      rfl
  · rename_i hno
    exact .inr ⟨fun deadline a id hw => absurd hw (hno deadline a), rfl⟩

theorem step_confirm (law : Plugin.Discreet P)
    (he : i.event = .localCommand (.confirmPairing true)) (hw : w.Matches) :
    (w.step i).Matches ↔ w.Shows i := by
  obtain ⟨hseen, hscreen⟩ := step_unlisted (w := w) law (by rw [he]; rfl)
  have hoffer : ∀ fp, (w.step i).core.offer fp = w.core.offer fp := by
    intro fp
    unfold Core.offer
    rw [hseen]
  have hexec : w.core.exec i = (w.core.start i).confirmPairing i.now.monotonicMs true := by
    unfold Core.exec
    rw [he]
    rfl
  have hcases := confirmPairing_peers (w.core.start i) i.now.monotonicMs
  rw [← hexec] at hcases
  rw [matches_iff] at hw
  unfold Shows
  rw [matches_iff, he, hscreen]
  dsimp only
  rcases hcases with ⟨deadline, a, id, hpair, hid, hpeers⟩ | ⟨hno, hpeers⟩
  · have hpaired : ∀ fp, (w.step i).core.Paired fp ↔
        Core.Paired { w.core with peers := w.core.peers.insert id a.record } fp :=
      fun fp => Core.paired_congr hpeers
    constructor
    · intro hall deadline' a' id' r fp hpair' hid' hr hfp hp
      rw [show w.core.pairing = some ⟨deadline, some a⟩ from hpair] at hpair'
      cases hpair'
      rw [hid] at hid'
      cases hid'
      exact (hall fp fun h => hp ((hpaired fp).mp h)).trans (hoffer fp)
    · intro hok fp hp'
      rw [hoffer]
      by_cases hp : w.core.Paired fp
      · obtain ⟨q, r, hq, hfp⟩ := Core.paired_iff.mp hp
        by_cases hqid : q = id
        · subst hqid
          exact hok deadline a q r fp hpair hid hq hfp fun h => hp' ((hpaired fp).mpr h)
        · refine absurd ((hpaired fp).mpr (Core.paired_iff.mpr ⟨q, r, ?_, hfp⟩)) hp'
          exact (Lib.getElem?_insert_of_ne hqid).trans hq
      · exact hw fp hp
  · refine iff_of_true (fun fp hp' => ?_) fun deadline a id r fp hpair hid => ?_
    · rw [hoffer]
      exact hw fp fun hp => hp' ((Core.paired_congr hpeers).mpr hp)
    · exact absurd hid (hno deadline a id hpair)

/-- A step keeps the screen right exactly if it is one that leaves no forgotten machine on it. -/
theorem step_matches (law : Plugin.Discreet P) (hs : w.core.Sighted) (hw : w.Matches) :
    (w.step i).Matches ↔ w.Shows i := by
  have other : i.event.listing = false → i.event ≠ .localCommand (.confirmPairing true) →
      (w.step i).Matches := by
    intro he hconfirm
    obtain ⟨hseen, hscreen⟩ := step_unlisted (w := w) law he
    rw [matches_iff] at hw ⊢
    intro fp hp
    have hpaired : (w.step i).core.Paired fp ↔ w.core.Paired fp :=
      Core.step_paired hconfirm fun peer hrev => by
        rw [hrev] at he
        cases he
    unfold Core.offer
    rw [hseen, hscreen]
    exact hw fp fun h => hp (hpaired.mpr h)
  cases he : i.event with
  | discovered transport peer => exact step_discovered he hs hw
  | undiscovered transport addr => exact step_undiscovered he hw
  | localCommand cmd =>
    cases cmd with
    | revoke peer => exact step_revoke law he hs hw
    | confirmPairing accept =>
      cases accept with
      | true => exact step_confirm law he hw
      | false =>
        refine iff_of_true (other (by rw [he]; rfl) (by rw [he]; nofun)) ?_
        rw [Shows, he]
        trivial
    | _ =>
      refine iff_of_true (other (by rw [he]; rfl) (by rw [he]; nofun)) ?_
      rw [Shows, he]
      trivial
  | _ =>
    refine iff_of_true (other (by rw [he]; rfl) (by rw [he]; nofun)) ?_
    rw [Shows, he]
    trivial

/-- A machine stays in the table only while some route to it is left. -/
theorem step_sighted (law : Plugin.Discreet P) (hs : w.core.Sighted) :
    (w.step i).core.Sighted := by
  have other : i.event.listing = false → (w.step i).core.Sighted := by
    intro he fp g hg
    rw [(step_unlisted (w := w) law he).1] at hg
    exact hs fp g hg
  cases he : i.event with
  | discovered transport peer =>
    have hexec : w.core.exec i =
        (w.core.start i).onDiscovered i.now.monotonicMs transport peer := by
      unfold Core.exec
      rw [he]
      rfl
    change (w.core.exec i).core.Sighted
    rw [hexec]
    cases hfp : peer.fingerprint with
    | none =>
      rw [Exec.onDiscovered, hfp]
      exact hs
    | some fp =>
      obtain ⟨g, hlisted, -, hseen, -⟩ := Exec.onDiscovered_tells (w.core.start i)
        i.now.monotonicMs transport hfp ∅
      intro fp' g' hg'
      rw [hseen] at hg'
      split at hg'
      · cases hg'
        exact hlisted
      · split at hg'
        · cases hg'
        · exact hs fp' g' hg'
  | undiscovered transport addr =>
    have hexec : w.core.exec i = (w.core.start i).onUndiscovered transport addr := by
      unfold Core.exec
      rw [he]
      rfl
    obtain ⟨-, hseen, -⟩ := (w.core.start i).onUndiscovered_tells transport addr ∅
    intro fp g' hg'
    change (w.core.exec i).core.seen[fp]? = some g' at hg'
    rw [hexec, hseen] at hg'
    obtain ⟨g, hg, hleft⟩ := Option.bind_eq_some_iff.mp hg'
    exact Sighting.without_listed (hs fp g hg) hleft
  | localCommand cmd =>
    cases cmd with
    | revoke peer =>
      have hexec : w.core.exec i = (w.core.start i).handleRevoke i.now.monotonicMs peer := by
        unfold Core.exec
        rw [he]
        rfl
      intro fp g hg
      change (w.core.exec i).core.seen[fp]? = some g at hg
      rw [hexec, (Exec.handleRevoke_tells law (w.core.start i) i.now.monotonicMs peer ∅).1] at hg
      exact hs fp g hg
    | _ => exact other (by rw [he]; rfl)
  | _ => exact other (by rw [he]; rfl)

/-- Folding the events over the screen gives, all along a run, the list the core answers with,
exactly if no step of it leaves a forgotten machine on the screen. -/
theorem matches_iff_shows (law : Plugin.Discreet P) (b : CoreBuilder X P)
    (is : List (Core.Input X)) :
    (∀ js, js <+: is → (Lib.run step (start b) js).Matches) ↔
      Lib.Along step Shows (start b) is := by
  refine Lib.along_iff_states (J := fun w => w.core.Sighted) (fun w i hs => step_sighted law hs)
    (fun w i hs hw => step_matches law hs hw) ?_ ?_ is
  · intro fp g hg
    simp [start, CoreBuilder.build] at hg
  · rw [matches_iff]
    intro fp _
    simp [start, CoreBuilder.build, Core.offer]

end Mirrored

theorem SharePlugin.discreet : Plugin.Discreet (SharePlugin X) := by
  intro p cx c e he
  obtain ⟨es, hui, hes⟩ := p.call_shows cx c
  rw [hui, List.mem_append] at he
  exact he.imp id fun hnew => e.lists_of_own (hes e hnew)

def Mock.strangerSeen (transport : TransportId) (addr : String) : Core.Input Mock.crates :=
  Mock.at_ 0 0 (.discovered transport ⟨some (Fingerprint.of Mock.crates (Mock.device 9).publicKey),
    "tablet", addr, true⟩)

theorem stranger_listed : (Lib.run Mirrored.step
    (Mirrored.start (Mock.laptop [SharePlugin.default Mock.crates]))
    [Mock.strangerSeen 1 "10.0.0.9:7"]).Matches := by
  have hshows : Lib.Along Mirrored.step Mirrored.Shows
      (Mirrored.start (Mock.laptop [SharePlugin.default Mock.crates]))
      [Mock.strangerSeen 1 "10.0.0.9:7"] := by
    refine ⟨fun fp _ hwipes => ?_, trivial⟩
    exact absurd hwipes.1 (by decide +kernel)
  exact (Mirrored.matches_iff_shows SharePlugin.discreet _ _).mpr hshows _ List.prefix_rfl

/-- A machine seen on the network and over Bluetooth that leaves the network is still shown there. -/
theorem withdrawn_route_still_shown : ¬ ∀ is : List (Core.Input Mock.crates),
    (Lib.run Mirrored.step (Mirrored.start (Mock.laptop [SharePlugin.default Mock.crates]))
      is).Matches := by
  intro h
  have hmatches := h [Mock.strangerSeen 1 "10.0.0.9:7", Mock.strangerSeen 2 "ble",
    Mock.at_ 1 0 (.undiscovered 1 "10.0.0.9:7")]
  revert hmatches
  decide +kernel

end Acrylius
