import Acrylius.Core.Presence
import Acrylius.Plugins.Peers

/-! A peer that can be sent to is always among the connected ones, for a plugin that keeps them. -/
namespace Acrylius
open Proto Std

variable {X : Crates} {P : Type} [Plugin P]

/-- What a plugin keeps of who is connected: only arrivals and departures change it. -/
structure Plugin.Tracks (peers : P → Option (List DeviceId)) : Prop where
  quiet : Plugin.Quiet peers
  connected : ∀ p cx q, peers (Plugin.onPeerConnected p cx q).1 = (peers p).map (Peers.join · q)
  disconnected : ∀ p cx q,
    peers (Plugin.onPeerDisconnected p cx q).1 = (peers p).map (Peers.leave · q)

/-- Every plugin that keeps the connected peers has each that can be sent to, once. -/
def Core.Knows (peers : P → Option (List DeviceId)) (c : Core X P) : Prop :=
  ∀ ps, some ps ∈ c.plugins.map peers → ps.Nodup ∧ ∀ q, c.Reaches q → q ∈ ps

namespace Core
variable {peers : P → Option (List DeviceId)} {c d : Core X P}

omit [Plugin P] in
theorem Knows.mono (h : c.Knows peers) (plugins : d.plugins.map peers = c.plugins.map peers)
    (reach : ∀ q, d.Reaches q → c.Reaches q) : d.Knows peers := by
  intro ps hps
  rw [plugins] at hps
  obtain ⟨hnodup, hmem⟩ := h ps hps
  exact ⟨hnodup, fun q hq => hmem q (reach q hq)⟩

omit [Plugin P] in
theorem Knows.join (h : c.Knows peers) {p : DeviceId}
    (plugins : d.plugins.map peers = (c.plugins.map peers).map (·.map (Peers.join · p)))
    (reach : ∀ q, d.Reaches q → q = p ∨ c.Reaches q) : d.Knows peers := by
  intro ps hps
  rw [plugins] at hps
  obtain ⟨o, ho, heq⟩ := List.mem_map.mp hps
  obtain ⟨qs, rfl, rfl⟩ := Option.map_eq_some_iff.mp heq
  obtain ⟨hnodup, hmem⟩ := h qs ho
  refine ⟨Peers.nodup_join hnodup p, fun q hq => ?_⟩
  rcases reach q hq with hnew | hold
  · exact Peers.mem_join.mpr (.inl hnew)
  · exact Peers.mem_join.mpr (.inr (hmem q hold))

omit [Plugin P] in
theorem Knows.leave (h : c.Knows peers) {p : DeviceId}
    (plugins : d.plugins.map peers = (c.plugins.map peers).map (·.map (Peers.leave · p)))
    (reach : ∀ q, d.Reaches q → q ≠ p ∧ c.Reaches q) : d.Knows peers := by
  intro ps hps
  rw [plugins] at hps
  obtain ⟨o, ho, heq⟩ := List.mem_map.mp hps
  obtain ⟨qs, rfl, rfl⟩ := Option.map_eq_some_iff.mp heq
  obtain ⟨hnodup, hmem⟩ := h qs ho
  refine ⟨hnodup.filter _, fun q hq => ?_⟩
  obtain ⟨hne, hold⟩ := reach q hq
  exact Peers.mem_leave.mpr ⟨hmem q hold, hne⟩

omit [Plugin P] in
theorem reaches_of_erase {l : LinkId} (hd : d.links = c.links.erase l) {q : DeviceId}
    (h : d.Reaches q) : c.Reaches q := by
  obtain ⟨l', u, hu, hp⟩ := h
  rw [hd] at hu
  exact ⟨l', u, (Lib.getElem?_of_erase hu).2, hp⟩

omit [Plugin P] in
theorem reaches_of_insert {l : LinkId} {st : LinkState X} (hst : ∀ u, st ≠ .up u)
    (hd : d.links = c.links.insert l st) {q : DeviceId} (h : d.Reaches q) : c.Reaches q := by
  obtain ⟨l', u, hu, hp⟩ := h
  rw [hd] at hu
  rcases Lib.getElem?_of_insert hu with ⟨-, hu⟩ | ⟨-, hu⟩
  · exact absurd hu.symm (hst u)
  · exact ⟨l', u, hu, hp⟩

omit [Plugin P] in
theorem reaches_of_insert_up {l : LinkId} {v : UpLink X}
    (hd : d.links = c.links.insert l (.up v)) {q : DeviceId} (h : d.Reaches q) :
    q = v.peer ∨ c.Reaches q := by
  obtain ⟨l', u, hu, hp⟩ := h
  rw [hd] at hu
  rcases Lib.getElem?_of_insert hu with ⟨-, hu⟩ | ⟨-, hu⟩
  · cases hu
    exact .inl hp.symm
  · exact .inr ⟨l', u, hu, hp⟩

end Core

variable {peers : P → Option (List DeviceId)}

/-- The last established link of a peer is gone, and every plugin is told. -/
theorem Exec.lostUpLink_knows (track : Plugin.Tracks peers) {s : Exec X P} (nowMs : ℕ) {l : LinkId}
    {u : UpLink X} (h : s.core.Knows peers) :
    ((s.unlink l).lostUpLink nowMs u).core.Knows peers := by
  have gone : (s.unlink l).core.Knows peers :=
    h.mono rfl fun q hq => Core.reaches_of_erase (s.unlink_links l) hq
  unfold lostUpLink
  split
  · exact gone
  · rename_i hbest
    have hnone : ∀ (l' : LinkId) (u' : UpLink X),
        (s.unlink l).core.links[l']? = some (.up u') → u'.peer ≠ u.peer :=
      Core.bestLink_eq_none.mp (Option.not_isSome_iff_eq_none.mp hbest)
    dsimp only
    generalize hmid : ({ (s.unlink l).ui (.peerUnreachable u.peer) with core.reconnectAt := some 0 } :
      Exec X P) = mid
    have hlinks : mid.core.links = (s.unlink l).core.links := by rw [← hmid]; rfl
    have hplugins : mid.core.plugins = (s.unlink l).core.plugins := by rw [← hmid]; rfl
    have hmap : (mid.callAllPlugins nowMs fun p cx =>
        Plugin.onPeerDisconnected p cx u.peer).core.plugins.map peers =
        (mid.core.plugins.map peers).map (·.map (Peers.leave · u.peer)) :=
      callAllPlugins_map mid nowMs track.quiet fun p cx => track.disconnected p cx u.peer
    rw [hplugins] at hmap
    refine gone.leave hmap fun q hq => ?_
    have hreach := ((callAllPlugins_stir mid nowMs
      fun p cx => Plugin.onPeerDisconnected p cx u.peer).reaches q).mp hq
    obtain ⟨l', v, hv, rfl⟩ := hreach
    rw [hlinks] at hv
    exact ⟨hnone l' v hv, l', v, hv, rfl⟩

theorem Drift.knows (track : Plugin.Tracks peers) {s t : Exec X P} (h : Drift s t)
    (hs : s.core.Knows peers) : t.core.Knows peers :=
  hs.mono (h.plugins _ track.quiet) fun q hq => (h.reaches q).mp hq

theorem Aftermath.knows (track : Plugin.Tracks peers) {nowMs : ℕ} {s t : Exec X P}
    (h : Aftermath nowMs s t) (hs : s.core.Knows peers) : t.core.Knows peers := by
  induction h with
  | drift h => exact h.knows track hs
  | close s l r => exact hs
  | @forget s l h =>
    exact hs.mono rfl fun q hq => Core.reaches_of_erase (s.unlink_links l) hq
  | lose h => exact Exec.lostUpLink_knows track _ hs
  | trans _ _ ih ih' => exact ih' (ih hs)

theorem Head.knows (track : Plugin.Tracks peers) {i : Core.Input X} {s t : Exec X P} (h : Head i s t)
    (hs : s.core.Knows peers) : t.core.Knows peers := by
  have same : ∀ {v : View X P}, t.view = v → v.plugins = s.core.plugins →
      (∀ q, t.core.Reaches q → s.core.Reaches q) → t.core.Knows peers := by
    intro v hv hp hr
    refine hs.mono ?_ hr
    rw [Exec.plugins_of hv, hp]
  have links : t.core.links = s.core.links → ∀ q, t.core.Reaches q → s.core.Reaches q := by
    intro hl q
    unfold Core.Reaches
    rw [hl]
    exact id
  have erased : ∀ {l : LinkId}, t.core.links = s.core.links.erase l →
      ∀ q, t.core.Reaches q → s.core.Reaches q := fun hl _ => Core.reaches_of_erase hl
  cases h
  case idle => exact hs
  case opened view | dialledSession view | dialledPair view | answered view | continued view
      | awaited view =>
    exact same view rfl fun q => Core.reaches_of_insert (by simp) (Exec.links_of view)
  case failed view | wasted view | abandoned view | unwanted view | hungUp view | denied view
      | confirmed view =>
    exact same view rfl (erased (Exec.links_of view))
  case received l msg body u plaintext session event frame link decrypt view =>
    refine same view rfl fun q hq => ?_
    rcases Core.reaches_of_insert_up (Exec.links_of view) hq with rfl | hold
    · exact ⟨l, u, link, rfl⟩
    · exact hold
  case lapsed w event window due view =>
    obtain ⟨d, a⟩ := w
    cases a with
    | none => exact same view rfl (links (Exec.links_of view))
    | some a => exact same view rfl (erased (Exec.links_of view))
  case unkeyed view | undialled view | claimed view | revoked view =>
    exact same view rfl (links (Exec.links_of view))
  case established l attrs peer payload hs' owes hello record record' reply hs'' session mid hread
      accept turn open_ view =>
    have hmap : (mid.callAllPlugins i.now.monotonicMs fun p cx =>
        Plugin.onPeerConnected p cx peer).core.plugins.map peers =
        (mid.core.plugins.map peers).map (·.map (Peers.join · peer)) :=
      Exec.callAllPlugins_map mid _ track.quiet fun p cx => track.connected p cx peer
    rw [Exec.plugins_of view] at hmap
    refine hs.join hmap fun q hq => ?_
    have hreach := ((Exec.callAllPlugins_stir mid i.now.monotonicMs
      fun p cx => Plugin.onPeerConnected p cx peer).reaches q).mp hq
    exact Core.reaches_of_insert_up (Exec.links_of view) hreach

namespace Core
variable {c : Core X P}

theorem Knows.step (track : Plugin.Tracks peers) (h : c.Knows peers) (i : Input X) :
    (c.step i).Knows peers := by
  obtain ⟨mid, hhead, hafter⟩ := c.exec_outline i
  exact hafter.knows track (hhead.knows track h)

/-- In every run, each peer with an established link is among the connected ones. -/
theorem run_knows (track : Plugin.Tracks peers) (b : CoreBuilder X P)
    (new : ∀ p ∈ b.plugins, ∀ ps, peers p = some ps → ps = []) (is : List (Input X)) :
    (b.build.run is).Knows peers := by
  refine Lib.run_inv (fun _ i h => h.step track i) ?_ is
  intro ps hps
  obtain ⟨p, hp, hps⟩ := List.mem_map.mp hps
  obtain rfl := new p hp ps hps
  refine ⟨List.nodup_nil, ?_⟩
  rintro q ⟨l, u, hu, -⟩
  simp [CoreBuilder.build] at hu

end Core
end Acrylius
