import Acrylius.Core.Heartbeat
import Acrylius.Core.Rounds

/-! The last session of a peer takes the plugins' word with it: a step that takes it tells every
plugin, as the step found them. -/
namespace Acrylius
open Proto Std

variable {X : Crates} {P : Type} [Plugin P]

/-- The stretch tells every plugin, as it found them, that the peer is gone, and calls no other. -/
def TellsGone (i : Core.Input X) (peer : DeviceId) (s t : Exec X P) : Prop :=
  ∃ r, Calm s r ∧ Calm (r.callAllPlugins i.now.monotonicMs fun p cx =>
    ((Plugin.call p cx (.disconnected peer)).1, (Plugin.call p cx (.disconnected peer)).2.1)) t

namespace TellsGone
variable {i : Core.Input X} {peer : DeviceId} {s t r : Exec X P}

theorem after (h : Calm s t) (h' : TellsGone i peer t r) : TellsGone i peer s r := by
  obtain ⟨q, hq, hr⟩ := h'
  exact ⟨q, h.trans hq, hr⟩

theorem before (h : TellsGone i peer s t) (h' : Calm t r) : TellsGone i peer s r := by
  obtain ⟨q, hq, ht⟩ := h
  exact ⟨q, hq, ht.trans h'⟩

end TellsGone

namespace Core
variable {c : Core X P} {l : LinkId}

omit [Plugin P] in
theorem lastLink_of_lastLinkOf {peer : DeviceId} (h : c.lastLinkOf l = some peer) :
    ∃ u, c.links[l]? = some (.up u) ∧ u.peer = peer ∧ c.LastLink l := by
  unfold lastLinkOf at h
  split at h
  · rename_i u hu
    split at h
    · rename_i hall
      refine ⟨u, hu, Option.some.inj h, u, hu, fun m v hv hp => ?_⟩
      simpa using List.all_eq_true.mp hall (m, v) (mem_upLinks.mpr ⟨hv, hp⟩)
    · cases h
  · cases h

end Core

namespace Exec
variable {i : Core.Input X} {s : Exec X P} {l : LinkId} {u : UpLink X}

theorem onLinkDown_tellsGone (hl : s.core.links[l]? = some (.up u)) (last : s.core.LastLink l) :
    TellsGone i u.peer s (s.onLinkDown i.now.monotonicMs l) := by
  have hdown : ¬ (s.unlink l).core.Reaches u.peer := by
    rintro ⟨m, hm⟩
    obtain ⟨hne, hm'⟩ := (unlink_upWith s l m u.peer).mp hm
    exact hne ((lastLink_iff hl).mp last m hm')
  rw [onLinkDown_up hl]
  unfold lostUpLink
  rw [if_neg fun h => hdown (Core.bestLink_isSome.mp h)]
  refine ⟨{ (s.unlink l).ui (.peerUnreachable u.peer) with core.reconnectAt := some 0 }, ?_,
    .refl _⟩
  exact ⟨⟨rfl, [_], rfl, by simp [Action.plain]⟩, rfl⟩

/-- A link of a peer that has another is lost without a word to the plugins. -/
theorem onLinkDown_calm (hl : s.core.links[l]? = some (.up u)) (more : ¬ s.core.LastLink l)
    (nowMs : ℕ) : Calm s (s.onLinkDown nowMs l) := by
  have hup : (s.unlink l).core.Reaches u.peer := by
    by_contra hdown
    refine more ((lastLink_iff hl).mpr fun m hm => ?_)
    by_contra hne
    exact hdown ⟨m, (unlink_upWith s l m u.peer).mpr ⟨hne, hm⟩⟩
  rw [onLinkDown_up hl]
  unfold lostUpLink
  rw [if_pos (Core.bestLink_isSome.mpr hup)]
  exact ⟨⟨rfl, [_], rfl, by simp [Action.plain]⟩, rfl⟩

theorem failUpLink_tellsGone (hl : s.core.links[l]? = some (.up u)) (last : s.core.LastLink l)
    (detail : String) :
    TellsGone i u.peer s ((s.unlink l).failUpLink i.now.monotonicMs l u detail) := by
  have hback : (s.core.links.erase l).insert l (.up u) = s.core.links := Lib.restore hl
  unfold failUpLink
  refine .after ?_ (onLinkDown_tellsGone ?_ ((lastLink_congr hback l).mpr last))
  · exact ⟨⟨rfl, [_, _], List.append_assoc _ _ _, by simp [Action.plain]⟩, rfl⟩
  · exact (congrArg (·[l]?) hback).trans hl

/-- Of the links of a peer, closed one after the other, the last one takes the word with it. -/
theorem closeEach_tellsGone {peer : DeviceId} (reason : LinkDownReason) (ls : List LinkId)
    (hnodup : ls.Nodup) (hsome : ls ≠ []) (s : Exec X P)
    (h : ∀ l, s.core.UpWith peer l ↔ l ∈ ls) : TellsGone i peer s
      (ls.foldl (fun s l => (s.push (.close l reason)).onLinkDown i.now.monotonicMs l) s) := by
  induction ls generalizing s with
  | nil => exact absurd rfl hsome
  | cons l ls ih =>
    obtain ⟨hl, hls⟩ := List.nodup_cons.mp hnodup
    obtain ⟨u, hu, rfl⟩ := (h l).mpr (by simp)
    have hu' : (s.push (.close l reason)).core.links[l]? = some (.up u) := hu
    have hclose : Calm s (s.push (.close l reason)) := .push s _ rfl
    rw [List.foldl_cons]
    by_cases hnil : ls = []
    · subst hnil
      refine .after hclose (onLinkDown_tellsGone hu' ((lastLink_iff hu').mpr fun m hm => ?_))
      simpa using (h m).mp hm
    · have hmore : ¬ (s.push (.close l reason)).core.LastLink l := by
        intro hlast
        obtain ⟨m, hm⟩ := List.exists_mem_of_ne_nil ls hnil
        have hml := (lastLink_iff hu').mp hlast m ((h m).mpr (List.mem_cons_of_mem l hm))
        exact hl (hml ▸ hm)
      refine .after (hclose.trans (onLinkDown_calm hu' hmore _)) (ih hls hnil _ fun m => ?_)
      have hsame : (s.push (.close l reason)).core.UpWith u.peer m ↔ m ∈ l :: ls := h m
      rw [onLinkDown_upWith hu', hsame, List.mem_cons]
      constructor
      · rintro ⟨hne, hm⟩
        exact hm.resolve_left hne
      · intro hm
        refine ⟨?_, .inr hm⟩
        rintro rfl
        exact hl hm

theorem closeUpLinks_tellsGone (s : Exec X P) {peer : DeviceId} (reason : LinkDownReason)
    (hsome : ¬ (s.core.upLinks peer).isEmpty) :
    TellsGone i peer s (s.closeUpLinks i.now.monotonicMs peer reason) := by
  rw [closeUpLinks_eq]
  refine closeEach_tellsGone reason _ (Core.upLinks_nodup s.core peer) ?_ s
    fun l => upWith_iff_mem_ids
  simpa using hsome

theorem handleRevoke_tellsGone (s : Exec X P) {peer : DeviceId}
    (hsome : ¬ (s.core.upLinks peer).isEmpty) :
    TellsGone i peer s (s.handleRevoke i.now.monotonicMs peer) := by
  let fp := (s.core.peers[peer]?).bind (·.fingerprint X)
  refine .before (.after ?_ (closeUpLinks_tellsGone _ (.protocol .notPaired) ?_))
    ⟨revoked_plain _ peer fp, revoked_errands _ peer fp⟩
  · exact ⟨⟨rfl, [_], rfl, by simp [Action.plain]⟩, rfl⟩
  · exact hsome

end Exec

/-- An event that takes the last session of a peer tells every plugin. -/
theorem Core.parts_tellsGone {c : Core X P} {i : Core.Input X} {peer : DeviceId}
    (h : c.parts i = some peer) : TellsGone i peer (c.start i) (c.exec i) := by
  have hexec : c.exec i = (c.start i).onEvent i.now.monotonicMs i.seed i.event := rfl
  rw [hexec]
  unfold Core.parts at h
  cases he : i.event with
  | linkDown l reason =>
    rw [he] at h
    obtain ⟨u, hu, rfl, hlast⟩ := lastLink_of_lastLinkOf h
    exact Exec.onLinkDown_tellsGone hu hlast
  | linkRecv l msg =>
    rw [he] at h
    dsimp only [Exec.onEvent]
    unfold Exec.onLinkRecv
    cases hf : Frame.split msg with
    | none => simp [hf] at h
    | some r =>
      obtain ⟨kind, body⟩ := r
      cases hl : c.links[l]? with
      | none => cases kind <;> simp [hf, hl] at h
      | some st =>
        have hlink : (c.start i).core.links[l]? = some st := hl
        cases st with
        | pending p => cases kind <;> simp [hf, hl] at h
        | handshaking g => cases kind <;> simp [hf, hl] at h
        | up u =>
          dsimp only
          rw [hlink]
          dsimp only
          have lost : c.lastLinkOf l = some peer → u.peer = peer ∧ (c.start i).core.LastLink l := by
            intro hlast
            obtain ⟨v, hv, hp, hlast⟩ := lastLink_of_lastLinkOf hlast
            rw [hl] at hv
            obtain rfl := LinkState.up.inj (Option.some.inj hv)
            exact ⟨hp, hlast⟩
          unfold Exec.onTransportFrame
          cases kind with
          | transport =>
            cases hdec : u.session.decrypt body with
            | ok r => simp [hf, hl, hdec] at h
            | error e =>
              obtain ⟨rfl, hlast⟩ := lost (by simpa [hf, hl, hdec] using h)
              exact Exec.failUpLink_tellsGone hlink hlast _
          | pairHandshake | sessionHandshake =>
            obtain ⟨rfl, hlast⟩ := lost (by simpa [hf, hl] using h)
            exact Exec.failUpLink_tellsGone hlink hlast _
  | localCommand cmd =>
    rw [he] at h
    cases cmd with
    | disconnect p =>
      dsimp only at h
      split at h
      · cases h
      · rename_i hsome
        obtain rfl := Option.some.inj h
        exact Exec.closeUpLinks_tellsGone _ _ hsome
    | revoke p =>
      dsimp only at h
      split at h
      · cases h
      · rename_i hsome
        obtain rfl := Option.some.inj h
        exact Exec.handleRevoke_tellsGone _ hsome
    | _ => cases h
  | _ =>
    rw [he] at h
    cases h

end Acrylius
