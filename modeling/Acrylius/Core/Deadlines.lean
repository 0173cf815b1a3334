import Acrylius.Core.Calls
import Acrylius.Lib.Earliest
import Acrylius.Mock
import Acrylius.Plugins.Moves

/-! What the core waits for: the deadline it names is the earliest of these, and a tick leaves
none of them behind it. -/
namespace Acrylius
open Proto Std

variable {X : Crates} {P : Type}

/-- Something the core has set itself a deadline for. -/
inductive Wait where
  | plugins
  | reconnect
  | dial (d : DialToken)
  | pairing
  | bulk (t : TransferId)
  | link (l : LinkId)

/-- When a link that never became a session is given up. -/
def LinkState.deadline : LinkState X → Option ℕ
  | .pending p => some p.deadline
  | .handshaking h => some h.deadline
  | .up _ => none

namespace Core

def deadline (c : Core X P) : Wait → Option ℕ
  | .plugins => c.pluginWake
  | .reconnect => c.reconnectAt
  | .dial d => (c.pendingPeerDials[d]?).map (·.1)
  | .pairing => c.pairing.map (·.deadline)
  | .bulk t => c.bulkWait[t]?
  | .link l => (c.links[l]?).bind LinkState.deadline

def deadlines (c : Core X P) : List ℕ :=
  c.pluginWake.toList ++ c.reconnectAt.toList ++ c.pendingPeerDials.toList.map (·.2.1) ++
    (c.pairing.map (·.deadline)).toList ++ c.bulkWait.toList.map (·.2) ++
    c.links.toList.filterMap fun e => e.2.deadline

theorem mem_deadlines {c : Core X P} {d : ℕ} :
    d ∈ c.deadlines ↔ ∃ w, c.deadline w = some d := by
  constructor
  · intro h
    simp only [deadlines, List.mem_append, Option.mem_toList, List.mem_map,
      List.mem_filterMap] at h
    rcases h with ((((h | h) | ⟨e, he, rfl⟩) | h) | ⟨e, he, rfl⟩) | ⟨e, he, hd⟩
    · exact ⟨.plugins, h⟩
    · exact ⟨.reconnect, h⟩
    · rw [ExtTreeMap.mem_toList_iff_getElem?_eq_some] at he
      exact ⟨.dial e.1, by simp [deadline, he]⟩
    · exact ⟨.pairing, h⟩
    · rw [ExtTreeMap.mem_toList_iff_getElem?_eq_some] at he
      exact ⟨.bulk e.1, he⟩
    · rw [ExtTreeMap.mem_toList_iff_getElem?_eq_some] at he
      exact ⟨.link e.1, by simp [deadline, he, hd]⟩
  · rintro ⟨w, h⟩
    simp only [deadlines, List.mem_append, Option.mem_toList, List.mem_map, List.mem_filterMap]
    cases w with
    | plugins => exact .inl (.inl (.inl (.inl (.inl h))))
    | reconnect => exact .inl (.inl (.inl (.inl (.inr h))))
    | dial t =>
      obtain ⟨e, he, rfl⟩ := Option.map_eq_some_iff.mp h
      have hmem := ExtTreeMap.mem_toList_iff_getElem?_eq_some.mpr he
      exact .inl (.inl (.inl (.inr ⟨_, hmem, rfl⟩)))
    | pairing => exact .inl (.inl (.inr h))
    | bulk t =>
      have hmem := ExtTreeMap.mem_toList_iff_getElem?_eq_some.mpr h
      exact .inl (.inr ⟨_, hmem, rfl⟩)
    | link l =>
      obtain ⟨st, hst, hd⟩ := Option.bind_eq_some_iff.mp h
      have hmem := ExtTreeMap.mem_toList_iff_getElem?_eq_some.mpr hst
      exact .inr ⟨_, hmem, hd⟩

theorem nextDeadline_eq (c : Core X P) : c.nextDeadline = c.deadlines.min? := by
  have links : ∀ best : Option ℕ, c.links.toList.foldl (fun b e => match e.2 with
      | .pending p => Lib.sooner b p.deadline
      | .handshaking h => Lib.sooner b h.deadline
      | .up _ => b) best =
      (best.toList ++ c.links.toList.filterMap fun e => e.2.deadline).min? := by
    intro best
    refine Lib.foldl_sooner_filterMap (fun e : LinkId × LinkState X => e.2.deadline) ?_ best _
    intro b e
    obtain ⟨l, st⟩ := e
    cases st <;> rfl
  have pair : ∀ best : Option ℕ, c.pairing.elim best (fun w => Lib.sooner best w.deadline) =
      (best.toList ++ (c.pairing.map (·.deadline)).toList).min? := by
    intro best
    rw [← Lib.elim_sooner, Option.elim_map]
    rfl
  unfold nextDeadline
  change c.links.toList.foldl (fun b e => match e.2 with
      | .pending p => Lib.sooner b p.deadline
      | .handshaking h => Lib.sooner b h.deadline
      | .up _ => b)
    (c.bulkWait.toList.foldl (fun b e => Lib.sooner b e.2)
      (c.pairing.elim (c.pendingPeerDials.toList.foldl (fun b e => Lib.sooner b e.2.1)
          (c.reconnectAt.elim c.pluginWake (Lib.sooner c.pluginWake)))
        fun w => Lib.sooner (c.pendingPeerDials.toList.foldl (fun b e => Lib.sooner b e.2.1)
          (c.reconnectAt.elim c.pluginWake (Lib.sooner c.pluginWake))) w.deadline)) = _
  rw [links, Lib.foldl_sooner_map, pair, Lib.foldl_sooner_map, Lib.elim_sooner]
  simp only [Lib.min?_toList_append, deadlines]

/-- The core names no deadline exactly when it waits for nothing. -/
theorem nextDeadline_isSome {c : Core X P} :
    c.nextDeadline.isSome ↔ ∃ w d, c.deadline w = some d := by
  rw [nextDeadline_eq, List.isSome_min?_iff]
  constructor
  · intro h
    obtain ⟨d, hd⟩ := List.exists_mem_of_ne_nil _ h
    obtain ⟨w, hw⟩ := mem_deadlines.mp hd
    exact ⟨w, d, hw⟩
  · rintro ⟨w, d, hw⟩
    exact List.ne_nil_of_mem (mem_deadlines.mpr ⟨w, hw⟩)

theorem nextDeadline_waits {c : Core X P} {d : ℕ} (h : c.nextDeadline = some d) :
    ∃ w, c.deadline w = some d := by
  rw [nextDeadline_eq] at h
  exact mem_deadlines.mp (List.min?_mem h)

end Core

/-- A stretch of a step in which the core sets itself no deadline that is due already: what it
waits for afterwards lies ahead, or it waited for before. -/
structure Punctual (nowMs : ℕ) (s t : Exec X P) : Prop where
  config : t.core.config = s.core.config
  ahead : 0 < s.core.config.dialTimeoutMs → 0 < s.core.config.reconnectEveryMs →
    ∀ w d, t.core.deadline w = some d → nowMs < d ∨ s.core.deadline w = some d

namespace Punctual
variable {nowMs : ℕ} {s t r : Exec X P}

theorem of_waits (hc : t.core.config = s.core.config)
    (h : ∀ w d, t.core.deadline w = some d → s.core.deadline w = some d) : Punctual nowMs s t :=
  ⟨hc, fun _ _ w d hd => .inr (h w d hd)⟩

theorem of_same (hc : t.core.config = s.core.config) (h : t.core.deadline = s.core.deadline) :
    Punctual nowMs s t :=
  of_waits hc fun w d hd => by rwa [h] at hd

theorem refl (s : Exec X P) : Punctual nowMs s s := of_same rfl rfl

theorem trans (h : Punctual nowMs s t) (h' : Punctual nowMs t r) : Punctual nowMs s r := by
  constructor
  · exact h'.config.trans h.config
  · intro hdial hbeat w d hd
    have hdial' : 0 < t.core.config.dialTimeoutMs := by rwa [h.config]
    have hbeat' : 0 < t.core.config.reconnectEveryMs := by rwa [h.config]
    rcases h'.ahead hdial' hbeat' w d hd with hlt | hd'
    · exact .inl hlt
    · exact h.ahead hdial hbeat w d hd'

theorem push (s : Exec X P) (a : Action) : Punctual nowMs s (s.push a) := of_same rfl rfl

theorem foldl {α : Type} {f : Exec X P → α → Exec X P} (hf : ∀ s a, Punctual nowMs s (f s a))
    (as : List α) (s : Exec X P) : Punctual nowMs s (as.foldl f s) := by
  induction as generalizing s with
  | nil => exact refl s
  | cons a as ih => exact (hf s a).trans (ih _)

end Punctual

/-- Plugins see the clock they are given, and ask only to be woken later than that. -/
structure Plugin.Prompt (P : Type) [Plugin P] : Prop where
  clock : ∀ (p : P) (cx : Cx) (c : Call), (Plugin.call p cx c).2.1.nowMs = cx.nowMs
  wakes : ∀ (p : P) (cx : Cx) (c : Call) (w : ℕ), (Plugin.call p cx c).2.1.wakeAt = some w →
    cx.wakeAt = some w ∨ cx.nowMs < w

def Cx.Ahead (cx : Cx) (nowMs : ℕ) : Prop := cx.nowMs = nowMs ∧ ∀ w, cx.wakeAt = some w → nowMs < w

theorem Cx.Ahead.call [Plugin P] (law : Plugin.Prompt P) {cx : Cx} {nowMs : ℕ} (h : cx.Ahead nowMs)
    (p : P) (c : Call) : (Plugin.call p cx c).2.1.Ahead nowMs := by
  obtain ⟨hnow, hwake⟩ := h
  constructor
  · exact (law.clock p cx c).trans hnow
  · intro w hw
    rcases law.wakes p cx c w hw with hold | hlt
    · exact hwake w hold
    · exact hnow ▸ hlt

theorem Cx.Ahead.forEachPlugin [Plugin P] (law : Plugin.Prompt P) {nowMs : ℕ} (c : Call)
    (ps : List P) {cx : Cx} (h : cx.Ahead nowMs) :
    (Acrylius.forEachPlugin (fun p cx => ((Plugin.call p cx c).1, (Plugin.call p cx c).2.1)) ps
      cx).2.Ahead nowMs := by
  induction ps generalizing cx with
  | nil => exact h
  | cons p ps ih => exact ih (h.call law p c)

namespace Exec
variable {nowMs : ℕ}

theorem insertUp_punctual (s : Exec X P) (l : LinkId) (u : UpLink X) :
    Punctual nowMs s (s.insertLink l (.up u)) := by
  refine .of_waits rfl fun w d hd => ?_
  cases w with
  | link l' =>
    obtain ⟨st, hst, hdl⟩ := Option.bind_eq_some_iff.mp hd
    rcases Lib.getElem?_of_insert hst with ⟨-, rfl⟩ | ⟨-, hst⟩
    · cases hdl
    · exact Option.bind_eq_some_iff.mpr ⟨st, hst, hdl⟩
  | _ => exact hd

theorem eraseLink_punctual (s : Exec X P) (l : LinkId) : Punctual nowMs s (s.unlink l) := by
  refine .of_waits rfl fun w d hd => ?_
  cases w with
  | link l' =>
    obtain ⟨st, hst, hdl⟩ := Option.bind_eq_some_iff.mp hd
    exact Option.bind_eq_some_iff.mpr ⟨st, (Lib.getElem?_of_erase hst).2, hdl⟩
  | _ => exact hd

theorem dispatchSend_punctual (s : Exec X P) (m : PendingSend) :
    Punctual nowMs s (s.dispatchSend m) := by
  unfold dispatchSend
  dsimp only
  split
  · exact .of_same rfl rfl
  · rename_i l u _
    split
    · exact .of_same rfl rfl
    · split
      · rename_i session _
        have sealed : Punctual nowMs s (s.insertLink l (.up { u with session })) :=
          insertUp_punctual s l _
        split
        · exact sealed.trans (.of_same rfl rfl)
        · exact sealed.trans (.of_same rfl rfl)
      · exact .of_same rfl rfl

theorem dispatchBulk_punctual (s : Exec X P) (b : BulkRequest) :
    Punctual nowMs s (s.dispatchBulk nowMs b) := by
  have key : ∀ (peer offerer : DeviceId) (t : TransferId) (n : ℕ)
      (start : Exec X P → Bytes → Exec X P), (∀ s k, Punctual nowMs s (start s k)) →
      Punctual nowMs s (s.withBulkKey peer t offerer n start) := by
    intro peer offerer t n start h
    unfold withBulkKey
    split
    · exact .of_same rfl rfl
    · split
      · exact .of_same rfl rfl
      · exact h s _
  cases b <;> dsimp only [dispatchBulk]
  case cancel t => exact .push s _
  case send => exact key _ _ _ _ _ fun s k => .push s _
  case listen peer t n bytes =>
    refine key _ _ _ _ _ fun s k => ⟨rfl, fun _ _ w d hd => ?_⟩
    cases w with
    | bulk t' =>
      rcases Lib.getElem?_of_insert hd with ⟨-, rfl⟩ | ⟨-, hd⟩
      · have hlate : nowMs < nowMs + bulkDialWaitMs := by
          unfold bulkDialWaitMs
          omega
        exact .inl hlate
      · exact .inr hd
    | _ => exact .inr hd

theorem drainCx_punctual (s : Exec X P) {cx : Cx} (h : cx.Ahead nowMs) :
    Punctual nowMs s (s.drainCx cx) := by
  obtain ⟨hnow, hwake⟩ := h
  have told : Punctual nowMs s (cx.ui.foldl ui s) := .foldl (fun s e => .push s (.ui e)) _ _
  have acted : ∀ r : Exec X P,
      Punctual nowMs r (cx.effects.foldl (fun s e => s.push (.effect e.1 e.2)) r) :=
    .foldl (fun s e => .push s _) _
  have asked : ∀ r : Exec X P,
      Punctual nowMs r (cx.bulk.foldl (fun s b => s.dispatchBulk nowMs b) r) :=
    .foldl dispatchBulk_punctual _
  have sent : ∀ r : Exec X P, Punctual nowMs r (cx.sends.foldl dispatchSend r) :=
    .foldl dispatchSend_punctual _
  have all := ((told.trans (acted _)).trans (asked _)).trans (sent _)
  unfold drainCx
  rw [hnow]
  cases hw : cx.wakeAt with
  | none => exact all
  | some w =>
    refine all.trans ⟨rfl, fun _ _ wait d hd => ?_⟩
    cases wait with
    | plugins =>
      have hlt := hwake w hw
      have hmin := Option.some.inj hd
      rw [← hmin]
      cases hp : (cx.sends.foldl dispatchSend (cx.bulk.foldl (fun s b => s.dispatchBulk nowMs b)
          (cx.effects.foldl (fun s e => s.push (.effect e.1 e.2))
            (cx.ui.foldl ui s)))).core.pluginWake with
      | none => exact .inl hlt
      | some w' =>
        by_cases hle : w' ≤ w
        · right
          rw [Option.elim_some, min_eq_left hle]
          exact hp
        · left
          rw [Option.elim_some, min_eq_right (by omega)]
          exact hlt
    | _ => exact .inr hd

theorem dialPeer_punctual (s : Exec X P) (peer : DeviceId) (route : TransportId × String)
    (routes : List (TransportId × String)) (byHand : Bool) :
    Punctual nowMs s (s.dialPeer nowMs peer route routes byHand) := by
  refine ⟨rfl, fun hdial _ w d hd => ?_⟩
  cases w with
  | dial t =>
    obtain ⟨e, he, rfl⟩ := Option.map_eq_some_iff.mp hd
    rcases Lib.getElem?_of_insert he with ⟨-, rfl⟩ | ⟨-, he⟩
    · have hlate : nowMs < nowMs + s.core.config.dialTimeoutMs := by omega
      exact .inl hlate
    · exact .inr (Option.map_eq_some_iff.mpr ⟨e, he, rfl⟩)
  | _ => exact .inr hd

theorem tryNextRoute_punctual (s : Exec X P) (pending : PeerDial) (why : String) :
    Punctual nowMs s (s.tryNextRoute nowMs pending why) := by
  unfold tryNextRoute
  split
  · exact .refl s
  · split
    · dsimp only
      split
      · exact .of_same rfl rfl
      · exact .of_same rfl rfl
    · exact dialPeer_punctual s _ _ _ _

theorem connectRoutes_punctual (s : Exec X P) (peer : DeviceId)
    (routes : List (TransportId × String)) (byHand : Bool) :
    Punctual nowMs s (s.connectRoutes nowMs peer routes byHand) := by
  unfold connectRoutes
  split
  · dsimp only
    split
    · exact .of_same rfl rfl
    · exact .of_same rfl rfl
  · exact dialPeer_punctual s _ _ _ _

theorem connectPeer_punctual (s : Exec X P) (peer : DeviceId) :
    Punctual nowMs s (s.connectPeer nowMs peer false) := by
  unfold connectPeer
  dsimp only
  split
  · exact .refl s
  · split
    · exact connectRoutes_punctual s _ _ _
    · exact .refl s
    · split
      · exact .push s _
      · split
        · exact .refl s
        · split
          · exact .refl s
          · exact connectRoutes_punctual s _ _ _

section Calls
variable [Plugin P] (law : Plugin.Prompt P)
include law

theorem callPlugin_punctual (s : Exec X P) (idx : ℕ) {cx : Cx} (c : Call) (h : cx.Ahead nowMs) :
    Punctual nowMs s (s.callPlugin idx cx fun p cx => Plugin.call p cx c).1 := by
  cases hp : s.core.plugins[idx]? with
  | none =>
    unfold callPlugin
    rw [hp]
    exact .refl s
  | some p =>
    rw [callPlugin_eq s cx _ hp]
    have kept : Punctual nowMs s (s.handOver idx (Plugin.call p cx c).1 (Plugin.call p cx c).2.1) :=
      .of_same rfl rfl
    exact kept.trans (drainCx_punctual _ (h.call law p c))

theorem callAllPlugins_punctual (s : Exec X P) (c : Call) :
    Punctual nowMs s (s.callAllPlugins nowMs fun p cx =>
      ((Plugin.call p cx c).1, (Plugin.call p cx c).2.1)) := by
  have start : (s.cx nowMs).Ahead nowMs := ⟨rfl, fun w hw => by cases hw⟩
  have kept : Punctual nowMs s { s with core := { s.core with
      plugins := (forEachPlugin (fun p cx => ((Plugin.call p cx c).1, (Plugin.call p cx c).2.1))
        s.core.plugins (s.cx nowMs)).1
      nextToken := (forEachPlugin (fun p cx => ((Plugin.call p cx c).1,
        (Plugin.call p cx c).2.1)) s.core.plugins (s.cx nowMs)).2.nextToken
      nextTransfer := (forEachPlugin (fun p cx => ((Plugin.call p cx c).1,
        (Plugin.call p cx c).2.1)) s.core.plugins (s.cx nowMs)).2.nextTransfer } } :=
    .of_same rfl rfl
  exact kept.trans (drainCx_punctual _ (start.forEachPlugin law c s.core.plugins))

end Calls
end Exec

/-- Something waited for is due, on a core whose timeouts are not zero. -/
def Overdue (nowMs : ℕ) (s : Exec X P) (w : Wait) : Prop :=
  (0 < s.core.config.dialTimeoutMs ∧ 0 < s.core.config.reconnectEveryMs) ∧
    ∃ d, s.core.deadline w = some d ∧ d ≤ nowMs

namespace Punctual
variable {nowMs : ℕ} {s t : Exec X P} {w : Wait}

theorem overdue (h : Punctual nowMs s t) (ht : Overdue nowMs t w) : Overdue nowMs s w := by
  obtain ⟨⟨hdial, hbeat⟩, d, hd, hle⟩ := ht
  rw [h.config] at hdial hbeat
  refine ⟨⟨hdial, hbeat⟩, d, ?_, hle⟩
  rcases h.ahead hdial hbeat w d hd with hlt | hd
  · omega
  · exact hd

/-- What is not waited for is not due after a punctual stretch either. -/
theorem not_overdue (h : Punctual nowMs s t) (hw : s.core.deadline w = none) :
    ¬ Overdue nowMs t w := by
  intro ht
  obtain ⟨-, d, hd, -⟩ := h.overdue ht
  rw [hw] at hd
  cases hd

end Punctual

namespace Exec
variable {nowMs : ℕ} {s : Exec X P}

theorem lapsePairing_punctual (s : Exec X P) : Punctual nowMs s (s.lapsePairing nowMs) := by
  unfold lapsePairing
  split
  · exact .refl s
  · split
    · exact .refl s
    · have lapsed : ∀ r : Exec X P, Punctual nowMs r { r with core.pairing := none } := by
        intro r
        refine .of_waits rfl fun w d hd => ?_
        cases w with
        | pairing => cases hd
        | _ => exact hd
      dsimp only
      split
      · exact ((lapsed s).trans (eraseLink_punctual _ _)).trans (.of_same rfl rfl)
      · exact (lapsed s).trans (.of_same rfl rfl)

theorem lapsePairing_clears (s : Exec X P) : ¬ Overdue nowMs (s.lapsePairing nowMs) .pairing := by
  rintro ⟨-, d, hd, hle⟩
  unfold lapsePairing at hd
  split at hd
  · rename_i hnone
    simp [Core.deadline, hnone] at hd
  · rename_i w hw
    split at hd
    · simp only [Core.deadline, hw, Option.map_some, Option.some.injEq] at hd
      omega
    · cases hd

theorem closeStale_punctual (s : Exec X P) (l : LinkId) :
    Punctual nowMs (s.unlink l) (s.closeStale nowMs l) := by
  have closed : Punctual nowMs (s.unlink l) ((s.unlink l).push (.close l .closed)) := .push _ _
  unfold closeStale
  dsimp only
  split
  · split
    · exact closed.trans (tryNextRoute_punctual _ _ _)
    · exact closed
  · exact closed

theorem closeStaleLinks_punctual (s : Exec X P) : Punctual nowMs s (s.closeStaleLinks nowMs) :=
  .foldl (fun s l => (eraseLink_punctual s l).trans (closeStale_punctual s l)) _ s

theorem closeStaleLinks_clears (s : Exec X P) (l : LinkId) :
    ¬ Overdue nowMs (s.closeStaleLinks nowMs) (.link l) := by
  refine Lib.foldl_clears (fun s l => Overdue nowMs s (.link l)) ?_ ?_ _ s ?_ l
  · intro s l l'
    exact ((eraseLink_punctual s l).trans (closeStale_punctual s l)).overdue
  · intro s l
    refine (closeStale_punctual s l).not_overdue ?_
    simp [Core.deadline, unlink]
  · rintro l ⟨-, d, hd, hle⟩
    obtain ⟨st, hst, hdl⟩ := Option.bind_eq_some_iff.mp hd
    have hmem := ExtTreeMap.mem_toList_iff_getElem?_eq_some.mpr hst
    refine List.mem_map.mpr ⟨(l, st), List.mem_filter.mpr ⟨hmem, ?_⟩, rfl⟩
    cases st <;> cases hdl <;> simpa [stale] using hle

theorem expireDial_punctual (s : Exec X P) (d : DialToken) :
    Punctual nowMs { s with core.pendingPeerDials := s.core.pendingPeerDials.erase d }
      (s.expireDial nowMs d) := by
  unfold expireDial
  split
  · rename_i hnone
    have hsame : s.core.pendingPeerDials.erase d = s.core.pendingPeerDials := Lib.erase_of_none hnone
    rw [hsame]
    exact .refl s
  · exact tryNextRoute_punctual _ _ _

theorem eraseDial_punctual (s : Exec X P) (d : DialToken) :
    Punctual nowMs s { s with core.pendingPeerDials := s.core.pendingPeerDials.erase d } := by
  refine .of_waits rfl fun w t ht => ?_
  cases w with
  | dial d' =>
    obtain ⟨e, he, rfl⟩ := Option.map_eq_some_iff.mp ht
    exact Option.map_eq_some_iff.mpr ⟨e, (Lib.getElem?_of_erase he).2, rfl⟩
  | _ => exact ht

theorem expireDials_punctual (s : Exec X P) : Punctual nowMs s (s.expireDials nowMs) :=
  .foldl (fun s d => (eraseDial_punctual s d).trans (expireDial_punctual s d)) _ s

theorem expireDials_clears (s : Exec X P) (d : DialToken) :
    ¬ Overdue nowMs (s.expireDials nowMs) (.dial d) := by
  refine Lib.foldl_clears (fun s d => Overdue nowMs s (.dial d)) ?_ ?_ _ s ?_ d
  · intro s d d'
    exact ((eraseDial_punctual s d).trans (expireDial_punctual s d)).overdue
  · intro s d
    refine (expireDial_punctual s d).not_overdue ?_
    simp [Core.deadline]
  · rintro d ⟨-, t, ht, hle⟩
    obtain ⟨e, he, rfl⟩ := Option.map_eq_some_iff.mp ht
    have hmem := ExtTreeMap.mem_toList_iff_getElem?_eq_some.mpr he
    exact List.mem_map.mpr ⟨(d, e), List.mem_filter.mpr ⟨hmem, by simpa using hle⟩, rfl⟩

theorem heartbeat_punctual (s : Exec X P) : Punctual nowMs s (s.heartbeat nowMs) := by
  unfold heartbeat
  split
  · refine .trans ?_ (.foldl (fun s id => connectPeer_punctual s id) _ _)
    refine ⟨rfl, fun _ hbeat w d hd => ?_⟩
    cases w with
    | reconnect =>
      have hnext := Option.some.inj hd
      left
      omega
    | _ => exact .inr hd
  · exact .refl s

theorem heartbeat_clears (s : Exec X P) : ¬ Overdue nowMs (s.heartbeat nowMs) .reconnect := by
  unfold heartbeat
  by_cases hdue : s.core.reconnectAt.all (· ≤ nowMs)
  · rw [if_pos hdue]
    intro h
    obtain ⟨⟨-, hbeat⟩, d, hd, hle⟩ :=
      (Punctual.foldl (fun s id => connectPeer_punctual s id) _ _).overdue h
    have hnext : nowMs + s.core.config.reconnectEveryMs = d := Option.some.inj hd
    dsimp only at hbeat
    omega
  · rw [if_neg hdue]
    rintro ⟨-, d, hd, hle⟩
    have hat : s.core.reconnectAt = some d := hd
    simp [hat, hle] at hdue

section Calls
variable [Plugin P] (law : Plugin.Prompt P)
include law

theorem giveUpBulk_punctual (s : Exec X P) (t : TransferId) :
    Punctual nowMs { s with core.bulkWait := s.core.bulkWait.erase t } (s.giveUpBulk nowMs t) := by
  have cancelled : Punctual nowMs { s with core.bulkWait := s.core.bulkWait.erase t }
      (push { s with core.bulkWait := s.core.bulkWait.erase t } (.bulkCancel t)) := .push _ _
  have told : ∀ r : Exec X P, Punctual nowMs r (r.dispatchToTransferOwner nowMs t fun p cx =>
      Plugin.onBulkFinished p cx t false "the sender never connected") := by
    intro r
    unfold dispatchToTransferOwner
    split
    · exact .refl r
    · rename_i idx _
      rw [callPlugin_congr idx _ (fun p cx => Plugin.call p cx
        (.bulkFinished t false "the sender never connected")) fun p => by simp [Plugin.call]]
      exact callPlugin_punctual law r idx _ ⟨rfl, fun w hw => by cases hw⟩
  exact (cancelled.trans (told _)).trans (.of_same rfl rfl)

omit [Plugin P] law in
theorem eraseBulk_punctual (s : Exec X P) (t : TransferId) :
    Punctual nowMs s { s with core.bulkWait := s.core.bulkWait.erase t } := by
  refine .of_waits rfl fun w d hd => ?_
  cases w with
  | bulk t' => exact (Lib.getElem?_of_erase hd).2
  | _ => exact hd

theorem giveUpWaiting_punctual (s : Exec X P) : Punctual nowMs s (s.giveUpWaiting nowMs) :=
  .foldl (fun s t => (eraseBulk_punctual s t).trans (giveUpBulk_punctual law s t)) _ s

theorem giveUpWaiting_clears (s : Exec X P) (t : TransferId) :
    ¬ Overdue nowMs (s.giveUpWaiting nowMs) (.bulk t) := by
  refine Lib.foldl_clears (fun s t => Overdue nowMs s (.bulk t)) ?_ ?_ _ s ?_ t
  · intro s t t'
    exact ((eraseBulk_punctual s t).trans (giveUpBulk_punctual law s t)).overdue
  · intro s t
    refine (giveUpBulk_punctual law s t).not_overdue ?_
    simp [Core.deadline]
  · rintro t ⟨-, d, hd, hle⟩
    have hmem := ExtTreeMap.mem_toList_iff_getElem?_eq_some.mpr hd
    exact List.mem_map.mpr ⟨(t, d), List.mem_filter.mpr ⟨hmem, by simpa using hle⟩, rfl⟩

theorem wakePlugins_punctual (s : Exec X P) : Punctual nowMs s (s.wakePlugins nowMs) := by
  unfold wakePlugins
  split
  · exact .refl s
  · split
    · exact .refl s
    · refine .trans (t := { s with core.pluginWake := none }) ?_ (callAllPlugins_punctual law _ .tick)
      refine .of_waits rfl fun w d hd => ?_
      cases w with
      | plugins => cases hd
      | _ => exact hd

theorem wakePlugins_clears (s : Exec X P) : ¬ Overdue nowMs (s.wakePlugins nowMs) .plugins := by
  unfold wakePlugins
  cases hw : s.core.pluginWake with
  | none =>
    rintro ⟨-, d, hd, -⟩
    rw [Core.deadline, hw] at hd
    cases hd
  | some w =>
    dsimp only
    by_cases hlt : nowMs < w
    · rw [if_pos hlt]
      rintro ⟨-, d, hd, hle⟩
      obtain rfl : w = d := Option.some.inj (hw.symm.trans hd)
      omega
    · rw [if_neg hlt]
      exact (callAllPlugins_punctual law { s with core.pluginWake := none } .tick).not_overdue rfl

theorem onTick_clears (s : Exec X P) (w : Wait) : ¬ Overdue nowMs (s.onTick nowMs) w := by
  intro h
  have h₅ : Overdue nowMs (((((s.lapsePairing nowMs).giveUpWaiting nowMs).closeStaleLinks
      nowMs).expireDials nowMs).heartbeat nowMs) w := (wakePlugins_punctual law _).overdue h
  have h₄ := (heartbeat_punctual _).overdue h₅
  have h₃ := (expireDials_punctual _).overdue h₄
  have h₂ := (closeStaleLinks_punctual _).overdue h₃
  have h₁ := (giveUpWaiting_punctual law _).overdue h₂
  cases w with
  | plugins => exact wakePlugins_clears law _ h
  | reconnect => exact heartbeat_clears _ h₅
  | dial d => exact expireDials_clears _ d h₄
  | link l => exact closeStaleLinks_clears _ l h₃
  | bulk t => exact giveUpWaiting_clears law _ t h₂
  | pairing => exact lapsePairing_clears _ h₁

end Calls
end Exec

section
variable [Plugin P]

theorem Exec.onTick_punctual (law : Plugin.Prompt P) {nowMs : ℕ} (s : Exec X P) :
    Punctual nowMs s (s.onTick nowMs) := by
  have h : Punctual nowMs s ((s.lapsePairing nowMs).giveUpWaiting nowMs) :=
    (lapsePairing_punctual s).trans (giveUpWaiting_punctual law _)
  have h' := (h.trans (closeStaleLinks_punctual _)).trans (expireDials_punctual _)
  exact (h'.trans (heartbeat_punctual _)).trans (wakePlugins_punctual law _)

/-- The timer does not spin: the deadline named by a tick lies strictly ahead of it, whatever the
state it found, if no timeout is zero and plugins ask to be woken in the future. -/
theorem tick_deadline_ahead (law : Plugin.Prompt P) (c : Core X P) (i : Core.Input X)
    (tick : i.event = .tick) (dial : 0 < c.config.dialTimeoutMs)
    (beat : 0 < c.config.reconnectEveryMs) (d : ℕ)
    (next : (c.handle i).2.nextDeadlineMs = some d) : i.now.monotonicMs < d := by
  obtain ⟨w, hw⟩ := Core.nextDeadline_waits next
  by_contra hle
  have hexec : c.exec i = (c.start i).onTick i.now.monotonicMs := by
    unfold Core.exec Core.start
    rw [tick]
    rfl
  rw [hexec] at hw
  have hconfig : ((c.start i).onTick i.now.monotonicMs).core.config = c.config :=
    (Exec.onTick_punctual law (c.start i)).config
  refine Exec.onTick_clears law (c.start i) w ⟨?_, d, hw, by omega⟩
  rw [hconfig]
  exact ⟨dial, beat⟩

end

theorem SharePlugin.call_unwoken (p : SharePlugin X) (cx : Cx) (c : Call) :
    (Plugin.call p cx c).2.1.nowMs = cx.nowMs ∧ (Plugin.call p cx c).2.1.wakeAt = cx.wakeAt := by
  have hmove := p.call_move cx c
  revert hmove
  generalize (Plugin.call p cx c).1 = p'
  generalize (Plugin.call p cx c).2.1 = cx'
  intro hmove
  cases hmove <;> exact ⟨rfl, rfl⟩

theorem SharePlugin.prompt : Plugin.Prompt (SharePlugin X) where
  clock p cx c := (p.call_unwoken cx c).1
  wakes p cx c w hw := .inl (by rwa [← (p.call_unwoken cx c).2])

/-- A laptop told where the phone is tries it, gets no answer, and tries again. -/
def Mock.phoneAsleep : List (Core.Input Mock.crates) :=
  [Mock.at_ 0 0 (.localCommand (.setPeerAddress Mock.phone 1 "10.0.0.9:7")), Mock.at_ 0 0 .tick]

theorem retry_deadline_ahead :
    (((Mock.laptop [SharePlugin.default Mock.crates]).build.run Mock.phoneAsleep).handle
      (Mock.at_ 12000 0 .tick)).2.nextDeadlineMs = some 22000 ∧ 12000 < 22000 := by
  have next : (((Mock.laptop [SharePlugin.default Mock.crates]).build.run Mock.phoneAsleep).handle
      (Mock.at_ 12000 0 .tick)).2.nextDeadlineMs = some 22000 := by decide +kernel
  exact ⟨next, tick_deadline_ahead SharePlugin.prompt _ (Mock.at_ 12000 0 .tick) rfl
    (by decide +kernel) (by decide +kernel) _ next⟩

end Acrylius
