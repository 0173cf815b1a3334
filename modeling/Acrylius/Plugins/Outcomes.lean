import Acrylius.Plugins.OneChannel
import Acrylius.Plugins.Crossing
import Acrylius.Core.Spoken
import Acrylius.Net.Duplex

/-! How a transfer is said to have gone, at the end that receives it: what its host reports against
what its person is told. -/
namespace Acrylius
open Proto Std Share

variable {X : Crates} {P : Type}

def UiEvent.finish (X : Crates) : UiEvent → Option (TransferId × Bool)
  | .plugin _ c ty body =>
    if c = cap ∧ ty = "finished" then (X.decode Finished body).map fun f => (f.transfer, f.ok)
    else none
  | _ => none

def finishes (X : Crates) (as : List Action) : List (TransferId × Bool) :=
  as.filterMap fun
    | .ui e => e.finish X
    | _ => none

@[simp] theorem finishes_append (as bs : List Action) :
    finishes X (as ++ bs) = finishes X as ++ finishes X bs := by simp [finishes]

@[simp] theorem finish_announce (peer : DeviceId) (ty : String) (f : Finished) :
    UiEvent.finish X (.plugin peer cap ty (X.encode f)) =
      if ty = "finished" then some (f.transfer, f.ok) else none := by
  simp [UiEvent.finish]

/-- To read off what has finished is to heed only what plugins announce. -/
theorem heeds_finish : Heeds (UiEvent.finish X) := by
  intro e he
  cases e with
  | plugin peer c ty body =>
    refine ⟨peer, c, ty, body, rfl, ?_⟩
    rintro rfl
    simp [UiEvent.finish] at he
  | _ => simp [UiEvent.finish] at he

namespace Exec
variable {s t : Exec X P}

theorem finishes_of_plain (h : Plain s t) : finishes X t.actions = finishes X s.actions :=
  spoken_of_plain heeds_finish h

/-- What a plugin leaves in its context is announced, and nothing else is. -/
theorem drainCx_finishes (s : Exec X P) (cx : Cx) : finishes X (s.drainCx cx).actions =
    finishes X s.actions ++ cx.ui.filterMap (UiEvent.finish X) :=
  drainCx_spoken heeds_finish s cx

theorem callPlugin_finishes {α : Type} (s : Exec X P) {idx : ℕ} (cx : Cx)
    (hook : P → Cx → P × Cx × α) {p : P} (hp : s.core.plugins[idx]? = some p) :
    finishes X (s.callPlugin idx cx hook).1.actions =
      finishes X s.actions ++ (hook p cx).2.1.ui.filterMap (UiEvent.finish X) :=
  callPlugin_spoken heeds_finish s cx hook hp

theorem dispatchToTransferOwner_finishes {t : TransferId} {idx : ℕ} {p : P} (nowMs : ℕ)
    (hook : P → Cx → P × Cx) (howner : s.core.bulkOwner[t]? = some idx)
    (hp : s.core.plugins[idx]? = some p) :
    finishes X (s.dispatchToTransferOwner nowMs t hook).actions =
      finishes X s.actions ++ (hook p (s.cx nowMs)).2.ui.filterMap (UiEvent.finish X) := by
  unfold dispatchToTransferOwner
  rw [howner]
  exact callPlugin_finishes s _ _ hp

end Exec

namespace SharePlugin

/-- What the handlers announce as finished: what the peer says of a transfer we have with it, or
what the host reports of one we have. -/
inductive Tells (p : SharePlugin X) : Call → List (TransferId × Bool) → Prop where
  | nothing (c : Call) : Tells p c []
  | heard {peer env f t} (ty : env.ty = "finished") (decoded : X.decode Finished env.body = some f)
      (about : p.finishing peer f.transfer = some t) : Tells p (.message peer env) [(t, f.ok)]
  | ended {t ok detail} (ours : (p.partner t).isSome) :
      Tells p (.bulkFinished t ok detail) [(t, ok)]

theorem call_tells (p : SharePlugin X) (cx : Cx) (c : Call) :
    ∃ xs, p.Tells c xs ∧ (Plugin.call p cx c).2.1.ui.filterMap (UiEvent.finish X) =
      cx.ui.filterMap (UiEvent.finish X) ++ xs := by
  have hmove := p.call_move cx c
  revert hmove
  generalize (Plugin.call p cx c).1 = p'
  generalize (Plugin.call p cx c).2.1 = cx'
  intro hmove
  cases hmove with
  | finished ty decoded about =>
    exact ⟨_, .heard ty decoded about, by simp [announce, Cx.emit]⟩
  | ended ours =>
    exact ⟨_, .ended (by simp [ours]), by simp [announce, Cx.emit, Cx.send]⟩
  | offered
  | rejected => exact ⟨[], .nothing _, by simp [announce, Cx.emit, Cx.newTransfer, UiEvent.finish]⟩
  | unsendable => exact ⟨[], .nothing _, by simp [announce, Cx.emit, UiEvent.finish]⟩
  | idle
  | accepted
  | disconnected
  | sent
  | taken
  | declined
  | cancelled
  | listening => exact ⟨[], .nothing _, (List.append_nil _).symm⟩

end SharePlugin

/-- Only the share plugin announces anything in its name. -/
structure Announcing (X : Crates) (P : Type) [Plugin P] extends Sharing X P where
  tells : ∀ (p : P) (sp : SharePlugin X) (cx : Cx) (c : Call), share p = some sp →
    (Plugin.call p cx c).2.1.ui = (Plugin.call sp cx c).2.1.ui
  silent : ∀ (p : P) (cx : Cx) (c : Call), share p = none →
    (Plugin.call p cx c).2.1.ui.filterMap (UiEvent.finish X) =
      cx.ui.filterMap (UiEvent.finish X)

def Announcing.self (X : Crates) : Announcing X (SharePlugin X) where
  toSharing := .self X
  tells p sp cx c h := by rw [Option.some.inj h]
  silent p cx c h := by cases h

def Core.minted (c : Core X P) (t : TransferId) : Bool :=
  (List.range c.nextTransfer).any fun k => t = mintedHere ||| (k + 1)

def Core.reported (c : Core X P) (i : Core.Input X) : List (TransferId × Bool) :=
  match i.event with
  | .bulkFinished t ok _ => if c.minted t then [(t, ok)] else []
  | _ => []

def Core.announced [Plugin P] (c : Core X P) (i : Core.Input X) : List (TransferId × Bool) :=
  (finishes X (c.handle i).2.actions).filter fun e => c.minted e.1

theorem Exec.routeEnvelope_called [Plugin P] {s : Exec X P} {nowMs idx : ℕ} {peer : DeviceId}
    {env : Envelope} (owner : s.core.plugins.findIdx?
      (fun p => handles (Plugin.manifest p) env.cap) = some idx) :
    Plain (s.callPlugin idx ((s.cx nowMs).forPeerLink (s.core.bulkSupportFor peer)) fun p cx =>
      Plugin.call p cx (.message peer env)).1 (s.routeEnvelope nowMs peer env) := by
  change Plain (s.callPlugin idx _ fun p cx => Plugin.onMessage p cx peer env).1 _
  unfold Exec.routeEnvelope
  rw [owner]
  dsimp only
  split
  · rename_i heq
    rw [heq]
    exact Exec.sendError_plain _ _ _ _
  · rename_i heq
    rw [heq]
    exact .refl _

/-- A message that is delivered is a call of its plugin, and nothing of note follows it. -/
theorem Core.Delivers.called [Plugin P] {c : Core X P} {i : Core.Input X} {idx : ℕ}
    {peer : DeviceId} {env : Envelope} (h : c.Delivers i idx peer env) :
    ∃ (s : Exec X P) (cx : Cx), s.core.plugins = c.plugins ∧ s.actions = [] ∧ cx.ui = [] ∧
      Plain (s.callPlugin idx cx fun p cx => Plugin.call p cx (.message peer env)).1
        (c.exec i) := by
  obtain ⟨event, frame, link, decrypt, decoded, negotiated, message, owner⟩ := h
  rename_i l msg body plaintext u session
  let s := ((c.start i).unlink l).insertLink l
    (.up { u with session, lastRecvMs := i.now.monotonicMs })
  let cx := (s.cx i.now.monotonicMs).forPeerLink (s.core.bulkSupportFor u.peer)
  have hexec : c.exec i = s.routeEnvelope i.now.monotonicMs u.peer env := by
    have hlink : (c.start i).core.links[l]? = some (.up u) := link
    change Exec.onEvent (c.start i) _ _ _ = _
    rw [event]
    simp only [Exec.onEvent, Exec.onLinkRecv, frame, hlink, Exec.onTransportFrame, ne_eq,
      not_true_eq_false, if_false, decrypt, decoded, negotiated, message]
    rfl
  refine ⟨s, cx, rfl, rfl, rfl, ?_⟩
  rw [hexec]
  exact Exec.routeEnvelope_called owner

namespace Announcing
variable [Plugin P] (S : Announcing X P)

/-- The peer says how a transfer went that the share plugin still has. -/
inductive Hears (c : Core X P) (i : Core.Input X) : TransferId × Bool → Prop where
  | intro {peer env idx p sp f t} (message : c.Delivers i idx peer env)
      (plugin : c.plugins[idx]? = some p) (share : S.share p = some sp) (ty : env.ty = "finished")
      (decoded : X.decode Finished env.body = some f)
      (about : sp.finishing peer f.transfer = some t) : Hears c i (t, f.ok)

inductive Keeps (c : Core X P) (t : TransferId) : Prop where
  | intro {idx p sp} (owner : c.bulkOwner[t]? = some idx) (plugin : c.plugins[idx]? = some p)
      (share : S.share p = some sp) (ours : (sp.partner t).isSome)

/-- What a step may announce as finished: what the peer says, what the host reports, and the
failures the core declares itself when it has waited long enough. -/
def May (c : Core X P) (i : Core.Input X) (e : TransferId × Bool) : Prop :=
  S.Hears c i e ∨ (∃ detail, i.event = .bulkFinished e.1 e.2 detail) ∧ S.Keeps c e.1 ∨
    i.event = .tick ∧ e.2 = false

variable {S} {s t r : Exec X P}

theorem callPlugin_tells {idx : ℕ} {cx : Cx} {c : Call} (hcx : cx.ui = []) {e : TransferId × Bool}
    (he : e ∈ finishes X (s.callPlugin idx cx fun p cx => Plugin.call p cx c).1.actions) :
    e ∈ finishes X s.actions ∨ ∃ p sp xs, s.core.plugins[idx]? = some p ∧ S.share p = some sp ∧
      sp.Tells c xs ∧ e ∈ xs := by
  cases hp : s.core.plugins[idx]? with
  | none =>
    unfold Exec.callPlugin at he
    rw [hp] at he
    exact .inl he
  | some p =>
    rw [Exec.callPlugin_finishes s cx _ hp] at he
    rcases List.mem_append.mp he with he | he
    · exact .inl he
    · cases hshare : S.share p with
      | none =>
        rw [S.silent p cx c hshare, hcx] at he
        cases he
      | some sp =>
        obtain ⟨xs, htells, hui⟩ := sp.call_tells cx c
        rw [S.tells p sp cx c hshare, hui, hcx] at he
        exact .inr ⟨p, sp, xs, rfl, hshare, htells, he⟩

theorem forEachPlugin_silent (S : Announcing X P) {c : Call} (hc : c.forAll) (ps : List P)
    (cx : Cx) : (forEachPlugin (fun p cx => ((Plugin.call p cx c).1, (Plugin.call p cx c).2.1)) ps
      cx).2.ui.filterMap (UiEvent.finish X) = cx.ui.filterMap (UiEvent.finish X) := by
  have silent : ∀ (p : P) (cx : Cx), (Plugin.call p cx c).2.1.ui.filterMap (UiEvent.finish X) =
      cx.ui.filterMap (UiEvent.finish X) := by
    intro p cx
    cases hshare : S.share p with
    | none => exact S.silent p cx c hshare
    | some sp =>
      obtain ⟨xs, htells, hui⟩ := sp.call_tells cx c
      rw [S.tells p sp cx c hshare, hui]
      cases htells with
      | nothing => exact List.append_nil _
      | heard => cases hc
      | ended => cases hc
  induction ps generalizing cx with
  | nil => rfl
  | cons p ps ih => exact (ih _).trans (silent p cx)

theorem deeds_may {c : Core X P} {i : Core.Input X} (h : Deeds i (c.start i) s t) :
    ∀ e ∈ finishes X t.actions, e ∈ finishes X s.actions ∨ S.May c i e := by
  induction h with
  | plain h =>
    rw [Exec.finishes_of_plain h]
    exact fun e he => .inl he
  | released plugins minted owners waits actions =>
    rw [actions]
    exact fun e he => .inl he
  | gaveUp event waiting late =>
    intro e he
    simp only [Exec.push, finishes_append] at he
    exact .inl (by simpa [finishes] using he)
  | trans _ _ ih ih' =>
    intro e he
    rcases ih' e he with he | hmay
    · exact ih e he
    · exact .inr hmay
  | @calledAll s call hc =>
    intro e he
    unfold Exec.callAllPlugins at he
    dsimp only at he
    rw [Exec.drainCx_finishes, S.forEachPlugin_silent hc] at he
    exact .inl (by simpa [Exec.cx, Cx.new] using he)
  | @called s idx cx call due =>
    intro e he
    have hcx : cx.ui = [] := by cases due <;> rfl
    rcases callPlugin_tells (S := S) hcx he with he | ⟨p, sp, xs, hp, hshare, htells, hmem⟩
    · exact .inl he
    · right
      cases htells with
      | nothing => cases hmem
      | heard ty decoded about =>
        rw [List.mem_singleton.mp hmem]
        have hdelivers := due.delivers
        cases due with
        | message event frame link decrypt decoded' negotiated message owner state =>
          subst state
          exact .inl (.intro hdelivers hp hshare ty decoded about)
      | ended ours =>
        rw [List.mem_singleton.mp hmem]
        cases due with
        | finished event owner state =>
          subst state
          exact .inr (.inl ⟨⟨_, event⟩, .intro owner hp hshare ours⟩)
        | expired event => exact .inr (.inr ⟨event, rfl⟩)

theorem step_may {c : Core X P} {i : Core.Input X} {e : TransferId × Bool}
    (h : e ∈ finishes X (c.handle i).2.actions) : S.May c i e := by
  rcases deeds_may (S := S) (c.exec_deeds i) e h with he | hmay
  · cases he
  · exact hmay

theorem Hears.event {c : Core X P} {i : Core.Input X} {e : TransferId × Bool}
    (h : S.Hears c i e) : ∃ l msg, i.event = .linkRecv l msg := by
  obtain ⟨⟨event⟩⟩ := h
  exact ⟨_, _, event⟩

theorem Hears.announced {c : Core X P} {i : Core.Input X} {e : TransferId × Bool}
    (h : S.Hears c i e) : e ∈ finishes X (c.handle i).2.actions := by
  obtain ⟨message, plugin, share, ty, decoded, about⟩ := h
  rename_i peer env idx p sp f t
  obtain ⟨s, cx, hplugins, hactions, hui, hplain⟩ := message.called
  have hcall := SharePlugin.call_finished sp cx peer env ty decoded
  rw [about] at hcall
  change _ ∈ finishes X (c.exec i).actions
  rw [Exec.finishes_of_plain hplain, Exec.callPlugin_finishes s cx _ (hplugins ▸ plugin),
    S.tells p sp cx _ share, hcall]
  simp [SharePlugin.announce, Cx.emit]

theorem Keeps.announced {c : Core X P} {i : Core.Input X} {t : TransferId} {ok : Bool}
    {detail : String} (h : S.Keeps c t) (hevent : i.event = .bulkFinished t ok detail) :
    (t, ok) ∈ finishes X (c.handle i).2.actions := by
  obtain ⟨owner, plugin, share, ours⟩ := h
  rename_i idx p sp
  obtain ⟨peer, hpeer⟩ := Option.isSome_iff_exists.mp ours
  have hcall : (Plugin.call sp ((c.start i).cx i.now.monotonicMs) (.bulkFinished t ok detail)).2.1.ui
      = [.plugin peer cap "finished" (X.encode (⟨t, ok, detail⟩ : Finished))] := by
    simp only [Plugin.call, Plugin.onBulkFinished, SharePlugin.onBulkFinished, hpeer]
    rfl
  have hstep : (c.handle i).2.actions = ((c.start i).dispatchToTransferOwner i.now.monotonicMs t
      fun p cx => Plugin.onBulkFinished p cx t ok detail).actions := by
    change (c.exec i).actions = _
    unfold Core.exec
    rw [hevent]
    rfl
  have htells : (Plugin.onBulkFinished p ((c.start i).cx i.now.monotonicMs) t ok detail).2.ui =
      [.plugin peer cap "finished" (X.encode (⟨t, ok, detail⟩ : Finished))] :=
    (S.tells p sp _ (.bulkFinished t ok detail) share).trans hcall
  rw [hstep, Exec.dispatchToTransferOwner_finishes _ _ owner plugin, htells]
  simp

end Announcing

section Ends
variable [Plugin P] (la lb : LinkId)

/-- The core at one end: `a` for `true`. -/
def Duplex.core (w : Duplex X P) (e : Bool) : Core X P := if e then w.a else w.b

def Duplex.felt (w : Duplex X P) : Move X → Option (Bool × Core.Input X)
  | .a i => if i.event.touches la then none else some (true, i)
  | .b i => if i.event.touches lb then none else some (false, i)
  | .toA now seed => w.ba.head?.map fun f => (true, ⟨now, seed, .linkRecv la f⟩)
  | .toB now seed => w.ab.head?.map fun f => (false, ⟨now, seed, .linkRecv lb f⟩)

/-- A core takes a step when something happens at its end, and only then. -/
theorem Duplex.step_core (w : Duplex X P) (m : Move X) (e : Bool) :
    (w.step la lb m).core e = match w.felt la lb m with
      | some (e', i) => if e = e' then (w.core e).step i else w.core e
      | none => w.core e := by
  cases m with
  | a i =>
    by_cases ht : i.event.touches la
    · simp [Duplex.step, felt, ht]
    · cases e <;> simp [Duplex.step, felt, ht, atA, core]
  | b i =>
    by_cases ht : i.event.touches lb
    · simp [Duplex.step, felt, ht]
    · cases e <;> simp [Duplex.step, felt, ht, atB, core]
  | toA now seed =>
    cases hq : w.ba with
    | nil => simp [Duplex.step, felt, hq]
    | cons f rest => cases e <;> simp [Duplex.step, felt, hq, atA, core]
  | toB now seed =>
    cases hq : w.ab with
    | nil => simp [Duplex.step, felt, hq]
    | cons f rest => cases e <;> simp [Duplex.step, felt, hq, atB, core]

end Ends

/-- Two joined cores, and for each end what its host has reported and its core has announced of the
transfers it receives. -/
structure Watched (X : Crates) (P : Type) where
  net : Duplex X P
  reports : Bool → List (TransferId × Bool)
  told : Bool → List (TransferId × Bool)

namespace Watched
variable [Plugin P] (S : Announcing X P) (la lb : LinkId)

def start (net : Duplex X P) : Watched X P := ⟨net, fun _ => [], fun _ => []⟩

def step (w : Watched X P) (m : Move X) : Watched X P :=
  match w.net.felt la lb m with
  | none => { w with net := w.net.step la lb m }
  | some (e, i) =>
    { net := w.net.step la lb m
      reports := Function.update w.reports e (w.reports e ++ (w.net.core e).reported i)
      told := Function.update w.told e (w.told e ++ (w.net.core e).announced i) }

/-- Who receives a file is told of a success only after their own host has reported it, and of
every failure their host reports. -/
structure Truthful (w : Watched X P) : Prop where
  success : ∀ (e : Bool) (t : TransferId), (t, true) ∈ w.told e → (t, true) ∈ w.reports e
  failure : ∀ (e : Bool) (t : TransferId), (t, false) ∈ w.reports e → (t, false) ∈ w.told e

/-- The peer's word that a transfer went well does not arrive before the host's own, and a transfer
is still there when the host reports that it failed, if nobody has been told so yet. -/
def Orderly (w : Watched X P) (m : Move X) : Prop :=
  ∀ e i, w.net.felt la lb m = some (e, i) → ∀ t, (w.net.core e).minted t →
    (S.Hears (w.net.core e) i (t, true) → (t, true) ∈ w.reports e) ∧
    ∀ detail, i.event = .bulkFinished t false detail →
      (t, false) ∈ w.told e ∨ S.Keeps (w.net.core e) t

variable {S la lb} {w : Watched X P} {m : Move X} {e : Bool} {i : Core.Input X}

theorem step_reports (h : w.net.felt la lb m = some (e, i)) :
    (w.step la lb m).reports =
      Function.update w.reports e (w.reports e ++ (w.net.core e).reported i) := by
  simp only [step, h]

theorem step_told (h : w.net.felt la lb m = some (e, i)) :
    (w.step la lb m).told =
      Function.update w.told e (w.told e ++ (w.net.core e).announced i) := by
  simp only [step, h]

omit [Plugin P] in
theorem mem_reported {c : Core X P} {t : TransferId} {ok : Bool} :
    (t, ok) ∈ c.reported i ↔ (∃ detail, i.event = .bulkFinished t ok detail) ∧ c.minted t := by
  unfold Core.reported
  split
  · rename_i t' ok' detail hevent
    constructor
    · intro h
      split at h
      · cases List.mem_singleton.mp h
        exact ⟨⟨detail, hevent⟩, ‹_›⟩
      · cases h
    · rintro ⟨⟨detail', h⟩, hminted⟩
      cases hevent.symm.trans h
      rw [if_pos hminted]
      exact List.mem_singleton.mpr rfl
  · rename_i hother
    constructor
    · intro h
      cases h
    · rintro ⟨⟨detail, h⟩, -⟩
      exact (hother _ _ _ h).elim

theorem mem_announced {c : Core X P} {t : TransferId} {ok : Bool} :
    (t, ok) ∈ c.announced i ↔ (t, ok) ∈ finishes X (c.handle i).2.actions ∧ c.minted t :=
  List.mem_filter

omit [Plugin P] in
theorem start_truthful (net : Duplex X P) : (start net).Truthful where
  success e t h := by cases h
  failure e t h := by cases h

theorem Truthful.step (h : w.Truthful) (hm : Orderly S la lb w m) :
    (w.step la lb m).Truthful := by
  cases hfelt : w.net.felt la lb m with
  | none =>
    simp only [Watched.step, hfelt]
    exact ⟨h.success, h.failure⟩
  | some ei =>
    obtain ⟨e, i⟩ := ei
    have horderly := hm e i hfelt
    constructor
    · intro e' t ht
      rw [step_told hfelt] at ht
      rw [step_reports hfelt]
      by_cases he : e' = e
      · subst he
        rw [Function.update_self] at ht ⊢
        rw [List.mem_append] at ht ⊢
        rcases ht with hold | hnew
        · exact .inl (h.success e' t hold)
        · obtain ⟨hsaid, hminted⟩ := mem_announced.mp hnew
          rcases Announcing.step_may (S := S) hsaid with hhears | ⟨hevent, -⟩ | ⟨-, hfalse⟩
          · exact .inl ((horderly t hminted).1 hhears)
          · exact .inr (mem_reported.mpr ⟨hevent, hminted⟩)
          · cases hfalse
      · rw [Function.update_of_ne he] at ht ⊢
        exact h.success e' t ht
    · intro e' t ht
      rw [step_reports hfelt] at ht
      rw [step_told hfelt]
      by_cases he : e' = e
      · subst he
        rw [Function.update_self] at ht ⊢
        rw [List.mem_append] at ht ⊢
        rcases ht with hold | hnew
        · exact .inl (h.failure e' t hold)
        · obtain ⟨⟨detail, hevent⟩, hminted⟩ := mem_reported.mp hnew
          rcases (horderly t hminted).2 detail hevent with htold | hkeeps
          · exact .inl htold
          · exact .inr (mem_announced.mpr ⟨hkeeps.announced hevent, hminted⟩)
      · rw [Function.update_of_ne he] at ht ⊢
        exact h.failure e' t ht

theorem Truthful.orderly (h : (w.step la lb m).Truthful) : Orderly S la lb w m := by
  intro e i hfelt t hminted
  constructor
  · intro hhears
    have htold : (t, true) ∈ (w.step la lb m).told e := by
      rw [step_told hfelt, Function.update_self]
      exact List.mem_append_right _ (mem_announced.mpr ⟨hhears.announced, hminted⟩)
    have hreports := h.success e t htold
    rw [step_reports hfelt, Function.update_self] at hreports
    rcases List.mem_append.mp hreports with hold | hnew
    · exact hold
    · -- A message arrives in this step, so the host reports nothing in it.
      obtain ⟨⟨detail, hevent⟩, -⟩ := mem_reported.mp hnew
      obtain ⟨l, msg, hrecv⟩ := hhears.event
      cases hrecv.symm.trans hevent
  · intro detail hevent
    have hreports : (t, false) ∈ (w.step la lb m).reports e := by
      rw [step_reports hfelt, Function.update_self]
      exact List.mem_append_right _ (mem_reported.mpr ⟨⟨detail, hevent⟩, hminted⟩)
    have htold := h.failure e t hreports
    rw [step_told hfelt, Function.update_self] at htold
    rcases List.mem_append.mp htold with hold | hnew
    · exact .inl hold
    · right
      rcases Announcing.step_may (S := S) (mem_announced.mp hnew).1 with hhears | ⟨-, hkeeps⟩ |
        ⟨htick, -⟩
      · obtain ⟨l, msg, hrecv⟩ := hhears.event
        cases hrecv.symm.trans hevent
      · exact hkeeps
      · cases htick.symm.trans hevent

/-- Over every run of two joined cores: in every state reached each end has been told of a success
only after its own host reported it, and of every failure its host reported, exactly when every
step is orderly. -/
theorem no_false_success_iff (S : Announcing X P) (la lb : LinkId) (net : Duplex X P)
    (ms : List (Move X)) :
    (∀ js, js <+: ms → (Lib.run (step la lb) (start net) js).Truthful) ↔
      Lib.Along (step la lb) (Orderly S la lb) (start net) ms := by
  refine Lib.along_iff_states (J := fun _ => True) (fun _ _ _ => trivial) ?_ trivial ?_ ms
  · intro w m _ hw
    exact ⟨Truthful.orderly, hw.step⟩
  · exact start_truthful net

end Watched

namespace Mock

def laptopId : DeviceId := DeviceId.of crates (device 1).publicKey

def phoneBuilder : CoreBuilder crates (SharePlugin crates) :=
  { paired 2 1 [SharePlugin.default crates] with effects := [.share] }

def sharers : Duplex crates (SharePlugin crates) :=
  .join 1 1
    ((laptop [SharePlugin.default crates]).build.run
      [at_ 1 0 (.localCommand (.setPeerAddress phone 1 "lan")),
        at_ 1 0 (.localCommand (.connect phone))])
    phoneBuilder.build (at_ 1 7 (.linkUp 1 (.tcpLan 1) (some 1)))
    (at_ 1 8 (.linkUp 1 (.tcpLan 1) none))

/-- They come up; the phone offers a picture, the laptop takes it and listens, and the phone has
written it all before the laptop finds that it cannot keep it. -/
def pictureLost : List (Move crates) :=
  [.toB ⟨1, 1⟩ (9 : UInt8), .toA ⟨1, 1⟩ (0 : UInt8),
    .b (at_ 2 0 (.localCommand (.plugin laptopId cap "offer"
      (crates.encode (⟨1, "cat.jpg", 3, "image/jpeg"⟩ : Offer))))),
    .toA ⟨2, 2⟩ (0 : UInt8), .a (pictureAccepted 3),
    .a (at_ 4 0 (.bulkListening (mintedHere ||| 1) "192.168.1.2:4000")), .toB ⟨5, 5⟩ (0 : UInt8),
    .b (at_ 6 0 (.bulkFinished 1 true "")), .toA ⟨7, 7⟩ (0 : UInt8),
    .a (at_ 8 0 (.bulkFinished (mintedHere ||| 1) false "disk full"))]

end Mock

/-- The laptop tells its person that the picture is there, which its host never said, and does not
tell that it failed, which its host did. -/
theorem Watched.lost_picture_is_told_as_kept :
    let w := Lib.run (step 1 1) (start Mock.sharers) Mock.pictureLost
    ((mintedHere ||| 1, true) ∈ w.told true ∧ (mintedHere ||| 1, true) ∉ w.reports true) ∧
      (mintedHere ||| 1, false) ∈ w.reports true ∧ (mintedHere ||| 1, false) ∉ w.told true := by
  decide +kernel

end Acrylius
