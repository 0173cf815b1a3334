import Acrylius.Plugins.Announced
import Acrylius.Plugins.Inline

/-! Which offers the share plugin has after a step: those the step announces, and those it had, but
for a few ways to lose one. -/
namespace Acrylius
open Proto Std Share

variable {X : Crates}

namespace Core

structure Shares (c : Core X (Builtin X)) (idx : ℕ) (p : SharePlugin X) : Prop where
  owner : c.plugins.findIdx? (fun b => handles (Plugin.manifest b) cap) = some idx
  plugin : c.plugins[idx]? = some (.share p)

def Offered (c : Core X (Builtin X)) (e : DeviceId × Offer) : Prop :=
  ∃ idx p, c.Shares idx p ∧ p.Has e

/-- The step takes an entry out of the share plugin's table, and tells the host nothing that would
make it forget. -/
inductive Loses (c : Core X (Builtin X)) (i : Input X) (x : TransferId) : Prop where
  /-- The sender's session ends. -/
  | parted {idx p inc} (share : c.Shares idx p) (held : p.offered[x]? = some inc)
      (parts : c.parts i = some inc.peer)
  /-- The sender withdraws the offer, or says that the transfer is over. -/
  | heard {idx p peer env f} (share : c.Shares idx p) (message : c.Delivers i idx peer env)
      (ty : env.ty = "finished") (decoded : X.decode Finished env.body = some f)
      (about : p.finishing peer f.transfer = some x)
  /-- Another offer gets the same number. -/
  | renumbered {idx p peer env} (share : c.Shares idx p) (message : c.Delivers i idx peer env)
      (ty : env.ty = "offer") (again : x = mintedHere ||| (c.nextTransfer + 1))
  /-- The host reports the transfer as over. -/
  | reported {idx p ok detail} (share : c.Shares idx p) (event : i.event = .bulkFinished x ok detail)
      (owner : c.bulkOwner[x]? = some idx)
  /-- A person says no. -/
  | rejected {idx p peer body f} (share : c.Shares idx p)
      (event : i.event = .localCommand (.plugin peer cap "reject" body))
      (decoded : X.decode Finished body = some f) (about : f.transfer = x)

/-- The step takes an entry out and has the host cancel it: a person cancels, or the sender has not
connected in time. -/
inductive Cancels (c : Core X (Builtin X)) (i : Input X) (x : TransferId) : Prop where
  | cancelled {idx p peer body f} (share : c.Shares idx p)
      (event : i.event = .localCommand (.plugin peer cap "cancel" body))
      (decoded : X.decode Finished body = some f) (about : f.transfer = x)
  | waited {d} (event : i.event = .tick) (waiting : c.bulkWait[x]? = some d)
      (late : d ≤ i.now.monotonicMs)

end Core

section Kinds

theorem forEachPlugin_kinds (c : Call) (ps : List (Builtin X)) (cx : Cx) :
    (forEachPlugin (fun p cx => ((Plugin.call p cx c).1, (Plugin.call p cx c).2.1)) ps
      cx).1.map Builtin.isShare = ps.map Builtin.isShare := by
  induction ps generalizing cx with
  | nil => rfl
  | cons p ps ih =>
    show (Plugin.call p cx c).1.isShare :: _ = p.isShare :: _
    rw [p.call_isShare, ih]

theorem Deeds.kinds {i : Core.Input X} {s₀ s t : Exec X (Builtin X)} (h : Deeds i s₀ s t) :
    t.core.plugins.map Builtin.isShare = s.core.plugins.map Builtin.isShare := by
  induction h with
  | plain h =>
    have hplugins := congrArg Ledger.plugins h.1
    dsimp only [Core.ledger] at hplugins
    rw [hplugins]
  | @called s idx cx c due =>
    cases hp : s.core.plugins[idx]? with
    | none =>
      unfold Exec.callPlugin
      rw [hp]
    | some p =>
      rw [(Exec.callPlugin_kept s cx _ hp).1, List.map_set, p.call_isShare]
      have hkind : (s.core.plugins.map Builtin.isShare)[idx]? = some p.isShare := by
        rw [List.getElem?_map, hp]
        rfl
      obtain ⟨hlt, heq⟩ := List.getElem?_eq_some_iff.mp hkind
      rw [← heq]
      exact List.set_getElem_self hlt
  | @calledAll s c hc =>
    rw [(Exec.callAllPlugins_kept s _ _).1]
    exact forEachPlugin_kinds c _ _
  | released plugins => rw [plugins]
  | gaveUp => rfl
  | trans _ _ ih ih' => exact ih'.trans ih

theorem owner_of_kinds {ps qs : List (Builtin X)}
    (h : qs.map Builtin.isShare = ps.map Builtin.isShare) :
    qs.findIdx? (fun b => handles (Plugin.manifest b) cap) =
      ps.findIdx? (fun b => handles (Plugin.manifest b) cap) := by
  have hmap : ∀ rs : List (Builtin X), rs.findIdx? (fun b => handles (Plugin.manifest b) cap) =
      (rs.map Builtin.isShare).findIdx? id := by
    intro rs
    rw [List.findIdx?_map]
    exact congrArg (fun f => rs.findIdx? f) (funext Builtin.handles_share)
  rw [hmap, hmap, h]

theorem Core.step_owner (c : Core X (Builtin X)) (i : Core.Input X) :
    (c.step i).plugins.findIdx? (fun b => handles (Plugin.manifest b) cap) =
      c.plugins.findIdx? (fun b => handles (Plugin.manifest b) cap) :=
  owner_of_kinds (c.exec_deeds i).kinds

end Kinds

section Announcing
variable {c : Core X (Builtin X)} {i : Core.Input X} {e : DeviceId × Offer}

theorem forEachPlugin_offered {call : Call} (hcall : ∀ peer env, call ≠ .message peer env)
    (ps : List (Builtin X)) (cx : Cx) (he : e ∈ (forEachPlugin
      (fun p cx => ((Plugin.call p cx call).1, (Plugin.call p cx call).2.1)) ps
      cx).2.ui.filterMap (UiEvent.offered X)) : e ∈ cx.ui.filterMap (UiEvent.offered X) := by
  induction ps generalizing cx with
  | nil => exact he
  | cons p ps ih =>
    rcases p.call_offered cx call (ih _ he) with hold | ⟨⟨peer, env, hmessage⟩, -⟩
    · exact hold
    · exact absurd hmessage (hcall peer env)

theorem deeds_offered {s t : Exec X (Builtin X)} (h : Deeds i (c.start i) s t) :
    ∀ e ∈ spoken (UiEvent.offered X) t.actions, e ∈ spoken (UiEvent.offered X) s.actions ∨
      ∃ idx peer env, c.Delivers i idx peer env := by
  induction h with
  | plain h =>
    rw [Exec.spoken_of_plain heeds_offered h]
    exact fun e he => .inl he
  | released plugins minted owners waits actions =>
    rw [actions]
    exact fun e he => .inl he
  | gaveUp event waiting late =>
    intro e he
    simp only [Exec.push, spoken_append] at he
    exact .inl (by simpa [spoken] using he)
  | trans _ _ ih ih' =>
    intro e he
    rcases ih' e he with he | hmessage
    · exact ih e he
    · exact .inr hmessage
  | @calledAll s call hc =>
    intro e he
    unfold Exec.callAllPlugins at he
    dsimp only at he
    rw [Exec.drainCx_spoken heeds_offered] at he
    rcases List.mem_append.mp he with he | he
    · exact .inl he
    · have hcx := forEachPlugin_offered (fun peer env h => by rw [h] at hc; cases hc) _ _ he
      exact .inl (by simp [Exec.cx, Cx.new] at hcx)
  | @called s idx cx call due =>
    intro e he
    have hcx : cx.ui = [] := by cases due <;> rfl
    cases hp : s.core.plugins[idx]? with
    | none =>
      unfold Exec.callPlugin at he
      rw [hp] at he
      exact .inl he
    | some p =>
      rw [Exec.callPlugin_spoken heeds_offered s cx _ hp] at he
      rcases List.mem_append.mp he with he | he
      · exact .inl he
      · rcases p.call_offered cx call he with hold | ⟨⟨peer, env, rfl⟩, -⟩
        · rw [hcx] at hold
          cases hold
        · exact .inr ⟨idx, peer, env, due.delivers⟩

/-- An offer that a step shows is there after it. -/
theorem Core.step_shows (h : e ∈ spoken (UiEvent.offered X) (c.handle i).2.actions) :
    (c.step i).Offered e := by
  rcases deeds_offered (c.exec_deeds i) e h with hnone | ⟨idx, peer, env, hmessage⟩
  · cases hnone
  · obtain ⟨s, cx, hplugins, hactions, hui, hplain⟩ := hmessage.called
    have howner : c.plugins.findIdx? (fun b => handles (Plugin.manifest b) env.cap) = some idx := by
      obtain ⟨_, _, _, _, _, _, _, howner⟩ := hmessage
      exact howner
    have he : e ∈ spoken (UiEvent.offered X) (c.exec i).actions := h
    rw [Exec.spoken_of_plain heeds_offered hplain] at he
    have hafter : (c.step i).plugins = _ := congrArg Ledger.plugins hplain.1
    cases hp : s.core.plugins[idx]? with
    | none =>
      unfold Exec.callPlugin at he
      rw [hp, hactions] at he
      cases he
    | some b =>
      rw [Exec.callPlugin_spoken heeds_offered s cx _ hp, hactions] at he
      dsimp only [Core.ledger] at hafter
      rw [(Exec.callPlugin_kept s cx _ hp).1] at hafter
      rcases b.call_offered cx _ he with hold | ⟨-, p, hshare, hhas⟩
      · rw [hui] at hold
        cases hold
      · have hkind : b.isShare = true := by
          rw [← b.call_isShare cx (.message peer env), hshare]
          rfl
        obtain ⟨q, rfl⟩ : ∃ q, b = .share q := by
          cases b with
          | share q => exact ⟨q, rfl⟩
          | _ => cases hkind
        have hb := List.findIdx?_eq_some_iff_getElem.mp howner
        obtain ⟨hlt, hhandles, -⟩ := hb
        rw [hplugins] at hp
        obtain ⟨_, heq⟩ := List.getElem?_eq_some_iff.mp hp
        rw [heq] at hhandles
        have hcap := Builtin.handles_of_share q hhandles
        rw [hcap] at howner
        refine ⟨idx, p, ⟨?_, ?_⟩, hhas⟩
        · rw [c.step_owner i]
          exact howner
        · rw [hafter, hplugins, List.getElem?_set_self hlt, hshare]

end Announcing

section Keeping
variable {c : Core X (Builtin X)} {i : Core.Input X} {x : TransferId} {inc : Incoming}

namespace SharePlugin

/-- A call that is not one of the ways to lose an entry leaves it. -/
theorem call_keeps (p : SharePlugin X) (cx : Cx) (call : Call) (hx : p.offered[x]? = some inc)
    (parted : call ≠ .disconnected inc.peer)
    (heard : ∀ peer env f, call = .message peer env → env.ty = "finished" →
      X.decode Finished env.body = some f → p.finishing peer f.transfer ≠ some x)
    (renumbered : ∀ peer env, call = .message peer env → env.ty = "offer" →
      x ≠ cx.newTransfer.2)
    (ended : ∀ ok detail, call ≠ .bulkFinished x ok detail)
    (answered : ∀ peer ty body f, call = .request peer ty body → ty = "reject" ∨ ty = "cancel" →
      X.decode Finished body = some f → f.transfer ≠ x) :
    (Plugin.call p cx call).1.offered[x]? = some inc := by
  have hmove := p.call_move cx call
  revert hmove
  generalize (Plugin.call p cx call).1 = p'
  generalize (Plugin.call p cx call).2.1 = cx'
  intro hmove
  cases hmove with
  | @offered peer env offer ty served decoded small named =>
    exact (Lib.getElem?_insert_of_ne (renumbered peer env rfl ty)).trans hx
  | @finished peer env f transfer ty decoded about =>
    have hne : x ≠ transfer := by
      rintro rfl
      exact heard peer env f rfl ty decoded about
    exact (Lib.getElem?_erase_of_ne hne).trans hx
  | disconnected peer =>
    have hne : inc.peer ≠ peer := by
      rintro rfl
      exact parted rfl
    show (p.offered.filter fun _ i => i.peer ≠ peer)[x]? = some inc
    rw [ExtTreeMap.getElem?_filter, hx]
    simp [hne]
  | @declined peer body f incoming decoded ours =>
    have hne : x ≠ f.transfer := (answered peer _ body f rfl (.inl rfl) decoded).symm
    exact (Lib.getElem?_erase_of_ne hne).trans hx
  | @cancelled peer body f decoded =>
    have hne : x ≠ f.transfer := (answered peer _ body f rfl (.inr rfl) decoded).symm
    exact (Lib.getElem?_erase_of_ne hne).trans hx
  | @ended t ok detail peer ours =>
    have hne : x ≠ t := by
      rintro rfl
      exact ended ok detail rfl
    exact (Lib.getElem?_erase_of_ne hne).trans hx
  | _ => exact hx

end SharePlugin

/-- Calling one plugin, the share plugin's state is what its own call made of it, or as it was. -/
theorem Exec.callPlugin_share {s : Exec X (Builtin X)} {idx : ℕ} {p : SharePlugin X} (idx' : ℕ)
    (cx : Cx) (call : Call) (hp : s.core.plugins[idx]? = some (.share p)) :
    ∃ p', (s.callPlugin idx' cx fun p cx => Plugin.call p cx call).1.core.plugins[idx]? =
        some (.share p') ∧ (p' = p ∨ idx' = idx ∧ p' = (Plugin.call p cx call).1) := by
  cases hq : s.core.plugins[idx']? with
  | none =>
    unfold Exec.callPlugin
    rw [hq]
    exact ⟨p, hp, .inl rfl⟩
  | some q =>
    rw [(Exec.callPlugin_kept s cx _ hq).1, List.getElem?_set]
    by_cases hidx : idx' = idx
    · subst hidx
      rw [hp] at hq
      obtain rfl := Option.some.inj hq
      have hlt : idx' < s.core.plugins.length := (List.getElem?_eq_some_iff.mp hp).1
      exact ⟨(Plugin.call p cx call).1, by simp [hlt, Builtin.call_share], .inr ⟨rfl, rfl⟩⟩
    · exact ⟨p, by simpa [hidx] using hp, .inl rfl⟩

/-- A call of the share plugin that a step makes leaves an entry, but for the ways to lose it. -/
theorem Due.keeps {s : Exec X (Builtin X)} {idx : ℕ} {cx : Cx} {call : Call} {p : SharePlugin X}
    (due : Due i (c.start i) s idx cx call)
    (howner : c.plugins.findIdx? (fun b => handles (Plugin.manifest b) cap) = some idx)
    (hp : s.core.plugins[idx]? = some (.share p)) (hx : p.offered[x]? = some inc)
    (hloses : ¬c.Loses i x) (hcancels : ¬c.Cancels i x) :
    (Plugin.call p cx call).1.offered[x]? = some inc := by
  -- The share plugin as it was at the start of the step, where the call says so.
  have shares (hs : s.core.plugins = c.plugins) : c.Shares idx p := ⟨howner, hs ▸ hp⟩
  apply p.call_keeps cx call hx
  · rintro rfl
    cases due
  · rintro peer env f rfl ty decoded about
    have hmessage := due.delivers
    cases due with
    | message event frame link decrypt decoded' negotiated message owner state =>
      subst state
      exact hloses (.heard (shares rfl) hmessage ty decoded about)
  · rintro peer env rfl ty rfl
    have hmessage := due.delivers
    cases due with
    | message event frame link decrypt decoded' negotiated message owner state =>
      subst state
      exact hloses (.renumbered (shares rfl) hmessage ty rfl)
  · rintro ok detail rfl
    cases due with
    | finished event owner state =>
      subst state
      exact hloses (.reported (shares rfl) event owner)
    | expired event waiting late owner =>
      exact hcancels (.waited event waiting late)
  · rintro peer ty body f rfl hty decoded about
    cases due with
    | @request _ cap' _ _ event owner state =>
      subst state
      have hshares := shares rfl
      obtain ⟨hlt', hhandles, -⟩ := List.findIdx?_eq_some_iff_getElem.mp owner
      obtain ⟨_, heq⟩ := List.getElem?_eq_some_iff.mp hp
      rw [heq] at hhandles
      obtain rfl := Builtin.handles_of_share p hhandles
      rcases hty with rfl | rfl
      · exact hloses (.rejected hshares event decoded about)
      · exact hcancels (.cancelled hshares event decoded about)

/-- Through a stretch of a step an entry stays, but for the ways to lose it. -/
theorem rounds_keeps {s t : Exec X (Builtin X)} (h : Rounds i (c.start i) s t) {idx : ℕ}
    {p : SharePlugin X}
    (howner : c.plugins.findIdx? (fun b => handles (Plugin.manifest b) cap) = some idx)
    (hp : s.core.plugins[idx]? = some (.share p)) (hx : p.offered[x]? = some inc)
    (hparts : c.parts i ≠ some inc.peer) (hloses : ¬c.Loses i x) (hcancels : ¬c.Cancels i x) :
    ∃ p', t.core.plugins[idx]? = some (.share p') ∧ p'.offered[x]? = some inc := by
  induction h generalizing p with
  | calm h =>
    have hplugins := congrArg Ledger.plugins h.plain.1
    dsimp only [Core.ledger] at hplugins
    rw [hplugins]
    exact ⟨p, hp, hx⟩
  | released plugins =>
    rw [plugins]
    exact ⟨p, hp, hx⟩
  | @refused s l u session env heard code =>
    have hplugins : (s.sendError u.peer env code).core.plugins = s.core.plugins :=
      congrArg Ledger.plugins (s.sendError_plain u.peer env code).1
    rw [hplugins]
    exact ⟨p, hp, hx⟩
  | trans _ _ ih ih' =>
    obtain ⟨p', hp', hx'⟩ := ih hp hx
    exact ih' hp' hx'
  | @calledAll s call hc parted =>
    obtain ⟨cx, hturn, -⟩ := forEachPlugin_turn call (s.cx i.now.monotonicMs) hp
    rw [(Exec.callAllPlugins_kept s _ _).1]
    rw [Builtin.call_share] at hturn
    refine ⟨_, hturn, p.call_keeps cx call hx ?_ ?_ ?_ ?_ ?_⟩
    · intro hcall
      exact hparts (parted _ hcall)
    · intro peer env f hcall
      rw [hcall] at hc
      cases hc
    · intro peer env hcall
      rw [hcall] at hc
      cases hc
    · intro ok detail hcall
      rw [hcall] at hc
      cases hc
    · intro peer ty body f hcall
      rw [hcall] at hc
      cases hc
  | @settled s token result idx' event state owner =>
    obtain ⟨p', hp', rfl | ⟨-, rfl⟩⟩ := Exec.callPlugin_share idx'
      (s.cx i.now.monotonicMs) (.effectResult token result)
      (s := { s with core.effectOwner := s.core.effectOwner.erase token }) hp
    · exact ⟨p', hp', hx⟩
    · exact ⟨_, hp', hx⟩
  | @called s idx' cx call due other =>
    obtain ⟨p', hp', rfl | ⟨rfl, rfl⟩⟩ := Exec.callPlugin_share idx' cx call hp
    · exact ⟨p', hp', hx⟩
    · exact ⟨_, hp', due.keeps howner hp hx hloses hcancels⟩

/-- An offer stays, but for the ways to lose it. -/
theorem Core.Offered.step {e : DeviceId × Offer} (h : c.Offered e)
    (hloses : ¬c.Loses i e.2.transfer) (hcancels : ¬c.Cancels i e.2.transfer) :
    (c.step i).Offered e := by
  obtain ⟨idx, p, hshares, inc, hinc, hpeer, hoffer⟩ := h
  have hparts : c.parts i ≠ some inc.peer := fun h => hloses (.parted hshares hinc h)
  obtain ⟨p', hp', hinc'⟩ := rounds_keeps (c.exec_rounds i) hshares.owner hshares.plugin hinc hparts
    hloses hcancels
  refine ⟨idx, p', ⟨?_, hp'⟩, inc, hinc', hpeer, hoffer⟩
  rw [c.step_owner i]
  exact hshares.owner

end Keeping

section Cancelling
variable {P : Type} [Plugin P] {s t : Exec X P} {a : Action}

theorem Drift.mem_actions (h : Drift s t) (ha : a ∈ s.actions) : a ∈ t.actions := by
  obtain ⟨as, _, hactions, -⟩ := h.trace
  rw [hactions]
  exact List.mem_append_left _ ha

omit [Plugin P] in
theorem Plain.mem_actions (h : Plain s t) (ha : a ∈ s.actions) : a ∈ t.actions := by
  obtain ⟨-, as, hactions, -⟩ := h
  rw [hactions]
  exact List.mem_append_left _ ha

namespace Exec

theorem drainCx_cancels (s : Exec X P) {cx : Cx} {x : TransferId} (hx : .cancel x ∈ cx.bulk) :
    Action.bulkCancel x ∈ (s.drainCx cx).actions := by
  have told : ∀ (rs : List BulkRequest) (s : Exec X P), .cancel x ∈ rs →
      Action.bulkCancel x ∈ (rs.foldl (fun s r => s.dispatchBulk cx.nowMs r) s).actions := by
    intro rs
    induction rs with
    | nil => simp
    | cons r rs ih =>
      intro s hmem
      rw [List.foldl_cons]
      rcases List.mem_cons.mp hmem with rfl | hmem
      · have hrest := Drift.foldl (fun s r => dispatchBulk_drift s cx.nowMs r) rs
          (s.dispatchBulk cx.nowMs (.cancel x))
        apply hrest.mem_actions
        simp [dispatchBulk, push]
      · exact ih _ hmem
  have sent : ∀ s : Exec X P, Action.bulkCancel x ∈ s.actions →
      Action.bulkCancel x ∈ (cx.sends.foldl dispatchSend s).actions :=
    fun s h => (Plain.foldl dispatchSend_plain cx.sends s).mem_actions h
  unfold drainCx
  dsimp only
  split
  · exact sent _ (told _ _ hx)
  · exact sent _ (told _ _ hx)

theorem giveUpWaiting_cancels (s : Exec X P) {nowMs d : ℕ} {x : TransferId}
    (waiting : s.core.bulkWait[x]? = some d) (late : d ≤ nowMs) :
    Action.bulkCancel x ∈ (s.giveUpWaiting nowMs).actions := by
  have each : ∀ (ts : List TransferId) (s : Exec X P), x ∈ ts →
      Action.bulkCancel x ∈ (ts.foldl (fun s t => s.giveUpBulk nowMs t) s).actions := by
    intro ts
    induction ts with
    | nil => simp
    | cons t ts ih =>
      intro s hmem
      rw [List.foldl_cons]
      rcases List.mem_cons.mp hmem with rfl | hmem
      · have hrest := Drift.foldl (fun s t => giveUpBulk_drift s nowMs t) ts (s.giveUpBulk nowMs x)
        apply hrest.mem_actions
        have hreport := dispatchToTransferOwner_drift
          (({ s with core.bulkWait := s.core.bulkWait.erase x }).push (.bulkCancel x)) nowMs x
          fun obs ho p cx => ho.finished p cx x false "the sender never connected"
        exact hreport.mem_actions (by simp [push])
      · exact ih _ hmem
  apply each
  simp only [List.mem_map, List.mem_filter, decide_eq_true_eq]
  exact ⟨(x, d), ⟨ExtTreeMap.mem_toList_iff_getElem?_eq_some.mpr waiting, late⟩, rfl⟩

end Exec

theorem Core.step_cancels {c : Core X (Builtin X)} {i : Core.Input X} {x : TransferId}
    (h : c.Cancels i x) : Action.bulkCancel x ∈ (c.handle i).2.actions := by
  show Action.bulkCancel x ∈ (c.exec i).actions
  cases h with
  | @cancelled idx p peer body f share event decoded about =>
    have hcall := Core.exec_request share.owner share.plugin event
    dsimp only at hcall
    generalize hcx : ((c.start i).cx i.now.monotonicMs).forPeerLink _ = cx at hcall
    have hlocal : p.localCancel cx peer body = (p.remove f.transfer,
        (cx.bulkCancel f.transfer).send peer cap "finished"
          (X.encode { f with transfer := p.asThePeerNumbersIt f.transfer }), .ok ()) := by
      unfold SharePlugin.localCancel
      rw [decoded]
    have hcancel : Plugin.onLocal (Builtin.share p) cx peer "cancel" body =
        Builtin.boxed .share (p.localCancel cx peer body) := rfl
    rw [hcancel, hlocal] at hcall
    rw [hcall]
    apply Exec.drainCx_cancels
    rw [← about]
    exact List.mem_append_right _ (List.mem_singleton_self _)
  | @waited d event waiting late =>
    have htick : c.exec i = (c.start i).onTick i.now.monotonicMs := by
      unfold exec
      rw [event]
      rfl
    rw [htick]
    unfold Exec.onTick
    dsimp only
    generalize hs : (c.start i).lapsePairing i.now.monotonicMs = s
    have hwait : s.core.bulkWait = c.bulkWait := by
      rw [← hs]
      exact congrArg Ledger.bulkWait (Exec.lapsePairing_plain _ _).1
    have hcancel := s.giveUpWaiting_cancels (hwait ▸ waiting) late
    have links := Plain.foldl (fun s l => Exec.closeStale_plain s i.now.monotonicMs l)
      (((s.giveUpWaiting i.now.monotonicMs).core.links.toList.filter
        fun e => Exec.stale i.now.monotonicMs e.2).map (·.1)) (s.giveUpWaiting i.now.monotonicMs)
    have dials := Plain.foldl (fun s d => Exec.expireDial_plain s i.now.monotonicMs d)
      ((((s.giveUpWaiting i.now.monotonicMs).closeStaleLinks
        i.now.monotonicMs).core.pendingPeerDials.toList.filter
          fun e => e.2.1 ≤ i.now.monotonicMs).map (·.1))
      ((s.giveUpWaiting i.now.monotonicMs).closeStaleLinks i.now.monotonicMs)
    have hexpired := dials.mem_actions (links.mem_actions hcancel)
    exact (Exec.wakePlugins_drift _ _).mem_actions
      ((Exec.heartbeat_plain _ _).mem_actions hexpired)

end Cancelling
end Acrylius
