import Acrylius.Plugins.Moves
import Acrylius.Core.Gate

/-! How often the host is handed a transfer: each plugin request for a bulk channel followed to
the action it becomes. -/
namespace Acrylius
open Proto Std Share

variable {X : Crates} {P : Type}

def listens (as : List Action) : List TransferId :=
  as.filterMap fun
    | .bulkListen t _ _ _ => some t
    | _ => none

def connects (as : List Action) : List TransferId :=
  as.filterMap fun
    | .bulkSend t _ _ => some t
    | _ => none

@[simp] theorem listens_append (as bs : List Action) :
    listens (as ++ bs) = listens as ++ listens bs := by simp [listens]

@[simp] theorem connects_append (as bs : List Action) :
    connects (as ++ bs) = connects as ++ connects bs := by simp [connects]

/-- Actions that start or cancel no bulk channel. -/
def Action.unchannelled : Action → Bool
  | .bulkListen .. | .bulkSend .. | .bulkCancel .. => false
  | _ => true

theorem Action.unchannelled_of_plain {a : Action} (h : a.plain) : a.unchannelled := by
  cases a <;> simp_all [Action.plain, Action.unchannelled]

/-- A stretch of a step in which no bulk channel is started, and none is cancelled but those in
`gone`. -/
structure Idle (gone : TransferId → Prop) (s t : Exec X P) : Prop where
  listens : listens t.actions = listens s.actions
  connects : connects t.actions = connects s.actions
  waits : Within t.core.bulkWait s.core.bulkWait
  cancels : ∀ x, Action.bulkCancel x ∈ t.actions → Action.bulkCancel x ∈ s.actions ∨ gone x

namespace Idle
variable {gone : TransferId → Prop} {s t r : Exec X P}

theorem of_actions (as : List Action) (ha : t.actions = s.actions ++ as)
    (h : ∀ a ∈ as, a.unchannelled ∨ ∃ x, a = .bulkCancel x ∧ gone x)
    (hw : Within t.core.bulkWait s.core.bulkWait) : Idle gone s t := by
  have hlisten : Acrylius.listens as = [] := by
    unfold Acrylius.listens
    rw [List.filterMap_eq_nil_iff]
    intro a hmem
    rcases h a hmem with h | ⟨x, rfl, -⟩
    · cases a <;> simp_all [Action.unchannelled]
    · rfl
  have hconnect : Acrylius.connects as = [] := by
    unfold Acrylius.connects
    rw [List.filterMap_eq_nil_iff]
    intro a hmem
    rcases h a hmem with h | ⟨x, rfl, -⟩
    · cases a <;> simp_all [Action.unchannelled]
    · rfl
  refine ⟨by simp [ha, hlisten], by simp [ha, hconnect], hw, ?_⟩
  intro x hx
  rw [ha] at hx
  rcases List.mem_append.mp hx with hx | hx
  · exact .inl hx
  · rcases h _ hx with h | ⟨y, hy, hg⟩
    · cases h
    · cases hy
      exact .inr hg

theorem refl (s : Exec X P) : Idle gone s s :=
  ⟨rfl, rfl, fun _ _ h => h, fun _ h => .inl h⟩

theorem trans (h : Idle gone s t) (h' : Idle gone t r) : Idle gone s r :=
  ⟨h'.listens.trans h.listens, h'.connects.trans h.connects,
    fun x d hd => h.waits x d (h'.waits x d hd), fun x hx =>
      (h'.cancels x hx).elim (h.cancels x) .inr⟩

theorem plain (h : Plain s t) : Idle gone s t := by
  obtain ⟨hl, as, ha, hp⟩ := h
  refine of_actions _ ha (fun a hmem => .inl (Action.unchannelled_of_plain (hp a hmem))) ?_
  have hw : t.core.bulkWait = s.core.bulkWait := congrArg Ledger.bulkWait hl
  rw [hw]
  exact fun _ _ h => h

theorem foldl {α : Type} {f : Exec X P → α → Exec X P} (hf : ∀ s a, Idle gone s (f s a))
    (as : List α) (s : Exec X P) : Idle gone s (as.foldl f s) := by
  induction as generalizing s with
  | nil => exact refl s
  | cons a as ih => exact (hf s a).trans (ih _)

end Idle

/-- What a stretch of a step does about bulk channels: nothing, or it starts one, listening or
connecting, where none had been started. -/
inductive Starts (gone takes gives : TransferId → Prop) (s t : Exec X P) : Prop where
  | idle (h : Idle gone s t)
  | listen {x : TransferId} (first : listens s.actions = [] ∧ connects s.actions = [])
      (due : takes x) (now : listens t.actions = [x] ∧ connects t.actions = [])
      (waits : ∀ (y : TransferId) (d : ℕ), t.core.bulkWait[y]? = some d →
        s.core.bulkWait[y]? = some d ∨ y = x)
      (cancels : ∀ y, Action.bulkCancel y ∈ t.actions → Action.bulkCancel y ∈ s.actions ∨ gone y)
  | connect {x : TransferId} (first : listens s.actions = [] ∧ connects s.actions = [])
      (due : gives x) (now : listens t.actions = [] ∧ connects t.actions = [x])
      (waits : Within t.core.bulkWait s.core.bulkWait)
      (cancels : ∀ y, Action.bulkCancel y ∈ t.actions → Action.bulkCancel y ∈ s.actions ∨ gone y)

namespace Starts
variable {gone takes gives : TransferId → Prop} {s t r : Exec X P}

theorem trans (h : Starts gone takes gives s t) (h' : Starts gone takes gives t r) :
    Starts gone takes gives s r := by
  cases h with
  | idle h =>
    cases h' with
    | idle h' => exact .idle (h.trans h')
    | listen first due now waits cancels =>
      exact .listen ⟨h.listens.symm.trans first.1, h.connects.symm.trans first.2⟩ due now
        (fun y d hd => (waits y d hd).imp_left (h.waits y d))
        (fun y hy => (cancels y hy).elim (h.cancels y) .inr)
    | connect first due now waits cancels =>
      exact .connect ⟨h.listens.symm.trans first.1, h.connects.symm.trans first.2⟩ due now
        (fun y d hd => h.waits y d (waits y d hd))
        (fun y hy => (cancels y hy).elim (h.cancels y) .inr)
  | @listen x first due now waits cancels =>
    cases h' with
    | idle h' =>
      exact .listen first due ⟨h'.listens.trans now.1, h'.connects.trans now.2⟩
        (fun y d hd => waits y d (h'.waits y d hd))
        (fun y hy => (h'.cancels y hy).elim (cancels y) .inr)
    | listen first' => simp [now.1] at first'
    | connect first' => simp [now.1] at first'
  | @connect x first due now waits cancels =>
    cases h' with
    | idle h' =>
      exact .connect first due ⟨h'.listens.trans now.1, h'.connects.trans now.2⟩
        (fun y d hd => waits y d (h'.waits y d hd))
        (fun y hy => (h'.cancels y hy).elim (cancels y) .inr)
    | listen first' => simp [now.2] at first'
    | connect first' => simp [now.2] at first'

end Starts

section Drain
variable {gone takes gives : TransferId → Prop}

theorem Exec.drainCx_idle (s : Exec X P) (cx : Cx) (h : cx.bulk = []) :
    Idle gone s (s.drainCx cx) := by
  have act : ∀ (s : Exec X P) {a : Action}, a.unchannelled → Idle gone s (s.push a) := by
    intro s a ha
    exact .of_actions [a] rfl (by simp [ha]) fun _ _ h => h
  have told : Idle gone s (cx.ui.foldl ui s) := .foldl (fun s e => act s rfl) _ _
  have acted : Idle gone _ (cx.effects.foldl (fun s e => s.push (.effect e.1 e.2)) (cx.ui.foldl ui s)) :=
    .foldl (fun s e => act s rfl) _ _
  have sent : ∀ s : Exec X P, Idle gone s (cx.sends.foldl dispatchSend s) :=
    Idle.foldl (fun s m => .plain (dispatchSend_plain s m)) cx.sends
  have all := (told.trans acted).trans (sent _)
  unfold drainCx
  dsimp only
  rw [h, List.foldl_nil]
  split
  · exact all
  · exact all.trans (.of_actions [] (List.append_nil _).symm (by simp) fun _ _ h => h)

theorem Exec.drainCx_one (s : Exec X P) {cx : Cx} {r : BulkRequest} (h : cx.bulk = [r])
    (hr : ∀ s' : Exec X P, s'.core.links = s.core.links → listens s'.actions = listens s.actions →
      connects s'.actions = connects s.actions →
      Starts gone takes gives s' (s'.dispatchBulk cx.nowMs r)) :
    Starts gone takes gives s (s.drainCx cx) := by
  have split : s.drainCx cx = (s.drained cx 1).drainCx { cx with ui := [], effects := [], bulk := [] } := by
    simp only [drainCx, drained, h, List.take_succ_cons, List.take_zero, List.foldl_nil]
  have before : Idle gone s (s.drained cx 0) := by
    exact s.drainCx_idle { cx with bulk := [], sends := [], wakeAt := none } rfl
  rw [split, drained_succ s cx (k := 0) (r := r) (by simp [h])]
  exact (Starts.idle before).trans ((hr _ (drained_links s cx 0) before.listens before.connects).trans
    (.idle (drainCx_idle _ _ rfl)))

end Drain

namespace SharePlugin

inductive Asks (p : SharePlugin X) : Call → List BulkRequest → Prop where
  | nothing (c : Call) : Asks p c []
  | send {peer env accept} (ty : env.ty = "accept") (decoded : X.decode Accept env.body = some accept)
      (ours : p.isSendingTo peer accept.transfer) :
      Asks p (.message peer env) [.send peer accept.transfer accept.endpoint]
  | listen {peer body f incoming} (decoded : X.decode Finished body = some f)
      (ours : p.offered[f.transfer]? = some incoming) :
      Asks p (.request peer "accept" body)
        [.listen incoming.peer f.transfer incoming.offeredAs incoming.offer.size]
  | cancel {peer body f} (decoded : X.decode Finished body = some f) :
      Asks p (.request peer "cancel" body) [.cancel f.transfer]

theorem call_asks (p : SharePlugin X) (cx : Cx) (c : Call) :
    ∃ rs, p.Asks c rs ∧ (Plugin.call p cx c).2.1.bulk = cx.bulk ++ rs := by
  have hmove := p.call_move cx c
  revert hmove
  generalize (Plugin.call p cx c).1 = p'
  generalize (Plugin.call p cx c).2.1 = cx'
  intro hmove
  cases hmove with
  | accepted ty decoded ours => exact ⟨_, .send ty decoded ours, rfl⟩
  | taken decoded ours => exact ⟨_, .listen decoded ours, rfl⟩
  | cancelled decoded => exact ⟨_, .cancel decoded, rfl⟩
  | idle
  | offered
  | rejected
  | finished
  | disconnected
  | unsendable
  | sent
  | declined
  | listening
  | ended => exact ⟨[], .nothing _, (List.append_nil _).symm⟩

end SharePlugin

/-- Plugins of which some are the share plugin; the others ask for no bulk channel. -/
structure Sharing (X : Crates) (P : Type) [Plugin P] where
  share : P → Option (SharePlugin X)
  asks : ∀ (p : P) (sp : SharePlugin X) (cx : Cx) (c : Call), share p = some sp →
    (Plugin.call p cx c).2.1.bulk = (Plugin.call sp cx c).2.1.bulk
  quiet : ∀ (p : P) (cx : Cx) (c : Call), share p = none → (Plugin.call p cx c).2.1.bulk = cx.bulk

def Sharing.self (X : Crates) : Sharing X (SharePlugin X) where
  share := some
  asks p sp cx c h := by rw [Option.some.inj h]
  quiet p cx c h := by cases h

namespace Sharing
variable [Plugin P] (S : Sharing X P)

/-- The step is a person's yes to an offer that is still there, over a peer that can be reached
with a side channel. -/
inductive Takes (c : Core X P) (i : Core.Input X) : TransferId → Prop where
  | intro {peer cap body f incoming idx p sp}
      (event : i.event = .localCommand (.plugin peer cap "accept" body))
      (owner : c.plugins.findIdx? (fun p => handles (Plugin.manifest p) cap) = some idx)
      (plugin : c.plugins[idx]? = some p) (share : S.share p = some sp)
      (decoded : X.decode Finished body = some f)
      (offered : sp.offered[f.transfer]? = some incoming) (link : c.HasSideChannel incoming.peer) :
      Takes c i f.transfer

/-- The step brings the peer's yes to an offer of ours that is still there. -/
inductive Gives (c : Core X P) (i : Core.Input X) : TransferId → Prop where
  | intro {peer env accept idx p sp} (message : c.Delivers i idx peer env)
      (plugin : c.plugins[idx]? = some p) (share : S.share p = some sp) (ty : env.ty = "accept")
      (decoded : X.decode Accept env.body = some accept)
      (sending : sp.isSendingTo peer accept.transfer) (link : c.HasSideChannel peer) :
      Gives c i accept.transfer

omit [Plugin P] in
theorem handOver_idle {gone : TransferId → Prop} (s : Exec X P) (idx : ℕ) (p : P) (cx : Cx) :
    Idle gone s (s.handOver idx p cx) :=
  .of_actions [] (List.append_nil _).symm (by simp) fun _ _ h => h

theorem callPlugin_idle {gone : TransferId → Prop} {s : Exec X P} {idx : ℕ} {cx : Cx} {c : Call}
    (h : ∀ p, s.core.plugins[idx]? = some p → (Plugin.call p cx c).2.1.bulk = []) :
    Idle gone s (s.callPlugin idx cx fun p cx => Plugin.call p cx c).1 := by
  cases hp : s.core.plugins[idx]? with
  | none =>
    unfold Exec.callPlugin
    rw [hp]
    exact .refl s
  | some p =>
    rw [Exec.callPlugin_eq s cx _ hp]
    exact (handOver_idle s idx _ _).trans (Exec.drainCx_idle _ _ (h p hp))

section Requests
variable {gone takes gives : TransferId → Prop} {s : Exec X P}

omit [Plugin P] in
/-- A request that is refused starts nothing; one that is not starts what it asked for. -/
theorem withBulkKey_starts {peer offerer : DeviceId} {t : TransferId} {n : ℕ}
    {start : Exec X P → Bytes → Exec X P} (hgone : ∀ x, gone x)
    (hstart : s.core.HasSideChannel peer → ∀ key, Starts gone takes gives s (start s key)) :
    Starts gone takes gives s (s.withBulkKey peer t offerer n start) := by
  by_cases h : s.core.HasSideChannel peer
  · obtain ⟨key, hkey⟩ := Exec.withBulkKey_started offerer t n start h
    rw [hkey]
    exact hstart h key
  · obtain ⟨hwait, as, ha, has⟩ := Exec.withBulkKey_refused offerer t n start h
    refine .idle (.of_actions _ ha ?_ ?_)
    · intro a hmem
      rcases has a hmem with rfl | ⟨e, rfl⟩
      · exact .inr ⟨t, rfl, hgone t⟩
      · exact .inl rfl
    · rw [hwait]
      exact fun _ _ h => h

omit [Plugin P] in
theorem dispatchBulk_starts {nowMs : ℕ} {r : BulkRequest} (hgone : ∀ x, gone x)
    (first : listens s.actions = [] ∧ connects s.actions = [])
    (hlisten : ∀ peer t n bytes, r = .listen peer t n bytes → s.core.HasSideChannel peer → takes t)
    (hconnect : ∀ peer t e, r = .send peer t e → s.core.HasSideChannel peer → gives t) :
    Starts gone takes gives s (s.dispatchBulk nowMs r) := by
  cases r with
  | cancel t =>
    refine .idle (.of_actions [.bulkCancel t] rfl ?_ fun _ _ h => h)
    simp only [List.mem_singleton, forall_eq]
    exact .inr ⟨t, rfl, hgone t⟩
  | listen peer t n bytes =>
    unfold Exec.dispatchBulk
    dsimp only
    refine withBulkKey_starts hgone fun h key => ?_
    refine .listen first (hlisten peer t n bytes rfl h) ⟨?_, ?_⟩ ?_ fun y _ => .inr (hgone y)
    · rw [Exec.push, listens_append, first.1]
      rfl
    · rw [Exec.push, connects_append, first.2]
      rfl
    · intro y d hd
      rcases Lib.getElem?_of_insert hd with ⟨rfl, -⟩ | ⟨-, hd⟩
      · exact .inr rfl
      · exact .inl hd
  | send peer t endpoint =>
    unfold Exec.dispatchBulk
    dsimp only
    refine withBulkKey_starts hgone fun h key => ?_
    refine .connect first (hconnect peer t endpoint rfl h) ⟨?_, ?_⟩ (fun _ _ h => h)
      fun y _ => .inr (hgone y)
    · rw [Exec.push, listens_append, first.1]
      rfl
    · rw [Exec.push, connects_append, first.2]
      rfl

end Requests

/-- A call of one plugin starts at most the one channel the share plugin asked for. -/
theorem callPlugin_starts {gone takes gives : TransferId → Prop} {s : Exec X P} {idx : ℕ} {cx : Cx}
    {c : Call} (hcx : cx.bulk = []) (first : listens s.actions = [] ∧ connects s.actions = [])
    (hgone : ∀ x, gone x)
    (hlisten : ∀ p sp peer body f incoming, s.core.plugins[idx]? = some p → S.share p = some sp →
      c = .request peer "accept" body → X.decode Finished body = some f →
      sp.offered[f.transfer]? = some incoming → s.core.HasSideChannel incoming.peer →
      takes f.transfer)
    (hconnect : ∀ p sp peer env accept, s.core.plugins[idx]? = some p → S.share p = some sp →
      c = .message peer env → env.ty = "accept" → X.decode Accept env.body = some accept →
      sp.isSendingTo peer accept.transfer → s.core.HasSideChannel peer → gives accept.transfer) :
    Starts gone takes gives s (s.callPlugin idx cx fun p cx => Plugin.call p cx c).1 := by
  cases hp : s.core.plugins[idx]? with
  | none =>
    unfold Exec.callPlugin
    rw [hp]
    exact .idle (.refl s)
  | some p =>
    have none_asked : (Plugin.call p cx c).2.1.bulk = [] →
        Starts gone takes gives s (s.callPlugin idx cx fun p cx => Plugin.call p cx c).1 := by
      intro h
      refine .idle (callPlugin_idle fun q hq => ?_)
      obtain rfl := Option.some.inj (hp.symm.trans hq)
      exact h
    cases hshare : S.share p with
    | none => exact none_asked ((S.quiet p cx c hshare).trans hcx)
    | some sp =>
      obtain ⟨rs, hasks, hbulk⟩ := sp.call_asks cx c
      rw [← S.asks p sp cx c hshare, hcx, List.nil_append] at hbulk
      have one : ∀ {r : BulkRequest}, (Plugin.call p cx c).2.1.bulk = [r] →
          (∀ peer t n bytes, r = .listen peer t n bytes → s.core.HasSideChannel peer → takes t) →
          (∀ peer t e, r = .send peer t e → s.core.HasSideChannel peer → gives t) →
          Starts gone takes gives s (s.callPlugin idx cx fun p cx => Plugin.call p cx c).1 := by
        intro r hr hl hc
        rw [Exec.callPlugin_eq s cx _ hp]
        refine .trans (.idle (handOver_idle s idx _ _)) (Exec.drainCx_one _ hr ?_)
        intro s' hlinks hls hcs
        have side : ∀ peer, s'.core.HasSideChannel peer → s.core.HasSideChannel peer := by
          intro peer h
          unfold Core.HasSideChannel at h ⊢
          rw [hlinks] at h
          exact h
        exact dispatchBulk_starts hgone ⟨hls.trans first.1, hcs.trans first.2⟩
          (fun peer t n bytes he h => hl peer t n bytes he (side peer h))
          (fun peer t e he h => hc peer t e he (side peer h))
      cases hasks with
      | nothing => exact none_asked hbulk
      | cancel decoded => exact one hbulk (fun _ _ _ _ h => by cases h) (fun _ _ _ h => by cases h)
      | listen decoded ours =>
        refine one hbulk ?_ (fun _ _ _ h => by cases h)
        intro peer t n bytes he h
        cases he
        exact hlisten p sp _ _ _ _ hp hshare rfl decoded ours h
      | send ty decoded ours =>
        refine one hbulk (fun _ _ _ _ h => by cases h) ?_
        intro peer t e he h
        cases he
        exact hconnect p sp _ _ _ hp hshare rfl ty decoded ours h

include S in
/-- Only a message or a request moves the share plugin to ask for a channel. -/
theorem call_quiet (p : P) (cx : Cx) {c : Call} (hmessage : ∀ peer env, c ≠ .message peer env)
    (hrequest : ∀ peer ty body, c ≠ .request peer ty body) :
    (Plugin.call p cx c).2.1.bulk = cx.bulk := by
  cases hshare : S.share p with
  | none => exact S.quiet p cx c hshare
  | some sp =>
    obtain ⟨rs, hasks, hbulk⟩ := sp.call_asks cx c
    rw [S.asks p sp cx c hshare, hbulk]
    cases hasks with
    | nothing => exact List.append_nil _
    | send => exact (hmessage _ _ rfl).elim
    | listen => exact (hrequest _ _ _ rfl).elim
    | cancel => exact (hrequest _ _ _ rfl).elim

include S in
theorem forEachPlugin_quiet {c : Call} (hc : c.forAll) (ps : List P) (cx : Cx) :
    (forEachPlugin (fun p cx => ((Plugin.call p cx c).1, (Plugin.call p cx c).2.1)) ps
      cx).2.bulk = cx.bulk := by
  have quiet : ∀ (p : P) (cx : Cx), (Plugin.call p cx c).2.1.bulk = cx.bulk := by
    intro p cx
    refine S.call_quiet p cx ?_ ?_
    · rintro peer env rfl
      cases hc
    · rintro peer ty body rfl
      cases hc
  induction ps generalizing cx with
  | nil => rfl
  | cons p ps ih => exact (ih _).trans (quiet p cx)

/-- A tick cancels only what it found waiting. -/
def Overdue (c : Core X P) (i : Core.Input X) (x : TransferId) : Prop :=
  i.event = .tick → ∃ d : ℕ, c.bulkWait[x]? = some d

omit [Plugin P] in
/-- Reading a frame on a link does not change what the link is good for. -/
theorem hasSideChannel_of_insertLink {s : Exec X P} {l : LinkId} {u : UpLink X}
    {session : Session X} {nowMs : ℕ} {peer : DeviceId} (hl : s.core.links[l]? = some (.up u))
    (h : (s.insertLink l (.up { u with session, lastRecvMs := nowMs })).core.HasSideChannel peer) :
    s.core.HasSideChannel peer := by
  obtain ⟨l', u', hl', hpeer, hbulk⟩ := h
  rcases Lib.getElem?_of_insert hl' with ⟨rfl, he⟩ | ⟨-, hl'⟩
  · cases he
    exact ⟨l', u, hl, hpeer, hbulk⟩
  · exact ⟨l', u', hl', hpeer, hbulk⟩

/-- Every stretch of a step starts at most the channel its event calls for. -/
theorem deeds_starts {c : Core X P} {i : Core.Input X} {s t : Exec X P}
    (h : Deeds i (c.start i) s t) : Starts (Overdue c i) (S.Takes c i) (S.Gives c i) s t := by
  induction h with
  | plain h => exact .idle (.plain h)
  | released plugins minted owners waits actions =>
    exact .idle (.of_actions [] (by simpa using actions) (by simp) waits)
  | gaveUp event waiting late =>
    refine .idle (.of_actions _ rfl ?_ fun _ _ h => h)
    simp only [List.mem_singleton, forall_eq]
    exact .inr ⟨_, rfl, fun _ => ⟨_, waiting⟩⟩
  | trans _ _ ih ih' => exact ih.trans ih'
  | @calledAll s call hc =>
    have hbulk := S.forEachPlugin_quiet hc s.core.plugins (s.cx i.now.monotonicMs)
    unfold Exec.callAllPlugins
    dsimp only
    refine .idle (.trans ?_ (Exec.drainCx_idle _ _ hbulk))
    exact .of_actions [] (List.append_nil _).symm (by simp) fun _ _ h => h
  | @called s idx cx call due =>
    cases due with
    | message event frame link decrypt decoded negotiated message owner state =>
      subst state
      refine S.callPlugin_starts rfl ⟨rfl, rfl⟩ ?_ ?_ ?_
      · intro x he
        cases event.symm.trans he
      · intro p sp peer body f incoming hp hshare he
        cases he
      · intro p sp peer env accept hp hshare he ty hdec ours side
        cases he
        exact .intro (.intro event frame link decrypt decoded negotiated message owner) hp hshare
          ty hdec ours (hasSideChannel_of_insertLink link side)
    | request event owner state =>
      subst state
      refine S.callPlugin_starts rfl ⟨rfl, rfl⟩ ?_ ?_ ?_
      · intro x he
        cases event.symm.trans he
      · intro p sp peer body f incoming hp hshare he hdec ours side
        cases he
        exact .intro event owner hp hshare hdec ours side
      · intro p sp peer env accept hp hshare he
        cases he
    | effectResult event =>
      exact .idle (callPlugin_idle fun p _ => S.call_quiet p _ (by simp) (by simp))
    | listening event owner state =>
      exact .idle (callPlugin_idle fun p _ => S.call_quiet p _ (by simp) (by simp))
    | finished event owner state =>
      exact .idle (callPlugin_idle fun p _ => S.call_quiet p _ (by simp) (by simp))
    | expired event waiting late owner =>
      exact .idle (callPlugin_idle fun p _ => S.call_quiet p _ (by simp) (by simp))

theorem step_starts (c : Core X P) (i : Core.Input X) :
    Starts (Overdue c i) (S.Takes c i) (S.Gives c i) (c.start i) (c.exec i) :=
  S.deeds_starts (c.exec_deeds i)

end Sharing

/-- A core, and what its host was told and has reported about bulk channels so far. -/
structure Handed (X : Crates) (P : Type) where
  core : Core X P
  listened : List TransferId
  sent : List TransferId
  started : List TransferId

namespace Handed
variable [Plugin P]

def step (m : Handed X P) (i : Core.Input X) : Handed X P where
  core := (m.core.handle i).1
  listened := m.listened ++ listens (m.core.handle i).2.actions
  sent := m.sent ++ connects (m.core.handle i).2.actions
  started := match i.event with
    | .bulkStarted t => m.started ++ [t]
    | _ => m.started

def start (b : CoreBuilder X P) : Handed X P := ⟨b.build, [], [], []⟩

/-- The step says yes once more: a person to an offer the host already listens for, or already
reported as connected, or the peer to an offer the host is already sending. -/
def Repeats (S : Sharing X P) (m : Handed X P) (i : Core.Input X) : Prop :=
  (∃ t, S.Takes m.core i t ∧ (t ∈ m.listened ∨ t ∈ m.started)) ∨
    ∃ t, S.Gives m.core i t ∧ t ∈ m.sent

/-- Nothing was handed to the host twice, and nothing that connected is still waited for. -/
structure Once (m : Handed X P) : Prop where
  listened : m.listened.Nodup
  sent : m.sent.Nodup
  waiting : ∀ (t : TransferId) (d : ℕ), m.core.bulkWait[t]? = some d → t ∉ m.started

theorem start_once (b : CoreBuilder X P) : (start b).Once where
  listened := .nil
  sent := .nil
  waiting t d h := by simp [start]

theorem step_started (m : Handed X P) (i : Core.Input X) {t : TransferId}
    (h : t ∈ (m.step i).started) : t ∈ m.started ∨ i.event = .bulkStarted t := by
  unfold step at h
  dsimp only at h
  split at h
  · rename_i x he
    rcases List.mem_append.mp h with h | h
    · exact .inl h
    · rw [List.mem_singleton.mp h]
      exact .inr he
  · exact .inl h

/-- A transfer reported as connected is no longer waited for. -/
theorem step_bulkStarted {m : Handed X P} {i : Core.Input X} {t : TransferId}
    (h : i.event = .bulkStarted t) : (m.step i).core.bulkWait = m.core.bulkWait.erase t := by
  change (m.core.exec i).core.bulkWait = _
  unfold Core.exec
  rw [h]
  rfl

variable (S : Sharing X P)

theorem step_once {m : Handed X P} {i : Core.Input X} (hm : m.Once) (hi : ¬ Repeats S m i) :
    (m.step i).Once := by
  obtain ⟨hlistened, hsent, hwaiting⟩ := hm
  have fresh : ∀ {ts : List TransferId} {x : TransferId}, ts.Nodup → x ∉ ts →
      (ts ++ [x]).Nodup := by
    intro ts x h hx
    rw [List.nodup_append]
    refine ⟨h, List.nodup_singleton x, ?_⟩
    intro y hy z hz hyz
    rw [List.mem_singleton] at hz
    exact hx (hz ▸ hyz ▸ hy)
  -- what was reported in this step is erased in this step
  have settled : ∀ {t : TransferId} {d : ℕ}, (m.step i).core.bulkWait[t]? = some d →
      t ∉ m.started → t ∉ (m.step i).started := by
    intro t d hd ht hstarted
    rcases m.step_started i hstarted with h | h
    · exact ht h
    · rw [step_bulkStarted h] at hd
      exact (Lib.getElem?_of_erase hd).1 rfl
  have hl : (m.step i).listened = m.listened ++ listens (m.core.exec i).actions := rfl
  have hs : (m.step i).sent = m.sent ++ connects (m.core.exec i).actions := rfl
  cases S.step_starts m.core i with
  | idle h =>
    have hnone : listens (m.core.exec i).actions = [] := h.listens
    have hnone' : connects (m.core.exec i).actions = [] := h.connects
    refine ⟨by rwa [hl, hnone, List.append_nil], by rwa [hs, hnone', List.append_nil], ?_⟩
    intro t d hd
    exact settled hd (hwaiting t d (h.waits t d hd))
  | @listen x first due now waits cancels =>
    have hx : x ∉ m.listened ∧ x ∉ m.started := by
      refine ⟨fun h => hi (.inl ⟨x, due, .inl h⟩), fun h => hi (.inl ⟨x, due, .inr h⟩)⟩
    refine ⟨?_, by rwa [hs, now.2, List.append_nil], ?_⟩
    · rw [hl, now.1]
      exact fresh hlistened hx.1
    · intro t d hd
      rcases waits t d hd with h | rfl
      · exact settled hd (hwaiting t d h)
      · exact settled hd hx.2
  | @connect x first due now waits cancels =>
    have hx : x ∉ m.sent := fun h => hi (.inr ⟨x, due, h⟩)
    refine ⟨by rwa [hl, now.1, List.append_nil], ?_, ?_⟩
    · rw [hs, now.2]
      exact fresh hsent hx
    · intro t d hd
      exact settled hd (hwaiting t d (waits t d hd))

include S in
/-- A tick leaves alone what has connected. -/
theorem Once.not_cancelled {m : Handed X P} {i : Core.Input X} (hm : m.Once)
    (htick : i.event = .tick) {t : TransferId} (ht : t ∈ m.started) :
    Action.bulkCancel t ∉ (m.core.handle i).2.actions := by
  have overdue : Action.bulkCancel t ∈ (m.core.exec i).actions → Sharing.Overdue m.core i t := by
    intro h
    have late : Action.bulkCancel t ∈ (m.core.start i).actions ∨ Sharing.Overdue m.core i t := by
      cases S.step_starts m.core i with
      | idle h' => exact h'.cancels t h
      | listen _ _ _ _ cancels => exact cancels t h
      | connect _ _ _ _ cancels => exact cancels t h
    exact late.resolve_left List.not_mem_nil
  intro h
  obtain ⟨d, hd⟩ := overdue h htick
  exact hm.waiting t d hd ht

/-- Over any run in which no yes is said twice, a transfer is handed to the host once in each
direction, and no tick cancels a transfer that has connected. -/
theorem one_channel_per_transfer (b : CoreBuilder X P) {is : List (Core.Input X)}
    (h : Lib.Along step (fun m i => ¬ Repeats S m i) (start b) is) :
    (Lib.run step (start b) is).listened.Nodup ∧ (Lib.run step (start b) is).sent.Nodup ∧
      Lib.Along step (fun m i => i.event = .tick → ∀ t ∈ m.started,
        Action.bulkCancel t ∉ (m.core.handle i).2.actions) (start b) is := by
  have hrun := h.inv (fun m i => step_once S) (start_once b)
  refine ⟨hrun.listened, hrun.sent, h.along_of_inv (fun m i => step_once S) ?_ (start_once b)⟩
  intro m i hm _ htick t ht
  exact hm.not_cancelled S htick ht

/-- The laptop of a phone that has offered a picture over the local network. -/
def pictureOffered : List (Core.Input Mock.crates) :=
  Mock.pictureOffered [SharePlugin.default Mock.crates] (.tcpLan 0)

/-- One yes, a connection, and ten minutes later nothing was cancelled. -/
theorem accepted_once : Lib.Along step
    (fun m i => i.event = .tick → ∀ t ∈ m.started, Action.bulkCancel t ∉ (m.core.handle i).2.actions)
    (start (Mock.laptop [SharePlugin.default Mock.crates]))
    (pictureOffered ++ [Mock.pictureAccepted 3, Mock.at_ 4 0 (.bulkStarted (mintedHere ||| 1)),
      Mock.at_ 600000 0 .tick]) := by
  have early : ∀ (m : Handed Mock.crates (SharePlugin Mock.crates)) (i : Core.Input Mock.crates),
      m.listened = [] ∧ m.sent = [] ∧ m.started = [] → ¬ Repeats (Sharing.self _) m i := by
    rintro m i ⟨hl, hs, hb⟩ (⟨t, -, ht⟩ | ⟨t, -, ht⟩)
    · simp [hl, hb] at ht
    · simp [hs] at ht
  have untold : ∀ (m : Handed Mock.crates (SharePlugin Mock.crates)) (i : Core.Input Mock.crates),
      (∀ cmd, i.event ≠ .localCommand cmd) ∧ (∀ l msg, i.event ≠ .linkRecv l msg) →
      ¬ Repeats (Sharing.self _) m i := by
    rintro m i ⟨hcmd, hmsg⟩ (⟨t, ⟨event⟩, -⟩ | ⟨t, ⟨⟨event⟩⟩, -⟩)
    · exact hcmd _ event
    · exact hmsg _ _ event
  refine (one_channel_per_transfer (Sharing.self Mock.crates) _ ?_).2.2
  refine Lib.Along.append.mpr ⟨⟨early _ _ ?_, early _ _ ?_, early _ _ ?_, .nil _⟩, early _ _ ?_,
    untold _ _ (by simp [Mock.at_]), untold _ _ (by simp [Mock.at_]), .nil _⟩
  all_goals decide +kernel

/-- Two surfaces say yes, the second after the phone has connected: the host is told to listen
twice, and the next tick cancels the running transfer. -/
theorem accepted_twice :
    let m := Lib.run step (start (Mock.laptop [SharePlugin.default Mock.crates]))
      (pictureOffered ++ [Mock.pictureAccepted 3, Mock.at_ 4 0 (.bulkStarted (mintedHere ||| 1)),
        Mock.pictureAccepted 5])
    ¬ m.listened.Nodup ∧ mintedHere ||| 1 ∈ m.started ∧
      Action.bulkCancel (mintedHere ||| 1) ∈
        (m.core.handle (Mock.at_ 600000 0 .tick)).2.actions := by
  decide +kernel

end Handed
end Acrylius
