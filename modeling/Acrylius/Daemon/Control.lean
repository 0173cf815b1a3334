import Acrylius.Lib.Numbered
import Acrylius.Plugins.Inline
import Acrylius.Plugins.Refusals
import Acrylius.Plugins.Sources

/-! Questions that are asked of a device over the control socket (`acryliusd/src/control.rs`,
`handle_conn` to `plugin_request`): each is put to the loop, and waits on everything the core
announces for what answers it. -/
namespace Acrylius.Control
open Proto Std

inductive Verdict where
  | reply (ty : String) (body : Bytes)
  | refused (message : String)
  | gone
  | ignore
deriving DecidableEq

def verdict (e : UiEvent) (id : DeviceId) (cap : String) (expect : List String) : Verdict :=
  match e with
  | .plugin peer c ty body => if peer = id ∧ c = cap ∧ ty ∈ expect then .reply ty body else .ignore
  | .error peer code detail =>
    if peer = some id then .refused (detail ++ " (" ++ code.asStr ++ ")") else .ignore
  | .peerUnreachable peer => if peer = id then .gone else .ignore
  | _ => .ignore

def machine : ℕ := 15000

def patient : ℕ := 3600000

structure Ask where
  cap : String
  ty : String
  body : Bytes
  /-- The reply verbs worth waiting for; none means fire-and-forget. -/
  expect : List String
  patience : ℕ
deriving DecidableEq

/-- The requests that `plugin_request` serves, the device apart. -/
inductive Question where
  | session (action : String)
  | media (action : String) (player : Option String) (value : Option Int64)
  | clipboard (push : Option String)
  | send (offer : Share.Offer)
  | answer (transfer : TransferId) (accept : Bool)
  | commands
  | run (id : String)
  | wake (mac : String)

def Question.ask (X : Crates) : Question → Option Ask
  | .session action =>
    if action = "query" ∨ action = "lock" ∨ action = "unlock" then
      some ⟨SessionLock.cap, action, [], ["state", "result", "err"], machine⟩
    else none
  | .media action player value =>
    some ⟨Media.cap, action, X.encode (⟨player.getD "", value.getD 0⟩ : Media.MediaCommand),
      ["state", "err"], machine⟩
  | .clipboard (some text) => some ⟨Clipboard.cap, "push", text.toUTF8.toList, [], machine⟩
  | .clipboard none => some ⟨Clipboard.cap, "get", [], ["set", "err"], machine⟩
  | .send offer =>
    some ⟨Share.cap, "offer", X.encode offer, ["finished", "reject", "err"], patient⟩
  | .answer transfer accept =>
    some ⟨Share.cap, if accept then "accept" else "reject",
      X.encode (⟨transfer, accept, ""⟩ : Share.Finished),
      if accept then ["finished", "err"] else [], patient⟩
  | .commands => some ⟨Command.cap, "list", [], ["list"], machine⟩
  | .run id =>
    some ⟨Command.cap, "run", X.encode (⟨id⟩ : Command.RunRequest), ["exited", "err"], machine⟩
  | .wake mac =>
    some ⟨Wol.cap, "relay", X.encode (⟨mac⟩ : Wol.RelayRequest), ["ok", "err"], machine⟩

inductive Response where
  | ok
  | report (ty : String) (body : Bytes)
  | error (message : String)
deriving DecidableEq

structure Waiter where
  id : DeviceId
  ask : Ask
  /-- The number of the event it hears next. -/
  next : ℕ
  /-- When it has waited long enough. -/
  deadline : ℕ
  answer : Option Response
  /-- The number of the first event it could hear. -/
  since : ℕ
  /-- The number of the input that its question became. -/
  handled : Option ℕ

def Waiter.event (r : Waiter) : Event :=
  .localCommand (.plugin r.id r.ask.cap r.ask.ty r.ask.body)

def Waiter.hears (r : Waiter) (e : UiEvent) : Waiter :=
  match verdict e r.id r.ask.cap r.ask.expect with
  | .reply ty body => { r with next := r.next + 1, answer := some (.report ty body) }
  | .refused message => { r with next := r.next + 1, answer := some (.error message) }
  | .gone => { r with next := r.next + 1, answer := some (.error "peer unreachable") }
  | .ignore => { r with next := r.next + 1 }

def backlog : ℕ := 256

/-- Whoever has fallen behind by more hears no more. -/
def Waiter.hear (r : Waiter) (passed : List UiEvent) : Waiter :=
  if r.answer.isSome then r
  else if backlog + r.next < passed.length then
    { r with answer := some (.error "peer unreachable") }
  else match passed[r.next]? with
    | some e => r.hears e
    | none => r

def Waiter.giveUp (r : Waiter) (clock : ℕ) : Waiter :=
  if r.answer.isNone ∧ r.deadline ≤ clock then { r with answer := some (.error "timed out") } else r

structure World (X : Crates) where
  core : Core X (Builtin X)
  /-- What the loop has yet to take, and whose question it is. -/
  events : List (Event × Option ℕ)
  /-- What the core has announced. -/
  told : List UiEvent
  /-- How much of it has been passed on to those who wait. -/
  passed : ℕ
  waiters : List Waiter
  clock : ℕ
  /-- What the core has handled. -/
  inputs : List (Core.Input X)

variable {X : Crates}

namespace World

def new (c : Core X (Builtin X)) : World X where
  core := c
  events := []
  told := []
  passed := 0
  waiters := []
  clock := 0
  inputs := []

def handle (w : World X) (i : Core.Input X) (whose : Option ℕ) : World X :=
  { w with
    core := (w.core.handle i).1
    told := w.told ++ spoken some (w.core.handle i).2.actions
    inputs := w.inputs ++ [i]
    waiters := match whose with
      | some k => w.waiters.modify k fun r => { r with handled := some w.inputs.length }
      | none => w.waiters }

/-- Listen first, then ask. -/
def ask (w : World X) (id : DeviceId) (a : Ask) : World X :=
  let r : Waiter :=
    { id
      ask := a
      next := w.passed
      deadline := w.clock + a.patience
      answer := if a.expect = [] then some .ok else none
      since := w.passed
      handled := none }
  { w with events := w.events ++ [(r.event, some w.waiters.length)], waiters := w.waiters ++ [r] }

end World

inductive Step (X : Crates) where
  /-- Something else for the loop. -/
  | arrive (e : Event)
  | take (now : Now) (seed : X.Seed)
  | tick (now : Now) (seed : X.Seed)
  /-- One more event is passed on. -/
  | pass
  | ask (id : DeviceId) (q : Question)
  | hear (k : ℕ)
  | giveUp (k : ℕ)
  | wait (ms : ℕ)

def step (w : World X) : Step X → World X
  | .arrive e => { w with events := w.events ++ [(e, none)] }
  | .take now seed =>
    match w.events with
    | (e, whose) :: rest => { w with events := rest }.handle ⟨now, seed, e⟩ whose
    | [] => w
  | .tick now seed => w.handle ⟨now, seed, .tick⟩ none
  | .pass => if w.passed < w.told.length then { w with passed := w.passed + 1 } else w
  | .ask id q =>
    match q.ask X with
    | some a => w.ask id a
    | none => w
  | .hear k => { w with waiters := w.waiters.modify k fun r => r.hear (w.told.take w.passed) }
  | .giveUp k => { w with waiters := w.waiters.modify k fun r => r.giveUp w.clock }
  | .wait ms => { w with clock := w.clock + ms }

/-- What a question says to the device; to look at what plays takes no words. -/
def Ask.message (a : Ask) (id : DeviceId) : PendingSend where
  peer := id
  cap := a.cap
  ty := a.ty
  body := if a.cap = Media.cap ∧ a.ty = "query" then [] else a.body
  re := none

/-- What is answered by the device or by what this machine knows of it. A copy is made known to
everybody, an offer is answered by a transfer, and the media plugin takes `notify` for news of its
own host. -/
def Question.direct : Question → Bool
  | .media action _ _ => action ≠ "notify"
  | .clipboard (some _) | .answer .. => false
  | _ => true

section Verdicts
variable {id : DeviceId} {cap : String} {expect : List String}

theorem verdict_reply {ty : String} (body : Bytes) (hty : ty ∈ expect) :
    verdict (.plugin id cap ty body) id cap expect = .reply ty body := if_pos ⟨rfl, rfl, hty⟩

theorem verdict_refused (code : ErrorCode) (detail : String) :
    verdict (.error (some id) code detail) id cap expect =
      .refused (detail ++ " (" ++ code.asStr ++ ")") := if_pos rfl

theorem verdict_gone : verdict (.peerUnreachable id) id cap expect = .gone := if_pos rfl

/-- A reply is an event of the device under that capability, with a verb that is waited for. -/
theorem eq_of_reply {e : UiEvent} {ty : String} {body : Bytes}
    (h : verdict e id cap expect = .reply ty body) : e = .plugin id cap ty body ∧ ty ∈ expect := by
  cases e with
  | plugin peer c ty' body' =>
    unfold verdict at h
    dsimp only at h
    split_ifs at h with hmine
    obtain ⟨rfl, rfl, hty⟩ := hmine
    cases h
    exact ⟨rfl, hty⟩
  | error | peerUnreachable =>
    unfold verdict at h
    dsimp only at h
    split_ifs at h
  | _ => cases h

end Verdicts

/-- The device is spoken of in such a way that a request that waits on it ends. -/
def Ends (a : Ask) (id : DeviceId) (as : List Action) : Prop :=
  ∃ e, .ui e ∈ as ∧ verdict e id a.cap a.expect ≠ .ignore

namespace Ends
variable {a : Ask} {id : DeviceId} {as : List Action}

theorem reply {ty : String} {body : Bytes} (hty : ty ∈ a.expect)
    (h : .ui (.plugin id a.cap ty body) ∈ as) : Ends a id as := by
  refine ⟨_, h, ?_⟩
  rw [verdict_reply body hty]
  exact Verdict.noConfusion

theorem refused {code : ErrorCode} {detail : String}
    (h : .ui (.error (some id) code detail) ∈ as) : Ends a id as := by
  refine ⟨_, h, ?_⟩
  rw [verdict_refused]
  exact Verdict.noConfusion

theorem gone (h : .ui (.peerUnreachable id) ∈ as) : Ends a id as := by
  refine ⟨_, h, ?_⟩
  rw [verdict_gone]
  exact Verdict.noConfusion

end Ends

theorem mem_actions_ui (s : Exec X (Builtin X)) (e : UiEvent) : .ui e ∈ (s.ui e).actions :=
  List.mem_append_right _ (List.mem_singleton_self _)

section Loop
variable {c : Core X (Builtin X)} {i : Core.Input X} {id : DeviceId} {a : Ask}

/-- A message that is handed over goes out, or whoever waits on its peer is told. -/
theorem dispatchSend_told (s : Exec X (Builtin X)) (m : PendingSend) :
    s.core.GoesOut m ∨ Ends a m.peer (s.dispatchSend m).actions := by
  unfold Exec.dispatchSend
  dsimp only
  cases hbest : s.core.bestLink m.peer with
  | none => exact .inr (.gone (mem_actions_ui ..))
  | some e =>
    obtain ⟨l, u⟩ := e
    obtain ⟨-, hpeer⟩ := Core.bestLink_up hbest
    have failed : ∀ {t : Exec X (Builtin X)} (code : ErrorCode) (detail : String),
        Ends a m.peer (t.ui (.error (some u.peer) code detail)).actions := by
      intro t code detail
      rw [hpeer]
      exact .refused (mem_actions_ui ..)
    dsimp only
    by_cases hcap : m.cap ∈ u.canSend
    · rw [if_neg (not_not.mpr hcap)]
      cases hseal : u.session.encrypt (X.encode (m.envelope (s.core.nextMsgId + 1))) with
      | error e => exact .inr (failed ..)
      | ok r =>
        obtain ⟨ct, session⟩ := r
        dsimp only
        by_cases hbig : u.maxMessage < (Frame.join .transport ct).length
        · rw [if_pos hbig]
          exact .inr (failed ..)
        · exact .inl (.intro hbest hcap hseal (Nat.le_of_not_lt hbig))
    · rw [if_pos hcap]
      exact .inr (failed ..)

variable {idx : ℕ} {b : Builtin X}

/-- The context in which the loop puts a question to a plugin. -/
def asking (c : Core X (Builtin X)) (i : Core.Input X) (id : DeviceId) : Cx :=
  ((c.start i).cx i.now.monotonicMs).forPeerLink ((c.start i).core.bulkSupportFor id)

variable (howner : c.plugins.findIdx? (fun p => handles (Plugin.manifest p) a.cap) = some idx)
  (hb : c.plugins[idx]? = some b) (he : i.event = .localCommand (.plugin id a.cap a.ty a.body))

include howner hb he

theorem exec_ok {r : Builtin X} {cx' : Cx}
    (hcall : Plugin.onLocal b (asking c i id) id a.ty a.body = (r, cx', .ok ())) :
    c.exec i = ((c.start i).handOver idx r cx').drainCx cx' := by
  have hexec := Core.exec_request howner hb he
  dsimp only at hexec
  rw [show ((c.start i).cx i.now.monotonicMs).forPeerLink ((c.start i).core.bulkSupportFor id) =
    asking c i id from rfl, hcall] at hexec
  exact hexec

theorem exec_error {r : Builtin X} {cx' : Cx} {e : PluginError}
    (hcall : Plugin.onLocal b (asking c i id) id a.ty a.body = (r, cx', .error e)) :
    c.exec i = (((c.start i).handOver idx r cx').drainCx cx').ui
      (.error (some id) e.code e.toString) := by
  have hexec := Core.exec_request howner hb he
  dsimp only at hexec
  rw [show ((c.start i).cx i.now.monotonicMs).forPeerLink ((c.start i).core.bulkSupportFor id) =
    asking c i id from rfl, hcall] at hexec
  exact hexec

theorem put_sent {r : Builtin X} (hcall : Plugin.onLocal b (asking c i id) id a.ty a.body =
    (r, { asking c i id with sends := [a.message id] }, .ok ())) :
    c.Emits i (a.message id) ∨ Ends a id (c.handle i).2.actions := by
  have hexec := exec_ok howner hb he hcall
  generalize hover : (c.start i).handOver idx r { asking c i id with sends := [a.message id] } = s
    at hexec
  have hnone : s.sends = [] := by
    rw [← hover]
    rfl
  have hsent : c.exec i = s.dispatchSend (a.message id) := hexec
  rcases dispatchSend_told (a := a) s (a.message id) with hout | hends
  · have hsends : (s.dispatchSend (a.message id)).sends = s.sends ++ [(s.core, a.message id)] :=
      congrArg Errands.sends (s.dispatchSend_errands _)
    refine .inl ⟨s.core, ?_, hout⟩
    rw [hsent, hsends, hnone]
    exact List.mem_singleton_self _
  · rw [← hsent] at hends
    exact .inr hends

theorem put_refused {r : Builtin X} {cx' : Cx} {e : PluginError}
    (hcall : Plugin.onLocal b (asking c i id) id a.ty a.body = (r, cx', .error e)) :
    Ends a id (c.handle i).2.actions := by
  have hexec := exec_error howner hb he hcall
  have hmem : Action.ui (.error (some id) e.code e.toString) ∈ (c.exec i).actions := by
    rw [hexec]
    exact mem_actions_ui ..
  exact .refused hmem

theorem put_shown {r : Builtin X} {cx' : Cx} {ty : String} {body : Bytes}
    (hcall : Plugin.onLocal b (asking c i id) id a.ty a.body = (r, cx', .ok ()))
    (hshown : .plugin id a.cap ty body ∈ cx'.ui) (hty : ty ∈ a.expect) (hnot : ty ≠ "err") :
    Ends a id (c.handle i).2.actions := by
  have hexec := exec_ok howner hb he hcall
  have hnamed : UiEvent.named (.plugin id a.cap ty body) = some (.plugin id a.cap ty body) :=
    if_neg hnot
  have hspoken : UiEvent.plugin id a.cap ty body ∈ spoken UiEvent.named (c.exec i).actions := by
    rw [hexec, Exec.drainCx_spoken heeds_named]
    exact List.mem_append_right _ (List.mem_filterMap.mpr ⟨_, hshown, hnamed⟩)
  obtain ⟨act, hmem, hact⟩ := List.mem_filterMap.mp hspoken
  cases act with
  | ui e =>
    obtain rfl := UiEvent.eq_of_named hact
    exact .reply hty hmem
  | _ => cases hact

omit howner hb in
theorem put_unhandled
    (hnone : c.plugins.findIdx? (fun p => handles (Plugin.manifest p) a.cap) = none) :
    Ends a id (c.handle i).2.actions := by
  have hexec : c.exec i = (c.start i).ui
      (.error (some id) .unknownType ("no plugin handles " ++ a.cap)) := by
    have hfind : (c.start i).core.plugins.findIdx? (fun p => handles (Plugin.manifest p) a.cap) =
        none := hnone
    change (c.start i).onEvent i.now.monotonicMs i.seed i.event = _
    rw [he]
    change (c.start i).onLocalPlugin i.now.monotonicMs id a.cap a.ty a.body = _
    unfold Exec.onLocalPlugin
    rw [hfind]
  have hmem : Action.ui (.error (some id) .unknownType ("no plugin handles " ++ a.cap)) ∈
      (c.exec i).actions := by
    rw [hexec]
    exact mem_actions_ui ..
  exact .refused hmem

end Loop

section Questions
variable {c : Core X (Builtin X)} {i : Core.Input X} {id : DeviceId} {a : Ask} {idx : ℕ}

theorem put_media {p : MediaPlugin X} {action : String} {player : Option String}
    {value : Option Int64} (hq : (Question.media action player value).ask X = some a)
    (hverb : action ≠ "notify")
    (howner : c.plugins.findIdx? (fun p => handles (Plugin.manifest p) a.cap) = some idx)
    (hb : c.plugins[idx]? = some (.media p))
    (he : i.event = .localCommand (.plugin id a.cap a.ty a.body)) :
    c.Emits i (a.message id) ∨ Ends a id (c.handle i).2.actions := by
  obtain rfl := Option.some.inj hq
  have hhook : Plugin.onLocal (Builtin.media p) (asking c i id) id action
      (X.encode (⟨player.getD "", value.getD 0⟩ : Media.MediaCommand)) =
        Builtin.boxed .media (p.onLocal (asking c i id) id action
          (X.encode (⟨player.getD "", value.getD 0⟩ : Media.MediaCommand))) := rfl
  unfold MediaPlugin.onLocal at hhook
  split at hhook
  · exact absurd rfl hverb
  · exact put_sent howner hb he hhook
  · rename_i hquery
    split at hhook
    · exact .inr (put_refused howner hb he hhook)
    · split at hhook
      · exact .inr (put_refused howner hb he hhook)
      · refine put_sent howner hb he (r := .media p) (hhook.trans ?_)
        unfold Ask.message
        dsimp only
        rw [if_neg fun h => hquery h.2]
        rfl

theorem put_offer {p : SharePlugin X} {offer : Share.Offer}
    (hq : (Question.send offer).ask X = some a)
    (howner : c.plugins.findIdx? (fun p => handles (Plugin.manifest p) a.cap) = some idx)
    (hb : c.plugins[idx]? = some (.share p))
    (he : i.event = .localCommand (.plugin id a.cap a.ty a.body)) :
    c.Emits i (a.message id) ∨ Ends a id (c.handle i).2.actions := by
  obtain rfl := Option.some.inj hq
  have hhook : Plugin.onLocal (Builtin.share p) (asking c i id) id "offer" (X.encode offer) =
      Builtin.boxed .share (p.localOffer (asking c i id) id (X.encode offer)) := rfl
  unfold SharePlugin.localOffer at hhook
  rw [X.decode_encode] at hhook
  dsimp only at hhook
  split_ifs at hhook
  · exact .inr (put_refused howner hb he hhook)
  · have hlast : ∀ {es : List UiEvent} {e : UiEvent}, e ∈ es ++ [e] :=
      List.mem_append_right _ (List.mem_singleton_self _)
    exact .inr (put_shown howner hb he hhook hlast
      (List.mem_cons_of_mem _ List.mem_cons_self) (by decide))
  · exact put_sent howner hb he hhook

/-- A question of the socket goes out to the device, or ends in the step that takes it. -/
theorem put_to_device {q : Question} (hq : q.ask X = some a) (hdirect : q.direct)
    (he : i.event = .localCommand (.plugin id a.cap a.ty a.body)) :
    c.Emits i (a.message id) ∨ Ends a id (c.handle i).2.actions := by
  cases howner : c.plugins.findIdx? fun p => handles (Plugin.manifest p) a.cap with
  | none => exact .inr (put_unhandled he howner)
  | some idx =>
    obtain ⟨hlt, hhandles, -⟩ := List.findIdx?_eq_some_iff_getElem.mp howner
    have hb : c.plugins[idx]? = some c.plugins[idx] := List.getElem?_eq_getElem hlt
    have hcap : a.cap = c.plugins[idx].cap := (c.plugins[idx].handles_iff _).mp hhandles
    generalize c.plugins[idx] = b at hb hcap
    cases q with
    | session action =>
      unfold Question.ask at hq
      dsimp only at hq
      split_ifs at hq with hverb
      obtain rfl := Option.some.inj hq
      cases b with
      | session p =>
        refine put_sent howner hb he (r := .session p) ?_
        rcases hverb with rfl | rfl | rfl
        · rfl
        · rfl
        · rfl
      | _ =>
        dsimp only [Builtin.cap] at hcap
        exact absurd hcap (by decide)
    | media action player value =>
      have hverb : action ≠ "notify" := by simpa [Question.direct] using hdirect
      cases b with
      | media p => exact put_media hq hverb howner hb he
      | _ =>
        obtain rfl := Option.some.inj hq
        dsimp only [Builtin.cap] at hcap
        exact absurd hcap (by decide)
    | clipboard push =>
      cases push with
      | some text => cases hdirect
      | none =>
        obtain rfl := Option.some.inj hq
        cases b with
        | clipboard p => exact put_sent howner hb he (r := .clipboard p) rfl
        | _ =>
          dsimp only [Builtin.cap] at hcap
          exact absurd hcap (by decide)
    | send offer =>
      cases b with
      | share p => exact put_offer hq howner hb he
      | _ =>
        obtain rfl := Option.some.inj hq
        dsimp only [Builtin.cap] at hcap
        exact absurd hcap (by decide)
    | answer => cases hdirect
    | commands =>
      obtain rfl := Option.some.inj hq
      cases b with
      | command p =>
        have hlisted := put_shown howner hb he (r := .command p) rfl
          (List.mem_append_right _ (List.mem_singleton_self _)) (List.mem_singleton_self _)
          (by decide)
        exact .inr hlisted
      | _ =>
        dsimp only [Builtin.cap] at hcap
        exact absurd hcap (by decide)
    | run cmd =>
      obtain rfl := Option.some.inj hq
      cases b with
      | command p => exact put_sent howner hb he (r := .command p) rfl
      | _ =>
        dsimp only [Builtin.cap] at hcap
        exact absurd hcap (by decide)
    | wake mac =>
      obtain rfl := Option.some.inj hq
      cases b with
      | wol p => exact put_sent howner hb he (r := .wol p) rfl
      | _ =>
        dsimp only [Builtin.cap] at hcap
        exact absurd hcap (by decide)

end Questions

def announcements (c : Core X (Builtin X)) : List (Core.Input X) → List UiEvent
  | [] => []
  | i :: is => spoken some (c.handle i).2.actions ++ announcements (c.step i) is

theorem announcements_append (c : Core X (Builtin X)) (is js : List (Core.Input X)) :
    announcements c (is ++ js) = announcements c is ++ announcements (c.run is) js := by
  induction is generalizing c with
  | nil => rfl
  | cons i is ih =>
    have hstep := ih (c.step i)
    change _ ++ announcements (c.step i) (is ++ js) = (_ ++ announcements (c.step i) is) ++ _
    rw [hstep, List.append_assoc]
    rfl

theorem announcements_one (c : Core X (Builtin X)) (i : Core.Input X) :
    announcements c [i] = spoken some (c.handle i).2.actions := List.append_nil _

theorem mem_spoken {e : UiEvent} {as : List Action} : e ∈ spoken some as ↔ .ui e ∈ as := by
  constructor
  · intro h
    obtain ⟨a, ha, hact⟩ := List.mem_filterMap.mp h
    cases a with
    | ui e' =>
      cases hact
      exact ha
    | _ => cases hact
  · exact fun h => List.mem_filterMap.mpr ⟨_, h, rfl⟩

theorem step_of_announced {c : Core X (Builtin X)} {is : List (Core.Input X)} {n : ℕ} {e : UiEvent}
    (h : (announcements c is)[n]? = some e) : ∃ before i after, is = before ++ i :: after ∧
      (announcements c before).length ≤ n ∧ (announcements c (before ++ [i]))[n]? = some e ∧
      .ui e ∈ ((c.run before).handle i).2.actions := by
  induction is using List.reverseRecOn with
  | nil => cases h
  | append_singleton is i ih =>
    have hlast := h
    rw [announcements_append, announcements_one] at h
    by_cases hn : n < (announcements c is).length
    · rw [List.getElem?_append_left hn] at h
      obtain ⟨before, j, after, rfl, hle, hat, hmem⟩ := ih h
      exact ⟨before, j, after ++ [i], by rw [List.append_assoc, List.cons_append], hle, hat, hmem⟩
    · have hle := Nat.le_of_not_lt hn
      rw [List.getElem?_append_right hle] at h
      exact ⟨is, i, [], rfl, hle, hlast, mem_spoken.mp (List.mem_of_getElem? h)⟩

section Runs
variable {c₀ : Core X (Builtin X)} {w : World X}

structure Waiter.Sound (c₀ : Core X (Builtin X)) (told : List UiEvent)
    (inputs : List (Core.Input X)) (r : Waiter) : Prop where
  since : r.since ≤ r.next
  next : r.next ≤ told.length
  silent : r.answer = none → ∀ n e, r.since ≤ n → n < r.next → told[n]? = some e →
    verdict e r.id r.ask.cap r.ask.expect = .ignore
  replied : ∀ ty body, r.answer = some (.report ty body) → ∃ n e, r.since ≤ n ∧
    told[n]? = some e ∧ verdict e r.id r.ask.cap r.ask.expect = .reply ty body
  put : ∀ n, r.handled = some n → ∃ before i after, inputs = before ++ i :: after ∧
    before.length = n ∧ i.event = r.event ∧ r.since ≤ (announcements c₀ before).length

namespace Waiter.Sound
variable {told : List UiEvent} {inputs : List (Core.Input X)} {r : Waiter}

/-- Time goes on. -/
theorem grow (h : r.Sound c₀ told inputs) (es : List UiEvent) (is : List (Core.Input X)) :
    r.Sound c₀ (told ++ es) (inputs ++ is) where
  since := h.since
  next := by
    have hnext := h.next
    rw [List.length_append]
    omega
  silent hwait n e hfrom hlt he := by
    rw [List.getElem?_append_left (Nat.lt_of_lt_of_le hlt h.next)] at he
    exact h.silent hwait n e hfrom hlt he
  replied ty body hans := by
    obtain ⟨n, e, hfrom, he, hreply⟩ := h.replied ty body hans
    obtain ⟨hlt, -⟩ := List.getElem?_eq_some_iff.mp he
    exact ⟨n, e, hfrom, (List.getElem?_append_left hlt).trans he, hreply⟩
  put n hdone := by
    obtain ⟨before, i, after, rfl, hrest⟩ := h.put n hdone
    exact ⟨before, i, after ++ is, by rw [List.append_assoc, List.cons_append], hrest⟩

theorem failed (h : r.Sound c₀ told inputs) (message : String) :
    Waiter.Sound c₀ told inputs { r with answer := some (.error message) } :=
  ⟨h.since, h.next, fun hwait => (by cases hwait), fun _ _ hans => (by cases hans), h.put⟩

theorem hears (h : r.Sound c₀ told inputs) (hwait : r.answer = none) {e : UiEvent}
    (he : told[r.next]? = some e) : (r.hears e).Sound c₀ told inputs := by
  obtain ⟨hlt, -⟩ := List.getElem?_eq_some_iff.mp he
  have on : ∀ {answer : Option Response}, (answer = none → ∀ n e, r.since ≤ n → n < r.next + 1 →
        told[n]? = some e → verdict e r.id r.ask.cap r.ask.expect = .ignore) →
      (∀ ty body, answer = some (.report ty body) →
        verdict e r.id r.ask.cap r.ask.expect = .reply ty body) →
      Waiter.Sound c₀ told inputs { r with next := r.next + 1, answer } :=
    fun hsilent hreply => ⟨Nat.le_succ_of_le h.since, hlt, hsilent,
      fun ty body hans => ⟨r.next, e, h.since, he, hreply ty body hans⟩, h.put⟩
  unfold Waiter.hears
  cases hv : verdict e r.id r.ask.cap r.ask.expect with
  | reply ty body =>
    refine on (fun hnone => by cases hnone) fun ty' body' hans => ?_
    cases hans
    exact hv
  | refused message => exact on (fun hnone => by cases hnone) fun _ _ hans => by cases hans
  | gone => exact on (fun hnone => by cases hnone) fun _ _ hans => by cases hans
  | ignore =>
    refine on (fun _ n e' hfrom hn he' => ?_) fun ty body hans => ?_
    · rcases Nat.lt_succ_iff_lt_or_eq.mp hn with hn | rfl
      · exact h.silent hwait n e' hfrom hn he'
      · obtain rfl := Option.some.inj (he.symm.trans he')
        exact hv
    · rw [hwait] at hans
      cases hans

theorem hear (h : r.Sound c₀ told inputs) (passed : ℕ) :
    (r.hear (told.take passed)).Sound c₀ told inputs := by
  unfold Waiter.hear
  cases hwait : r.answer with
  | some answer => exact h
  | none =>
    rw [if_neg (by decide)]
    split_ifs
    · exact h.failed _
    · split
      · rename_i e he
        have htold : told[r.next]? = some e := by
          obtain ⟨hlt, -⟩ := List.getElem?_eq_some_iff.mp he
          rw [List.length_take] at hlt
          rw [← he, List.getElem?_take_of_lt (by omega)]
        exact h.hears hwait htold
      · exact h

theorem giveUp (h : r.Sound c₀ told inputs) (clock : ℕ) :
    (r.giveUp clock).Sound c₀ told inputs := by
  unfold Waiter.giveUp
  split_ifs
  · exact h.failed _
  · exact h

end Waiter.Sound

structure World.Sound (c₀ : Core X (Builtin X)) (w : World X) : Prop where
  core : w.core = c₀.run w.inputs
  told : w.told = announcements c₀ w.inputs
  passed : w.passed ≤ w.told.length
  events : ∀ e k, (e, some k) ∈ w.events → ∃ r, w.waiters[k]? = some r ∧ e = r.event
  waiters : ∀ (k : ℕ) (r : Waiter), w.waiters[k]? = some r → r.Sound c₀ w.told w.inputs

theorem event_modify {rs : List Waiter} {f : Waiter → Waiter} (hf : ∀ r, (f r).event = r.event)
    {k j : ℕ} {e : Event} (h : ∃ r, rs[k]? = some r ∧ e = r.event) :
    ∃ r, (rs.modify j f)[k]? = some r ∧ e = r.event := by
  obtain ⟨r, hr, rfl⟩ := h
  rw [List.getElem?_modify, hr]
  refine ⟨_, rfl, ?_⟩
  dsimp only
  split_ifs
  · exact (hf r).symm
  · rfl

theorem event_hear (r : Waiter) (passed : List UiEvent) : (r.hear passed).event = r.event := by
  unfold Waiter.hear
  split_ifs
  · rfl
  · rfl
  · split
    · unfold Waiter.hears
      split <;> rfl
    · rfl

theorem event_giveUp (r : Waiter) (clock : ℕ) : (r.giveUp clock).event = r.event := by
  unfold Waiter.giveUp
  split_ifs <;> rfl

namespace World.Sound

theorem new (c₀ : Core X (Builtin X)) : (World.new c₀).Sound c₀ where
  core := rfl
  told := rfl
  passed := Nat.le_refl 0
  events := fun _ _ he => by cases he
  waiters := fun _ _ hr => by cases hr

theorem modify (h : w.Sound c₀) (k : ℕ) {f : Waiter → Waiter} (hf : ∀ r, (f r).event = r.event)
    (hsound : ∀ r : Waiter, r.Sound c₀ w.told w.inputs → (f r).Sound c₀ w.told w.inputs) :
    World.Sound c₀ { w with waiters := w.waiters.modify k f } where
  core := h.core
  told := h.told
  passed := h.passed
  events e k' he := event_modify hf (h.events e k' he)
  waiters j r hr := by
    obtain ⟨r₀, hr₀, ⟨-, rfl⟩ | ⟨-, rfl⟩⟩ := Lib.getElem?_modify_cases hr
    · exact hsound r₀ (h.waiters j r₀ hr₀)
    · exact h.waiters j r hr₀

theorem handle (h : w.Sound c₀) (i : Core.Input X) {whose : Option ℕ}
    (hwhose : ∀ k, whose = some k → ∃ r, w.waiters[k]? = some r ∧ i.event = r.event) :
    (w.handle i whose).Sound c₀ := by
  have htold : announcements c₀ (w.inputs ++ [i]) =
      w.told ++ spoken some (w.core.handle i).2.actions := by
    rw [announcements_append, announcements_one, ← h.core, ← h.told]
  have hcore : (w.core.handle i).1 = c₀.run (w.inputs ++ [i]) := by
    rw [Core.run_append, ← h.core]
    rfl
  have hpassed : w.passed ≤ (w.told ++ spoken some (w.core.handle i).2.actions).length := by
    have hle := h.passed
    rw [List.length_append]
    omega
  have hold : ∀ (k : ℕ) (r : Waiter), w.waiters[k]? = some r →
      r.Sound c₀ (w.told ++ spoken some (w.core.handle i).2.actions) (w.inputs ++ [i]) :=
    fun k r hr => (h.waiters k r hr).grow _ _
  cases whose with
  | none => exact ⟨hcore, htold.symm, hpassed, h.events, hold⟩
  | some k =>
    obtain ⟨r, hr, he⟩ := hwhose k rfl
    have hevents : ∀ e k', (e, some k') ∈ w.events →
        ∃ r, (w.handle i (some k)).waiters[k']? = some r ∧ e = r.event :=
      fun e k' he' => event_modify (f := fun r => { r with handled := some w.inputs.length })
        (fun _ => rfl) (h.events e k' he')
    refine ⟨hcore, htold.symm, hpassed, hevents, fun j r' hr' => ?_⟩
    obtain ⟨r₀, hr₀, ⟨rfl, rfl⟩ | ⟨-, rfl⟩⟩ := Lib.getElem?_modify_cases hr'
    · obtain rfl := Option.some.inj (hr.symm.trans hr₀)
      have hsound := hold k r hr
      refine ⟨hsound.since, hsound.next, hsound.silent, hsound.replied, fun n hn => ?_⟩
      obtain rfl := Option.some.inj hn
      refine ⟨w.inputs, i, [], rfl, rfl, he, ?_⟩
      rw [← h.told]
      exact Nat.le_trans (h.waiters k r hr).since (h.waiters k r hr).next
    · exact hold j r' hr₀

theorem ask (h : w.Sound c₀) (id : DeviceId) (a : Ask) : (w.ask id a).Sound c₀ := by
  refine ⟨h.core, h.told, h.passed, fun e k he => ?_, fun k r hr => ?_⟩
  · rcases List.mem_append.mp he with he | he
    · obtain ⟨r, hr, rfl⟩ := h.events e k he
      obtain ⟨hlt, -⟩ := List.getElem?_eq_some_iff.mp hr
      exact ⟨r, (List.getElem?_append_left hlt).trans hr, rfl⟩
    · cases List.mem_singleton.mp he
      exact ⟨_, List.getElem?_concat_length, rfl⟩
  · rcases Lib.getElem?_concat hr with ⟨-, hr⟩ | ⟨-, rfl⟩
    · exact h.waiters k r hr
    · refine ⟨Nat.le_refl _, h.passed, fun _ n e hfrom hlt => ?_, fun ty body hans => ?_,
        fun n hn => ?_⟩
      · exact absurd hlt (Nat.not_lt.mpr hfrom)
      · dsimp only at hans
        split_ifs at hans
        cases hans
      · cases hn

theorem step (h : w.Sound c₀) (s : Step X) : (Control.step w s).Sound c₀ := by
  cases s with
  | arrive e =>
    refine ⟨h.core, h.told, h.passed, fun e' k he => ?_, h.waiters⟩
    rcases List.mem_append.mp he with he | he
    · exact h.events e' k he
    · cases List.mem_singleton.mp he
  | take now seed =>
    unfold Control.step
    dsimp only
    cases hevents : w.events with
    | nil => exact h
    | cons first rest =>
      obtain ⟨e, whose⟩ := first
      have hrest : World.Sound c₀ { w with events := rest } := by
        refine ⟨h.core, h.told, h.passed, fun e' k he => h.events e' k ?_, h.waiters⟩
        rw [hevents]
        exact List.mem_cons_of_mem _ he
      refine hrest.handle _ ?_
      rintro k rfl
      refine h.events e k ?_
      rw [hevents]
      exact List.mem_cons_self
  | tick now seed =>
    have hnobody : ∀ k, (none : Option ℕ) = some k →
        ∃ r, w.waiters[k]? = some r ∧ Event.tick = r.event := by
      intro k hnone
      cases hnone
    exact h.handle ⟨now, seed, .tick⟩ hnobody
  | pass =>
    unfold Control.step
    dsimp only
    split_ifs with hlt
    · exact ⟨h.core, h.told, hlt, h.events, h.waiters⟩
    · exact h
  | ask id q =>
    unfold Control.step
    dsimp only
    cases q.ask X with
    | none => exact h
    | some a => exact h.ask id a
  | hear k => exact h.modify k (fun r => event_hear r _) fun r hr => hr.hear w.passed
  | giveUp k => exact h.modify k (fun r => event_giveUp r _) fun r hr => hr.giveUp w.clock
  | wait ms => exact ⟨h.core, h.told, h.passed, h.events, h.waiters⟩

theorem run (c₀ : Core X (Builtin X)) (ss : List (Step X)) :
    (Lib.run Control.step (World.new c₀) ss).Sound c₀ :=
  Lib.run_inv (fun _ s h => h.step s) (new c₀) ss

end World.Sound
end Runs

section Questions
open Mock

/-- What is reported to whoever asks was announced since, for the device and under the capability
that were asked, with a verb that was waited for; but for errors, it comes from that device over
their session, or from what this machine knows of the transfer or the commands itself. -/
theorem reports_answer_the_question (c₀ : Core X (Builtin X)) (ss : List (Step X)) {r : Waiter}
    (hr : r ∈ (Lib.run step (World.new c₀) ss).waiters) {ty : String} {body : Bytes}
    (hans : r.answer = some (.report ty body)) :
    ty ∈ r.ask.expect ∧ ∃ before i after n,
      (Lib.run step (World.new c₀) ss).inputs = before ++ i :: after ∧
      (announcements c₀ before).length ≤ n ∧ r.since ≤ n ∧
      (announcements c₀ (before ++ [i]))[n]? = some (.plugin r.id r.ask.cap ty body) ∧
      .ui (.plugin r.id r.ask.cap ty body) ∈ ((c₀.run before).handle i).2.actions ∧
      (ty ≠ "err" → (c₀.run before).Source i (.plugin r.id r.ask.cap ty body)) := by
  have hsound := World.Sound.run c₀ ss
  obtain ⟨k, hk⟩ := List.mem_iff_getElem?.mp hr
  obtain ⟨n, e, hfrom, he, hreply⟩ := (hsound.waiters k r hk).replied ty body hans
  obtain ⟨rfl, hty⟩ := eq_of_reply hreply
  rw [hsound.told] at he
  obtain ⟨before, i, after, hinputs, hle, hat, hmem⟩ := step_of_announced he
  exact ⟨hty, before, i, after, n, hinputs, hle, hfrom, hat, hmem,
    fun hnot => Core.source_of_shown hnot hmem⟩

def lockAsked : List (Step crates) := [.ask phone (.session "lock"), .take ⟨2, 2⟩ (0 : UInt8)]

def lockAnswered : List (Step crates) :=
  lockAsked ++ [.arrive (phoneSeals (lockingLaptop.build.run lockingPhone)
      ⟨wireVersion, 8, some 1, SessionLock.cap, "result", [], 0, none⟩),
    .take ⟨3, 3⟩ (0 : UInt8), .pass, .hear 0]

theorem lock_is_reported :
    let c₀ := lockingLaptop.build.run lockingPhone
    let w := Lib.run step (World.new c₀) lockAnswered
    ∃ r ∈ w.waiters, r.answer = some (.report "result" []) ∧ "result" ∈ r.ask.expect ∧
      ∃ before i after, w.inputs = before ++ i :: after ∧
        (c₀.run before).Source i (.plugin r.id r.ask.cap "result" []) := by
  intro c₀ w
  obtain ⟨r, hr, hans⟩ : ∃ r ∈ w.waiters, r.answer = some (.report "result" []) := by
    decide +kernel
  obtain ⟨hexpect, before, i, after, n, hinputs, -, -, -, -, hsource⟩ :=
    reports_answer_the_question c₀ lockAnswered hr hans
  have hnot : "result" ≠ "err" := by decide
  exact ⟨r, hr, hans, hexpect, before, i, after, hinputs, hsource hnot⟩

/-- Nobody waits for nothing: once the loop has taken the question, it has gone out to the device,
or what ends the wait is among what is announced and not yet heard. -/
theorem waits_are_for_something (c₀ : Core X (Builtin X)) (ss : List (Step X)) {r : Waiter}
    (hr : r ∈ (Lib.run step (World.new c₀) ss).waiters) {q : Question} (hq : q.ask X = some r.ask)
    (hdirect : q.direct) (hwait : r.answer = none) {n : ℕ} (hdone : r.handled = some n) :
    ∃ before i after, (Lib.run step (World.new c₀) ss).inputs = before ++ i :: after ∧
      before.length = n ∧ i.event = r.event ∧
      ((c₀.run before).Emits i (r.ask.message r.id) ∨
        ∃ m e, r.next ≤ m ∧ (Lib.run step (World.new c₀) ss).told[m]? = some e ∧
          verdict e r.id r.ask.cap r.ask.expect ≠ .ignore) := by
  have hsound := World.Sound.run c₀ ss
  obtain ⟨k, hk⟩ := List.mem_iff_getElem?.mp hr
  have hheard := hsound.waiters k r hk
  obtain ⟨before, i, after, hinputs, hlen, he, hsince⟩ := hheard.put n hdone
  refine ⟨before, i, after, hinputs, hlen, he, ?_⟩
  rcases put_to_device (c := c₀.run before) hq hdirect he with hout | ⟨e, hmem, hends⟩
  · exact .inl hout
  · -- What ends it is announced after the question was put, so it would have been heard.
    obtain ⟨j, hj⟩ := List.mem_iff_getElem?.mp (mem_spoken.mpr hmem)
    obtain ⟨hjlt, -⟩ := List.getElem?_eq_some_iff.mp hj
    have htold : (Lib.run step (World.new c₀) ss).told[(announcements c₀ before).length + j]? =
        some e := by
      rw [hsound.told, hinputs, announcements_append,
        List.getElem?_append_right (Nat.le_add_right ..), Nat.add_sub_cancel_left]
      exact (List.getElem?_append_left hjlt).trans hj
    refine .inr ⟨_, e, Nat.le_of_not_lt fun hlt => ?_, htold, hends⟩
    exact hends (hheard.silent hwait _ e (Nat.le_add_right_of_le hsince) hlt htold)

/-- Nothing has been announced, so the question is on its way. -/
theorem lock_is_waited_for :
    let c₀ := lockingLaptop.build.run lockingPhone
    let w := Lib.run step (World.new c₀) lockAsked
    ∃ r ∈ w.waiters, r.answer = none ∧ ∃ before i after, w.inputs = before ++ i :: after ∧
      (c₀.run before).Emits i (r.ask.message r.id) := by
  intro c₀ w
  obtain ⟨r, hr, hask, hwait, hdone⟩ : ∃ r ∈ w.waiters,
      Question.ask crates (.session "lock") = some r.ask ∧ r.answer = none ∧
        r.handled = some 0 := by
    decide +kernel
  have hsilent : w.told.length = 0 := by decide +kernel
  obtain ⟨before, i, after, hinputs, -, -, hout | ⟨m, e, -, htold, -⟩⟩ :=
    waits_are_for_something c₀ lockAsked hr hask rfl hwait hdone
  · exact ⟨r, hr, hwait, before, i, after, hinputs, hout⟩
  · rw [List.eq_nil_of_length_eq_zero hsilent] at htold
    cases htold

end Questions
end Acrylius.Control
