import Acrylius.Plugins.Builtin
import Acrylius.Plugins.Moves

/-! What a call of a built-in plugin can do, for those who wait on an answer: say something
nobody asked for, ask the host for one thing, or answer a request. -/
namespace Acrylius
open Proto Std

variable {X : Crates} {P Q : Type}

abbrev Asker := DeviceId × UInt32

/-- The host is asked for one thing, under the next token, and nothing is said. -/
structure Cx.Asks (cx cx' : Cx) (e : Effect) : Prop where
  sends : cx'.sends = cx.sends
  effects : cx'.effects = cx.effects ++ [(cx.nextToken + 1, e)]
  token : cx'.nextToken = cx.nextToken + 1

/-- Messages are queued, and the host is asked for nothing. -/
structure Cx.Queues (cx cx' : Cx) (ms : List PendingSend) : Prop where
  sends : cx'.sends = cx.sends ++ ms
  effects : cx'.effects = cx.effects
  token : cx'.nextToken = cx.nextToken

def PendingSend.Idle (m : PendingSend) : Prop := m.re = none ∧ m.ty ≠ "err"

/-- A message that answers `who`, in a form every receiver can read. -/
structure PendingSend.Answers (X : Crates) (m : PendingSend) (who : Asker) : Prop where
  peer : m.peer = who.1
  re : m.re = some who.2
  format : m.ty = "err" → ∃ (code : ErrorCode) (message : String),
    m.body = X.encode ({ code := code.asStr, message } : ErrorBody)

/-- What a call does, where `awaits` tells for which effect which request is waiting. -/
inductive Act (X : Crates) (awaits : P → EffectToken → Option Asker) (p : P) (cx : Cx) :
    Call → P → Cx → Prop where
  | told {c p' cx'} (ms : List PendingSend) (queued : cx.Queues cx' ms) (idle : ∀ m ∈ ms, m.Idle)
      (waiting : awaits p' = awaits p)
      (free : ∀ token result, c = .effectResult token result → awaits p token = none) :
      Act X awaits p cx c p' cx'
  | wanted {peer env e p' cx'} (asks : cx.Asks cx' e)
      (waiting : awaits p' = Function.update (awaits p) (cx.nextToken + 1) (some (peer, env.id))) :
      Act X awaits p cx (.message peer env) p' cx'
  | wished {c e p' cx'} (asks : cx.Asks cx' e) (other : ∀ token result, c ≠ .effectResult token result)
      (waiting : awaits p' = awaits p ∨
        awaits p' = Function.update (awaits p) (cx.nextToken + 1) none) :
      Act X awaits p cx c p' cx'
  | settled {token result who m p' cx'} (ms : List PendingSend) (asked : awaits p token = some who)
      (queued : cx.Queues cx' (ms ++ [m])) (idle : ∀ m ∈ ms, m.Idle) (answers : m.Answers X who)
      (waiting : awaits p' = Function.update (awaits p) token none) :
      Act X awaits p cx (.effectResult token result) p' cx'
  | replied {c m p' cx'} (queued : cx.Queues cx' [m]) (plain : m.ty ≠ "err")
      (other : ∀ token result, c ≠ .effectResult token result) (waiting : awaits p' = awaits p) :
      Act X awaits p cx c p' cx'

namespace Cx

theorem Queues.refl (cx : Cx) : cx.Queues cx [] := ⟨(List.append_nil _).symm, rfl, rfl⟩

theorem Queues.emit (cx : Cx) (e : UiEvent) : cx.Queues (cx.emit e) [] :=
  ⟨(List.append_nil _).symm, rfl, rfl⟩

theorem Queues.send (cx : Cx) (peer : DeviceId) (cap ty : String) (body : Bytes) :
    cx.Queues (cx.send peer cap ty body) [unsolicited cap ty body peer] := ⟨rfl, rfl, rfl⟩

theorem Queues.tell (cx : Cx) (peers : List DeviceId) (alreadyTold : Option DeviceId)
    (cap ty : String) (body : Bytes) : cx.Queues (cx.tell peers alreadyTold cap ty body)
      ((others peers alreadyTold).map (unsolicited cap ty body)) := by
  rw [tell_eq]
  exact ⟨rfl, rfl, rfl⟩

theorem Queues.reply {cx cx' : Cx} {ms : List PendingSend} (h : cx.Queues cx' ms) (peer : DeviceId)
    (cap ty : String) (body : Bytes) (re : UInt32) : cx.Queues (cx'.sendReply peer cap ty body re)
      (ms ++ [{ peer, cap, ty, body, re := some re }]) :=
  ⟨by rw [sendReply, h.sends, List.append_assoc], h.effects, h.token⟩

theorem Asks.effect (cx : Cx) (e : Effect) : cx.Asks (cx.effect e).1 e := ⟨rfl, rfl, rfl⟩

end Cx

theorem PendingSend.idle_unsolicited {cap ty : String} {body : Bytes} (hty : ty ≠ "err")
    (peers : List DeviceId) : ∀ m ∈ peers.map (Cx.unsolicited cap ty body), m.Idle := by
  intro m hm
  obtain ⟨p, -, rfl⟩ := List.mem_map.mp hm
  exact ⟨rfl, hty⟩

namespace Act
variable {awaits : P → EffectToken → Option Asker} {p p' : P} {cx cx' : Cx} {c : Call}

theorem silent (queued : cx.Queues cx' []) (waiting : awaits p' = awaits p)
    (free : ∀ token result, c = .effectResult token result → awaits p token = none) :
    Act X awaits p cx c p' cx' :=
  .told [] queued (fun _ h => absurd h List.not_mem_nil) waiting free

theorem idle (p : P) (cx : Cx) (c : Call)
    (free : ∀ token result, c = .effectResult token result → awaits p token = none) :
    Act X awaits p cx c p cx := .silent (.refl cx) rfl free

theorem sent {peer : DeviceId} {cap ty : String} {body : Bytes} (hty : ty ≠ "err")
    (waiting : awaits p' = awaits p)
    (free : ∀ token result, c = .effectResult token result → awaits p token = none) :
    Act X awaits p cx c p' (cx.send peer cap ty body) :=
  .told _ (.send cx peer cap ty body)
    (fun m hm => by rw [List.mem_singleton.mp hm]; exact ⟨rfl, hty⟩) waiting free

theorem box {awaits' : Q → EffectToken → Option Asker} (f : P → Q)
    (hf : ∀ p, awaits' (f p) = awaits p) (h : Act X awaits p cx c p' cx') :
    Act X awaits' (f p) cx c (f p') cx' := by
  cases h with
  | told ms queued idle waiting free =>
    exact .told ms queued idle (by rw [hf, hf, waiting]) fun token result hc => by
      rw [hf, free token result hc]
  | wanted asks waiting => exact .wanted asks (by rw [hf, hf, waiting])
  | wished asks other waiting => exact .wished asks other (by rw [hf, hf]; exact waiting)
  | settled ms asked queued idle answers waiting =>
    exact .settled ms (by rw [hf, asked]) queued idle answers (by rw [hf, hf, waiting])
  | replied queued plain other waiting =>
    exact .replied queued plain other (by rw [hf, hf, waiting])

end Act

def tabled {α : Type} (pending : P → ExtTreeMap EffectToken α) (asker : α → Option Asker) (p : P)
    (t : EffectToken) : Option Asker :=
  ((pending p)[t]?).bind asker

namespace Act
variable {α : Type} {pending : P → ExtTreeMap EffectToken α} {asker : α → Option Asker} {p p' : P}
  {cx cx' : Cx} {c : Call} {w : α} {who : Asker} {token : EffectToken} {result : EffectResult}

theorem tabled_insert {n : ℕ} (h : pending p' = (pending p).insert n w) :
    tabled pending asker p' = Function.update (tabled pending asker p) n (asker w) := by
  funext t
  unfold tabled
  rw [h]
  by_cases ht : t = n
  · subst ht
    rw [ExtTreeMap.getElem?_insert_self, Function.update_self]
    rfl
  · rw [Lib.getElem?_insert_of_ne ht, Function.update_of_ne ht]

theorem tabled_erase {n : ℕ} (h : pending p' = (pending p).erase n) :
    tabled pending asker p' = Function.update (tabled pending asker p) n none := by
  funext t
  unfold tabled
  rw [h]
  by_cases ht : t = n
  · subst ht
    rw [ExtTreeMap.getElem?_erase_self, Function.update_self]
    rfl
  · rw [Lib.getElem?_erase_of_ne ht, Function.update_of_ne ht]

/-- A request is filed under the token of the effect it asks for. -/
theorem filed {peer : DeviceId} {env : Envelope} (e : Effect)
    (h : pending p' = (pending p).insert (cx.nextToken + 1) w) (hw : asker w = some (peer, env.id)) :
    Act X (tabled pending asker) p cx (.message peer env) p' (cx.effect e).1 :=
  .wanted (.effect cx e) (by rw [tabled_insert h, hw])

/-- A poll of this device's own is filed as well, but for nobody. -/
theorem polled (e : Effect) (h : pending p' = (pending p).insert (cx.nextToken + 1) w)
    (hw : asker w = none) (other : ∀ token result, c ≠ .effectResult token result) :
    Act X (tabled pending asker) p cx c p' (cx.effect e).1 :=
  .wished (.effect cx e) other (.inr (by rw [tabled_insert h, hw]))

theorem answered {ms : List PendingSend} {cap ty : String} {body : Bytes}
    (hw : (pending p)[token]? = some w) (hwho : asker w = some who)
    (queued : cx.Queues cx' ms) (idle : ∀ m ∈ ms, m.Idle)
    (h : pending p' = (pending p).erase token)
    (format : ty = "err" → ∃ (code : ErrorCode) (message : String),
      body = X.encode ({ code := code.asStr, message } : ErrorBody)) :
    Act X (tabled pending asker) p cx (.effectResult token result) p'
      (cx'.sendReply who.1 cap ty body who.2) := by
  have hasked : tabled pending asker p token = some who := by
    rw [tabled, hw, Option.bind_some, hwho]
  exact .settled ms hasked (queued.reply who.1 cap ty body who.2) idle ⟨rfl, rfl, format⟩
    (tabled_erase h)

theorem answeredOnly {cap ty : String} {body : Bytes} (hw : (pending p)[token]? = some w)
    (hwho : asker w = some who) (h : pending p' = (pending p).erase token) (hty : ty ≠ "err") :
    Act X (tabled pending asker) p cx (.effectResult token result) p'
      (cx.sendReply who.1 cap ty body who.2) :=
  answered hw hwho (.refl cx) (fun _ h => absurd h List.not_mem_nil) h fun herr => absurd herr hty

theorem failed {cap message : String} (code : ErrorCode) (hw : (pending p)[token]? = some w)
    (hwho : asker w = some who) (h : pending p' = (pending p).erase token) :
    Act X (tabled pending asker) p cx (.effectResult token result) p'
      (cx.sendError X who.1 cap who.2 code.asStr message) :=
  answered hw hwho (.refl cx) (fun _ h => absurd h List.not_mem_nil) h fun _ => ⟨code, message, rfl⟩

/-- What is pending is taken out, and nobody was waiting for it. -/
theorem unanswered {ms : List PendingSend} (hw : (pending p)[token]? = some w)
    (hwho : asker w = none) (queued : cx.Queues cx' ms) (idle : ∀ m ∈ ms, m.Idle)
    (h : pending p' = (pending p).erase token) :
    Act X (tabled pending asker) p cx (.effectResult token result) p' cx' := by
  have hnone : tabled pending asker p token = none := by
    rw [tabled, hw, Option.bind_some, hwho]
  refine .told ms queued idle ?_ ?_
  · rw [tabled_erase h, Function.update_eq_self_iff, hnone]
  · intro token' result' hc
    cases hc
    exact hnone

theorem unknown (hw : (pending p)[token]? = none) :
    Act X (tabled pending asker) p cx (.effectResult token result) p cx := by
  refine .idle p cx _ ?_
  intro token' result' hc
  cases hc
  rw [tabled, hw]
  rfl

end Act

namespace SessionPlugin

def asker (w : SessionLock.Pending) : Option Asker :=
  match w.reply with
  | .broadcast => none
  | _ => some (w.peer, w.request)

def awaits : SessionPlugin X → EffectToken → Option Asker := tabled (·.pending) asker

section Acts
variable (p : SessionPlugin X) (cx : Cx) (peer : DeviceId)

theorem onMessage_act (env : Envelope) : Act X awaits p cx (.message peer env)
    (p.onMessage cx peer env).1 (p.onMessage cx peer env).2.1 := by
  unfold onMessage
  split
  · exact .filed _ rfl rfl
  · exact .filed _ rfl rfl
  · exact .filed _ rfl rfl
  · exact .silent (.emit cx _) rfl nofun
  · exact .silent (.emit cx _) rfl nofun
  · exact .idle p cx _ nofun

theorem onLocal_act (ty : String) (body : Bytes) : Act X awaits p cx (.request peer ty body)
    (p.onLocal cx peer ty).1 (p.onLocal cx peer ty).2.1 := by
  unfold onLocal
  split
  · exact .polled _ rfl rfl fun _ _ h => by cases h
  · exact .sent (by decide) rfl nofun
  · exact .sent (by decide) rfl nofun
  · exact .sent (by decide) rfl nofun
  · exact .idle p cx _ nofun

theorem refresh_queues (state : SessionLock.SessionState) (alreadyTold : Option DeviceId) :
    ∃ ms, cx.Queues (p.refresh cx state alreadyTold).2 ms ∧ (∀ m ∈ ms, m.Idle) ∧
      (p.refresh cx state alreadyTold).1.pending = p.pending := by
  unfold refresh
  split
  · exact ⟨[], .refl cx, fun _ h => absurd h List.not_mem_nil, rfl⟩
  · exact ⟨_, .tell cx _ _ _ _ _, PendingSend.idle_unsolicited (by decide) _, rfl⟩

theorem onEffectResult_act (token : EffectToken) (result : EffectResult) :
    Act X awaits p cx (.effectResult token result) (p.onEffectResult cx token result).1
      (p.onEffectResult cx token result).2 := by
  unfold onEffectResult
  cases hw : p.pending[token]? with
  | none => exact .unknown hw
  | some who =>
    obtain ⟨peer, re, reply⟩ := who
    have refreshed := refresh_queues (X := X) { p with pending := p.pending.erase token } cx
    dsimp only
    unfold answer
    cases reply with
    | broadcast =>
      cases result with
      | ok bytes =>
        dsimp only
        split
        · rename_i state _
          obtain ⟨ms, hq, hidle, hp⟩ := refreshed state none
          exact .unanswered hw rfl hq hidle hp
        · exact .unanswered hw rfl (.refl cx) (fun _ h => absurd h List.not_mem_nil) rfl
      | failed detail =>
        exact .unanswered hw rfl (.refl cx) (fun _ h => absurd h List.not_mem_nil) rfl
      | unsupported =>
        exact .unanswered hw rfl (.refl cx) (fun _ h => absurd h List.not_mem_nil) rfl
    | state =>
      have hwho : asker ⟨peer, re, .state⟩ = some (peer, re) := rfl
      cases result with
      | ok bytes =>
        dsimp only
        cases hdec : X.decode SessionLock.SessionState bytes with
        | none => exact .answeredOnly hw hwho rfl (by decide)
        | some state =>
          obtain ⟨ms, hq, hidle, hp⟩ := refreshed state (some peer)
          exact .answered hw hwho hq hidle hp fun h => absurd h (by decide)
      | failed detail => exact .failed .effectFailed hw hwho rfl
      | unsupported => exact .failed .notAllowed hw hwho rfl
    | result =>
      have hwho : asker ⟨peer, re, .result⟩ = some (peer, re) := rfl
      cases result with
      | ok bytes =>
        have hty : SessionLock.Reply.result.ty ≠ "err" := by decide
        exact .answeredOnly hw hwho rfl hty
      | failed detail => exact .failed .effectFailed hw hwho rfl
      | unsupported => exact .failed .notAllowed hw hwho rfl

theorem call_act (c : Call) :
    Act X awaits p cx c (Plugin.call p cx c).1 (Plugin.call p cx c).2.1 := by
  cases c with
  | message peer env => exact p.onMessage_act cx peer env
  | connected peer =>
    change Act X awaits p cx _ (p.onPeerConnected cx peer).1 (p.onPeerConnected cx peer).2
    unfold onPeerConnected
    cases p.last with
    | none => exact .silent (.refl cx) rfl nofun
    | some state => exact .sent (by decide) rfl nofun
  | disconnected peer => exact .silent (.refl cx) rfl nofun
  | request peer ty body => exact p.onLocal_act cx peer ty body
  | effectResult token result => exact p.onEffectResult_act cx token result
  | bulkListening | bulkFinished | tick => exact .idle p cx _ nofun

end Acts
end SessionPlugin

namespace MediaPlugin

def asker (w : Media.Pending) : Option Asker :=
  match w.reply with
  | .broadcast => none
  | .state => some (w.peer, w.request)

def awaits : MediaPlugin X → EffectToken → Option Asker := tabled (·.pending) asker

section Acts
variable (p : MediaPlugin X) (cx : Cx) (peer : DeviceId)

theorem onMessage_act (env : Envelope) : Act X awaits p cx (.message peer env)
    (p.onMessage cx peer env).1 (p.onMessage cx peer env).2.1 := by
  unfold onMessage
  split
  · exact .filed _ rfl rfl
  · exact .silent (.emit cx _) rfl nofun
  · split
    · exact .idle p cx _ nofun
    · split
      · exact .idle p cx _ nofun
      · exact .filed _ rfl rfl

/-- A verb this device's user gives is one of those a peer may give, so not an `err`. -/
theorem actionFor_ne_err {ty : String} {cmd : Media.MediaCommand} {a : MediaAction}
    (h : Media.actionFor ty cmd = .ok a) : ty ≠ "err" := by
  rintro rfl
  cases h

theorem onLocal_act (ty : String) (body : Bytes) : Act X awaits p cx (.request peer ty body)
    (p.onLocal cx peer ty body).1 (p.onLocal cx peer ty body).2.1 := by
  unfold onLocal
  split
  · exact .polled _ rfl rfl fun _ _ h => by cases h
  · exact .sent (by decide) rfl nofun
  · split
    · exact .idle p cx _ nofun
    · split
      · exact .idle p cx _ nofun
      · exact .sent (actionFor_ne_err ‹_›) rfl nofun

theorem refresh_queues (state : Media.MediaState) (alreadyTold : Option DeviceId) :
    ∃ ms, cx.Queues (p.refresh cx state alreadyTold).2 ms ∧ (∀ m ∈ ms, m.Idle) ∧
      (p.refresh cx state alreadyTold).1.pending = p.pending := by
  unfold refresh
  dsimp only
  split
  · exact ⟨_, .tell cx _ _ _ _ _, PendingSend.idle_unsolicited (by decide) _, rfl⟩
  · exact ⟨[], .refl cx, fun _ h => absurd h List.not_mem_nil, rfl⟩

theorem onEffectResult_act (token : EffectToken) (result : EffectResult) :
    Act X awaits p cx (.effectResult token result) (p.onEffectResult cx token result).1
      (p.onEffectResult cx token result).2 := by
  unfold onEffectResult
  cases hw : p.pending[token]? with
  | none => exact .unknown hw
  | some who =>
    obtain ⟨peer, re, reply⟩ := who
    have refreshed := refresh_queues (X := X) { p with pending := p.pending.erase token } cx
    dsimp only
    unfold answer
    cases reply with
    | broadcast =>
      cases result with
      | ok data =>
        dsimp only
        cases hdec : X.decode Media.MediaState data with
        | none => exact .unanswered hw rfl (.refl cx) (fun _ h => absurd h List.not_mem_nil) rfl
        | some state =>
          obtain ⟨ms, hq, hidle, hp⟩ := refreshed state none
          exact .unanswered hw rfl hq hidle hp
      | failed detail =>
        exact .unanswered hw rfl (.refl cx) (fun _ h => absurd h List.not_mem_nil) rfl
      | unsupported =>
        exact .unanswered hw rfl (.refl cx) (fun _ h => absurd h List.not_mem_nil) rfl
    | state =>
      have hwho : asker ⟨peer, re, .state⟩ = some (peer, re) := rfl
      cases result with
      | ok data =>
        dsimp only
        cases hdec : X.decode Media.MediaState data with
        | none => exact .failed .internal hw hwho rfl
        | some state =>
          obtain ⟨ms, hq, hidle, hp⟩ := refreshed state (some peer)
          exact .answered hw hwho hq hidle hp fun h => absurd h (by decide)
      | failed detail => exact .failed .effectFailed hw hwho rfl
      | unsupported => exact .failed .notAllowed hw hwho rfl

theorem call_act (c : Call) :
    Act X awaits p cx c (Plugin.call p cx c).1 (Plugin.call p cx c).2.1 := by
  cases c with
  | message peer env => exact p.onMessage_act cx peer env
  | connected peer =>
    change Act X awaits p cx _ (p.onPeerConnected cx peer).1 (p.onPeerConnected cx peer).2
    unfold onPeerConnected
    cases p.last with
    | none => exact .silent (.refl cx) rfl nofun
    | some state => exact .sent (by decide) rfl nofun
  | disconnected peer => exact .silent (.refl cx) rfl nofun
  | request peer ty body => exact p.onLocal_act cx peer ty body
  | effectResult token result => exact p.onEffectResult_act cx token result
  | bulkListening | bulkFinished | tick => exact .idle p cx _ nofun

end Acts
end MediaPlugin

namespace ClipboardPlugin

def awaits : ClipboardPlugin X → EffectToken → Option Asker := tabled (·.pending) id

section Acts
variable (p : ClipboardPlugin X) (cx : Cx) (peer : DeviceId)

/-- A value that is written here is nobody's request. -/
theorem onSet_act (env : Envelope) :
    Act X awaits p cx (.message peer env) (p.onSet cx peer env).1 (p.onSet cx peer env).2.1 := by
  have wished : ∀ (p' : ClipboardPlugin X) (mime : String) (data : Bytes) (e : UiEvent),
      p'.pending = p.pending → Act X awaits p cx (.message peer env) p'
        ((cx.emit e).effect (.clipboardWrite mime data)).1 := by
    intro p' mime data e hp
    refine .wished (e := .clipboardWrite mime data) ⟨rfl, rfl, rfl⟩ (fun _ _ h => by cases h) (.inl ?_)
    funext t
    simp only [awaits, tabled, hp]
  unfold onSet
  split
  · exact .idle p cx _ nofun
  · split
    · exact .idle p cx _ nofun
    · split
      · exact .idle p cx _ nofun
      · split
        · exact .idle p cx _ nofun
        · split
          · exact .idle p cx _ nofun
          · exact wished _ _ _ _ rfl

theorem onMessage_act (env : Envelope) : Act X awaits p cx (.message peer env)
    (p.onMessage cx peer env).1 (p.onMessage cx peer env).2.1 := by
  unfold onMessage
  split
  · split
    · unfold onAnswer
      split
      · exact .idle p cx _ nofun
      · split
        · exact .idle p cx _ nofun
        · split
          · exact .idle p cx _ nofun
          · exact .silent (.emit cx _) rfl nofun
    · exact p.onSet_act cx peer env
  · exact .filed _ rfl rfl
  · exact .idle p cx _ nofun

/-- Forgetting a value that came from outside leaves the table of requests alone. -/
theorem takeEcho_pending (h : Bytes) : (p.takeEcho h).1.pending = p.pending := by
  unfold takeEcho
  split
  · rfl
  · rfl

theorem offer_act (ty : String) (body : Bytes) (deliberate : Bool) :
    Act X awaits p cx (.request peer ty body) (p.offer cx body deliberate).1
      (p.offer cx body deliberate).2.1 := by
  have same : ∀ p' : ClipboardPlugin X, p'.pending = p.pending → awaits p' = awaits p := by
    intro p' hp
    funext t
    simp only [awaits, tabled, hp]
  have htake := p.takeEcho_pending (Clipboard.hash X body)
  unfold offer
  split
  · exact .idle p cx _ nofun
  · split
    · exact .idle p cx _ nofun
    · split
      · rename_i q heq
        rw [heq] at htake
        exact .silent (.refl cx) (same _ htake) nofun
      · rename_i q heq
        rw [heq] at htake
        exact .told _ (.tell cx _ _ _ _ _) (PendingSend.idle_unsolicited (by decide) _)
          (same _ htake) fun _ _ h => by cases h

theorem onLocal_act (ty : String) (body : Bytes) : Act X awaits p cx (.request peer ty body)
    (p.onLocal cx peer ty body).1 (p.onLocal cx peer ty body).2.1 := by
  unfold onLocal
  split
  · exact p.offer_act cx peer _ body false
  · exact p.offer_act cx peer _ body true
  · exact .sent (by decide) rfl nofun
  · exact .idle p cx _ nofun

theorem onEffectResult_act (token : EffectToken) (result : EffectResult) :
    Act X awaits p cx (.effectResult token result) (p.onEffectResult cx token result).1
      (p.onEffectResult cx token result).2 := by
  unfold onEffectResult
  cases hw : p.pending[token]? with
  | none => exact .unknown hw
  | some who =>
    cases who with
    | none => exact .unanswered hw rfl (.refl cx) (fun _ h => absurd h List.not_mem_nil) rfl
    | some who =>
      have hwho : id (some who) = some who := rfl
      cases result with
      | ok data => exact .answeredOnly hw hwho rfl (by decide)
      | failed detail => exact .failed .effectFailed hw hwho rfl
      | unsupported => exact .failed .notAllowed hw hwho rfl

theorem call_act (c : Call) :
    Act X awaits p cx c (Plugin.call p cx c).1 (Plugin.call p cx c).2.1 := by
  cases c with
  | message peer env => exact p.onMessage_act cx peer env
  | connected peer => exact .silent (.refl cx) rfl nofun
  | disconnected peer => exact .silent (.refl cx) rfl nofun
  | request peer ty body => exact p.onLocal_act cx peer ty body
  | effectResult token result => exact p.onEffectResult_act cx token result
  | bulkListening | bulkFinished | tick => exact .idle p cx _ nofun

end Acts
end ClipboardPlugin

namespace CommandPlugin

def awaits : CommandPlugin X → EffectToken → Option Asker := tabled (·.pending) some

theorem call_act (p : CommandPlugin X) (cx : Cx) (c : Call) :
    Act X awaits p cx c (Plugin.call p cx c).1 (Plugin.call p cx c).2.1 := by
  cases c with
  | message peer env =>
    change Act X awaits p cx _ (p.onMessage cx peer env).1 (p.onMessage cx peer env).2.1
    unfold onMessage
    split
    · unfold onRun
      split
      · exact .idle p cx _ nofun
      · split
        · exact .idle p cx _ nofun
        · exact .filed _ rfl rfl
    · unfold onList
      dsimp only
      split
      · exact .silent (.emit cx _) rfl nofun
      · exact .silent (.emit cx _) rfl nofun
    · exact .silent (.emit cx _) rfl nofun
    · exact .silent (.emit cx _) rfl nofun
    · exact .silent (.emit cx _) rfl nofun
    · exact .silent (.emit cx _) rfl nofun
    · exact .idle p cx _ nofun
  | connected peer =>
    change Act X awaits p cx _ (p.onPeerConnected cx peer).1 (p.onPeerConnected cx peer).2
    unfold onPeerConnected
    dsimp only
    split
    · exact .silent (.refl cx) rfl nofun
    · exact .sent (by decide) rfl nofun
  | request peer ty body =>
    change Act X awaits p cx _ (p.onLocal cx peer ty body).1 (p.onLocal cx peer ty body).2.1
    unfold onLocal
    split
    · exact .sent (by decide) rfl nofun
    · exact .silent (.emit cx _) rfl nofun
    · exact .idle p cx _ nofun
  | effectResult token result =>
    change Act X awaits p cx _ (p.onEffectResult cx token result).1
      (p.onEffectResult cx token result).2
    unfold onEffectResult
    cases hw : p.pending[token]? with
    | none => exact .unknown hw
    | some who =>
      cases result with
      | ok bytes => exact .answeredOnly hw rfl rfl (by decide)
      | failed detail => exact .failed .effectFailed hw rfl rfl
      | unsupported => exact .failed .notAllowed hw rfl rfl
  | disconnected | bulkListening | bulkFinished | tick => exact .idle p cx _ nofun

end CommandPlugin

namespace WolPlugin

def awaits : WolPlugin X → EffectToken → Option Asker := tabled (·.pending) some

theorem call_act (p : WolPlugin X) (cx : Cx) (c : Call) :
    Act X awaits p cx c (Plugin.call p cx c).1 (Plugin.call p cx c).2.1 := by
  cases c with
  | message peer env =>
    change Act X awaits p cx _ (p.onMessage cx peer env).1 (p.onMessage cx peer env).2.1
    unfold onMessage
    split
    · exact .silent (.emit cx _) rfl nofun
    · exact .silent (.emit cx _) rfl nofun
    · exact .silent (.emit cx _) rfl nofun
    · unfold onRelay
      split
      · exact .idle p cx _ nofun
      · dsimp only
        split
        · exact .idle p cx _ nofun
        · split
          · exact .idle p cx _ nofun
          · exact .filed _ rfl rfl
    · exact .idle p cx _ nofun
  | connected peer =>
    change Act X awaits p cx _ (p.onPeerConnected cx peer).1 (p.onPeerConnected cx peer).2
    unfold onPeerConnected
    dsimp only
    split
    · exact .silent (.refl cx) rfl nofun
    · exact .sent (by decide) rfl nofun
  | request peer ty body =>
    change Act X awaits p cx _ (p.onLocal cx peer ty body).1 (p.onLocal cx peer ty body).2.1
    unfold onLocal
    split
    · exact .sent (by decide) rfl nofun
    · exact .idle p cx _ nofun
  | effectResult token result =>
    change Act X awaits p cx _ (p.onEffectResult cx token result).1
      (p.onEffectResult cx token result).2
    unfold onEffectResult
    cases hw : p.pending[token]? with
    | none => exact .unknown hw
    | some who =>
      cases result with
      | ok bytes => exact .answeredOnly hw rfl rfl (by decide)
      | failed detail => exact .failed .effectFailed hw rfl rfl
      | unsupported => exact .failed .notAllowed hw rfl rfl
  | disconnected | bulkListening | bulkFinished | tick => exact .idle p cx _ nofun

end WolPlugin

def awaitsNone (_ : P) (_ : EffectToken) : Option Asker := none

namespace TouchpadPlugin

theorem call_act (p : TouchpadPlugin X) (cx : Cx) (c : Call) :
    Act X awaitsNone p cx c (Plugin.call p cx c).1 (Plugin.call p cx c).2.1 := by
  have operated : ∀ (op : TouchpadOp) (owner : Option DeviceId) (c : Call),
      (∀ token result, c ≠ .effectResult token result) →
      Act X awaitsNone p cx c (p.operate cx op owner).1 (p.operate cx op owner).2 :=
    fun op owner c hc => .wished (.effect cx _) hc (.inl rfl)
  cases c with
  | message peer env =>
    change Act X awaitsNone p cx _ (p.onMessage cx peer env).1 (p.onMessage cx peer env).2.1
    unfold onMessage
    split
    · exact .silent (.emit cx _) rfl nofun
    · split
      · exact .idle p cx _ nofun
      · split
        · exact .idle p cx _ nofun
        · exact operated _ _ _ fun _ _ h => by cases h
  | connected peer =>
    change Act X awaitsNone p cx _ (p.onPeerConnected cx peer).1 (p.onPeerConnected cx peer).2
    unfold onPeerConnected
    dsimp only
    split
    · exact .sent (by decide) rfl nofun
    · exact .silent (.refl cx) rfl nofun
  | disconnected peer =>
    change Act X awaitsNone p cx _ (p.onPeerDisconnected cx peer).1 (p.onPeerDisconnected cx peer).2
    unfold onPeerDisconnected
    split
    · exact operated _ _ _ fun _ _ h => by cases h
    · exact .idle p cx _ nofun
  | request peer ty body =>
    change Act X awaitsNone p cx _ (p.onLocal cx peer ty body).1 (p.onLocal cx peer ty body).2.1
    unfold onLocal
    split
    · exact .sent (by decide) rfl nofun
    · exact .sent (by decide) rfl nofun
    · exact .sent (by decide) rfl nofun
    · exact .idle p cx _ nofun
  | effectResult | bulkListening | bulkFinished | tick => exact .idle p cx _ fun _ _ _ => rfl

end TouchpadPlugin

namespace PingPlugin

theorem call_act (p : PingPlugin X) (cx : Cx) (c : Call) :
    Act X awaitsNone p cx c (Plugin.call p cx c).1 (Plugin.call p cx c).2.1 := by
  cases c with
  | message peer env =>
    change Act X awaitsNone p cx _ (p.onMessage cx peer env).1 (p.onMessage cx peer env).2.1
    unfold onMessage
    split
    · have hty : "pong" ≠ "err" := by decide
      exact .replied ⟨rfl, rfl, rfl⟩ hty (fun _ _ h => by cases h) rfl
    · exact .silent (.emit cx _) rfl nofun
    · exact .idle p cx _ nofun
  | request peer ty body =>
    change Act X awaitsNone p cx _ (p.onLocal cx peer ty body).1 (p.onLocal cx peer ty body).2.1
    unfold onLocal
    split
    · exact .sent (by decide) rfl nofun
    · exact .idle p cx _ nofun
  | connected | disconnected | effectResult | bulkListening | bulkFinished | tick =>
    exact .idle p cx _ fun _ _ _ => rfl

end PingPlugin

namespace SharePlugin

theorem call_act (p : SharePlugin X) (cx : Cx) (c : Call) :
    Act X awaitsNone p cx c (Plugin.call p cx c).1 (Plugin.call p cx c).2.1 := by
  have announced : ∀ {cx' : Cx} {ms : List PendingSend} (peer : DeviceId) (ty : String)
      (body : Share.Finished), cx.Queues cx' ms → cx.Queues (announce X cx' peer ty body) ms :=
    fun _ _ _ h => ⟨h.sends, h.effects, h.token⟩
  have hmove := p.call_move cx c
  generalize (Plugin.call p cx c).1 = p' at hmove ⊢
  generalize (Plugin.call p cx c).2.1 = cx' at hmove ⊢
  cases hmove with
  | idle => exact .idle p cx _ fun _ _ _ => rfl
  | offered => exact .silent ⟨(List.append_nil _).symm, rfl, rfl⟩ rfl nofun
  | accepted => exact .silent ⟨(List.append_nil _).symm, rfl, rfl⟩ rfl nofun
  | rejected => exact .silent (announced _ _ _ (.refl cx)) rfl nofun
  | finished => exact .silent (announced _ _ _ (.refl cx)) rfl nofun
  | disconnected => exact .silent (.refl cx) rfl nofun
  | unsendable => exact .silent (announced _ _ _ (.emit cx _)) rfl nofun
  | sent => exact .sent (by decide) rfl nofun
  | taken => exact .silent ⟨(List.append_nil _).symm, rfl, rfl⟩ rfl nofun
  | declined =>
    have hty : "reject" ≠ "err" := by decide
    exact .replied ⟨rfl, rfl, rfl⟩ hty (fun _ _ h => by cases h) rfl
  | cancelled =>
    exact .told _ ⟨rfl, rfl, rfl⟩ (PendingSend.idle_unsolicited (by decide) [_]) rfl
      fun _ _ h => by cases h
  | listening =>
    have hty : "accept" ≠ "err" := by decide
    exact .replied ⟨rfl, rfl, rfl⟩ hty (fun _ _ h => by cases h) rfl
  | @ended _ _ _ peer _ =>
    exact .told _ (announced _ _ _ ⟨rfl, rfl, rfl⟩)
      (PendingSend.idle_unsolicited (by decide) [peer]) rfl fun _ _ h => by cases h

end SharePlugin

namespace Builtin

def awaits : Builtin X → EffectToken → Option Asker
  | .clipboard p => p.awaits
  | .command p => p.awaits
  | .media p => p.awaits
  | .session p => p.awaits
  | .wol p => p.awaits
  | .ping p => awaitsNone p
  | .share p => awaitsNone p
  | .touchpad p => awaitsNone p

def Boxes [Plugin P] (box : P → Builtin X) : Prop :=
  ∀ p cx c, Plugin.call (box p) cx c = boxed box (Plugin.call p cx c)

theorem boxes_clipboard : Boxes (X := X) Builtin.clipboard := fun _ _ c => by cases c <;> rfl

theorem boxes_command : Boxes (X := X) Builtin.command := fun _ _ c => by cases c <;> rfl

theorem boxes_media : Boxes (X := X) Builtin.media := fun _ _ c => by cases c <;> rfl

theorem boxes_ping : Boxes (X := X) Builtin.ping := fun _ _ c => by cases c <;> rfl

theorem boxes_session : Boxes (X := X) Builtin.session := fun _ _ c => by cases c <;> rfl

theorem boxes_share : Boxes (X := X) Builtin.share := fun _ _ c => by cases c <;> rfl

theorem boxes_touchpad : Boxes (X := X) Builtin.touchpad := fun _ _ c => by cases c <;> rfl

theorem boxes_wol : Boxes (X := X) Builtin.wol := fun _ _ c => by cases c <;> rfl

theorem Boxes.act [Plugin P] {box : P → Builtin X} (h : Boxes box)
    {waiting : P → EffectToken → Option Asker} (hw : ∀ p, awaits (box p) = waiting p) {p : P}
    {cx : Cx} {c : Call} (hact : Act X waiting p cx c (Plugin.call p cx c).1 (Plugin.call p cx c).2.1) :
    Act X awaits (box p) cx c (Plugin.call (box p) cx c).1 (Plugin.call (box p) cx c).2.1 := by
  rw [h p cx c]
  exact hact.box box hw

theorem call_act (p : Builtin X) (cx : Cx) (c : Call) :
    Act X awaits p cx c (Plugin.call p cx c).1 (Plugin.call p cx c).2.1 := by
  cases p with
  | clipboard p => exact boxes_clipboard.act (fun _ => rfl) (p.call_act cx c)
  | command p => exact boxes_command.act (fun _ => rfl) (p.call_act cx c)
  | media p => exact boxes_media.act (fun _ => rfl) (p.call_act cx c)
  | session p => exact boxes_session.act (fun _ => rfl) (p.call_act cx c)
  | wol p => exact boxes_wol.act (fun _ => rfl) (p.call_act cx c)
  | ping p => exact boxes_ping.act (fun _ => rfl) (p.call_act cx c)
  | share p => exact boxes_share.act (fun _ => rfl) (p.call_act cx c)
  | touchpad p => exact boxes_touchpad.act (fun _ => rfl) (p.call_act cx c)

end Builtin

/-- A handler that fails has done nothing. -/
def Sound (p : P) (cx : Cx) (r : P × Cx × Except PluginError Unit) : Prop :=
  r.2.2 = .ok () ∨ ∃ e, r = (p, cx, .error e)

section Sound
variable (cx : Cx) (peer : DeviceId) (env : Envelope)

theorem ClipboardPlugin.onMessage_sound (p : ClipboardPlugin X) :
    Sound p cx (p.onMessage cx peer env) := by
  unfold onMessage
  split
  · split
    · unfold onAnswer
      split
      · exact .inr ⟨_, rfl⟩
      · split
        · exact .inr ⟨_, rfl⟩
        · split
          · exact .inr ⟨_, rfl⟩
          · exact .inl rfl
    · unfold onSet
      split
      · exact .inr ⟨_, rfl⟩
      · split
        · exact .inr ⟨_, rfl⟩
        · split
          · exact .inr ⟨_, rfl⟩
          · split
            · exact .inr ⟨_, rfl⟩
            · split
              · exact .inr ⟨_, rfl⟩
              · exact .inl rfl
  · exact .inl rfl
  · exact .inr ⟨_, rfl⟩

theorem CommandPlugin.onMessage_sound (p : CommandPlugin X) :
    Sound p cx (p.onMessage cx peer env) := by
  unfold onMessage
  split
  · unfold onRun
    split
    · exact .inr ⟨_, rfl⟩
    · split
      · exact .inr ⟨_, rfl⟩
      · exact .inl rfl
  · exact .inl rfl
  · exact .inl rfl
  · exact .inl rfl
  · exact .inl rfl
  · exact .inl rfl
  · exact .inr ⟨_, rfl⟩

theorem MediaPlugin.onMessage_sound (p : MediaPlugin X) :
    Sound p cx (p.onMessage cx peer env) := by
  unfold onMessage
  split
  · exact .inl rfl
  · exact .inl rfl
  · split
    · exact .inr ⟨_, rfl⟩
    · split
      · exact .inr ⟨_, rfl⟩
      · exact .inl rfl

theorem PingPlugin.onMessage_sound (p : PingPlugin X) :
    Sound p cx (p.onMessage cx peer env) := by
  unfold onMessage
  split
  · exact .inl rfl
  · exact .inl rfl
  · exact .inr ⟨_, rfl⟩

theorem SessionPlugin.onMessage_sound (p : SessionPlugin X) :
    Sound p cx (p.onMessage cx peer env) := by
  unfold onMessage
  split
  · exact .inl rfl
  · exact .inl rfl
  · exact .inl rfl
  · exact .inl rfl
  · exact .inl rfl
  · exact .inr ⟨_, rfl⟩

theorem SharePlugin.onMessage_sound (p : SharePlugin X) :
    Sound p cx (p.onMessage cx peer env) := by
  unfold onMessage
  split
  · unfold onOffer
    split
    · exact .inr ⟨_, rfl⟩
    · split
      · exact .inr ⟨_, rfl⟩
      · split
        · exact .inr ⟨_, rfl⟩
        · split
          · exact .inr ⟨_, rfl⟩
          · exact .inl rfl
  · unfold onAccept
    split
    · exact .inr ⟨_, rfl⟩
    · split
      · exact .inr ⟨_, rfl⟩
      · exact .inl rfl
  · unfold onReject
    split
    · exact .inr ⟨_, rfl⟩
    · split
      · exact .inr ⟨_, rfl⟩
      · exact .inl rfl
  · unfold onFinished
    split
    · exact .inr ⟨_, rfl⟩
    · split
      · exact .inr ⟨_, rfl⟩
      · exact .inl rfl
  · exact .inr ⟨_, rfl⟩

theorem TouchpadPlugin.onMessage_sound (p : TouchpadPlugin X) :
    Sound p cx (p.onMessage cx peer env) := by
  unfold onMessage
  split
  · exact .inl rfl
  · split
    · exact .inr ⟨_, rfl⟩
    · split
      · exact .inr ⟨_, rfl⟩
      · exact .inl rfl

theorem WolPlugin.onMessage_sound (p : WolPlugin X) :
    Sound p cx (p.onMessage cx peer env) := by
  unfold onMessage
  split
  · exact .inl rfl
  · exact .inl rfl
  · exact .inl rfl
  · unfold onRelay
    split
    · exact .inr ⟨_, rfl⟩
    · dsimp only
      split
      · exact .inr ⟨_, rfl⟩
      · split
        · exact .inr ⟨_, rfl⟩
        · exact .inl rfl
  · exact .inr ⟨_, rfl⟩

theorem Sound.box {p : P} {r : P × Cx × Except PluginError Unit} (h : Sound p cx r)
    (f : P → Builtin X) : Sound (f p) cx (Builtin.boxed f r) := by
  rcases h with h | ⟨e, rfl⟩
  · exact .inl h
  · exact .inr ⟨e, rfl⟩

theorem Builtin.onMessage_sound (p : Builtin X) :
    Sound p cx (Plugin.onMessage p cx peer env) := by
  cases p with
  | clipboard p => exact (p.onMessage_sound cx peer env).box cx _
  | command p => exact (p.onMessage_sound cx peer env).box cx _
  | media p => exact (p.onMessage_sound cx peer env).box cx _
  | ping p => exact (p.onMessage_sound cx peer env).box cx _
  | session p => exact (p.onMessage_sound cx peer env).box cx _
  | share p => exact (p.onMessage_sound cx peer env).box cx _
  | touchpad p => exact (p.onMessage_sound cx peer env).box cx _
  | wol p => exact (p.onMessage_sound cx peer env).box cx _

end Sound
end Acrylius
