import Acrylius.Plugins.Media
import Acrylius.Plugins.Session
import Acrylius.Mock

/-! A value that is pushed to whoever is connected: what each peer was last told against what the
plugin last knew. -/
namespace Acrylius
open Proto Std

variable {X : Crates} {P S : Type}

/-- Who listens, the value as it was last known, and what each listener was last told of it. -/
structure Board (S : Type) where
  connected : List DeviceId
  last : Option S
  told : DeviceId → Option S

namespace Board

/-- Every listener was last told the value, up to what nobody need be told. -/
def Fresh (same : S → S → Prop) (b : Board S) : Prop :=
  ∀ s, b.last = some s → ∀ p ∈ b.connected, ∃ m, b.told p = some m ∧ same m s

inductive Moves (same : S → S → Prop) (b : Board S) : Board S → Prop where
  | idle : Moves same b b
  | join (p : DeviceId) :
      Moves same b ⟨Peers.join b.connected p, b.last, Function.update b.told p b.last⟩
  | leave (p : DeviceId) : Moves same b { b with connected := Peers.leave b.connected p }
  /-- A new value, told to everyone and to whoever asked. -/
  | announce (s : S) (asker : Option DeviceId) :
      Moves same b ⟨b.connected, some s, fun q =>
        if (q ∈ b.connected ∧ some q ≠ asker) ∨ asker = some q then some s else b.told q⟩
  /-- A value that says nothing new, told to whoever asked. -/
  | confirm {s₀ : S} (known : b.last = some s₀) (s : S) (h : same s₀ s) (asker : Option DeviceId) :
      Moves same b ⟨b.connected, some s, fun q => if asker = some q then some s else b.told q⟩

variable {same : S → S → Prop} {b b' : Board S}

theorem Moves.fresh (hsame : Equivalence same) (h : Moves same b b') (hb : b.Fresh same) :
    b'.Fresh same := by
  intro s hs p hp
  cases h with
  | idle => exact hb s hs p hp
  | join q =>
    by_cases hq : p = q
    · subst hq
      exact ⟨s, (Function.update_self _ _ _).trans hs, hsame.refl s⟩
    · dsimp only
      rw [Function.update_of_ne hq]
      exact hb s hs p ((Peers.mem_join.mp hp).resolve_left hq)
  | leave q => exact hb s hs p (Peers.mem_leave.mp hp).1
  | announce s' asker =>
    obtain rfl := Option.some.inj hs
    have htold : (p ∈ b.connected ∧ some p ≠ asker) ∨ asker = some p := by
      by_cases hask : asker = some p
      · exact .inr hask
      · exact .inl ⟨hp, Ne.symm hask⟩
    exact ⟨s', if_pos htold, hsame.refl s'⟩
  | @confirm s₀ known s' h asker =>
    obtain rfl := Option.some.inj hs
    by_cases hask : asker = some p
    · exact ⟨s', if_pos hask, hsame.refl s'⟩
    · obtain ⟨m, hm, hms⟩ := hb s₀ known p hp
      exact ⟨m, (if_neg hask).trans hm, hsame.trans hms h⟩

end Board

/-- What a peer makes of a message: a `state` is the value as it now stands. -/
def Board.hear (read : Bytes → Option S) (cap : String) (told : DeviceId → Option S)
    (m : PendingSend) : DeviceId → Option S :=
  if m.cap = cap ∧ m.ty = "state" then Function.update told m.peer (read m.body) else told

section Hear
variable (read : Bytes → Option S) (cap : String) (told : DeviceId → Option S)

theorem Board.hear_other {m : PendingSend} (h : m.ty ≠ "state") :
    Board.hear read cap told m = told := if_neg fun h' => h h'.2

/-- What is told to a whole list reaches all of it but the one left out. -/
theorem Board.hear_tell (peers : List DeviceId) (asker : Option DeviceId) (body : Bytes) :
    ((Cx.others peers asker).map (Cx.unsolicited cap "state" body)).foldl (Board.hear read cap) told =
      fun q => if q ∈ peers ∧ some q ≠ asker then read body else told q := by
  induction peers generalizing told with
  | nil => funext q; simp [Cx.others]
  | cons p ps ih =>
    by_cases hp : some p = asker
    · have hskip : Cx.others (p :: ps) asker = Cx.others ps asker := by simp [Cx.others, hp]
      rw [hskip, ih]
      funext q
      by_cases hq : q = p
      · subst hq
        simp [hp]
      · simp [hq]
    · have htake : Cx.others (p :: ps) asker = p :: Cx.others ps asker := by simp [Cx.others, hp]
      rw [htake, List.map_cons, List.foldl_cons, ih]
      funext q
      by_cases hq : q = p
      · subst hq
        simp [Board.hear, Cx.unsolicited, hp]
      · simp [Board.hear, Cx.unsolicited, hq]

end Hear

/-- How a plugin pushes a value: who listens, what it knows, and how the value is read back. -/
structure Pusher (P S : Type) where
  connected : P → List DeviceId
  last : P → Option S
  read : Bytes → Option S
  cap : String

/-- A plugin that pushes a value, with what each peer was last told of it since it connected. -/
structure Pushed (P S : Type) where
  plugin : P
  told : DeviceId → Option S

namespace Pushed

def start (p : P) : Pushed P S := ⟨p, fun _ => none⟩

/-- What was told before a peer connects does not count. -/
def forget (told : DeviceId → Option S) : Call → DeviceId → Option S
  | .connected p => Function.update told p none
  | _ => told

def board (π : Pusher P S) (s : Pushed P S) : Board S := ⟨π.connected s.plugin, π.last s.plugin, s.told⟩

variable [Plugin P]

def queued (p : P) (τ : Turn) : List PendingSend :=
  (Plugin.call p τ.cx τ.call).2.1.sends.drop τ.cx.sends.length

def step (π : Pusher P S) (s : Pushed P S) (τ : Turn) : Pushed P S where
  plugin := Plugin.turn s.plugin τ
  told := (queued s.plugin τ).foldl (Board.hear π.read π.cap) (forget s.told τ.call)

/-- After these calls every connected peer was last told what the plugin last knew. -/
def Converged (π : Pusher P S) (same : S → S → Prop) (p : P) (τs : List Turn) : Prop :=
  let s := Lib.run (step π) (start p) τs
  ∀ st, π.last s.plugin = some st → ∀ q ∈ Peers.present τs, ∃ m, s.told q = some m ∧ same m st

section Rules
variable {π : Pusher P S} {same : S → S → Prop} {s : Pushed P S} {τ : Turn} {new : List PendingSend}

theorem board_step (hnew : queued s.plugin τ = new) : (s.step π τ).board π =
    ⟨π.connected (Plugin.turn s.plugin τ), π.last (Plugin.turn s.plugin τ),
      new.foldl (Board.hear π.read π.cap) (forget s.told τ.call)⟩ := by
  unfold board step
  rw [hnew]

theorem idle (hnew : queued s.plugin τ = new) (hother : ∀ m ∈ new, m.ty ≠ "state")
    (hcall : forget s.told τ.call = s.told)
    (hconn : π.connected (Plugin.turn s.plugin τ) = π.connected s.plugin)
    (hlast : π.last (Plugin.turn s.plugin τ) = π.last s.plugin) :
    Board.Moves same (s.board π) ((s.step π τ).board π) := by
  have htold : ∀ told, new.foldl (Board.hear π.read π.cap) told = told := by
    clear hnew
    induction new with
    | nil => exact fun _ => rfl
    | cons m ms ih =>
      intro told
      rw [List.foldl_cons, Board.hear_other _ _ _ (hother m List.mem_cons_self)]
      exact ih (fun m' hm' => hother m' (List.mem_cons_of_mem _ hm')) told
  rw [board_step hnew, hcall, hconn, hlast, htold]
  exact .idle

theorem join {p : DeviceId} (body : S → Bytes) (hread : ∀ st, π.read (body st) = some st)
    (hcall : τ.call = .connected p)
    (hnew : queued s.plugin τ = (π.last s.plugin).elim [] fun st =>
      [Cx.unsolicited π.cap "state" (body st) p])
    (hconn : π.connected (Plugin.turn s.plugin τ) = Peers.join (π.connected s.plugin) p)
    (hlast : π.last (Plugin.turn s.plugin τ) = π.last s.plugin) :
    Board.Moves same (s.board π) ((s.step π τ).board π) := by
  have htold : ((π.last s.plugin).elim [] fun st => [Cx.unsolicited π.cap "state" (body st) p]).foldl
      (Board.hear π.read π.cap) (forget s.told τ.call) =
        Function.update s.told p (π.last s.plugin) := by
    rw [hcall]
    cases π.last s.plugin with
    | none => rfl
    | some st => simp [forget, Board.hear, Cx.unsolicited, hread]
  rw [board_step hnew, hconn, hlast, htold]
  exact .join p

def tells (π : Pusher P S) (st : S) (asker : Option DeviceId) (m : PendingSend) : Prop :=
  asker = some m.peer ∧ m.cap = π.cap ∧ m.ty = "state" ∧ π.read m.body = some st

omit [Plugin P] in
theorem hear_tells {st : S} {asker : Option DeviceId} {reply : List PendingSend}
    (hreply : ∀ m ∈ reply, tells π st asker m) (hsome : asker.isSome → reply ≠ [])
    (told : DeviceId → Option S) : reply.foldl (Board.hear π.read π.cap) told =
      fun q => if asker = some q then some st else told q := by
  induction reply generalizing told with
  | nil =>
    have hnone : asker = none := by
      by_contra h
      exact hsome (Option.isSome_iff_ne_none.mpr h) rfl
    simp [hnone]
  | cons m ms ih =>
    obtain ⟨hpeer, hcap, hty, hread⟩ := hreply m List.mem_cons_self
    have hm : Board.hear π.read π.cap told m = fun q => if asker = some q then some st else told q := by
      unfold Board.hear
      rw [if_pos ⟨hcap, hty⟩, hread]
      funext q
      by_cases hq : q = m.peer
      · subst hq
        rw [Function.update_self, if_pos hpeer]
      · rw [Function.update_of_ne hq, if_neg (by simpa [hpeer] using Ne.symm hq)]
    rw [List.foldl_cons, hm]
    cases ms with
    | nil => rfl
    | cons m' ms =>
      rw [ih (fun m'' h => hreply m'' (List.mem_cons_of_mem _ h)) (by simp)]
      funext q
      by_cases hq : asker = some q
      · simp [hq]
      · simp [hq]

/-- A new value goes to everyone, and to whoever asked. -/
theorem announce {st : S} {asker : Option DeviceId} {body : Bytes} {reply : List PendingSend}
    (hread : π.read body = some st) (hreply : ∀ m ∈ reply, tells π st asker m)
    (hsome : asker.isSome → reply ≠ []) (hcall : forget s.told τ.call = s.told)
    (hnew : queued s.plugin τ =
      (Cx.others (π.connected s.plugin) asker).map (Cx.unsolicited π.cap "state" body) ++ reply)
    (hconn : π.connected (Plugin.turn s.plugin τ) = π.connected s.plugin)
    (hlast : π.last (Plugin.turn s.plugin τ) = some st) :
    Board.Moves same (s.board π) ((s.step π τ).board π) := by
  have htold : (fun q => if asker = some q then some st else
      if q ∈ π.connected s.plugin ∧ some q ≠ asker then some st else s.told q) =
      fun q => if (q ∈ π.connected s.plugin ∧ some q ≠ asker) ∨ asker = some q then some st
        else s.told q := by
    funext q
    by_cases hq : asker = some q
    · simp [hq]
    · by_cases hmem : q ∈ π.connected s.plugin
      · simp [hq, hmem, Ne.symm hq]
      · simp [hq, hmem]
  rw [board_step hnew, hcall, hconn, hlast, List.foldl_append, Board.hear_tell, hread,
    hear_tells hreply hsome, htold]
  exact .announce st asker

/-- A value that says nothing new goes to whoever asked. -/
theorem confirm {st₀ st : S} {asker : Option DeviceId} {reply : List PendingSend}
    (known : π.last s.plugin = some st₀) (hsame : same st₀ st)
    (hreply : ∀ m ∈ reply, tells π st asker m) (hsome : asker.isSome → reply ≠ [])
    (hcall : forget s.told τ.call = s.told) (hnew : queued s.plugin τ = reply)
    (hconn : π.connected (Plugin.turn s.plugin τ) = π.connected s.plugin)
    (hlast : π.last (Plugin.turn s.plugin τ) = some st) :
    Board.Moves same (s.board π) ((s.step π τ).board π) := by
  rw [board_step hnew, hcall, hconn, hlast, hear_tells hreply hsome]
  exact .confirm known st hsame asker

/-- A reading the host made: told to everyone if it is worth it, and in any case to whoever
asked. -/
theorem reading {st : S} {asker : Option DeviceId} {body : Bytes} {reply : List PendingSend}
    (worth : Bool) (hquiet : worth = false → ∃ st₀, π.last s.plugin = some st₀ ∧ same st₀ st)
    (hread : π.read body = some st) (hreply : ∀ m ∈ reply, tells π st asker m)
    (hsome : asker.isSome → reply ≠ []) (hcall : forget s.told τ.call = s.told)
    (hnew : queued s.plugin τ = (if worth then
      (Cx.others (π.connected s.plugin) asker).map (Cx.unsolicited π.cap "state" body) else []) ++
        reply)
    (hconn : π.connected (Plugin.turn s.plugin τ) = π.connected s.plugin)
    (hlast : π.last (Plugin.turn s.plugin τ) = some st) :
    Board.Moves same (s.board π) ((s.step π τ).board π) := by
  cases worth with
  | true => exact announce hread hreply hsome hcall hnew hconn hlast
  | false =>
    obtain ⟨st₀, known, hsame⟩ := hquiet rfl
    exact confirm known hsame hreply hsome hcall hnew hconn hlast

end Rules

/-- What every call keeps holds at the end of every run whose calls are permitted. -/
theorem converged {π : Pusher P S} {same : S → S → Prop} (hsame : Equivalence same)
    {ok : Pushed P S → Turn → Prop}
    (h : ∀ s τ, ok s τ → Board.Moves same (s.board π) ((s.step π τ).board π))
    (hconn : ∀ p τ, π.connected (Plugin.turn p τ) = Peers.after (π.connected p) τ.call) {p : P}
    (hp : π.last p = none) (hp' : π.connected p = []) {τs : List Turn}
    (hok : Lib.Along (step π) ok (start p) τs) : Converged π same p τs := by
  have hstart : ((start p : Pushed P S).board π).Fresh same := by
    intro s hs
    rw [show ((start p : Pushed P S).board π).last = none from hp] at hs
    cases hs
  have hfresh : ((Lib.run (step π) (start p) τs).board π).Fresh same :=
    hok.inv (fun s τ hs hok => (h s τ hok).fresh hsame hs) hstart
  have hpresent : π.connected (Lib.run (step π) (start p : Pushed P S) τs).plugin =
      Peers.present τs :=
    Peers.eq_present (fun s : Pushed P S => π.connected s.plugin) (fun s τ => hconn s.plugin τ) hp' τs
  intro st hst q hq
  rw [← hpresent] at hq
  exact hfresh st hst q hq

end Pushed

theorem Pushed.queued_of [Plugin P] {p : P} {τ : Turn} {new : List PendingSend}
    (h : (Plugin.call p τ.cx τ.call).2.1.sends = τ.cx.sends ++ new) : queued p τ = new := by
  unfold queued
  rw [h, List.drop_left]

/-- A plugin that asks its host for the value it pushes: who waits for which effect, what becomes of
a result, and which of the host's readings go round. -/
structure Reporter (P S W : Type) [Plugin P] extends Pusher P S where
  waiting : P → EffectToken → Option W
  settle : P → EffectToken → P
  answer : P → Cx → W → EffectResult → P × Cx
  keep : P → S → P
  write : S → Bytes
  worth : Option S → S → Bool
  result : ∀ (p : P) (cx : Cx) (t : EffectToken) (r : EffectResult), Plugin.onEffectResult p cx t r =
    (waiting p t).elim (p, cx) fun who => answer (settle p t) cx who r
  settled : ∀ p t, connected (settle p t) = connected p ∧ last (settle p t) = last p
  kept : ∀ p st, connected (keep p st) = connected p ∧ last (keep p st) = some st
  readable : ∀ st, read (write st) = some st

namespace Reporter
variable {W : Type} [Plugin P] (R : Reporter P S W) {same : S → S → Prop} {s : Pushed P S} {cx : Cx}
  {token : EffectToken} {result : EffectResult} {who : W}

def refresh (p : P) (cx : Cx) (st : S) (asker : Option DeviceId) : P × Cx :=
  (R.keep p st, { cx with sends := cx.sends ++ (if R.worth (R.last p) st then
    (Cx.others (R.connected p) asker).map (Cx.unsolicited R.cap "state" (R.write st)) else []) })

theorem unknown (hwho : R.waiting s.plugin token = none) :
    Board.Moves same (s.board R.toPusher)
      ((s.step R.toPusher ⟨cx, .effectResult token result⟩).board R.toPusher) := by
  have hcall := R.result s.plugin cx token result
  rw [hwho, Option.elim_none] at hcall
  have hturn : Plugin.turn s.plugin ⟨cx, .effectResult token result⟩ = s.plugin :=
    congrArg (·.1) hcall
  have hsends : (Plugin.onEffectResult s.plugin cx token result).2.sends = cx.sends ++ [] := by
    rw [hcall, List.append_nil]
  exact Pushed.idle (Pushed.queued_of hsends) (by simp) rfl (by rw [hturn]) (by rw [hturn])

theorem idle (hwho : R.waiting s.plugin token = some who) (new : List PendingSend)
    (hanswer : ∀ p, R.answer p cx who result = (p, { cx with sends := cx.sends ++ new }))
    (hother : ∀ m ∈ new, m.ty ≠ "state") : Board.Moves same (s.board R.toPusher)
      ((s.step R.toPusher ⟨cx, .effectResult token result⟩).board R.toPusher) := by
  have hcall := R.result s.plugin cx token result
  rw [hwho, Option.elim_some, hanswer] at hcall
  have hturn : Plugin.turn s.plugin ⟨cx, .effectResult token result⟩ = R.settle s.plugin token :=
    congrArg (·.1) hcall
  have hsends : (Plugin.onEffectResult s.plugin cx token result).2.sends = cx.sends ++ new := by
    rw [hcall]
  obtain ⟨hconn, hlast⟩ := R.settled s.plugin token
  exact Pushed.idle (Pushed.queued_of hsends) hother rfl (by rw [hturn, hconn])
    (by rw [hturn, hlast])

theorem reading (hquiet : ∀ before now, R.worth before now = false →
      ∃ st, before = some st ∧ same st now)
    (hwho : R.waiting s.plugin token = some who) (st : S) (asker : Option DeviceId)
    (reply : List PendingSend)
    (hanswer : ∀ p, R.answer p cx who result = ((R.refresh p cx st asker).1,
      { (R.refresh p cx st asker).2 with sends := (R.refresh p cx st asker).2.sends ++ reply }))
    (hreply : ∀ m ∈ reply, Pushed.tells R.toPusher st asker m)
    (hsome : asker.isSome → reply ≠ []) : Board.Moves same (s.board R.toPusher)
      ((s.step R.toPusher ⟨cx, .effectResult token result⟩).board R.toPusher) := by
  have hcall := R.result s.plugin cx token result
  rw [hwho, Option.elim_some, hanswer] at hcall
  obtain ⟨hconn, hlast⟩ := R.settled s.plugin token
  obtain ⟨hconn', hlast'⟩ := R.kept (R.settle s.plugin token) st
  have hturn : Plugin.turn s.plugin ⟨cx, .effectResult token result⟩ =
      R.keep (R.settle s.plugin token) st := congrArg (·.1) hcall
  have hsends : (Plugin.onEffectResult s.plugin cx token result).2.sends = cx.sends ++
      ((if R.worth (R.last s.plugin) st then (Cx.others (R.connected s.plugin) asker).map
        (Cx.unsolicited R.cap "state" (R.write st)) else []) ++ reply) := by
    rw [hcall]
    dsimp only [refresh]
    rw [hconn, hlast, List.append_assoc]
  exact Pushed.reading (R.worth (R.last s.plugin) st) (hquiet _ _) (R.readable st) hreply hsome rfl
    (Pushed.queued_of hsends) (by rw [hturn, hconn', hconn]) (by rw [hturn, hlast'])

end Reporter

namespace SessionPlugin
open SessionLock

def pusher (X : Crates) : Pusher (SessionPlugin X) SessionState :=
  ⟨(·.connected), (·.last), X.decode SessionState, cap⟩

/-- A result that answers a query, or a poll of the host's own, is a readable state. -/
def Readable (s : Pushed (SessionPlugin X) SessionState) (τ : Turn) : Prop :=
  ∀ token bytes who, τ.call = .effectResult token (.ok bytes) →
    s.plugin.pending[token]? = some who → who.reply ≠ .result →
    ∃ state, X.decode SessionState bytes = some state

def reporter (X : Crates) : Reporter (SessionPlugin X) SessionState Pending where
  toPusher := pusher X
  waiting p t := p.pending[t]?
  settle p t := { p with pending := p.pending.erase t }
  answer := answer
  keep p state := { p with last := some state }
  write := X.encode
  worth before now := !(before = some now)
  result p cx t r := by
    change p.onEffectResult cx t r = _
    unfold onEffectResult
    cases p.pending[t]? <;> rfl
  settled _ _ := ⟨rfl, rfl⟩
  kept _ _ := ⟨rfl, rfl⟩
  readable := X.decode_encode

theorem refresh_eq (p : SessionPlugin X) (cx : Cx) (state : SessionState) (asker : Option DeviceId) :
    p.refresh cx state asker = (reporter X).refresh p cx state asker := by
  unfold refresh Reporter.refresh
  by_cases hlast : p.last = some state
  · obtain ⟨pending, connected, last⟩ := p
    dsimp only at hlast
    subst hlast
    simp [reporter, pusher]
  · rw [if_neg hlast]
    unfold broadcastStateExcept
    rw [Cx.tell_eq]
    simp [reporter, pusher, hlast]

variable {s : Pushed (SessionPlugin X) SessionState} {cx : Cx} {token : EffectToken}
  {result : EffectResult} {who : Pending}

/-- A reading that changes nothing is the one that was known. -/
theorem same_of_not_worth (before : Option SessionState) (now : SessionState)
    (h : (reporter X).worth before now = false) : ∃ st, before = some st ∧ st = now :=
  ⟨now, by simpa [reporter] using h, rfl⟩

theorem answer_moves (hwho : s.plugin.pending[token]? = some who)
    (hread : Readable s ⟨cx, .effectResult token result⟩) :
    Board.Moves Eq (s.board (pusher X))
      ((s.step (pusher X) ⟨cx, .effectResult token result⟩).board (pusher X)) := by
  obtain ⟨peer, request, reply⟩ := who
  cases result with
  | ok bytes =>
    cases reply with
    | result => exact (reporter X).idle hwho [_] (fun p => rfl) (by simp [Reply.ty])
    | state =>
      obtain ⟨state, hstate⟩ := hread token bytes _ rfl hwho nofun
      refine (reporter X).reading same_of_not_worth hwho state (some peer)
        [⟨peer, cap, "state", bytes, some request⟩] ?_ ?_ (by simp)
      · intro p
        rw [← refresh_eq]
        simp only [reporter, answer, hstate]
        rfl
      · intro m hm
        rw [List.mem_singleton.mp hm]
        exact ⟨rfl, rfl, rfl, hstate⟩
    | broadcast =>
      obtain ⟨state, hstate⟩ := hread token bytes _ rfl hwho nofun
      refine (reporter X).reading same_of_not_worth hwho state none [] ?_ (by simp) (by simp)
      intro p
      rw [← refresh_eq]
      simp only [reporter, answer, hstate, List.append_nil]
  | failed detail =>
    cases reply with
    | broadcast => exact (reporter X).idle hwho [] (fun p => by simp [reporter, answer]) (by simp)
    | _ => exact (reporter X).idle hwho [_] (fun p => rfl) (by simp)
  | unsupported =>
    cases reply with
    | broadcast => exact (reporter X).idle hwho [] (fun p => by simp [reporter, answer]) (by simp)
    | _ => exact (reporter X).idle hwho [_] (fun p => rfl) (by simp)

theorem answer_connected (p : SessionPlugin X) (cx : Cx) (who : Pending) (result : EffectResult) :
    (answer p cx who result).1.connected = p.connected := by
  unfold answer
  split
  · split
    · rw [refresh_eq]
      rfl
    · rfl
  · dsimp only
    split
    · rw [refresh_eq]
      rfl
    · rfl
  all_goals rfl

theorem onMessage_quiet (p : SessionPlugin X) (cx : Cx) (peer : DeviceId) (env : Envelope) :
    (p.onMessage cx peer env).2.1.sends = cx.sends ∧
      (p.onMessage cx peer env).1.connected = p.connected ∧
      (p.onMessage cx peer env).1.last = p.last := by
  unfold onMessage
  split <;> exact ⟨rfl, rfl, rfl⟩

theorem onLocal_quiet (p : SessionPlugin X) (cx : Cx) (peer : DeviceId) (ty : String) :
    (∃ new, (p.onLocal cx peer ty).2.1.sends = cx.sends ++ new ∧ ∀ m ∈ new, m.ty ≠ "state") ∧
      (p.onLocal cx peer ty).1.connected = p.connected ∧ (p.onLocal cx peer ty).1.last = p.last := by
  unfold onLocal
  split
  · exact ⟨⟨[], (List.append_nil _).symm, by simp⟩, rfl, rfl⟩
  · exact ⟨⟨[_], rfl, by simp⟩, rfl, rfl⟩
  · exact ⟨⟨[_], rfl, by simp⟩, rfl, rfl⟩
  · exact ⟨⟨[_], rfl, by simp⟩, rfl, rfl⟩
  · exact ⟨⟨[], (List.append_nil _).symm, by simp⟩, rfl, rfl⟩

/-- Every call does one of the things that keep a board fresh. -/
theorem turn_moves (s : Pushed (SessionPlugin X) SessionState) (τ : Turn) (hread : Readable s τ) :
    Board.Moves Eq (s.board (pusher X)) ((s.step (pusher X) τ).board (pusher X)) := by
  obtain ⟨cx, call⟩ := τ
  cases call with
  | connected peer =>
    refine Pushed.join X.encode X.decode_encode rfl (Pushed.queued_of ?_) rfl rfl
    change (s.plugin.onPeerConnected cx peer).2.sends = _
    unfold onPeerConnected
    cases hlast : s.plugin.last with
    | none => simp [pusher, hlast]
    | some st =>
      simp only [pusher, hlast]
      rfl
  | disconnected peer =>
    have hqueued : Pushed.queued s.plugin ⟨cx, .disconnected peer⟩ = [] :=
      Pushed.queued_of (List.append_nil _).symm
    rw [Pushed.board_step hqueued]
    exact .leave peer
  | message peer env =>
    obtain ⟨hsends, hconn, hlast⟩ := onMessage_quiet s.plugin cx peer env
    exact Pushed.idle (Pushed.queued_of (hsends.trans (List.append_nil _).symm)) (by simp) rfl hconn
      hlast
  | request peer ty body =>
    obtain ⟨⟨new, hsends, hother⟩, hconn, hlast⟩ := onLocal_quiet s.plugin cx peer ty
    exact Pushed.idle (Pushed.queued_of hsends) hother rfl hconn hlast
  | effectResult token result =>
    cases hwho : s.plugin.pending[token]? with
    | none => exact (reporter X).unknown hwho
    | some who => exact answer_moves hwho hread
  | _ => exact Pushed.idle (Pushed.queued_of (List.append_nil _).symm) (by simp) rfl rfl rfl

theorem connected_turn (p : SessionPlugin X) (τ : Turn) :
    (Plugin.turn p τ).connected = Peers.after p.connected τ.call := by
  obtain ⟨cx, call⟩ := τ
  cases call with
  | message peer env => exact (onMessage_quiet p cx peer env).2.1
  | request peer ty body => exact (onLocal_quiet p cx peer ty).2.1
  | effectResult token result =>
    change (p.onEffectResult cx token result).1.connected = p.connected
    unfold onEffectResult
    split
    · rfl
    · exact answer_connected _ cx _ result
  | _ => rfl

end SessionPlugin

namespace Media

def MediaState.still (s : MediaState) : MediaState := { s with players := s.players.map (·.still) }

def Alike (a b : MediaState) : Prop := a.still = b.still

theorem alike_equivalence : Equivalence Alike :=
  ⟨fun _ => rfl, fun h => Eq.symm h, fun h h' => Eq.trans h h'⟩

/-- A reading that is not worth announcing says nothing new but positions. -/
theorem alike_of_not_worth {before : Option MediaState} {now : MediaState}
    (h : worthAnnouncing before now = false) : ∃ b, before = some b ∧ Alike b now := by
  cases before with
  | none => cases h
  | some b =>
    refine ⟨b, rfl, ?_⟩
    unfold worthAnnouncing at h
    dsimp only at h
    split at h
    · cases h
    rename_i hsame
    push Not at hsame
    obtain ⟨hactive, hlength, hvolume⟩ := hsame
    have hplayers : b.players.map (·.still) = now.players.map (·.still) := by
      refine List.ext_getElem (by simpa using hlength) fun k hk hk' => ?_
      rw [List.length_map] at hk hk'
      have hmem : (b.players[k], now.players[k]) ∈ b.players.zip now.players := by
        rw [List.mem_iff_getElem]
        exact ⟨k, by simp [hk, hk'], by simp⟩
      have hpair := List.any_eq_false.mp h _ hmem
      simpa using hpair
    unfold Alike MediaState.still
    rw [hplayers, hactive, hvolume]

end Media

namespace MediaPlugin
open Media

def pusher (X : Crates) : Pusher (MediaPlugin X) MediaState :=
  ⟨(·.connected), (·.last), X.decode MediaState, Media.cap⟩

def reporter (X : Crates) : Reporter (MediaPlugin X) MediaState Media.Pending where
  toPusher := pusher X
  waiting p t := p.pending[t]?
  settle p t := { p with pending := p.pending.erase t }
  answer := answer
  keep p state := { p with last := some state }
  write := X.encode
  worth := worthAnnouncing
  result p cx t r := by
    change p.onEffectResult cx t r = _
    unfold onEffectResult
    cases p.pending[t]? <;> rfl
  settled _ _ := ⟨rfl, rfl⟩
  kept _ _ := ⟨rfl, rfl⟩
  readable := X.decode_encode

theorem refresh_eq (p : MediaPlugin X) (cx : Cx) (state : MediaState) (asker : Option DeviceId) :
    p.refresh cx state asker = (reporter X).refresh p cx state asker := by
  unfold refresh Reporter.refresh
  cases hworth : worthAnnouncing p.last state with
  | true =>
    unfold broadcastExcept
    rw [if_pos rfl, Cx.tell_eq]
    simp [reporter, pusher, hworth]
  | false => simp [reporter, pusher, hworth]

variable {s : Pushed (MediaPlugin X) MediaState} {cx : Cx} {token : EffectToken}
  {result : EffectResult} {who : Media.Pending}

/-- What a result does to the board; one that cannot be read says nothing. -/
theorem answer_moves (hwho : s.plugin.pending[token]? = some who) :
    Board.Moves Alike (s.board (pusher X))
      ((s.step (pusher X) ⟨cx, .effectResult token result⟩).board (pusher X)) := by
  obtain ⟨peer, request, reply⟩ := who
  cases result with
  | ok data =>
    cases hstate : X.decode MediaState data with
    | none =>
      cases reply with
      | state => exact (reporter X).idle hwho [_] (fun p => by simp only [reporter, answer, hstate]; rfl) (by simp)
      | broadcast => exact (reporter X).idle hwho [] (fun p => by simp [reporter, answer, hstate]) (by simp)
    | some state =>
      cases reply with
      | state =>
        refine (reporter X).reading (fun _ _ => alike_of_not_worth) hwho state (some peer)
          [⟨peer, Media.cap, "state", X.encode state, some request⟩] ?_ ?_ (by simp)
        · intro p
          rw [← refresh_eq]
          simp only [reporter, answer, hstate]
          rfl
        · intro m hm
          rw [List.mem_singleton.mp hm]
          exact ⟨rfl, rfl, rfl, X.decode_encode state⟩
      | broadcast =>
        refine (reporter X).reading (fun _ _ => alike_of_not_worth) hwho state none [] ?_ (by simp) (by simp)
        intro p
        rw [← refresh_eq]
        simp only [reporter, answer, hstate, List.append_nil]
  | failed detail =>
    cases reply with
    | state => exact (reporter X).idle hwho [_] (fun p => rfl) (by simp)
    | broadcast => exact (reporter X).idle hwho [] (fun p => by simp [reporter, answer]) (by simp)
  | unsupported =>
    cases reply with
    | state => exact (reporter X).idle hwho [_] (fun p => rfl) (by simp)
    | broadcast => exact (reporter X).idle hwho [] (fun p => by simp [reporter, answer]) (by simp)

theorem answer_connected (p : MediaPlugin X) (cx : Cx) (who : Media.Pending)
    (result : EffectResult) : (answer p cx who result).1.connected = p.connected := by
  unfold answer
  split
  · split
    · rfl
    · rfl
    · rw [refresh_eq]
      rfl
    · rw [refresh_eq]
      rfl
  all_goals rfl

theorem onMessage_quiet (p : MediaPlugin X) (cx : Cx) (peer : DeviceId) (env : Envelope) :
    (p.onMessage cx peer env).2.1.sends = cx.sends ∧
      (p.onMessage cx peer env).1.connected = p.connected ∧
      (p.onMessage cx peer env).1.last = p.last := by
  unfold onMessage
  split
  · exact ⟨rfl, rfl, rfl⟩
  · exact ⟨rfl, rfl, rfl⟩
  · split
    · exact ⟨rfl, rfl, rfl⟩
    · split <;> exact ⟨rfl, rfl, rfl⟩

/-- A verb is no `state`. -/
theorem ty_of_actionFor {ty : String} {cmd : MediaCommand} {action : MediaAction}
    (h : actionFor ty cmd = .ok action) : ty ≠ "state" := by
  rintro rfl
  simp [actionFor, simpleAction] at h

theorem onLocal_quiet (p : MediaPlugin X) (cx : Cx) (peer : DeviceId) (ty : String) (body : Bytes) :
    (∃ new, (p.onLocal cx peer ty body).2.1.sends = cx.sends ++ new ∧
      ∀ m ∈ new, m.ty ≠ "state") ∧
      (p.onLocal cx peer ty body).1.connected = p.connected ∧
      (p.onLocal cx peer ty body).1.last = p.last := by
  have nothing : ∃ new, cx.sends = cx.sends ++ new ∧ ∀ m ∈ new, m.ty ≠ "state" :=
    ⟨[], (List.append_nil _).symm, by simp⟩
  unfold onLocal
  split
  · exact ⟨nothing, rfl, rfl⟩
  · exact ⟨⟨[_], rfl, by simp⟩, rfl, rfl⟩
  · split
    · exact ⟨nothing, rfl, rfl⟩
    · split
      · exact ⟨nothing, rfl, rfl⟩
      · rename_i action haction
        exact ⟨⟨[_], rfl, by simpa using ty_of_actionFor haction⟩, rfl, rfl⟩

/-- Every call does one of the things that keep a board fresh. -/
theorem turn_moves (s : Pushed (MediaPlugin X) MediaState) (τ : Turn) :
    Board.Moves Alike (s.board (pusher X)) ((s.step (pusher X) τ).board (pusher X)) := by
  obtain ⟨cx, call⟩ := τ
  cases call with
  | connected peer =>
    refine Pushed.join X.encode X.decode_encode rfl (Pushed.queued_of ?_) rfl rfl
    change (s.plugin.onPeerConnected cx peer).2.sends = _
    unfold onPeerConnected
    cases hlast : s.plugin.last with
    | none => simp [pusher, hlast]
    | some st =>
      simp only [pusher, hlast]
      rfl
  | disconnected peer =>
    have hqueued : Pushed.queued s.plugin ⟨cx, .disconnected peer⟩ = [] :=
      Pushed.queued_of (List.append_nil _).symm
    rw [Pushed.board_step hqueued]
    exact .leave peer
  | message peer env =>
    obtain ⟨hsends, hconn, hlast⟩ := onMessage_quiet s.plugin cx peer env
    exact Pushed.idle (Pushed.queued_of (hsends.trans (List.append_nil _).symm)) (by simp) rfl hconn
      hlast
  | request peer ty body =>
    obtain ⟨⟨new, hsends, hother⟩, hconn, hlast⟩ := onLocal_quiet s.plugin cx peer ty body
    exact Pushed.idle (Pushed.queued_of hsends) hother rfl hconn hlast
  | effectResult token result =>
    cases hwho : s.plugin.pending[token]? with
    | none => exact (reporter X).unknown hwho
    | some who => exact answer_moves hwho
  | _ => exact Pushed.idle (Pushed.queued_of (List.append_nil _).symm) (by simp) rfl rfl rfl

theorem connected_turn (p : MediaPlugin X) (τ : Turn) :
    (Plugin.turn p τ).connected = Peers.after p.connected τ.call := by
  obtain ⟨cx, call⟩ := τ
  cases call with
  | message peer env => exact (onMessage_quiet p cx peer env).2.1
  | request peer ty body => exact (onLocal_quiet p cx peer ty body).2.1
  | effectResult token result =>
    change (p.onEffectResult cx token result).1.connected = p.connected
    unfold onEffectResult
    split
    · rfl
    · exact answer_connected _ cx _ result
  | _ => rfl

end MediaPlugin

/-- What is pushed converges: after every run of the session plugin in which queries and polls are
answered with readable states, and after every run of the media plugin, each connected peer was
last told the state the plugin last knew; for media, up to where the players are. -/
theorem pushed_state_converges (X : Crates) {τs : List Turn}
    (readable : Lib.Along (Pushed.step (SessionPlugin.pusher X)) SessionPlugin.Readable
      (Pushed.start (SessionPlugin.default X)) τs) (ρs : List Turn) :
    Pushed.Converged (SessionPlugin.pusher X) Eq (SessionPlugin.default X) τs ∧
      Pushed.Converged (MediaPlugin.pusher X) Media.Alike (MediaPlugin.default X) ρs := by
  have hany : Lib.Along (Pushed.step (MediaPlugin.pusher X)) (fun _ _ => True)
      (Pushed.start (MediaPlugin.default X)) ρs := Lib.along_of_forall (fun _ _ => trivial) _ _
  constructor
  · exact Pushed.converged eq_equivalence SessionPlugin.turn_moves SessionPlugin.connected_turn rfl rfl
      readable
  · exact Pushed.converged Media.alike_equivalence (fun s τ _ => MediaPlugin.turn_moves s τ)
      MediaPlugin.connected_turn rfl rfl hany

namespace Mock

def watcher : DeviceId := ⟨"watcher"⟩

def unlocked : SessionLock.SessionState := ⟨false, "2", "wayland", true⟩

def sessionCx : Cx := Cx.new 0 0 0 (EffectSet.new [.session])

def watcherAsks : Envelope where
  v := wireVersion
  id := 7
  re := none
  cap := SessionLock.cap
  ty := "query"
  body := []
  flags := 0
  bulk := none

def watching : List Turn :=
  [⟨sessionCx, .connected watcher⟩, ⟨sessionCx, .message watcher watcherAsks⟩,
    ⟨sessionCx, .effectResult 1 (.ok (crates.encode unlocked))⟩]

end Mock

/-- One query, answered. -/
theorem watching_converges :
    Pushed.Converged (SessionPlugin.pusher Mock.crates) Eq (SessionPlugin.default Mock.crates)
        Mock.watching ∧
      Pushed.Converged (MediaPlugin.pusher Mock.crates) Media.Alike (MediaPlugin.default Mock.crates)
        [] := by
  have hreadable : Lib.Along (Pushed.step (SessionPlugin.pusher Mock.crates)) SessionPlugin.Readable
      (Pushed.start (SessionPlugin.default Mock.crates)) Mock.watching := by
    refine ⟨?_, ?_, ?_, trivial⟩
    · intro token bytes who hcall
      cases hcall
    · intro token bytes who hcall
      cases hcall
    · intro token bytes who hcall hwho hreply
      cases hcall
      exact ⟨Mock.unlocked, Mock.crates.decode_encode Mock.unlocked⟩
  exact pushed_state_converges Mock.crates hreadable []

end Acrylius
