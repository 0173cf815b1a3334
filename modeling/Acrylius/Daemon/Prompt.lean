import Acrylius.Lib.Run
import Acrylius.Lib.Table
import Acrylius.Mock

/-! Asking a person where they will see the question (`acryliusd`, `prompt.rs`): what becomes of the
question about a file, and who hears how the transfer ended. One task asks and tells, one after
another; a button can be pressed whenever that task waits for the desktop. -/
namespace Acrylius.Prompt
open Proto Std Share

def acceptKey : String := "accept"
def rejectKey : String := "reject"
def showKey : String := "show"
def matchKey : String := "match"
def differKey : String := "differ"

structure Path where
  directory : String
  name : String
deriving DecidableEq

inductive Notice where
  | pair (name fingerprint sas : String)
  | question (sender : String) (offer : Offer)
  | notArrived (reason : String)
  | received (path : Path)
deriving DecidableEq

def Notice.buttons : Notice → List String
  | .pair .. => [matchKey, differKey]
  | .question .. => [acceptKey, rejectKey]
  | .notArrived _ => []
  | .received _ => [showKey]

def Notice.isResult : Notice → Bool
  | .notArrived _ | .received _ => true
  | _ => false

structure Pressed where
  id : ℕ
  action : String

inductive Fate where
  | unasked
  | open
  | accepted
  | denied
  /-- Another question was given its notification's id. -/
  | displaced
  /-- The transfer ended. -/
  | finished
deriving DecidableEq

/-- What `Prompter` and `FileBulk` hold, and what the desktop and the core were told. -/
structure World where
  /-- Which offer a notification is asking about: who made it, and the transfer. -/
  asked : ExtTreeMap ℕ (String × TransferId)
  /-- Which directory a finished notification would open. -/
  finished : ExtTreeMap ℕ String
  /-- The pairing question on screen. -/
  pairing : Option ℕ
  offers : ExtTreeMap TransferId (String × Offer)
  landed : ExtTreeMap TransferId Path
  events : List LocalCommand
  opened : List String
  closed : List ℕ
  notices : List Notice
  /-- What was last shown under an id. -/
  shown : ℕ → Option Notice
  -- What follows is kept for what is proved: no operation looks at it.
  fates : TransferId → Fate
  refused : TransferId → Bool
  /-- What was shown where a button was pressed, and the transfer that this answered. -/
  answered : List (Option Notice × TransferId)

def isPairAnswer (action : String) : Bool := action = matchKey || action = differKey

def pairAnswer (action : String) (pressed : ℕ) (showing : Option ℕ) : Option Bool :=
  if showing ≠ some pressed then none
  else if action = matchKey then some true
  else if action = differKey then some false
  else none

/-- A press that is taken for the answer to an offer. -/
def answers (action : String) : Bool := action ≠ showKey && !isPairAnswer action

namespace World

def new : World where
  asked := ∅
  finished := ∅
  pairing := none
  offers := ∅
  landed := ∅
  events := []
  opened := []
  closed := []
  notices := []
  shown _ := none
  fates _ := .unasked
  refused _ := false
  answered := []

def results (w : World) : List Notice := w.notices.filter Notice.isResult

/-- `Notifier::show`. The desktop replies with the notification's id, or not at all. -/
def notify (w : World) (reply : Option ℕ) (n : Notice) : World :=
  { w with
    notices := w.notices ++ [n]
    shown := reply.elim w.shown fun id => Function.update w.shown id (some n) }

variable (X : Crates)

/-- Who a stored peer is; the id of a key of zeros stands for one that cannot be read. -/
def peerOf (peer : String) : DeviceId :=
  match DeviceId.parse peer with
  | .ok id => id
  | .error _ => DeviceId.of X ⟨List.replicate 32 0, by simp⟩

def pressed (w : World) (press : Pressed) : World :=
  if press.action = showKey then
    match w.finished[press.id]? with
    | some directory => { w with
        finished := w.finished.erase press.id
        opened := w.opened ++ [directory] }
    | none => w
  else if isPairAnswer press.action then
    match pairAnswer press.action press.id w.pairing with
    | none => w
    | some accept => { w with
        pairing := none
        events := w.events ++ [.confirmPairing accept] }
  else
    match w.asked[press.id]? with
    | none => w
    | some (peer, transfer) =>
      let accept := decide (press.action = acceptKey)
      { w with
        asked := w.asked.erase press.id
        offers := if accept then w.offers else w.offers.erase transfer
        events := w.events ++ [.plugin (peerOf X peer) Share.cap
          (if accept then "accept" else "reject") (X.encode (⟨transfer, accept, ""⟩ : Finished))]
        fates := Function.update w.fates transfer (if accept then .accepted else .denied)
        answered := w.answered ++ [(w.shown press.id, transfer)] }

def pressedAll (w : World) (presses : List Pressed) : World := presses.foldl (pressed X) w

def file (w : World) (id : ℕ) (peer : String) (transfer : TransferId) : World :=
  { w with
    asked := w.asked.insert id (peer, transfer)
    fates := Function.update
      (match w.asked[id]? with
        | some (_, old) => Function.update w.fates old .displaced
        | none => w.fates) transfer .open
    refused := Function.update w.refused transfer false }

def ask (w : World) (reply : Option ℕ) (peer sender : String) (offer : Offer)
    (between : List Pressed) : World :=
  let w := (w.notify reply (.question sender offer)).pressedAll X between
  match reply with
  | none => w
  | some id => w.file id peer offer.transfer

def stale (w : World) (transfer : TransferId) : List ℕ :=
  (w.asked.toList.filter fun e => e.2.2 = transfer).map (·.1)

def takeDown (w : World) (transfer : TransferId) : World :=
  { w with
    asked := (w.stale transfer).foldl ExtTreeMap.erase w.asked
    closed := w.closed ++ w.stale transfer
    fates := if w.fates transfer = .open then Function.update w.fates transfer .finished
      else w.fates }

/-- Say how a transfer ended, and where the file went: only for transfers this machine was asked
about. -/
def done (w : World) (transfer : TransferId) (ok : Bool) (detail : String) (reply : Option ℕ)
    (between : List Pressed) : World :=
  let s := w.takeDown transfer
  if (w.stale transfer).isEmpty then s
  else match s.landed[transfer]? with
    | none => if ok then s else (s.notify reply (.notArrived detail)).pressedAll X between
    | some path =>
      let s := { s with landed := s.landed.erase transfer }
      let s := (s.notify reply (.received path)).pressedAll X between
      match reply with
      | none => s
      | some id => { s with finished := s.finished.insert id path.directory }

def closePair (w : World) : World :=
  { w with pairing := none, closed := w.closed ++ w.pairing.toList }

def askPair (w : World) (reply : Option ℕ) (name fingerprint sas : String)
    (between : List Pressed) : World :=
  let w := (w.closePair.notify reply (.pair name fingerprint sas)).pressedAll X between
  match reply with
  | none => w
  | some id => { w with pairing := some id }

/-- The bytes of a transfer are in place (`FileBulk::receive`). -/
def land (w : World) (transfer : TransferId) (path : Path) : World :=
  { w with
    offers := w.offers.erase transfer
    landed := w.landed.insert transfer path }

def refuse (w : World) (transfer : TransferId) : World :=
  { w with
    offers := w.offers.erase transfer
    refused := Function.update w.refused transfer true }

end World

/-- What can happen next. `reply` is the id of the notification that this shows, and `between`
is what is pressed until the reply is there. -/
inductive Step where
  | ask (reply : Option ℕ) (peer sender : String) (offer : Offer) (between : List Pressed)
  | press (press : Pressed)
  | done (transfer : TransferId) (ok : Bool) (detail : String) (reply : Option ℕ)
      (between : List Pressed)
  | askPair (reply : Option ℕ) (name fingerprint sas : String) (between : List Pressed)
  | closePair
  | land (transfer : TransferId) (path : Path)
  | refuse (transfer : TransferId)

def World.step (X : Crates) (w : World) : Step → World
  | .ask reply peer sender offer between => w.ask X reply peer sender offer between
  | .press press => w.pressed X press
  | .done transfer ok detail reply between => w.done X transfer ok detail reply between
  | .askPair reply name fingerprint sas between => w.askPair X reply name fingerprint sas between
  | .closePair => w.closePair
  | .land transfer path => w.land transfer path
  | .refuse transfer => w.refuse transfer

/-- What is pressed while the step waits for the desktop. -/
def Step.presses : Step → List Pressed
  | .ask _ _ _ _ between | .done _ _ _ _ between | .askPair _ _ _ _ between => between
  | .press p => [p]
  | _ => []

namespace World

def tells (w : World) (transfer : TransferId) (ok : Bool) (detail : String) : Option Notice :=
  if (w.stale transfer).isEmpty then none
  else match w.landed[transfer]? with
    | none => if ok then none else some (.notArrived detail)
    | some path => some (.received path)

def showing (w : World) : Step → Option (Option ℕ × Notice)
  | .ask reply _ sender offer _ => some (reply, .question sender offer)
  | .done transfer ok detail reply _ => (w.tells transfer ok detail).map (reply, ·)
  | .askPair reply name fingerprint sas _ => some (reply, .pair name fingerprint sas)
  | _ => none

/-- What is on screen under each id while the step waits. -/
def screen (w : World) (i : Step) : ℕ → Option Notice :=
  match w.showing i with
  | some (reply, n) => (w.notify reply n).shown
  | none => w.shown

/-- The desktop reports buttons of what it shows, and the core announces an offer once: nothing is
asked about a transfer while a question about it is open. -/
structure Promised (w : World) (i : Step) : Prop where
  press : ∀ p ∈ i.presses, ∃ n, w.screen i p.id = some n ∧ p.action ∈ n.buttons
  once : ∀ reply peer sender offer between, i = .ask reply peer sender offer between →
    w.fates offer.transfer ≠ .open

/-- The press answered the transfer that its notification was about. -/
def Matches (e : Option Notice × TransferId) : Prop :=
  ∃ sender offer, e.1 = some (.question sender offer) ∧ offer.transfer = e.2

/-- A person was asked about the transfer, and did not deny it. -/
def Wanted (w : World) (transfer : TransferId) : Prop :=
  w.fates transfer ≠ .unasked ∧ w.fates transfer ≠ .denied ∧ w.refused transfer = false

/-- What the step owes whoever was asked: presses answer what they were made on, and the transfer
that ends, if it was wanted and its file has landed, has one result told that names the file; one
that was not wanted has none. -/
structure Serves (X : Crates) (w : World) (i : Step) : Prop where
  presses : ∀ e ∈ (w.step X i).answered, Matches e
  wanted : ∀ transfer ok detail reply between path, i = .done transfer ok detail reply between →
    w.Wanted transfer → w.landed[transfer]? = some path →
    (w.step X i).results = w.results ++ [.received path]
  unwanted : ∀ transfer ok detail reply between, i = .done transfer ok detail reply between →
    ¬ w.Wanted transfer → (w.step X i).results = w.results
  others : (∀ transfer ok detail reply between, i ≠ .done transfer ok detail reply between) →
    (w.step X i).results = w.results

/-- When it does. A question is not shown under an id that is still filed for another, if it is
pressed before it is filed itself; and when a transfer ends, no `accept` button has taken its
question, nor has its id gone to another, nor has it ended before; and if it was refused on the
command line, there is nothing to tell. -/
def Meets (w : World) : Step → Prop
  | .ask reply _ _ _ between => ∀ id, reply = some id → id ∈ w.asked →
    ∀ p ∈ between, p.id = id → answers p.action = false
  | .done transfer ok _ _ _ =>
    (w.landed[transfer]? ≠ none → w.refused transfer = false →
      w.fates transfer ≠ .accepted ∧ w.fates transfer ≠ .displaced ∧ w.fates transfer ≠ .finished) ∧
    (w.refused transfer = true → w.fates transfer = .open →
      w.landed[transfer]? = none ∧ ok = true)
  | _ => True

/-- The questions on file are the open ones, each filed once. -/
structure Filed (w : World) : Prop where
  open_iff : ∀ t, w.fates t = .open ↔ ∃ (id : ℕ) (peer : String), w.asked[id]? = some (peer, t)
  once : ∀ (id id' : ℕ) (peer peer' : String) (t : TransferId),
    w.asked[id]? = some (peer, t) → w.asked[id']? = some (peer', t) → id = id'

/-- But for one id, a question on screen is the one on file under its id. -/
def Aligned (w : World) (except : Option ℕ) : Prop :=
  ∀ (id : ℕ) (peer : String) (t : TransferId) (sender : String) (offer : Offer), except ≠ some id →
    w.asked[id]? = some (peer, t) → w.shown id = some (.question sender offer) → offer.transfer = t

section Press
variable {X : Crates} {w : World} {press : Pressed}

/-- A press opens a directory, settles a pairing, or answers the offer on file. -/
theorem pressed_cases (X : Crates) (w : World) (press : Pressed) :
    ((w.pressed X press).asked = w.asked ∧ (w.pressed X press).fates = w.fates ∧
      (w.pressed X press).answered = w.answered ∧
      (answers press.action = true → w.asked[press.id]? = none)) ∨
    ∃ peer t fate, answers press.action = true ∧ w.asked[press.id]? = some (peer, t) ∧
      (fate = .accepted ∨ fate = .denied) ∧
      (w.pressed X press).asked = w.asked.erase press.id ∧
      (w.pressed X press).fates = Function.update w.fates t fate ∧
      (w.pressed X press).answered = w.answered ++ [(w.shown press.id, t)] := by
  unfold pressed
  by_cases hshow : press.action = showKey
  · rw [if_pos hshow]
    left
    have hnot : answers press.action = true → w.asked[press.id]? = none := by
      simp [answers, hshow]
    split
    · exact ⟨rfl, rfl, rfl, hnot⟩
    · exact ⟨rfl, rfl, rfl, hnot⟩
  rw [if_neg hshow]
  by_cases hpair : isPairAnswer press.action = true
  · rw [if_pos hpair]
    left
    have hnot : answers press.action = true → w.asked[press.id]? = none := by
      simp [answers, hpair]
    split
    · exact ⟨rfl, rfl, rfl, hnot⟩
    · exact ⟨rfl, rfl, rfl, hnot⟩
  rw [if_neg hpair]
  have hanswers : answers press.action = true := by
    simp [answers, hshow, hpair]
  cases hasked : w.asked[press.id]? with
  | none => exact .inl ⟨rfl, rfl, rfl, fun _ => rfl⟩
  | some e =>
    obtain ⟨peer, t⟩ := e
    right
    refine ⟨peer, t, _, hanswers, rfl, ?_, rfl, rfl, rfl⟩
    split
    · exact .inl rfl
    · exact .inr rfl

theorem pressed_frame (X : Crates) (w : World) (press : Pressed) :
    (w.pressed X press).notices = w.notices ∧ (w.pressed X press).shown = w.shown ∧
      (w.pressed X press).landed = w.landed ∧ (w.pressed X press).refused = w.refused := by
  unfold pressed
  dsimp only
  split
  · split <;> exact ⟨rfl, rfl, rfl, rfl⟩
  · split
    · split <;> exact ⟨rfl, rfl, rfl, rfl⟩
    · split <;> exact ⟨rfl, rfl, rfl, rfl⟩

theorem Filed.pressed (h : Filed w) (X : Crates) (press : Pressed) : Filed (w.pressed X press) := by
  obtain ⟨hasked, hfates, -, -⟩ | ⟨peer, t, fate, -, hfiled, hfate, hasked, hfates, -⟩ :=
    pressed_cases X w press
  · constructor
    · rw [hasked, hfates]
      exact h.open_iff
    · rw [hasked]
      exact h.once
  · constructor
    · intro t'
      rw [hasked, hfates]
      by_cases ht : t' = t
      · subst ht
        rw [Function.update_self]
        constructor
        · intro hopen
          rcases hfate with hfate | hfate
          · simp [hfate] at hopen
          · simp [hfate] at hopen
        · intro ⟨id, peer', he⟩
          obtain ⟨hne, he⟩ := Lib.getElem?_of_erase he
          exact absurd (h.once _ _ _ _ _ he hfiled) hne
      · rw [Function.update_of_ne ht, h.open_iff]
        constructor
        · intro ⟨id, peer', he⟩
          have hne : id ≠ press.id := by
            intro hsame
            subst hsame
            have heq := he.symm.trans hfiled
            simp only [Option.some.injEq, Prod.mk.injEq] at heq
            exact ht heq.2
          exact ⟨id, peer', (Lib.getElem?_erase_of_ne hne).trans he⟩
        · intro ⟨id, peer', he⟩
          exact ⟨id, peer', (Lib.getElem?_of_erase he).2⟩
    · intro id id' peer' peer'' t' he he'
      rw [hasked] at he he'
      exact h.once _ _ _ _ _ (Lib.getElem?_of_erase he).2 (Lib.getElem?_of_erase he').2

theorem asked_pressed {id : ℕ} {e : String × TransferId}
    (h : (w.pressed X press).asked[id]? = some e) : w.asked[id]? = some e := by
  obtain ⟨hasked, -⟩ | ⟨peer, t, fate, -, -, -, hasked, -⟩ := pressed_cases X w press
  · rwa [hasked] at h
  · rw [hasked] at h
    exact (Lib.getElem?_of_erase h).2

theorem Aligned.pressed {except : Option ℕ} (h : Aligned w except) (X : Crates)
    (press : Pressed) : Aligned (w.pressed X press) except := by
  intro id peer t sender offer hid he hs
  rw [(pressed_frame X w press).2.1] at hs
  exact h id peer t sender offer hid (asked_pressed he) hs

/-- A press closes a question or leaves it open; it opens none. -/
theorem fates_pressed (X : Crates) (w : World) (press : Pressed) {t : TransferId}
    (h : (w.pressed X press).fates t = .open) : w.fates t = .open := by
  obtain ⟨-, hfates, -, -⟩ | ⟨peer, t', fate, -, -, hfate, -, hfates, -⟩ := pressed_cases X w press
  · rwa [hfates] at h
  · rw [hfates] at h
    by_cases ht : t = t'
    · subst ht
      rw [Function.update_self] at h
      rcases hfate with hfate | hfate
      · simp [hfate] at h
      · simp [hfate] at h
    · rwa [Function.update_of_ne ht] at h

end Press

section Presses
variable {X : Crates} {w : World} {presses : List Pressed}

theorem pressedAll_frame (X : Crates) (w : World) (presses : List Pressed) :
    (w.pressedAll X presses).notices = w.notices ∧ (w.pressedAll X presses).shown = w.shown ∧
      (w.pressedAll X presses).landed = w.landed ∧
      (w.pressedAll X presses).refused = w.refused := by
  induction presses generalizing w with
  | nil => exact ⟨rfl, rfl, rfl, rfl⟩
  | cons p ps ih =>
    obtain ⟨hn, hs, hl, hr⟩ := pressed_frame X w p
    obtain ⟨hn', hs', hl', hr'⟩ := ih (w.pressed X p)
    exact ⟨hn'.trans hn, hs'.trans hs, hl'.trans hl, hr'.trans hr⟩

theorem Filed.pressedAll (h : Filed w) (X : Crates) (presses : List Pressed) :
    Filed (w.pressedAll X presses) := by
  induction presses generalizing w with
  | nil => exact h
  | cons p ps ih => exact ih (h.pressed X p)

theorem Aligned.pressedAll {except : Option ℕ} (h : Aligned w except) (X : Crates)
    (presses : List Pressed) : Aligned (w.pressedAll X presses) except := by
  induction presses generalizing w with
  | nil => exact h
  | cons p ps ih => exact ih (h.pressed X p)

theorem fates_pressedAll (X : Crates) (w : World) (presses : List Pressed) {t : TransferId}
    (h : (w.pressedAll X presses).fates t = .open) : w.fates t = .open := by
  induction presses generalizing w with
  | nil => exact h
  | cons p ps ih => exact fates_pressed X w p (ih (w.pressed X p) h)

/-- Where each question that is answered is on screen under its id, presses answer what they were
made on. -/
theorem answered_pressedAll (hold : ∀ e ∈ w.answered, Matches e)
    (hfit : ∀ p ∈ presses, answers p.action = true → ∀ (peer : String) (t : TransferId),
      w.asked[p.id]? = some (peer, t) → Matches (w.shown p.id, t)) :
    ∀ e ∈ (w.pressedAll X presses).answered, Matches e := by
  induction presses generalizing w with
  | nil => exact hold
  | cons p ps ih =>
    have hshown := (pressed_frame X w p).2.1
    apply ih
    · obtain ⟨-, -, hsame, -⟩ | ⟨peer, t, fate, hanswers, hfiled, -, -, -, hadd⟩ :=
        pressed_cases X w p
      · rw [hsame]
        exact hold
      · rw [hadd]
        intro e he
        rcases List.mem_append.mp he with he | he
        · exact hold e he
        · have hself : e = (w.shown p.id, t) := List.mem_singleton.mp he
          subst hself
          exact hfit p List.mem_cons_self hanswers peer t hfiled
    · intro q hq hanswers peer t hfiled
      rw [hshown]
      exact hfit q (List.mem_cons_of_mem p hq) hanswers peer t (asked_pressed hfiled)

theorem answered_mono {e : Option Notice × TransferId} (he : e ∈ w.answered)
    (presses : List Pressed) : e ∈ (w.pressedAll X presses).answered := by
  induction presses generalizing w with
  | nil => exact he
  | cons p ps ih =>
    apply ih
    obtain ⟨-, -, hsame, -⟩ | ⟨peer, t, fate, -, -, -, -, -, hadd⟩ := pressed_cases X w p
    · rwa [hsame]
    · rw [hadd]
      exact List.mem_append_left _ he

/-- A question that is on file is answered by the first press that answers. -/
theorem mem_answered {id : ℕ} {peer : String} {t : TransferId} {p : Pressed}
    (hfiled : w.asked[id]? = some (peer, t)) (hp : p ∈ presses) (hid : p.id = id)
    (hanswers : answers p.action = true) :
    (w.shown id, t) ∈ (w.pressedAll X presses).answered := by
  induction presses generalizing w with
  | nil => simp at hp
  | cons q qs ih =>
    have hshown := (pressed_frame X w q).2.1
    obtain ⟨hasked, -, -, hnone⟩ | ⟨peer', t', fate, -, hfiled', -, hasked, -, hadd⟩ :=
      pressed_cases X w q
    · rcases List.mem_cons.mp hp with hself | hp
      · subst hself
        rw [hid, hfiled] at hnone
        simp [hanswers] at hnone
      · have hrest := ih (w := w.pressed X q) (by rwa [hasked]) hp
        rwa [hshown] at hrest
    · by_cases hq : q.id = id
      · subst hq
        have hsame : t = t' := by
          rw [hfiled] at hfiled'
          simp only [Option.some.injEq, Prod.mk.injEq] at hfiled'
          exact hfiled'.2
        subst hsame
        have hhere : (w.shown q.id, t) ∈ (w.pressed X q).answered := by
          rw [hadd]
          exact List.mem_append_right _ List.mem_cons_self
        exact answered_mono hhere qs
      · have hstill : (w.pressed X q).asked[id]? = some (peer, t) := by
          rw [hasked, Lib.getElem?_erase_of_ne (Ne.symm hq)]
          exact hfiled
        rcases List.mem_cons.mp hp with hself | hp
        · subst hself
          exact absurd hid hq
        · have hrest := ih hstill hp
          rwa [hshown] at hrest

end Presses

section Questions
variable {X : Crates} {w : World}

theorem Filed.of_same {w' : World} (h : Filed w) (hasked : w'.asked = w.asked)
    (hfates : w'.fates = w.fates) : Filed w' where
  open_iff := by
    rw [hasked, hfates]
    exact h.open_iff
  once := by
    rw [hasked]
    exact h.once

theorem Aligned.of_same {w' : World} {except : Option ℕ} (h : Aligned w except)
    (hasked : w'.asked = w.asked) (hshown : w'.shown = w.shown) : Aligned w' except := by
  intro id peer t sender offer hid he hs
  rw [hasked] at he
  rw [hshown] at hs
  exact h id peer t sender offer hid he hs

/-- What a new notification shows is on file nowhere else. -/
theorem Aligned.notify (h : Aligned w none) (reply : Option ℕ) (n : Notice) :
    Aligned (w.notify reply n) reply := by
  intro id peer t sender offer hid he hs
  cases reply with
  | none => exact h id peer t sender offer nofun he hs
  | some new =>
    have hne : id ≠ new := by
      intro hsame
      subst hsame
      exact hid rfl
    have hs : Function.update w.shown new (some n) id = some (.question sender offer) := hs
    rw [Function.update_of_ne hne] at hs
    exact h id peer t sender offer nofun he hs

/-- A notification that is no question takes its id from none. -/
theorem Aligned.close {reply : Option ℕ} {n : Notice} (h : Aligned w reply)
    (hshown : ∀ id, reply = some id → w.shown id = some n)
    (hn : ∀ sender offer, n ≠ .question sender offer) : Aligned w none := by
  intro id peer t sender offer _ he hs
  by_cases hid : reply = some id
  · rw [hshown id hid] at hs
    exact absurd (Option.some.inj hs) (hn sender offer)
  · exact h id peer t sender offer hid he hs

/-- A question is filed about a transfer that has none on file. -/
theorem Filed.file (h : Filed w) {id : ℕ} {peer : String} {t : TransferId}
    (hnew : w.fates t ≠ .open) : Filed (w.file id peer t) := by
  have hnone : ∀ (i : ℕ) (q : String), w.asked[i]? ≠ some (q, t) := by
    intro i q hi
    exact hnew ((h.open_iff t).mpr ⟨i, q, hi⟩)
  constructor
  · intro t'
    have hfates : (w.file id peer t).fates = Function.update
      (match w.asked[id]? with
        | some (_, old) => Function.update w.fates old .displaced
        | none => w.fates) t .open := rfl
    have hasked : (w.file id peer t).asked = w.asked.insert id (peer, t) := rfl
    rw [hfates, hasked]
    by_cases ht : t' = t
    · subst ht
      rw [Function.update_self]
      exact iff_of_true rfl ⟨id, peer, ExtTreeMap.getElem?_insert_self⟩
    rw [Function.update_of_ne ht]
    have hother : ∀ (i : ℕ) (q : String), (w.asked.insert id (peer, t))[i]? = some (q, t') ↔
        i ≠ id ∧ w.asked[i]? = some (q, t') := by
      intro i q
      by_cases hi : i = id
      · subst hi
        have hne : t ≠ t' := fun hsame => ht hsame.symm
        simp [hne]
      · rw [Lib.getElem?_insert_of_ne hi]
        simp [hi]
    simp only [hother]
    cases hold : w.asked[id]? with
    | none =>
      dsimp only
      rw [h.open_iff]
      constructor
      · intro ⟨i, q, hi⟩
        refine ⟨i, q, ?_, hi⟩
        intro hsame
        rw [hsame, hold] at hi
        cases hi
      · intro ⟨i, q, _, hi⟩
        exact ⟨i, q, hi⟩
    | some e =>
      obtain ⟨peer', old⟩ := e
      dsimp only
      by_cases ho : t' = old
      · subst ho
        rw [Function.update_self]
        apply iff_of_false nofun
        intro ⟨i, q, hne, hi⟩
        exact hne (h.once _ _ _ _ _ hi hold)
      · rw [Function.update_of_ne ho, h.open_iff]
        constructor
        · intro ⟨i, q, hi⟩
          refine ⟨i, q, ?_, hi⟩
          intro hsame
          rw [hsame, hold] at hi
          simp only [Option.some.injEq, Prod.mk.injEq] at hi
          exact ho hi.2.symm
        · intro ⟨i, q, _, hi⟩
          exact ⟨i, q, hi⟩
  · intro i j q q' t' hi hj
    have hi : (w.asked.insert id (peer, t))[i]? = some (q, t') := hi
    have hj : (w.asked.insert id (peer, t))[j]? = some (q', t') := hj
    rcases Lib.getElem?_of_insert hi with ⟨hsame, heq⟩ | ⟨-, hold⟩
    · have ht : t' = t := congrArg Prod.snd heq
      subst ht
      rcases Lib.getElem?_of_insert hj with ⟨hsame', -⟩ | ⟨-, hold'⟩
      · rw [hsame, hsame']
      · exact absurd hold' (hnone j q')
    · rcases Lib.getElem?_of_insert hj with ⟨-, heq⟩ | ⟨-, hold'⟩
      · have ht : t' = t := congrArg Prod.snd heq
        subst ht
        exact absurd hold (hnone i q)
      · exact h.once i j q q' t' hold hold'

/-- Filed under the id that it is shown under, the question is aligned like the others. -/
theorem Aligned.file {id : ℕ} (h : Aligned w (some id)) {peer sender : String} {offer : Offer}
    (hid : w.shown id = some (.question sender offer)) :
    Aligned (w.file id peer offer.transfer) none := by
  intro i q t sender' offer' _ he hs
  have he : (w.asked.insert id (peer, offer.transfer))[i]? = some (q, t) := he
  have hs : w.shown i = some (.question sender' offer') := hs
  rcases Lib.getElem?_of_insert he with ⟨hsame, heq⟩ | ⟨hne, he⟩
  · have ht : t = offer.transfer := congrArg Prod.snd heq
    rw [hsame, hid] at hs
    simp only [Option.some.injEq, Notice.question.injEq] at hs
    rw [← hs.2, ht]
  · have hother : some id ≠ some i := by
      intro hsame
      exact hne (Option.some.inj hsame).symm
    exact h i q t sender' offer' hother he hs

theorem mem_stale {t : TransferId} {i : ℕ} :
    i ∈ w.stale t ↔ ∃ peer, w.asked[i]? = some (peer, t) := by
  unfold stale
  simp only [List.mem_map, List.mem_filter, decide_eq_true_eq]
  constructor
  · intro ⟨⟨j, peer, t'⟩, ⟨hmem, ht⟩, hj⟩
    have ht : t' = t := ht
    have hj : j = i := hj
    subst ht hj
    exact ⟨peer, ExtTreeMap.mem_toList_iff_getElem?_eq_some.mp hmem⟩
  · intro ⟨peer, he⟩
    exact ⟨(i, peer, t), ⟨ExtTreeMap.mem_toList_iff_getElem?_eq_some.mpr he, rfl⟩, rfl⟩

theorem asked_takeDown {t : TransferId} {i : ℕ} {peer : String} {t' : TransferId} :
    (w.takeDown t).asked[i]? = some (peer, t') ↔ w.asked[i]? = some (peer, t') ∧ t' ≠ t := by
  have hasked : (w.takeDown t).asked[i]? = if i ∈ w.stale t then none else w.asked[i]? :=
    Lib.getElem?_foldl_erase
  rw [hasked]
  by_cases hmem : i ∈ w.stale t
  · obtain ⟨q, hq⟩ := mem_stale.mp hmem
    rw [if_pos hmem, hq]
    apply iff_of_false nofun
    intro ⟨heq, hne⟩
    simp only [Option.some.injEq, Prod.mk.injEq] at heq
    exact hne heq.2.symm
  · rw [if_neg hmem]
    constructor
    · intro h
      refine ⟨h, ?_⟩
      intro hsame
      subst hsame
      exact hmem (mem_stale.mpr ⟨peer, h⟩)
    · exact And.left

/-- The transfer has a question up exactly if it is open. -/
theorem Filed.stale_eq_nil (h : Filed w) {t : TransferId} :
    w.stale t = [] ↔ w.fates t ≠ .open := by
  rw [ne_eq, h.open_iff, List.eq_nil_iff_forall_not_mem]
  simp only [mem_stale, not_exists]

theorem Filed.takeDown (h : Filed w) (t : TransferId) : Filed (w.takeDown t) := by
  constructor
  · intro t'
    simp only [asked_takeDown]
    have hfates : (w.takeDown t).fates = if w.fates t = .open then
      Function.update w.fates t .finished else w.fates := rfl
    rw [hfates]
    by_cases ht : t' = t
    · subst ht
      have hclosed : (if w.fates t' = .open then Function.update w.fates t' .finished
          else w.fates) t' ≠ .open := by
        split
        · rw [Function.update_self]
          nofun
        · assumption
      simp [hclosed]
    · have hsame : (if w.fates t = .open then Function.update w.fates t .finished
          else w.fates) t' = w.fates t' := by
        split
        · rw [Function.update_of_ne ht]
        · rfl
      rw [hsame, h.open_iff]
      simp [ht]
  · intro i j q q' t' hi hj
    exact h.once i j q q' t' (asked_takeDown.mp hi).1 (asked_takeDown.mp hj).1

theorem Aligned.takeDown (h : Aligned w none) (t : TransferId) : Aligned (w.takeDown t) none := by
  intro i q t' sender offer hid hi hs
  exact h i q t' sender offer hid (asked_takeDown.mp hi).1 hs

end Questions

section Step
variable {X : Crates} {w : World}

theorem results_notify (w : World) (reply : Option ℕ) (n : Notice) :
    (w.notify reply n).results = w.results ++ if n.isResult then [n] else [] := by
  simp [results, notify, List.filter_append, List.filter_singleton]

theorem results_pressedAll (X : Crates) (w : World) (presses : List Pressed) :
    (w.pressedAll X presses).results = w.results := by
  simp only [results, (pressedAll_frame X w presses).1]

theorem results_ask (w : World) (reply : Option ℕ) (peer sender : String) (offer : Offer)
    (between : List Pressed) : (w.ask X reply peer sender offer between).results = w.results := by
  have hpressed : ((w.notify reply (.question sender offer)).pressedAll X between).results =
      w.results := by
    rw [results_pressedAll, results_notify]
    simp [Notice.isResult]
  cases reply with
  | none => exact hpressed
  | some id => exact hpressed

/-- What `done` says of the transfer is all that is said. -/
theorem results_done (w : World) (t : TransferId) (ok : Bool) (detail : String) (reply : Option ℕ)
    (between : List Pressed) : (w.done X t ok detail reply between).results =
      w.results ++ (w.tells t ok detail).toList := by
  unfold done tells
  dsimp only
  have hlanded : (w.takeDown t).landed[t]? = w.landed[t]? := rfl
  rw [hlanded]
  cases hstale : (w.stale t).isEmpty with
  | true => simp [takeDown, results]
  | false =>
    simp only [Bool.false_eq_true, if_false]
    cases hl : w.landed[t]? with
    | none =>
      cases ok with
      | true => simp [takeDown, results]
      | false =>
        simp only [Bool.false_eq_true, if_false]
        rw [results_pressedAll, results_notify]
        simp [Notice.isResult, takeDown, results]
    | some path =>
      have htold : (({ w.takeDown t with landed := (w.takeDown t).landed.erase t }.notify reply
          (.received path)).pressedAll X between).results = w.results ++ [.received path] := by
        rw [results_pressedAll, results_notify]
        simp [Notice.isResult, takeDown, results]
      cases reply with
      | none => exact htold
      | some id => exact htold

/-- The tables of questions are the same, and so is what is on screen and has been answered. -/
structure SameQuestions (w w' : World) : Prop where
  asked : w'.asked = w.asked
  fates : w'.fates = w.fates
  shown : w'.shown = w.shown
  answered : w'.answered = w.answered

/-- `done` takes the questions down, and if it then says something, buttons are pressed. -/
theorem done_cases (w : World) (t : TransferId) (ok : Bool) (detail : String) (reply : Option ℕ)
    (between : List Pressed) :
    (w.tells t ok detail = none ∧
      SameQuestions (w.takeDown t) (w.done X t ok detail reply between)) ∨
    ∃ n s, w.tells t ok detail = some n ∧ n.isResult = true ∧ SameQuestions (w.takeDown t) s ∧
      SameQuestions ((s.notify reply n).pressedAll X between)
        (w.done X t ok detail reply between) := by
  unfold done tells
  dsimp only
  have hlanded : (w.takeDown t).landed[t]? = w.landed[t]? := rfl
  rw [hlanded]
  cases hstale : (w.stale t).isEmpty with
  | true => exact .inl ⟨rfl, rfl, rfl, rfl, rfl⟩
  | false =>
    simp only [Bool.false_eq_true, if_false]
    cases hl : w.landed[t]? with
    | none =>
      cases ok with
      | true => exact .inl ⟨rfl, rfl, rfl, rfl, rfl⟩
      | false => exact .inr ⟨_, _, rfl, rfl, ⟨rfl, rfl, rfl, rfl⟩, rfl, rfl, rfl, rfl⟩
    | some path =>
      right
      refine ⟨_, { w.takeDown t with landed := (w.takeDown t).landed.erase t }, rfl, rfl,
        ⟨rfl, rfl, rfl, rfl⟩, ?_⟩
      cases reply with
      | none => exact ⟨rfl, rfl, rfl, rfl⟩
      | some id => exact ⟨rfl, rfl, rfl, rfl⟩

/-- Only a question has a button that answers an offer. -/
theorem question_of_answers {n : Notice} {action : String} (hbutton : action ∈ n.buttons)
    (hanswers : answers action = true) : ∃ sender offer, n = .question sender offer := by
  cases n with
  | question sender offer => exact ⟨sender, offer, rfl⟩
  | pair name fingerprint sas =>
    have hpair : isPairAnswer action = true := by simpa [Notice.buttons, isPairAnswer] using hbutton
    simp [answers, hpair] at hanswers
  | notArrived reason => simp [Notice.buttons] at hbutton
  | received path =>
    have hshow : action = showKey := by simpa [Notice.buttons] using hbutton
    simp [answers, hshow] at hanswers

def Honest (w : World) : Prop := ∀ e ∈ w.answered, Matches e

/-- Buttons of what is on screen answer what they were made on, unless they are on a notification
whose id is still on file for another. -/
theorem Honest.window (h : Honest w) (ha : Aligned w none) {reply : Option ℕ} {n : Notice}
    {between : List Pressed}
    (hpress : ∀ p ∈ between, ∃ m, (w.notify reply n).shown p.id = some m ∧ p.action ∈ m.buttons)
    (hreply : ∀ id, reply = some id → id ∈ w.asked →
      ∀ p ∈ between, p.id = id → answers p.action = false) :
    Honest ((w.notify reply n).pressedAll X between) := by
  have haligned := ha.notify reply n
  apply answered_pressedAll (w := w.notify reply n) h
  intro p hp hanswers peer t hfiled
  obtain ⟨m, hm, hbutton⟩ := hpress p hp
  obtain ⟨sender, offer, hquestion⟩ := question_of_answers hbutton hanswers
  rw [hquestion] at hm
  have hother : reply ≠ some p.id := by
    intro hid
    have hmem : p.id ∈ w.asked := by
      have hfiled : w.asked[p.id]? = some (peer, t) := hfiled
      rw [ExtTreeMap.mem_iff_isSome_getElem?, hfiled]
      rfl
    have hnot := hreply p.id hid hmem p hp rfl
    rw [hnot] at hanswers
    cases hanswers
  exact ⟨sender, offer, hm, haligned p.id peer t sender offer hother hfiled hm⟩

theorem Honest.press (h : Honest w) (ha : Aligned w none) {p : Pressed}
    (hpress : ∃ m, w.shown p.id = some m ∧ p.action ∈ m.buttons) : Honest (w.pressed X p) := by
  obtain ⟨m, hm, hbutton⟩ := hpress
  have hall : Honest (w.pressedAll X [p]) := by
    apply answered_pressedAll h
    intro q hq hanswers peer t hfiled
    have hself : q = p := List.mem_singleton.mp hq
    subst hself
    obtain ⟨sender, offer, hquestion⟩ := question_of_answers hbutton hanswers
    rw [hquestion] at hm
    exact ⟨sender, offer, hm, ha q.id peer t sender offer nofun hfiled hm⟩
  exact hall

/-- On a notification that is no question nothing is answered. -/
theorem silent_reply {reply : Option ℕ} {n : Notice} {between : List Pressed}
    (hn : ∀ sender offer, n ≠ .question sender offer)
    (hpress : ∀ p ∈ between, ∃ m, (w.notify reply n).shown p.id = some m ∧ p.action ∈ m.buttons) :
    ∀ id, reply = some id → id ∈ w.asked → ∀ p ∈ between, p.id = id → answers p.action = false := by
  intro id hreply _ p hp hid
  obtain ⟨m, hm, hbutton⟩ := hpress p hp
  have hshown : (w.notify reply n).shown p.id = some n := by
    rw [hid, hreply]
    exact Function.update_self _ _ _
  rw [hshown] at hm
  have hself := Option.some.inj hm
  subst hself
  by_contra hanswers
  obtain ⟨sender, offer, heq⟩ := question_of_answers hbutton (by simpa using hanswers)
  exact hn sender offer heq

structure Orderly (w : World) : Prop where
  filed : Filed w
  aligned : Aligned w none
  honest : Honest w

theorem Orderly.of_same {w' : World} (h : Orderly w) (hs : SameQuestions w w') : Orderly w' where
  filed := h.filed.of_same hs.asked hs.fates
  aligned := h.aligned.of_same hs.asked hs.shown
  honest := by
    unfold Honest
    rw [hs.answered]
    exact h.honest

theorem Orderly.takeDown (h : Orderly w) (t : TransferId) : Orderly (w.takeDown t) :=
  ⟨h.filed.takeDown t, h.aligned.takeDown t, h.honest⟩

/-- A notification that is no question, and what is pressed while it comes up. -/
theorem Orderly.window (h : Orderly w) {reply : Option ℕ} {n : Notice} {between : List Pressed}
    (hn : ∀ sender offer, n ≠ .question sender offer)
    (hpress : ∀ p ∈ between, ∃ m, (w.notify reply n).shown p.id = some m ∧ p.action ∈ m.buttons) :
    Orderly ((w.notify reply n).pressedAll X between) := by
  have hsame : (w.notify reply n).asked = w.asked ∧ (w.notify reply n).fates = w.fates := ⟨rfl, rfl⟩
  constructor
  · exact (h.filed.of_same hsame.1 hsame.2).pressedAll X between
  · have haligned := (h.aligned.notify reply n).pressedAll X between
    apply haligned.close (n := n) _ hn
    intro id hid
    rw [(pressedAll_frame X _ between).2.1, hid]
    exact Function.update_self _ _ _
  · exact h.honest.window h.aligned hpress (silent_reply hn hpress)

theorem Orderly.ask (h : Orderly w) {reply : Option ℕ} {peer sender : String} {offer : Offer}
    {between : List Pressed} (hnew : w.fates offer.transfer ≠ .open)
    (hhonest : Honest ((w.notify reply (.question sender offer)).pressedAll X between)) :
    Orderly (w.ask X reply peer sender offer between) := by
  have hsame : (w.notify reply (.question sender offer)).asked = w.asked ∧
      (w.notify reply (.question sender offer)).fates = w.fates := ⟨rfl, rfl⟩
  have hfiled := (h.filed.of_same hsame.1 hsame.2).pressedAll X between
  have haligned := (h.aligned.notify reply (.question sender offer)).pressedAll X between
  cases reply with
  | none => exact ⟨hfiled, haligned, hhonest⟩
  | some id =>
    constructor
    · apply hfiled.file
      intro hopen
      have hbefore : (w.notify (some id) (.question sender offer)).fates offer.transfer = .open :=
        fates_pressedAll X _ between hopen
      exact hnew hbefore
    · have hshown : ((w.notify (some id) (.question sender offer)).pressedAll X between).shown id =
          some (.question sender offer) := by
        rw [(pressedAll_frame X _ between).2.1]
        exact Function.update_self _ _ _
      exact haligned.file hshown
    · exact hhonest

theorem screen_done {t : TransferId} {ok : Bool} {detail : String} {reply : Option ℕ}
    {between : List Pressed} {n : Notice} (hn : w.tells t ok detail = some n) :
    w.screen (.done t ok detail reply between) = (w.notify reply n).shown := by
  simp only [screen, showing, hn, Option.map_some]

/-- Every step leaves things in order, if no question is pressed while its id is still filed for
another. -/
theorem Orderly.step (h : Orderly w) {i : Step} (hp : w.Promised i) (hm : w.Meets i) :
    Orderly (w.step X i) := by
  cases i with
  | ask reply peer sender offer between =>
    have hnew := hp.once reply peer sender offer between rfl
    exact h.ask hnew (h.honest.window h.aligned hp.press hm)
  | press p =>
    exact ⟨h.filed.pressed X p, h.aligned.pressed X p, h.honest.press h.aligned (hp.press p
      List.mem_cons_self)⟩
  | done t ok detail reply between =>
    obtain ⟨-, hsame⟩ | ⟨n, s, hn, hresult, hdown, hsame⟩ := done_cases (X := X) w t ok detail reply
      between
    · exact (h.takeDown t).of_same hsame
    · have hs : Orderly s := (h.takeDown t).of_same hdown
      apply Orderly.of_same _ hsame
      apply hs.window
      · intro sender offer hquestion
        rw [hquestion] at hresult
        simp [Notice.isResult] at hresult
      · have hpress := hp.press
        rw [screen_done hn] at hpress
        have hshown : (s.notify reply n).shown = (w.notify reply n).shown := by
          simp only [notify, hdown.shown]
          rfl
        rw [hshown]
        exact hpress
  | askPair reply name fingerprint sas between =>
    have hclosed : Orderly w.closePair := h.of_same ⟨rfl, rfl, rfl, rfl⟩
    have hwindow : Orderly ((w.closePair.notify reply (.pair name fingerprint sas)).pressedAll X
        between) := hclosed.window nofun hp.press
    cases reply with
    | none => exact hwindow
    | some id => exact hwindow.of_same ⟨rfl, rfl, rfl, rfl⟩
  | closePair => exact h.of_same ⟨rfl, rfl, rfl, rfl⟩
  | land t path => exact h.of_same ⟨rfl, rfl, rfl, rfl⟩
  | refuse t => exact h.of_same ⟨rfl, rfl, rfl, rfl⟩

/-- When a transfer ends, what is said of it is what was owed. -/
theorem Orderly.done_iff (h : Orderly w) (t : TransferId) (ok : Bool) (detail : String) :
    ((∀ path, w.Wanted t → w.landed[t]? = some path → w.tells t ok detail = some (.received path)) ∧
      (¬ w.Wanted t → w.tells t ok detail = none)) ↔
    ((w.landed[t]? ≠ none → w.refused t = false →
        w.fates t ≠ .accepted ∧ w.fates t ≠ .displaced ∧ w.fates t ≠ .finished) ∧
      (w.refused t = true → w.fates t = .open → w.landed[t]? = none ∧ ok = true)) := by
  have hstale : (w.stale t).isEmpty = true ↔ w.fates t ≠ .open := by
    rw [List.isEmpty_iff, h.filed.stale_eq_nil]
  unfold Wanted tells
  by_cases hopen : w.fates t = .open
  · have hsome : ¬ (w.stale t).isEmpty = true := by
      rw [hstale]
      simp [hopen]
    rw [if_neg hsome, hopen]
    cases w.landed[t]? with
    | none =>
      cases ok <;> cases w.refused t <;> simp
    | some path => cases w.refused t <;> simp
  · rw [if_pos (hstale.mpr hopen)]
    cases hf : w.fates t with
    | «open» => exact absurd hf hopen
    | unasked => simp
    | denied => simp
    | accepted => cases w.landed[t]? <;> cases w.refused t <;> simp
    | displaced => cases w.landed[t]? <;> cases w.refused t <;> simp
    | finished => cases w.landed[t]? <;> cases w.refused t <;> simp

/-- A question that is pressed while its id is filed for another answers that other one. -/
theorem answered_wrong (h : Orderly w) {id : ℕ} {sender : String} {offer : Offer}
    {between : List Pressed} (hnew : w.fates offer.transfer ≠ .open) (hid : id ∈ w.asked)
    {p : Pressed} (hp : p ∈ between) (hpid : p.id = id) (hanswers : answers p.action = true) :
    ¬ Honest ((w.notify (some id) (.question sender offer)).pressedAll X between) := by
  intro hhonest
  obtain ⟨⟨peer, old⟩, hold⟩ := Option.isSome_iff_exists.mp
    (ExtTreeMap.mem_iff_isSome_getElem?.mp hid)
  have hshown : (w.notify (some id) (.question sender offer)).shown id =
      some (.question sender offer) := Function.update_self _ _ _
  have hmem := mem_answered (X := X) (w := w.notify (some id) (.question sender offer)) hold hp
    hpid hanswers
  obtain ⟨sender', offer', heq, ht⟩ := hhonest _ hmem
  rw [hshown] at heq
  simp only [Option.some.injEq, Notice.question.injEq] at heq
  have hopen : w.fates old = .open := (h.filed.open_iff old).mpr ⟨id, peer, hold⟩
  have hsame : offer.transfer = old := by rw [heq.2, ht]
  rw [hsame] at hnew
  exact hnew hopen

theorem results_step {i : Step} (hi : ∀ t ok detail reply between, i ≠ .done t ok detail reply between) :
    (w.step X i).results = w.results := by
  cases i with
  | ask reply peer sender offer between => exact results_ask w reply peer sender offer between
  | press p =>
    have hnotices := (pressed_frame X w p).1
    simp only [results, step, hnotices]
  | done t ok detail reply between => exact absurd rfl (hi t ok detail reply between)
  | askPair reply name fingerprint sas between =>
    have hwindow : ((w.closePair.notify reply (.pair name fingerprint sas)).pressedAll X
        between).results = w.results := by
      rw [results_pressedAll, results_notify]
      simp [Notice.isResult, closePair, results]
    cases reply with
    | none => exact hwindow
    | some id => exact hwindow
  | closePair => rfl
  | land t path => rfl
  | refuse t => rfl

/-- A step gives what it owes exactly if it meets the condition. -/
theorem Orderly.serves_iff (h : Orderly w) {i : Step} (hp : w.Promised i) :
    Serves X w i ↔ w.Meets i := by
  constructor
  · intro hserves
    cases i with
    | ask reply peer sender offer between =>
      intro id hreply hid p hmem hpid
      subst hreply
      by_contra hanswers
      have hnew := hp.once (some id) peer sender offer between rfl
      have hhonest : Honest ((w.notify (some id) (.question sender offer)).pressedAll X between) :=
        hserves.presses
      exact answered_wrong h hnew hid hmem hpid (by simpa using hanswers) hhonest
    | done t ok detail reply between =>
      apply (h.done_iff t ok detail).mp
      constructor
      · intro path hwanted hlanded
        have hresults := hserves.wanted t ok detail reply between path rfl hwanted hlanded
        have hdone := results_done (X := X) w t ok detail reply between
        have hboth := hdone.symm.trans hresults
        cases htells : w.tells t ok detail with
        | none => simp [htells] at hboth
        | some n => simpa [htells] using hboth
      · intro hnot
        have hresults := hserves.unwanted t ok detail reply between rfl hnot
        have hboth := (results_done (X := X) w t ok detail reply between).symm.trans hresults
        cases htells : w.tells t ok detail with
        | none => rfl
        | some n => simp [htells] at hboth
    | press p => trivial
    | askPair reply name fingerprint sas between => trivial
    | closePair => trivial
    | land t path => trivial
    | refuse t => trivial
  · intro hmeets
    constructor
    · exact (h.step hp hmeets).honest
    · intro t ok detail reply between path hi hwanted hlanded
      subst hi
      have htells := ((h.done_iff t ok detail).mpr hmeets).1 path hwanted hlanded
      change (w.done X t ok detail reply between).results = _
      rw [results_done, htells]
      rfl
    · intro t ok detail reply between hi hnot
      subst hi
      have htells := ((h.done_iff t ok detail).mpr hmeets).2 hnot
      change (w.done X t ok detail reply between).results = _
      rw [results_done, htells]
      exact List.append_nil _
    · exact results_step

end Step

theorem orderly_new : Orderly new where
  filed := by
    constructor
    · intro t
      simp [new]
    · intro i j q q' t hi
      simp [new] at hi
  aligned := by
    intro i q t sender offer _ hi
    simp [new] at hi
  honest := by
    intro e he
    simp [new] at he

end World

open World

variable (X : Crates)

namespace Mock

def photo : Offer := ⟨1, "photo.jpg", 200, "image/jpeg"⟩

def typed : List Step :=
  [.ask (some 1) "phone" "Phone" photo [], .land 1 ⟨"/home/user/Downloads", "photo.jpg"⟩,
    .done 1 true "" (some 2) []]

def clicked : List Step :=
  [.ask (some 1) "phone" "Phone" photo [], .press ⟨1, "accept"⟩,
    .land 1 ⟨"/home/user/Downloads", "photo.jpg"⟩, .done 1 true "" (some 2) []]

theorem typed_promised : Lib.Along (World.step X) Promised new typed := by
  refine ⟨⟨by simp [Step.presses], ?_⟩, ⟨by simp [Step.presses], nofun⟩,
    ⟨by simp [Step.presses], nofun⟩, trivial⟩
  intro reply peer sender offer between _
  nofun

theorem clicked_promised : Lib.Along (World.step X) Promised new clicked := by
  refine ⟨⟨by simp [Step.presses], ?_⟩, ⟨?_, nofun⟩, ⟨by simp [Step.presses], nofun⟩,
    ⟨by simp [Step.presses], nofun⟩, trivial⟩
  · intro reply peer sender offer between _
    nofun
  · intro p hp
    have hself : p = ⟨1, "accept"⟩ := List.mem_singleton.mp hp
    subst hself
    exact ⟨.question "Phone" photo, rfl, List.mem_cons_self⟩

end Mock

end Acrylius.Prompt
