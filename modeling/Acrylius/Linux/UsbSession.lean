import Acrylius.Lib.Framing
import Acrylius.Lib.Run
import Acrylius.Linux.Touchpad
import Acrylius.Linux.Usb
import Acrylius.Plugins.Touchpad

/-! A touchpad session over USB (`acrylius-linux`, `usb.rs`): messages are read, queued for when
they are due and played on the pad, and fingers are lifted when the phone falls silent. The hello,
what is logged and what a device writes to its file are left out. -/
namespace Acrylius
open Proto Touchpad

namespace Usb

def maxMessage : ℕ := 4096

/-- So much silence with fingers down means that the phone is gone. -/
def stall : ℕ := 300_000_000

def decode (X : Crates) : Bytes → Except String Msg
  | [] => .error "empty message"
  | kind :: body =>
    if kind = 0 then
      match X.decode Begin body with
      | none => .error "malformed begin"
      | some b =>
        if b.wMm = 0 ∨ b.hMm = 0 then .error "zero-sized surface"
        else .ok (.begin b.wMm.toNat b.hMm.toNat)
    else if kind = 1 then
      match X.decode Touchpad.Frame body with
      | none => .error "malformed frame"
      | some f =>
        if maxPoints < f.points.length then .error "more points than slots"
        else .ok (.frame (f.points.map Point.touch) f.tUs)
    else if kind = 2 then .ok .end
    else .error "unknown message kind"

structure Session where
  /-- The time, which only moves on. -/
  clock : ℕ
  /-- What has come from the phone, how much of it is read, and whether more can come. -/
  came : Bytes
  taken : ℕ
  ended : Bool
  queue : List (ℕ × Msg)
  hearing : Hearing
  /-- The pad, with the dimensions it was created for. -/
  device : Option ((ℕ × ℕ) × Slots)
  down : Bool
  lastHeard : ℕ
  /-- Waiting in `select!`, and not on the way round the loop. -/
  selecting : Bool
  /-- The session has come to its end, and has dropped the pad. -/
  finished : Bool
  /-- Every message that was read, and every message that was played, with the time. -/
  heard : List (ℕ × Msg)
  played : List (ℕ × Msg)

namespace Session

def start (now : ℕ) : Session where
  clock := now
  came := []
  taken := 0
  ended := false
  queue := []
  hearing := .default
  device := none
  down := false
  lastHeard := now
  selecting := false
  finished := false
  heard := []
  played := []

def fail (s : Session) : Session := { s with device := none, finished := true }

/-- Plays one message. The pad may refuse what is asked of it, which ends the session. -/
def apply (s : Session) (msg : Msg) (ok : Bool) : Session :=
  match msg with
  | .begin w h =>
    if s.device.any fun d => d.1 = (w, h) then s
    else if ok then { s with device := some ((w, h), .default) }
    else s.fail
  | .frame points _ =>
    let s := { s with down := !points.isEmpty }
    match s.device with
    | none => s
    | some (dims, slots) =>
      if ok then { s with device := some (dims, (slots.frame points).1) } else s.fail
  | .end => { s with down := false, device := none }

def play (ok : ℕ → Bool) (s : Session) (msg : Msg) (rest : List (ℕ × Msg)) : Session :=
  { s with queue := rest, played := s.played ++ [(s.clock, msg)] }.apply msg (ok s.played.length)

def drain (ok : ℕ → Bool) : List (ℕ × Msg) → Session → Session
  | [], s => s
  | (due, msg) :: rest, s =>
    if due ≤ s.clock then
      if (s.play ok msg rest).finished then s.play ok msg rest else drain ok rest (s.play ok msg rest)
    else s

/-- The message that `read_message` comes back with, if it can. -/
def read (X : Crates) (s : Session) : Session :=
  match Lib.Framing.next 4 maxMessage (s.came.drop s.taken) with
  | .more => if s.ended then s.fail else s
  | .tooBig _ => s.fail
  | .one bytes _ =>
    match decode X bytes with
    | .error _ => s.fail
    | .ok msg =>
      { s with
        taken := s.taken + (4 + bytes.length)
        hearing := (s.hearing.hear s.clock msg).1
        queue := s.queue ++ [((s.hearing.hear s.clock msg).2, msg)]
        lastHeard := s.clock
        selecting := false
        heard := s.heard ++ [(s.clock, msg)] }

inductive Step where
  | wait (dt : ℕ)
  | arrive (bs : Bytes)
  | hangUp
  /-- The way round the loop: what is due is played. -/
  | top (ok : ℕ → Bool)
  /-- The arms of the `select!`. -/
  | woken
  | read
  | readFails
  | stalled (ok : Bool)

def nextDue (s : Session) : Option ℕ := s.queue.head?.map (·.1)

def step (X : Crates) (s : Session) : Step → Session
  | .wait dt => { s with clock := s.clock + dt }
  | .arrive bs => if s.ended then s else { s with came := s.came ++ bs }
  | .hangUp => { s with ended := true }
  | .top ok =>
    if s.finished || s.selecting then s else { drain ok s.queue s with selecting := true }
  | .woken =>
    if !s.finished && s.selecting && s.nextDue.any (· ≤ s.clock) then { s with selecting := false }
    else s
  | .read => if s.finished || !s.selecting then s else s.read X
  | .readFails => if s.finished || !s.selecting then s else s.fail
  | .stalled ok =>
    if !s.finished && s.selecting && s.down && s.queue.isEmpty && s.lastHeard + stall ≤ s.clock then
      match s.device with
      | none => { s with down := false, selecting := false }
      | some (dims, slots) =>
        if ok then
          { s with down := false, selecting := false, device := some (dims, (slots.frame []).1) }
        else { s with down := false }.fail
    else s

variable {X : Crates} {s : Session}

/-- A message waits in the queue for no longer than the playout time. -/
def Waits (q h : ℕ × Msg) : Prop := q.2 = h.2 ∧ h.1 ≤ q.1 ∧ q.1 ≤ h.1 + playout

def After (p h : ℕ × Msg) : Prop := p.2 = h.2 ∧ h.1 ≤ p.1

/-- What is read is the messages of the stream; it is played in order, and what is not yet played
is in the queue. -/
structure InOrder (X : Crates) (s : Session) : Prop where
  read : ∃ raw, Lib.Framing.Read 4 maxMessage s.came s.taken raw ∧
    raw.map (decode X) = s.heard.map fun h => .ok h.2
  played : ∃ before waiting, s.heard = before ++ waiting ∧ List.Forall₂ After s.played before ∧
    List.Forall₂ Waits s.queue waiting
  sorted : (s.heard.map (·.1)).Pairwise (· ≤ ·)
  past : ∀ h ∈ s.heard, h.1 ≤ s.lastHeard
  now : s.lastHeard ≤ s.clock

namespace InOrder

theorem start (now : ℕ) : (Session.start now).InOrder X where
  read := ⟨[], .nil, rfl⟩
  played := ⟨[], [], rfl, .nil, .nil⟩
  sorted := .nil
  past _ hh := absurd hh List.not_mem_nil
  now := Nat.le_refl now

/-- The pad has no part in it. -/
theorem of_pad (h : s.InOrder X) (device : Option ((ℕ × ℕ) × Slots)) (down selecting finished : Bool) :
    InOrder X { s with device, down, selecting, finished } := ⟨h.read, h.played, h.sorted, h.past, h.now⟩

end InOrder

theorem apply_eq (s : Session) (msg : Msg) (ok : Bool) : ∃ device down finished,
    s.apply msg ok = { s with device, down, finished } := by
  cases msg with
  | begin w h =>
    simp only [apply]
    split_ifs
    · exact ⟨s.device, s.down, s.finished, rfl⟩
    · exact ⟨_, s.down, s.finished, rfl⟩
    · exact ⟨none, s.down, true, rfl⟩
  | frame points tUs =>
    simp only [apply]
    split
    · exact ⟨s.device, !points.isEmpty, s.finished, rfl⟩
    · split_ifs
      · exact ⟨_, !points.isEmpty, s.finished, rfl⟩
      · exact ⟨none, !points.isEmpty, true, rfl⟩
  | «end» => exact ⟨none, false, s.finished, rfl⟩

theorem play_eq (ok : ℕ → Bool) (s : Session) (msg : Msg) (rest : List (ℕ × Msg)) :
    ∃ device down finished, s.play ok msg rest =
      { s with queue := rest, played := s.played ++ [(s.clock, msg)], device, down, finished } :=
  apply_eq _ msg _

/-- What playing one message that is due keeps, playing all that are due keeps. -/
theorem drain_inv {I : Session → Prop} {ok : ℕ → Bool}
    (hplay : ∀ s q rest, I s → s.finished = false → s.queue = q :: rest → q.1 ≤ s.clock →
      I (s.play ok q.2 rest))
    {queue : List (ℕ × Msg)} (hq : s.queue = queue) (hover : s.finished = false) (hs : I s) :
    I (drain ok queue s) := by
  induction queue generalizing s with
  | nil => exact hs
  | cons q rest ih =>
    unfold drain
    by_cases hdue : q.1 ≤ s.clock
    · rw [if_pos hdue]
      have hnext := hplay s q rest hs hover hq hdue
      split
      · exact hnext
      · rename_i hgoes
        obtain ⟨device, down, finished, heq⟩ := play_eq ok s q.2 rest
        exact ih (by rw [heq]) (Bool.eq_false_iff.mpr hgoes) hnext
    · rw [if_neg hdue]
      exact hs

theorem drain_stops (ok : ℕ → Bool) {queue : List (ℕ × Msg)} (hq : s.queue = queue) :
    (drain ok queue s).finished ∨ ∀ q ∈ (drain ok queue s).queue.head?, s.clock < q.1 := by
  induction queue generalizing s with
  | nil =>
    right
    rw [drain, hq]
    exact fun q hq => absurd hq (Option.not_mem_none q)
  | cons q rest ih =>
    unfold drain
    by_cases hdue : q.1 ≤ s.clock
    · rw [if_pos hdue]
      split
      · rename_i hover
        exact .inl hover
      · obtain ⟨device, down, finished, heq⟩ := play_eq ok s q.2 rest
        have hclock : (s.play ok q.2 rest).clock = s.clock := by rw [heq]
        rw [← hclock]
        exact ih (by rw [heq])
    · rw [if_neg hdue, hq]
      right
      intro q' hq'
      obtain rfl := Option.some.inj hq'
      exact Nat.lt_of_not_le hdue

/-- A message that is due is played in its turn. -/
theorem InOrder.play {q : ℕ × Msg} {rest : List (ℕ × Msg)} (h : s.InOrder X)
    (hq : s.queue = q :: rest) (hdue : q.1 ≤ s.clock) (ok : ℕ → Bool) :
    (s.play ok q.2 rest).InOrder X := by
  obtain ⟨before, waiting, hheard, hbefore, hwaiting⟩ := h.played
  obtain ⟨device, down, finished, heq⟩ := play_eq ok s q.2 rest
  rw [hq] at hwaiting
  rw [heq]
  cases hwaiting with
  | @cons _ first _ waiting hfirst hwaiting =>
    have hafter : After (s.clock, q.2) first := ⟨hfirst.1, Nat.le_trans hfirst.2.1 hdue⟩
    refine ⟨h.read, ⟨before ++ [first], waiting, ?_, ?_, hwaiting⟩, h.sorted, h.past, h.now⟩
    · rw [List.append_assoc]
      exact hheard
    · exact List.rel_append hbefore (.cons hafter .nil)

theorem InOrder.read_message (h : s.InOrder X) : (s.read X).InOrder X := by
  unfold Session.read
  split
  · split
    · exact h.of_pad none s.down s.selecting true
    · exact h
  · exact h.of_pad none s.down s.selecting true
  · rename_i bytes rest hnext
    split
    · exact h.of_pad none s.down s.selecting true
    · rename_i msg hmsg
      obtain ⟨raw, hread, hraw⟩ := h.read
      obtain ⟨before, waiting, hheard, hbefore, hwaiting⟩ := h.played
      have hbounds := s.hearing.hear_bounds s.clock msg
      refine ⟨⟨raw ++ [bytes], hread.next hnext, ?_⟩, ⟨before, waiting ++ [(s.clock, msg)], ?_,
        hbefore, List.rel_append hwaiting (.cons ⟨rfl, hbounds⟩ .nil)⟩, ?_, ?_, Nat.le_refl _⟩
      · simp only [List.map_append, hraw, List.map_cons, List.map_nil, hmsg]
      · simp only [hheard, List.append_assoc]
      · simp only [List.map_append, List.map_cons, List.map_nil]
        refine List.pairwise_append.mpr ⟨h.sorted, List.pairwise_singleton _ _, ?_⟩
        intro a ha b hb
        obtain ⟨e, he, rfl⟩ := List.mem_map.mp ha
        rw [List.mem_singleton.mp hb]
        exact Nat.le_trans (h.past e he) h.now
      · intro e he
        rcases List.mem_append.mp he with he | he
        · exact Nat.le_trans (h.past e he) h.now
        · rw [List.mem_singleton.mp he]

theorem goes_on (h : ¬ (s.finished || s.selecting) = true) : s.finished = false ∧ s.selecting = false := by
  rwa [Bool.not_eq_true, Bool.or_eq_false_iff] at h

theorem InOrder.step (h : s.InOrder X) (i : Step) : (s.step X i).InOrder X := by
  cases i with
  | wait dt => exact ⟨h.read, h.played, h.sorted, h.past, Nat.le_trans h.now (Nat.le_add_right _ dt)⟩
  | arrive bs =>
    simp only [Session.step]
    split
    · exact h
    · obtain ⟨raw, hread, hraw⟩ := h.read
      exact ⟨⟨raw, hread.append bs, hraw⟩, h.played, h.sorted, h.past, h.now⟩
  | hangUp => exact ⟨h.read, h.played, h.sorted, h.past, h.now⟩
  | top ok =>
    simp only [Session.step]
    split
    · exact h
    · rename_i hgoes
      obtain ⟨hover, -⟩ := goes_on hgoes
      have hdrain := drain_inv (I := InOrder X)
        (fun s q rest h _ hq hdue => h.play hq hdue ok) rfl hover h
      exact hdrain.of_pad _ _ true _
  | woken =>
    simp only [Session.step]
    split
    · exact h.of_pad s.device s.down false s.finished
    · exact h
  | read =>
    simp only [Session.step]
    split
    · exact h
    · exact h.read_message
  | readFails =>
    simp only [Session.step]
    split
    · exact h
    · exact h.of_pad none s.down s.selecting true
  | stalled ok =>
    simp only [Session.step]
    split
    · split
      · exact h.of_pad s.device false false s.finished
      · split
        · exact h.of_pad _ false false s.finished
        · exact h.of_pad none false s.selecting true
    · exact h

theorem inOrder_run (X : Crates) (now : ℕ) (is : List Step) :
    (Lib.run (Session.step X) (.start now) is).InOrder X :=
  Lib.run_inv (I := InOrder X) (fun _ i h => h.step i) (.start now) is

namespace InOrder

/-- What is not played yet was heard at most the playout time before the head of the queue is
due. -/
theorem due_le (h : s.InOrder X) {q : ℕ × Msg} (hq : q ∈ s.queue.head?) {k : ℕ} {e : ℕ × Msg}
    (he : s.heard[k]? = some e) (hk : s.played.length ≤ k) : q.1 ≤ e.1 + playout := by
  obtain ⟨before, waiting, hheard, hbefore, hwaiting⟩ := h.played
  cases hqueue : s.queue with
  | nil =>
    rw [hqueue] at hq
    exact absurd hq (Option.not_mem_none q)
  | cons q' rest =>
    rw [hqueue] at hq hwaiting
    obtain rfl := Option.some.inj hq
    cases hwaiting with
    | @cons _ first _ waiting hfirst hwaiting =>
      rw [hheard, List.getElem?_append_right (by rw [← hbefore.length_eq]; exact hk)] at he
      have hsorted := h.sorted
      rw [hheard, List.map_append, List.map_cons] at hsorted
      have hleast := (List.pairwise_cons.mp (List.pairwise_append.mp hsorted).2.1).1
      have hle : first.1 ≤ e.1 := by
        rcases List.mem_cons.mp (List.mem_of_getElem? he) with rfl | hmem
        · exact Nat.le_refl _
        · exact hleast e.1 (List.mem_map_of_mem hmem)
      have hbound := hfirst.2.2
      omega

theorem queue_ne_nil (h : s.InOrder X) {k : ℕ} {e : ℕ × Msg} (he : s.heard[k]? = some e)
    (hk : s.played.length ≤ k) : ∃ q, q ∈ s.queue.head? := by
  obtain ⟨before, waiting, hheard, hbefore, hwaiting⟩ := h.played
  rw [hheard, List.getElem?_append_right (by rw [← hbefore.length_eq]; exact hk)] at he
  cases hqueue : s.queue with
  | nil =>
    rw [hqueue] at hwaiting
    cases hwaiting
    cases he
  | cons q rest => exact ⟨q, rfl⟩

theorem played_at (h : s.InOrder X) {k : ℕ} {p e : ℕ × Msg} (hp : s.played[k]? = some p)
    (he : s.heard[k]? = some e) : e.1 ≤ p.1 := by
  obtain ⟨before, waiting, hheard, hbefore, -⟩ := h.played
  obtain ⟨hk, hp⟩ := List.getElem?_eq_some_iff.mp hp
  have hk' : k < before.length := hbefore.length_eq ▸ hk
  rw [hheard, List.getElem?_append_left hk'] at he
  obtain ⟨-, rfl⟩ := List.getElem?_eq_some_iff.mp he
  rw [← hp]
  exact ((List.forall₂_iff_get.mp hbefore).2 k hk hk').2

theorem map_msg (h : s.InOrder X) :
    s.played.map (·.2) ++ s.queue.map (·.2) = s.heard.map (·.2) := by
  obtain ⟨before, waiting, hheard, hbefore, hwaiting⟩ := h.played
  have hmap : ∀ {R : ℕ × Msg → ℕ × Msg → Prop} {xs ys : List (ℕ × Msg)},
      (∀ x y, R x y → x.2 = y.2) → List.Forall₂ R xs ys → xs.map (·.2) = ys.map (·.2) := by
    intro R xs ys hR hxs
    induction hxs with
    | nil => rfl
    | cons hxy _ ih => rw [List.map_cons, List.map_cons, hR _ _ hxy, ih]
  rw [hheard, List.map_append, hmap (fun _ _ h => h.1) hbefore, hmap (fun _ _ h => h.1) hwaiting]

/-- Nothing that was heard the playout time ago is left, after the way round the loop. -/
theorem top (h : s.InOrder X) {ok : ℕ → Bool} (hsel : s.selecting = false)
    (hover : (s.step X (.top ok)).finished = false) {k : ℕ} {e : ℕ × Msg}
    (he : (s.step X (.top ok)).heard[k]? = some e)
    (hk : (s.step X (.top ok)).played.length ≤ k) : s.clock < e.1 + playout := by
  have hnext := h.step (.top ok)
  simp only [Session.step] at hnext hover he hk
  by_cases hs : s.finished || s.selecting
  · rw [if_pos hs] at hover
    rw [hover, hsel] at hs
    cases hs
  · rw [if_neg hs] at hnext hover he hk
    obtain ⟨q, hq⟩ := hnext.queue_ne_nil he hk
    have hdue := hnext.due_le hq he hk
    rcases drain_stops ok (rfl : s.queue = s.queue) with hstop | hstop
    · exact absurd (hstop.symm.trans hover) (by decide)
    · exact Nat.lt_of_lt_of_le (hstop q hq) hdue

end InOrder

/-- Whatever the phone sends, in whatever pieces, and whenever the loop gets to run: the session
reads the messages of the stream, and plays them in their order, each once and not before it
came. Whenever it has been round its loop, all that came the playout time ago has been played, and
it asks to be woken at most that time after the next message came. -/
theorem plays_in_order (X : Crates) (now : ℕ) (is : List Step) :
    let s := Lib.run (Session.step X) (.start now) is
    (∃ raw, Lib.Framing.frames 4 raw <+: s.came ∧
      raw.map (decode X) = s.heard.map fun h => .ok h.2) ∧
    s.played.map (·.2) ++ s.queue.map (·.2) = s.heard.map (·.2) ∧
    (∀ (k : ℕ) (p e : ℕ × Msg), s.played[k]? = some p → s.heard[k]? = some e → e.1 ≤ p.1) ∧
    (∀ (d k : ℕ) (e : ℕ × Msg), s.nextDue = some d → s.heard[k]? = some e → s.played.length ≤ k →
      d ≤ e.1 + playout) ∧
    ∀ ok, s.selecting = false → (s.step X (.top ok)).finished = false → ∀ (k : ℕ) (e : ℕ × Msg),
      (s.step X (.top ok)).heard[k]? = some e → (s.step X (.top ok)).played.length ≤ k →
      s.clock < e.1 + playout := by
  intro s
  have h : s.InOrder X := inOrder_run X now is
  obtain ⟨raw, hread, hraw⟩ := h.read
  refine ⟨⟨raw, ⟨_, hread.drop.symm⟩, hraw⟩, h.map_msg, fun k p e => h.played_at, ?_,
    fun ok hsel hover k e => h.top hsel hover⟩
  intro d k e hd he hk
  obtain ⟨q, hq, rfl⟩ := Option.map_eq_some_iff.mp hd
  exact h.due_le hq he hk

def Touched (s : Session) : Prop := ∃ dims slots id, s.device = some (dims, slots) ∧ slots.Holds id

def Few : Msg → Prop
  | .frame points _ => points.length ≤ maxPoints
  | _ => True

theorem few_of_decode {bytes : Bytes} {msg : Msg} (h : decode X bytes = .ok msg) : Few msg := by
  unfold decode at h
  split at h
  · cases h
  · split_ifs at h
    · split at h
      · cases h
      · split_ifs at h
        cases h
        trivial
    · split at h
      · cases h
      · rename_i f _
        split_ifs at h with hmany
        cases h
        show (f.points.map Point.touch).length ≤ maxPoints
        rw [List.length_map]
        exact Nat.le_of_not_lt hmany
    · cases h
      trivial

theorem holds_of_few {points : List TouchPoint} (h : points.length ≤ maxPoints) (slots : Slots)
    (id : ℕ) : (slots.frame points).1.Holds id ↔ ∃ p ∈ points, p.id = id := by
  refine Slots.holds_frame (Nat.le_trans (List.toFinset_card_le _) ?_) slots id
  rw [List.length_map]
  exact h

structure Known (s : Session) : Prop where
  down : s.Touched → s.down
  few : ∀ q ∈ s.queue, Few q.2
  finished : s.finished → s.device = none

namespace Known

theorem untouched (h : s.device = none) : ¬ s.Touched := by
  rintro ⟨dims, slots, id, hd, -⟩
  rw [h] at hd
  cases hd

theorem fail (h : s.Known) (down selecting : Bool) :
    Known { s with device := none, finished := true, down, selecting } where
  down ht := absurd ht (untouched rfl)
  few := h.few
  finished _ := rfl

theorem apply {msg : Msg} (h : s.Known) (hfew : Few msg) (hover : s.finished = false) (ok : Bool) :
    (s.apply msg ok).Known := by
  cases msg with
  | begin w h' =>
    simp only [Session.apply]
    split_ifs
    · exact h
    · refine ⟨?_, h.few, fun ho => absurd (hover.symm.trans ho) (by decide)⟩
      rintro ⟨dims, slots, id, hd, i, hi⟩
      cases hd
      cases hi
    · exact h.fail s.down s.selecting
  | frame points tUs =>
    simp only [Session.apply]
    split
    · rename_i hd
      exact ⟨fun ht => absurd ht (untouched hd), h.few, fun _ => hd⟩
    · rename_i dims slots hd
      split_ifs
      · refine ⟨?_, h.few, fun ho => absurd (hover.symm.trans ho) (by decide)⟩
        rintro ⟨dims', slots', id, hd', hid⟩
        cases hd'
        obtain ⟨p, hp, -⟩ := (holds_of_few hfew slots id).mp hid
        simpa using List.ne_nil_of_mem hp
      · exact h.fail _ s.selecting
  | «end» => exact ⟨fun ht => absurd ht (untouched rfl), h.few, fun _ => rfl⟩

theorem play {q : ℕ × Msg} {rest : List (ℕ × Msg)} (h : s.Known) (hover : s.finished = false)
    (hq : s.queue = q :: rest) (ok : ℕ → Bool) : (s.play ok q.2 rest).Known := by
  have hfew := h.few
  rw [hq] at hfew
  have hknown : Known { s with queue := rest, played := s.played ++ [(s.clock, q.2)] } :=
    ⟨h.down, fun q' hq' => hfew q' (List.mem_cons_of_mem _ hq'), h.finished⟩
  exact hknown.apply (hfew q List.mem_cons_self) hover (ok s.played.length)

theorem of_selecting (h : s.Known) (selecting : Bool) : Known { s with selecting } :=
  ⟨h.down, h.few, h.finished⟩

theorem read_message (h : s.Known) : (s.read X).Known := by
  unfold Session.read
  split
  · split
    · exact h.fail s.down s.selecting
    · exact h
  · exact h.fail s.down s.selecting
  · split
    · exact h.fail s.down s.selecting
    · rename_i msg hmsg
      refine ⟨h.down, ?_, h.finished⟩
      intro q hq
      rcases List.mem_append.mp hq with hq | hq
      · exact h.few q hq
      · rw [List.mem_singleton.mp hq]
        exact few_of_decode hmsg

theorem stalled (h : s.Known) (lifts : Bool) : (s.step X (.stalled lifts)).Known := by
  simp only [Session.step]
  split
  · split
    · rename_i hd
      exact ⟨fun ht => absurd ht (untouched hd), h.few, h.finished⟩
    · rename_i hgoes dims slots hd
      split
      · refine ⟨?_, h.few, fun ho => ?_⟩
        · rintro ⟨dims', slots', id, hd', hid⟩
          cases hd'
          obtain ⟨p, hp, -⟩ := (holds_of_few (Nat.zero_le _) slots id).mp hid
          exact absurd hp List.not_mem_nil
        · rw [h.finished ho] at hd
          cases hd
      · exact h.fail false s.selecting
  · exact h

theorem step (h : s.Known) (i : Step) : (s.step X i).Known := by
  cases i with
  | wait dt | hangUp => exact ⟨h.down, h.few, h.finished⟩
  | arrive bs =>
    simp only [Session.step]
    split
    · exact h
    · exact ⟨h.down, h.few, h.finished⟩
  | top ok =>
    simp only [Session.step]
    split
    · exact h
    · rename_i hgoes
      obtain ⟨hover, -⟩ := goes_on hgoes
      have hdrain := drain_inv (I := Known)
        (fun s q rest h hover hq _ => h.play hover hq ok) rfl hover h
      exact hdrain.of_selecting true
  | woken =>
    simp only [Session.step]
    split
    · exact h.of_selecting false
    · exact h
  | read =>
    simp only [Session.step]
    split
    · exact h
    · exact h.read_message
  | readFails =>
    simp only [Session.step]
    split
    · exact h
    · exact h.fail s.down s.selecting
  | stalled lifts => exact h.stalled lifts

theorem run (X : Crates) (now : ℕ) (is : List Step) :
    (Lib.run (Session.step X) (.start now) is).Known := by
  refine Lib.run_inv (I := Known) (fun _ i h => h.step i) ?_ is
  exact ⟨fun ht => absurd ht (untouched rfl), fun _ hq => absurd hq List.not_mem_nil, fun _ => rfl⟩

end Known

/-- Everything in the queue is due the playout time after the last message came. -/
theorem InOrder.due_last (h : s.InOrder X) {q : ℕ × Msg} (hq : q ∈ s.queue) :
    q.1 ≤ s.lastHeard + playout := by
  obtain ⟨before, waiting, hheard, -, hwaiting⟩ := h.played
  obtain ⟨k, hk, rfl⟩ := List.getElem_of_mem hq
  have hk' : k < waiting.length := hwaiting.length_eq ▸ hk
  have hwaits := (List.forall₂_iff_get.mp hwaiting).2 k hk hk'
  have hpast := h.past waiting[k] (hheard ▸ List.mem_append_right _ (List.getElem_mem hk'))
  have hbound := hwaits.2.2
  simp only [List.get_eq_getElem] at hbound
  omega

/-- If nothing was heard for long enough, the wake for the queue comes if anything is in it. -/
theorem woken_queue (h : s.InOrder X) (hlong : s.lastHeard + playout ≤ s.clock)
    (hover : s.finished = false) :
    (s.step X .woken).finished = false ∧ ((s.step X .woken).selecting = false ∨ s.queue = []) := by
  simp only [Session.step]
  cases hqueue : s.queue with
  | nil =>
    refine ⟨?_, .inr rfl⟩
    split <;> exact hover
  | cons q rest =>
    have hdue := h.due_last (hqueue ▸ List.mem_cons_self)
    have hready : s.nextDue.any (· ≤ s.clock) := by
      rw [nextDue, hqueue]
      exact decide_eq_true (Nat.le_trans hdue hlong)
    cases hsel : s.selecting with
    | false => simp [hover, hsel]
    | true => simp [hover, hready]

/-- Then the way round the loop leaves nothing in the queue. -/
theorem top_queue (h : s.InOrder X) (hlong : s.lastHeard + playout ≤ s.clock)
    (hsel : s.selecting = false ∨ s.queue = []) (ok : ℕ → Bool) :
    (s.step X (.top ok)).finished ∨
      (s.step X (.top ok)).selecting ∧ (s.step X (.top ok)).queue = [] := by
  simp only [Session.step]
  by_cases hgoes : (s.finished || s.selecting) = true
  · rw [if_pos hgoes]
    rcases Bool.or_eq_true_iff.mp hgoes with hover | hs
    · exact .inl hover
    · rcases hsel with hsel | hqueue
      · exact absurd (hsel.symm.trans hs) (by decide)
      · exact .inr ⟨hs, hqueue⟩
  · rw [if_neg hgoes]
    obtain ⟨hover, -⟩ := goes_on hgoes
    have hdrain := drain_inv (I := fun s' => s'.InOrder X ∧ s'.lastHeard = s.lastHeard)
      (fun s' q rest hs' _ hq hdue => by
        obtain ⟨device, down, finished, heq⟩ := play_eq ok s' q.2 rest
        exact ⟨hs'.1.play hq hdue ok, by rw [heq]; exact hs'.2⟩) rfl hover ⟨h, rfl⟩
    rcases drain_stops ok (rfl : s.queue = s.queue) with hstop | hstop
    · exact .inl hstop
    · refine .inr ⟨rfl, ?_⟩
      show (drain ok s.queue s).queue = []
      cases hqueue : (drain ok s.queue s).queue with
      | nil => rfl
      | cons q rest =>
        rw [hqueue] at hstop
        have hlate := hstop q rfl
        have hdue := hdrain.1.due_last (hqueue ▸ List.mem_cons_self)
        rw [hdrain.2] at hdue
        omega

theorem woken_eq (s : Session) : ∃ selecting, s.step X .woken = { s with selecting } := by
  simp only [Session.step]
  split
  · exact ⟨false, rfl⟩
  · exact ⟨s.selecting, rfl⟩

theorem top_clock (s : Session) (ok : ℕ → Bool) : (s.step X (.top ok)).clock = s.clock ∧
    (s.step X (.top ok)).lastHeard = s.lastHeard := by
  simp only [Session.step]
  split
  · exact ⟨rfl, rfl⟩
  · rename_i hgoes
    refine drain_inv (I := fun s' => s'.clock = s.clock ∧ s'.lastHeard = s.lastHeard) ?_ rfl
      (goes_on hgoes).1 ⟨rfl, rfl⟩
    intro s' q rest hs' _ _ _
    obtain ⟨device, down, finished, heq⟩ := play_eq ok s' q.2 rest
    rw [heq]
    exact hs'

theorem stalled_lifts (h : s.Known) (hlong : s.lastHeard + stall ≤ s.clock)
    (hidle : s.finished ∨ s.selecting ∧ s.queue = []) (lifts : Bool) :
    ¬ (s.step X (.stalled lifts)).Touched := by
  simp only [Session.step]
  split
  · split
    · rename_i hd
      exact Known.untouched hd
    · rename_i dims slots _
      split
      · rintro ⟨dims', slots', id, hd', hid⟩
        cases hd'
        obtain ⟨p, hp, -⟩ := (holds_of_few (Nat.zero_le _) slots id).mp hid
        exact absurd hp List.not_mem_nil
      · exact Known.untouched rfl
  · rename_i hidle'
    intro ht
    have hdown := h.down ht
    rcases hidle with hover | ⟨hsel, hqueue⟩
    · exact Known.untouched (h.finished hover) ht
    · cases hover : s.finished with
      | true => exact Known.untouched (h.finished hover) ht
      | false => simp [hover, hsel, hdown, hqueue, hlong] at hidle'

/-- No finger stays on the pad. Whatever came and in whatever order things got done, a finger on the
pad is known of; and once nothing was heard for the time of a stall, the wakes that the session
asks for lift every finger, also if the pad refuses what is asked of it. -/
theorem fingers_lift (X : Crates) (now : ℕ) (is : List Step) :
    let s := Lib.run (Session.step X) (.start now) is
    (s.Touched → s.down) ∧ (s.finished → s.device = none) ∧
    ∀ ok lifts, s.lastHeard + stall ≤ s.clock →
      ¬ (Lib.run (Session.step X) s [.woken, .top ok, .stalled lifts]).Touched := by
  intro s
  have hknown : s.Known := Known.run X now is
  have horder : s.InOrder X := inOrder_run X now is
  refine ⟨hknown.down, hknown.finished, fun ok lifts hlong => ?_⟩
  have hplayed : playout ≤ stall := by decide
  obtain ⟨selecting, hwoken⟩ := woken_eq (X := X) s
  obtain ⟨hclock, hheard⟩ := top_clock (X := X) (s.step X .woken) ok
  rw [hwoken] at hclock hheard
  have hidle : ((s.step X .woken).step X (.top ok)).finished ∨
      ((s.step X .woken).step X (.top ok)).selecting ∧
        ((s.step X .woken).step X (.top ok)).queue = [] := by
    cases hover : s.finished with
    | true =>
      left
      simp [Session.step, hover]
    | false =>
      obtain ⟨-, hsel⟩ := woken_queue horder (by omega) hover
      refine top_queue (horder.step .woken) ?_ ?_ ok
      · rw [hwoken]
        show s.lastHeard + playout ≤ s.clock
        omega
      · rw [hwoken] at hsel ⊢
        exact hsel
  refine stalled_lifts (X := X) ((hknown.step .woken).step (.top ok)) ?_ hidle lifts
  rw [hwoken, hclock, hheard]
  exact hlong

end Session
end Usb
end Acrylius
