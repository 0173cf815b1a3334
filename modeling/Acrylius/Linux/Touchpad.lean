import Acrylius.Core.Vocab
import Acrylius.Lib.Latest
import Mathlib.Data.Fintype.Card
import Mathlib.Data.List.FinRange

/-! The virtual touchpad of a desktop (`acrylius-linux`, `touchpad.rs`). Every operation runs in
a task of its own, so operations can reach the device out of order. Creating the device and
writing to it succeed here. -/
namespace Acrylius

namespace Touchpad

def slots : ℕ := 10

inductive AbsoluteAxis where
  | x
  | y
  | multitouchSlot
  | multitouchTrackingId
  | multitouchPositionX
  | multitouchPositionY
deriving DecidableEq

inductive Key where
  | buttonTouch
  | buttonToolFinger
  | buttonToolDoubleTap
  | buttonToolTripleTap
  | buttonToolQuadtap
  | buttonToolQuintTap
deriving DecidableEq

inductive Ev where
  | abs (axis : AbsoluteAxis) (value : ℤ)
  | key (key : Key) (value : ℤ)
  | synReport
deriving DecidableEq

def toolKeys : List Key :=
  [.buttonToolFinger, .buttonToolDoubleTap, .buttonToolTripleTap, .buttonToolQuadtap,
    .buttonToolQuintTap]

/-- Which slot holds which finger, and the tracking ids handed out so far. No finger is in two
slots. -/
structure Slots where
  held : Fin slots → Option ℕ
  nextTracking : ℕ
  alone : ∀ i j id, held i = some id → held j = some id → i = j

def maxTracking : ℕ := 2 ^ 31 - 1

namespace Slots

def default : Slots := ⟨fun _ => none, 1, nofun⟩

def position (s : Slots) (want : Option ℕ → Bool) : Option (Fin slots) :=
  (List.finRange slots).find? fun i => want (s.held i)

theorem position_some {s : Slots} {want : Option ℕ → Bool} {i : Fin slots}
    (h : s.position want = some i) : want (s.held i) :=
  List.find?_some (p := fun i => want (s.held i)) h

theorem position_none {s : Slots} {want : Option ℕ → Bool} (h : s.position want = none)
    (i : Fin slots) : want (s.held i) = false := by
  have hall := List.find?_eq_none.mp h i (List.mem_finRange i)
  simpa using hall

def gone (points : List TouchPoint) (h : Option ℕ) : Bool :=
  h.any fun id => points.all fun p => p.id ≠ id

def lifted (s : Slots) (points : List TouchPoint) : Slots where
  held i := if gone points (s.held i) then none else s.held i
  nextTracking := s.nextTracking
  alone i j id hi hj := by
    split_ifs at hi
    split_ifs at hj
    exact s.alone i j id hi hj

def lift (s : Slots) (points : List TouchPoint) : Slots × List Ev :=
  (s.lifted points, (List.finRange slots).flatMap fun i => if gone points (s.held i) then
    [.abs .multitouchSlot i, .abs .multitouchTrackingId (-1)] else [])

def put (s : Slots) (i : Fin slots) (id : ℕ) (hnew : ∀ j, s.held j ≠ some id) : Slots where
  held := Function.update s.held i (some id)
  -- `wrapping_add(1).max(1)`: the id after the largest is one again.
  nextTracking := if s.nextTracking = maxTracking then 1 else s.nextTracking + 1
  alone j k id' hj hk := by
    by_cases hji : j = i
    · subst hji
      obtain rfl : id = id' := by simpa using hj
      by_cases hkj : k = j
      · exact hkj.symm
      · rw [Function.update_of_ne hkj] at hk
        exact absurd hk (hnew k)
    · rw [Function.update_of_ne hji] at hj
      by_cases hki : k = i
      · subst hki
        obtain rfl : id = id' := by simpa using hk
        exact absurd hj (hnew j)
      · rw [Function.update_of_ne hki] at hk
        exact s.alone j k id' hj hk

theorem not_held {s : Slots} {id : ℕ} (h : s.position (· = some id) = none) (j : Fin slots) :
    s.held j ≠ some id := by
  have hj := position_none h j
  simpa using hj

/-- One finger that is down: it keeps its slot or takes the lowest free one. -/
def place (s : Slots) (p : TouchPoint) : Slots × List Ev :=
  let moved (i : Fin slots) (fresh : List Ev) : List Ev :=
    .abs .multitouchSlot i :: fresh ++
      [.abs .multitouchPositionX p.x, .abs .multitouchPositionY p.y]
  match h : s.position (· = some p.id) with
  | some i => (s, moved i [])
  | none =>
    match s.position Option.isNone with
    | some i => (s.put i p.id (not_held h), moved i [.abs .multitouchTrackingId s.nextTracking])
    | none => (s, [])

def placeAll (s : Slots) : List TouchPoint → Slots × List Ev
  | [] => (s, [])
  | p :: ps =>
    let (s, here) := s.place p
    let (s, rest) := placeAll s ps
    (s, here ++ rest)

/-- What follows the slots in a frame: the single-touch axes and the keys. -/
def trailer (s : Slots) (points : List TouchPoint) : List Ev :=
  let down := ((List.finRange slots).filter fun i => (s.held i).isSome).length
  let lowest := (s.position Option.isSome).bind fun i => points.find? fun p => some p.id = s.held i
  let capped := min down toolKeys.length
  (lowest.elim [] fun p => [.abs .x p.x, .abs .y p.y]) ++
    .key .buttonTouch (if 0 < down then 1 else 0) ::
      toolKeys.mapIdx (fun n k => .key k (if capped = n + 1 then 1 else 0)) ++ [.synReport]

def frame (s : Slots) (points : List TouchPoint) : Slots × List Ev :=
  let (s, lifted) := s.lift points
  let (s, placed) := s.placeAll points
  (s, lifted ++ placed ++ s.trailer points)

def releaseAll (s : Slots) : List Ev := (s.frame []).2

def Holds (s : Slots) (id : ℕ) : Prop := ∃ i, s.held i = some id

theorem holds_lifted {s : Slots} {points : List TouchPoint} {id : ℕ} :
    (s.lifted points).Holds id ↔ s.Holds id ∧ ∃ p ∈ points, p.id = id := by
  have hgone : gone points (some id) = false ↔ ∃ p ∈ points, p.id = id := by simp [gone]
  constructor
  · rintro ⟨i, hi⟩
    unfold lifted at hi
    dsimp only at hi
    split_ifs at hi with hg
    rw [hi, Bool.not_eq_true] at hg
    exact ⟨⟨i, hi⟩, hgone.mp hg⟩
  · rintro ⟨⟨i, hi⟩, hp⟩
    refine ⟨i, ?_⟩
    unfold lifted
    dsimp only
    rw [hi, hgone.mpr hp]
    rfl

theorem holds_put {s : Slots} {i : Fin slots} {id : ℕ} (hfree : s.held i = none)
    (hnew : ∀ j, s.held j ≠ some id) {id' : ℕ} :
    (s.put i id hnew).Holds id' ↔ s.Holds id' ∨ id' = id := by
  constructor
  · rintro ⟨j, hj⟩
    unfold put at hj
    dsimp only at hj
    by_cases hji : j = i
    · subst hji
      rw [Function.update_self] at hj
      exact .inr (Option.some.inj hj).symm
    · rw [Function.update_of_ne hji] at hj
      exact .inl ⟨j, hj⟩
  · rintro (⟨j, hj⟩ | rfl)
    · have hji : j ≠ i := by
        rintro rfl
        rw [hfree] at hj
        cases hj
      exact ⟨j, (Function.update_of_ne hji _ _).trans hj⟩
    · exact ⟨i, Function.update_self _ _ _⟩

theorem exists_free {s : Slots} {ids : Finset ℕ} (hfew : ids.card < slots)
    (hin : ∀ id, s.Holds id → id ∈ ids) : ∃ i, s.held i = none := by
  by_contra hnone
  push Not at hnone
  have hsome : ∀ i, ∃ id, s.held i = some id := fun i => Option.ne_none_iff_exists'.mp (hnone i)
  choose finger hfinger using hsome
  have hinj : Function.Injective finger := by
    intro i j heq
    exact s.alone i j (finger i) (hfinger i) (heq ▸ hfinger j)
  have hcard : (Finset.univ : Finset (Fin slots)).card ≤ ids.card :=
    Finset.card_le_card_of_injOn finger (fun i _ => hin _ ⟨i, hfinger i⟩) hinj.injOn
  rw [Finset.card_fin] at hcard
  omega

/-- As long as the fingers fit the slots, a finger that is down gets one. -/
theorem holds_place {s : Slots} {p : TouchPoint} {ids : Finset ℕ} (hfew : ids.card ≤ slots)
    (hp : p.id ∈ ids) (hin : ∀ id, s.Holds id → id ∈ ids) {id : ℕ} :
    (s.place p).1.Holds id ↔ s.Holds id ∨ id = p.id := by
  unfold place
  dsimp only
  split
  · rename_i i hi
    have hheld : s.held i = some p.id := by simpa using position_some hi
    constructor
    · exact .inl
    · rintro (h | rfl)
      · exact h
      · exact ⟨i, hheld⟩
  · rename_i hnew
    split
    · rename_i i hi
      have hfree : s.held i = none := by simpa using position_some hi
      exact holds_put hfree (not_held hnew)
    · rename_i hfull
      have hless : (ids.erase p.id).card < slots := by
        have := Finset.card_erase_lt_of_mem hp
        omega
      obtain ⟨i, hi⟩ := exists_free (s := s) hless fun id hid => by
        refine Finset.mem_erase.mpr ⟨?_, hin id hid⟩
        rintro rfl
        obtain ⟨j, hj⟩ := hid
        exact not_held hnew j hj
      have := position_none hfull i
      simp [hi] at this

theorem holds_placeAll {ids : Finset ℕ} (hfew : ids.card ≤ slots) {points : List TouchPoint}
    (hp : ∀ p ∈ points, p.id ∈ ids) {s : Slots} (hin : ∀ id, s.Holds id → id ∈ ids) {id : ℕ} :
    (s.placeAll points).1.Holds id ↔ s.Holds id ∨ ∃ p ∈ points, p.id = id := by
  induction points generalizing s with
  | nil => simp [placeAll]
  | cons p ps ih =>
    have hplace : ∀ id, (s.place p).1.Holds id ↔ s.Holds id ∨ id = p.id :=
      fun id => holds_place hfew (hp p List.mem_cons_self) hin
    have hrest := ih (fun q hq => hp q (List.mem_cons_of_mem _ hq)) (s := (s.place p).1)
      fun id hid => by
        rcases (hplace id).mp hid with hid | rfl
        · exact hin id hid
        · exact hp p List.mem_cons_self
    change ((s.place p).1.placeAll ps).1.Holds id ↔ _
    rw [hrest, hplace, or_assoc, List.exists_mem_cons_iff, @eq_comm _ id]

def fingers (points : List TouchPoint) : Finset ℕ := (points.map (·.id)).toFinset

theorem mem_fingers {points : List TouchPoint} {id : ℕ} :
    id ∈ fingers points ↔ ∃ p ∈ points, p.id = id := by simp [fingers]

/-- After a frame of at most ten fingers, the slots hold exactly those. -/
theorem holds_frame {points : List TouchPoint} (hfew : (fingers points).card ≤ slots) (s : Slots)
    (id : ℕ) : (s.frame points).1.Holds id ↔ ∃ p ∈ points, p.id = id := by
  have hlifted : ∀ id, (s.lifted points).Holds id → id ∈ fingers points :=
    fun id hid => mem_fingers.mpr (holds_lifted.mp hid).2
  change ((s.lifted points).placeAll points).1.Holds id ↔ _
  rw [holds_placeAll hfew (fun p hp => mem_fingers.mpr ⟨p, hp, rfl⟩) hlifted, holds_lifted]
  constructor
  · rintro (h | h)
    · exact h.2
    · exact h
  · exact .inr

end Slots

/-- Whether an operation stamped `order` beats the highest order applied so far. -/
def shouldApply (lastApplied order : ℕ) : Bool := lastApplied < order

end Touchpad

open Touchpad

structure TouchpadEffector where
  /-- The device that is open, with the dimensions it was created for. -/
  device : Option ((ℕ × ℕ) × Slots)
  lastApplied : ℕ

namespace TouchpadEffector

def default : TouchpadEffector := ⟨none, 0⟩

def dropped (device : Option ((ℕ × ℕ) × Slots)) : List Ev := device.elim [] (·.2.releaseAll)

/-- One operation, under the lock. A repeated `begin` of the same size keeps the device. -/
def run (e : TouchpadEffector) (order : ℕ) (op : TouchpadOp) : TouchpadEffector × List Ev :=
  if !shouldApply e.lastApplied order then (e, [])
  else match op with
    | .begin w h =>
      if e.device.any fun d => d.1 = (w, h) then ({ e with lastApplied := order }, [])
      else (⟨some ((w, h), .default), order⟩, dropped e.device)
    | .frame points =>
      match e.device with
      | none => ({ e with lastApplied := order }, [])
      | some (dims, s) => (⟨some (dims, (s.frame points).1), order⟩, (s.frame points).2)
    | .end => (⟨none, order⟩, dropped e.device)

/-- The operations in the order in which their tasks take the lock. -/
def runAll (e : TouchpadEffector) (arrived : List (ℕ × TouchpadOp)) : TouchpadEffector :=
  arrived.foldl (fun e x => (e.run x.1 x.2).1) e

def dims (e : TouchpadEffector) : Option (ℕ × ℕ) := e.device.map (·.1)

/-- What an operation leaves open: a `begin` its dimensions, an `end` nothing, and a frame says
nothing about it. -/
def leaves : TouchpadOp → Option (Option (ℕ × ℕ))
  | .begin w h => some (some (w, h))
  | .frame _ => none
  | .end => some none

/-- What the latest `begin` or `end` among some operations leaves open. -/
def leftOpen (ops : List (ℕ × TouchpadOp)) : Option (ℕ × ℕ) :=
  ((ops.filterMap fun x => leaves x.2).getLast?).join

variable {e : TouchpadEffector} {order : ℕ}

theorem run_stale (h : order ≤ e.lastApplied) (op : TouchpadOp) : (e.run order op).1 = e := by
  have hnot : shouldApply e.lastApplied order = false := by simpa [shouldApply] using h
  unfold run
  rw [hnot]
  rfl

theorem run_applied (h : e.lastApplied < order) (op : TouchpadOp) :
    (e.run order op).1.lastApplied = order ∧
      (e.run order op).1.dims = (leaves op).getD e.dims := by
  have hyes : shouldApply e.lastApplied order = true := by simpa [shouldApply] using h
  unfold run
  simp only [hyes, Bool.not_true, Bool.false_eq_true, if_false]
  cases op with
  | begin w h =>
    cases hd : e.device with
    | none => exact ⟨rfl, rfl⟩
    | some d =>
      by_cases hsame : d.1 = (w, h)
      · simp [dims, leaves, hd, hsame]
      · simp [dims, leaves, hsame]
  | frame points =>
    cases hd : e.device with
    | none => simp [dims, leaves, hd]
    | some d => simp [dims, leaves, hd]
  | «end» => exact ⟨rfl, rfl⟩

/-- A frame that is applied leaves the device holding its fingers, if there is a device. -/
theorem run_frame (h : e.lastApplied < order) {points : List TouchPoint}
    (hfew : (Slots.fingers points).card ≤ slots) :
    ∀ d, (e.run order (.frame points)).1.device = some d →
      ∀ id, d.2.Holds id ↔ ∃ p ∈ points, p.id = id := by
  have hyes : shouldApply e.lastApplied order = true := by simpa [shouldApply] using h
  unfold run
  simp only [hyes, Bool.not_true, Bool.false_eq_true, if_false]
  intro d hd
  cases hdev : e.device with
  | none => simp [hdev] at hd
  | some d' =>
    simp only [hdev, Option.some.injEq] at hd
    subst hd
    exact Slots.holds_frame hfew d'.2

theorem runAll_append (e : TouchpadEffector) (xs ys : List (ℕ × TouchpadOp)) :
    e.runAll (xs ++ ys) = (e.runAll xs).runAll ys := List.foldl_append

/-- What counts decides what is open, and nothing stamped lower counts any more. -/
theorem runAll_dims (e : TouchpadEffector) (xs : List (ℕ × TouchpadOp)) :
    (e.runAll xs).dims =
      (((Lib.kept e.lastApplied xs).filterMap fun x => leaves x.2).getLast?).getD e.dims := by
  induction xs generalizing e with
  | nil => rfl
  | cons x xs ih =>
    change ((e.run x.1 x.2).1.runAll xs).dims = _
    by_cases hx : e.lastApplied < x.1
    · obtain ⟨horder, hdims⟩ := run_applied hx x.2
      rw [ih, horder, hdims, Lib.kept_cons_of_lt hx]
      cases hleaves : leaves x.2 with
      | none => simp [hleaves]
      | some d => simp [hleaves, List.getLast?_cons]
    · have hle := Nat.le_of_not_lt hx
      rw [run_stale hle, ih, Lib.kept_cons_of_le hle]

theorem runAll_lastApplied_le {n : ℕ} (he : e.lastApplied ≤ n) {xs : List (ℕ × TouchpadOp)}
    (h : ∀ x ∈ xs, x.1 ≤ n) : (e.runAll xs).lastApplied ≤ n := by
  induction xs generalizing e with
  | nil => exact he
  | cons x xs ih =>
    have hnext : (e.run x.1 x.2).1.lastApplied ≤ n := by
      by_cases hx : e.lastApplied < x.1
      · rw [(run_applied hx x.2).1]
        exact h x List.mem_cons_self
      · rw [run_stale (Nat.le_of_not_lt hx)]
        exact he
    exact ih hnext fun y hy => h y (List.mem_cons_of_mem _ hy)

/-- The device is as it would be after running everything in order, and holds the fingers of the
last frame and no others. -/
structure Settled (t inOrder : TouchpadEffector) (points : List TouchPoint) : Prop where
  dims : t.dims = inOrder.dims
  fingers : ∀ d, t.device = some d → ∀ id, d.2.Holds id ↔ ∃ p ∈ points, p.id = id

theorem dims_default (xs : List (ℕ × TouchpadOp)) :
    (default.runAll xs).dims = leftOpen (Lib.kept 0 xs) := by
  have hzero : default.lastApplied = 0 := rfl
  rw [runAll_dims, hzero]
  unfold leftOpen
  cases ((Lib.kept 0 xs).filterMap fun x => leaves x.2).getLast? <;> rfl

/-- One frame with the highest order, last. -/
theorem runAll_last {xs : List (ℕ × TouchpadOp)} (points : List TouchPoint)
    (h : ∀ x ∈ xs, x.1 < order) :
    (default.runAll (xs ++ [(order, .frame points)])).dims = leftOpen (Lib.kept 0 xs) ∧
      ((Slots.fingers points).card ≤ slots →
        ∀ d, (default.runAll (xs ++ [(order, .frame points)])).device = some d →
          ∀ id, d.2.Holds id ↔ ∃ p ∈ points, p.id = id) := by
  rw [runAll_append]
  change ((default.runAll xs).run order (.frame points)).1.dims = _ ∧ (_ → ∀ d,
    ((default.runAll xs).run order (.frame points)).1.device = some d → _)
  cases xs with
  | nil =>
    by_cases hzero : 0 < order
    · exact ⟨(run_applied (e := default) hzero _).2, run_frame (e := default) hzero⟩
    · have hstale : (default.run order (.frame points)).1 = default :=
        run_stale (Nat.le_of_not_lt hzero) _
      change (default.run order (.frame points)).1.dims = _ ∧ (_ → ∀ d,
        (default.run order (.frame points)).1.device = some d → _)
      rw [hstale]
      exact ⟨rfl, nofun⟩
  | cons x xs =>
    have hlater : (default.runAll (x :: xs)).lastApplied < order := by
      have hx := h x List.mem_cons_self
      have hle : (default.runAll (x :: xs)).lastApplied ≤ order - 1 := by
        apply runAll_lastApplied_le (Nat.zero_le _)
        intro y hy
        have := h y hy
        omega
      omega
    refine ⟨?_, run_frame hlater⟩
    rw [(run_applied hlater _).2, ← dims_default]
    rfl

/-- Operations that reach the device out of order, then a frame of at most ten fingers with the
highest order: the device ends as in order exactly if the latest `begin` or `end` that no later
operation overtook leaves open what the latest one of all leaves open. -/
theorem reordered_settles_iff {ops arrived : List (ℕ × TouchpadOp)} {points : List TouchPoint}
    (sorted : ops.Pairwise (·.1 < ·.1)) (perm : arrived.Perm ops)
    (highest : ∀ x ∈ ops, x.1 < order) (few : (Slots.fingers points).card ≤ slots) :
    Settled (default.runAll (arrived ++ [(order, .frame points)]))
      (default.runAll (ops ++ [(order, .frame points)])) points ↔
    leftOpen (Lib.kept 0 arrived) = leftOpen (ops.filter fun x => 0 < x.1) := by
  obtain ⟨harrived, hfingers⟩ := runAll_last points fun x hx => highest x (perm.subset hx)
  have hops := (runAll_last points highest).1
  rw [← Lib.kept_of_sorted sorted]
  constructor
  · intro h
    rw [← harrived, h.dims, hops]
  · intro h
    exact ⟨by rw [harrived, h, hops], hfingers few⟩

end TouchpadEffector

namespace Mock

def stroke : List (ℕ × TouchpadOp) := [(1, .begin 60 40), (2, .frame [])]

end Mock

/-- In order, the stream ends with the device open and the finger on it. -/
theorem stroke_settles : TouchpadEffector.Settled
    (TouchpadEffector.default.runAll (Mock.stroke ++ [(3, .frame [⟨7, 1, 2⟩])]))
    (TouchpadEffector.default.runAll (Mock.stroke ++ [(3, .frame [⟨7, 1, 2⟩])])) [⟨7, 1, 2⟩] :=
  (TouchpadEffector.reordered_settles_iff (by decide) (.refl _) (by decide) (by decide)).mpr
    (by decide)

/-- A `begin` that its first frame overtook is discarded, and no later frame opens the device. -/
theorem overtaken_begin_lost :
    ¬ ∀ (ops arrived : List (ℕ × TouchpadOp)) (order : ℕ) (points : List TouchPoint),
      ops.Pairwise (·.1 < ·.1) → arrived.Perm ops → (∀ x ∈ ops, x.1 < order) →
      (Slots.fingers points).card ≤ slots →
      TouchpadEffector.Settled
        (TouchpadEffector.default.runAll (arrived ++ [(order, .frame points)]))
        (TouchpadEffector.default.runAll (ops ++ [(order, .frame points)])) points := by
  intro hall
  have hswapped : Mock.stroke.reverse.Perm Mock.stroke := List.reverse_perm _
  have hsettled := hall Mock.stroke Mock.stroke.reverse 3 [⟨7, 1, 2⟩] (by decide) hswapped
    (by decide) (by decide)
  have hdims := hsettled.dims
  revert hdims
  decide

end Acrylius
