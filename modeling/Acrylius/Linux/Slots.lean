import Acrylius.Linux.Touchpad
import Mathlib.Data.List.Nodup
import Mathlib.Tactic.IntervalCases

/-! What a reader of the virtual touchpad makes of its events: multitouch protocol B, where an event
is about the slot named last. The slots and the reader run side by side, frame after frame. -/
namespace Acrylius

namespace Touchpad

/-- A slot as the reader has it. A tracking id below zero is no contact. -/
structure Contact where
  tracking : ℤ
  x : ℤ
  y : ℤ
deriving DecidableEq

structure Reader where
  slot : Fin slots
  contacts : Fin slots → Contact
  x : ℤ
  y : ℤ
  keys : Key → ℤ

namespace Reader

def default : Reader := ⟨⟨0, by decide⟩, fun _ => ⟨-1, 0, 0⟩, 0, 0, fun _ => 0⟩

def current (r : Reader) : Contact := r.contacts r.slot

def setCurrent (r : Reader) (c : Contact) : Reader :=
  { r with contacts := Function.update r.contacts r.slot c }

/-- A slot that the device does not have is not taken note of. -/
def read (r : Reader) : Ev → Reader
  | .abs .multitouchSlot v =>
    if h : 0 ≤ v ∧ v.toNat < slots then { r with slot := ⟨v.toNat, h.2⟩ } else r
  | .abs .multitouchTrackingId v => r.setCurrent { r.current with tracking := v }
  | .abs .multitouchPositionX v => r.setCurrent { r.current with x := v }
  | .abs .multitouchPositionY v => r.setCurrent { r.current with y := v }
  | .abs .x v => { r with x := v }
  | .abs .y v => { r with y := v }
  | .key k v => { r with keys := Function.update r.keys k v }
  | .synReport => r

def replay (r : Reader) (evs : List Ev) : Reader := evs.foldl read r

@[simp] theorem replay_nil (r : Reader) : r.replay [] = r := rfl

@[simp] theorem replay_cons (r : Reader) (e : Ev) (evs : List Ev) :
    r.replay (e :: evs) = (r.read e).replay evs := rfl

@[simp] theorem replay_append (r : Reader) (xs ys : List Ev) :
    r.replay (xs ++ ys) = (r.replay xs).replay ys := List.foldl_append

theorem read_slot (r : Reader) (i : Fin slots) :
    r.read (.abs .multitouchSlot i) = { r with slot := i } := by
  have hlt : ((i : ℕ) : ℤ).toNat < slots := by simp
  have hnonneg : (0 : ℤ) ≤ (i : ℕ) := by omega
  have hself : (⟨((i : ℕ) : ℤ).toNat, hlt⟩ : Fin slots) = i := by
    apply Fin.ext
    simp
  simp only [read, dif_pos (And.intro hnonneg hlt), hself]

theorem contacts_lift (r : Reader) (i : Fin slots) :
    (r.replay [.abs .multitouchSlot i, .abs .multitouchTrackingId (-1)]).contacts =
      Function.update r.contacts i { r.contacts i with tracking := -1 } := by
  simp only [replay_cons, replay_nil, read_slot]
  rfl

theorem contacts_move (r : Reader) (i : Fin slots) (x y : ℤ) :
    (r.replay [.abs .multitouchSlot i, .abs .multitouchPositionX x,
        .abs .multitouchPositionY y]).contacts =
      Function.update r.contacts i ⟨(r.contacts i).tracking, x, y⟩ := by
  simp only [replay_cons, replay_nil, read_slot]
  simp [read, setCurrent, current]

theorem contacts_touch (r : Reader) (i : Fin slots) (t x y : ℤ) :
    (r.replay [.abs .multitouchSlot i, .abs .multitouchTrackingId t, .abs .multitouchPositionX x,
        .abs .multitouchPositionY y]).contacts = Function.update r.contacts i ⟨t, x, y⟩ := by
  simp only [replay_cons, replay_nil, read_slot]
  simp [read, setCurrent, current]

end Reader

def handedOut (evs : List Ev) : List ℤ := evs.filterMap fun
  | .abs .multitouchTrackingId v => if 0 ≤ v then some v else none
  | _ => none

theorem handedOut_append (xs ys : List Ev) :
    handedOut (xs ++ ys) = handedOut xs ++ handedOut ys := List.filterMap_append

/-- The first so many tracking ids. They start over after the largest. -/
def ids (n : ℕ) : List ℤ := (List.range n).map fun k => ((k % maxTracking + 1 : ℕ) : ℤ)

theorem ids_succ (n : ℕ) : ids (n + 1) = ids n ++ [((n % maxTracking + 1 : ℕ) : ℤ)] := by
  simp [ids, List.range_succ]

theorem ids_nodup {n : ℕ} (h : n < 2 ^ 31) : (ids n).Nodup := by
  apply List.Nodup.map_on
  · intro j hj k hk hsame
    rw [List.mem_range] at hj hk
    have hjmod : j % maxTracking = j := Nat.mod_eq_of_lt (by unfold maxTracking; omega)
    have hkmod : k % maxTracking = k := Nat.mod_eq_of_lt (by unfold maxTracking; omega)
    rw [hjmod, hkmod] at hsame
    omega
  · exact List.nodup_range

namespace Slots

section Steps

variable {s : Slots} {p : TouchPoint} {points : List TouchPoint}

/-- What one finger that is down does: it moves in its slot, or takes a free one, or finds none. -/
theorem place_cases (s : Slots) (p : TouchPoint) :
    (∃ i, s.held i = some p.id ∧ s.place p = (s, [.abs .multitouchSlot i,
      .abs .multitouchPositionX p.x, .abs .multitouchPositionY p.y])) ∨
    (∃ i hnew, s.held i = none ∧ s.place p = (s.put i p.id hnew, [.abs .multitouchSlot i,
      .abs .multitouchTrackingId s.nextTracking, .abs .multitouchPositionX p.x,
      .abs .multitouchPositionY p.y])) ∨
    ((∀ i, s.held i ≠ some p.id) ∧ s.place p = (s, [])) := by
  unfold place
  dsimp only
  split
  · rename_i i hi
    have hheld : s.held i = some p.id := by simpa using position_some hi
    left
    exact ⟨i, hheld, rfl⟩
  · rename_i hnew
    right
    split
    · rename_i i hi
      have hfree : s.held i = none := by simpa using position_some hi
      left
      exact ⟨i, not_held hnew, hfree, rfl⟩
    · right
      exact ⟨not_held hnew, rfl⟩

theorem held_put {i : Fin slots} {id : ℕ} (hnew : ∀ j, s.held j ≠ some id) :
    (s.put i id hnew).held = Function.update s.held i (some id) := rfl

theorem placeAll_cons (s : Slots) (p : TouchPoint) (ps : List TouchPoint) :
    s.placeAll (p :: ps) = (((s.place p).1.placeAll ps).1,
      (s.place p).2 ++ ((s.place p).1.placeAll ps).2) := rfl

theorem frame_eq (s : Slots) (points : List TouchPoint) :
    s.frame points = (((s.lifted points).placeAll points).1,
      (s.lift points).2 ++ ((s.lifted points).placeAll points).2 ++
        (((s.lifted points).placeAll points).1).trailer points) := rfl

def lastOf (id : ℕ) (points : List TouchPoint) : Option TouchPoint :=
  (points.filter fun p => p.id = id).getLast?

theorem lastOf_append_self (points : List TouchPoint) (p : TouchPoint) :
    lastOf p.id (points ++ [p]) = some p := by
  simp [lastOf]

theorem lastOf_append_of_ne {id : ℕ} (points : List TouchPoint) (hne : p.id ≠ id) :
    lastOf id (points ++ [p]) = lastOf id points := by
  simp [lastOf, hne]

theorem exists_lastOf {id : ℕ} (h : ∃ p ∈ points, p.id = id) : ∃ p, lastOf id points = some p := by
  obtain ⟨p, hp, hid⟩ := h
  have hmem : p ∈ points.filter fun p => p.id = id := by simp [hp, hid]
  have hne : points.filter (fun p => p.id = id) ≠ [] := List.ne_nil_of_mem hmem
  exact ⟨_, List.getLast?_eq_some_getLast hne⟩

/-- The reader has a contact in the slots that are held, where the finger's last point put it. -/
structure Shows (r : Reader) (s : Slots) (given : List TouchPoint) : Prop where
  contact : ∀ i, 0 ≤ (r.contacts i).tracking ↔ (s.held i).isSome
  position : ∀ i id p, s.held i = some id → lastOf id given = some p →
    (r.contacts i).x = p.x ∧ (r.contacts i).y = p.y

/-- Fingers keep slot and tracking id, and whoever is new has one of the ids handed out. -/
structure Keeps (r : Reader) (s : Slots) (r' : Reader) (s' : Slots) (evs : List Ev) : Prop where
  kept : ∀ i id, s.held i = some id →
    s'.held i = some id ∧ (r'.contacts i).tracking = (r.contacts i).tracking
  fresh : ∀ i id, s'.held i = some id → s.held i = some id ∨ (r'.contacts i).tracking ∈ handedOut evs

/-- Contacts have ids that were handed out, each its own. -/
structure Distinct (r : Reader) (s : Slots) (used : List ℤ) : Prop where
  used : ∀ i id, s.held i = some id → (r.contacts i).tracking ∈ used
  own : ∀ i j id id', s.held i = some id → s.held j = some id' → i ≠ j →
    (r.contacts i).tracking ≠ (r.contacts j).tracking

def Counted (s : Slots) (n : ℕ) : Prop := s.nextTracking = n % maxTracking + 1

theorem Keeps.trans {r r' r'' : Reader} {s s' s'' : Slots} {xs ys : List Ev}
    (h : Keeps r s r' s' xs) (h' : Keeps r' s' r'' s'' ys) : Keeps r s r'' s'' (xs ++ ys) where
  kept i id hi := by
    obtain ⟨hi', htracking⟩ := h.kept i id hi
    obtain ⟨hi'', htracking'⟩ := h'.kept i id hi'
    exact ⟨hi'', htracking'.trans htracking⟩
  fresh i id hi := by
    rw [handedOut_append, List.mem_append]
    rcases h'.fresh i id hi with hi' | hnew
    · rcases h.fresh i id hi' with hi | hnew
      · exact .inl hi
      · right
        left
        rw [(h'.kept i id hi').2]
        exact hnew
    · exact .inr (.inr hnew)

section Lift

theorem contacts_lifts (r : Reader) (gone : Fin slots → Bool) (is : List (Fin slots)) :
    (r.replay (is.flatMap fun i => if gone i then
        [.abs .multitouchSlot i, .abs .multitouchTrackingId (-1)] else [])).contacts =
      fun i => if gone i ∧ i ∈ is then { r.contacts i with tracking := -1 } else r.contacts i := by
  induction is generalizing r with
  | nil => simp
  | cons j is ih =>
    rw [List.flatMap_cons, Reader.replay_append, ih]
    funext i
    by_cases hj : gone j
    · rw [if_pos hj, Reader.contacts_lift]
      by_cases hij : i = j
      · subst hij
        simp [hj]
      · simp [hij]
    · rw [if_neg hj, Reader.replay_nil]
      by_cases hij : i = j
      · subst hij
        simp [hj]
      · simp [hij]

theorem contacts_lift (r : Reader) (s : Slots) (points : List TouchPoint) (i : Fin slots) :
    (r.replay (s.lift points).2).contacts i =
      if gone points (s.held i) then { r.contacts i with tracking := -1 } else r.contacts i := by
  have hlifts := contacts_lifts r (fun i => gone points (s.held i)) (List.finRange slots)
  unfold lift
  dsimp only
  rw [hlifts]
  simp

theorem held_lifted (s : Slots) (points : List TouchPoint) (i : Fin slots) :
    (s.lifted points).held i = if gone points (s.held i) then none else s.held i := rfl

theorem handedOut_lift (s : Slots) (points : List TouchPoint) :
    handedOut (s.lift points).2 = [] := by
  rw [handedOut, List.filterMap_eq_nil_iff]
  intro e he
  obtain ⟨i, -, hi⟩ := List.mem_flatMap.mp he
  split at hi
  · simp only [List.mem_cons, List.not_mem_nil, or_false] at hi
    rcases hi with rfl | rfl
    · rfl
    · rfl
  · simp at hi

theorem Shows.lift {r : Reader} {given : List TouchPoint} (h : Shows r s given)
    (points : List TouchPoint) : Shows (r.replay (s.lift points).2) (s.lifted points) [] where
  contact i := by
    rw [contacts_lift, held_lifted]
    by_cases hgone : gone points (s.held i)
    · simp [hgone]
    · simp only [hgone, Bool.false_eq_true, if_false]
      exact h.contact i
  position i id p _ hp := by simp [lastOf] at hp

end Lift

section Place

theorem Shows.place {r : Reader} {given : List TouchPoint} (h : Shows r s given) (p : TouchPoint) :
    Shows (r.replay (s.place p).2) (s.place p).1 (given ++ [p]) := by
  obtain ⟨i, hi, heq⟩ | ⟨i, hnew, hi, heq⟩ | ⟨hnew, heq⟩ := place_cases s p
  · rw [heq]
    dsimp only
    constructor
    · intro j
      rw [Reader.contacts_move]
      by_cases hj : j = i
      · subst hj
        rw [Function.update_self]
        exact h.contact j
      · rw [Function.update_of_ne hj]
        exact h.contact j
    · intro j id q hid hq
      rw [Reader.contacts_move]
      by_cases hj : j = i
      · subst hj
        have hsame : p.id = id := by simpa [hi] using hid
        subst hsame
        rw [lastOf_append_self] at hq
        obtain rfl := Option.some.inj hq
        simp
      · have hne : p.id ≠ id := by
          intro hsame
          subst hsame
          exact hj (s.alone j i p.id hid hi)
        rw [lastOf_append_of_ne given hne] at hq
        rw [Function.update_of_ne hj]
        exact h.position j id q hid hq
  · rw [heq]
    dsimp only
    constructor
    · intro j
      rw [Reader.contacts_touch, held_put]
      by_cases hj : j = i
      · subst hj
        simp
      · rw [Function.update_of_ne hj, Function.update_of_ne hj]
        exact h.contact j
    · intro j id q hid hq
      rw [held_put] at hid
      rw [Reader.contacts_touch]
      by_cases hj : j = i
      · subst hj
        have hsame : p.id = id := by simpa using hid
        subst hsame
        rw [lastOf_append_self] at hq
        obtain rfl := Option.some.inj hq
        simp
      · rw [Function.update_of_ne hj] at hid
        have hne : p.id ≠ id := by
          intro hsame
          subst hsame
          exact hnew j hid
        rw [lastOf_append_of_ne given hne] at hq
        rw [Function.update_of_ne hj]
        exact h.position j id q hid hq
  · rw [heq]
    constructor
    · exact h.contact
    · intro j id q hid hq
      have hne : p.id ≠ id := by
        intro hsame
        subst hsame
        exact hnew j hid
      rw [lastOf_append_of_ne given hne] at hq
      exact h.position j id q hid hq

theorem Keeps.place (r : Reader) (s : Slots) (p : TouchPoint) :
    Keeps r s (r.replay (s.place p).2) (s.place p).1 (s.place p).2 := by
  obtain ⟨i, hi, heq⟩ | ⟨i, hnew, hi, heq⟩ | ⟨hnew, heq⟩ := place_cases s p
  · rw [heq]
    dsimp only
    constructor
    · intro j id hid
      rw [Reader.contacts_move]
      by_cases hj : j = i
      · subst hj
        rw [Function.update_self]
        exact ⟨hid, rfl⟩
      · rw [Function.update_of_ne hj]
        exact ⟨hid, rfl⟩
    · intro j id hid
      exact .inl hid
  · rw [heq]
    dsimp only
    constructor
    · intro j id hid
      have hj : j ≠ i := by
        intro hj
        subst hj
        simp [hi] at hid
      rw [Reader.contacts_touch, held_put, Function.update_of_ne hj, Function.update_of_ne hj]
      exact ⟨hid, rfl⟩
    · intro j id hid
      rw [held_put] at hid
      rw [Reader.contacts_touch]
      by_cases hj : j = i
      · subst hj
        right
        simp [handedOut]
      · rw [Function.update_of_ne hj] at hid
        exact .inl hid
  · rw [heq]
    constructor
    · intro j id hid
      exact ⟨hid, rfl⟩
    · intro j id hid
      exact .inl hid

theorem Counted.place {n : ℕ} (h : Counted s n) (p : TouchPoint) :
    Counted (s.place p).1 (n + (handedOut (s.place p).2).length) ∧
      ids n ++ handedOut (s.place p).2 = ids (n + (handedOut (s.place p).2).length) := by
  obtain ⟨i, hi, heq⟩ | ⟨i, hnew, hi, heq⟩ | ⟨hnew, heq⟩ := place_cases s p
  · rw [heq]
    simpa [handedOut] using h
  · have hone : handedOut (s.place p).2 = [(s.nextTracking : ℤ)] := by simp [heq, handedOut]
    rw [hone, heq]
    unfold Counted at h
    constructor
    · have hnext : (s.put i p.id hnew).nextTracking =
          if s.nextTracking = maxTracking then 1 else s.nextTracking + 1 := rfl
      dsimp only [Counted]
      rw [hnext, h]
      unfold maxTracking
      by_cases hlast : n % (2 ^ 31 - 1) + 1 = 2 ^ 31 - 1
      · rw [if_pos hlast, List.length_singleton]
        omega
      · rw [if_neg hlast, List.length_singleton]
        omega
    · rw [List.length_singleton, ids_succ, h]
  · rw [heq]
    simpa [handedOut] using h

theorem Distinct.place {r : Reader} {used : List ℤ} (h : Distinct r s used) (p : TouchPoint)
    (hnodup : (used ++ handedOut (s.place p).2).Nodup) :
    Distinct (r.replay (s.place p).2) (s.place p).1 (used ++ handedOut (s.place p).2) := by
  have hkeeps := Keeps.place r s p
  constructor
  · intro i id hi
    rcases hkeeps.fresh i id hi with hold | hnew
    · rw [(hkeeps.kept i id hold).2]
      exact List.mem_append_left _ (h.used i id hold)
    · exact List.mem_append_right _ hnew
  · intro i j id id' hi hj hne
    have happart : ∀ i ∈ used, ∀ j ∈ handedOut (s.place p).2, i ≠ j :=
      (List.nodup_append.mp hnodup).2.2
    rcases hkeeps.fresh i id hi with hi' | hi'
    · rw [(hkeeps.kept i id hi').2]
      rcases hkeeps.fresh j id' hj with hj' | hj'
      · rw [(hkeeps.kept j id' hj').2]
        exact h.own i j id id' hi' hj' hne
      · exact happart _ (h.used i id hi') _ hj'
    · rcases hkeeps.fresh j id' hj with hj' | hj'
      · rw [(hkeeps.kept j id' hj').2]
        exact (happart _ (h.used j id' hj') _ hi').symm
      · -- Only the finger that is placed can be new, and it is in one slot.
        obtain ⟨k, hk, heq⟩ | ⟨k, hnew, hk, heq⟩ | ⟨hnew, heq⟩ := place_cases s p
        · simp [heq, handedOut] at hi'
        · have hheld : (s.place p).1.held = Function.update s.held k (some p.id) := by
            rw [heq, held_put]
          by_cases hik : i = k
          · have hjk : j ≠ k := by
              intro hjk
              exact hne (hik.trans hjk.symm)
            rw [hheld, Function.update_of_ne hjk] at hj
            rw [(hkeeps.kept j id' hj).2] at hj'
            exact absurd rfl (happart _ (h.used j id' hj) _ hj')
          · rw [hheld, Function.update_of_ne hik] at hi
            rw [(hkeeps.kept i id hi).2] at hi'
            exact absurd rfl (happart _ (h.used i id hi) _ hi')
        · simp [heq, handedOut] at hi'

end Place

section All

theorem Keeps.refl (r : Reader) (s : Slots) : Keeps r s r s [] where
  kept _ _ hi := ⟨hi, rfl⟩
  fresh _ _ hi := .inl hi

theorem Shows.placeAll {r : Reader} {given : List TouchPoint} (h : Shows r s given)
    (points : List TouchPoint) :
    Shows (r.replay (s.placeAll points).2) (s.placeAll points).1 (given ++ points) := by
  induction points generalizing r s given with
  | nil => simpa [placeAll] using h
  | cons p ps ih =>
    have hrest := ih (h.place p)
    rw [placeAll_cons, Reader.replay_append]
    simpa using hrest

theorem Keeps.placeAll (r : Reader) (s : Slots) (points : List TouchPoint) :
    Keeps r s (r.replay (s.placeAll points).2) (s.placeAll points).1 (s.placeAll points).2 := by
  induction points generalizing r s with
  | nil => exact Keeps.refl r s
  | cons p ps ih =>
    rw [placeAll_cons, Reader.replay_append]
    exact (Keeps.place r s p).trans (ih _ _)

theorem Counted.placeAll {n : ℕ} (h : Counted s n) (points : List TouchPoint) :
    Counted (s.placeAll points).1 (n + (handedOut (s.placeAll points).2).length) ∧
      ids n ++ handedOut (s.placeAll points).2 =
        ids (n + (handedOut (s.placeAll points).2).length) := by
  induction points generalizing s n with
  | nil => simpa [Slots.placeAll, handedOut] using h
  | cons p ps ih =>
    obtain ⟨hcount, hids⟩ := h.place p
    obtain ⟨hcount', hids'⟩ := ih hcount
    rw [placeAll_cons]
    simp only [handedOut_append, List.length_append, ← Nat.add_assoc]
    rw [← List.append_assoc, hids]
    exact ⟨hcount', hids'⟩

theorem synReport_not_mem_placeAll (s : Slots) (points : List TouchPoint) :
    Ev.synReport ∉ (s.placeAll points).2 := by
  induction points generalizing s with
  | nil => simp [placeAll]
  | cons p ps ih =>
    rw [placeAll_cons, List.mem_append, not_or]
    constructor
    · obtain ⟨i, hi, heq⟩ | ⟨i, hnew, hi, heq⟩ | ⟨hnew, heq⟩ := place_cases s p
      · simp [heq]
      · simp [heq]
      · simp [heq]
    · exact ih _

end All

section Trailer

def down (s : Slots) : ℕ := ((List.finRange slots).filter fun i => (s.held i).isSome).length

theorem down_pos {s : Slots} : 0 < s.down ↔ ∃ i, (s.held i).isSome := by
  simp [down, List.length_pos_iff_exists_mem]

def axesAndKeys (s : Slots) (points : List TouchPoint) : List Ev :=
  (((s.position Option.isSome).bind fun i => points.find? fun p => some p.id = s.held i).elim []
      fun p => [.abs .x p.x, .abs .y p.y]) ++
    .key .buttonTouch (if 0 < s.down then 1 else 0) ::
      toolKeys.mapIdx (fun n k => .key k (if min s.down toolKeys.length = n + 1 then 1 else 0))

theorem trailer_eq (s : Slots) (points : List TouchPoint) :
    s.trailer points = s.axesAndKeys points ++ [.synReport] := by
  simp only [trailer, axesAndKeys, down, List.append_assoc, List.cons_append]
  rfl

theorem synReport_not_mem_axesAndKeys (s : Slots) (points : List TouchPoint) :
    Ev.synReport ∉ s.axesAndKeys points := by
  unfold axesAndKeys
  cases (s.position Option.isSome).bind fun i => points.find? fun p => some p.id = s.held i with
  | none => simp [toolKeys]
  | some p => simp [toolKeys]

theorem handedOut_axesAndKeys (s : Slots) (points : List TouchPoint) :
    handedOut (s.axesAndKeys points) = [] := by
  unfold axesAndKeys
  cases (s.position Option.isSome).bind fun i => points.find? fun p => some p.id = s.held i with
  | none => simp [toolKeys, handedOut]
  | some p => simp [toolKeys, handedOut]

theorem contacts_trailer (r : Reader) (s : Slots) (points : List TouchPoint) :
    (r.replay (s.trailer points)).contacts = r.contacts := by
  unfold trailer
  dsimp only
  cases (s.position Option.isSome).bind fun i => points.find? fun p => some p.id = s.held i with
  | none => simp [toolKeys, Reader.read]
  | some p => simp [toolKeys, Reader.read]

theorem keys_trailer (r : Reader) (s : Slots) (points : List TouchPoint) :
    (r.replay (s.trailer points)).keys .buttonTouch = (if 0 < s.down then 1 else 0) ∧
      ∀ n k, toolKeys[n]? = some k →
        (r.replay (s.trailer points)).keys k = if min s.down 5 = n + 1 then 1 else 0 := by
  rw [trailer_eq, Reader.replay_append]
  unfold axesAndKeys
  rw [Reader.replay_append]
  generalize r.replay _ = r'
  constructor
  · simp [toolKeys, Reader.read]
  · intro n k hk
    have hlt : n < 5 := (List.getElem?_eq_some_iff.mp hk).1
    interval_cases n
    all_goals
      simp [toolKeys] at hk
      subst hk
      simp [toolKeys, Reader.read]

/-- One tool key is down exactly while a finger is. -/
theorem tool_trailer (r : Reader) (s : Slots) (points : List TouchPoint) :
    ((∃ i, (s.held i).isSome) → ∃ k ∈ toolKeys, (r.replay (s.trailer points)).keys k = 1 ∧
      ∀ k' ∈ toolKeys, k' ≠ k → (r.replay (s.trailer points)).keys k' = 0) ∧
    (¬ (∃ i, (s.held i).isSome) → ∀ k ∈ toolKeys, (r.replay (s.trailer points)).keys k = 0) := by
  obtain ⟨-, hkeys⟩ := keys_trailer r s points
  rw [← down_pos]
  constructor
  · intro hdown
    have hlt : min s.down 5 - 1 < toolKeys.length := by
      simp only [toolKeys, List.length_cons, List.length_nil]
      omega
    refine ⟨toolKeys[min s.down 5 - 1], List.getElem_mem hlt, ?_, ?_⟩
    · have hn : min s.down 5 = min s.down 5 - 1 + 1 := by omega
      rw [hkeys _ _ (List.getElem?_eq_getElem hlt), if_pos hn]
    · intro k' hk' hne
      obtain ⟨n, hlen, hn⟩ := List.mem_iff_getElem.mp hk'
      have hother : min s.down 5 ≠ n + 1 := by
        intro hsame
        apply hne
        have hindex : n = min s.down 5 - 1 := by omega
        subst hindex
        exact hn.symm
      rw [hkeys n k' (List.getElem?_eq_some_iff.mpr ⟨hlen, hn⟩), if_neg hother]
  · intro hnone k hk
    obtain ⟨n, hlen, hn⟩ := List.mem_iff_getElem.mp hk
    have hzero : min s.down 5 ≠ n + 1 := by omega
    rw [hkeys n k (List.getElem?_eq_some_iff.mpr ⟨hlen, hn⟩), if_neg hzero]

end Trailer

section Frame

theorem Shows.frame {r : Reader} {given : List TouchPoint} (h : Shows r s given)
    (points : List TouchPoint) : Shows (r.replay (s.frame points).2) (s.frame points).1 points := by
  have hplaced := (h.lift points).placeAll points
  rw [frame_eq, Reader.replay_append, Reader.replay_append]
  dsimp only
  constructor
  · intro i
    rw [contacts_trailer]
    exact hplaced.contact i
  · intro i id p hi hp
    rw [contacts_trailer]
    exact hplaced.position i id p hi hp

theorem handedOut_frame (s : Slots) (points : List TouchPoint) :
    handedOut (s.frame points).2 = handedOut ((s.lifted points).placeAll points).2 := by
  have hsyn : handedOut [.synReport] = [] := rfl
  rw [frame_eq]
  simp only [handedOut_append, handedOut_lift, trailer_eq, handedOut_axesAndKeys, hsyn,
    List.nil_append, List.append_nil]

theorem Counted.frame {n : ℕ} (h : Counted s n) (points : List TouchPoint) :
    Counted (s.frame points).1 (n + (handedOut (s.frame points).2).length) ∧
      ids n ++ handedOut (s.frame points).2 = ids (n + (handedOut (s.frame points).2).length) := by
  have hlifted : Counted (s.lifted points) n := h
  rw [handedOut_frame]
  exact hlifted.placeAll points

theorem held_lifted_of_mem {i : Fin slots} {id : ℕ} (hi : s.held i = some id)
    (hmem : ∃ p ∈ points, p.id = id) : (s.lifted points).held i = some id := by
  have hgone : gone points (some id) = false := by
    simpa [gone] using hmem
  rw [held_lifted, hi, hgone]
  rfl

theorem contacts_lift_of_mem (r : Reader) {i : Fin slots} {id : ℕ}
    (hi : (s.lifted points).held i = some id) :
    (r.replay (s.lift points).2).contacts i = r.contacts i := by
  have hgone : ¬ gone points (s.held i) := by
    intro hgone
    rw [held_lifted, if_pos hgone] at hi
    simp at hi
  rw [contacts_lift, if_neg hgone]

theorem kept_frame (r : Reader) {i : Fin slots} {id : ℕ} (hi : s.held i = some id)
    (hmem : ∃ p ∈ points, p.id = id) :
    (s.frame points).1.held i = some id ∧
      ((r.replay (s.frame points).2).contacts i).tracking = (r.contacts i).tracking := by
  have hlifted := held_lifted_of_mem hi hmem
  obtain ⟨hheld, htracking⟩ :=
    (Keeps.placeAll (r.replay (s.lift points).2) (s.lifted points) points).kept i id hlifted
  rw [contacts_lift_of_mem r hlifted] at htracking
  rw [frame_eq, Reader.replay_append, Reader.replay_append, contacts_trailer]
  exact ⟨hheld, htracking⟩

/-- Whoever is held is among the frame's fingers, however many those are. -/
theorem mem_of_held_placeAll {i : Fin slots} {id : ℕ}
    (hi : (s.placeAll points).1.held i = some id) :
    s.held i = some id ∨ ∃ p ∈ points, p.id = id := by
  induction points generalizing s with
  | nil => exact .inl hi
  | cons p ps ih =>
    rw [placeAll_cons] at hi
    rcases ih hi with hplaced | ⟨q, hq, hid⟩
    · obtain ⟨j, hj, heq⟩ | ⟨j, hnew, hj, heq⟩ | ⟨hnew, heq⟩ := place_cases s p
      · rw [heq] at hplaced
        exact .inl hplaced
      · rw [heq, held_put] at hplaced
        by_cases hij : i = j
        · subst hij
          have hid : p.id = id := by simpa using hplaced
          exact .inr ⟨p, List.mem_cons_self, hid⟩
        · rw [Function.update_of_ne hij] at hplaced
          exact .inl hplaced
      · rw [heq] at hplaced
        exact .inl hplaced
    · exact .inr ⟨q, List.mem_cons_of_mem p hq, hid⟩

theorem mem_of_held_frame {i : Fin slots} {id : ℕ} (hi : (s.frame points).1.held i = some id) :
    ∃ p ∈ points, p.id = id := by
  rcases mem_of_held_placeAll (s := s.lifted points) hi with hlifted | hmem
  · exact (holds_lifted.mp ⟨i, hlifted⟩).2
  · exact hmem

/-- A finger that is new in its slot has a tracking id from this frame. -/
theorem fresh_frame (r : Reader) {i : Fin slots} {id : ℕ}
    (hi : (s.frame points).1.held i = some id) (hnew : s.held i ≠ some id) :
    ((r.replay (s.frame points).2).contacts i).tracking ∈ handedOut (s.frame points).2 := by
  have hplaced := (Keeps.placeAll (r.replay (s.lift points).2) (s.lifted points) points).fresh i id hi
  rw [handedOut_frame, frame_eq, Reader.replay_append, Reader.replay_append, contacts_trailer]
  rcases hplaced with hold | hfresh
  · rw [held_lifted] at hold
    split at hold
    · cases hold
    · exact absurd hold hnew
  · exact hfresh

theorem Distinct.placeAll {r : Reader} {used : List ℤ} (h : Distinct r s used)
    (points : List TouchPoint) (hnodup : (used ++ handedOut (s.placeAll points).2).Nodup) :
    Distinct (r.replay (s.placeAll points).2) (s.placeAll points).1
      (used ++ handedOut (s.placeAll points).2) := by
  induction points generalizing r s used with
  | nil => simpa [Slots.placeAll, handedOut] using h
  | cons p ps ih =>
    rw [placeAll_cons] at hnodup ⊢
    simp only [handedOut_append, ← List.append_assoc] at hnodup ⊢
    rw [Reader.replay_append]
    apply ih
    · apply h.place p
      exact (List.nodup_append.mp hnodup).1
    · exact hnodup

theorem Distinct.frame {r : Reader} {used : List ℤ} (h : Distinct r s used)
    (points : List TouchPoint) (hnodup : (used ++ handedOut (s.frame points).2).Nodup) :
    Distinct (r.replay (s.frame points).2) (s.frame points).1
      (used ++ handedOut (s.frame points).2) := by
  have hstill : ∀ i id, (s.lifted points).held i = some id → s.held i = some id := by
    intro i id hi
    rw [held_lifted] at hi
    split at hi
    · cases hi
    · exact hi
  have hlifted : Distinct (r.replay (s.lift points).2) (s.lifted points) used := by
    constructor
    · intro i id hi
      rw [contacts_lift_of_mem r hi]
      exact h.used i id (hstill i id hi)
    · intro i j id id' hi hj hne
      rw [contacts_lift_of_mem r hi, contacts_lift_of_mem r hj]
      exact h.own i j id id' (hstill i id hi) (hstill j id' hj) hne
  rw [handedOut_frame] at hnodup ⊢
  obtain ⟨hused, hown⟩ := hlifted.placeAll points hnodup
  rw [frame_eq, Reader.replay_append, Reader.replay_append]
  constructor
  · rw [contacts_trailer]
    exact hused
  · rw [contacts_trailer]
    exact hown

theorem report_frame (s : Slots) (points : List TouchPoint) :
    ∃ body, (s.frame points).2 = body ++ [.synReport] ∧ Ev.synReport ∉ body := by
  refine ⟨(s.lift points).2 ++ ((s.lifted points).placeAll points).2 ++
    (((s.lifted points).placeAll points).1).axesAndKeys points, ?_, ?_⟩
  · rw [frame_eq, trailer_eq]
    simp only [List.append_assoc]
  · simp only [List.mem_append, not_or]
    refine ⟨⟨?_, synReport_not_mem_placeAll _ _⟩, synReport_not_mem_axesAndKeys _ _⟩
    intro hmem
    obtain ⟨i, -, hi⟩ := List.mem_flatMap.mp hmem
    split at hi
    · simp at hi
    · simp at hi

end Frame

end Steps

inductive Call where
  | frame (points : List TouchPoint)
  | releaseAll

def Call.points : Call → List TouchPoint
  | .frame points => points
  | .releaseAll => []

def call (s : Slots) : Call → Slots × List Ev
  | .frame points => s.frame points
  | .releaseAll => ((s.frame []).1, s.releaseAll)

theorem call_eq (s : Slots) (c : Call) : s.call c = s.frame c.points := by
  cases c with
  | frame points => rfl
  | releaseAll => rfl

def play (cs : List Call) : Slots × List Ev :=
  cs.foldl (fun a c => ((a.1.call c).1, a.2 ++ (a.1.call c).2)) (default, [])

def state (cs : List Call) : Slots := (play cs).1

def events (cs : List Call) : List Ev := (play cs).2

def emitted (cs : List Call) (c : Call) : List Ev := ((state cs).call c).2

def reader (cs : List Call) : Reader := Reader.default.replay (events cs)

theorem state_append (cs : List Call) (c : Call) :
    state (cs ++ [c]) = ((state cs).frame c.points).1 := by
  simp [state, play, call_eq]

theorem events_append (cs : List Call) (c : Call) :
    events (cs ++ [c]) = events cs ++ emitted cs c := by
  simp [events, emitted, state, play]

theorem emitted_eq (cs : List Call) (c : Call) :
    emitted cs c = ((state cs).frame c.points).2 := by
  rw [emitted, call_eq]

theorem reader_append (cs : List Call) (c : Call) :
    reader (cs ++ [c]) = (reader cs).replay ((state cs).frame c.points).2 := by
  rw [reader, events_append, Reader.replay_append, emitted_eq]
  rfl

def touches (cs : List Call) : ℕ := (handedOut (events cs)).length

theorem touches_append (cs : List Call) (c : Call) :
    touches (cs ++ [c]) = touches cs + (handedOut ((state cs).frame c.points).2).length := by
  rw [touches, events_append, handedOut_append, List.length_append, emitted_eq]
  rfl

theorem shows_reader (cs : List Call) : ∃ given, Shows (reader cs) (state cs) given := by
  induction cs using List.reverseRecOn with
  | nil =>
    refine ⟨[], ?_, ?_⟩
    · intro i
      change (0 : ℤ) ≤ -1 ↔ (none : Option ℕ).isSome
      simp
    · intro i id p hi
      cases hi
  | append_singleton cs c ih =>
    obtain ⟨given, h⟩ := ih
    rw [reader_append, state_append]
    exact ⟨c.points, h.frame c.points⟩

theorem counted_state (cs : List Call) :
    Counted (state cs) (touches cs) ∧ handedOut (events cs) = ids (touches cs) := by
  induction cs using List.reverseRecOn with
  | nil => exact ⟨rfl, rfl⟩
  | append_singleton cs c ih =>
    obtain ⟨hcount, hids⟩ := ih
    obtain ⟨hcount', hids'⟩ := hcount.frame c.points
    rw [state_append, touches_append, events_append, handedOut_append, hids, emitted_eq]
    exact ⟨hcount', hids'⟩

theorem handedOut_nodup {cs : List Call} (h : touches cs < 2 ^ 31) :
    (handedOut (events cs)).Nodup := by
  rw [(counted_state cs).2]
  exact ids_nodup h

theorem distinct_reader {cs : List Call} (h : touches cs < 2 ^ 31) :
    Distinct (reader cs) (state cs) (handedOut (events cs)) := by
  induction cs using List.reverseRecOn with
  | nil =>
    constructor
    · intro i id hi
      cases hi
    · intro i j id id' hi
      cases hi
  | append_singleton cs c ih =>
    have hnodup := handedOut_nodup h
    have hbefore : touches cs < 2 ^ 31 := by
      have happend := touches_append cs c
      omega
    rw [events_append, handedOut_append, emitted_eq] at hnodup ⊢
    rw [reader_append, state_append]
    exact (ih hbefore).frame c.points hnodup

/-- What a reader makes of one more call after some others. -/
structure Speaks (cs : List Call) (c : Call) : Prop where
  /-- A slot has a contact exactly if it is held. -/
  contact : ∀ i, 0 ≤ ((reader (cs ++ [c])).contacts i).tracking ↔
    ((state (cs ++ [c])).held i).isSome
  /-- The contact is where the finger's last point put it. -/
  position : ∀ i id, (state (cs ++ [c])).held i = some id → ∃ p, lastOf id c.points = some p ∧
    ((reader (cs ++ [c])).contacts i).x = p.x ∧ ((reader (cs ++ [c])).contacts i).y = p.y
  /-- Up to ten fingers are held, each in one slot, and no others. -/
  held : (fingers c.points).card ≤ slots → ∀ id,
    ((∃ p ∈ c.points, p.id = id) → ∃! i, (state (cs ++ [c])).held i = some id) ∧
      ((∃ i, (state (cs ++ [c])).held i = some id) → ∃ p ∈ c.points, p.id = id)
  /-- A finger that stays keeps its slot and tracking id. -/
  kept : ∀ i id, (state cs).held i = some id → (∃ p ∈ c.points, p.id = id) →
    (state (cs ++ [c])).held i = some id ∧
      ((reader (cs ++ [c])).contacts i).tracking = ((reader cs).contacts i).tracking
  /-- A contact that is new in its slot has a tracking id that none before had, nor any other
  contact has. -/
  fresh : ∀ i id, (state (cs ++ [c])).held i = some id → (state cs).held i ≠ some id →
    ((reader (cs ++ [c])).contacts i).tracking ∉ handedOut (events cs) ∧
      ∀ j id', (state (cs ++ [c])).held j = some id' → i ≠ j →
        ((reader (cs ++ [c])).contacts i).tracking ≠ ((reader (cs ++ [c])).contacts j).tracking
  /-- No tracking id is handed out twice. -/
  once : (handedOut (events (cs ++ [c]))).Nodup
  report : ∃ body, emitted cs c = body ++ [.synReport] ∧ Ev.synReport ∉ body
  touch : (reader (cs ++ [c])).keys .buttonTouch =
    if ∃ i, ((state (cs ++ [c])).held i).isSome then 1 else 0
  /-- One tool key is down while a finger is. -/
  tool : (∃ i, ((state (cs ++ [c])).held i).isSome) → ∃ k ∈ toolKeys,
    (reader (cs ++ [c])).keys k = 1 ∧ ∀ k' ∈ toolKeys, k' ≠ k → (reader (cs ++ [c])).keys k' = 0
  noTool : ¬ (∃ i, ((state (cs ++ [c])).held i).isSome) →
    ∀ k ∈ toolKeys, (reader (cs ++ [c])).keys k = 0

end Slots

end Touchpad

open Touchpad Slots

/-- After each call of a run with fewer than `2 ^ 31` new touches, a reader of the events has
before it what the slots hold. -/
theorem slots_speak (cs : List Slots.Call) (c : Slots.Call) (few : touches (cs ++ [c]) < 2 ^ 31) :
    Speaks cs c := by
  obtain ⟨given, hshows⟩ := shows_reader cs
  have hshows' := hshows.frame c.points
  have htrailer : ∃ r : Reader, reader (cs ++ [c]) = r.replay ((state (cs ++ [c])).trailer c.points) := by
    rw [reader_append, state_append, frame_eq, Reader.replay_append]
    exact ⟨_, rfl⟩
  obtain ⟨r, hr⟩ := htrailer
  constructor
  case contact =>
    rw [reader_append, state_append]
    exact hshows'.contact
  case position =>
    intro i id hi
    rw [state_append] at hi
    obtain ⟨p, hp⟩ := exists_lastOf (mem_of_held_frame hi)
    rw [reader_append]
    exact ⟨p, hp, hshows'.position i id p hi hp⟩
  case held =>
    intro hfew id
    have hholds := holds_frame hfew (state cs) id
    rw [state_append]
    constructor
    · intro hp
      obtain ⟨i, hi⟩ := hholds.mpr hp
      refine ⟨i, hi, ?_⟩
      intro j hj
      exact ((state cs).frame c.points).1.alone j i id hj hi
    · exact hholds.mp
  case kept =>
    intro i id hi hp
    rw [reader_append, state_append]
    exact kept_frame (reader cs) hi hp
  case fresh =>
    intro i id hi hnew
    have hnodup := handedOut_nodup few
    rw [events_append, handedOut_append, emitted_eq] at hnodup
    have hdistinct := distinct_reader few
    constructor
    · rw [state_append] at hi
      have hhanded := fresh_frame (reader cs) hi hnew
      rw [reader_append]
      intro hused
      exact (List.nodup_append.mp hnodup).2.2 _ hused _ hhanded rfl
    · intro j id' hj hne
      exact hdistinct.own i j id id' hi hj hne
  case once => exact handedOut_nodup few
  case report =>
    rw [emitted_eq]
    exact report_frame _ _
  case touch =>
    rw [hr, (keys_trailer r _ _).1]
    simp only [down_pos]
  case tool =>
    rw [hr]
    exact (tool_trailer r _ _).1
  case noTool =>
    rw [hr]
    exact (tool_trailer r _ _).2

namespace Mock

def twoDown : Slots.Call := .frame [⟨7, 1, 2⟩, ⟨8, 3, 4⟩]

def oneForAnother : Slots.Call := .frame [⟨8, 3, 5⟩, ⟨9, 6, 6⟩]

end Mock

/-- The new finger takes the slot of the one that went up, with a tracking id of its own. -/
theorem one_for_another_speaks : Speaks [Mock.twoDown] Mock.oneForAnother ∧
    (state [Mock.twoDown, Mock.oneForAnother]).held ⟨0, by decide⟩ = some 9 := by
  have hfew : touches ([Mock.twoDown] ++ [Mock.oneForAnother]) = 3 := by decide
  have hspeaks := slots_speak [Mock.twoDown] Mock.oneForAnother (by omega)
  exact ⟨hspeaks, by decide⟩

end Acrylius
