import Acrylius.Core.Vocab
import Mathlib.Data.List.Chain

/-! The pacing of a touchpad over USB (`acrylius-linux`, `usb.rs`): samples that arrive in one batch
are played at the spacing they were taken at. ℕs are nanoseconds. -/
namespace Acrylius

namespace Usb

/-- Covers one batch of samples. -/
def playout : ℕ := 10_000_000

/-- The quickest sample seen so far: when it arrived, and when it was taken in microseconds. -/
structure Pacer where
  anchor : Option (ℕ × UInt32)
deriving DecidableEq

namespace Pacer

def default : Pacer := ⟨none⟩

/-- When the anchor says that a sample arrives. The sample clock wraps. -/
def predicted (p : Pacer) (tUs : UInt32) : Option ℕ :=
  p.anchor.map fun a => a.1 + (tUs - a.2).toNat * 1000

/-- The sample was quicker than the anchor, or there is none. -/
def reanchors (p : Pacer) (tUs : UInt32) (arrived : ℕ) : Bool :=
  (p.predicted tUs).all fun q => arrived < q

def due (p : Pacer) (tUs : UInt32) (arrived : ℕ) : Pacer × ℕ :=
  match (p.predicted tUs).filter (· ≤ arrived) with
  | some q => (p, max (q + playout) arrived)
  | none => (⟨some (arrived, tUs)⟩, max (arrived + playout) arrived)

variable {p : Pacer} {tUs : UInt32} {arrived : ℕ}

theorem due_of_reanchors (h : p.reanchors tUs arrived) :
    p.due tUs arrived = (⟨some (arrived, tUs)⟩, arrived + playout) := by
  have hnone : (p.predicted tUs).filter (· ≤ arrived) = none := by
    cases hq : p.predicted tUs with
    | none => simp
    | some q => simpa [reanchors, hq] using h
  have hmax : max (arrived + playout) arrived = arrived + playout := by omega
  simp only [due, hnone, hmax]

theorem due_of_predicted {q : ℕ} (hq : p.predicted tUs = some q) (hle : q ≤ arrived) :
    p.due tUs arrived = (p, max (q + playout) arrived) := by
  have hsome : (p.predicted tUs).filter (· ≤ arrived) = some q := by simp [hq, hle]
  simp only [due, hsome]

theorem predicted_of_not_reanchors (h : p.reanchors tUs arrived = false) :
    ∃ q, p.predicted tUs = some q ∧ q ≤ arrived := by
  cases hq : p.predicted tUs with
  | none => simp [reanchors, hq] at h
  | some q =>
    have hle : q ≤ arrived := by simpa [reanchors, hq] using h
    exact ⟨q, rfl, hle⟩

/-- A sample is played no sooner than it arrived and at most the playout time after. -/
theorem due_bounds (p : Pacer) (tUs : UInt32) (arrived : ℕ) :
    arrived ≤ (p.due tUs arrived).2 ∧ (p.due tUs arrived).2 ≤ arrived + playout := by
  cases h : p.reanchors tUs arrived with
  | true =>
    rw [due_of_reanchors h]
    constructor <;> dsimp only <;> omega
  | false =>
    obtain ⟨q, hq, hle⟩ := predicted_of_not_reanchors h
    rw [due_of_predicted hq hle]
    constructor <;> dsimp only <;> omega

end Pacer

/-- A sample by the phone's clock before it wraps, and when it arrived. -/
structure Sample where
  time : ℕ
  arrived : ℕ
deriving DecidableEq

namespace Sample

def tUs (x : Sample) : UInt32 := UInt32.ofNat x.time

/-- While the clock has not gone round, what it carries tells how much later a sample is. -/
theorem tUs_sub {s x : Sample} (hle : s.time ≤ x.time) (hspan : x.time < s.time + 2 ^ 32) :
    (x.tUs - s.tUs).toNat = x.time - s.time := by
  have hx : x.tUs.toNat = x.time % 2 ^ 32 := UInt32.toNat_ofNat
  have hs : s.tUs.toNat = s.time % 2 ^ 32 := UInt32.toNat_ofNat
  rw [UInt32.toNat_sub, hx, hs]
  omega

def after (s x : Sample) : ℕ := s.arrived + (x.time - s.time) * 1000

end Sample

def pacerAt (a : Option Sample) : Pacer := ⟨a.map fun s => (s.arrived, s.tUs)⟩

def next (a : Option Sample) (x : Sample) : Option Sample :=
  if (pacerAt a).reanchors x.tUs x.arrived then some x else a

theorem due_pacerAt (a : Option Sample) (x : Sample) :
    ((pacerAt a).due x.tUs x.arrived).1 = pacerAt (next a x) := by
  unfold next
  cases h : (pacerAt a).reanchors x.tUs x.arrived with
  | true =>
    rw [Pacer.due_of_reanchors h]
    rfl
  | false =>
    obtain ⟨q, hq, hle⟩ := Pacer.predicted_of_not_reanchors h
    rw [Pacer.due_of_predicted hq hle]
    rfl

def replay (xs : List Sample) : Pacer := xs.foldl (fun p x => (p.due x.tUs x.arrived).1) .default

def anchor (xs : List Sample) : Option Sample := xs.foldl next none

theorem replay_eq (xs : List Sample) : replay xs = pacerAt (anchor xs) := by
  have hnone : Pacer.default = pacerAt none := rfl
  rw [replay, anchor, hnone]
  apply List.foldl_hom
  intro a x
  exact due_pacerAt a x

def dueAfter (xs : List Sample) (x : Sample) : ℕ := ((replay xs).due x.tUs x.arrived).2

def dues (xs : List Sample) : List Sample → List ℕ
  | [] => []
  | x :: rest => dueAfter xs x :: dues (xs ++ [x]) rest

theorem anchor_append (xs : List Sample) (x : Sample) : anchor (xs ++ [x]) = next (anchor xs) x := by
  simp [anchor]

/-- Two samples in a row come and were taken in this order, and since the anchor in between the
clock has not gone round. -/
structure InOrder (xs : List Sample) (x y : Sample) : Prop where
  arrived : x.arrived ≤ y.arrived
  taken : x.time ≤ y.time
  since : ∀ s, anchor (xs ++ [x]) = some s → s.time ≤ x.time ∧ y.time < s.time + 2 ^ 32

theorem predicted_pacerAt {s x : Sample} (hle : s.time ≤ x.time)
    (hspan : x.time < s.time + 2 ^ 32) : (pacerAt (some s)).predicted x.tUs = some (s.after x) := by
  have hsub := Sample.tUs_sub hle hspan
  simp [pacerAt, Pacer.predicted, Sample.after, hsub]

/-- A sample is played the playout time after the anchor says that it arrives, whether or not it
is that anchor itself. -/
theorem dueAfter_eq {xs : List Sample} {s x : Sample} (hs : anchor (xs ++ [x]) = some s)
    (hle : s.time ≤ x.time) (hspan : x.time < s.time + 2 ^ 32) :
    dueAfter xs x = max (s.after x + playout) x.arrived := by
  rw [anchor_append] at hs
  unfold next at hs
  unfold dueAfter
  rw [replay_eq]
  cases h : (pacerAt (anchor xs)).reanchors x.tUs x.arrived with
  | true =>
    have hself : x = s := by simpa [h] using hs
    subst hself
    rw [Pacer.due_of_reanchors h]
    simp only [Sample.after]
    omega
  | false =>
    have hsame : anchor xs = some s := by simpa [h] using hs
    obtain ⟨q, hq, hqle⟩ := Pacer.predicted_of_not_reanchors h
    have hafter : s.after x = q := by
      rw [hsame, predicted_pacerAt hle hspan] at hq
      exact Option.some.inj hq
    rw [Pacer.due_of_predicted hq hqle, hafter]

theorem exists_anchor (xs : List Sample) (x : Sample) : ∃ s, anchor (xs ++ [x]) = some s := by
  rw [anchor_append]
  unfold next
  cases ha : anchor xs with
  | none => exact ⟨x, by simp [pacerAt, Pacer.reanchors, Pacer.predicted]⟩
  | some s =>
    split
    · exact ⟨x, rfl⟩
    · exact ⟨s, rfl⟩

theorem dueAfter_le {xs : List Sample} {x y : Sample} (h : InOrder xs x y) :
    dueAfter xs x ≤ dueAfter (xs ++ [x]) y := by
  obtain ⟨s, hs⟩ := exists_anchor xs x
  obtain ⟨hle, hspan⟩ := h.since s hs
  have htaken := h.taken
  have harrived := h.arrived
  cases hy : (replay (xs ++ [x])).reanchors y.tUs y.arrived with
  | true =>
    -- The quicker sample is played the whole playout time after its arrival.
    have hx : dueAfter xs x ≤ x.arrived + playout := (Pacer.due_bounds _ _ _).2
    have hdue : dueAfter (xs ++ [x]) y = y.arrived + playout := by
      simp only [dueAfter, Pacer.due_of_reanchors hy]
    omega
  | false =>
    have hkept : anchor (xs ++ [x] ++ [y]) = some s := by
      rw [replay_eq] at hy
      rw [anchor_append, next, hy, hs]
      rfl
    have hx := dueAfter_eq hs hle (by omega)
    have hy := dueAfter_eq hkept (by omega) hspan
    have hafter : s.after x ≤ s.after y := by
      simp only [Sample.after]
      omega
    omega

/-- The sample comes neither before the anchor says nor later than it is to be played. -/
def Punctual (p : Pacer) (x : Sample) : Prop :=
  ∃ q, p.predicted x.tUs = some q ∧ q ≤ x.arrived ∧ x.arrived ≤ q + playout

theorem anchor_of_punctual {xs : List Sample} {x : Sample} (h : Punctual (replay xs) x) :
    anchor (xs ++ [x]) = anchor xs := by
  obtain ⟨q, hq, hle, -⟩ := h
  rw [replay_eq] at hq
  rw [anchor_append, next]
  simp [Pacer.reanchors, hq, hle]

theorem dueAfter_of_punctual {xs : List Sample} {s x : Sample} (h : Punctual (replay xs) x)
    (hs : anchor (xs ++ [x]) = some s) (hle : s.time ≤ x.time)
    (hspan : x.time < s.time + 2 ^ 32) : dueAfter xs x = s.after x + playout := by
  have hdue := dueAfter_eq hs hle hspan
  have hsame := anchor_of_punctual h
  obtain ⟨q, hq, -, hsoon⟩ := h
  have hafter : s.after x = q := by
    rw [replay_eq, ← hsame, hs, predicted_pacerAt hle hspan] at hq
    exact Option.some.inj hq
  omega

theorem dueAfter_spaced {xs : List Sample} {x y : Sample} (h : InOrder xs x y)
    (hx : Punctual (replay xs) x) (hy : Punctual (replay (xs ++ [x])) y) :
    dueAfter (xs ++ [x]) y = dueAfter xs x + (y.time - x.time) * 1000 := by
  obtain ⟨s, hs⟩ := exists_anchor xs x
  obtain ⟨hle, hspan⟩ := h.since s hs
  have htaken := h.taken
  have hkept : anchor (xs ++ [x] ++ [y]) = some s := by rw [anchor_of_punctual hy, hs]
  have hduex := dueAfter_of_punctual hx hs hle (by omega)
  have hduey := dueAfter_of_punctual hy hkept (by omega) hspan
  simp only [Sample.after] at hduex hduey
  omega

/-- From one sample to the next, and so over a whole stretch. -/
theorem dues_sorted {xs ys : List Sample}
    (h : ∀ l x y r, ys = l ++ x :: y :: r → InOrder (xs ++ l) x y) :
    (dues xs ys).Pairwise (· ≤ ·) := by
  rw [← List.isChain_iff_pairwise]
  induction ys generalizing xs with
  | nil => exact List.IsChain.nil
  | cons x ys ih =>
    have hrest : (dues (xs ++ [x]) ys).IsChain (· ≤ ·) := by
      apply ih
      intro l y z r hys
      have hlater := h (x :: l) y z r (by rw [hys, List.cons_append])
      simpa using hlater
    cases ys with
    | nil => exact List.IsChain.singleton _
    | cons y ys =>
      have hxy : InOrder xs x y := by simpa using h [] x y ys rfl
      exact List.IsChain.cons_cons (dueAfter_le hxy) hrest

inductive Msg where
  | begin (w h : ℕ)
  | frame (points : List TouchPoint) (tUs : Option UInt32)
  | end

structure Hearing where
  pacer : Pacer
  queuedDown : Bool

namespace Hearing

def default : Hearing := ⟨.default, false⟩

/-- A message is queued for when it is due. A new gesture re-anchors. -/
def hear (s : Hearing) (arrived : ℕ) : Msg → Hearing × ℕ
  | .frame points tUs =>
    let pacer := if s.queuedDown then s.pacer else .default
    let queuedDown := !points.isEmpty
    match tUs with
    | none => (⟨pacer, queuedDown⟩, arrived)
    | some t => (⟨(pacer.due t arrived).1, queuedDown⟩, (pacer.due t arrived).2)
  | .begin _ _ => (s, arrived)
  | .end => ({ s with queuedDown := false }, arrived)

theorem hear_bounds (s : Hearing) (arrived : ℕ) (msg : Msg) :
    arrived ≤ (s.hear arrived msg).2 ∧ (s.hear arrived msg).2 ≤ arrived + playout := by
  cases msg with
  | frame points tUs =>
    cases tUs with
    | none => simp [hear]
    | some t => exact Pacer.due_bounds _ t arrived
  | begin w h => simp [hear]
  | «end» => simp [hear]

end Hearing

end Usb

open Usb

/-- Whatever clock a sample carries, it is played between its arrival and the playout time after
that. Samples that come in the order they were taken in, with a clock that has not gone round since
the anchor, are played in this order, over any stretch of a run; two in a row that keep the anchor
and come in time are played at the spacing they were taken at. -/
theorem pacer_bounded_and_ordered :
    (∀ (p : Pacer) (tUs : UInt32) (arrived : ℕ),
      arrived ≤ (p.due tUs arrived).2 ∧ (p.due tUs arrived).2 ≤ arrived + playout) ∧
    (∀ (xs ys : List Sample), (∀ l x y r, ys = l ++ x :: y :: r → InOrder (xs ++ l) x y) →
      (dues xs ys).Pairwise (· ≤ ·)) ∧
    ∀ (xs : List Sample) (x y : Sample), InOrder xs x y → Punctual (replay xs) x →
      Punctual (replay (xs ++ [x])) y →
      dueAfter (xs ++ [x]) y = dueAfter xs x + (y.time - x.time) * 1000 := by
  refine ⟨Pacer.due_bounds, ?_, ?_⟩
  · intro xs ys h
    exact dues_sorted h
  · intro xs x y h hx hy
    exact dueAfter_spaced h hx hy

namespace Mock

def firstSample : Sample := ⟨2 ^ 32 - 2000, 100⟩

def secondSample : Sample := ⟨2 ^ 32 - 1000, 2_000_000⟩

def thirdSample : Sample := ⟨2 ^ 32 + 500, 3_000_000⟩

theorem samples_in_order : InOrder [firstSample] secondSample thirdSample where
  arrived := by decide
  taken := by decide
  since s hs := by
    have hfirst : anchor ([firstSample] ++ [secondSample]) = some firstSample := by decide
    rw [hfirst] at hs
    have hself := Option.some.inj hs
    subst hself
    decide

end Mock

/-- A sample taken before the clock wraps and one taken after are played as far apart as they were
taken. -/
theorem wrapping_samples_spaced :
    dueAfter [Mock.firstSample, Mock.secondSample] Mock.thirdSample =
      dueAfter [Mock.firstSample] Mock.secondSample + 1_500_000 := by
  have hsecond : Punctual (replay [Mock.firstSample]) Mock.secondSample :=
    ⟨1_000_100, by decide, by decide, by decide⟩
  have hthird : Punctual (replay ([Mock.firstSample] ++ [Mock.secondSample])) Mock.thirdSample :=
    ⟨2_500_100, by decide, by decide, by decide⟩
  have hspaced := pacer_bounded_and_ordered.2.2 _ _ _ Mock.samples_in_order hsecond hthird
  have hapart : Mock.thirdSample.time - Mock.secondSample.time = 1500 := by decide
  rw [hapart] at hspaced
  exact hspaced

end Acrylius
