import Acrylius.Core.Ownership

/-! How long a denied device stays quiet. -/
namespace Acrylius
open Proto Std

variable {X : Crates} {P : Type}

/-- The step speaks or shortens the quiet time although it should not: a dial made to pair is
answered, or a handshake message is, before `hush`, or a handshake that fails sets a quiet time
that ends sooner than the one already set. -/
def Bid.hasty (config : CoreConfig) (p : Pairs) (hush nowMs : ℕ) : Bid → Bool
  | .dialled _ _ => nowMs < hush
  | .broken _ => nowMs + config.pairCooldownMs < p.quiet
  | .replied b => nowMs < hush || b.hasty config p hush nowMs
  | _ => false

namespace Pairs
variable {p : Pairs} {config : CoreConfig} {hush last nowMs : ℕ} {b : Bid}

/-- The quiet time covers every denial, and a pairing began after it. -/
structure Calm (p : Pairs) (hush last : ℕ) : Prop where
  covered : hush ≤ p.quiet
  begun : p.slot.isSome → p.quiet ≤ last

/-- The quiet time does not end sooner than before, and nothing is said before `hush`. -/
def Patient (p q : Pairs) (hush nowMs : ℕ) : Prop :=
  p.quiet ≤ q.quiet ∧ (nowMs < hush → q.spoke = p.spoke)

theorem lapse_quiet (h : p.slot.isSome → p.quiet ≤ nowMs) :
    p.quiet ≤ (Bid.lapse config nowMs p).quiet := by
  unfold Bid.lapse
  rcases hslot : p.slot with _ | ⟨deadline, awaiting⟩
  · exact le_rfl
  · have hle := h (by simp [hslot])
    dsimp only
    split
    · exact le_rfl
    · dsimp only
      omega

theorem lapse_spoke : (Bid.lapse config nowMs p).spoke = p.spoke := by
  unfold Bid.lapse
  rcases p.slot with _ | ⟨deadline, _ | a⟩
  · rfl
  · dsimp only
    split <;> rfl
  · dsimp only
    split <;> rfl

/-- A step is patient exactly when it is not hasty. -/
theorem Calm.patient_iff (h : p.Calm hush last) (htime : last ≤ nowMs) (hspoke : p.spoke = false)
    (hf : b.Fits p nowMs) :
    p.Patient (b.apply config nowMs p) hush nowMs ↔ ¬ b.hasty config p hush nowMs := by
  obtain ⟨hcovered, hbegun⟩ := h
  have same : p.Patient p hush nowMs := ⟨le_rfl, fun _ => rfl⟩
  have taken : ∀ {deadline a}, p.slot = some ⟨deadline, a⟩ → p.quiet ≤ nowMs := by
    intro deadline a hslot
    exact (hbegun (by simp [hslot])).trans htime
  induction b with
  | aside => simpa [Bid.hasty, Bid.apply] using same
  | closed l => simp [Bid.hasty, Bid.apply, Patient, drop]
  | claimed d via => simp [Bid.hasty, Bid.apply, Patient]
  | undialled d l => simp [Bid.hasty, Bid.apply, Patient, drop]
  | dialLost d => simp [Bid.hasty, Bid.apply, Patient]
  | awaited l a => simp [Bid.hasty, Bid.apply, Patient, drop]
  | hungUp l => simp [Bid.hasty, Bid.apply, Patient, drop]
  | confirmed l => simp [Bid.hasty, Bid.apply, Patient, drop]
  | unkeyed => exact hf.elim
  | dialled d l => simp [Bid.hasty, Bid.apply, Patient, shake, hspoke]
  | answered l deadline =>
    have hquiet : p.quiet ≤ nowMs := hf.2.1
    simp [Bid.hasty, Bid.apply, Patient, shake, hspoke]
    omega
  | garbled l =>
    have hquiet : p.quiet ≤ nowMs := hf.2.1
    simp [Bid.hasty, Bid.apply, Patient, drop]
    omega
  | broken l => simp [Bid.hasty, Bid.apply, Patient, drop]
  | denied l =>
    obtain ⟨deadline, a, hslot, -⟩ := hf
    have hquiet := taken hslot
    simp [Bid.hasty, Bid.apply, Patient, drop]
    omega
  | ticked =>
    have hquiet : p.quiet ≤ (Bid.lapse config nowMs p).quiet :=
      lapse_quiet fun h => (hbegun h).trans htime
    simpa [Bid.hasty, Bid.apply, Patient, lapse_spoke] using hquiet
  | replied b ih =>
    have hih := ih hf
    by_cases hnow : nowMs < hush
    · simp [Bid.hasty, Bid.apply, Patient, hspoke, hnow]
    · simpa [Bid.hasty, Bid.apply, Patient, hnow] using hih

/-- A patient step leaves the quiet time covering what it covered, and any pairing in progress
began after it. -/
theorem Calm.apply (h : p.Calm hush last) (htime : last ≤ nowMs) (hf : b.Fits p nowMs)
    (hb : p.Patient (b.apply config nowMs p) hush nowMs) :
    (b.apply config nowMs p).Calm hush nowMs := by
  obtain ⟨hcovered, hbegun⟩ := h
  have hquiet : p.slot.isSome → p.quiet ≤ nowMs := fun h => (hbegun h).trans htime
  refine ⟨hcovered.trans hb.1, ?_⟩
  clear hb
  induction b with
  | aside => exact hquiet
  | closed l => exact hquiet
  | dialled d l => exact hquiet
  | undialled d l => exact hquiet
  | claimed d via => exact fun _ => hf.2
  | answered l deadline => exact fun _ => hf.2.1
  | awaited l a =>
    obtain ⟨-, deadline, hslot⟩ := hf
    exact fun _ => hquiet (by simp [hslot])
  | replied b ih => exact ih hf
  | garbled l =>
    intro hslot
    have hfree : p.slot = none := hf.1
    simp [Bid.apply, drop, hfree] at hslot
  | unkeyed => exact hf.elim
  | ticked =>
    intro hslot
    have hkept : (Bid.lapse config nowMs p).slot.isSome → Bid.lapse config nowMs p = p := by
      unfold Bid.lapse
      rcases p.slot with _ | ⟨deadline, _ | a⟩
      · exact fun _ => rfl
      · dsimp only
        split
        · exact fun _ => rfl
        · exact fun h => by cases h
      · dsimp only
        split
        · exact fun _ => rfl
        · exact fun h => by cases h
    have hsame := hkept hslot
    simp only [Bid.apply, hsame] at hslot ⊢
    exact hquiet hslot
  | dialLost d | broken l | hungUp l | denied l | confirmed l =>
    intro hslot
    cases hslot

end Pairs

/-- A core, the time of its last step, and the moment until which a denial asks it to be quiet. -/
structure Hushed (X : Crates) (P : Type) where
  core : Core X P
  last : ℕ
  hush : ℕ

/-- A person says that the digits on the screen do not match. -/
def Core.denies (c : Core X P) (i : Core.Input X) : Bool :=
  match i.event, c.pairing with
  | .localCommand (.confirmPairing false), some ⟨_, some _⟩ => true
  | _, _ => false

namespace Hushed
variable [Plugin P]

def step (m : Hushed X P) (i : Core.Input X) : Hushed X P where
  core := m.core.step i
  last := i.now.monotonicMs
  hush := if m.core.denies i then max m.hush (i.now.monotonicMs + m.core.config.pairDeniedCooldownMs)
    else m.hush

def start (b : CoreBuilder X P) : Hushed X P := ⟨b.build, 0, 0⟩

/-- The quiet time is not shortened, and before it is over no pairing message goes out. -/
def Quietly (m : Hushed X P) (i : Core.Input X) : Prop :=
  m.core.pairQuietUntil ≤ (m.core.handle i).1.pairQuietUntil ∧
    (i.now.monotonicMs < m.hush → ∀ a ∈ (m.core.handle i).2.actions, a.isPairFrame = false)

instance (m : Hushed X P) (i : Core.Input X) : Decidable (m.Quietly i) :=
  inferInstanceAs (Decidable (_ ∧ _))

/-- The input has the device speak or forget before it should. -/
def hasty (m : Hushed X P) (i : Core.Input X) : Bool :=
  (m.core.bid i).hasty m.core.config m.core.pairs m.hush i.now.monotonicMs

theorem quietly_iff_patient (m : Hushed X P) (i : Core.Input X) : m.Quietly i ↔
    m.core.pairs.Patient ((m.core.bid i).apply m.core.config i.now.monotonicMs m.core.pairs) m.hush
      i.now.monotonicMs := by
  rw [← Core.exec_pairs]
  unfold Quietly Pairs.Patient
  have hspoke : ((m.core.exec i).pairs.spoke = m.core.pairs.spoke) ↔
      ∀ a ∈ (m.core.handle i).2.actions, a.isPairFrame = false := by
    change (m.core.exec i).actions.any Action.isPairFrame = false ↔ _
    simp only [List.any_eq_false, Bool.not_eq_true]
    exact .rfl
  rw [hspoke]
  exact .rfl

omit [Plugin P] in
theorem bid_of_denies {c : Core X P} {i : Core.Input X} (h : c.denies i) :
    ∃ l, c.bid i = .denied l := by
  unfold Core.denies at h
  split at h
  · rename_i deadline a hevent hslot
    refine ⟨a.link, ?_⟩
    have hstart : (c.start i).core.pairing = some ⟨deadline, some a⟩ := hslot
    unfold Core.bid Exec.bid
    rw [hevent]
    dsimp only
    rw [hstart]
    rfl
  · cases h

/-- What holds between the steps of a run in which nothing was hasty. -/
structure Composed (m : Hushed X P) : Prop where
  origin : m.core.PairingOrigin
  calm : m.core.pairs.Calm m.hush m.last

theorem start_composed (b : CoreBuilder X P) : (start b).Composed where
  origin := b.pairingOrigin
  calm := ⟨Nat.zero_le _, fun h => by cases h⟩

section Step
variable {m : Hushed X P} {i : Core.Input X}

theorem Composed.quietly_iff (h : m.Composed) (htime : m.last ≤ i.now.monotonicMs) :
    m.Quietly i ↔ ¬ m.hasty i := by
  rw [quietly_iff_patient]
  exact h.calm.patient_iff htime rfl (Core.bid_fits h.origin.keyed i)

theorem Composed.step (h : m.Composed) (htime : m.last ≤ i.now.monotonicMs) (hi : ¬ m.hasty i) :
    (m.step i).Composed := by
  have hpatient := (quietly_iff_patient m i).mp ((h.quietly_iff htime).mpr hi)
  have hcalm := h.calm.apply htime (Core.bid_fits h.origin.keyed i) hpatient
  refine ⟨h.origin.step i, ?_⟩
  rw [show (m.step i).core = m.core.step i from rfl, Core.step_pairs]
  refine ⟨?_, hcalm.begun⟩
  unfold Hushed.step
  dsimp only
  split
  · rename_i hdenies
    obtain ⟨l, hbid⟩ := bid_of_denies hdenies
    have hcovered := hcalm.covered
    rw [hbid] at hcovered ⊢
    simp only [Bid.apply] at hcovered ⊢
    omega
  · exact hcalm.covered

end Step

/-- Over every run whose clock does not run backwards: the quiet time never ends sooner than it
did, and nothing is said of pairing until a denial has cooled down, exactly when no step is
hasty. -/
theorem quiet_after_denial_iff (b : CoreBuilder X P) {is : List (Core.Input X)}
    (htime : Lib.Along step (fun m i => m.last ≤ i.now.monotonicMs) (start b) is) :
    Lib.Along step Quietly (start b) is ↔ Lib.Along step (fun m i => ¬ m.hasty i) (start b) is :=
  htime.iff_of_inv (I := Composed) (fun _ _ hm ht => hm.quietly_iff ht)
    (fun _ _ hm ht hi => hm.step ht hi) (start_composed b)

/-- The laptop dials to pair, waits out the window, is then dialled by a phone, and its person
denies the digits. -/
def denied : List (Core.Input Mock.crates) :=
  [Mock.at_ 0 0 (.localCommand (.requestPairing 1 "10.0.0.9:7")), Mock.at_ 120000 0 .tick,
    Mock.at_ 200000 0 (.linkUp 1 (.tcpLan 1) none)] ++
  (Mock.pairFrames 5).map (fun m => Mock.at_ 200000 0 (.linkRecv 1 m)) ++
  [Mock.at_ 200001 0 (.localCommand (.confirmPairing false))]

/-- The old dial is answered once the denial has cooled down. -/
theorem old_dial_answered_late :
    Lib.Along step Quietly (start (Mock.fresh (P := Unit) 1 []))
      (denied ++ [Mock.at_ 500001 0 (.linkUp 2 (.tcpLan 1) (some 1))]) := by
  refine (quiet_after_denial_iff _ ?_).mpr ?_
  · decide +kernel
  · decide +kernel

/-- The old dial is answered a second after the denial, and the device opens a handshake. -/
theorem old_dial_answered_early :
    ¬ Lib.Along step Quietly (start (Mock.fresh (P := Unit) 1 []))
      (denied ++ [Mock.at_ 201001 0 (.linkUp 2 (.tcpLan 1) (some 1))]) := by
  decide +kernel

end Hushed
end Acrylius
