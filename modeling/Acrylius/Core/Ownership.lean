import Acrylius.Core.Bidding
import Acrylius.Core.Admission

/-! Whose the pairing slot is: it is taken exactly while one dial, one handshake or one
confirmation is under way, as long as every step gives back what it ends. -/
namespace Acrylius
open Proto Std

variable {X : Crates} {P : Type}

/-- The ways this device can be busy pairing. -/
inductive Activity where
  | dial (d : DialToken)
  | link (l : LinkId)
  | waiting

namespace Pairs
variable {p : Pairs}

inductive Alive (p : Pairs) : Activity → Prop where
  | dial {d : DialToken} (h : d ∈ p.dials) : Alive p (.dial d)
  | link {l : LinkId} (h : (p.shaking l).isSome) : Alive p (.link l)
  | waiting {deadline a} (h : p.slot = some ⟨deadline, some a⟩) : Alive p .waiting

/-- The slot is taken exactly when one activity is alive, and never are two. -/
structure Owned (p : Pairs) : Prop where
  taken : p.slot.isSome ↔ ∃! a, p.Alive a
  one : ∀ {a b}, p.Alive a → p.Alive b → a = b

/-- The four ways to be in order. -/
inductive Stage (p : Pairs) : Prop where
  | free (slot : p.slot = none) (dials : ∀ d, d ∉ p.dials) (links : ∀ l, p.shaking l = none)
  | dialling {deadline d} (slot : p.slot = some ⟨deadline, none⟩)
      (dials : ∀ d', d' ∈ p.dials ↔ d' = d) (links : ∀ l, p.shaking l = none)
  | shaking {deadline l due} (slot : p.slot = some ⟨deadline, none⟩) (dials : ∀ d, d ∉ p.dials)
      (link : p.shaking l = some due) (links : ∀ l', l' ≠ l → p.shaking l' = none)
  | confirming {deadline a} (slot : p.slot = some ⟨deadline, some a⟩) (dials : ∀ d, d ∉ p.dials)
      (links : ∀ l, p.shaking l = none)

theorem not_owned_of_orphan {a : Activity} (hslot : p.slot = none) (h : p.Alive a) : ¬ p.Owned := by
  intro ho
  have htaken := ho.taken.mpr ⟨a, h, fun b hb => ho.one hb h⟩
  rw [hslot] at htaken
  cases htaken

theorem not_owned_of_idle {w : PairingWindow} (hslot : p.slot = some w) (h : ∀ a, ¬ p.Alive a) :
    ¬ p.Owned := by
  intro ho
  obtain ⟨a, ha, -⟩ := ho.taken.mp (by simp [hslot])
  exact h a ha

theorem Owned.stage (h : p.Owned) : p.Stage := by
  have unshaken : ∀ {l}, ¬ p.Alive (.link l) → p.shaking l = none := fun h =>
    Option.not_isSome_iff_eq_none.mp fun hl => h (.link hl)
  cases hslot : p.slot with
  | none =>
    have idle : ∀ a, ¬ p.Alive a := fun a ha => not_owned_of_orphan hslot ha h
    exact .free hslot (fun d hd => idle _ (.dial hd)) fun l => unshaken (idle _)
  | some w =>
    obtain ⟨deadline, awaiting⟩ := w
    obtain ⟨a, ha, -⟩ := h.taken.mp (by simp [hslot])
    have other : ∀ {b}, b ≠ a → ¬ p.Alive b := fun hne hb => hne (h.one hb ha)
    have unasked : a ≠ .waiting → p.slot = some ⟨deadline, none⟩ := by
      intro hne
      cases awaiting with
      | none => exact hslot
      | some x => exact (other hne.symm (.waiting hslot)).elim
    cases ha with
    | @dial d hd =>
      refine .dialling (unasked (by simp)) (d := d) (fun d' => ⟨fun hd' => ?_, ?_⟩)
        fun l => unshaken (other (by simp))
      · by_contra hne
        exact other (by simpa using hne) (.dial hd')
      · rintro rfl
        exact hd
    | @link l hl =>
      obtain ⟨due, hdue⟩ := Option.isSome_iff_exists.mp hl
      refine .shaking (unasked (by simp)) (fun d hd => other (by simp) (.dial hd)) hdue ?_
      intro l' hne
      exact unshaken (other (by simpa using hne))
    | @waiting deadline a hw =>
      exact .confirming hw (fun d hd => other (by simp) (.dial hd)) fun l => unshaken (other (by simp))

theorem Stage.owned (h : p.Stage) : p.Owned := by
  have of_only : ∀ {w : PairingWindow} {a : Activity}, p.slot = some w → p.Alive a →
      (∀ b, p.Alive b → b = a) → p.Owned := by
    intro w a hslot ha honly
    refine ⟨⟨fun _ => ⟨a, ha, honly⟩, fun _ => by simp [hslot]⟩, ?_⟩
    intro b c hb hc
    rw [honly b hb, honly c hc]
  cases h with
  | free slot dials links =>
    have idle : ∀ a, ¬ p.Alive a := by
      intro a ha
      cases ha with
      | dial hd => exact dials _ hd
      | link hl => simp [links] at hl
      | waiting hw => simp [slot] at hw
    refine ⟨⟨fun h => by simp [slot] at h, fun ⟨a, ha, _⟩ => (idle a ha).elim⟩, ?_⟩
    intro a b ha
    exact (idle a ha).elim
  | @dialling deadline d slot dials links =>
    refine of_only slot (.dial ((dials d).mpr rfl)) ?_
    intro b hb
    cases hb with
    | dial hd => rw [(dials _).mp hd]
    | link hl => simp [links] at hl
    | waiting hw => simp [slot] at hw
  | @shaking deadline l due slot dials link links =>
    refine of_only slot (.link (l := l) (by simp [link])) ?_
    intro b hb
    cases hb with
    | dial hd => exact (dials _ hd).elim
    | @link l' hl =>
      by_contra hne
      rw [links l' (by simpa using hne)] at hl
      cases hl
    | waiting hw => simp [slot] at hw
  | confirming slot dials links =>
    refine of_only slot (.waiting slot) ?_
    intro b hb
    cases hb with
    | dial hd => exact (dials _ hd).elim
    | link hl => simp [links] at hl
    | waiting => rfl

theorem Stage.congr {q : Pairs} (h : p.Stage) (hslot : q.slot = p.slot) (hdials : q.dials = p.dials)
    (hshaking : q.shaking = p.shaking) : q.Stage := by
  obtain ⟨slot, _, dials, shaking, _⟩ := q
  subst hslot hdials hshaking
  cases h with
  | free slot dials links => exact .free slot dials links
  | dialling slot dials links => exact .dialling slot dials links
  | shaking slot dials link links => exact .shaking slot dials link links
  | confirming slot dials links => exact .confirming slot dials links

end Pairs

/-- The step ends an activity and keeps the slot, or gives up the slot and keeps the activity: a
link in a pairing handshake fails or is replaced unseen, a dial is answered and no opener can be
made, or a tick finds the window or the handshake past its deadline, but not both. -/
def Bid.Disowns (p : Pairs) (nowMs : ℕ) : Bid → Prop
  | .closed l => (p.shaking l).isSome
  | .undialled _ _ => True
  | .replied b => b.Disowns p nowMs
  | .ticked => ∃ w, p.slot = some w ∧ (w.deadline ≤ nowMs ∧ (∃ d, d ∈ p.dials) ∨
      ∃ l due, p.shaking l = some due ∧ ¬ (w.deadline ≤ nowMs ↔ due ≤ nowMs))
  | _ => False

namespace Pairs
variable {p : Pairs} {config : CoreConfig} {nowMs : ℕ} {b : Bid}

theorem Stage.ticked (h : p.Stage) (hd : ¬ Bid.ticked.Disowns p nowMs) :
    (Bid.ticked.apply config nowMs p).Stage := by
  cases h with
  | free slot dials links =>
    have hlapse : Bid.lapse config nowMs p = p := by simp [Bid.lapse, slot]
    unfold Bid.apply
    rw [hlapse]
    exact .free slot dials fun l => by simp [links]
  | @dialling deadline d slot dials links =>
    have hearly : nowMs < deadline := by
      by_contra hlate
      exact hd ⟨_, slot, .inl ⟨Nat.le_of_not_lt hlate, d, (dials d).mpr rfl⟩⟩
    have hlapse : Bid.lapse config nowMs p = p := by simp [Bid.lapse, slot, hearly]
    unfold Bid.apply
    rw [hlapse]
    exact .dialling slot dials fun l => by simp [links]
  | @shaking deadline l due slot dials link links =>
    have htogether : deadline ≤ nowMs ↔ due ≤ nowMs := by
      by_contra hapart
      exact hd ⟨_, slot, .inr ⟨l, due, link, hapart⟩⟩
    by_cases hearly : nowMs < deadline
    · have hdue : nowMs < due := by omega
      have hlapse : Bid.lapse config nowMs p = p := by simp [Bid.lapse, slot, hearly]
      unfold Bid.apply
      rw [hlapse]
      have hkept : (p.shaking l).filter (nowMs < ·) = some due := by
        simp [link, Option.filter, hdue]
      refine .shaking slot dials hkept ?_
      intro l' hne
      simp [links l' hne]
    · have hdue : ¬ nowMs < due := by omega
      have hlapse : Bid.lapse config nowMs p =
          { p with slot := none, quiet := nowMs + config.pairCooldownMs } := by
        simp [Bid.lapse, slot, hearly]
      unfold Bid.apply
      rw [hlapse]
      refine .free rfl dials fun l' => ?_
      by_cases hl : l' = l
      · simp [hl, link, Option.filter, hdue]
      · simp [links l' hl]
  | @confirming deadline a slot dials links =>
    by_cases hearly : nowMs < deadline
    · have hlapse : Bid.lapse config nowMs p = p := by simp [Bid.lapse, slot, hearly]
      unfold Bid.apply
      rw [hlapse]
      exact .confirming slot dials fun l => by simp [links]
    · have hlapse : Bid.lapse config nowMs p = { p.drop a.link with
          slot := none, quiet := nowMs + config.pairCooldownMs } := by
        simp [Bid.lapse, slot, hearly]
      unfold Bid.apply
      rw [hlapse, drop_of_none (links a.link)]
      exact .free rfl dials fun l => by simp [links]

/-- While a link is in a pairing handshake, nothing else is going on. -/
theorem Stage.alone {l : LinkId} (h : p.Stage) (hl : (p.shaking l).isSome) :
    (∃ deadline, p.slot = some ⟨deadline, none⟩) ∧ (∀ d, d ∉ p.dials) ∧
      ∀ l', l' ≠ l → p.shaking l' = none := by
  cases h with
  | free slot dials links => simp [links] at hl
  | dialling slot dials links => simp [links] at hl
  | confirming slot dials links => simp [links] at hl
  | @shaking deadline l₀ due slot dials link links =>
    have hsame : l = l₀ := by
      by_contra hne
      simp [links l hne] at hl
    subst hsame
    exact ⟨⟨_, slot⟩, dials, links⟩

/-- With its handshake ended and the slot given back, nothing is left. -/
theorem Stage.shaken {l : LinkId} {q : Pairs} (h : p.Stage) (hl : (p.shaking l).isSome)
    (hslot : q.slot = none) (hdials : q.dials = p.dials) (hshaking : q.shaking = (p.drop l).shaking) :
    q.Stage := by
  obtain ⟨-, none_dialled, alone⟩ := h.alone hl
  refine .free hslot (by rwa [hdials]) fun l' => ?_
  rw [hshaking]
  by_cases hne : l' = l
  · rw [hne]
    exact drop_shaking_self p l
  · exact (Function.update_of_ne hne _ _).trans (alone l' hne)

/-- With the confirmation ended and the slot given back, nothing is left. -/
theorem Stage.confirmed {l : LinkId} {q : Pairs} (h : p.Stage)
    (hl : ∃ deadline a, p.slot = some ⟨deadline, some a⟩ ∧ a.link = l)
    (hslot : q.slot = none) (hdials : q.dials = p.dials) (hshaking : q.shaking = (p.drop l).shaking) :
    q.Stage := by
  obtain ⟨deadline, a, hwaiting, -⟩ := hl
  cases h with
  | free slot => cases slot.symm.trans hwaiting
  | dialling slot => cases slot.symm.trans hwaiting
  | shaking slot => cases slot.symm.trans hwaiting
  | confirming slot dials links =>
    rw [drop_of_none (links l)] at hshaking
    exact .free hslot (by rwa [hdials]) (by rwa [hshaking])

/-- Unless it disowns an activity, a step leaves the slot in order. -/
theorem Stage.apply (h : p.Stage) (hf : b.Fits p nowMs) (hd : ¬ b.Disowns p nowMs) :
    (b.apply config nowMs p).Stage := by
  induction b with
  | aside => exact h
  | closed l =>
    have hnone : p.shaking l = none := Option.not_isSome_iff_eq_none.mp hd
    unfold Bid.apply
    rw [drop_of_none hnone]
    exact h
  | replied b ih => exact (ih hf hd).congr rfl rfl rfl
  | ticked => exact h.ticked hd
  | undialled d l => exact (hd trivial).elim
  | unkeyed => exact hf.elim
  | claimed d via =>
    cases h with
    | free slot dials links =>
      refine .dialling rfl (d := d) (fun d' => ?_) links
      simp only [Bid.apply, Lib.mem_insert]
      constructor
      · rintro (h | h)
        · exact h
        · exact (dials d' h).elim
      · exact .inl
    | dialling slot => cases slot.symm.trans hf.1
    | shaking slot => cases slot.symm.trans hf.1
    | confirming slot => cases slot.symm.trans hf.1
  | dialled d l =>
    cases h with
    | @dialling deadline d' slot dials links =>
      obtain rfl := (dials d).mp hf
      refine .shaking slot (l := l) (fun d' hd' => ?_) (Function.update_self ..) ?_
      · obtain ⟨hne, hmem⟩ := Lib.mem_erase.mp hd'
        exact hne ((dials d').mp hmem)
      · intro l' hne
        exact (Function.update_of_ne hne _ _).trans (links l')
    | free slot dials => exact (dials d hf).elim
    | shaking slot dials => exact (dials d hf).elim
    | confirming slot dials => exact (dials d hf).elim
  | dialLost d =>
    cases h with
    | @dialling deadline d' slot dials links =>
      obtain rfl := (dials d).mp hf
      refine .free rfl (fun d' hd' => ?_) links
      obtain ⟨hne, hmem⟩ := Lib.mem_erase.mp hd'
      exact hne ((dials d').mp hmem)
    | free slot dials => exact (dials d hf).elim
    | shaking slot dials => exact (dials d hf).elim
    | confirming slot dials => exact (dials d hf).elim
  | answered l deadline =>
    cases h with
    | free slot dials links =>
      refine .shaking rfl dials (l := l) (Function.update_self ..) ?_
      intro l' hne
      exact (Function.update_of_ne hne _ _).trans (links l')
    | dialling slot => cases slot.symm.trans hf.1
    | shaking slot => cases slot.symm.trans hf.1
    | confirming slot => cases slot.symm.trans hf.1
  | garbled l =>
    unfold Bid.apply
    rw [drop_of_none hf.2.2]
    exact h.congr rfl rfl rfl
  | broken l => exact h.shaken hf rfl rfl rfl
  | hungUp l => exact h.shaken hf rfl rfl rfl
  | awaited l a =>
    obtain ⟨-, none_dialled, alone⟩ := h.alone hf.1
    refine .confirming rfl none_dialled fun l' => ?_
    by_cases hne : l' = l
    · rw [hne]
      exact drop_shaking_self p l
    · exact (Function.update_of_ne hne _ _).trans (alone l' hne)
  | denied l => exact h.confirmed hf rfl rfl rfl
  | confirmed l => exact h.confirmed hf rfl rfl rfl

theorem Owned.congr {q : Pairs} (h : p.Owned) (hslot : q.slot = p.slot) (hdials : q.dials = p.dials)
    (hshaking : q.shaking = p.shaking) : q.Owned :=
  (h.stage.congr hslot hdials hshaking).owned

/-- A tick that finds only one of the window and the handshake past its deadline, or a dial still
out when the window closes. -/
theorem Stage.not_ticked (h : p.Stage) (hd : Bid.ticked.Disowns p nowMs) :
    ¬ (Bid.ticked.apply config nowMs p).Owned := by
  obtain ⟨w, hslot, hd⟩ := hd
  cases h with
  | free slot => cases slot.symm.trans hslot
  | confirming slot dials links =>
    rcases hd with ⟨-, d, hd⟩ | ⟨l, due, hl, -⟩
    · exact (dials d hd).elim
    · cases (links l).symm.trans hl
  | @dialling deadline d slot dials links =>
    obtain rfl := Option.some.inj (slot.symm.trans hslot)
    rcases hd with ⟨hlate, -⟩ | ⟨l, due, hl, -⟩
    · have hlapse : Bid.lapse config nowMs p =
          { p with slot := none, quiet := nowMs + config.pairCooldownMs } := by
        simp [Bid.lapse, slot, Nat.not_lt.mpr hlate]
      unfold Bid.apply
      rw [hlapse]
      exact not_owned_of_orphan rfl (.dial ((dials d).mpr rfl))
    · cases (links l).symm.trans hl
  | @shaking deadline l due slot dials link links =>
    obtain rfl := Option.some.inj (slot.symm.trans hslot)
    rcases hd with ⟨-, d, hd⟩ | ⟨l', due', hl', hapart⟩
    · exact (dials d hd).elim
    · have hl : l' = l := by
        by_contra hne
        cases (links l' hne).symm.trans hl'
      subst hl
      obtain rfl := Option.some.inj (link.symm.trans hl')
      dsimp only at hapart
      by_cases hearly : nowMs < deadline
      · have hdue : ¬ nowMs < due := by omega
        have hlapse : Bid.lapse config nowMs p = p := by simp [Bid.lapse, slot, hearly]
        unfold Bid.apply
        rw [hlapse]
        refine not_owned_of_idle slot ?_
        intro a ha
        cases ha with
        | dial hd => exact dials _ hd
        | waiting hw => simp [slot] at hw
        | @link l₀ hl₀ =>
          by_cases hne : l₀ = l'
          · simp [hne, link, Option.filter, hdue] at hl₀
          · simp [links l₀ hne] at hl₀
      · have hdue : nowMs < due := by omega
        have hlapse : Bid.lapse config nowMs p =
            { p with slot := none, quiet := nowMs + config.pairCooldownMs } := by
          simp [Bid.lapse, slot, hearly]
        unfold Bid.apply
        rw [hlapse]
        exact not_owned_of_orphan rfl (.link (l := l') (by simp [link, Option.filter, hdue]))

theorem Stage.not_apply (h : p.Stage) (hf : b.Fits p nowMs) (hd : b.Disowns p nowMs) :
    ¬ (b.apply config nowMs p).Owned := by
  induction b with
  | closed l =>
    obtain ⟨⟨deadline, hslot⟩, none_dialled, alone⟩ := h.alone hd
    refine not_owned_of_idle (p := p.drop l) hslot ?_
    intro a ha
    cases ha with
    | dial hd => exact none_dialled _ hd
    | waiting hw => cases hslot.symm.trans hw
    | @link l' hl =>
      by_cases hne : l' = l
      · simp [hne] at hl
      · simp [drop, Function.update_of_ne hne, alone l' hne] at hl
  | undialled d l =>
    cases h with
    | free slot dials => exact (dials d hf).elim
    | shaking slot dials => exact (dials d hf).elim
    | confirming slot dials => exact (dials d hf).elim
    | @dialling deadline d' slot dials links =>
      obtain rfl := (dials d).mp hf
      refine not_owned_of_idle (p := Bid.apply config nowMs p (.undialled d l)) slot ?_
      intro a ha
      cases ha with
      | dial hd' =>
        obtain ⟨hne, hmem⟩ := Lib.mem_erase.mp hd'
        exact hne ((dials _).mp hmem)
      | waiting hw => cases slot.symm.trans hw
      | link hl =>
        simp only [Bid.apply, drop_of_none (links l), links] at hl
        cases hl
  | replied b ih => exact fun ho => ih hf hd (ho.congr rfl rfl rfl)
  | ticked => exact h.not_ticked hd
  | _ => exact hd.elim

/-- From a slot in order, a step leaves it in order exactly when it disowns nothing. -/
theorem owned_apply_iff (config : CoreConfig) (h : p.Owned) (hf : b.Fits p nowMs) :
    (b.apply config nowMs p).Owned ↔ ¬ b.Disowns p nowMs :=
  ⟨fun ho hd => h.stage.not_apply hf hd ho, fun hd => (h.stage.apply hf hd).owned⟩

end Pairs

namespace Core
variable [Plugin P]

/-- The input makes the slot and what is going on part. -/
def Disowns (c : Core X P) (i : Input X) : Prop := (c.bid i).Disowns c.pairs i.now.monotonicMs

omit [Plugin P] in
theorem PairingOrigin.keyed {c : Core X P} (h : c.PairingOrigin) : c.Keyed := by
  intro deadline a hw
  obtain ⟨hs, hash, pk, ha⟩ := h.waiting deadline a hw
  rw [ha.id_eq]
  rfl

theorem build_owned (b : CoreBuilder X P) : b.build.pairs.Owned := by
  refine Pairs.Stage.owned (.free rfl (fun d hd => ?_) fun l => ?_)
  · simp [pairs, Exec.pairs, CoreBuilder.build] at hd
  · simp [pairs, Exec.pairs, CoreBuilder.build]

theorem step_owned_iff {c : Core X P} (hkeyed : c.Keyed) (h : c.pairs.Owned) (i : Input X) :
    (c.step i).pairs.Owned ↔ ¬ c.Disowns i := by
  have hiff := Pairs.owned_apply_iff c.config h (bid_fits hkeyed i)
  rw [step_pairs]
  exact ⟨fun ho => hiff.mp (ho.congr rfl rfl rfl), fun hd => (hiff.mpr hd).congr rfl rfl rfl⟩

/-- Over every run, the pairing slot is taken exactly while one activity is alive, in every state,
exactly when no step ends an activity without giving the slot back or gives the slot back without
ending it. -/
theorem pairing_slot_owned_iff (b : CoreBuilder X P) (is : List (Input X)) :
    (∀ js, js <+: is → (b.build.run js).pairs.Owned) ↔
      Lib.Along step (fun c i => ¬ c.Disowns i) b.build is :=
  Lib.along_iff_states (I := fun c => c.pairs.Owned) (J := PairingOrigin) (fun _ i h => h.step i)
    (fun _ i hj hs => step_owned_iff hj.keyed hs i) b.pairingOrigin (build_owned b) is

/-- A dial to pair that nobody answers outlives its window. -/
theorem unanswered_dial_is_orphaned : ¬ ((Mock.fresh (P := Unit) 1 []).build.run
    [Mock.at_ 0 0 (.localCommand (.requestPairing 0 "192.168.1.2:4000")),
      Mock.at_ 600000 0 .tick]).pairs.Owned := by
  refine Pairs.not_owned_of_orphan (by decide +kernel) (.dial (d := 1) (by decide +kernel))

end Core
end Acrylius
