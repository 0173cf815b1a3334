import Acrylius.Plugins.Moves

/-! One peer's messages against another peer's transfers. All peers share two tables keyed by bare
numbers; what keeps them apart are the checks against the peer and the split number range. -/
namespace Acrylius
open Proto Std Share

variable {X : Crates} {P : Type}

section Minted

theorem mintedHere_or {k : ℕ} (hk : k < mintedHere) : mintedHere ||| k = mintedHere + k := by
  have := Nat.two_pow_add_eq_or_of_lt (i := 63) hk 1
  simpa [mintedHere] using this.symm

/-- The next number is above the host's half, and no number minted so far. -/
theorem newTransfer_fresh {cx : Cx} (h : cx.nextTransfer < mintedHere) :
    mintedHere ≤ cx.newTransfer.2 ∧
      ∀ k, 0 < k → k ≤ cx.nextTransfer → cx.newTransfer.2 ≠ mintedHere ||| k := by
  have hnew : cx.newTransfer.2 = mintedHere ||| (cx.nextTransfer + 1) := rfl
  rw [hnew]
  refine ⟨Nat.left_le_or, ?_⟩
  intro k hpos hk
  rw [mintedHere_or (Nat.lt_of_le_of_lt hk h)]
  by_cases hlast : cx.nextTransfer + 1 < mintedHere
  · rw [mintedHere_or hlast]
    intro (heq : mintedHere + (cx.nextTransfer + 1) = mintedHere + k)
    omega
  · have hfull : cx.nextTransfer + 1 = mintedHere := by omega
    rw [hfull, Nat.or_self]
    intro (heq : mintedHere = mintedHere + k)
    omega

end Minted

namespace SharePlugin

/-- What arrived is kept under minted numbers, what we offered under the host's. -/
structure Numbered (p : SharePlugin X) (minted : ℕ) : Prop where
  offered : ∀ (t : TransferId) (i : Incoming), p.offered[t]? = some i →
    ∃ k, 0 < k ∧ k ≤ minted ∧ t = mintedHere ||| k
  sending : ∀ (t : TransferId) (o : Outgoing), p.sending[t]? = some o → t < mintedHere

/-- The host numbers what it offers below the minted half. -/
def HostNumbered (X : Crates) : Call → Prop
  | .request _ ty body =>
    ty = "offer" → ∀ offer, X.decode Offer body = some offer → offer.transfer < mintedHere
  | _ => True

theorem numbered_default : (SharePlugin.default X).Numbered 0 where
  offered t i h := by simp [SharePlugin.default] at h
  sending t o h := by simp [SharePlugin.default] at h

namespace Numbered
variable {p : SharePlugin X} {n m : ℕ}

theorem mono (h : p.Numbered n) (hm : n ≤ m) : p.Numbered m where
  offered t i hi := by
    obtain ⟨k, hpos, hk, ht⟩ := h.offered t i hi
    exact ⟨k, hpos, by omega, ht⟩
  sending := h.sending

theorem of_subset {q : SharePlugin X} (h : p.Numbered n)
    (ho : ∀ (t : TransferId) (i : Incoming), q.offered[t]? = some i → p.offered[t]? = some i)
    (hs : ∀ (t : TransferId) (o : Outgoing), q.sending[t]? = some o → p.sending[t]? = some o) :
    q.Numbered n where
  offered t i hi := h.offered t i (ho t i hi)
  sending t o hi := h.sending t o (hs t o hi)

theorem remove (h : p.Numbered n) (t : TransferId) : (p.remove t).Numbered n :=
  h.of_subset (fun _ _ hi => (Lib.getElem?_of_erase hi).2)
    (fun _ _ hi => (Lib.getElem?_of_erase hi).2)

/-- A call keeps the numbering, and the counter never goes back. -/
theorem call (h : p.Numbered n) {cx : Cx} (hn : n ≤ cx.nextTransfer) {c : Call}
    (hc : HostNumbered X c) : (Plugin.call p cx c).1.Numbered (Plugin.call p cx c).2.1.nextTransfer ∧
      cx.nextTransfer ≤ (Plugin.call p cx c).2.1.nextTransfer := by
  have hcx : p.Numbered cx.nextTransfer := h.mono hn
  have hmove := p.call_move cx c
  revert hmove
  generalize (Plugin.call p cx c).1 = q
  generalize (Plugin.call p cx c).2.1 = cx'
  intro hmove
  cases hmove with
  | idle
  | accepted
  | unsendable
  | taken
  | listening => exact ⟨hcx, le_rfl⟩
  | offered =>
    refine ⟨⟨?_, hcx.sending⟩, Nat.le_succ _⟩
    intro t i hi
    rcases Lib.getElem?_of_insert hi with ⟨rfl, -⟩ | ⟨-, hi⟩
    · exact ⟨cx.nextTransfer + 1, Nat.succ_pos _, le_rfl, rfl⟩
    · exact (hcx.mono (Nat.le_succ _)).offered t i hi
  | rejected =>
    exact ⟨hcx.of_subset (fun _ _ hi => hi) (fun _ _ hi => (Lib.getElem?_of_erase hi).2), le_rfl⟩
  | declined =>
    exact ⟨hcx.of_subset (fun _ _ hi => (Lib.getElem?_of_erase hi).2) (fun _ _ hi => hi), le_rfl⟩
  | finished
  | cancelled
  | ended => exact ⟨hcx.remove _, le_rfl⟩
  | disconnected peer =>
    exact ⟨hcx.of_subset (fun _ _ hi => (Lib.getElem?_filter_eq_some.mp hi).1)
      (fun _ _ hi => (Lib.getElem?_filter_eq_some.mp hi).1), le_rfl⟩
  | sent decoded =>
    refine ⟨⟨hcx.offered, ?_⟩, le_rfl⟩
    intro t o hi
    rcases Lib.getElem?_of_insert hi with ⟨rfl, -⟩ | ⟨-, hi⟩
    · exact hc rfl _ decoded
    · exact hcx.sending t o hi

end Numbered

def Holds (p : SharePlugin X) (peer : DeviceId) (t : TransferId) : Prop :=
  (∃ i, p.offered[t]? = some i ∧ i.peer = peer) ∨ ∃ o, p.sending[t]? = some o ∧ o.peer = peer

theorem isSendingTo_iff {p : SharePlugin X} {peer : DeviceId} {t : TransferId} :
    p.isSendingTo peer t ↔ ∃ o, p.sending[t]? = some o ∧ o.peer = peer := by
  unfold isSendingTo
  cases p.sending[t]? <;> simp

theorem incomingFrom_some {p : SharePlugin X} {peer : DeviceId} {n : ℕ} {t : TransferId}
    (h : p.incomingFrom peer n = some t) :
    ∃ i, p.offered[t]? = some i ∧ i.peer = peer ∧ i.offeredAs = n := by
  unfold incomingFrom at h
  obtain ⟨⟨t', i⟩, hfind, rfl⟩ := Option.map_eq_some_iff.mp h
  have hmem := List.mem_of_find?_eq_some hfind
  have hsat := List.find?_some hfind
  rw [ExtTreeMap.mem_toList_iff_getElem?_eq_some] at hmem
  simp only [decide_eq_true_eq] at hsat
  exact ⟨i, hmem, hsat⟩


/-- A message from `q` concerns nobody else: the entries of other peers stay, whatever bulk
channel it asks for is for a transfer with `q`, nothing is sent, and what is announced is
announced about `q`. -/
structure Isolated (p : SharePlugin X) (cx : Cx) (q : DeviceId) (p' : SharePlugin X) (cx' : Cx) :
    Prop where
  offered : ∀ (t : TransferId) (i : Incoming), i.peer ≠ q →
    (p'.offered[t]? = some i ↔ p.offered[t]? = some i)
  sending : ∀ (t : TransferId) (o : Outgoing), o.peer ≠ q →
    (p'.sending[t]? = some o ↔ p.sending[t]? = some o)
  bulk : ∃ rs, cx'.bulk = cx.bulk ++ rs ∧
    ∀ r ∈ rs, ∀ peer, peer ≠ q → ¬ p.Holds peer r.transfer
  sends : cx'.sends = cx.sends
  ui : ∃ es, cx'.ui = cx.ui ++ es ∧ ∀ e ∈ es, ∃ ty body, e = .plugin q cap ty body

namespace Numbered
variable {p : SharePlugin X} {cx : Cx} {q : DeviceId}

/-- A number names one of the two tables, so a transfer is with one peer only. -/
theorem holds_unique (h : p.Numbered cx.nextTransfer) {peer : DeviceId} {t : TransferId}
    (ht : p.Holds q t) (hp : p.Holds peer t) : peer = q := by
  have apart : ∀ {i : Incoming} {o : Outgoing}, p.offered[t]? = some i → p.sending[t]? = some o →
      False := by
    intro i o hi ho
    obtain ⟨k, -, -, rfl⟩ := h.offered t i hi
    have hhigh : mintedHere ≤ mintedHere ||| k := Nat.left_le_or
    exact Nat.not_lt.mpr hhigh (h.sending _ o ho)
  rcases ht with ⟨i, hi, rfl⟩ | ⟨o, ho, rfl⟩
  · rcases hp with ⟨j, hj, rfl⟩ | ⟨o, ho, -⟩
    · rw [Option.some.inj (hj.symm.trans hi)]
    · exact (apart hi ho).elim
  · rcases hp with ⟨j, hj, -⟩ | ⟨o', ho', rfl⟩
    · exact (apart hj ho).elim
    · rw [Option.some.inj (ho'.symm.trans ho)]

theorem remove_other (h : p.Numbered cx.nextTransfer) {t : TransferId} (ht : p.Holds q t) :
    (∀ (t' : TransferId) (i : Incoming), i.peer ≠ q →
      ((p.remove t).offered[t']? = some i ↔ p.offered[t']? = some i)) ∧
    ∀ (t' : TransferId) (o : Outgoing), o.peer ≠ q →
      ((p.remove t).sending[t']? = some o ↔ p.sending[t']? = some o) := by
  constructor
  · intro t' i hi
    refine ⟨fun h' => (Lib.getElem?_of_erase h').2, fun h' => ?_⟩
    have hne : t' ≠ t := by
      rintro rfl
      exact hi (h.holds_unique ht (.inl ⟨i, h', rfl⟩))
    exact (Lib.getElem?_erase_of_ne hne).trans h'
  · intro t' o ho
    refine ⟨fun h' => (Lib.getElem?_of_erase h').2, fun h' => ?_⟩
    have hne : t' ≠ t := by
      rintro rfl
      exact ho (h.holds_unique ht (.inr ⟨o, h', rfl⟩))
    exact (Lib.getElem?_erase_of_ne hne).trans h'

/-- The number an arriving offer gets is not in use. -/
theorem fresh (h : p.Numbered cx.nextTransfer) (hfew : cx.nextTransfer < mintedHere) :
    p.offered[cx.newTransfer.2]? = none ∧ p.sending[cx.newTransfer.2]? = none := by
  obtain ⟨hhigh, hnew⟩ := newTransfer_fresh hfew
  constructor
  · rw [Option.eq_none_iff_forall_ne_some]
    intro i hi
    obtain ⟨k, hpos, hk, ht⟩ := h.offered _ i hi
    exact hnew k hpos hk ht
  · rw [Option.eq_none_iff_forall_ne_some]
    intro o ho
    exact Nat.not_lt.mpr hhigh (h.sending _ o ho)

theorem isolated (h : p.Numbered cx.nextTransfer) (hfew : cx.nextTransfer < mintedHere)
    (env : Envelope) : p.Isolated cx q (Plugin.call p cx (.message q env)).1
      (Plugin.call p cx (.message q env)).2.1 := by
  have none_asked : ∃ rs, cx.bulk = cx.bulk ++ rs ∧
      ∀ r ∈ rs, ∀ peer, peer ≠ q → ¬ p.Holds peer r.transfer := ⟨[], by simp, by simp⟩
  have none_told : ∃ es, cx.ui = cx.ui ++ es ∧ ∀ e ∈ es, ∃ ty body, e = .plugin q cap ty body :=
    ⟨[], by simp, by simp⟩
  have told : ∀ (ty : String) (body : Bytes), ∃ es,
      cx.ui ++ [UiEvent.plugin q cap ty body] = cx.ui ++ es ∧
        ∀ e ∈ es, ∃ ty body, e = .plugin q cap ty body :=
    fun ty body => ⟨_, rfl, by simp⟩
  have hmove := p.call_move cx (.message q env)
  revert hmove
  generalize (Plugin.call p cx (.message q env)).1 = p'
  generalize (Plugin.call p cx (.message q env)).2.1 = cx'
  intro hmove
  cases hmove with
  | idle => exact ⟨fun _ _ _ => .rfl, fun _ _ _ => .rfl, none_asked, rfl, none_told⟩
  | offered =>
    refine ⟨?_, fun _ _ _ => .rfl, none_asked, rfl, told _ _⟩
    intro t i hi
    have hfresh := (h.fresh hfew).1
    by_cases ht : t = cx.newTransfer.2
    · subst ht
      rw [hfresh, ExtTreeMap.getElem?_insert_self]
      refine ⟨fun he => ?_, fun he => by cases he⟩
      rw [← Option.some.inj he] at hi
      exact (hi rfl).elim
    · rw [Lib.getElem?_insert_of_ne ht]
  | accepted _ _ ours =>
    refine ⟨fun _ _ _ => .rfl, fun _ _ _ => .rfl, ⟨[_], rfl, ?_⟩, rfl, none_told⟩
    intro r hr peer hne hp
    rw [List.mem_singleton.mp hr] at hp
    exact hne (h.holds_unique (.inr (isSendingTo_iff.mp ours)) hp)
  | rejected _ _ ours =>
    have hother := h.remove_other (.inr (isSendingTo_iff.mp ours))
    exact ⟨fun _ _ _ => .rfl, hother.2, none_asked, rfl, told _ _⟩
  | @finished _ _ _ transfer _ _ about =>
    have hq : p.Holds q transfer := by
      unfold finishing at about
      split at about
      · rename_i ours
        rw [← Option.some.inj about]
        exact .inr (isSendingTo_iff.mp ours)
      · obtain ⟨i, hi, hpeer, -⟩ := incomingFrom_some about
        exact .inl ⟨i, hi, hpeer⟩
    have hother := h.remove_other hq
    exact ⟨hother.1, hother.2, none_asked, rfl, told _ _⟩

end Numbered

/-- Along a run of calls in which the host numbers its offers below the minted half. -/
theorem numbered_run {τs : List Turn} (h : Lib.Along Desk.turn (fun d τ =>
      d.Follows τ ∧ HostNumbered X τ.call) ⟨SharePlugin.default X, 0⟩ τs) :
    (Lib.run Desk.turn ⟨SharePlugin.default X, 0⟩ τs).plugin.Numbered
      (Lib.run Desk.turn ⟨SharePlugin.default X, 0⟩ τs).minted :=
  h.inv (I := fun d => d.plugin.Numbered d.minted)
    (fun _ _ hd hτ => (hd.call hτ.1 hτ.2).1) numbered_default

/-- In every state the plugin reaches with host-numbered offers below `2 ^ 63` and fewer than
`2 ^ 63` minted numbers, whatever a peer sends concerns that peer alone, and the number an
arriving offer is given is not in use. -/
theorem messages_are_isolated {τs : List Turn} (hrun : Lib.Along Desk.turn (fun d τ =>
      d.Follows τ ∧ HostNumbered X τ.call) ⟨SharePlugin.default X, 0⟩ τs)
    {d : Desk (SharePlugin X)} (hd : Lib.run Desk.turn ⟨SharePlugin.default X, 0⟩ τs = d)
    {cx : Cx} (hcx : d.minted ≤ cx.nextTransfer) (hfew : cx.nextTransfer < 2 ^ 63)
    (q : DeviceId) (env : Envelope) :
    d.plugin.Isolated cx q (Plugin.call d.plugin cx (.message q env)).1
        (Plugin.call d.plugin cx (.message q env)).2.1 ∧
      cx.newTransfer.2 ∉ d.plugin.offered ∧ cx.newTransfer.2 ∉ d.plugin.sending := by
  subst hd
  have hnum := (numbered_run hrun).mono hcx
  refine ⟨hnum.isolated hfew env, ?_⟩
  obtain ⟨ho, hs⟩ := hnum.fresh hfew
  exact ⟨Lib.not_mem_of_getElem? ho, Lib.not_mem_of_getElem? hs⟩

def pictureOffer : Envelope :=
  ⟨wireVersion, 1, none, cap, "offer",
    Mock.crates.encode (⟨1, "cat.jpg", 3, "image/jpeg"⟩ : Offer), 0, none⟩

/-- Another device that claims the picture has failed leaves the offer where it is. -/
theorem stranger_cannot_finish :
    let d := Lib.run Desk.turn ⟨SharePlugin.default Mock.crates, 0⟩
      [⟨Cx.new 0 0 0 (EffectSet.new [.share]), .message Mock.phone pictureOffer⟩]
    let stranger := DeviceId.of Mock.crates (Mock.device 3).publicKey
    let cx := Cx.new 1 0 1 (EffectSet.new [.share])
    let env : Envelope := { pictureOffer with
      ty := "finished"
      body := Mock.crates.encode (⟨1, false, "gone"⟩ : Finished) }
    mintedHere ||| 1 ∈ d.plugin.offered ∧
      d.plugin.Isolated cx stranger (Plugin.call d.plugin cx (.message stranger env)).1
        (Plugin.call d.plugin cx (.message stranger env)).2.1 := by
  refine ⟨by decide +kernel, (messages_are_isolated ?_ rfl (by decide +kernel) (by decide) _ _).1⟩
  exact ⟨⟨Nat.le_refl 0, trivial⟩, .nil _⟩

end SharePlugin
end Acrylius
