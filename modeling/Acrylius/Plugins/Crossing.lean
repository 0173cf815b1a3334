import Acrylius.Plugins.Duo

/-! To which transfer an answer or an ending is applied. A number names a transfer only together
with the device that gave it, and an ending does not say which device that is: it is looked up
among the offers made here first. -/
namespace Acrylius
open Proto Std Share

variable {X : Crates}

namespace SharePlugin

theorem incomingFrom_eq_none {p : SharePlugin X} {peer : DeviceId} {n : ℕ}
    (h : p.incomingFrom peer n = none) {t : TransferId} {i : Incoming}
    (hi : p.offered[t]? = some i) (hp : i.peer = peer) : i.offeredAs ≠ n := by
  intro hn
  have hfind : p.offered.toList.find? (fun e => e.2.peer = peer ∧ e.2.offeredAs = n) = none :=
    Option.map_eq_none_iff.mp h
  have hnot := List.find?_eq_none.mp hfind (t, i)
    (ExtTreeMap.mem_toList_iff_getElem?_eq_some.mpr hi)
  simp [hp, hn] at hnot

/-- What is held under a minted number is not under one of the host's. -/
theorem Numbered.offered_low {p : SharePlugin X} {minted n : ℕ} (h : p.Numbered minted)
    (hn : n < mintedHere) : p.offered[n]? = none := by
  rw [Option.eq_none_iff_forall_ne_some]
  intro i hi
  obtain ⟨k, -, -, rfl⟩ := h.offered n i hi
  have hhigh : mintedHere ≤ mintedHere ||| k := Nat.left_le_or
  omega

section Answers
variable (p : SharePlugin X) (cx : Cx) (peer : DeviceId) (env : Envelope)

theorem call_accept {a : Accept} (hty : env.ty = "accept")
    (hdec : X.decode Accept env.body = some a) :
    Plugin.call p cx (.message peer env) =
      if !p.isSendingTo peer a.transfer then (p, cx, .error .notAllowed)
      else (p, cx.bulkSend peer a.transfer a.endpoint, .ok ()) := by
  simp only [Plugin.call, Plugin.onMessage, onMessage, hty, onAccept, hdec]

theorem call_reject {f : Finished} (hty : env.ty = "reject")
    (hdec : X.decode Finished env.body = some f) :
    Plugin.call p cx (.message peer env) =
      if !p.isSendingTo peer f.transfer then (p, cx, .error .notAllowed)
      else ({ p with sending := p.sending.erase f.transfer }, announce X cx peer "reject" f,
        .ok ()) := by
  simp only [Plugin.call, Plugin.onMessage, onMessage, hty, onReject, hdec]

theorem call_finished {f : Finished} (hty : env.ty = "finished")
    (hdec : X.decode Finished env.body = some f) :
    Plugin.call p cx (.message peer env) =
      match p.finishing peer f.transfer with
      | none => (p, cx, .error .notAllowed)
      | some transfer =>
        (p.remove transfer, announce X cx peer "finished" { f with transfer }, .ok ()) := by
  cases hfound : p.finishing peer f.transfer with
  | none => simp only [Plugin.call, Plugin.onMessage, onMessage, hty, onFinished, hdec, hfound]
  | some t => simp only [Plugin.call, Plugin.onMessage, onMessage, hty, onFinished, hdec, hfound]

end Answers
end SharePlugin

namespace Duo
variable (who : Bool → DeviceId) (serves : Bool → EffectSet)

/-- This end has the transfer that `offerer` offered as `n`, under the number `t`. -/
def Has (d : Duo X) (here offerer : Bool) (n : ℕ) (t : TransferId) : Prop :=
  if offerer = here then t = n ∧ (d.ends here).plugin.isSendingTo (who (!here)) n
  else ∃ i : Incoming, (d.ends here).plugin.offered[t]? = some i ∧ i.peer = who (!here) ∧
    i.offeredAs = n

/-- The transfer has ended here: this end does not have it, and it is not still to come. -/
def Over (d : Duo X) (here offerer : Bool) (n : ℕ) : Prop :=
  (∀ t, ¬ d.Has who here offerer n t) ∧
    if offerer = here then n ≤ (d.ends here).offers else n ∉ offersIn X (d.wire here)

/-- The message is applied to the transfer it is about, which it starts or removes and nothing
else, or refused because that transfer has ended here. -/
def Lands (d : Duo X) (i : Input) (m : Parcel) (n : ℕ) (id : UInt32) : Prop :=
  let p := (d.ends i.here).plugin
  let cx := d.cx serves i
  let r := Plugin.call p cx (.message (who (!i.here)) (m.message.envelope id))
  (∃ t, d.Has who i.here m.offerer n t ∧ (∀ t', d.Has who i.here m.offerer n t' → t' = t) ∧
    r.2.2 = .ok () ∧ if m.message.ty = "accept" then
      r.1 = p ∧ ∃ endpoint, r.2.1 = cx.bulkSend (who (!i.here)) t endpoint
    else r.1 = p.remove t ∧ r.2.1.bulk = []) ∨
  (r = (p, cx, .error .notAllowed) ∧ d.Over who i.here m.offerer n)

/-- Whatever answer or ending arrives in this step lands where it belongs. -/
def Faithful (d : Duo X) (i : Input) : Prop :=
  ∀ id m rest n, i.deed = .deliver id → d.wire i.here = m :: rest → m.names X = some n →
    d.Lands who serves i m n id

/-- An ending arrives under a number that also names a transfer in the other direction, and that
one is found: it is one of ours, or the one meant is over. -/
def crossed (d : Duo X) (i : Input) : Bool :=
  match i.deed, d.wire i.here with
  | .deliver _, m :: _ =>
    match m.message.ty, X.decode Finished m.message.body with
    | "finished", some f =>
      let p := (d.ends i.here).plugin
      if m.offerer = i.here then !p.isSendingTo (who (!i.here)) f.transfer &&
        (p.incomingFrom (who (!i.here)) f.transfer).isSome
      else p.isSendingTo (who (!i.here)) f.transfer
    | _, _ => false
  | _, _ => false

variable {who serves} {d : Duo X} {i : Input} {m : Parcel} {rest : List Parcel} {n : ℕ} {id : UInt32}

theorem has_own {t : TransferId} : d.Has who i.here i.here n t ↔
    t = n ∧ (d.ends i.here).plugin.isSendingTo (who (!i.here)) n := by
  simp [Has]

theorem has_other {offerer : Bool} (h : offerer ≠ i.here) {t : TransferId} :
    d.Has who i.here offerer n t ↔ ∃ j : Incoming, (d.ends i.here).plugin.offered[t]? = some j ∧
      j.peer = who (!i.here) ∧ j.offeredAs = n := by
  simp [Has, h]

theorem over_own (hn : n ≤ (d.ends i.here).offers)
    (h : ¬ (d.ends i.here).plugin.isSendingTo (who (!i.here)) n) :
    d.Over who i.here i.here n := by
  refine ⟨fun t ht => h (has_own.mp ht).2, ?_⟩
  rw [if_pos rfl]
  exact hn

theorem lands_own {m : Parcel} (hof : m.offerer = i.here)
    (hours : (d.ends i.here).plugin.isSendingTo (who (!i.here)) n)
    {r : SharePlugin X × Cx × Except PluginError Unit}
    (hr : Plugin.call (d.ends i.here).plugin (d.cx serves i)
      (.message (who (!i.here)) (m.message.envelope id)) = r)
    (hok : r.2.2 = .ok ()) (happlied : if m.message.ty = "accept" then
      r.1 = (d.ends i.here).plugin ∧
        ∃ endpoint, r.2.1 = (d.cx serves i).bulkSend (who (!i.here)) n endpoint
      else r.1 = (d.ends i.here).plugin.remove n ∧ r.2.1.bulk = []) :
    d.Lands who serves i m n id := by
  refine .inl ⟨n, ?_, ?_, ?_, ?_⟩
  · rw [hof]
    exact has_own.mpr ⟨rfl, hours⟩
  · intro t' ht'
    rw [hof] at ht'
    exact (has_own.mp ht').1
  · rw [hr]
    exact hok
  · rw [hr]
    exact happlied

/-- A refused message is about something that is over. -/
theorem lands_over (hr : Plugin.call (d.ends i.here).plugin (d.cx serves i)
      (.message (who (!i.here)) (m.message.envelope id)) =
        ((d.ends i.here).plugin, d.cx serves i, .error .notAllowed))
    (hover : d.Over who i.here m.offerer n) : d.Lands who serves i m n id :=
  .inr ⟨hr, hover⟩

theorem Tidy.accept_lands (h : d.Tidy i.here) (hw : d.wire i.here = m :: rest) {a : Accept}
    (hty : m.message.ty = "accept") (hdec : X.decode Accept m.message.body = some a)
    (hof : m.offerer = i.here) : d.Lands who serves i m a.transfer id := by
  have hnames : m.names X = some a.transfer := by simp [Parcel.names, hty, hdec]
  have hknown := (h.known m (hw ▸ List.mem_cons_self) _ hnames).1 hof
  have hcall := SharePlugin.call_accept (d.ends i.here).plugin (d.cx serves i) (who (!i.here))
    (m.message.envelope id) hty hdec
  cases hours : (d.ends i.here).plugin.isSendingTo (who (!i.here)) a.transfer with
  | true =>
    simp only [hours, Bool.not_true, Bool.false_eq_true, if_false] at hcall
    refine lands_own hof hours hcall rfl ?_
    rw [if_pos hty]
    exact ⟨rfl, a.endpoint, rfl⟩
  | false =>
    simp only [hours, Bool.not_false, if_true] at hcall
    refine lands_over hcall ?_
    rw [hof]
    exact over_own hknown (by simp [hours])

theorem Tidy.reject_lands (h : d.Tidy i.here) (hw : d.wire i.here = m :: rest) {f : Finished}
    (hty : m.message.ty = "reject") (hdec : X.decode Finished m.message.body = some f)
    (hof : m.offerer = i.here) : d.Lands who serves i m f.transfer id := by
  have hnames : m.names X = some f.transfer := by simp [Parcel.names, hty, hdec]
  have hknown := (h.known m (hw ▸ List.mem_cons_self) _ hnames).1 hof
  have hcall := SharePlugin.call_reject (d.ends i.here).plugin (d.cx serves i) (who (!i.here))
    (m.message.envelope id) hty hdec
  cases hours : (d.ends i.here).plugin.isSendingTo (who (!i.here)) f.transfer with
  | true =>
    simp only [hours, Bool.not_true, Bool.false_eq_true, if_false] at hcall
    refine lands_own hof hours hcall rfl ?_
    rw [if_neg (by rw [hty]; decide)]
    -- The number is one of the host's, so no offer made to us is removed with it.
    have hlow := h.numbered.offered_low (hknown.trans_lt h.few)
    refine ⟨?_, rfl⟩
    unfold SharePlugin.remove
    rw [Lib.erase_of_none hlow]
  | false =>
    simp only [hours, Bool.not_false, if_true] at hcall
    refine lands_over hcall ?_
    rw [hof]
    exact over_own hknown (by simp [hours])

/-- An ending that is not crossed lands where it belongs. -/
theorem Tidy.finished_lands (h : d.Tidy i.here) (hw : d.wire i.here = m :: rest) {f : Finished}
    (hty : m.message.ty = "finished") (hdec : X.decode Finished m.message.body = some f)
    (hdeed : i.deed = .deliver id) (hstraight : d.crossed who i = false) :
    d.Lands who serves i m f.transfer id := by
  have hnames : m.names X = some f.transfer := by simp [Parcel.names, hty, hdec]
  have hcall := SharePlugin.call_finished (d.ends i.here).plugin (d.cx serves i) (who (!i.here))
    (m.message.envelope id) hty hdec
  have hnot : ¬ m.message.ty = "accept" := by rw [hty]; decide
  simp only [crossed, hdeed, hw, hty, hdec] at hstraight
  by_cases hof : m.offerer = i.here
  · have hknown := (h.known m (hw ▸ List.mem_cons_self) _ hnames).1 hof
    rw [if_pos hof] at hstraight
    cases hours : (d.ends i.here).plugin.isSendingTo (who (!i.here)) f.transfer with
    | true =>
      simp only [SharePlugin.finishing, hours, if_true] at hcall
      refine lands_own hof hours hcall rfl ?_
      rw [if_neg hnot]
      exact ⟨rfl, rfl⟩
    | false =>
      simp only [hours, Bool.not_false, Bool.true_and, Option.isSome_eq_false_iff,
        Option.isNone_iff_eq_none] at hstraight
      simp only [SharePlugin.finishing, hours, Bool.false_eq_true, if_false, hstraight] at hcall
      refine lands_over hcall ?_
      rw [hof]
      exact over_own hknown (by simp [hours])
  · rw [if_neg hof] at hstraight
    cases hfrom : (d.ends i.here).plugin.incomingFrom (who (!i.here)) f.transfer with
    | some t =>
      simp only [SharePlugin.finishing, hstraight, Bool.false_eq_true, if_false, hfrom] at hcall
      obtain ⟨j, hj, hp, hn⟩ := SharePlugin.incomingFrom_some hfrom
      refine .inl ⟨t, (has_other hof).mpr ⟨j, hj, hp, hn⟩, ?_, ?_, ?_⟩
      · intro t' ht'
        obtain ⟨j', hj', -, hn'⟩ := (has_other hof).mp ht'
        exact h.once t' t j' j hj' hj (hn'.trans hn.symm)
      · rw [hcall]
      · rw [if_neg hnot, hcall]
        exact ⟨rfl, rfl⟩
    | none =>
      simp only [SharePlugin.finishing, hstraight, Bool.false_eq_true, if_false, hfrom] at hcall
      refine lands_over hcall ⟨?_, ?_⟩
      · intro t ht
        obtain ⟨j, hj, hp, hn⟩ := (has_other hof).mp ht
        exact SharePlugin.incomingFrom_eq_none hfrom hj hp hn
      · rw [if_neg hof]
        have hsplit : offersIn X (d.wire i.here) = offersIn X [m] ++ offersIn X rest := by
          rw [hw, ← offersIn_append]
          rfl
        have hhead : offersIn X [m] = [] := by simp [offersIn, hty]
        rw [hsplit, hhead, List.nil_append]
        intro hlate
        -- No offer comes after a message about it.
        have horder := h.order
        rw [hw] at horder
        obtain ⟨m', hm', hin⟩ := List.mem_filterMap.mp hlate
        refine (List.pairwise_cons.mp horder).1 m' hm' _ hnames (Bool.eq_not.mpr hof) ?_
        exact List.mem_filterMap.mpr ⟨m', List.mem_singleton.mpr rfl, hin⟩

theorem Tidy.faithful (h : d.Tidy i.here) (hstraight : d.crossed who i = false) :
    d.Faithful who serves i := by
  intro id m rest n hdeed hw hn
  cases h.bears m (hw ▸ List.mem_cons_self) with
  | offer ty => simp [Parcel.names, ty] at hn
  | @accept a ty body of =>
    have hn' : a.transfer = n := by simpa [Parcel.names, ty, body] using hn
    rw [← hn']
    exact h.accept_lands hw ty body of
  | @reject f ty body of =>
    have hn' : f.transfer = n := by simpa [Parcel.names, ty, body] using hn
    rw [← hn']
    exact h.reject_lands hw ty body of
  | @finished f ty body =>
    have hn' : f.transfer = n := by simpa [Parcel.names, ty, body] using hn
    rw [← hn']
    exact h.finished_lands hw ty body hdeed hstraight

/-- A crossed ending removes the wrong transfer. -/
theorem Tidy.not_faithful (h : d.Tidy i.here) (hcrossed : d.crossed who i = true) :
    ¬ d.Faithful who serves i := by
  unfold crossed at hcrossed
  split at hcrossed
  case h_2 => cases hcrossed
  rename_i id m rest hdeed hw
  split at hcrossed
  case h_2 => cases hcrossed
  rename_i f hty hdec
  intro hfaithful
  have hnames : m.names X = some f.transfer := by simp [Parcel.names, hty, hdec]
  have hlands := hfaithful id m rest _ hdeed hw hnames
  have hcall := SharePlugin.call_finished (d.ends i.here).plugin (d.cx serves i) (who (!i.here))
    (m.message.envelope id) hty hdec
  have hnot : ¬ m.message.ty = "accept" := by rw [hty]; decide
  dsimp only at hcrossed
  by_cases hof : m.offerer = i.here
  · rw [if_pos hof, Bool.and_eq_true, Bool.not_eq_true'] at hcrossed
    obtain ⟨hours, hfound⟩ := hcrossed
    obtain ⟨t, ht⟩ := Option.isSome_iff_exists.mp hfound
    simp only [SharePlugin.finishing, hours, Bool.false_eq_true, if_false, ht] at hcall
    rcases hlands with ⟨t', hhas, -⟩ | ⟨hrefused, -⟩
    · rw [hof] at hhas
      have := (has_own.mp hhas).2
      simp [hours] at this
    · rw [hcall] at hrefused
      simp at hrefused
  · rw [if_neg hof] at hcrossed
    simp only [SharePlugin.finishing, hcrossed, if_true] at hcall
    rcases hlands with ⟨t, hhas, -, -, happlied⟩ | ⟨hrefused, -⟩
    · obtain ⟨j, hj, -, -⟩ := (has_other hof).mp hhas
      obtain ⟨o, ho, -⟩ := SharePlugin.isSendingTo_iff.mp hcrossed
      rw [if_neg hnot, hcall] at happlied
      have hlow := h.numbered.sending _ o ho
      obtain ⟨k, -, -, rfl⟩ := h.numbered.offered t j hj
      have hhigh : mintedHere ≤ mintedHere ||| k := Nat.left_le_or
      have hne : f.transfer ≠ mintedHere ||| k := by
        intro heq
        rw [heq] at hlow
        exact absurd hhigh (Nat.not_le.mpr hlow)
      have hgone : ((d.ends i.here).plugin.remove f.transfer).sending[f.transfer]? = none := by
        simp [SharePlugin.remove]
      have hkept : ((d.ends i.here).plugin.remove (mintedHere ||| k)).sending[f.transfer]? =
          some o := (Lib.getElem?_erase_of_ne hne).trans ho
      have happlied' := happlied.1
      dsimp only at happlied'
      rw [happlied', hkept] at hgone
      cases hgone
    · rw [hcall] at hrefused
      simp at hrefused

/-- Over every run of two devices that number their offers from one: whatever one of them answers
or ends, the other applies to the very transfer it is about or refuses because that transfer has
ended there, exactly when no ending arrives crossed. -/
theorem answers_find_their_transfer_iff (is : List Input)
    (his : Lib.Along (step who serves) (fun d i => d.wellNumbered i) (Duo.fresh X) is) :
    Lib.Along (step who serves) (fun d i => d.Faithful who serves i) (Duo.fresh X) is ↔
      Lib.Along (step who serves) (fun d i => d.crossed who i = false) (Duo.fresh X) is := by
  refine Lib.Along.iff_of_inv (I := fun d => ∀ here, d.Tidy here) ?_ ?_ his tidy_fresh
  · intro d i hd _
    constructor
    · intro hfaithful
      by_contra hcrossed
      exact (hd i.here).not_faithful (Bool.not_eq_false _ ▸ hcrossed) hfaithful
    · exact (hd i.here).faithful
  · intro d i hd hi _
    exact Tidy.step_both hd hi

def couple (b : Bool) : DeviceId :=
  if b then DeviceId.of Mock.crates (Mock.device 1).publicKey else Mock.phone

def pictureSent : List Input :=
  [⟨true, none, .offer "cat.jpg" 3 "image/jpeg"⟩, ⟨false, none, .deliver 1⟩]

/-- The phone takes the picture, listens and says so, and is heard. -/
theorem picture_answered :
    Lib.Along (step couple fun _ => EffectSet.new [.share])
      (fun d i => d.Faithful couple (fun _ => EffectSet.new [.share]) i) (Duo.fresh Mock.crates)
      (pictureSent ++ [⟨false, none, .accept ⟨mintedHere ||| 1, true, ""⟩⟩,
        ⟨false, none, .listening (mintedHere ||| 1) "192.168.1.2:4000"⟩,
        ⟨true, none, .deliver 2⟩]) :=
  (answers_find_their_transfer_iff _ (by decide +kernel)).mpr (by decide +kernel)

/-- The laptop and the phone each offer a picture, both as number one; the phone takes its own
back, and the laptop drops the one it offered instead. -/
theorem withdrawn_picture_ends_the_other :
    ¬ Lib.Along (step couple fun _ => EffectSet.new [.share])
      (fun d i => d.Faithful couple (fun _ => EffectSet.new [.share]) i) (Duo.fresh Mock.crates)
      (pictureSent ++ [⟨false, none, .offer "dog.jpg" 5 "image/jpeg"⟩, ⟨true, none, .deliver 1⟩,
        ⟨false, none, .cancel ⟨1, false, "changed my mind"⟩⟩, ⟨true, none, .deliver 2⟩]) :=
  fun h => absurd ((answers_find_their_transfer_iff _ (by decide +kernel)).mp h) (by decide +kernel)

end Duo
end Acrylius
