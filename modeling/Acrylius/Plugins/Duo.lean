import Acrylius.Plugins.Isolation

/-! Two devices that share files with each other: their share plugins and the messages under way
between them. A message carries, as history, whose offer it is about; that and its number name one
transfer. -/
namespace Acrylius
open Proto Std Share

variable {X : Crates}

/-- A device's share plugin, how many numbers its core has minted and how many its host has given
to offers. -/
structure Station (X : Crates) where
  plugin : SharePlugin X
  minted : ℕ
  offers : ℕ

structure Parcel where
  message : PendingSend
  offerer : Bool

/-- The two devices, and the messages under way to each of them, oldest first. -/
structure Duo (X : Crates) where
  ends : Bool → Station X
  wire : Bool → List Parcel

/-- What can happen at a device. A person's answer comes in the shape of a `Finished`. -/
inductive Deed where
  | offer (name : String) (size : ℕ) (mime : String)
  | accept (f : Finished)
  | reject (f : Finished)
  | cancel (f : Finished)
  | listening (t : TransferId) (endpoint : String)
  | ended (t : TransferId) (ok : Bool) (detail : String)
  /-- The oldest message arrives, under this envelope id. -/
  | deliver (id : UInt32)

/-- At which device something happens, and what its links to the other can carry just then. -/
structure Duo.Input where
  here : Bool
  link : Option BulkSupport
  deed : Deed

/-- Whose offer the message is about that a call sends: a number we hold no offer under is one of
our own. -/
def SharePlugin.offererOf (p : SharePlugin X) (here : Bool) : Call → Bool
  | .request _ ty body =>
    if ty = "offer" then here
    else match X.decode Finished body with
      | some f => if f.transfer ∈ p.offered then !here else here
      | none => here
  | .bulkListening t _ | .bulkFinished t _ _ => if t ∈ p.offered then !here else here
  | _ => here

namespace Duo

def fresh (X : Crates) : Duo X := ⟨fun _ => ⟨SharePlugin.default X, 0, 0⟩, fun _ => []⟩

section Steps
variable (who : Bool → DeviceId) (serves : Bool → EffectSet)

def cx (d : Duo X) (i : Input) : Cx :=
  (Cx.new 0 0 (d.ends i.here).minted (serves i.here)).forPeerLink i.link

/-- A call of the plugin at one device: what it sends goes out to the other. -/
def perform (d : Duo X) (i : Input) (c : Call) (offers : ℕ) : Duo X :=
  let p := (d.ends i.here).plugin
  let r := Plugin.call p (d.cx serves i) c
  { ends := Function.update d.ends i.here ⟨r.1, r.2.1.nextTransfer, offers⟩
    wire := Function.update d.wire (!i.here)
      (d.wire (!i.here) ++ r.2.1.sends.map (⟨·, p.offererOf i.here c⟩)) }

/-- Offers are numbered from one, in the order they are made. -/
def step (d : Duo X) (i : Input) : Duo X :=
  let peer := who (!i.here)
  let offers := (d.ends i.here).offers
  match i.deed with
  | .offer name size mime => d.perform serves i
      (.request peer "offer" (X.encode (⟨offers + 1, name, size, mime⟩ : Offer))) (offers + 1)
  | .accept f => d.perform serves i (.request peer "accept" (X.encode f)) offers
  | .reject f => d.perform serves i (.request peer "reject" (X.encode f)) offers
  | .cancel f => d.perform serves i (.request peer "cancel" (X.encode f)) offers
  | .listening t endpoint => d.perform serves i (.bulkListening t endpoint) offers
  | .ended t ok detail => d.perform serves i (.bulkFinished t ok detail) offers
  | .deliver id =>
    match d.wire i.here with
    | [] => d
    | m :: rest => perform serves { d with wire := Function.update d.wire i.here rest } i
        (.message peer (m.message.envelope id)) offers

end Steps

def offersIn (X : Crates) (ms : List Parcel) : List ℕ :=
  ms.filterMap fun m =>
    if m.message.ty = "offer" then (X.decode Offer m.message.body).map (·.transfer) else none

@[simp] theorem offersIn_append (ms ms' : List Parcel) :
    offersIn X (ms ++ ms') = offersIn X ms ++ offersIn X ms' := by
  simp [offersIn]

end Duo

/-- What a message under way to `here` can be: an offer is the sender's, an answer to one is about
an offer made here, and an ending may be about either. -/
inductive Parcel.Bears (X : Crates) (here : Bool) (m : Parcel) : Prop where
  | offer {o : Offer} (ty : m.message.ty = "offer")
      (body : X.decode Offer m.message.body = some o) (of : m.offerer = !here)
  | accept {a : Accept} (ty : m.message.ty = "accept")
      (body : X.decode Accept m.message.body = some a) (of : m.offerer = here)
  | reject {f : Finished} (ty : m.message.ty = "reject")
      (body : X.decode Finished m.message.body = some f) (of : m.offerer = here)
  | finished {f : Finished} (ty : m.message.ty = "finished")
      (body : X.decode Finished m.message.body = some f)

/-- The number an answer or an ending names its transfer by. -/
def Parcel.names (X : Crates) (m : Parcel) : Option ℕ :=
  match m.message.ty with
  | "accept" => (X.decode Accept m.message.body).map (·.transfer)
  | "reject" | "finished" => (X.decode Finished m.message.body).map (·.transfer)
  | _ => none

namespace Duo

/-- One end against the messages under way to it: minted numbers are above the host's, each offer
of the other end is either under way or held at most once, and no message about an offer overtakes
it. -/
structure Tidy (d : Duo X) (here : Bool) : Prop where
  numbered : (d.ends here).plugin.Numbered (d.ends here).minted
  mine : ∀ (n : TransferId) (o : Outgoing), (d.ends here).plugin.sending[n]? = some o →
    n ≤ (d.ends here).offers
  few : (d.ends here).offers < mintedHere
  once : ∀ (t t' : TransferId) (i i' : Incoming),
    (d.ends here).plugin.offered[t]? = some i → (d.ends here).plugin.offered[t']? = some i' →
      i.offeredAs = i'.offeredAs → t = t'
  held : ∀ (t : TransferId) (i : Incoming), (d.ends here).plugin.offered[t]? = some i →
    i.offeredAs ≤ (d.ends (!here)).offers
  bears : ∀ m ∈ d.wire here, m.Bears X here
  fresh : ∀ n ∈ offersIn X (d.wire here), n ≤ (d.ends (!here)).offers ∧
    ∀ (t : TransferId) (i : Incoming), (d.ends here).plugin.offered[t]? = some i → i.offeredAs ≠ n
  nodup : (offersIn X (d.wire here)).Nodup
  known : ∀ m ∈ d.wire here, ∀ n, m.names X = some n →
    (m.offerer = here → n ≤ (d.ends here).offers) ∧
    (m.offerer = !here → n ≤ (d.ends (!here)).offers ∨ mintedHere ≤ n)
  order : (d.wire here).Pairwise fun m m' =>
    ∀ n, m.names X = some n → m.offerer = !here → n ∉ offersIn X [m']

theorem tidy_fresh (here : Bool) : (Duo.fresh X).Tidy here where
  numbered := SharePlugin.numbered_default
  mine n o ho := by simp [Duo.fresh, SharePlugin.default] at ho
  few := Nat.two_pow_pos 63
  once t t' i i' hi := by simp [Duo.fresh, SharePlugin.default] at hi
  held t i hi := by simp [Duo.fresh, SharePlugin.default] at hi
  bears m hm := by cases hm
  fresh n hn := by cases hn
  nodup := List.nodup_nil
  known m hm := by cases hm
  order := .nil

end Duo

namespace SharePlugin
variable {p : SharePlugin X} {cx : Cx} {c : Call}

/-- What a plugin holds after a call it held before, unless the call brought an offer. -/
theorem offered_of_call {t : TransferId} {i : Incoming}
    (h : (Plugin.call p cx c).1.offered[t]? = some i) :
    p.offered[t]? = some i ∨ ∃ peer env o, c = .message peer env ∧ env.ty = "offer" ∧
      X.decode Offer env.body = some o ∧ t = cx.newTransfer.2 ∧ i.offeredAs = o.transfer := by
  have hmove := p.call_move cx c
  revert hmove
  generalize (Plugin.call p cx c).1 = p' at h
  generalize (Plugin.call p cx c).2.1 = cx'
  intro hmove
  cases hmove with
  | @offered peer env o ty served decoded small named =>
    rcases Lib.getElem?_of_insert h with ⟨rfl, rfl⟩ | ⟨-, hold⟩
    · exact .inr ⟨peer, env, o, rfl, ty, decoded, rfl, rfl⟩
    · exact .inl hold
  | declined | finished | cancelled | ended => exact .inl (Lib.getElem?_of_erase h).2
  | disconnected => exact .inl (Lib.getElem?_filter_eq_some.mp h).1
  | idle | accepted | rejected | unsendable | sent | taken | listening => exact .inl h

theorem mem_offered {t : TransferId} {i : Incoming} (h : p.offered[t]? = some i) : t ∈ p.offered :=
  ExtTreeMap.mem_iff_isSome_getElem?.mpr (by simp [h])

theorem sending_of_call {n : TransferId} {o : Outgoing}
    (h : (Plugin.call p cx c).1.sending[n]? = some o) :
    p.sending[n]? = some o ∨ ∃ peer body offer, c = .request peer "offer" body ∧
      X.decode Offer body = some offer ∧ n = offer.transfer := by
  have hmove := p.call_move cx c
  revert hmove
  generalize (Plugin.call p cx c).1 = p' at h
  generalize (Plugin.call p cx c).2.1 = cx'
  intro hmove
  cases hmove with
  | @sent peer body offer decoded small link =>
    rcases Lib.getElem?_of_insert h with ⟨rfl, -⟩ | ⟨-, hold⟩
    · exact .inr ⟨peer, body, offer, rfl, decoded, rfl⟩
    · exact .inl hold
  | rejected | finished | cancelled | ended => exact .inl (Lib.getElem?_of_erase h).2
  | disconnected => exact .inl (Lib.getElem?_filter_eq_some.mp h).1
  | idle | offered | accepted | declined | unsendable | taken | listening => exact .inl h

/-- The number belongs to the device the message is tagged with: an offer made to us under its
number, or one of ours, or one a person has asked to cancel. -/
def Owns (p : SharePlugin X) (here : Bool) (c : Call) (n : ℕ) : Prop :=
  (p.offererOf here c = !here ∧
    ∃ (t : TransferId) (i : Incoming), p.offered[t]? = some i ∧ i.offeredAs = n) ∨
  (p.offererOf here c = here ∧ ((∃ o : Outgoing, p.sending[n]? = some o) ∨
    ∃ peer body f, c = .request peer "cancel" body ∧ X.decode Finished body = some f ∧
      f.transfer = n))

theorem owns_of_offered {here : Bool} {t : TransferId} {i : Incoming}
    (htag : p.offererOf here c = if t ∈ p.offered then !here else here)
    (hi : p.offered[t]? = some i) : p.Owns here c i.offeredAs := by
  rw [if_pos (mem_offered hi)] at htag
  exact .inl ⟨htag, t, i, hi, rfl⟩

/-- What is said to the peer of a transfer names it by the number of the device that offered it. -/
theorem owns_asThePeerNumbersIt {here : Bool} {t : TransferId}
    (htag : p.offererOf here c = if t ∈ p.offered then !here else here)
    (hours : p.offered[t]? = none → (∃ o, p.sending[t]? = some o) ∨
      ∃ peer body f, c = .request peer "cancel" body ∧ X.decode Finished body = some f ∧
        f.transfer = t) : p.Owns here c (p.asThePeerNumbersIt t) := by
  cases ho : p.offered[t]? with
  | some i =>
    have hnumber : p.asThePeerNumbersIt t = i.offeredAs := by simp [asThePeerNumbersIt, ho]
    rw [hnumber]
    exact owns_of_offered htag ho
  | none =>
    have hnumber : p.asThePeerNumbersIt t = t := by simp [asThePeerNumbersIt, ho]
    rw [hnumber]
    rw [if_neg (Lib.not_mem_of_getElem? ho)] at htag
    exact .inr ⟨htag, hours ho⟩

/-- A call sends one message at most: an offer, if it was asked to make one, or an answer or an
ending that names its transfer by the number of the device it is tagged with. -/
theorem sends_of_call (p : SharePlugin X) (c : Call) (hcx : cx.sends = []) (here : Bool) :
    (Plugin.call p cx c).2.1.sends = [] ∨
    (∃ peer body o m, c = .request peer "offer" body ∧ X.decode Offer body = some o ∧
      (Plugin.call p cx c).2.1.sends = [m] ∧ m.ty = "offer" ∧ m.body = body) ∨
    ∃ m n, (Plugin.call p cx c).2.1.sends = [m] ∧ m.ty ≠ "offer" ∧
      (⟨m, p.offererOf here c⟩ : Parcel).Bears X (!here) ∧
      (⟨m, p.offererOf here c⟩ : Parcel).names X = some n ∧ p.Owns here c n := by
  have hmove := p.call_move cx c
  revert hmove
  generalize (Plugin.call p cx c).1 = p'
  generalize (Plugin.call p cx c).2.1 = cx'
  intro hmove
  cases hmove with
  | idle | offered | accepted | rejected | finished | disconnected | unsendable | taken =>
    exact .inl hcx
  | @sent peer body o decoded small link =>
    refine .inr (.inl ⟨peer, body, o, ⟨peer, cap, "offer", body, none⟩, rfl, decoded, ?_, rfl, rfl⟩)
    simp only [Cx.send, hcx, List.nil_append]
  | @declined peer body f incoming decoded ours =>
    have htag : p.offererOf here (.request peer "reject" body) =
        if f.transfer ∈ p.offered then !here else here := by
      simp [offererOf, decoded]
    refine .inr (.inr ⟨_, _, by simp only [Cx.sendReply, hcx, List.nil_append]; rfl,
      show "reject" ≠ "offer" by decide, ?_, ?_, owns_of_offered htag ours⟩)
    · refine .reject rfl (X.decode_encode _) ?_
      rw [htag, if_pos (mem_offered ours)]
    · simp [Parcel.names]
  | @cancelled peer body f decoded =>
    have htag : p.offererOf here (.request peer "cancel" body) =
        if f.transfer ∈ p.offered then !here else here := by
      simp [offererOf, decoded]
    refine .inr (.inr ⟨_, _, by simp only [Cx.send, Cx.bulkCancel, hcx, List.nil_append]; rfl,
      show "finished" ≠ "offer" by decide, .finished rfl (X.decode_encode _), ?_,
      owns_asThePeerNumbersIt htag fun _ => .inr ⟨peer, body, f, rfl, decoded, rfl⟩⟩)
    simp [Parcel.names]
  | @listening t endpoint incoming ours =>
    refine .inr (.inr ⟨_, _, by simp only [Cx.sendReply, hcx, List.nil_append]; rfl,
      show "accept" ≠ "offer" by decide, ?_, ?_, owns_of_offered rfl ours⟩)
    · refine .accept rfl (X.decode_encode _) ?_
      simp [offererOf, mem_offered ours]
    · simp [Parcel.names]
  | @ended t ok detail peer ours =>
    refine .inr (.inr ⟨_, _, by simp only [announce, Cx.emit, Cx.send, hcx, List.nil_append]; rfl,
      show "finished" ≠ "offer" by decide, .finished rfl (X.decode_encode _), ?_,
      owns_asThePeerNumbersIt rfl fun hnone => .inl ?_⟩)
    · simp [Parcel.names]
    · cases hs : p.sending[t]? with
      | none => simp [partner, hnone, hs] at ours
      | some o => exact ⟨o, rfl⟩

end SharePlugin

namespace Duo
variable {serves : Bool → EffectSet} {d : Duo X} {i : Input} {c : Call} {offers : ℕ}

@[simp] theorem perform_ends_here : (d.perform serves i c offers).ends i.here =
    ⟨(Plugin.call (d.ends i.here).plugin (d.cx serves i) c).1,
      (Plugin.call (d.ends i.here).plugin (d.cx serves i) c).2.1.nextTransfer, offers⟩ :=
  Function.update_self ..

@[simp] theorem perform_ends_other :
    (d.perform serves i c offers).ends (!i.here) = d.ends (!i.here) :=
  Function.update_of_ne (by simp) ..

@[simp] theorem perform_wire_here : (d.perform serves i c offers).wire i.here = d.wire i.here :=
  Function.update_of_ne (by simp) ..

@[simp] theorem perform_wire_other : (d.perform serves i c offers).wire (!i.here) =
    d.wire (!i.here) ++ (Plugin.call (d.ends i.here).plugin (d.cx serves i) c).2.1.sends.map
      (⟨·, (d.ends i.here).plugin.offererOf i.here c⟩) :=
  Function.update_self ..

/-- An offer made in the call takes the next number, below the minted ones, and what a person
cancels has had a number before. -/
structure Counts (d : Duo X) (i : Input) (c : Call) (offers : ℕ) : Prop where
  grows : (d.ends i.here).offers ≤ offers
  few : offers < mintedHere
  next : ∀ peer body o, c = .request peer "offer" body → X.decode Offer body = some o →
    (d.ends i.here).offers < o.transfer ∧ o.transfer ≤ offers
  cancels : ∀ peer body f, c = .request peer "cancel" body → X.decode Finished body = some f →
    f.transfer ≤ (d.ends i.here).offers ∨ mintedHere ≤ f.transfer

/-- An offer brought in the call is one of the other end's, and neither held nor under way. -/
def Brings (d : Duo X) (i : Input) (c : Call) : Prop :=
  ∀ peer env o, c = .message peer env → env.ty = "offer" → X.decode Offer env.body = some o →
    o.transfer ≤ (d.ends (!i.here)).offers ∧ o.transfer ∉ offersIn X (d.wire i.here) ∧
      ∀ (t : TransferId) (j : Incoming), (d.ends i.here).plugin.offered[t]? = some j →
        j.offeredAs ≠ o.transfer

theorem Counts.hostNumbered (h : d.Counts i c offers) : SharePlugin.HostNumbered X c := by
  unfold SharePlugin.HostNumbered
  split
  · rintro rfl o ho
    exact (h.next _ _ o rfl ho).2.trans_lt h.few
  · trivial

theorem Tidy.perform_here (h : d.Tidy i.here) (hc : d.Counts i c offers) (hb : d.Brings i c) :
    (d.perform serves i c offers).Tidy i.here where
  numbered := by
    rw [perform_ends_here]
    have hminted : (d.ends i.here).minted ≤ (d.cx serves i).nextTransfer := le_rfl
    exact (h.numbered.call hminted hc.hostNumbered).1
  mine := by
    rw [perform_ends_here]
    intro n o ho
    rcases SharePlugin.sending_of_call ho with hold | ⟨peer, body, offer, hreq, hdec, rfl⟩
    · exact (h.mine n o hold).trans hc.grows
    · exact (hc.next peer body offer hreq hdec).2
  few := by
    rw [perform_ends_here]
    exact hc.few
  once := by
    rw [perform_ends_here]
    intro t t' j j' hj hj' heq
    rcases SharePlugin.offered_of_call hj with hj | ⟨peer, env, o, hm, hty, hdec, rfl, ho⟩
    · rcases SharePlugin.offered_of_call hj' with hj' | ⟨peer, env, o, hm, hty, hdec, rfl, ho⟩
      · exact h.once t t' j j' hj hj' heq
      · exact ((hb peer env o hm hty hdec).2.2 t j hj (heq.trans ho)).elim
    · rcases SharePlugin.offered_of_call hj' with hj' | ⟨_, _, _, -, -, -, rfl, -⟩
      · exact ((hb peer env o hm hty hdec).2.2 t' j' hj' (heq.symm.trans ho)).elim
      · rfl
  held := by
    rw [perform_ends_here, perform_ends_other]
    intro t j hj
    rcases SharePlugin.offered_of_call hj with hj | ⟨peer, env, o, hm, hty, hdec, rfl, ho⟩
    · exact h.held t j hj
    · rw [ho]
      exact (hb peer env o hm hty hdec).1
  bears := by
    rw [perform_wire_here]
    exact h.bears
  fresh := by
    rw [perform_wire_here, perform_ends_here, perform_ends_other]
    intro n hn
    refine ⟨(h.fresh n hn).1, ?_⟩
    intro t j hj
    rcases SharePlugin.offered_of_call hj with hj | ⟨peer, env, o, hm, hty, hdec, rfl, ho⟩
    · exact (h.fresh n hn).2 t j hj
    · rw [ho]
      rintro rfl
      exact (hb peer env o hm hty hdec).2.1 hn
  nodup := by
    rw [perform_wire_here]
    exact h.nodup
  known := by
    rw [perform_wire_here, perform_ends_here, perform_ends_other]
    intro m hm n hn
    have hold := h.known m hm n hn
    exact ⟨fun hof => (hold.1 hof).trans hc.grows, hold.2⟩
  order := by
    rw [perform_wire_here]
    exact h.order

/-- What may go out of one end next, where its offers are then numbered up to `offers`: nothing, an
offer under a new number, or a message that names its transfer by a number that was given before. -/
inductive Adds (d : Duo X) (here : Bool) (offers : ℕ) : List Parcel → Prop where
  | nothing : Adds d here offers []
  | offer {m : Parcel} {n : ℕ} (bears : m.Bears X (!here)) (nameless : m.names X = none)
      (number : offersIn X [m] = [n]) (low : (d.ends here).offers < n) (high : n ≤ offers) :
      Adds d here offers [m]
  | about {m : Parcel} {n : ℕ} (bears : m.Bears X (!here)) (plain : offersIn X [m] = [])
      (named : m.names X = some n) (theirs : m.offerer = (!here) → n ≤ (d.ends (!here)).offers)
      (ours : m.offerer = here → n ≤ (d.ends here).offers ∨ mintedHere ≤ n) :
      Adds d here offers [m]

namespace Adds
variable {here : Bool} {new : List Parcel} {m : Parcel} {n : ℕ}

theorem bears (h : d.Adds here offers new) (hm : m ∈ new) : m.Bears X (!here) := by
  cases h with
  | nothing => cases hm
  | offer hbears | about hbears =>
    rw [List.mem_singleton.mp hm]
    exact hbears

theorem number (h : d.Adds here offers new) (hn : n ∈ offersIn X new) :
    (d.ends here).offers < n ∧ n ≤ offers := by
  cases h with
  | nothing => cases hn
  | offer _ _ hnumber hlow hhigh =>
    rw [hnumber, List.mem_singleton] at hn
    rw [hn]
    exact ⟨hlow, hhigh⟩
  | about _ hplain =>
    rw [hplain] at hn
    cases hn

theorem nodup (h : d.Adds here offers new) : (offersIn X new).Nodup := by
  cases h with
  | nothing => exact List.nodup_nil
  | offer _ _ hnumber =>
    rw [hnumber]
    exact List.nodup_singleton _
  | about _ hplain =>
    rw [hplain]
    exact List.nodup_nil

theorem known (h : d.Adds here offers new) (hm : m ∈ new) (hn : m.names X = some n) :
    (m.offerer = (!here) → n ≤ (d.ends (!here)).offers) ∧
    (m.offerer = here → n ≤ (d.ends here).offers ∨ mintedHere ≤ n) := by
  cases h with
  | nothing => cases hm
  | offer _ hnameless =>
    rw [List.mem_singleton.mp hm, hnameless] at hn
    cases hn
  | about _ _ hnamed htheirs hours =>
    rw [List.mem_singleton.mp hm] at hn ⊢
    obtain rfl := Option.some.inj (hn.symm.trans hnamed)
    exact ⟨htheirs, hours⟩

theorem pairwise {R : Parcel → Parcel → Prop} (h : d.Adds here offers new) : new.Pairwise R := by
  cases h with
  | nothing => exact .nil
  | offer | about => exact List.pairwise_singleton _ _

end Adds

theorem mem_offersIn {ms : List Parcel} {m : Parcel} {n : ℕ} (hm : m ∈ ms)
    (hn : n ∈ offersIn X [m]) : n ∈ offersIn X ms := by
  obtain ⟨a, b, rfl⟩ := List.append_of_mem hm
  rw [← List.singleton_append, offersIn_append, offersIn_append]
  exact List.mem_append_right _ (List.mem_append_left _ hn)

theorem Counts.sends (serves : Bool → EffectSet) (hc : d.Counts i c offers) (h : d.Tidy i.here) :
    d.Adds i.here offers ((Plugin.call (d.ends i.here).plugin (d.cx serves i) c).2.1.sends.map
      (⟨·, (d.ends i.here).plugin.offererOf i.here c⟩)) := by
  have hsilent : (d.cx serves i).sends = [] := rfl
  rcases SharePlugin.sends_of_call (d.ends i.here).plugin c hsilent
    i.here with hs | ⟨peer, body, o, m, rfl, hdec, hs, hty, hbody⟩ | ⟨m, n, hs, hty, hbears, hn, ho⟩
  · rw [hs]
    exact .nothing
  · obtain ⟨hlow, hhigh⟩ := hc.next peer body o rfl hdec
    have hdec' : X.decode Offer m.body = some o := by rw [hbody]; exact hdec
    rw [hs]
    apply Adds.offer (.offer hty hdec' (by simp [SharePlugin.offererOf])) ?_ ?_ hlow hhigh
    · simp [Parcel.names, hty]
    · simp [offersIn, hty, hdec']
  · rw [hs]
    apply Adds.about hbears (by simp [offersIn, hty]) hn
    · rcases ho with ⟨-, t, j, hj, rfl⟩ | ⟨htag, -⟩
      · exact fun _ => h.held t j hj
      · intro hof
        rw [htag] at hof
        cases hh : i.here <;> simp [hh] at hof
    · rcases ho with ⟨htag, -⟩ | ⟨-, hown⟩
      · intro hof
        rw [htag] at hof
        cases hh : i.here <;> simp [hh] at hof
      · rcases hown with ⟨o, ho⟩ | ⟨peer, body, f, hreq, hdec, rfl⟩
        · exact fun _ => .inl (h.mine n o ho)
        · exact fun _ => hc.cancels peer body f hreq hdec

theorem Tidy.perform_other (h : d.Tidy (!i.here)) (hown : d.Tidy i.here)
    (hc : d.Counts i c offers) : (d.perform serves i c offers).Tidy (!i.here) := by
  have hnew := hc.sends serves hown
  have hends : ((d.perform serves i c offers).ends (!!i.here)).offers = offers := by
    rw [Bool.not_not, perform_ends_here]
  have hheld := h.held
  have hfresh := h.fresh
  have hknown := h.known
  rw [Bool.not_not] at hheld hfresh hknown
  refine ⟨?_, ?_, ?_, ?_, ?_, ?_, ?_, ?_, ?_, ?_⟩
  · rw [perform_ends_other]
    exact h.numbered
  · rw [perform_ends_other]
    exact h.mine
  · rw [perform_ends_other]
    exact h.few
  · rw [perform_ends_other]
    exact h.once
  · rw [perform_ends_other, hends]
    intro t j hj
    exact (hheld t j hj).trans hc.grows
  · rw [perform_wire_other]
    intro m hm
    rcases List.mem_append.mp hm with hm | hm
    · exact h.bears m hm
    · exact hnew.bears hm
  · rw [perform_wire_other, perform_ends_other, hends, offersIn_append]
    intro n hn
    rcases List.mem_append.mp hn with hn | hn
    · exact ⟨(hfresh n hn).1.trans hc.grows, (hfresh n hn).2⟩
    · obtain ⟨hlow, hhigh⟩ := hnew.number hn
      exact ⟨hhigh, fun t j hj => Nat.ne_of_lt ((hheld t j hj).trans_lt hlow)⟩
  · rw [perform_wire_other, offersIn_append]
    refine List.nodup_append.mpr ⟨h.nodup, hnew.nodup, ?_⟩
    intro n hn n' hn'
    exact Nat.ne_of_lt ((hfresh n hn).1.trans_lt (hnew.number hn').1)
  · rw [perform_wire_other, perform_ends_other, hends]
    intro m hm n hn
    rw [Bool.not_not]
    rcases List.mem_append.mp hm with hm | hm
    · obtain ⟨htheirs, hours⟩ := hknown m hm n hn
      exact ⟨htheirs, fun hof => (hours hof).imp_left hc.grows.trans'⟩
    · obtain ⟨htheirs, hours⟩ := hnew.known hm hn
      exact ⟨htheirs, fun hof => (hours hof).imp_left hc.grows.trans'⟩
  · rw [perform_wire_other]
    refine List.pairwise_append.mpr ⟨h.order, hnew.pairwise, ?_⟩
    intro m hm m' hm' n hn hof hoffer
    rw [Bool.not_not] at hof
    obtain ⟨hlow, hhigh⟩ := hnew.number (mem_offersIn hm' hoffer)
    have hbefore := (hknown m hm n hn).2 hof
    have hfew := hc.few
    omega

/-- The host numbers its offers below the half of the range the core mints from, and a person
cancels only what has had a number. -/
def wellNumbered (d : Duo X) (i : Input) : Bool :=
  match i.deed with
  | .offer .. => (d.ends i.here).offers + 1 < mintedHere
  | .cancel f => f.transfer ≤ (d.ends i.here).offers || mintedHere ≤ f.transfer
  | _ => true

section Runs
variable {who : Bool → DeviceId}

/-- Taking the oldest message off the wire leaves both ends in order. -/
theorem Tidy.taken {m : Parcel} {rest : List Parcel} (hw : d.wire i.here = m :: rest)
    (h : ∀ here, d.Tidy here) (here : Bool) :
    Tidy { d with wire := Function.update d.wire i.here rest } here := by
  by_cases he : here = i.here
  · subst he
    have hd := h i.here
    have hwire : (Function.update d.wire i.here rest) i.here = rest := Function.update_self ..
    have hin : (offersIn X (d.wire i.here)) = offersIn X [m] ++ offersIn X rest := by
      rw [hw, ← offersIn_append]
      rfl
    refine ⟨hd.numbered, hd.mine, hd.few, hd.once, hd.held, ?_, ?_, ?_, ?_, ?_⟩
    all_goals
      dsimp only
      rw [hwire]
    · exact fun m' hm' => hd.bears m' (hw ▸ List.mem_cons_of_mem m hm')
    · exact fun n hn => hd.fresh n (hin ▸ List.mem_append_right _ hn)
    · have hnodup := hd.nodup
      rw [hin] at hnodup
      exact (List.nodup_append.mp hnodup).2.1
    · exact fun m' hm' => hd.known m' (hw ▸ List.mem_cons_of_mem m hm')
    · have horder := hd.order
      rw [hw] at horder
      exact (List.pairwise_cons.mp horder).2
  · have hd := h here
    have hwire : (Function.update d.wire i.here rest) here = d.wire here :=
      Function.update_of_ne he ..
    refine ⟨hd.numbered, hd.mine, hd.few, hd.once, hd.held, ?_, ?_, ?_, ?_, ?_⟩
    all_goals
      dsimp only
      rw [hwire]
    · exact hd.bears
    · exact hd.fresh
    · exact hd.nodup
    · exact hd.known
    · exact hd.order

theorem Tidy.step_both (h : ∀ here, d.Tidy here) (hi : d.wellNumbered i) (here : Bool) :
    (d.step who serves i).Tidy here := by
  have both : ∀ {d' : Duo X} {c : Call} {offers : ℕ}, (∀ here, d'.Tidy here) →
      d'.Counts i c offers → d'.Brings i c → (d'.perform serves i c offers).Tidy here := by
    intro d' c offers hd hc hb
    by_cases he : here = i.here
    · rw [he]
      exact (hd i.here).perform_here hc hb
    · rw [Bool.eq_not.mpr he]
      exact (hd (!i.here)).perform_other (hd i.here) hc
  have hfew := (h i.here).few
  unfold step
  dsimp only
  split
  · rename_i name size mime hdeed
    have hbelow : (d.ends i.here).offers + 1 < mintedHere := by
      simpa [wellNumbered, hdeed] using hi
    refine both h ⟨Nat.le_succ _, hbelow, ?_, by simp⟩ nofun
    intro peer body o he ho
    cases he
    rw [X.decode_encode, Option.some.injEq] at ho
    subst ho
    exact ⟨Nat.lt_succ_self _, le_rfl⟩
  · exact both h ⟨le_rfl, hfew, by simp, by simp⟩ nofun
  · exact both h ⟨le_rfl, hfew, by simp, by simp⟩ nofun
  · rename_i f hdeed
    refine both h ⟨le_rfl, hfew, by simp, ?_⟩ nofun
    intro peer body f' he hf'
    cases he
    rw [X.decode_encode, Option.some.injEq] at hf'
    subst hf'
    simpa [wellNumbered, hdeed] using hi
  · exact both h ⟨le_rfl, hfew, nofun, nofun⟩ nofun
  · exact both h ⟨le_rfl, hfew, nofun, nofun⟩ nofun
  · split
    · exact h here
    · rename_i m rest hw
      refine both (Tidy.taken hw h) ⟨le_rfl, hfew, nofun, nofun⟩ ?_
      intro peer env o he hty ho
      cases he
      have hhead : o.transfer ∈ offersIn X [m] := by
        have hty' : m.message.ty = "offer" := hty
        have ho' : X.decode Offer m.message.body = some o := ho
        simp [offersIn, hty', ho']
      have hin : (offersIn X (d.wire i.here)) = offersIn X [m] ++ offersIn X rest := by
        rw [hw, ← offersIn_append]
        rfl
      have hmem : o.transfer ∈ offersIn X (d.wire i.here) := hin ▸ List.mem_append_left _ hhead
      have hfresh := (h i.here).fresh _ hmem
      refine ⟨hfresh.1, ?_, hfresh.2⟩
      have hwire : (Function.update d.wire i.here rest) i.here = rest := Function.update_self ..
      dsimp only
      rw [hwire]
      intro hrest
      have hnodup := (h i.here).nodup
      rw [hin] at hnodup
      exact (List.nodup_append.mp hnodup).2.2 _ hhead _ hrest rfl

/-- Both ends are in order in every state that two devices reach. -/
theorem tidy_run (is : List Input)
    (h : Lib.Along (step who serves) (fun d i => d.wellNumbered i) (Duo.fresh X) is) (here : Bool) :
    (Lib.run (step who serves) (Duo.fresh X) is).Tidy here :=
  h.inv (I := fun d => ∀ here, d.Tidy here) (fun _ _ hd hi => Tidy.step_both hd hi) tidy_fresh here

end Runs
end Duo
end Acrylius
