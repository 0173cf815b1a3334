import Acrylius.Daemon.Downloads
import Acrylius.Plugins.Held

/-! Offers waiting for an answer: those the host lists (`FileBulk::pending`) against those the share
plugin has. The host hears of an offer from the events that the core announces, which a task of
`main` takes one by one. -/
namespace Acrylius
open Proto Std Share

namespace Downloads.World

def pending (s : World) : List Offer := s.offers.toList.map fun e => e.2.2

def peerFor (s : World) (transfer : TransferId) : Option String := (s.offers[transfer]?).map (·.1)

/-- The loop takes an event: the task of a transfer that is over is no longer running. -/
def took (s : World) : Event → World
  | .bulkFinished transfer _ _ =>
    { s with
      reports := s.reports.erase transfer
      running := Function.update s.running transfer none }
  | _ => s

def Fewer (s s' : World) : Prop :=
  ∀ (x : TransferId) (v : String × Offer), s'.offers[x]? = some v → s.offers[x]? = some v

namespace Fewer
variable {s s' : World}

theorem same (h : s'.offers = s.offers) : Fewer s s' := by
  intro x v hv
  rwa [h] at hv

theorem erase (transfer : TransferId) (h : s'.offers = s.offers.erase transfer) : Fewer s s' := by
  intro x v hv
  rw [h] at hv
  exact (Lib.getElem?_of_erase hv).2

end Fewer

theorem act_fewer (s : World) (i : ℕ) (t : Task) (a : Answer) : Fewer s (s.act i t a) := by
  unfold act
  split
  all_goals
    try dsimp only
    repeat' split
  all_goals first
    | exact .same rfl
    | exact .erase t.transfer rfl

theorem proceed_fewer (s : World) (i : ℕ) (a : Answer) : Fewer s (s.proceed i a) := by
  unfold proceed
  split
  · split
    · exact .same rfl
    · exact s.act_fewer i _ a
  · exact .same rfl

theorem stop_fewer (s : World) (i : ℕ) (a : Answer) : Fewer s (s.stop i a) := by
  unfold stop
  repeat' split
  all_goals exact .same rfl

theorem bulkCancel_offers (s : World) (transfer : TransferId) :
    (s.bulkCancel transfer).offers = s.offers.erase transfer := by
  unfold bulkCancel
  split
  · rfl
  · rfl

theorem took_offers (s : World) (e : Event) : (s.took e).offers = s.offers := by
  unfold took
  split
  · rfl
  · rfl

end Downloads.World

/-- The core, what the host keeps, and the events that the task of `main` has yet to take. -/
structure Daemon (X : Crates) where
  core : Core X (Builtin X)
  files : Downloads.World
  events : List UiEvent

namespace Daemon
variable {X : Crates}

/-- `Runtime::apply`, of what reaches the host's table or the screen. -/
def apply (d : Daemon X) : Action → Daemon X
  | .ui e => { d with events := d.events ++ [e] }
  | .bulkListen transfer _ _ expectBytes =>
    { d with files := d.files.bulkListen transfer expectBytes }
  | .bulkCancel transfer => { d with files := d.files.bulkCancel transfer }
  | _ => d

def handle (d : Daemon X) (i : Core.Input X) : Daemon X :=
  (d.core.handle i).2.actions.foldl apply
    { d with core := (d.core.handle i).1, files := d.files.took i.event }

/-- The task of `main` takes an event, and notes an offer. -/
def tell (d : Daemon X) : Daemon X :=
  match d.events with
  | [] => d
  | e :: rest =>
    match e.offered X with
    | some (peer, offer) => { d with events := rest, files := d.files.noteOffer peer.str offer }
    | none => { d with events := rest }

inductive Step (X : Crates) where
  | handle (i : Core.Input X)
  | tell
  /-- `FileBulk::forget` by anyone else: an offer is rejected here, or a sending ends. -/
  | forget (transfer : TransferId)
  | proceed (task : ℕ) (a : Downloads.Answer)
  | stop (task : ℕ) (a : Downloads.Answer)

def step (d : Daemon X) : Step X → Daemon X
  | .handle i => d.handle i
  | .tell => d.tell
  | .forget transfer => { d with files := d.files.forget transfer }
  | .proceed i a => { d with files := d.files.proceed i a }
  | .stop i a => { d with files := d.files.stop i a }

def start (b : CoreBuilder X (Builtin X)) (files : String → Option Bytes) : Daemon X :=
  ⟨b.build, .new files, []⟩

/-- Every offer that is listed is one the share plugin has, of the peer who is to get the answer. -/
def Answerable (d : Daemon X) : Prop :=
  ∀ offer ∈ d.files.pending, ∃ peer, d.core.Offered (peer, offer) ∧
    d.files.peerFor offer.transfer = some peer.str

def untold (d : Daemon X) : List (DeviceId × Offer) := d.events.filterMap (UiEvent.offered X)

/-- The event that announces the offer is yet to be taken. -/
def Untold (d : Daemon X) (x : TransferId) : Prop := ∃ e ∈ d.untold, e.2.transfer = x

/-- The plugin loses no offer that is listed or is going to be. -/
def Timely (d : Daemon X) : Step X → Prop
  | .handle i => ∀ x, (d.core.Loses i x → d.files.offers[x]? = none ∧ ¬d.Untold x) ∧
      (d.core.Cancels i x → ¬d.Untold x)
  | _ => True

/-- What is listed or going to be is there for an answer. -/
structure Kept (d : Daemon X) : Prop where
  listed : ∀ x peer offer, d.files.offers[x]? = some (peer, offer) →
    offer.transfer = x ∧ ∃ id : DeviceId, id.str = peer ∧ d.core.Offered (id, offer)
  untold : ∀ e ∈ d.untold, d.core.Offered e

theorem Kept.answerable {d : Daemon X} (h : d.Kept) : d.Answerable := by
  intro offer hmem
  unfold Downloads.World.pending at hmem
  obtain ⟨⟨x, peer, offer'⟩, hentry, rfl⟩ := List.mem_map.mp hmem
  rw [ExtTreeMap.mem_toList_iff_getElem?_eq_some] at hentry
  obtain ⟨rfl, id, rfl, hoffered⟩ := h.listed x peer offer' hentry
  refine ⟨id, hoffered, ?_⟩
  unfold Downloads.World.peerFor
  rw [hentry]
  rfl

theorem start_kept (b : CoreBuilder X (Builtin X)) (files : String → Option Bytes) :
    (start b files).Kept := by
  constructor
  · intro x peer offer h
    simp [start, Downloads.World.new] at h
  · intro e he
    cases he

section Applying
variable (d : Daemon X) (as : List Action)

theorem foldl_apply_core : (as.foldl apply d).core = d.core := by
  induction as generalizing d with
  | nil => rfl
  | cons a as ih =>
    rw [List.foldl_cons, ih]
    cases a <;> rfl

theorem foldl_apply_untold :
    (as.foldl apply d).untold = d.untold ++ spoken (UiEvent.offered X) as := by
  induction as generalizing d with
  | nil => simp [spoken]
  | cons a as ih =>
    rw [List.foldl_cons, ih]
    cases a with
    | ui e =>
      cases he : e.offered X <;> simp [apply, untold, spoken, he]
    | _ => rfl

theorem foldl_apply_listed {x : TransferId} {v : String × Offer}
    (h : (as.foldl apply d).files.offers[x]? = some v) :
    d.files.offers[x]? = some v ∧ .bulkCancel x ∉ as := by
  induction as generalizing d with
  | nil => exact ⟨h, List.not_mem_nil⟩
  | cons a as ih =>
    obtain ⟨hlisted, hnot⟩ := ih _ h
    cases a with
    | bulkCancel t =>
      dsimp only [apply] at hlisted
      rw [Downloads.World.bulkCancel_offers] at hlisted
      obtain ⟨hne, hlisted⟩ := Lib.getElem?_of_erase hlisted
      refine ⟨hlisted, ?_⟩
      simp [hnot, hne]
    | _ => exact ⟨hlisted, by simp [hnot]⟩

end Applying

/-- A list that only shrinks stays answerable. -/
theorem Kept.fewer {d : Daemon X} (h : d.Kept) {files : Downloads.World}
    (hfewer : d.files.Fewer files) : Kept { d with files } := by
  constructor
  · intro x peer offer hlisted
    exact h.listed x peer offer (hfewer x (peer, offer) hlisted)
  · exact h.untold

/-- A turn of the loop: what the plugin takes in is announced, and what it gives up it loses. -/
theorem Kept.handle {d : Daemon X} (h : d.Kept) {i : Core.Input X} (htimely : d.Timely (.handle i)) :
    (d.handle i).Kept := by
  have hcore : (d.handle i).core = d.core.step i := foldl_apply_core _ _
  constructor
  · intro x peer offer hlisted
    obtain ⟨hbefore, hnot⟩ := foldl_apply_listed _ _ hlisted
    dsimp only at hbefore
    rw [Downloads.World.took_offers] at hbefore
    obtain ⟨rfl, id, rfl, hoffered⟩ := h.listed x peer offer hbefore
    have hloses : ¬d.core.Loses i offer.transfer := by
      intro hloses
      have hnone := ((htimely _).1 hloses).1
      rw [hbefore] at hnone
      cases hnone
    have hcancels : ¬d.core.Cancels i offer.transfer := fun h => hnot (Core.step_cancels h)
    refine ⟨rfl, id, rfl, ?_⟩
    rw [hcore]
    exact hoffered.step hloses hcancels
  · intro e he
    rw [hcore]
    have htold : (d.handle i).untold = d.untold ++ spoken (UiEvent.offered X)
        (d.core.handle i).2.actions := foldl_apply_untold _ _
    rw [htold] at he
    rcases List.mem_append.mp he with hold | hnew
    · have huntold : d.Untold e.2.transfer := ⟨e, hold, rfl⟩
      apply (h.untold e hold).step
      · intro hloses
        exact ((htimely _).1 hloses).2 huntold
      · intro hcancels
        exact (htimely _).2 hcancels huntold
    · exact Core.step_shows hnew

/-- An offer is noted under its own number, while the plugin has it. -/
theorem Kept.tell {d : Daemon X} (h : d.Kept) : d.tell.Kept := by
  unfold Daemon.tell
  split
  · exact h
  · rename_i e rest hevents
    have huntold : d.untold = (e.offered X).toList ++ rest.filterMap (UiEvent.offered X) := by
      unfold Daemon.untold
      rw [hevents]
      cases he : e.offered X <;> simp [he]
    split
    · rename_i peer offer he
      rw [he] at huntold
      constructor
      · intro x p o hlisted
        rcases Lib.getElem?_of_insert hlisted with ⟨rfl, hentry⟩ | ⟨-, hlisted⟩
        · obtain ⟨rfl, rfl⟩ := Prod.mk.inj hentry
          have hoffered := h.untold (peer, o) (by simp [huntold])
          exact ⟨rfl, peer, rfl, hoffered⟩
        · exact h.listed x p o hlisted
      · intro e' he'
        apply h.untold
        rw [huntold]
        exact List.mem_append_right _ he'
    · rename_i he
      constructor
      · exact h.listed
      · intro e' he'
        apply h.untold
        rw [huntold]
        exact List.mem_append_right _ he'

theorem Kept.step {d : Daemon X} (h : d.Kept) {x : Step X} (htimely : d.Timely x) :
    (d.step x).Kept := by
  cases x with
  | handle i => exact h.handle htimely
  | tell => exact h.tell
  | forget transfer => exact h.fewer (.erase transfer rfl)
  | proceed i a => exact h.fewer (d.files.proceed_fewer i a)
  | stop i a => exact h.fewer (d.files.stop_fewer i a)

/-- As long as no offer is lost while it is listed or going to be, each that is listed can be
answered. -/
theorem timely_answerable (b : CoreBuilder X (Builtin X)) (files : String → Option Bytes)
    (steps : List (Step X)) (h : Lib.Along step Timely (start b files) steps) :
    (Lib.run step (start b files) steps).Answerable := by
  have hkept := h.inv (fun _ _ hkept htimely => hkept.step htimely) (start_kept b files)
  exact hkept.answerable

/-- With no offer about, none can be lost. -/
theorem Timely.of_none {d : Daemon X} {i : Core.Input X} (hlist : d.files.offers.isEmpty)
    (huntold : d.untold.isEmpty) : d.Timely (.handle i) := by
  have hnone : ∀ x, ¬d.Untold x := by
    rintro x ⟨e, he, -⟩
    rw [List.isEmpty_iff.mp huntold] at he
    cases he
  intro x
  refine ⟨fun _ => ⟨?_, hnone x⟩, fun _ => hnone x⟩
  rw [ExtTreeMap.isEmpty_iff.mp hlist]
  simp

/-- Nor when a person says yes. -/
theorem Timely.of_accept {d : Daemon X} {i : Core.Input X} {peer : DeviceId} {body : Bytes}
    (he : i.event = .localCommand (.plugin peer cap "accept" body)) : d.Timely (.handle i) := by
  intro x
  constructor
  · intro h
    cases h with
    | parted share held parts =>
      unfold Core.parts at parts
      rw [he] at parts
      cases parts
    | heard share message =>
      cases message with
      | intro event =>
        rw [he] at event
        cases event
    | renumbered share message =>
      cases message with
      | intro event =>
        rw [he] at event
        cases event
    | reported share event =>
      rw [he] at event
      cases event
    | rejected share event =>
      rw [he] at event
      simp at event
  · intro h
    cases h with
    | cancelled share event =>
      rw [he] at event
      simp at event
    | waited event =>
      rw [he] at event
      cases event

end Daemon

namespace Mock

def keepingLaptop : Daemon crates :=
  .start (laptop [Builtin.share (SharePlugin.default crates)]) fun _ => none

def pictureListed : List (Daemon.Step crates) :=
  (pictureOffered [Builtin.share (SharePlugin.default crates)] (.tcpLan 1)).map .handle ++
    List.replicate 3 .tell

def phoneWithdraws : Core.Input crates :=
  at_ 3 0 (phoneSays (Lib.run Daemon.step keepingLaptop pictureListed).core "finished"
    (crates.encode (⟨1, false, "withdrawn"⟩ : Finished)))

def phoneLeaves : Core.Input crates := at_ 3 0 (.linkDown 0 .closed)

def pictureTaken : List (Daemon.Step crates) := pictureListed ++ [.handle (pictureAccepted 3)]

end Mock

/-- The picture is listed and can be answered, also once it has been accepted. -/
theorem Daemon.picture_answerable :
    (Lib.run Daemon.step Mock.keepingLaptop Mock.pictureTaken).Answerable ∧
      (Lib.run Daemon.step Mock.keepingLaptop Mock.pictureTaken).files.pending.length = 1 := by
  refine ⟨Daemon.timely_answerable _ _ _ ?_, by decide +kernel⟩
  refine ⟨.of_none ?_ ?_, .of_none ?_ ?_, .of_none ?_ ?_, trivial, trivial, trivial,
    .of_accept rfl, trivial⟩
  all_goals decide +kernel

/-- A listed offer that no share plugin holds any more is answerable by nobody. -/
theorem Daemon.lost_of_listed {m : Daemon Mock.crates} (hone : m.files.pending.length = 1)
    (hempty : m.core.plugins.all fun
      | .share p => p.offered.isEmpty
      | _ => true) : ¬ m.Answerable := by
  intro h
  obtain ⟨offer, hoffer⟩ := List.length_eq_one_iff.mp hone
  obtain ⟨peer, ⟨idx, p, hshares, inc, hinc, -⟩, -⟩ := h offer (by simp [hoffer])
  have hnone := List.all_eq_true.mp hempty _ (List.mem_of_getElem? hshares.plugin)
  dsimp only at hnone
  rw [ExtTreeMap.isEmpty_iff.mp hnone] at hinc
  simp at hinc

/-- An offer that the phone withdraws stays listed, and so does one whose phone is gone. -/
theorem Daemon.lost_offers_stay_listed :
    ¬(Lib.run Daemon.step Mock.keepingLaptop
      (Mock.pictureListed ++ [.handle Mock.phoneWithdraws])).Answerable ∧
    ¬(Lib.run Daemon.step Mock.keepingLaptop
      (Mock.pictureListed ++ [.handle Mock.phoneLeaves])).Answerable := by
  constructor
  · exact Daemon.lost_of_listed (by decide +kernel) (by decide +kernel)
  · exact Daemon.lost_of_listed (by decide +kernel) (by decide +kernel)

end Acrylius
