import Acrylius.Daemon.Downloads
import Mathlib.Algebra.BigOperators.Group.Finset.Piecewise
import Mathlib.Algebra.Order.BigOperators.Group.Finset

/-! Each transfer the runtime was told to listen for is answered once, and the handles it keeps are
of tasks it can still abort. -/
namespace Acrylius.Downloads
open Proto

def At.over : At → Bool
  | .finished _ => true
  | _ => false

def Task.owes (t : TransferId) (u : Task) : ℕ := if u.transfer = t ∧ u.pc.over = false then 1 else 0

def owes (t : TransferId) (o : Option Task) : ℕ := o.elim 0 (Task.owes t)

/-- How many tasks of a transfer have yet to report, those that were aborted among them. -/
def World.owing (s : World) (t : TransferId) : ℕ := ∑ i ∈ Finset.range s.spawned, owes t (s.tasks i)

/-- A world, the transfers it was told to listen for, and the reports its loop has taken. -/
structure Tally where
  world : World
  asked : List TransferId
  taken : List TransferId

def Step.asks : Step → List TransferId
  | .bulkListen transfer _ => [transfer]
  | _ => []

def World.takes (s : World) : Step → List TransferId
  | .takeReport => s.reports.head?.toList
  | _ => []

def Tally.step (b : Tally) (x : Step) : Tally where
  world := Downloads.step b.world x
  asked := b.asked ++ x.asks
  taken := b.taken ++ b.world.takes x

def Tally.new (files : String → Option Bytes) : Tally := ⟨.new files, [], []⟩

theorem Tally.run_world (b : Tally) (xs : List Step) :
    (Lib.run Tally.step b xs).world = Lib.run Downloads.step b.world xs := by
  induction xs generalizing b with
  | nil => rfl
  | cons x xs ih => exact ih (b.step x)

section
variable {s s' : World} {i : ℕ} {t : Task} {x : TransferId}

/-- The tasks there are and what the loop keeps of them. -/
structure Desk where
  tasks : ℕ → Option Task
  spawned : ℕ
  running : TransferId → Option ℕ
  reports : List TransferId

def World.desk (s : World) : Desk := ⟨s.tasks, s.spawned, s.running, s.reports⟩

/-- A task's turn: it goes somewhere else, or reports, or is where it stays. -/
inductive Course (s : World) (i : ℕ) (t : Task) (s' : World) : Prop where
  | on (pc : At) (under : pc.over = false)
      (desk : s'.desk = { s.desk with tasks := Function.update s.tasks i (some { t with pc }) })
  | reported (ok : Bool)
      (desk : s'.desk = { s.desk with
        tasks := Function.update s.tasks i (some { t with pc := .finished ok })
        reports := s.reports ++ [t.transfer] })
  | stays (desk : s'.desk = s.desk)

theorem act_course (s : World) (i : ℕ) (t : Task) (a : Answer) (hpc : t.pc.over = false) :
    Course s i t (s.act i t a) := by
  have on : ∀ {r : World} (pc : At), pc.over = false → r.desk = s.desk →
      Course s i t (r.goto i t pc) := by
    intro r pc hunder hdesk
    have htasks : r.tasks = s.tasks := congrArg Desk.tasks hdesk
    refine .on pc hunder ?_
    rw [← hdesk, ← htasks]
    rfl
  have reported : ∀ {r : World} (ok : Bool), r.desk = s.desk →
      Course s i t (r.finish i t ok) := by
    intro r ok hdesk
    have htasks : r.tasks = s.tasks := congrArg Desk.tasks hdesk
    have hreports : r.reports = s.reports := congrArg Desk.reports hdesk
    refine .reported ok ?_
    rw [← hdesk, ← htasks, ← hreports]
    rfl
  unfold World.act
  cases ht : t.pc with
  | listen expectBytes =>
    dsimp only
    split
    · exact on _ rfl rfl
    · exact reported _ rfl
  | reserve expectBytes names =>
    cases names with
    | nil => exact reported _ rfl
    | cons name rest =>
      dsimp only
      split_ifs
      · exact reported _ rfl
      · split
        · exact on _ rfl rfl
        · exact on _ rfl rfl
  | bind expectBytes place =>
    dsimp only
    split_ifs
    · exact on _ rfl rfl
    · exact reported _ rfl
  | accept place =>
    dsimp only
    split
    · split_ifs
      · exact on _ rfl rfl
      · exact reported _ rfl
    · exact reported _ rfl
  | waiting place =>
    dsimp only
    split_ifs
    · exact reported _ rfl
    · split
      · exact on _ rfl rfl
      · exact reported _ rfl
  | receive place =>
    dsimp only
    split
    · split_ifs
      · exact on _ rfl rfl
      · exact reported _ rfl
    · exact reported _ rfl
  | create place expectBytes =>
    dsimp only
    split_ifs <;> exact on _ rfl rfl
  | read place expectBytes file written =>
    cases a with
    | chunk plain =>
      dsimp only
      split_ifs <;> exact on _ rfl rfl
    | ends =>
      dsimp only
      split_ifs <;> exact on _ rfl rfl
    | works | fails | partly => exact on _ rfl rfl
  | write place expectBytes file written plain => cases a <;> exact on _ rfl rfl
  | rename place expectBytes file written =>
    dsimp only
    split_ifs <;> exact on _ rfl rfl
  | remove place file =>
    dsimp only
    split_ifs <;> exact on _ rfl rfl
  | forget place arrived =>
    cases arrived with
    | some whole => exact reported _ rfl
    | none => exact on _ rfl rfl
  | check place =>
    dsimp only
    split_ifs
    · exact on _ rfl rfl
    · exact reported _ rfl
  | unlink place =>
    dsimp only
    split_ifs <;> exact reported _ rfl
  | finished ok =>
    rw [ht] at hpc
    cases hpc
  | gone => exact .stays rfl

/-- What the books say: every task is of a transfer that was asked for, as many have yet to report
as were asked for and not reported, and the handles are of tasks to abort. -/
structure Tally.Balanced (b : Tally) : Prop where
  spawned : ∀ i u, b.world.tasks i = some u → i < b.world.spawned
  count : ∀ x, b.asked.count x =
    b.taken.count x + b.world.reports.count x + b.world.owing x
  handles : ∀ x i, b.world.running x = some i → ∃ u, b.world.tasks i = some u ∧ u.transfer = x ∧
    u.aborted = false ∧ (u.pc.over → x ∈ b.world.reports)
  held : ∀ i u, b.world.tasks i = some u → b.asked.count u.transfer ≤ 1 → u.aborted = false →
    u.pc.over = false → b.world.running u.transfer = some i

theorem owing_update (hi : i < s.spawned) (o : Option Task) (x : TransferId) :
    ∑ j ∈ Finset.range s.spawned, owes x (Function.update s.tasks i o j) + owes x (s.tasks i) =
      s.owing x + owes x o := by
  have hmem : i ∈ Finset.range s.spawned := Finset.mem_range.mpr hi
  have hcomp : ∀ j, owes x (Function.update s.tasks i o j) =
      Function.update (fun j => owes x (s.tasks j)) i (owes x o) j := by
    intro j
    by_cases hj : j = i
    · subst hj
      rw [Function.update_self, Function.update_self]
    · rw [Function.update_of_ne hj, Function.update_of_ne hj]
  rw [Finset.sum_congr rfl fun j _ => hcomp j, Finset.sum_update_of_mem hmem, World.owing,
    Finset.sum_eq_add_sum_sdiff_singleton_of_mem hmem fun j => owes x (s.tasks j)]
  omega

theorem update_eq_some {v u : Task} {j : ℕ} (h : Function.update s.tasks i (some v) j = some u) :
    j = i ∧ u = v ∨ j ≠ i ∧ s.tasks j = some u := by
  by_cases hj : j = i
  · subst hj
    rw [Function.update_self] at h
    exact .inl ⟨rfl, (Option.some.inj h).symm⟩
  · rw [Function.update_of_ne hj] at h
    exact .inr ⟨hj, h⟩

theorem running_bulkCancel (s : World) (x : TransferId) : (s.bulkCancel x).running x = none := by
  cases hrun : s.running x with
  | none =>
    rw [World.bulkCancel, hrun]
    exact hrun
  | some i =>
    rw [World.bulkCancel, hrun]
    exact Function.update_self ..

theorem owing_pos (hi : i < s.spawned) (ht : s.tasks i = some t) (hpc : t.pc.over = false) :
    0 < s.owing t.transfer := by
  have hone : owes t.transfer (s.tasks i) = 1 := by
    rw [ht]
    simp [owes, Task.owes, hpc]
  have hle : owes t.transfer (s.tasks i) ≤ s.owing t.transfer :=
    Finset.single_le_sum (fun j _ => Nat.zero_le (owes t.transfer (s.tasks j)))
      (Finset.mem_range.mpr hi)
  omega

namespace Tally.Balanced
variable {asked taken : List TransferId}

theorem of_desk (h : Balanced ⟨s, asked, taken⟩) (hdesk : s'.desk = s.desk) :
    Balanced ⟨s', asked, taken⟩ := by
  have htasks : s'.tasks = s.tasks := congrArg Desk.tasks hdesk
  have hspawned : s'.spawned = s.spawned := congrArg Desk.spawned hdesk
  have hrunning : s'.running = s.running := congrArg Desk.running hdesk
  have hreports : s'.reports = s.reports := congrArg Desk.reports hdesk
  have howing : ∀ x, s'.owing x = s.owing x := fun x => by
    rw [World.owing, World.owing, hspawned, htasks]
  obtain ⟨h₁, h₂, h₃, h₄⟩ := h
  dsimp only at h₁ h₂ h₃ h₄
  constructor <;> dsimp only
  · rwa [htasks, hspawned]
  · intro x
    rw [hreports, howing]
    exact h₂ x
  · rwa [hrunning, htasks, hreports]
  · rwa [htasks, hrunning]

theorem course (h : Balanced ⟨s, asked, taken⟩) (ht : s.tasks i = some t) (hpc : t.pc.over = false)
    (hc : Course s i t s') : Balanced ⟨s', asked, taken⟩ := by
  have hi := h.spawned i t ht
  have hone : ∀ x, owes x (s.tasks i) = if t.transfer = x then 1 else 0 := by
    intro x
    rw [ht]
    simp [owes, Task.owes, hpc]
  cases hc with
  | stays desk => exact h.of_desk desk
  | on pc hunder desk =>
    refine of_desk (s := { s with tasks := Function.update s.tasks i (some { t with pc }) }) ?_ desk
    refine ⟨fun j u hu => ?_, fun x => ?_, fun x j hj => ?_, fun j u hu honce hlive hu' => ?_⟩
    · rcases update_eq_some hu with ⟨rfl, -⟩ | ⟨-, hu⟩
      · exact hi
      · exact h.spawned j u hu
    · have hsum := owing_update hi (some { t with pc }) x
      have hsame : owes x (some { t with pc }) = if t.transfer = x then 1 else 0 := by
        simp [owes, Task.owes, hunder]
      rw [hone, hsame] at hsum
      have hcount := h.count x
      dsimp only [World.owing] at hcount hsum ⊢
      omega
    · obtain ⟨u, hu, hux, hlive, hover⟩ := h.handles x j hj
      dsimp only at hu hover ⊢
      by_cases hji : j = i
      · subst hji
        obtain rfl := Option.some.inj (ht.symm.trans hu)
        refine ⟨{ t with pc }, Function.update_self .., hux, hlive, fun hover' => ?_⟩
        rw [hunder] at hover'
        cases hover'
      · exact ⟨u, (Function.update_of_ne hji ..).trans hu, hux, hlive, hover⟩
    · rcases update_eq_some hu with ⟨rfl, rfl⟩ | ⟨-, hu⟩
      · exact h.held j t ht honce hlive hpc
      · exact h.held j u hu honce hlive hu'
  | reported ok desk =>
    refine of_desk (s := { s with
      tasks := Function.update s.tasks i (some { t with pc := .finished ok })
      reports := s.reports ++ [t.transfer] }) ?_ desk
    refine ⟨fun j u hu => ?_, fun x => ?_, fun x j hj => ?_, fun j u hu honce hlive hu' => ?_⟩
    · rcases update_eq_some hu with ⟨rfl, -⟩ | ⟨-, hu⟩
      · exact hi
      · exact h.spawned j u hu
    · have hsum := owing_update hi (some { t with pc := .finished ok }) x
      have hnone : owes x (some { t with pc := .finished ok }) = 0 := by
        simp [owes, Task.owes, At.over]
      rw [hone, hnone] at hsum
      have hcount := h.count x
      have hmore : (s.reports ++ [t.transfer]).count x =
          s.reports.count x + if t.transfer = x then 1 else 0 := by
        rw [List.count_append, List.count_singleton]
        simp
      dsimp only [World.owing] at hcount hsum ⊢
      rw [hmore]
      omega
    · obtain ⟨u, hu, hux, hlive, hover⟩ := h.handles x j hj
      dsimp only at hu hover ⊢
      by_cases hji : j = i
      · subst hji
        obtain rfl := Option.some.inj (ht.symm.trans hu)
        refine ⟨_, Function.update_self .., hux, hlive, fun _ => ?_⟩
        exact List.mem_append_right _ (List.mem_singleton.mpr hux.symm)
      · exact ⟨u, (Function.update_of_ne hji ..).trans hu, hux, hlive,
          fun hover' => List.mem_append_left _ (hover hover')⟩
    · rcases update_eq_some hu with ⟨rfl, rfl⟩ | ⟨-, hu⟩
      · cases hu'
      · exact h.held j u hu honce hlive hu'

theorem bulkListen (h : Balanced ⟨s, asked, taken⟩) (x : TransferId) (expectBytes : ℕ) :
    Balanced ⟨s.bulkListen x expectBytes, asked ++ [x], taken⟩ := by
  have hask : ∀ y, (asked ++ [x]).count y = asked.count y + if x = y then 1 else 0 := by
    intro y
    rw [List.count_append, List.count_singleton]
    simp
  have hold : ∀ {j u}, s.tasks j = some u → j ≠ s.spawned :=
    fun hu => Nat.ne_of_lt (h.spawned _ _ hu)
  refine ⟨fun j u hu => ?_, fun y => ?_, fun y j hj => ?_, fun j u hu honce hlive hu' => ?_⟩
  · rcases update_eq_some hu with ⟨rfl, -⟩ | ⟨-, hu⟩
    · exact Nat.lt_succ_self _
    · exact Nat.lt_succ_of_lt (h.spawned j u hu)
  · have hcount := h.count y
    have howing : (s.bulkListen x expectBytes).owing y = s.owing y + if x = y then 1 else 0 := by
      have hrest : ∀ j ∈ Finset.range s.spawned, owes y ((s.bulkListen x expectBytes).tasks j) =
          owes y (s.tasks j) := by
        intro j hj
        have hne : j ≠ s.spawned := Nat.ne_of_lt (Finset.mem_range.mp hj)
        exact congrArg (owes y) (Function.update_of_ne hne ..)
      have hnew : owes y ((s.bulkListen x expectBytes).tasks s.spawned) =
          if x = y then 1 else 0 := by
        have hself : (s.bulkListen x expectBytes).tasks s.spawned =
            some ⟨x, .listen expectBytes, false⟩ := Function.update_self ..
        rw [hself]
        simp [owes, Task.owes, At.over]
      have hspawned : (s.bulkListen x expectBytes).spawned = s.spawned + 1 := rfl
      rw [World.owing, hspawned, Finset.sum_range_succ, Finset.sum_congr rfl hrest, hnew,
        World.owing]
    have hreports : (s.bulkListen x expectBytes).reports = s.reports := rfl
    dsimp only at hcount ⊢
    rw [hask, howing, hreports]
    omega
  · by_cases hy : y = x
    · subst hy
      have hj' : Function.update s.running y (some s.spawned) y = some j := hj
      rw [Function.update_self] at hj'
      obtain rfl := Option.some.inj hj'
      refine ⟨_, Function.update_self .., rfl, rfl, fun hover => ?_⟩
      cases hover
    · have hj' : s.running y = some j := (Function.update_of_ne hy ..).symm.trans hj
      obtain ⟨u, hu, hrest⟩ := h.handles y j hj'
      exact ⟨u, (Function.update_of_ne (hold hu) ..).trans hu, hrest⟩
  · rcases update_eq_some hu with ⟨rfl, rfl⟩ | ⟨hj, hu⟩
    · exact Function.update_self ..
    · have hcount := h.count u.transfer
      have hpos := owing_pos (h.spawned j u hu) hu hu'
      dsimp only at honce hcount
      rw [hask] at honce
      have hne : u.transfer ≠ x := by
        intro hux
        rw [if_pos hux.symm] at honce
        dsimp only at hpos
        omega
      exact (Function.update_of_ne hne ..).trans (h.held j u hu (by dsimp only; omega) hlive hu')

theorem takeReport (h : Balanced ⟨s, asked, taken⟩) :
    Balanced ⟨s.takeReport, asked, taken ++ s.reports.head?.toList⟩ := by
  cases hreports : s.reports with
  | nil =>
    have hsame : s.takeReport = s := by rw [World.takeReport, hreports]
    rw [hsame, List.head?_nil, Option.toList_none, List.append_nil]
    exact h
  | cons x rest =>
    have htake : s.takeReport =
        { s with reports := rest, running := Function.update s.running x none } := by
      rw [World.takeReport, hreports]
    have hask : ∀ y, (taken ++ [x]).count y = taken.count y + if x = y then 1 else 0 := by
      intro y
      rw [List.count_append, List.count_singleton]
      simp
    have hcount : ∀ y, asked.count y =
        taken.count y + (rest.count y + if x = y then 1 else 0) + s.owing y := by
      intro y
      have hy := h.count y
      dsimp only at hy
      rw [hreports, List.count_cons] at hy
      simpa using hy
    rw [htake, List.head?_cons, Option.toList_some]
    refine ⟨h.spawned, fun y => ?_, fun y j hj => ?_, fun j u hu honce hlive hu' => ?_⟩
    · have hy := hcount y
      have howing : World.owing { s with
          reports := rest
          running := Function.update s.running x none } y = s.owing y := rfl
      dsimp only at hy ⊢
      rw [hask, howing]
      omega
    · have hne : y ≠ x := by
        rintro rfl
        cases (Function.update_self ..).symm.trans hj
      have hj' : s.running y = some j := (Function.update_of_ne hne ..).symm.trans hj
      obtain ⟨u, hu, hux, hlive, hover⟩ := h.handles y j hj'
      dsimp only at hover
      rw [hreports] at hover
      exact ⟨u, hu, hux, hlive, fun hover' => (List.mem_cons.mp (hover hover')).resolve_left hne⟩
    · have hpos := owing_pos (h.spawned j u hu) hu hu'
      have hne : u.transfer ≠ x := by
        intro hux
        have hx := hcount u.transfer
        rw [if_pos hux.symm] at hx
        dsimp only at honce hpos
        omega
      exact (Function.update_of_ne hne ..).trans (h.held j u hu honce hlive hu')

theorem bulkCancel (h : Balanced ⟨s, asked, taken⟩) (x : TransferId) :
    Balanced ⟨s.bulkCancel x, asked, taken⟩ := by
  cases hrun : s.running x with
  | none =>
    have hsame : s.bulkCancel x = s.forget x := by rw [World.bulkCancel, hrun]
    rw [hsame]
    exact h.of_desk rfl
  | some i =>
    obtain ⟨u, hu, hux, -, -⟩ := h.handles x i hrun
    dsimp only at hu
    have hdesk : (s.bulkCancel x).desk = World.desk { s with
        tasks := Function.update s.tasks i (some { u with aborted := true })
        running := Function.update s.running x none } := by
      rw [World.bulkCancel, hrun]
      dsimp only [World.abort]
      rw [hu]
      rfl
    refine of_desk ?_ hdesk
    refine ⟨fun j v hv => ?_, fun y => ?_, fun y j hj => ?_, fun j v hv honce hlive hv' => ?_⟩
    · rcases update_eq_some hv with ⟨rfl, -⟩ | ⟨-, hv⟩
      · exact h.spawned j u hu
      · exact h.spawned j v hv
    · have hsum := owing_update (h.spawned i u hu) (some { u with aborted := true }) y
      have hsame : owes y (some { u with aborted := true }) = owes y (s.tasks i) := by
        rw [hu]
        rfl
      rw [hsame] at hsum
      have hcount := h.count y
      dsimp only [World.owing] at hcount hsum ⊢
      omega
    · have hne : y ≠ x := by
        rintro rfl
        cases (Function.update_self ..).symm.trans hj
      have hj' : s.running y = some j := (Function.update_of_ne hne ..).symm.trans hj
      obtain ⟨v, hv, hvy, hrest⟩ := h.handles y j hj'
      have hji : j ≠ i := by
        rintro rfl
        obtain rfl := Option.some.inj (hu.symm.trans hv)
        exact hne (hvy.symm.trans hux)
      exact ⟨v, (Function.update_of_ne hji ..).trans hv, hvy, hrest⟩
    · rcases update_eq_some hv with ⟨rfl, rfl⟩ | ⟨hji, hv⟩
      · cases hlive
      · have hj := h.held j v hv honce hlive hv'
        have hne : v.transfer ≠ x := by
          intro hvx
          rw [hvx] at hj
          exact hji (Option.some.inj (hj.symm.trans hrun))
        exact (Function.update_of_ne hne ..).trans hj

theorem proceed (h : Balanced ⟨s, asked, taken⟩) (i : ℕ) (a : Answer) :
    Balanced ⟨s.proceed i a, asked, taken⟩ := by
  unfold World.proceed
  split
  · rename_i t ht
    split_ifs
    · exact h
    · cases hpc : t.pc.over with
      | false => exact h.course ht hpc (act_course s i t a hpc)
      | true =>
        have hstays : s.act i t a = s := by
          unfold At.over at hpc
          unfold World.act
          split at hpc
          · rename_i heq
            rw [heq]
          · cases hpc
        rw [hstays]
        exact h
  · exact h

theorem stop (h : Balanced ⟨s, asked, taken⟩) (i : ℕ) (a : Answer) :
    Balanced ⟨s.stop i a, asked, taken⟩ := by
  unfold World.stop
  split
  · rename_i t ht
    split
    · rename_i hpc
      exact h.course ht (by rw [hpc]; rfl) (.on .gone rfl rfl)
    · split_ifs with hawaits
      · have hunder : t.pc.over = false := by
          cases hpc : t.pc with
          | finished ok =>
            rw [hpc] at hawaits
            cases hawaits
          | _ => rfl
        exact h.course ht hunder (.on .gone rfl rfl)
      · exact h
    · exact h
  · exact h

theorem step {b : Tally} (h : b.Balanced) (x : Step) : (b.step x).Balanced := by
  obtain ⟨s, asked, taken⟩ := b
  cases x with
  | bulkListen x n =>
    have hstep := h.bulkListen x n
    rwa [← List.append_nil taken] at hstep
  | takeReport =>
    have hstep := h.takeReport
    rwa [← List.append_nil asked] at hstep
  | note peer offer =>
    have hstep : Balanced ⟨s.noteOffer peer offer, asked, taken⟩ := h.of_desk rfl
    rwa [← List.append_nil asked, ← List.append_nil taken] at hstep
  | forget transfer =>
    have hstep : Balanced ⟨s.forget transfer, asked, taken⟩ := h.of_desk rfl
    rwa [← List.append_nil asked, ← List.append_nil taken] at hstep
  | bulkCancel transfer =>
    have hstep := h.bulkCancel transfer
    rwa [← List.append_nil asked, ← List.append_nil taken] at hstep
  | proceed i a =>
    have hstep := h.proceed i a
    rwa [← List.append_nil asked, ← List.append_nil taken] at hstep
  | stop i a =>
    have hstep := h.stop i a
    rwa [← List.append_nil asked, ← List.append_nil taken] at hstep

theorem new (files : String → Option Bytes) : Balanced (.new files) := by
  refine ⟨fun j u hu => ?_, fun y => ?_, fun y j hj => ?_, fun j u hu => ?_⟩
  · cases hu
  · have howing : World.owing (.new files) y = 0 := Finset.sum_range_zero _
    change 0 = 0 + 0 + World.owing (.new files) y
    rw [howing]
  · cases hj
  · cases hu

end Tally.Balanced
end

/-- A transfer is reported at most as often as it was asked for, and never while its task is still
to report. A handle is of a task of its transfer that was not aborted, so that where the loop has
caught up it is of one under way; where no transfer is asked for twice, cancelling one leaves no
task of it to go on. -/
theorem every_listen_answered (files : String → Option Bytes) (xs : List Step) :
    let b := Lib.run Tally.step (.new files) xs
    b.world = Lib.run Downloads.step (.new files) xs ∧
    (∀ x, b.asked.count x = b.taken.count x + b.world.reports.count x + b.world.owing x) ∧
    (∀ x i, b.world.running x = some i → ∃ u, b.world.tasks i = some u ∧ u.transfer = x ∧
      u.aborted = false ∧ (b.world.reports = [] → u.pc.over = false)) ∧
    ∀ x, b.asked.count x ≤ 1 → ∀ i u, (b.world.bulkCancel x).tasks i = some u → u.transfer = x →
      u.aborted ∨ u.pc.over := by
  intro b
  have h : b.Balanced := Lib.run_inv (fun _ x h => h.step x) (Tally.Balanced.new files) xs
  refine ⟨Tally.run_world .., h.count, fun x i hrun => ?_, fun x honce i u hu hux => ?_⟩
  · obtain ⟨u, hu, hux, hlive, hover⟩ := h.handles x i hrun
    refine ⟨u, hu, hux, hlive, fun hcaught => ?_⟩
    rw [hcaught] at hover
    cases hpc : u.pc.over with
    | false => rfl
    | true => cases hover hpc
  · cases hlive : u.aborted with
    | true => exact .inl rfl
    | false =>
      cases hunder : u.pc.over with
      | true => exact .inr rfl
      | false =>
        have hrun := (h.bulkCancel x).held i u hu (by rwa [hux]) hlive hunder
        rw [hux] at hrun
        cases (running_bulkCancel b.world x).symm.trans hrun

end Acrylius.Downloads
