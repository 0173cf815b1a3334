import Acrylius.Daemon.Downloads

/-! Whose the files of the download directory are: each reservation is acted for by one task, which
finds at its own names its own files. -/
namespace Acrylius.Downloads
open Proto Bulk

/-- The reservation a task acts for by itself. -/
def At.held : At → Option Place
  | .bind _ p | .create p _ | .read p _ _ _ | .write p _ _ _ _ | .rename p _ _ _ | .remove p _
  | .forget p _ | .check p | .unlink p => some p
  | _ => none

def At.temp : At → Option (Place × Lib.Inode String)
  | .read p _ file _ | .write p _ file _ _ | .rename p _ file _ | .remove p file => some (p, file)
  | _ => none

def At.listed : At → Bool
  | .create .. | .read .. | .write .. | .rename .. | .remove .. | .forget .. => true
  | _ => false

/-- Files and reservations belong together. -/
structure Owned (s : World) : Prop where
  sound : s.dir.Sound
  numbers : ∀ name no, s.dir.Holds name no → no < s.reserved
  spawned : ∀ i t, s.tasks i = some t → i < s.spawned
  mine : ∀ i t p, s.tasks i = some t → t.pc.held = some p → s.dir.Holds p.dest p.no
  entry : ∀ x e, s.incoming x = some e → s.dir.Holds e.place.dest e.place.no
  alone : ∀ i j t u p q, s.tasks i = some t → s.tasks j = some u → t.pc.held = some p →
    u.pc.held = some q → p.no = q.no → i = j
  entries : ∀ x y e f, s.incoming x = some e → s.incoming y = some f →
    e.place.no = f.place.no → x = y
  shared : ∀ x e i t p, s.incoming x = some e → s.tasks i = some t → t.pc.held = some p →
    e.place.no = p.no → t.transfer = x ∧ t.pc.listed = true ∧ e.place = p
  temp : ∀ i t p file, s.tasks i = some t → t.pc.temp = some (p, file) →
    s.dir.dir (tempBeside p.dest) = some file ∧ s.dir.owner file = some p.no

def Others (no : ℕ) (o : Option ℕ) : Prop := o ≠ none ∧ o ≠ some no

namespace Owned
variable {s : World} {i : ℕ} {t : Task} {pc : At}

theorem new (files : String → Option Bytes) : Owned (.new files) := by
  constructor
  · exact Lib.Tree.sound_ofFiles files
  · rintro name no ⟨ino, -, howner⟩
    cases howner
  all_goals
    intros
    contradiction

/-- A task goes somewhere else. -/
theorem goto (h : Owned s) (ht : s.tasks i = some t)
    (hheld : ∀ p, pc.held = some p → s.dir.Holds p.dest p.no ∧
      (∀ j u q, j ≠ i → s.tasks j = some u → u.pc.held = some q → q.no ≠ p.no) ∧
      ∀ x e, s.incoming x = some e → e.place.no = p.no →
        t.transfer = x ∧ pc.listed = true ∧ e.place = p)
    (htemp : ∀ p file, pc.temp = some (p, file) →
      s.dir.dir (tempBeside p.dest) = some file ∧ s.dir.owner file = some p.no) :
    Owned (s.goto i t pc) := by
  have htask : ∀ j u, (s.goto i t pc).tasks j = some u →
      j = i ∧ u = { t with pc } ∨ j ≠ i ∧ s.tasks j = some u := by
    intro j u hu
    unfold World.goto at hu
    dsimp only at hu
    rw [Function.update_apply] at hu
    by_cases hj : j = i
    · rw [if_pos hj] at hu
      exact .inl ⟨hj, (Option.some.inj hu).symm⟩
    · rw [if_neg hj] at hu
      exact .inr ⟨hj, hu⟩
  constructor
  · exact h.sound
  · exact h.numbers
  · intro j u hu
    rcases htask j u hu with ⟨rfl, -⟩ | ⟨-, hu⟩
    · exact h.spawned j t ht
    · exact h.spawned j u hu
  · intro j u p hu hp
    rcases htask j u hu with ⟨-, rfl⟩ | ⟨-, hu⟩
    · exact (hheld p hp).1
    · exact h.mine j u p hu hp
  · exact h.entry
  · intro j k u v p q hu hv hp hq hno
    rcases htask j u hu with ⟨hj, rfl⟩ | ⟨hj, hu'⟩ <;>
      rcases htask k v hv with ⟨hk, rfl⟩ | ⟨hk, hv'⟩
    · rw [hj, hk]
    · exact absurd hno.symm ((hheld p hp).2.1 k v q hk hv' hq)
    · exact absurd hno ((hheld q hq).2.1 j u p hj hu' hp)
    · exact h.alone j k u v p q hu' hv' hp hq hno
  · exact h.entries
  · intro x e j u p he hu hp hno
    rcases htask j u hu with ⟨-, rfl⟩ | ⟨-, hu⟩
    · exact (hheld p hp).2.2 x e he hno
    · exact h.shared x e j u p he hu hp hno
  · intro j u p file hu hp
    rcases htask j u hu with ⟨-, rfl⟩ | ⟨-, hu⟩
    · exact htemp p file hp
    · exact h.temp j u p file hu hp

/-- A task goes on with what it holds, or gives it up. -/
theorem goto_on (h : Owned s) (ht : s.tasks i = some t)
    (hheld : pc.held = none ∨ pc.held = t.pc.held ∧ (t.pc.listed = true → pc.listed = true))
    (htemp : pc.temp = none ∨ pc.temp = t.pc.temp) : Owned (s.goto i t pc) := by
  apply h.goto ht
  · intro p hp
    rcases hheld with hnone | ⟨hsame, hlisted⟩
    · rw [hnone] at hp
      cases hp
    · rw [hsame] at hp
      refine ⟨h.mine i t p ht hp, ?_, ?_⟩
      · intro j u q hj hu hq hno
        exact hj (h.alone j i u t q p hu ht hq hp hno)
      · intro x e he hno
        obtain ⟨htransfer, hl, hplace⟩ := h.shared x e i t p he ht hp hno
        exact ⟨htransfer, hlisted hl, hplace⟩
  · intro p file hp
    rcases htemp with hnone | hsame
    · rw [hnone] at hp
      cases hp
    · rw [hsame] at hp
      exact h.temp i t p file ht hp

theorem report (h : Owned s) (reports : List TransferId) : Owned { s with reports } :=
  ⟨h.sound, h.numbers, h.spawned, h.mine, h.entry, h.alone, h.entries, h.shared, h.temp⟩

theorem finish (h : Owned s) (ht : s.tasks i = some t) (ok : Bool) : Owned (s.finish i t ok) := by
  have hgoto : Owned (s.goto i t (.finished ok)) := h.goto_on ht (.inl rfl) (.inl rfl)
  exact hgoto.report _

/-- Files change that are one reservation's own. -/
theorem files (h : Owned s) {dir : Dir} (no : ℕ) (hsound : dir.Sound)
    (hkeeps : Lib.Tree.Keeps (Others no) s.dir dir) (hno : no < s.reserved)
    (hnew : ∀ name n, dir.Holds name n → n = no ∨ s.dir.Holds name n)
    (hmine : ∀ j u p, s.tasks j = some u → u.pc.held = some p → p.no = no → dir.Holds p.dest no)
    (hentry : ∀ x e, s.incoming x = some e → e.place.no = no → dir.Holds e.place.dest no)
    (htemp : ∀ j u p file, s.tasks j = some u → u.pc.temp = some (p, file) → p.no = no →
      dir.dir (tempBeside p.dest) = some file ∧ dir.owner file = some no) :
    Owned { s with dir } := by
  have hother : ∀ n, n ≠ no → Others no (some n) := by
    intro n hn
    constructor
    · nofun
    · intro heq
      exact hn (Option.some.inj heq)
  constructor
  · exact hsound
  · intro name n hn
    rcases hnew name n hn with rfl | hn
    · exact hno
    · exact h.numbers name n hn
  · exact h.spawned
  · intro j u p hu hp
    by_cases hp' : p.no = no
    · rw [hp']
      exact hmine j u p hu hp hp'
    · exact hkeeps.holds (hother _ hp') (h.mine j u p hu hp)
  · intro x e he
    by_cases he' : e.place.no = no
    · rw [he']
      exact hentry x e he he'
    · exact hkeeps.holds (hother _ he') (h.entry x e he)
  · exact h.alone
  · exact h.entries
  · exact h.shared
  · intro j u p file hu hp
    by_cases hp' : p.no = no
    · rw [hp']
      exact htemp j u p file hu hp hp'
    · obtain ⟨hdir, howner⟩ := h.temp j u p file hu hp
      obtain ⟨hdir', -, howner'⟩ := hkeeps _ file hdir (by rw [howner]; exact hother _ hp')
      exact ⟨hdir', howner'.trans howner⟩

/-- The table changes: what it still lists, it listed before under the same key. -/
theorem incoming (h : Owned s) {incoming : TransferId → Option Incoming}
    (hold : ∀ x e, incoming x = some e → ∃ f, s.incoming x = some f ∧ e.place = f.place) :
    Owned { s with incoming } := by
  constructor
  · exact h.sound
  · exact h.numbers
  · exact h.spawned
  · exact h.mine
  · intro x e he
    obtain ⟨f, hf, hplace⟩ := hold x e he
    rw [hplace]
    exact h.entry x f hf
  · exact h.alone
  · intro x y e f he hf hno
    obtain ⟨e', he', hplace⟩ := hold x e he
    obtain ⟨f', hf', hplace'⟩ := hold y f hf
    rw [hplace, hplace'] at hno
    exact h.entries x y e' f' he' hf' hno
  · intro x e i t p he ht hp hno
    obtain ⟨e', he', hplace⟩ := hold x e he
    rw [hplace] at hno ⊢
    exact h.shared x e' i t p he' ht hp hno
  · exact h.temp

theorem offers (h : Owned s) (offers : Offers) : Owned { s with offers } :=
  ⟨h.sound, h.numbers, h.spawned, h.mine, h.entry, h.alone, h.entries, h.shared, h.temp⟩

theorem running (h : Owned s) (running : TransferId → Option ℕ) : Owned { s with running } :=
  ⟨h.sound, h.numbers, h.spawned, h.mine, h.entry, h.alone, h.entries, h.shared, h.temp⟩

theorem arrived (h : Owned s) (arrived : List (Place × ℕ × Bytes)) : Owned { s with arrived } :=
  ⟨h.sound, h.numbers, h.spawned, h.mine, h.entry, h.alone, h.entries, h.shared, h.temp⟩

theorem forget (h : Owned s) (transfer : TransferId) : Owned (s.forget transfer) := by
  apply (h.offers (s.offers.erase transfer)).incoming
  intro x e he
  rw [Function.update_apply] at he
  split_ifs at he
  exact ⟨e, he, rfl⟩

/-- An entry that is there goes on, with other marks. -/
theorem mark (h : Owned s) {transfer : TransferId} {e : Incoming}
    (he : s.incoming transfer = some e) (f : Incoming) (hplace : f.place = e.place) :
    Owned (s.setIncoming transfer f) := by
  apply h.incoming
  intro x g hg
  rw [Function.update_apply] at hg
  by_cases hx : x = transfer
  · rw [if_pos hx] at hg
    rw [hx, ← Option.some.inj hg]
    exact ⟨e, he, hplace⟩
  · rw [if_neg hx] at hg
    exact ⟨g, hg, rfl⟩

theorem bulkListen (h : Owned s) (transfer : TransferId) (expectBytes : ℕ) :
    Owned (s.bulkListen transfer expectBytes) := by
  have hnone : s.tasks s.spawned = none := by
    cases ht : s.tasks s.spawned with
    | none => rfl
    | some t => exact absurd (h.spawned _ t ht) (Nat.lt_irrefl _)
  have htask : ∀ j u, (s.bulkListen transfer expectBytes).tasks j = some u →
      u = ⟨transfer, .listen expectBytes, false⟩ ∧ j = s.spawned ∨ s.tasks j = some u := by
    intro j u hu
    unfold World.bulkListen at hu
    dsimp only at hu
    rw [Function.update_apply] at hu
    by_cases hj : j = s.spawned
    · rw [if_pos hj] at hu
      exact .inl ⟨(Option.some.inj hu).symm, hj⟩
    · rw [if_neg hj] at hu
      exact .inr hu
  constructor
  · exact h.sound
  · exact h.numbers
  · intro j u hu
    show j < s.spawned + 1
    rcases htask j u hu with ⟨-, hj⟩ | hu
    · omega
    · have hlt := h.spawned j u hu
      omega
  · intro j u p hu hp
    rcases htask j u hu with ⟨rfl, -⟩ | hu
    · cases hp
    · exact h.mine j u p hu hp
  · exact h.entry
  · intro j k u v p q hu hv hp hq hno
    rcases htask j u hu with ⟨rfl, -⟩ | hu
    · cases hp
    rcases htask k v hv with ⟨rfl, -⟩ | hv
    · cases hq
    exact h.alone j k u v p q hu hv hp hq hno
  · exact h.entries
  · intro x e j u p he hu hp hno
    rcases htask j u hu with ⟨rfl, -⟩ | hu
    · cases hp
    · exact h.shared x e j u p he hu hp hno
  · intro j u p file hu hp
    rcases htask j u hu with ⟨rfl, -⟩ | hu
    · cases hp
    · exact h.temp j u p file hu hp

theorem abort (h : Owned s) (i : ℕ) : Owned (s.abort i) := by
  have htask : ∀ j u, (s.abort i).tasks j = some u →
      ∃ v, s.tasks j = some v ∧ u.pc = v.pc ∧ u.transfer = v.transfer := by
    intro j u hu
    unfold World.abort at hu
    dsimp only at hu
    rw [Function.update_apply] at hu
    by_cases hj : j = i
    · rw [if_pos hj, ← hj] at hu
      obtain ⟨v, hv, rfl⟩ := Option.map_eq_some_iff.mp hu
      exact ⟨v, hv, rfl, rfl⟩
    · rw [if_neg hj] at hu
      exact ⟨u, hu, rfl, rfl⟩
  constructor
  · exact h.sound
  · exact h.numbers
  · intro j u hu
    obtain ⟨v, hv, -⟩ := htask j u hu
    exact h.spawned j v hv
  · intro j u p hu hp
    obtain ⟨v, hv, hpc, -⟩ := htask j u hu
    rw [hpc] at hp
    exact h.mine j v p hv hp
  · exact h.entry
  · intro j k u v p q hu hv hp hq hno
    obtain ⟨u', hu', hpc, -⟩ := htask j u hu
    obtain ⟨v', hv', hpc', -⟩ := htask k v hv
    rw [hpc] at hp
    rw [hpc'] at hq
    exact h.alone j k u' v' p q hu' hv' hp hq hno
  · exact h.entries
  · intro x e j u p he hu hp hno
    obtain ⟨v, hv, hpc, htransfer⟩ := htask j u hu
    rw [hpc] at hp ⊢
    rw [htransfer]
    exact h.shared x e j v p he hv hp hno
  · intro j u p file hu hp
    obtain ⟨v, hv, hpc, -⟩ := htask j u hu
    rw [hpc] at hp
    exact h.temp j v p file hv hp

theorem lt_reserved (h : Owned s) (ht : s.tasks i = some t) {p : Place}
    (hp : t.pc.held = some p) : p.no < s.reserved :=
  h.numbers _ _ (h.mine i t p ht hp)

/-- What a task holds is its own file, or nothing is there. -/
theorem clear_dest (h : Owned s) (ht : s.tasks i = some t) {p : Place} (hp : t.pc.held = some p) :
    s.dir.Clear (· ≠ some p.no) p.dest :=
  (h.mine i t p ht hp).clear (not_not.mpr rfl)

theorem clear_temp (h : Owned s) (ht : s.tasks i = some t) {p : Place} {file : Lib.Inode String}
    (hp : t.pc.temp = some (p, file)) : s.dir.Clear (· ≠ some p.no) (tempBeside p.dest) := by
  obtain ⟨hdir, howner⟩ := h.temp i t p file ht hp
  exact Lib.Tree.Holds.clear ⟨file, hdir, howner⟩ (not_not.mpr rfl)

/-- A name is reserved. -/
theorem reserve (h : Owned s) (ht : s.tasks i = some t) {name : String} {dir : Dir}
    (hdir : s.dir.createNew name s.reserved = some dir) (expectBytes : ℕ) :
    Owned ({ s with dir, reserved := s.reserved + 1 }.goto i t
      (.bind expectBytes ⟨name, s.reserved⟩)) := by
  obtain ⟨hfree, rfl⟩ : s.dir.dir name = none ∧ s.dir.add name s.reserved = dir := by
    unfold Lib.Tree.createNew at hdir
    split at hdir
    · cases hdir
    · exact ⟨‹_›, Option.some.inj hdir⟩
  have hmore : Owned { s with reserved := s.reserved + 1 } :=
    { h with numbers := fun name no hno => Nat.lt_succ_of_lt (h.numbers name no hno) }
  have hfiles : Owned { s with dir := s.dir.add name s.reserved, reserved := s.reserved + 1 } := by
    apply hmore.files s.reserved h.sound.add (Lib.Tree.keeps_add h.sound hfree)
      (Nat.lt_succ_self _)
    · intro a n ha
      exact Lib.Tree.holds_of_add ha
    · intro j u p hu hp hno
      exact absurd hno (Nat.ne_of_lt (h.lt_reserved hu hp))
    · intro x e he hno
      exact absurd hno (Nat.ne_of_lt (h.numbers _ _ (h.entry x e he)))
    · intro j u p file hu hp hno
      obtain ⟨hfile, howner⟩ := h.temp j u p file hu hp
      exact absurd hno (Nat.ne_of_lt (h.numbers _ _ ⟨file, hfile, howner⟩))
  apply hfiles.goto ht
  · intro p hp
    obtain rfl := Option.some.inj hp
    refine ⟨⟨_, Lib.Tree.add_self⟩, ?_, ?_⟩
    · intro j u q _ hu hq
      exact Nat.ne_of_lt (h.lt_reserved hu hq)
    · intro x e he hno
      exact absurd hno (Nat.ne_of_lt (h.numbers _ _ (h.entry x e he)))
  · intro p file hp
    cases hp

/-- What was reserved is listed. -/
theorem list (h : Owned s) (ht : s.tasks i = some t) {expectBytes : ℕ} {p : Place}
    (hpc : t.pc = .bind expectBytes p) (f : Incoming) (hplace : f.place = p) :
    Owned ((s.setIncoming t.transfer f).goto i t (.accept p)) := by
  have hheld : t.pc.held = some p := by
    rw [hpc]
    rfl
  -- Before it is listed, the task lets go of it.
  have hgone : Owned (s.goto i t (.accept p)) := h.goto_on ht (.inl rfl) (.inl rfl)
  have hother : ∀ x e, s.incoming x = some e → e.place.no ≠ p.no := by
    intro x e he hno
    obtain ⟨-, hlisted, -⟩ := h.shared x e i t p he ht hheld hno
    rw [hpc] at hlisted
    cases hlisted
  have hnone : ∀ j u q, (s.goto i t (.accept p)).tasks j = some u → u.pc.held = some q →
      q.no ≠ p.no := by
    intro j u q hu hq hno
    unfold World.goto at hu
    dsimp only at hu
    rw [Function.update_apply] at hu
    by_cases hj : j = i
    · rw [if_pos hj] at hu
      rw [← Option.some.inj hu] at hq
      cases hq
    · rw [if_neg hj] at hu
      exact hj (h.alone j i u t q p hu ht hq hheld hno)
  have hentry : ∀ x e, Function.update s.incoming t.transfer (some f) x = some e →
      x = t.transfer ∧ e.place = p ∨ s.incoming x = some e := by
    intro x e he
    rw [Function.update_apply] at he
    by_cases hx : x = t.transfer
    · rw [if_pos hx] at he
      rw [← Option.some.inj he]
      exact .inl ⟨hx, hplace⟩
    · rw [if_neg hx] at he
      exact .inr he
  constructor
  · exact h.sound
  · exact h.numbers
  · exact hgone.spawned
  · exact hgone.mine
  · intro x e he
    rcases hentry x e he with ⟨-, heq⟩ | he
    · rw [heq]
      exact h.mine i t p ht hheld
    · exact h.entry x e he
  · exact hgone.alone
  · intro x y e g he hg hno
    rcases hentry x e he with ⟨hx, heq⟩ | he' <;> rcases hentry y g hg with ⟨hy, hgeq⟩ | hg'
    · rw [hx, hy]
    · rw [heq] at hno
      exact absurd hno.symm (hother y g hg')
    · rw [hgeq] at hno
      exact absurd hno (hother x e he')
    · exact h.entries x y e g he' hg' hno
  · intro x e j u q he hu hq hno
    rcases hentry x e he with ⟨-, heq⟩ | he
    · rw [heq] at hno
      exact absurd hno.symm (hnone j u q hu hq)
    · exact hgone.shared x e j u q he hu hq hno
  · exact hgone.temp

theorem held_of_temp {p : Place} {file : Lib.Inode String} (h : pc.temp = some (p, file)) :
    pc.held = some p := by
  cases pc <;> cases h <;> rfl

/-- The files of what a task holds change. -/
theorem own (h : Owned s) (ht : s.tasks i = some t) {p : Place} (hp : t.pc.held = some p) {dir : Dir}
    (hsound : dir.Sound) (hkeeps : Lib.Tree.Keeps (Others p.no) s.dir dir)
    (hnew : ∀ name n, dir.Holds name n → n = p.no ∨ s.dir.Holds name n)
    (hdest : dir.Holds p.dest p.no)
    (htemp : ∀ file, t.pc.temp = some (p, file) →
      dir.dir (tempBeside p.dest) = some file ∧ dir.owner file = some p.no) :
    Owned { s with dir } := by
  have hsame : ∀ j u q, s.tasks j = some u → u.pc.held = some q → q.no = p.no → u = t ∧ q = p := by
    intro j u q hu hq hno
    obtain rfl := h.alone j i u t q p hu ht hq hp hno
    rw [ht] at hu
    obtain rfl := Option.some.inj hu
    rw [hp] at hq
    exact ⟨rfl, (Option.some.inj hq).symm⟩
  apply h.files p.no hsound hkeeps (h.lt_reserved ht hp) hnew
  · intro j u q hu hq hno
    rw [(hsame j u q hu hq hno).2]
    exact hdest
  · intro x e he hno
    rw [(h.shared x e i t p he ht hp hno).2.2]
    exact hdest
  · intro j u q file hu hq hno
    obtain ⟨rfl, rfl⟩ := hsame j u q hu (held_of_temp hq) hno
    exact htemp file hq

theorem others_le {no : ℕ} (o : Option ℕ) (h : Others no o) : o ≠ some no := h.2

theorem created (h : Owned s) (ht : s.tasks i = some t) {p : Place} {expectBytes : ℕ}
    (hpc : t.pc = .create p expectBytes)
    (hclear : s.dir.Clear (Others p.no) (tempBeside p.dest)) :
    Owned ({ s with dir := s.dir.create (tempBeside p.dest) p.no }.goto i t
      (.read p expectBytes (s.dir.opened (tempBeside p.dest)) [])) := by
  have hheld : t.pc.held = some p := by rw [hpc]; rfl
  have hfiles : Owned { s with dir := s.dir.create (tempBeside p.dest) p.no } := by
    apply h.own ht hheld h.sound.create (Lib.Tree.keeps_create h.sound hclear)
    · intro name n hn
      exact Lib.Tree.holds_of_create hn
    · exact (h.mine i t p ht hheld).create h.sound tempBeside_ne
    · intro file hfile
      rw [hpc] at hfile
      cases hfile
  apply hfiles.goto ht
  · intro q hq
    obtain rfl := Option.some.inj hq
    refine ⟨hfiles.mine i t p ht hheld, ?_, ?_⟩
    · intro j u q hj hu hq hno
      exact hj (h.alone j i u t q p hu ht hq hheld hno)
    · intro x e he hno
      obtain ⟨htransfer, -, hplace⟩ := h.shared x e i t p he ht hheld hno
      exact ⟨htransfer, rfl, hplace⟩
  · intro q file hq
    obtain ⟨rfl, rfl⟩ := Prod.mk.inj (Option.some.inj hq)
    exact Lib.Tree.create_opened

theorem wrote (h : Owned s) (ht : s.tasks i = some t) {p : Place} {expectBytes : ℕ}
    {file : Lib.Inode String} {written plain : Bytes}
    (hpc : t.pc = .write p expectBytes file written plain) (bs : Bytes)
    (hheld : pc.held = some p) (hlisted : pc.listed = true) (htemp : pc.temp = some (p, file)) :
    Owned ({ s with dir := s.dir.append file bs }.goto i t pc) := by
  have hheld' : t.pc.held = some p := by rw [hpc]; rfl
  have htemp' : t.pc.temp = some (p, file) := by rw [hpc]; rfl
  have howner := (h.temp i t p file ht htemp').2
  have hfiles : Owned { s with dir := s.dir.append file bs } := by
    apply h.own ht hheld' h.sound.append
    · apply Lib.Tree.keeps_append
      intro hother
      exact others_le _ hother howner
    · intro name n hn
      exact .inr hn
    · exact h.mine i t p ht hheld'
    · intro file' hfile'
      exact h.temp i t p file' ht hfile'
  apply hfiles.goto_on ht
  · rw [hheld, hheld']
    exact .inr ⟨rfl, fun _ => hlisted⟩
  · rw [htemp, htemp']
    exact .inr rfl

theorem renamed (h : Owned s) (ht : s.tasks i = some t) {p : Place} {expectBytes : ℕ}
    {file : Lib.Inode String} {written : Bytes} (hpc : t.pc = .rename p expectBytes file written)
    (arrived : Option (ℕ × Bytes)) :
    Owned ({ s with dir := s.dir.rename (tempBeside p.dest) p.dest }.goto i t
      (.forget p arrived)) := by
  have hheld : t.pc.held = some p := by rw [hpc]; rfl
  have htemp : t.pc.temp = some (p, file) := by rw [hpc]; rfl
  obtain ⟨hdir, howner⟩ := h.temp i t p file ht htemp
  have hgoto : Owned (s.goto i t (.forget p arrived)) :=
    h.goto_on ht (.inr ⟨hheld.symm, fun _ => rfl⟩) (.inl rfl)
  have htask : (s.goto i t (.forget p arrived)).tasks i = some { t with pc := .forget p arrived } :=
    Function.update_self ..
  apply hgoto.own htask (p := p) rfl h.sound.rename
  · apply Lib.Tree.Keeps.mono _ others_le
    exact Lib.Tree.keeps_rename (h.clear_temp ht htemp) (h.clear_dest ht hheld)
  · intro name n hn
    rcases Lib.Tree.holds_of_rename hn with ⟨ino, hino, hno⟩ | hn
    · rw [hdir] at hino
      rw [← Option.some.inj hino, howner] at hno
      exact .inl (Option.some.inj hno).symm
    · exact .inr hn
  · refine ⟨file, Lib.Tree.rename_target hdir, ?_⟩
    rw [Lib.Tree.rename_owner]
    exact howner
  · intro file' hfile'
    cases hfile'

theorem removed (h : Owned s) (ht : s.tasks i = some t) {p : Place} {file : Lib.Inode String}
    (hpc : t.pc = .remove p file) :
    Owned ({ s with dir := s.dir.remove (tempBeside p.dest) }.goto i t (.forget p none)) := by
  have hheld : t.pc.held = some p := by rw [hpc]; rfl
  have htemp : t.pc.temp = some (p, file) := by rw [hpc]; rfl
  have hgoto : Owned (s.goto i t (.forget p none)) :=
    h.goto_on ht (.inr ⟨hheld.symm, fun _ => rfl⟩) (.inl rfl)
  have htask : (s.goto i t (.forget p none)).tasks i = some { t with pc := .forget p none } :=
    Function.update_self ..
  apply hgoto.own htask (p := p) rfl h.sound.remove
  · exact (Lib.Tree.keeps_remove (h.clear_temp ht htemp)).mono others_le
  · intro name n hn
    exact .inr (Lib.Tree.holds_of_remove hn)
  · exact (h.mine i t p ht hheld).remove tempBeside_ne
  · intro file' hfile'
    cases hfile'

theorem unlinked (h : Owned s) (ht : s.tasks i = some t) {p : Place} (hpc : t.pc = .unlink p) :
    Owned ({ s with dir := s.dir.remove p.dest }.finish i t false) := by
  have hheld : t.pc.held = some p := by rw [hpc]; rfl
  have hdone : Owned (s.finish i t false) := h.finish ht false
  have htask : ∀ j u q, (s.finish i t false).tasks j = some u → u.pc.held = some q →
      q.no ≠ p.no := by
    intro j u q hu hq hno
    have hu' : Function.update s.tasks i (some { t with pc := .finished false }) j = some u := hu
    rw [Function.update_apply] at hu'
    by_cases hj : j = i
    · rw [if_pos hj] at hu'
      rw [← Option.some.inj hu'] at hq
      cases hq
    · rw [if_neg hj] at hu'
      exact hj (h.alone j i u t q p hu' ht hq hheld hno)
  apply hdone.files p.no h.sound.remove
  · exact (Lib.Tree.keeps_remove (h.clear_dest ht hheld)).mono others_le
  · exact h.lt_reserved ht hheld
  · intro name n hn
    exact .inr (Lib.Tree.holds_of_remove hn)
  · intro j u q hu hq hno
    exact absurd hno (htask j u q hu hq)
  · intro x e he hno
    obtain ⟨-, hlisted, -⟩ := h.shared x e i t p he ht hheld hno
    rw [hpc] at hlisted
    cases hlisted
  · intro j u q file hu hq hno
    exact absurd hno (htask j u q hu (held_of_temp hq))

/-- A connection is taken by the one task that will act for its reservation. -/
theorem took (h : Owned s) (ht : s.tasks i = some t) {e : Incoming}
    (he : s.incoming t.transfer = some e) (f : Incoming) (hplace : f.place = e.place)
    (hsole : ∀ j u q, s.tasks j = some u → u.pc.held = some q → q.no ≠ e.place.no)
    (expectBytes : ℕ) :
    Owned ((s.setIncoming t.transfer f).goto i t (.create e.place expectBytes)) := by
  apply (h.mark he f hplace).goto ht
  · intro p hp
    obtain rfl := Option.some.inj hp
    refine ⟨h.entry _ e he, ?_, ?_⟩
    · intro j u q _ hu hq
      exact hsole j u q hu hq
    · intro x g hg hno
      have hg' : Function.update s.incoming t.transfer (some f) x = some g := hg
      rw [Function.update_apply] at hg'
      by_cases hx : x = t.transfer
      · rw [if_pos hx] at hg'
        rw [← Option.some.inj hg']
        exact ⟨hx.symm, rfl, hplace⟩
      · rw [if_neg hx] at hg'
        exact absurd (h.entries x _ g e hg' he hno) hx
  · intro p file hp
    cases hp

theorem act_reserve (h : Owned s) (ht : s.tasks i = some t) (a : Answer) {expectBytes : ℕ}
    {names : List String} (hpc : t.pc = .reserve expectBytes names) : Owned (s.act i t a) := by
  have hfinish : Owned (s.finish i t false) := h.finish ht false
  unfold World.act
  rw [hpc]
  cases names with
  | nil => exact hfinish
  | cons name rest =>
    dsimp only
    by_cases ha : a ≠ .works
    · rw [if_pos ha]
      exact hfinish
    · rw [if_neg ha]
      split
      · rename_i dir hdir
        exact h.reserve ht hdir expectBytes
      · exact h.goto_on ht (.inl rfl) (.inl rfl)

theorem act_connects (h : Owned s) (ht : s.tasks i = some t) (a : Answer) {p : Place}
    (hpc : t.pc = .accept p ∨ t.pc = .waiting p) : Owned (s.act i t a) := by
  have hfinish : Owned (s.finish i t false) := h.finish ht false
  unfold World.act
  rcases hpc with hpc | hpc
  · rw [hpc]
    dsimp only
    split
    · rename_i e he
      split_ifs
      · exact (h.mark he { e with listening := false } rfl).goto_on ht (.inl rfl) (.inl rfl)
      · exact hfinish
    · exact hfinish
  · rw [hpc]
    dsimp only
    split_ifs
    · exact hfinish
    · split
      · rename_i e he
        exact (h.mark he { e with connected := true } rfl).goto_on ht (.inl rfl) (.inl rfl)
      · exact hfinish

theorem act_receive (h : Owned s) (ht : s.tasks i = some t) (a : Answer) {p : Place}
    (hpc : t.pc = .receive p)
    (hsole : ∀ e, s.incoming t.transfer = some e → e.connected = true →
      ∀ j u q, s.tasks j = some u → u.pc.held = some q → q.no ≠ e.place.no) :
    Owned (s.act i t a) := by
  have hfinish : Owned (s.finish i t false) := h.finish ht false
  unfold World.act
  rw [hpc]
  dsimp only
  split
  · rename_i e he
    split_ifs with hconnected
    · exact h.took ht he { e with connected := false } rfl (hsole e he hconnected) _
    · exact hfinish
  · exact hfinish

/-- A task that goes on with its reservation. -/
theorem goto_holding (h : Owned s) (ht : s.tasks i = some t) (hheld : pc.held = t.pc.held)
    (hlisted : pc.listed = t.pc.listed) (htemp : pc.temp = none ∨ pc.temp = t.pc.temp) :
    Owned (s.goto i t pc) :=
  h.goto_on ht (.inr ⟨hheld, fun ht => hlisted.trans ht⟩) htemp

/-- The file is open, and stays so until it is renamed or removed. -/
theorem act_read (h : Owned s) (ht : s.tasks i = some t) (a : Answer) {p : Place}
    {expectBytes : ℕ} {file : Lib.Inode String} {written : Bytes}
    (hpc : t.pc = .read p expectBytes file written) : Owned (s.act i t a) := by
  have hon : ∀ pc : At, pc.held = some p → pc.listed = true → pc.temp = some (p, file) →
      Owned (s.goto i t pc) := by
    intro pc hheld hlisted htemp
    apply h.goto_holding ht
    · rw [hheld, hpc]
      rfl
    · rw [hlisted, hpc]
      rfl
    · rw [htemp, hpc]
      exact .inr rfl
  unfold World.act
  rw [hpc]
  dsimp only
  split
  · split_ifs
    · exact hon _ rfl rfl rfl
    · exact hon _ rfl rfl rfl
  · split_ifs
    · exact hon _ rfl rfl rfl
    · exact hon _ rfl rfl rfl
  · exact hon _ rfl rfl rfl

theorem act_write (h : Owned s) (ht : s.tasks i = some t) (a : Answer) {p : Place}
    {expectBytes : ℕ} {file : Lib.Inode String} {written plain : Bytes}
    (hpc : t.pc = .write p expectBytes file written plain) : Owned (s.act i t a) := by
  unfold World.act
  rw [hpc]
  dsimp only
  split
  · exact h.wrote ht hpc plain rfl rfl rfl
  · rename_i done
    exact h.wrote ht hpc (plain.take done) rfl rfl rfl
  · apply h.goto_holding ht
    · rw [hpc]
      rfl
    · rw [hpc]
      rfl
    · rw [hpc]
      exact .inr rfl

theorem act_rename (h : Owned s) (ht : s.tasks i = some t) (a : Answer) {p : Place}
    {expectBytes : ℕ} {file : Lib.Inode String} {written : Bytes}
    (hpc : t.pc = .rename p expectBytes file written) : Owned (s.act i t a) := by
  unfold World.act
  rw [hpc]
  dsimp only
  split_ifs
  · exact h.renamed ht hpc (some (expectBytes, written))
  · apply h.goto_holding ht
    · rw [hpc]
      rfl
    · rw [hpc]
      rfl
    · exact .inl rfl

theorem act_remove (h : Owned s) (ht : s.tasks i = some t) (a : Answer) {p : Place}
    {file : Lib.Inode String} (hpc : t.pc = .remove p file) : Owned (s.act i t a) := by
  unfold World.act
  rw [hpc]
  dsimp only
  split_ifs
  · exact h.removed ht hpc
  · apply h.goto_holding ht
    · rw [hpc]
      rfl
    · rw [hpc]
      rfl
    · exact .inl rfl

/-- A transfer that is over is forgotten. -/
theorem act_forget (h : Owned s) (ht : s.tasks i = some t) (a : Answer) {p : Place}
    {arrived : Option (ℕ × Bytes)} (hpc : t.pc = .forget p arrived) : Owned (s.act i t a) := by
  have hforget : Owned (s.forget t.transfer) := h.forget t.transfer
  unfold World.act
  rw [hpc]
  cases arrived with
  | some bs => exact (hforget.arrived _).finish ht true
  | none =>
    have hheld : t.pc.held = some p := by rw [hpc]; rfl
    apply hforget.goto ht
    · intro q hq
      obtain rfl := Option.some.inj hq
      refine ⟨h.mine i t p ht hheld, ?_, ?_⟩
      · intro j u q hj hu hq hno
        exact hj (h.alone j i u t q p hu ht hq hheld hno)
      · -- The transfer is no longer listed, so nothing lists this reservation.
        intro x e he hno
        have he' : Function.update s.incoming t.transfer none x = some e := he
        rw [Function.update_apply] at he'
        split_ifs at he' with hx
        exact absurd (h.shared x e i t p he' ht hheld hno).1.symm hx
    · intro q file hq
      cases hq

/-- What a task does keeps files and reservations together, where the temporary name is nobody
else's, and nobody else acts for what it takes. -/
theorem act (h : Owned s) (ht : s.tasks i = some t) (a : Answer)
    (hclear : ∀ p expectBytes, t.pc = .create p expectBytes → a = .works →
      s.dir.Clear (Others p.no) (tempBeside p.dest))
    (hsole : ∀ p e, t.pc = .receive p → s.incoming t.transfer = some e → e.connected = true →
      ∀ j u q, s.tasks j = some u → u.pc.held = some q → q.no ≠ e.place.no) :
    Owned (s.act i t a) := by
  have hfinish : Owned (s.finish i t false) := h.finish ht false
  cases hpc : t.pc with
  | reserve expectBytes names => exact h.act_reserve ht a hpc
  | accept p => exact h.act_connects ht a (.inl hpc)
  | waiting p => exact h.act_connects ht a (.inr hpc)
  | receive p => exact h.act_receive ht a hpc fun e => hsole p e hpc
  | read p expectBytes file written => exact h.act_read ht a hpc
  | write p expectBytes file written plain => exact h.act_write ht a hpc
  | rename p expectBytes file written => exact h.act_rename ht a hpc
  | remove p file => exact h.act_remove ht a hpc
  | forget p arrived => exact h.act_forget ht a hpc
  | listen expectBytes =>
    unfold World.act
    rw [hpc]
    dsimp only
    split
    · exact h.goto_on ht (.inl rfl) (.inl rfl)
    · exact hfinish
  | bind expectBytes p =>
    unfold World.act
    rw [hpc]
    dsimp only
    split_ifs
    · exact h.list ht hpc _ rfl
    · exact hfinish
  | create p expectBytes =>
    unfold World.act
    rw [hpc]
    dsimp only
    split_ifs with ha
    · exact h.created ht hpc (hclear p expectBytes hpc ha)
    · apply h.goto_on ht
      · rw [hpc]
        exact .inr ⟨rfl, fun _ => rfl⟩
      · exact .inl rfl
  | check p =>
    unfold World.act
    rw [hpc]
    dsimp only
    split_ifs
    · apply h.goto_on ht
      · rw [hpc]
        exact .inr ⟨rfl, nofun⟩
      · exact .inl rfl
    · exact hfinish
  | unlink p =>
    unfold World.act
    rw [hpc]
    dsimp only
    split_ifs
    · exact h.unlinked ht hpc
    · exact hfinish
  | finished ok =>
    unfold World.act
    rwa [hpc]
  | gone =>
    unfold World.act
    rwa [hpc]

/-- A task that has come to some place may as well be gone. -/
theorem vanish (h : Owned (s.goto i t pc)) : Owned (s.goto i t .gone) := by
  have htask : (s.goto i t pc).tasks i = some { t with pc } := Function.update_self ..
  have hgone : Owned ((s.goto i t pc).goto i { t with pc } .gone) :=
    h.goto_on htask (.inl rfl) (.inl rfl)
  have hsame : (s.goto i t pc).goto i { t with pc } .gone = s.goto i t .gone := by
    unfold World.goto
    rw [Function.update_idem]
  rwa [hsame] at hgone

/-- What an aborted task leaves to be done keeps them together as well. -/
theorem leftover (h : Owned s) (ht : s.tasks i = some t) (a : Answer)
    (hclear : ∀ p expectBytes, t.pc = .create p expectBytes → a = .works →
      s.dir.Clear (Others p.no) (tempBeside p.dest)) :
    Owned ({ s with dir := World.leftover s.dir a t.pc }.goto i t .gone) := by
  have hgone : Owned (s.goto i t .gone) := h.goto_on ht (.inl rfl) (.inl rfl)
  unfold World.leftover
  cases hpc : t.pc with
  | create p expectBytes =>
    dsimp only
    split_ifs with ha
    · exact (h.created ht hpc (hclear p expectBytes hpc ha)).vanish
    · exact hgone
  | write p expectBytes file written plain =>
    have hwrote (bs : Bytes) :
        Owned ({ s with dir := s.dir.append file bs }.goto i t (.remove p file)) :=
      h.wrote ht hpc bs rfl rfl rfl
    dsimp only
    split
    · exact (hwrote plain).vanish
    · rename_i done
      exact (hwrote (plain.take done)).vanish
    · exact hgone
  | rename p expectBytes file written =>
    dsimp only
    split_ifs
    · exact (h.renamed ht hpc none).vanish
    · exact hgone
  | remove p file =>
    dsimp only
    split_ifs
    · exact (h.removed ht hpc).vanish
    · exact hgone
  | _ => exact hgone

end Owned

def creating (s : World) : Step → Option Place
  | .proceed i a =>
    match s.tasks i with
    | some ⟨_, .create p _, false⟩ => if a = .works then some p else none
    | _ => none
  | .stop i a =>
    match s.tasks i with
    | some ⟨_, .create p _, true⟩ => if a = .works then some p else none
    | _ => none
  | _ => none

def taking (s : World) : Step → Option Place
  | .proceed i _ =>
    match s.tasks i with
    | some ⟨transfer, .receive _, _⟩ =>
      match s.incoming transfer with
      | some e => if e.connected then some e.place else none
      | none => none
    | _ => none
  | _ => none

def Unheld (s : World) (no : ℕ) : Prop :=
  ∀ j < s.spawned, ∀ q ∈ (s.tasks j).bind (·.pc.held), q.no ≠ no

/-- A temporary name is not another transfer's, and a connection is taken for a reservation that
nobody acts for. -/
structure Apart (s : World) (x : Step) : Prop where
  temp : ∀ p ∈ creating s x, s.dir.Clear (Others p.no) (tempBeside p.dest)
  sole : ∀ p ∈ taking s x, Unheld s p.no

theorem creating_proceed {s : World} {i : ℕ} {t : Task} {p : Place} {expectBytes : ℕ}
    (ht : s.tasks i = some t) (hpc : t.pc = .create p expectBytes)
    (hrun : ¬(t.aborted && t.pc.awaits) = true) : creating s (.proceed i .works) = some p := by
  obtain ⟨transfer, pc, aborted⟩ := t
  obtain rfl : pc = .create p expectBytes := hpc
  cases aborted with
  | true => exact absurd rfl hrun
  | false =>
    unfold creating
    dsimp only
    rw [ht]
    rfl

theorem creating_stop {s : World} {i : ℕ} {t : Task} {p : Place} {expectBytes : ℕ}
    (ht : s.tasks i = some t) (hpc : t.pc = .create p expectBytes) (haborted : t.aborted = true) :
    creating s (.stop i .works) = some p := by
  obtain ⟨transfer, pc, aborted⟩ := t
  obtain rfl : pc = .create p expectBytes := hpc
  obtain rfl : aborted = true := haborted
  unfold creating
  dsimp only
  rw [ht]
  rfl

theorem taking_proceed {s : World} {i : ℕ} {t : Task} {p : Place} {e : Incoming} (a : Answer)
    (ht : s.tasks i = some t) (hpc : t.pc = .receive p) (he : s.incoming t.transfer = some e)
    (hconnected : e.connected = true) : taking s (.proceed i a) = some e.place := by
  obtain ⟨transfer, pc, aborted⟩ := t
  obtain rfl : pc = .receive p := hpc
  have he' : s.incoming transfer = some e := he
  unfold taking
  dsimp only
  rw [ht]
  dsimp only
  rw [he']
  dsimp only
  rw [if_pos hconnected]

theorem Owned.unheld {s : World} (h : Owned s) {no : ℕ} (hno : Unheld s no) {j : ℕ} {u : Task}
    {q : Place} (hu : s.tasks j = some u) (hq : u.pc.held = some q) : q.no ≠ no := by
  apply hno j (h.spawned j u hu) q
  rw [hu]
  exact hq

theorem Owned.step {s : World} (h : Owned s) {x : Step} (hx : Apart s x) : Owned (step s x) := by
  cases x with
  | note peer offer => exact h.offers _
  | forget transfer => exact h.forget transfer
  | bulkListen transfer expectBytes => exact h.bulkListen transfer expectBytes
  | bulkCancel transfer =>
    show Owned (s.bulkCancel transfer)
    unfold World.bulkCancel
    split
    · exact ((h.abort _).running _).forget transfer
    · exact h.forget transfer
  | takeReport =>
    show Owned s.takeReport
    unfold World.takeReport
    split
    · rename_i transfer rest _
      exact (h.report rest).running (Function.update s.running transfer none)
    · exact h
  | proceed i a =>
    show Owned (s.proceed i a)
    unfold World.proceed
    cases ht : s.tasks i with
    | none => exact h
    | some t =>
      dsimp only
      split_ifs with hrun
      · exact h
      · apply h.act ht
        · rintro p expectBytes hpc rfl
          exact hx.temp p (creating_proceed ht hpc hrun)
        · intro p e hpc he hconnected j u q hu hq
          exact h.unheld (hx.sole _ (taking_proceed a ht hpc he hconnected)) hu hq
  | stop i a =>
    show Owned (s.stop i a)
    unfold World.stop
    cases ht : s.tasks i with
    | none => exact h
    | some t =>
      have hleft (haborted : t.aborted = true) :
          Owned ({ s with dir := World.leftover s.dir a t.pc }.goto i t .gone) := by
        apply h.leftover ht
        rintro p expectBytes hpc rfl
        exact hx.temp p (creating_stop ht hpc haborted)
      dsimp only
      split
      · exact h.goto_on ht (.inl rfl) (.inl rfl)
      · rename_i haborted _
        split_ifs
        · exact hleft haborted
        · exact h
      · exact h

end Acrylius.Downloads
