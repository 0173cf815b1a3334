import Acrylius.Daemon.Owned

/-! What receiving does to the download directory: where a temporary name is free when it is made,
nothing but the transfer's own files is touched. -/
namespace Acrylius.Downloads
open Proto Bulk

/-- The reservation a task acts for with its next step, if it reaches for the directory at all. -/
def At.actsFor (next : ℕ) : At → Option Place
  | .reserve _ (name :: _) => some ⟨name, next⟩
  | pc => pc.held

def acting (s : World) : Step → Option Place
  | .proceed i _ | .stop i _ => (s.tasks i).bind (·.pc.actsFor s.reserved)
  | _ => none

/-- Of all files, only those of this reservation change, and of all names only its two. -/
structure Spares (p : Place) (d d' : Dir) : Prop where
  keeps : Lib.Tree.Keeps (· ≠ some p.no) d d'
  within : ∀ name, name ≠ p.dest → name ≠ tempBeside p.dest → d'.dir name = d.dir name

def Spared (d d' : Dir) : Option Place → Prop
  | some p => Spares p d d'
  | none => d' = d

/-- A step touches no file but those of the transfer it acts for. -/
def Sparing (s : World) (x : Step) : Prop := Spared s.dir (step s x).dir (acting s x)

/-- A temporary name is free when it is made, and a connection is taken for a reservation that
nobody acts for. -/
def Free (s : World) (x : Step) : Prop :=
  (∀ p ∈ creating s x, s.dir.dir (tempBeside p.dest) = none) ∧ ∀ p ∈ taking s x, Unheld s p.no

instance (s : World) (no : ℕ) : Decidable (Unheld s no) := by
  unfold Unheld
  infer_instance

instance (s : World) (x : Step) : Decidable (Free s x) := by
  unfold Free
  infer_instance

theorem Free.apart {s : World} {x : Step} (h : Free s x) : Apart s x where
  temp p hp := Lib.Tree.clear_of_none (h.1 p hp)
  sole := h.2

section Operations
variable {d : Dir} {p : Place}

theorem Spares.refl : Spares p d d := ⟨Lib.Tree.Keeps.refl _ d, fun _ _ _ => rfl⟩

theorem Spared.refl (o : Option Place) : Spared d d o := by
  cases o with
  | none => rfl
  | some p => exact Spares.refl

theorem add_dir {name a : String} {no : ℕ} (h : a ≠ name) : (d.add name no).dir a = d.dir a :=
  Function.update_of_ne h ..

theorem spares_add (hs : d.Sound) (h : d.dir p.dest = none) : Spares p d (d.add p.dest p.no) where
  keeps := Lib.Tree.keeps_add hs h
  within _ hdest _ := add_dir hdest

theorem spares_create (hs : d.Sound) (h : d.dir (tempBeside p.dest) = none) :
    Spares p d (d.create (tempBeside p.dest) p.no) := by
  have hadd : d.create (tempBeside p.dest) p.no = d.add (tempBeside p.dest) p.no := by
    unfold Lib.Tree.create
    rw [h]
  rw [hadd]
  exact ⟨Lib.Tree.keeps_add hs h, fun _ _ htemp => add_dir htemp⟩

theorem spares_append {file : Lib.Inode String} (h : d.owner file = some p.no) (bs : Bytes) :
    Spares p d (d.append file bs) where
  keeps := Lib.Tree.keeps_append (not_not.mpr h)
  within _ _ _ := rfl

theorem spares_remove_temp (h : d.Clear (· ≠ some p.no) (tempBeside p.dest)) :
    Spares p d (d.remove (tempBeside p.dest)) where
  keeps := Lib.Tree.keeps_remove h
  within _ _ htemp := Lib.Tree.remove_of_ne htemp

theorem spares_remove_dest (h : d.Clear (· ≠ some p.no) p.dest) :
    Spares p d (d.remove p.dest) where
  keeps := Lib.Tree.keeps_remove h
  within _ hdest _ := Lib.Tree.remove_of_ne hdest

theorem spares_rename (htemp : d.Clear (· ≠ some p.no) (tempBeside p.dest))
    (hdest : d.Clear (· ≠ some p.no) p.dest) :
    Spares p d (d.rename (tempBeside p.dest) p.dest) where
  keeps := Lib.Tree.keeps_rename htemp hdest
  within a ha ha' := by
    unfold Lib.Tree.rename
    split
    · dsimp only
      rw [Function.update_of_ne ha]
      exact Lib.Tree.remove_of_ne ha'
    · rfl

end Operations

section Steps
variable {s : World} {i : ℕ} {t : Task}

/-- The reservation and the unlinking of it apart, a task does to the directory what it would leave
to be done if it were aborted there. -/
theorem World.act_dir (s : World) (i : ℕ) (t : Task) (a : Answer)
    (hreserve : ∀ expectBytes names, t.pc ≠ .reserve expectBytes names)
    (hunlink : ∀ p, t.pc ≠ .unlink p) : (s.act i t a).dir = World.leftover s.dir a t.pc := by
  unfold World.act World.leftover
  cases hpc : t.pc with
  | reserve expectBytes names => exact absurd hpc (hreserve expectBytes names)
  | unlink p => exact absurd hpc (hunlink p)
  | listen expectBytes =>
    dsimp only
    split <;> rfl
  | bind expectBytes p =>
    dsimp only
    split_ifs <;> rfl
  | accept p =>
    dsimp only
    split
    · split_ifs <;> rfl
    · rfl
  | waiting p =>
    dsimp only
    split_ifs
    · rfl
    · split <;> rfl
  | receive p =>
    dsimp only
    split
    · split_ifs <;> rfl
    · rfl
  | create p expectBytes =>
    dsimp only
    split_ifs <;> rfl
  | read p expectBytes file written =>
    dsimp only
    split
    · split_ifs <;> rfl
    · split_ifs <;> rfl
    · rfl
  | write p expectBytes file written plain => cases a <;> rfl
  | rename p expectBytes file written =>
    dsimp only
    cases hdir : s.dir.dir (tempBeside p.dest) with
    | none =>
      -- There is nothing to rename, so the one that fails and the one that is not made agree.
      have hsame : s.dir.rename (tempBeside p.dest) p.dest = s.dir := by
        unfold Lib.Tree.rename
        rw [hdir]
      rw [hsame, ite_self, if_neg fun h => Bool.false_ne_true h.2]
      rfl
    | some file =>
      rw [Option.isSome_some]
      by_cases ha : a = .works
      · rw [if_pos ha, if_pos ⟨ha, rfl⟩]
        rfl
      · rw [if_neg ha, if_neg fun h => ha h.1]
        rfl
  | remove p file =>
    dsimp only
    split_ifs <;> rfl
  | forget p arrived => cases arrived <;> rfl
  | check p =>
    dsimp only
    split_ifs <;> rfl
  | finished ok => rfl
  | gone => rfl

/-- What an aborted task leaves to be done touches only what it acts for. -/
theorem Owned.leftover_spared (h : Owned s) (ht : s.tasks i = some t) (a : Answer)
    (hfree : ∀ p expectBytes, t.pc = .create p expectBytes → a = .works →
      s.dir.dir (tempBeside p.dest) = none) :
    Spared s.dir (World.leftover s.dir a t.pc) (t.pc.actsFor s.reserved) := by
  unfold World.leftover
  cases hpc : t.pc with
  | create p expectBytes =>
    dsimp only
    split_ifs with ha
    · exact spares_create h.sound (hfree p expectBytes hpc ha)
    · exact Spared.refl _
  | write p expectBytes file written plain =>
    have htemp : t.pc.temp = some (p, file) := by rw [hpc]; rfl
    have howner := (h.temp i t p file ht htemp).2
    dsimp only
    split
    · exact spares_append howner _
    · exact spares_append howner _
    · exact Spared.refl _
  | rename p expectBytes file written =>
    have hheld : t.pc.held = some p := by rw [hpc]; rfl
    have htemp : t.pc.temp = some (p, file) := by rw [hpc]; rfl
    dsimp only
    split_ifs
    · exact spares_rename (h.clear_temp ht htemp) (h.clear_dest ht hheld)
    · exact Spared.refl _
  | remove p file =>
    have htemp : t.pc.temp = some (p, file) := by rw [hpc]; rfl
    dsimp only
    split_ifs
    · exact spares_remove_temp (h.clear_temp ht htemp)
    · exact Spared.refl _
  | _ => exact Spared.refl _

/-- Nor does what a task does touch anything else. -/
theorem Owned.act_spared (h : Owned s) (ht : s.tasks i = some t) (a : Answer)
    (hfree : ∀ p expectBytes, t.pc = .create p expectBytes → a = .works →
      s.dir.dir (tempBeside p.dest) = none) :
    Spared s.dir (s.act i t a).dir (t.pc.actsFor s.reserved) := by
  cases hpc : t.pc with
  | reserve expectBytes names =>
    unfold World.act
    rw [hpc]
    cases names with
    | nil => exact Spared.refl _
    | cons name rest =>
      dsimp only
      split_ifs
      · exact Spared.refl _
      · unfold Lib.Tree.createNew
        cases hname : s.dir.dir name with
        | some ino => exact Spared.refl _
        | none => exact spares_add (p := ⟨name, s.reserved⟩) h.sound hname
  | unlink p =>
    have hheld : t.pc.held = some p := by rw [hpc]; rfl
    unfold World.act
    rw [hpc]
    dsimp only
    split_ifs
    · exact spares_remove_dest (h.clear_dest ht hheld)
    · exact Spared.refl _
  | _ =>
    rw [← hpc, World.act_dir s i t a (by rw [hpc]; nofun) (by rw [hpc]; nofun)]
    exact h.leftover_spared ht a hfree

theorem Owned.step_spared (h : Owned s) {x : Step} (hx : Free s x) :
    Sparing s x := by
  cases x with
  | note peer offer => rfl
  | forget transfer => rfl
  | bulkListen transfer expectBytes => rfl
  | bulkCancel transfer =>
    show (s.bulkCancel transfer).dir = s.dir
    unfold World.bulkCancel
    split
    · rfl
    · rfl
  | takeReport =>
    show s.takeReport.dir = s.dir
    unfold World.takeReport
    split
    · rfl
    · rfl
  | proceed i a =>
    show Spared s.dir (s.proceed i a).dir ((s.tasks i).bind (·.pc.actsFor s.reserved))
    unfold World.proceed
    cases ht : s.tasks i with
    | none => rfl
    | some t =>
      dsimp only
      split_ifs with hrun
      · exact Spared.refl _
      · apply h.act_spared ht
        rintro p expectBytes hpc rfl
        exact hx.1 p (creating_proceed ht hpc hrun)
  | stop i a =>
    show Spared s.dir (s.stop i a).dir ((s.tasks i).bind (·.pc.actsFor s.reserved))
    unfold World.stop
    cases ht : s.tasks i with
    | none => rfl
    | some t =>
      dsimp only
      split
      · exact Spared.refl _
      · rename_i haborted _
        split_ifs
        · apply h.leftover_spared ht
          rintro p expectBytes hpc rfl
          exact hx.1 p (creating_stop ht hpc haborted)
        · exact Spared.refl _
      · exact Spared.refl _

def Untouched (files : String → Option Bytes) (s : World) : Prop :=
  ∀ name bs, files name = some bs → s.dir.dir name = some (.there name) ∧
    s.dir.bytes (.there name) = bs ∧ s.dir.owner (.there name) = none

theorem untouched_new (files : String → Option Bytes) : Untouched files (.new files) := by
  intro name bs h
  refine ⟨?_, ?_, rfl⟩
  · show (files name).map _ = _
    rw [h]
    rfl
  · show (files name).getD [] = bs
    rw [h]
    rfl

theorem Untouched.step {files : String → Option Bytes} {x : Step} (h : Untouched files s)
    (hx : Sparing s x) :
    Untouched files (Downloads.step s x) := by
  intro name bs hname
  obtain ⟨hdir, hbytes, howner⟩ := h name bs hname
  cases hacting : acting s x with
  | none =>
    unfold Sparing at hx
    rw [hacting] at hx
    rw [show (Downloads.step s x).dir = s.dir from hx]
    exact ⟨hdir, hbytes, howner⟩
  | some p =>
    unfold Sparing at hx
    rw [hacting] at hx
    obtain ⟨hdir', hbytes', howner'⟩ := hx.keeps name _ hdir (by rw [howner]; nofun)
    exact ⟨hdir', hbytes'.trans hbytes, howner'.trans howner⟩

end Steps

theorem owned_of_free (files : String → Option Bytes) (steps : List Step)
    (h : Lib.Along step Free (.new files) steps) : Owned (Lib.run step (.new files) steps) :=
  h.inv (fun _ _ hs hx => hs.step hx.apart) (Owned.new files)

/-- Receiving touches no file but its own, whatever the directory holds and however many transfers
there are. -/
theorem receiving_spares (files : String → Option Bytes) (steps : List Step)
    (h : Lib.Along step Free (.new files) steps) :
    Lib.Along step Sparing (.new files) steps ∧
      Untouched files (Lib.run step (.new files) steps) := by
  have hstep : ∀ (s : World) (x : Step), Owned s → Free s x → Owned (step s x) :=
    fun s x hs hx => hs.step hx.apart
  constructor
  · exact h.along_of_inv hstep (fun s x hs hx => hs.step_spared hx) (Owned.new files)
  · have hboth : Owned (Lib.run step (.new files) steps) ∧
        Untouched files (Lib.run step (.new files) steps) := by
      apply h.inv (I := fun s => Owned s ∧ Untouched files s)
      · intro s x hs hx
        exact ⟨hs.1.step hx.apart, hs.2.step (hs.1.step_spared hx)⟩
      · exact ⟨Owned.new files, untouched_new files⟩
    exact hboth.2

/-- An offer that is accepted, as far as the connection, after so many names were tried. -/
def accepted (transfer : TransferId) (name : String) (size task tries : ℕ) : List Step :=
  [.note "phone" ⟨transfer, name, size, "text/plain"⟩, .bulkListen transfer size] ++
    List.replicate (5 + tries) (.proceed task .works)

def oneFile (name : String) (bs : Bytes) : String → Option Bytes :=
  fun name' => if name' = name then some bs else none

/-- A file of the user stands at the temporary name, and is emptied. -/
theorem temporary_empties_a_file :
    ¬Lib.Along step Sparing
      (.new (oneFile "a.txt.part" [7])) (accepted 1 "a.txt" 3 0 1 ++ [.proceed 0 .works]) := by
  intro h
  have hlast := (Lib.Along.append.mp h).2.1
  have hacting : acting (Lib.run step (.new (oneFile "a.txt.part" [7])) (accepted 1 "a.txt" 3 0 1))
      (.proceed 0 .works) = some ⟨"a.txt", 0⟩ := by decide +kernel
  unfold Sparing at hlast
  rw [hacting] at hlast
  have hkept := (hlast.keeps "a.txt.part" (.there "a.txt.part") (by decide +kernel)
    (by decide +kernel)).2.1
  revert hkept
  decide +kernel

/-- Two files of one name arrive beside a file that has it. -/
theorem two_of_one_name_arrive :
    Untouched (oneFile "a.txt" [7]) (Lib.run step (.new (oneFile "a.txt" [7]))
      (accepted 1 "a.txt" 1 0 2 ++ accepted 2 "a.txt" 1 1 3 ++
        [.proceed 0 .works, .proceed 1 .works, .proceed 0 (.chunk [1]), .proceed 1 (.chunk [2]),
          .proceed 0 .works, .proceed 1 .works, .proceed 0 .ends, .proceed 1 .ends,
          .proceed 0 .works, .proceed 1 .works, .proceed 0 .works, .proceed 1 .works])) :=
  (receiving_spares _ _ (by decide +kernel)).2

end Acrylius.Downloads
