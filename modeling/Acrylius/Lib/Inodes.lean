import Mathlib.Data.List.Basic
import Mathlib.Logic.Function.Basic
import Mathlib.Tactic.SplitIfs

/-! A directory whose names lead to files: what was opened under a name stays itself when the name
goes elsewhere. Each file remembers who made it. -/
namespace Lib

/-- A file: one that was there at the beginning, under its name then, or one made since. -/
inductive Inode (N : Type) where
  | there (name : N)
  | made (n : ℕ)
deriving DecidableEq

/-- A directory. Files that nobody of ours made have no owner. -/
structure Tree (N B O : Type) where
  dir : N → Option (Inode N)
  bytes : Inode N → List B
  owner : Inode N → Option O
  made : ℕ

namespace Tree
variable {N B O : Type} [DecidableEq N]

def ofFiles (files : N → Option (List B)) : Tree N B O where
  dir name := (files name).map fun _ => .there name
  bytes
    | .there name => (files name).getD []
    | .made _ => []
  owner _ := none
  made := 0

def add (t : Tree N B O) (name : N) (o : O) : Tree N B O where
  dir := Function.update t.dir name (some (.made t.made))
  bytes := Function.update t.bytes (.made t.made) []
  owner := Function.update t.owner (.made t.made) (some o)
  made := t.made + 1

/-- `open` with `O_CREAT | O_EXCL`. -/
def createNew (t : Tree N B O) (name : N) (o : O) : Option (Tree N B O) :=
  match t.dir name with
  | some _ => none
  | none => some (t.add name o)

/-- `open` with `O_CREAT | O_TRUNC`: whatever stands there is emptied, and counts as theirs who
opened it. -/
def create (t : Tree N B O) (name : N) (o : O) : Tree N B O :=
  match t.dir name with
  | some ino =>
    { t with bytes := Function.update t.bytes ino [], owner := Function.update t.owner ino (some o) }
  | none => t.add name o

def opened (t : Tree N B O) (name : N) : Inode N := (t.dir name).getD (.made t.made)

def append (t : Tree N B O) (ino : Inode N) (bs : List B) : Tree N B O :=
  { t with bytes := Function.update t.bytes ino (t.bytes ino ++ bs) }

def remove (t : Tree N B O) (name : N) : Tree N B O :=
  { t with dir := Function.update t.dir name none }

/-- Atomic, and over whatever was there; nothing without a source. -/
def rename (t : Tree N B O) (source target : N) : Tree N B O :=
  match t.dir source with
  | some ino => { t.remove source with dir := Function.update (t.remove source).dir target (some ino) }
  | none => t

/-- No file has two names, and a file that is yet to be made has none. -/
structure Sound (t : Tree N B O) : Prop where
  one : ∀ name name' ino, t.dir name = some ino → t.dir name' = some ino → name = name'
  made : ∀ name n, t.dir name = some (.made n) → n < t.made

/-- The files whose owner meets a condition keep their names, their bytes and their owner. -/
def Keeps (P : Option O → Prop) (t t' : Tree N B O) : Prop :=
  ∀ name ino, t.dir name = some ino → P (t.owner ino) →
    t'.dir name = some ino ∧ t'.bytes ino = t.bytes ino ∧ t'.owner ino = t.owner ino

def Clear (P : Option O → Prop) (t : Tree N B O) (name : N) : Prop :=
  ∀ ino, t.dir name = some ino → ¬P (t.owner ino)

def Holds (t : Tree N B O) (name : N) (o : O) : Prop :=
  ∃ ino, t.dir name = some ino ∧ t.owner ino = some o

def Contains (t : Tree N B O) (name : N) (o : O) (bs : List B) : Prop :=
  ∃ ino, t.dir name = some ino ∧ t.owner ino = some o ∧ t.bytes ino = bs

variable {t t' : Tree N B O} {P : Option O → Prop} {name source target : N} {o : O} {ino : Inode N}
  {bs : List B}

instance [DecidablePred P] : Decidable (t.Clear P name) :=
  inferInstanceAs (Decidable (∀ ino ∈ t.dir name, ¬P (t.owner ino)))

omit [DecidableEq N] in
theorem sound_ofFiles (files : N → Option (List B)) : (ofFiles files : Tree N B O).Sound := by
  constructor
  · intro name name' ino h h'
    obtain ⟨_, -, heq⟩ := Option.map_eq_some_iff.mp h
    obtain ⟨_, -, heq'⟩ := Option.map_eq_some_iff.mp h'
    exact Inode.there.inj (heq.trans heq'.symm)
  · intro name n h
    obtain ⟨_, -, heq⟩ := Option.map_eq_some_iff.mp h
    cases heq

theorem Sound.add (h : t.Sound) : (t.add name o).Sound := by
  constructor
  · intro a b ino ha hb
    unfold Tree.add at ha hb
    dsimp only at ha hb
    rw [Function.update_apply] at ha hb
    split_ifs at ha hb with haname hbname hbname
    · rw [haname, hbname]
    · have hlt := h.made b t.made (by rw [hb, ← Option.some.inj ha])
      omega
    · have hlt := h.made a t.made (by rw [ha, ← Option.some.inj hb])
      omega
    · exact h.one a b ino ha hb
  · intro a n ha
    unfold Tree.add at ha
    dsimp only at ha
    rw [Function.update_apply] at ha
    show n < t.made + 1
    split_ifs at ha
    · have heq := Inode.made.inj (Option.some.inj ha)
      omega
    · have hlt := h.made a n ha
      omega

theorem Sound.create (h : t.Sound) : (t.create name o).Sound := by
  unfold Tree.create
  split
  · exact ⟨h.one, h.made⟩
  · exact h.add

theorem Sound.append (h : t.Sound) : (t.append ino bs).Sound := ⟨h.one, h.made⟩

theorem remove_dir {a : N} (h : (t.remove name).dir a = some ino) :
    a ≠ name ∧ t.dir a = some ino := by
  unfold Tree.remove at h
  dsimp only at h
  rw [Function.update_apply] at h
  split_ifs at h with ha
  exact ⟨ha, h⟩

theorem Sound.remove (h : t.Sound) : (t.remove name).Sound := by
  constructor
  · intro a b ino ha hb
    exact h.one a b ino (remove_dir ha).2 (remove_dir hb).2
  · intro a n ha
    exact h.made a n (remove_dir ha).2

/-- What is where after a renaming. -/
theorem rename_dir {a : N} (h : (t.rename source target).dir a = some ino) :
    (a = target ∧ t.dir source = some ino) ∨ t.dir a = some ino ∧
      (t.dir source = none ∨ a ≠ source ∧ a ≠ target) := by
  unfold Tree.rename at h
  split at h
  · dsimp only at h
    rw [Function.update_apply] at h
    split_ifs at h with ha
    · rename_i moved hsource
      rw [← Option.some.inj h]
      exact .inl ⟨ha, hsource⟩
    · obtain ⟨hne, hdir⟩ := remove_dir h
      exact .inr ⟨hdir, .inr ⟨hne, ha⟩⟩
  · rename_i hsource
    exact .inr ⟨h, .inl hsource⟩

theorem Sound.rename (h : t.Sound) : (t.rename source target).Sound := by
  have hmade : (t.rename source target).made = t.made := by
    unfold Tree.rename
    split <;> rfl
  constructor
  · intro a b ino ha hb
    rcases rename_dir ha with ⟨ha, hs⟩ | ⟨ha, ha'⟩ <;> rcases rename_dir hb with ⟨hb, hs'⟩ | ⟨hb, hb'⟩
    · rw [ha, hb]
    · have hsame := h.one b source ino hb hs
      rcases hb' with hnone | ⟨hne, -⟩
      · rw [hs] at hnone
        cases hnone
      · exact absurd hsame hne
    · have hsame := h.one a source ino ha hs'
      rcases ha' with hnone | ⟨hne, -⟩
      · rw [hs'] at hnone
        cases hnone
      · exact absurd hsame hne
    · exact h.one a b ino ha hb
  · intro a n ha
    rw [hmade]
    rcases rename_dir ha with ⟨-, hs⟩ | ⟨ha, -⟩
    · exact h.made source n hs
    · exact h.made a n ha

omit [DecidableEq N] in
theorem Keeps.refl (P : Option O → Prop) (t : Tree N B O) : Keeps P t t :=
  fun _ _ h _ => ⟨h, rfl, rfl⟩

omit [DecidableEq N] in
theorem Keeps.mono {Q : Option O → Prop} (h : Keeps P t t') (hQ : ∀ o, Q o → P o) :
    Keeps Q t t' :=
  fun name ino hdir ho => h name ino hdir (hQ _ ho)

omit [DecidableEq N] in
theorem Keeps.holds (h : Keeps P t t') (hP : P (some o)) (hold : t.Holds name o) :
    t'.Holds name o := by
  obtain ⟨ino, hdir, howner⟩ := hold
  obtain ⟨hdir', -, howner'⟩ := h name ino hdir (by rwa [howner])
  exact ⟨ino, hdir', howner'.trans howner⟩

omit [DecidableEq N] in
theorem Contains.holds (h : t.Contains name o bs) : t.Holds name o := by
  obtain ⟨ino, hdir, howner, -⟩ := h
  exact ⟨ino, hdir, howner⟩

omit [DecidableEq N] in
theorem Keeps.contains (h : Keeps P t t') (hP : P (some o)) (hold : t.Contains name o bs) :
    t'.Contains name o bs := by
  obtain ⟨ino, hdir, howner, hbytes⟩ := hold
  obtain ⟨hdir', hbytes', howner'⟩ := h name ino hdir (by rwa [howner])
  exact ⟨ino, hdir', howner'.trans howner, hbytes'.trans hbytes⟩

theorem keeps_add (hs : t.Sound) (h : t.dir name = none) : Keeps P t (t.add name o) := by
  intro a ino ha _
  have hne : a ≠ name := by
    rintro rfl
    rw [h] at ha
    cases ha
  have hino : ino ≠ .made t.made := by
    rintro rfl
    exact absurd (hs.made a t.made ha) (Nat.lt_irrefl _)
  unfold Tree.add
  dsimp only
  rw [Function.update_of_ne hne, Function.update_of_ne hino, Function.update_of_ne hino]
  exact ⟨ha, rfl, rfl⟩

theorem keeps_create (hs : t.Sound) (h : t.Clear P name) : Keeps P t (t.create name o) := by
  unfold Tree.create
  split
  · rename_i ino hname
    intro a ino' ha hP
    have hino : ino' ≠ ino := by
      rintro rfl
      exact h ino' hname hP
    dsimp only
    rw [Function.update_of_ne hino, Function.update_of_ne hino]
    exact ⟨ha, rfl, rfl⟩
  · rename_i hname
    exact keeps_add hs hname

theorem keeps_append (h : ¬P (t.owner ino)) : Keeps P t (t.append ino bs) := by
  intro a ino' ha hP
  have hino : ino' ≠ ino := by
    rintro rfl
    exact h hP
  unfold Tree.append
  dsimp only
  rw [Function.update_of_ne hino]
  exact ⟨ha, rfl, rfl⟩

theorem keeps_remove (h : t.Clear P name) : Keeps P t (t.remove name) := by
  intro a ino ha hP
  have hne : a ≠ name := by
    rintro rfl
    exact h ino ha hP
  unfold Tree.remove
  dsimp only
  rw [Function.update_of_ne hne]
  exact ⟨ha, rfl, rfl⟩

theorem keeps_rename (hsource : t.Clear P source) (htarget : t.Clear P target) :
    Keeps P t (t.rename source target) := by
  intro a ino ha hP
  unfold Tree.rename
  split
  · have hs : a ≠ source := by
      rintro rfl
      exact hsource ino ha hP
    have ht : a ≠ target := by
      rintro rfl
      exact htarget ino ha hP
    unfold Tree.remove
    dsimp only
    rw [Function.update_of_ne ht, Function.update_of_ne hs]
    exact ⟨ha, rfl, rfl⟩
  · exact ⟨ha, rfl, rfl⟩

omit [DecidableEq N] in
theorem Holds.clear (hs : t.Holds name o) (hP : ¬P (some o)) : t.Clear P name := by
  obtain ⟨ino, hdir, howner⟩ := hs
  intro ino' hdir'
  rw [hdir] at hdir'
  rw [← Option.some.inj hdir', howner]
  exact hP

omit [DecidableEq N] in
theorem clear_of_none (h : t.dir name = none) : t.Clear P name := by
  intro ino hdir
  rw [h] at hdir
  cases hdir

/-- Where a new file is, and what was there before it. -/
theorem add_self : (t.add name o).dir name = some (.made t.made) ∧
    (t.add name o).owner (.made t.made) = some o := by
  constructor
  · exact Function.update_self ..
  · exact Function.update_self ..

theorem holds_of_add {a : N} {n : O} (h : (t.add name o).Holds a n) :
    n = o ∨ t.Holds a n := by
  obtain ⟨ino, hdir, howner⟩ := h
  unfold Tree.add at hdir howner
  dsimp only at hdir howner
  rw [Function.update_apply] at hdir howner
  by_cases hmade : ino = .made t.made
  · rw [if_pos hmade] at howner
    exact .inl (Option.some.inj howner).symm
  · rw [if_neg hmade] at howner
    by_cases ha : a = name
    · rw [if_pos ha] at hdir
      exact absurd (Option.some.inj hdir).symm hmade
    · rw [if_neg ha] at hdir
      exact .inr ⟨ino, hdir, howner⟩

theorem create_opened : (t.create name o).dir name = some (t.opened name) ∧
    (t.create name o).owner (t.opened name) = some o := by
  unfold Tree.create opened
  cases hname : t.dir name with
  | some ino => exact ⟨hname, Function.update_self ..⟩
  | none => exact add_self

theorem holds_of_create {a : N} {n : O} (h : (t.create name o).Holds a n) :
    n = o ∨ t.Holds a n := by
  unfold Tree.create at h
  split at h
  · rename_i ino hname
    obtain ⟨ino', hdir, howner⟩ := h
    dsimp only at hdir howner
    rw [Function.update_apply] at howner
    by_cases hino : ino' = ino
    · rw [if_pos hino] at howner
      exact .inl (Option.some.inj howner).symm
    · rw [if_neg hino] at howner
      exact .inr ⟨ino', hdir, howner⟩
  · exact holds_of_add h

/-- Files under other names are not touched. -/
theorem create_of_ne (hs : t.Sound) {a : N} (ha : a ≠ name) (hdir : t.dir a = some ino) :
    (t.create name o).dir a = some ino ∧ (t.create name o).bytes ino = t.bytes ino ∧
      (t.create name o).owner ino = t.owner ino := by
  cases hname : t.dir name with
  | some ino' =>
    have hino : ino ≠ ino' := by
      rintro rfl
      exact ha (hs.one a name ino hdir hname)
    unfold Tree.create
    rw [hname]
    dsimp only
    rw [Function.update_of_ne hino, Function.update_of_ne hino]
    exact ⟨hdir, rfl, rfl⟩
  | none =>
    have hkeeps : Keeps (fun _ => True) t (t.create name o) :=
      keeps_create hs (clear_of_none hname)
    exact hkeeps a ino hdir trivial

theorem Holds.create (hs : t.Sound) {a : N} {n : O} (h : t.Holds a n) (ha : a ≠ name) :
    (t.create name o).Holds a n := by
  obtain ⟨ino, hdir, howner⟩ := h
  obtain ⟨hdir', -, howner'⟩ := create_of_ne (o := o) hs ha hdir
  exact ⟨ino, hdir', howner'.trans howner⟩

theorem Contains.create (hs : t.Sound) {a : N} {n : O} (h : t.Contains a n bs) (ha : a ≠ name) :
    (t.create name o).Contains a n bs := by
  obtain ⟨ino, hdir, howner, hbytes⟩ := h
  obtain ⟨hdir', hbytes', howner'⟩ := create_of_ne (o := o) hs ha hdir
  exact ⟨ino, hdir', howner'.trans howner, hbytes'.trans hbytes⟩

theorem created_of_ne (hs : t.Sound) {a : N} (ha : a ≠ name)
    (hdir : (t.create name o).dir a = some ino) :
    t.dir a = some ino ∧ (t.create name o).owner ino = t.owner ino := by
  have hold : t.dir a = some ino := by
    unfold Tree.create at hdir
    split at hdir
    · exact hdir
    · unfold Tree.add at hdir
      dsimp only at hdir
      rwa [Function.update_of_ne ha] at hdir
  exact ⟨hold, (create_of_ne hs ha hold).2.2⟩

theorem create_bytes : (t.create name o).bytes (t.opened name) = [] := by
  unfold Tree.create opened
  cases t.dir name with
  | some ino => exact Function.update_self ..
  | none => exact Function.update_self ..

/-- So it is with a file that is written to. -/
theorem Contains.append (hs : t.Sound) {a : N} {n : O} {bs' : List B} (h : t.Contains a n bs)
    (ha : a ≠ name) (hname : t.dir name = some ino) : (t.append ino bs').Contains a n bs := by
  obtain ⟨ino', hdir, howner, hbytes⟩ := h
  have hino : ino' ≠ ino := by
    rintro rfl
    exact ha (hs.one a name ino' hdir hname)
  refine ⟨ino', hdir, howner, ?_⟩
  unfold Tree.append
  dsimp only
  rw [Function.update_of_ne hino]
  exact hbytes

theorem holds_of_remove {a : N} {n : O} (h : (t.remove name).Holds a n) : t.Holds a n := by
  obtain ⟨ino, hdir, howner⟩ := h
  exact ⟨ino, (remove_dir hdir).2, howner⟩

theorem remove_of_ne {a : N} (ha : a ≠ name) : (t.remove name).dir a = t.dir a := by
  unfold Tree.remove
  dsimp only
  exact Function.update_of_ne ha ..

theorem Holds.remove {a : N} {n : O} (h : t.Holds a n) (ha : a ≠ name) :
    (t.remove name).Holds a n := by
  obtain ⟨ino, hdir, howner⟩ := h
  exact ⟨ino, (remove_of_ne ha).trans hdir, howner⟩

theorem Contains.remove {a : N} {n : O} (h : t.Contains a n bs) (ha : a ≠ name) :
    (t.remove name).Contains a n bs := by
  obtain ⟨ino, hdir, howner, hbytes⟩ := h
  exact ⟨ino, (remove_of_ne ha).trans hdir, howner, hbytes⟩

theorem rename_owner : (t.rename source target).owner = t.owner := by
  unfold Tree.rename
  split <;> rfl

theorem rename_bytes : (t.rename source target).bytes = t.bytes := by
  unfold Tree.rename
  split <;> rfl

theorem rename_target (h : t.dir source = some ino) :
    (t.rename source target).dir target = some ino := by
  unfold Tree.rename
  rw [h]
  exact Function.update_self ..

theorem holds_of_rename {a : N} {n : O} (h : (t.rename source target).Holds a n) :
    t.Holds source n ∨ t.Holds a n := by
  obtain ⟨ino, hdir, howner⟩ := h
  rw [rename_owner] at howner
  rcases rename_dir hdir with ⟨-, hsource⟩ | ⟨hdir, -⟩
  · exact .inl ⟨ino, hsource, howner⟩
  · exact .inr ⟨ino, hdir, howner⟩

end Tree
end Lib
