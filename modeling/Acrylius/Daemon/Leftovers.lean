import Acrylius.Daemon.Sparing

/-! What transfers that are over leave in the download directory: nothing, or the whole file, where
no name is given up before its connection is taken. -/
namespace Acrylius.Downloads
open Proto Bulk

/-- The reservation a task is for, listed or its own. -/
def At.place : At → Option Place
  | .accept p | .waiting p | .receive p => some p
  | pc => pc.held

/-- What the table says of a transfer whose connection is not taken: listening, connected. -/
def At.waits : At → Option (Place × Bool × Bool)
  | .accept p => some (p, true, false)
  | .waiting p => some (p, false, false)
  | .receive p => some (p, false, true)
  | _ => none

def At.wrote : At → Option (Lib.Inode String × Bytes)
  | .read _ _ file written | .write _ _ file written _ | .rename _ _ file written =>
    some (file, written)
  | _ => none

def At.whole : At → Option (ℕ × Bytes)
  | .rename _ expectBytes _ written => some (expectBytes, written)
  | .forget _ arrived => arrived
  | _ => none

/-- What stands at the destination: the empty placeholder, until the renaming. -/
def At.content : At → Bytes
  | .forget _ (some (_, bs)) => bs
  | _ => []

def Going (s : World) (no : ℕ) : Prop :=
  ∃ i t p, s.tasks i = some t ∧ t.pc.place = some p ∧ p.no = no

def Whole (d : Dir) (r : Place × ℕ × Bytes) : Prop :=
  d.Contains r.1.dest r.1.no r.2.2 ∧ r.2.2.length = r.2.1

/-- A transfer that is over leaves nothing, or has succeeded and leaves exactly the whole file. -/
structure Clean (s : World) : Prop where
  left : ∀ name no, s.dir.Holds name no →
    Going s no ∨ ∃ r ∈ s.arrived, r.1.no = no ∧ name = r.1.dest
  whole : ∀ r ∈ s.arrived, Whole s.dir r ∧ ¬Going s r.1.no

/-- No connection of this transfer is yet to come, or to be taken. -/
def NoWaiting (s : World) (transfer : TransferId) : Prop :=
  ∀ j < s.spawned, ∀ u ∈ s.tasks j, u.transfer = transfer → u.pc.waits = none

/-- The listener binds, the connection comes, and what gives a name up works; the table loses no
entry whose connection is yet to be taken. -/
def Fair (s : World) (t : Task) (a : Answer) : Prop :=
  match t.pc with
  | .bind .. => a = .works ∧ NoWaiting s t.transfer
  | .create p _ => a = .works → s.dir.Clear (Others p.no) (tempBeside p.dest)
  | .waiting _ | .rename .. | .remove .. | .check _ | .unlink _ => a = .works
  | .forget .. => NoWaiting s t.transfer
  | _ => True

/-- Nobody stops a task that has reserved a name, or forgets it before it has its connection. -/
def Orderly (s : World) : Step → Prop
  | .forget transfer | .bulkCancel transfer => NoWaiting s transfer
  | .proceed i a => ∀ t ∈ s.tasks i, (t.aborted && t.pc.awaits) = false → Fair s t a
  | .stop i _ => ∀ t ∈ s.tasks i, (t.aborted && t.pc.awaits) = false
  | _ => True

instance (no : ℕ) : DecidablePred (Others no) := by
  intro o
  unfold Others
  infer_instance

instance (s : World) (transfer : TransferId) : Decidable (NoWaiting s transfer) := by
  unfold NoWaiting
  infer_instance

instance (s : World) (t : Task) (a : Answer) : Decidable (Fair s t a) := by
  unfold Fair
  split <;> infer_instance

instance (s : World) (x : Step) : Decidable (Orderly s x) := by
  unfold Orderly
  split <;> infer_instance

/-- What there is of a task's own: in the directory, and in the table. -/
structure Local (d : Dir) (incoming : TransferId → Option Incoming) (t : Task) : Prop where
  dest : ∀ p, t.pc.place = some p → d.Contains p.dest p.no t.pc.content
  wrote : ∀ file written, t.pc.wrote = some (file, written) → d.bytes file = written
  entry : ∀ p listening connected, t.pc.waits = some (p, listening, connected) →
    ∃ expectBytes, incoming t.transfer = some ⟨p, expectBytes, listening, connected⟩
  whole : ∀ n bs, t.pc.whole = some (n, bs) → bs.length = n

/-- A file's owner is a reservation somebody is there for, or whose file arrived. -/
def Kept (s : World) (name : String) (no : ℕ) : Prop :=
  (∃ i t p, s.tasks i = some t ∧ t.pc.place = some p ∧ p.no = no ∧
    (name = p.dest ∨ name = tempBeside p.dest ∧ t.pc.temp.isSome)) ∨
  ∃ r ∈ s.arrived, r.1.no = no ∧ name = r.1.dest

structure Tidy (s : World) : Prop where
  sole : ∀ i j t u p q, s.tasks i = some t → s.tasks j = some u → t.pc.place = some p →
    u.pc.place = some q → p.no = q.no → i = j
  tasks : ∀ i t, s.tasks i = some t → Local s.dir s.incoming t
  left : ∀ name no, s.dir.Holds name no → Kept s name no
  arrived : ∀ r ∈ s.arrived, Whole s.dir r
  apart : ∀ r ∈ s.arrived, ∀ i t p, s.tasks i = some t → t.pc.place = some p → p.no ≠ r.1.no

theorem Tidy.clean {s : World} (h : Tidy s) : Clean s := by
  constructor
  · intro name no hn
    rcases h.left name no hn with ⟨i, t, p, ht, hp, hno, -⟩ | harrived
    · exact .inl ⟨i, t, p, ht, hp, hno⟩
    · exact .inr harrived
  · intro r hr
    refine ⟨h.arrived r hr, ?_⟩
    rintro ⟨i, t, p, ht, hp, hno⟩
    exact h.apart r hr i t p ht hp hno

theorem place_of_held {pc : At} {p : Place} (h : pc.held = some p) : pc.place = some p := by
  cases pc <;> first | exact h | cases h

theorem place_of_waits {pc : At} {p : Place} {listening connected : Bool}
    (h : pc.waits = some (p, listening, connected)) : pc.place = some p := by
  cases pc <;> cases h <;> rfl

theorem temp_of_wrote {pc : At} {file : Lib.Inode String} {written : Bytes}
    (h : pc.wrote = some (file, written)) : ∃ p, pc.temp = some (p, file) := by
  cases pc <;> cases h <;> exact ⟨_, rfl⟩

theorem waits_of_wrote {pc : At} {file : Lib.Inode String} {written : Bytes}
    (h : pc.wrote = some (file, written)) : pc.waits = none := by
  cases pc <;> cases h <;> rfl

theorem place_of_whole {pc : At} {n : ℕ} {bs : Bytes} (h : pc.whole = some (n, bs)) :
    ∃ p, pc.place = some p := by
  cases pc with
  | rename p expectBytes file written => exact ⟨p, rfl⟩
  | forget p arrived => exact ⟨p, rfl⟩
  | _ => cases h

namespace Tidy
variable {s : World} {i : ℕ} {t : Task} {pc : At}

theorem new (files : String → Option Bytes) : Tidy (.new files) := by
  constructor
  · intros
    contradiction
  · intros
    contradiction
  · rintro name no ⟨ino, -, howner⟩
    cases howner
  · intro r hr
    exact absurd hr List.not_mem_nil
  · intro r hr
    exact absurd hr List.not_mem_nil

theorem lt_reserved (h : Tidy s) (howned : Owned s) (ht : s.tasks i = some t) {p : Place}
    (hp : t.pc.place = some p) : p.no < s.reserved :=
  howned.numbers _ _ ((h.tasks i t ht).dest p hp).holds

theorem arrived_lt (h : Tidy s) (howned : Owned s) {r : Place × ℕ × Bytes} (hr : r ∈ s.arrived) :
    r.1.no < s.reserved :=
  howned.numbers _ _ (h.arrived r hr).1.holds

theorem others_of_ne {n no : ℕ} (h : n ≠ no) : Others no (some n) := by
  constructor
  · nofun
  · intro heq
    exact h (Option.some.inj heq)

theorem local_frame (h : Tidy s) (howned : Owned s) {j : ℕ} {u : Task} (hu : s.tasks j = some u)
    {dir : Dir} {incoming : TransferId → Option Incoming} (no : ℕ)
    (hkeeps : Lib.Tree.Keeps (Others no) s.dir dir)
    (hother : ∀ p, u.pc.place = some p → p.no ≠ no)
    (hentry : u.pc.waits ≠ none → incoming u.transfer = s.incoming u.transfer) :
    Local dir incoming u := by
  have hlocal := h.tasks j u hu
  constructor
  · intro p hp
    exact hkeeps.contains (others_of_ne (hother p hp)) (hlocal.dest p hp)
  · intro file written hw
    obtain ⟨p, hp⟩ := temp_of_wrote hw
    obtain ⟨hdir, howner⟩ := howned.temp j u p file hu hp
    have hne := hother p (place_of_held (Owned.held_of_temp hp))
    rw [(hkeeps _ file hdir (by rw [howner]; exact others_of_ne hne)).2.1]
    exact hlocal.wrote file written hw
  · intro p listening connected hw
    rw [hentry (by rw [hw]; nofun)]
    exact hlocal.entry p listening connected hw
  · exact hlocal.whole

/-- A task takes its turn, and what it does is its own reservation's. -/
theorem turn (h : Tidy s) (howned : Owned s) (ht : s.tasks i = some t) (no : ℕ) {dir : Dir}
    {reserved : ℕ} {offers : Offers} {incoming : TransferId → Option Incoming}
    {arrived : List (Place × ℕ × Bytes)}
    (hplace : ∀ p, pc.place = some p → p.no = no)
    (hold : ∀ p, t.pc.place = some p → p.no = no)
    (hothers : ∀ j u p, j ≠ i → s.tasks j = some u → u.pc.place = some p → p.no ≠ no)
    (hkeeps : Lib.Tree.Keeps (Others no) s.dir dir)
    (hnew : ∀ name n, n ≠ no → dir.Holds name n → s.dir.Holds name n)
    (hentries : ∀ j u, j ≠ i → s.tasks j = some u → u.pc.waits ≠ none →
      incoming u.transfer = s.incoming u.transfer)
    (harrived : ∀ r ∈ s.arrived, r ∈ arrived ∧ r.1.no ≠ no)
    (hnow : ∀ r ∈ arrived, r ∈ s.arrived ∨ r.1.no = no ∧ pc.place = none ∧ Whole dir r)
    (hlocal : Local dir incoming { t with pc })
    (hown : ∀ name, dir.Holds name no →
      (∃ p, pc.place = some p ∧ (name = p.dest ∨ name = tempBeside p.dest ∧ pc.temp.isSome)) ∨
      ∃ r ∈ arrived, r.1.no = no ∧ name = r.1.dest) :
    Tidy ({ s with dir, reserved, offers, incoming, arrived }.goto i t pc) := by
  have hself : Function.update s.tasks i (some { t with pc }) i = some { t with pc } :=
    Function.update_self ..
  have htask : ∀ j u, Function.update s.tasks i (some { t with pc }) j = some u →
      j = i ∧ u = { t with pc } ∨ j ≠ i ∧ s.tasks j = some u := by
    intro j u hu
    rw [Function.update_apply] at hu
    by_cases hj : j = i
    · rw [if_pos hj] at hu
      exact .inl ⟨hj, (Option.some.inj hu).symm⟩
    · rw [if_neg hj] at hu
      exact .inr ⟨hj, hu⟩
  constructor
  · intro j k u v p q hu hv hp hq hno
    rcases htask j u hu with ⟨hj, rfl⟩ | ⟨hj, hu⟩ <;>
      rcases htask k v hv with ⟨hk, rfl⟩ | ⟨hk, hv⟩
    · rw [hj, hk]
    · exact absurd (hno.symm.trans (hplace p hp)) (hothers k v q hk hv hq)
    · exact absurd (hno.trans (hplace q hq)) (hothers j u p hj hu hp)
    · exact h.sole j k u v p q hu hv hp hq hno
  · intro j u hu
    rcases htask j u hu with ⟨-, rfl⟩ | ⟨hj, hu⟩
    · exact hlocal
    · exact h.local_frame howned hu no hkeeps (fun p hp => hothers j u p hj hu hp)
        (hentries j u hj hu)
  · intro name n hn
    by_cases hno : n = no
    · rw [hno] at hn ⊢
      rcases hown name hn with ⟨p, hp, hname⟩ | hr
      · exact .inl ⟨i, _, p, hself, hp, hplace p hp, hname⟩
      · exact .inr hr
    · rcases h.left name n (hnew name n hno hn) with ⟨j, u, p, hu, hp, hpn, hname⟩ | hr
      · have hj : j ≠ i := by
          rintro rfl
          rw [ht] at hu
          obtain rfl := Option.some.inj hu
          exact hno (hpn.symm.trans (hold p hp))
        have hu' : Function.update s.tasks i (some { t with pc }) j = some u :=
          (Function.update_of_ne hj ..).trans hu
        exact .inl ⟨j, u, p, hu', hp, hpn, hname⟩
      · obtain ⟨r, hr, hrn, hname⟩ := hr
        exact .inr ⟨r, (harrived r hr).1, hrn, hname⟩
  · intro r hr
    rcases hnow r hr with hr | ⟨-, -, hwhole⟩
    · obtain ⟨hcontains, hlength⟩ := h.arrived r hr
      exact ⟨hkeeps.contains (others_of_ne (harrived r hr).2) hcontains, hlength⟩
    · exact hwhole
  · intro r hr j u p hu hp
    rcases htask j u hu with ⟨-, rfl⟩ | ⟨hj, hu⟩
    · rcases hnow r hr with hr | ⟨-, hnone, -⟩
      · rw [hplace p hp]
        exact (harrived r hr).2.symm
      · have hp' : pc.place = some p := hp
        rw [hnone] at hp'
        cases hp'
    · rcases hnow r hr with hr | ⟨hrn, -, -⟩
      · exact h.apart r hr j u p hu hp
      · rw [hrn]
        exact hothers j u p hj hu hp

theorem local_of_none {d : Dir} {incoming : TransferId → Option Incoming} {t : Task}
    (h : t.pc.place = none) : Local d incoming t := by
  constructor
  · intro p hp
    rw [h] at hp
    cases hp
  · intro file written hw
    obtain ⟨p, hp⟩ := temp_of_wrote hw
    rw [place_of_held (Owned.held_of_temp hp)] at h
    cases h
  · intro p listening connected hw
    rw [place_of_waits hw] at h
    cases h
  · intro n bs hw
    obtain ⟨p, hp⟩ := place_of_whole hw
    rw [hp] at h
    cases h

theorem local_plain {d : Dir} {incoming : TransferId → Option Incoming} {t : Task} {p : Place}
    (hp : t.pc.place = some p) (hdest : d.Contains p.dest p.no t.pc.content)
    (hwrote : t.pc.wrote = none) (hwaits : t.pc.waits = none) (hwhole : t.pc.whole = none) :
    Local d incoming t := by
  constructor
  · intro q hq
    rw [hp] at hq
    obtain rfl := Option.some.inj hq
    exact hdest
  · intro file written hw
    rw [hwrote] at hw
    cases hw
  · intro q listening connected hw
    rw [hwaits] at hw
    cases hw
  · intro n bs hw
    rw [hwhole] at hw
    cases hw

/-- A task that writes has the placeholder and its temporary file. -/
theorem local_writes {d : Dir} {incoming : TransferId → Option Incoming} {t : Task} {p : Place}
    {file : Lib.Inode String} {written : Bytes} (hp : t.pc.place = some p)
    (hdest : d.Contains p.dest p.no t.pc.content) (hwrote : t.pc.wrote = some (file, written))
    (hbytes : d.bytes file = written) (hwhole : ∀ n bs, t.pc.whole = some (n, bs) → bs.length = n) :
    Local d incoming t := by
  constructor
  · intro q hq
    rw [hp] at hq
    obtain rfl := Option.some.inj hq
    exact hdest
  · intro file' written' hw
    rw [hwrote] at hw
    obtain ⟨rfl, rfl⟩ := Prod.mk.inj (Option.some.inj hw)
    exact hbytes
  · intro q listening connected hw
    rw [waits_of_wrote hwrote] at hw
    cases hw
  · exact hwhole

/-- A task that waits has the placeholder and its entry. -/
theorem local_waits {d : Dir} {incoming : TransferId → Option Incoming} {t : Task} {p : Place}
    {expectBytes : ℕ} {listening connected : Bool}
    (hwaits : t.pc.waits = some (p, listening, connected))
    (hdest : d.Contains p.dest p.no [])
    (hentry : incoming t.transfer = some ⟨p, expectBytes, listening, connected⟩) :
    Local d incoming t := by
  have hplace := place_of_waits hwaits
  have hpc : t.pc = .accept p ∨ t.pc = .waiting p ∨ t.pc = .receive p := by
    cases hpc : t.pc <;> rw [hpc] at hwaits <;> cases hwaits <;> simp
  constructor
  · intro q hq
    rw [hplace] at hq
    obtain rfl := Option.some.inj hq
    rcases hpc with hpc | hpc | hpc <;> rw [hpc] <;> exact hdest
  · intro file written hw
    rcases hpc with hpc | hpc | hpc <;> rw [hpc] at hw <;> cases hw
  · intro q l c hw
    rw [hwaits] at hw
    obtain ⟨rfl, hlc⟩ := Prod.mk.inj (Option.some.inj hw)
    obtain ⟨rfl, rfl⟩ := Prod.mk.inj hlc
    exact ⟨expectBytes, hentry⟩
  · intro n bs hw
    rcases hpc with hpc | hpc | hpc <;> rw [hpc] at hw <;> cases hw

theorem report (h : Tidy s) (reports : List TransferId) : Tidy { s with reports } :=
  ⟨h.sole, h.tasks, h.left, h.arrived, h.apart⟩

/-- A task that has reserved nothing goes on so. -/
theorem aside (h : Tidy s) (howned : Owned s) (ht : s.tasks i = some t)
    (hold : t.pc.place = none) (hpc : pc.place = none) : Tidy (s.goto i t pc) := by
  apply h.turn howned ht s.reserved
  · intro p hp
    rw [hpc] at hp
    cases hp
  · intro p hp
    rw [hold] at hp
    cases hp
  · intro j u p _ hu hp
    exact Nat.ne_of_lt (h.lt_reserved howned hu hp)
  · exact Lib.Tree.Keeps.refl _ _
  · intro name n _ hn
    exact hn
  · intro j u _ _ _
    rfl
  · intro r hr
    exact ⟨hr, Nat.ne_of_lt (h.arrived_lt howned hr)⟩
  · intro r hr
    exact .inl hr
  · exact local_of_none hpc
  · intro name hn
    exact absurd (howned.numbers name _ hn) (Nat.lt_irrefl _)

/-- Where the files of a task's reservation are. -/
theorem own_names (h : Tidy s) (ht : s.tasks i = some t) {p : Place} (hp : t.pc.place = some p)
    {name : String} (hn : s.dir.Holds name p.no) :
    name = p.dest ∨ name = tempBeside p.dest ∧ t.pc.temp.isSome := by
  rcases h.left name p.no hn with ⟨j, u, q, hu, hq, hno, hname⟩ | ⟨r, hr, hno, -⟩
  · obtain rfl := h.sole j i u t q p hu ht hq hp hno
    rw [ht] at hu
    obtain rfl := Option.some.inj hu
    rw [hp] at hq
    obtain rfl := Option.some.inj hq
    exact hname
  · exact absurd hno.symm (h.apart r hr i t p ht hp)

/-- A task goes on with its reservation. -/
theorem on (h : Tidy s) (howned : Owned s) (ht : s.tasks i = some t) {p : Place}
    (hp : t.pc.place = some p) (hpc : pc.place = some p) {dir : Dir} {offers : Offers}
    {incoming : TransferId → Option Incoming}
    (hkeeps : Lib.Tree.Keeps (Others p.no) s.dir dir)
    (hnew : ∀ name n, n ≠ p.no → dir.Holds name n → s.dir.Holds name n)
    (hentries : ∀ j u, j ≠ i → s.tasks j = some u → u.pc.waits ≠ none →
      incoming u.transfer = s.incoming u.transfer)
    (hlocal : Local dir incoming { t with pc })
    (hown : ∀ name, dir.Holds name p.no →
      name = p.dest ∨ name = tempBeside p.dest ∧ pc.temp.isSome) :
    Tidy ({ s with dir, offers, incoming }.goto i t pc) := by
  apply h.turn howned ht p.no
  · intro q hq
    rw [hpc] at hq
    rw [Option.some.inj hq]
  · intro q hq
    rw [hp] at hq
    rw [Option.some.inj hq]
  · intro j u q hj hu hq hno
    exact hj (h.sole j i u t q p hu ht hq hp hno)
  · exact hkeeps
  · exact hnew
  · exact hentries
  · intro r hr
    exact ⟨hr, (h.apart r hr i t p ht hp).symm⟩
  · intro r hr
    exact .inl hr
  · exact hlocal
  · intro name hn
    exact .inl ⟨p, hpc, hown name hn⟩

/-- A task goes on, and the directory stays. -/
theorem stay (h : Tidy s) (howned : Owned s) (ht : s.tasks i = some t) {p : Place}
    (hp : t.pc.place = some p) (hpc : pc.place = some p) {offers : Offers}
    {incoming : TransferId → Option Incoming}
    (hentries : ∀ j u, j ≠ i → s.tasks j = some u → u.pc.waits ≠ none →
      incoming u.transfer = s.incoming u.transfer)
    (hlocal : Local s.dir incoming { t with pc })
    (htemp : t.pc.temp.isSome = true → pc.temp.isSome = true) :
    Tidy ({ s with offers, incoming }.goto i t pc) := by
  apply h.on howned ht hp hpc (Lib.Tree.Keeps.refl _ _)
  · intro name n _ hn
    exact hn
  · exact hentries
  · exact hlocal
  · intro name hn
    rcases h.own_names ht hp hn with hdest | ⟨hname, hsome⟩
    · exact .inl hdest
    · exact .inr ⟨hname, htemp hsome⟩

/-- Nobody else waits under the key of a task that does. -/
theorem waits_alone (h : Tidy s) (ht : s.tasks i = some t) {p : Place}
    {listening connected : Bool} (hw : t.pc.waits = some (p, listening, connected)) {j : ℕ}
    {u : Task} (hj : j ≠ i) (hu : s.tasks j = some u) (hwaits : u.pc.waits ≠ none) :
    u.transfer ≠ t.transfer := by
  intro htransfer
  obtain ⟨⟨q, l, c⟩, hq⟩ := Option.ne_none_iff_exists'.mp hwaits
  obtain ⟨n, he⟩ := (h.tasks i t ht).entry p listening connected hw
  obtain ⟨n', he'⟩ := (h.tasks j u hu).entry q l c hq
  rw [htransfer, he] at he'
  have hplace : p = q := congrArg Incoming.place (Option.some.inj he')
  rw [hplace] at hw
  exact hj (h.sole j i u t q q hu ht (place_of_waits hq) (place_of_waits hw) rfl)

theorem update_entry {f : TransferId → Option Incoming} {transfer transfer' : TransferId}
    {e : Option Incoming} (h : transfer' ≠ transfer) :
    Function.update f transfer e transfer' = f transfer' :=
  Function.update_of_ne h ..

/-- Nobody waits, so the table may lose the entry. -/
theorem ne_of_noWaiting (howned : Owned s) {transfer : TransferId} (hno : NoWaiting s transfer)
    {j : ℕ} {u : Task} (hu : s.tasks j = some u) (hwaits : u.pc.waits ≠ none) :
    u.transfer ≠ transfer := by
  intro htransfer
  exact hwaits (hno j (howned.spawned j u hu) u hu htransfer)

/-- A name is reserved, and its placeholder is empty. -/
theorem reserve (h : Tidy s) (howned : Owned s) (ht : s.tasks i = some t)
    (hold : t.pc.place = none) {name : String} {dir : Dir}
    (hdir : s.dir.createNew name s.reserved = some dir) (expectBytes : ℕ) :
    Tidy ({ s with dir, reserved := s.reserved + 1 }.goto i t
      (.bind expectBytes ⟨name, s.reserved⟩)) := by
  obtain ⟨hfree, rfl⟩ : s.dir.dir name = none ∧ s.dir.add name s.reserved = dir := by
    unfold Lib.Tree.createNew at hdir
    split at hdir
    · cases hdir
    · exact ⟨‹_›, Option.some.inj hdir⟩
  have hnothing : ∀ a, ¬s.dir.Holds a s.reserved := by
    intro a ha
    exact absurd (howned.numbers a _ ha) (Nat.lt_irrefl _)
  apply h.turn howned ht s.reserved
  · intro p hp
    obtain rfl := Option.some.inj hp
    rfl
  · intro p hp
    rw [hold] at hp
    cases hp
  · intro j u p _ hu hp
    exact Nat.ne_of_lt (h.lt_reserved howned hu hp)
  · exact Lib.Tree.keeps_add howned.sound hfree
  · intro a n hn ha
    rcases Lib.Tree.holds_of_add ha with hsame | ha
    · exact absurd hsame hn
    · exact ha
  · intro j u _ _ _
    rfl
  · intro r hr
    exact ⟨hr, Nat.ne_of_lt (h.arrived_lt howned hr)⟩
  · intro r hr
    exact .inl hr
  · obtain ⟨hat, howner⟩ : (s.dir.add name s.reserved).dir name = some (.made s.dir.made) ∧
        (s.dir.add name s.reserved).owner (.made s.dir.made) = some s.reserved := Lib.Tree.add_self
    exact local_plain rfl ⟨_, hat, howner, Function.update_self ..⟩ rfl rfl rfl
  · intro a ha
    have hname : a = name := by
      by_contra hne
      obtain ⟨ino, hino, howner⟩ := ha
      rw [add_dir hne] at hino
      have hmade : ino ≠ .made s.dir.made := by
        rintro rfl
        exact absurd (howned.sound.made a _ hino) (Nat.lt_irrefl _)
      have howner' : s.dir.owner ino = some s.reserved := by
        unfold Lib.Tree.add at howner
        dsimp only at howner
        rwa [Function.update_of_ne hmade] at howner
      exact hnothing a ⟨ino, hino, howner'⟩
    exact .inl ⟨_, rfl, .inl hname⟩

theorem created (h : Tidy s) (howned : Owned s) (ht : s.tasks i = some t) {p : Place}
    {expectBytes : ℕ} (hpc : t.pc = .create p expectBytes)
    (hclear : s.dir.Clear (Others p.no) (tempBeside p.dest)) :
    Tidy ({ s with dir := s.dir.create (tempBeside p.dest) p.no }.goto i t
      (.read p expectBytes (s.dir.opened (tempBeside p.dest)) [])) := by
  have hp : t.pc.place = some p := by rw [hpc]; rfl
  have hdest := (h.tasks i t ht).dest p hp
  rw [hpc] at hdest
  apply h.on howned ht hp rfl
  · exact Lib.Tree.keeps_create howned.sound hclear
  · intro name n hn hholds
    rcases Lib.Tree.holds_of_create hholds with hsame | hholds
    · exact absurd hsame hn
    · exact hholds
  · intro j u _ _ _
    rfl
  · apply local_writes (p := p) rfl
    · exact hdest.create howned.sound tempBeside_ne
    · rfl
    · exact Lib.Tree.create_bytes
    · nofun
  · intro name hn
    by_cases hname : name = tempBeside p.dest
    · exact .inr ⟨hname, rfl⟩
    · left
      obtain ⟨ino, hdir, howner⟩ := hn
      obtain ⟨hdir', howner'⟩ := Lib.Tree.created_of_ne howned.sound hname hdir
      rcases h.own_names ht hp ⟨ino, hdir', howner'.symm.trans howner⟩ with hsame | ⟨hsame, -⟩
      · exact hsame
      · exact absurd hsame hname

/-- A file that is written to has so much more. -/
theorem wrote (h : Tidy s) (howned : Owned s) (ht : s.tasks i = some t) {p : Place}
    {expectBytes : ℕ} {file : Lib.Inode String} {written plain : Bytes}
    (hpc : t.pc = .write p expectBytes file written plain) (bs : Bytes) (hplace : pc.place = some p)
    (hcontent : pc.content = []) (htemp : pc.temp = some (p, file))
    (hlocal : (s.dir.append file bs).Contains p.dest p.no pc.content →
      (s.dir.append file bs).bytes file = written ++ bs →
      Local (s.dir.append file bs) s.incoming { t with pc }) :
    Tidy ({ s with dir := s.dir.append file bs }.goto i t pc) := by
  have hp : t.pc.place = some p := by rw [hpc]; rfl
  have htemp' : t.pc.temp = some (p, file) := by rw [hpc]; rfl
  obtain ⟨hdir, howner⟩ := howned.temp i t p file ht htemp'
  have hdest := (h.tasks i t ht).dest p hp
  have hbytes := (h.tasks i t ht).wrote file written (by rw [hpc]; rfl)
  rw [hpc] at hdest
  apply h.on howned ht hp hplace
  · apply Lib.Tree.keeps_append
    intro hother
    exact Owned.others_le _ hother howner
  · intro name n _ hn
    exact hn
  · intro j u _ _ _
    rfl
  · apply hlocal
    · rw [hcontent]
      exact hdest.append howned.sound tempBeside_ne hdir
    · rw [← hbytes]
      exact Function.update_self ..
  · intro name hn
    rcases h.own_names ht hp hn with hsame | ⟨hsame, -⟩
    · exact .inl hsame
    · rw [htemp]
      exact .inr ⟨hsame, rfl⟩

theorem renamed (h : Tidy s) (howned : Owned s) (ht : s.tasks i = some t) {p : Place}
    {expectBytes : ℕ} {file : Lib.Inode String} {written : Bytes}
    (hpc : t.pc = .rename p expectBytes file written) :
    Tidy ({ s with dir := s.dir.rename (tempBeside p.dest) p.dest }.goto i t
      (.forget p (some (expectBytes, written)))) := by
  have hp : t.pc.place = some p := by rw [hpc]; rfl
  have hheld : t.pc.held = some p := by rw [hpc]; rfl
  have htemp : t.pc.temp = some (p, file) := by rw [hpc]; rfl
  obtain ⟨hdir, howner⟩ := howned.temp i t p file ht htemp
  have hbytes := (h.tasks i t ht).wrote file written (by rw [hpc]; rfl)
  have hlength := (h.tasks i t ht).whole expectBytes written (by rw [hpc]; rfl)
  have hwhat : (s.dir.rename (tempBeside p.dest) p.dest).Contains p.dest p.no written := by
    refine ⟨file, Lib.Tree.rename_target hdir, ?_, ?_⟩
    · rw [Lib.Tree.rename_owner]
      exact howner
    · rw [Lib.Tree.rename_bytes]
      exact hbytes
  apply h.on howned ht hp rfl
  · apply Lib.Tree.Keeps.mono _ Owned.others_le
    exact Lib.Tree.keeps_rename (howned.clear_temp ht htemp) (howned.clear_dest ht hheld)
  · intro name n hn hholds
    rcases Lib.Tree.holds_of_rename hholds with ⟨ino, hino, hno⟩ | hholds
    · rw [hdir] at hino
      rw [← Option.some.inj hino, howner] at hno
      exact absurd (Option.some.inj hno).symm hn
    · exact hholds
  · intro j u _ _ _
    rfl
  · constructor
    · intro q hq
      obtain rfl := Option.some.inj hq
      exact hwhat
    · nofun
    · nofun
    · intro n bs hw
      obtain ⟨rfl, rfl⟩ := Prod.mk.inj (Option.some.inj hw)
      exact hlength
  · rintro name ⟨ino, hino, hno⟩
    rw [Lib.Tree.rename_owner] at hno
    rcases Lib.Tree.rename_dir hino with ⟨hname, -⟩ | ⟨hino, hnone | ⟨hsource, htarget⟩⟩
    · exact .inl hname
    · rw [hdir] at hnone
      cases hnone
    · rcases h.own_names ht hp ⟨ino, hino, hno⟩ with hsame | ⟨hsame, -⟩
      · exact absurd hsame htarget
      · exact absurd hsame hsource

theorem removed (h : Tidy s) (howned : Owned s) (ht : s.tasks i = some t) {p : Place}
    {file : Lib.Inode String} (hpc : t.pc = .remove p file) :
    Tidy ({ s with dir := s.dir.remove (tempBeside p.dest) }.goto i t (.forget p none)) := by
  have hp : t.pc.place = some p := by rw [hpc]; rfl
  have htemp : t.pc.temp = some (p, file) := by rw [hpc]; rfl
  have hdest := (h.tasks i t ht).dest p hp
  rw [hpc] at hdest
  apply h.on howned ht hp rfl
  · exact (Lib.Tree.keeps_remove (howned.clear_temp ht htemp)).mono Owned.others_le
  · intro name n _ hn
    exact Lib.Tree.holds_of_remove hn
  · intro j u _ _ _
    rfl
  · exact local_plain (p := p) rfl (hdest.remove tempBeside_ne) rfl rfl rfl
  · rintro name ⟨ino, hino, hno⟩
    obtain ⟨hne, hino⟩ := Lib.Tree.remove_dir hino
    rcases h.own_names ht hp ⟨ino, hino, hno⟩ with hsame | ⟨hsame, -⟩
    · exact .inl hsame
    · exact absurd hsame hne

/-- The end of a transfer that failed: its name is free again. -/
theorem unlinked (h : Tidy s) (howned : Owned s) (ht : s.tasks i = some t) {p : Place}
    (hpc : t.pc = .unlink p) : Tidy ({ s with dir := s.dir.remove p.dest }.finish i t false) := by
  have hp : t.pc.place = some p := by rw [hpc]; rfl
  have hheld : t.pc.held = some p := by rw [hpc]; rfl
  have hgoto : Tidy ({ s with dir := s.dir.remove p.dest }.goto i t (.finished false)) := by
    apply h.turn howned ht p.no
    · nofun
    · intro q hq
      rw [hp] at hq
      rw [Option.some.inj hq]
    · intro j u q hj hu hq hno
      exact hj (h.sole j i u t q p hu ht hq hp hno)
    · exact (Lib.Tree.keeps_remove (howned.clear_dest ht hheld)).mono Owned.others_le
    · intro name n _ hn
      exact Lib.Tree.holds_of_remove hn
    · intro j u _ _ _
      rfl
    · intro r hr
      exact ⟨hr, (h.apart r hr i t p ht hp).symm⟩
    · intro r hr
      exact .inl hr
    · exact local_of_none rfl
    · rintro name ⟨ino, hino, hno⟩
      obtain ⟨hne, hino⟩ := Lib.Tree.remove_dir hino
      rcases h.own_names ht hp ⟨ino, hino, hno⟩ with hsame | ⟨-, hsome⟩
      · exact absurd hsame hne
      · rw [hpc] at hsome
        cases hsome
  exact hgoto.report _

/-- The end of a transfer that succeeded. -/
theorem succeeded (h : Tidy s) (howned : Owned s) (ht : s.tasks i = some t) {p : Place}
    {whole : ℕ × Bytes} (hpc : t.pc = .forget p (some whole))
    (hno : NoWaiting s t.transfer) :
    Tidy ({ s.forget t.transfer with arrived := s.arrived ++ [(p, whole)] }.finish i t true) := by
  have hp : t.pc.place = some p := by rw [hpc]; rfl
  have hdest := (h.tasks i t ht).dest p hp
  have hlength := (h.tasks i t ht).whole whole.1 whole.2 (by rw [hpc]; rfl)
  rw [hpc] at hdest
  have hgoto : Tidy ({ s with
      offers := s.offers.erase t.transfer
      incoming := Function.update s.incoming t.transfer none
      arrived := s.arrived ++ [(p, whole)] }.goto i t (.finished true)) := by
    apply h.turn howned ht p.no
    · nofun
    · intro q hq
      rw [hp] at hq
      rw [Option.some.inj hq]
    · intro j u q hj hu hq hno
      exact hj (h.sole j i u t q p hu ht hq hp hno)
    · exact Lib.Tree.Keeps.refl _ _
    · intro name n _ hn
      exact hn
    · intro j u _ hu hw
      exact update_entry (ne_of_noWaiting howned hno hu hw)
    · intro r hr
      exact ⟨List.mem_append_left _ hr, (h.apart r hr i t p ht hp).symm⟩
    · intro r hr
      rcases List.mem_append.mp hr with hr | hr
      · exact .inl hr
      · obtain rfl := List.mem_singleton.mp hr
        exact .inr ⟨rfl, rfl, hdest, hlength⟩
    · exact local_of_none rfl
    · intro name hn
      rcases h.own_names ht hp hn with hsame | ⟨-, hsome⟩
      · exact .inr ⟨(p, whole), List.mem_append_right _ (List.mem_singleton_self _), rfl, hsame⟩
      · rw [hpc] at hsome
        cases hsome
  exact hgoto.report _

/-- A task that waits goes on to wait for the next thing. -/
theorem waits_on (h : Tidy s) (howned : Owned s) (ht : s.tasks i = some t) {p : Place}
    {listening connected l c : Bool} (hw : t.pc.waits = some (p, listening, connected))
    (hpc : pc.waits = some (p, l, c)) {expectBytes : ℕ} (htemp : t.pc.temp = none)
    (hdest : s.dir.Contains p.dest p.no []) :
    Tidy ((s.setIncoming t.transfer ⟨p, expectBytes, l, c⟩).goto i t pc) := by
  apply h.stay howned ht (place_of_waits hw) (place_of_waits hpc)
  · intro j u hj hu hwaits
    exact update_entry (h.waits_alone ht hw hj hu hwaits)
  · exact local_waits hpc hdest (Function.update_self ..)
  · rw [htemp]
    nofun

theorem act_listen (h : Tidy s) (howned : Owned s) (ht : s.tasks i = some t) (a : Answer)
    {expectBytes : ℕ} (hpc : t.pc = .listen expectBytes) : Tidy (s.act i t a) := by
  have hnone : t.pc.place = none := by rw [hpc]; rfl
  unfold World.act
  rw [hpc]
  dsimp only
  split
  · exact h.aside howned ht hnone rfl
  · have hgoto : Tidy (s.goto i t (.finished false)) := h.aside howned ht hnone rfl
    exact hgoto.report _

theorem act_reserve (h : Tidy s) (howned : Owned s) (ht : s.tasks i = some t) (a : Answer)
    {expectBytes : ℕ} {names : List String} (hpc : t.pc = .reserve expectBytes names) :
    Tidy (s.act i t a) := by
  have hnone : t.pc.place = none := by rw [hpc]; rfl
  have hgoto : Tidy (s.goto i t (.finished false)) := h.aside howned ht hnone rfl
  have hfinish : Tidy (s.finish i t false) := hgoto.report _
  unfold World.act
  rw [hpc]
  cases names with
  | nil => exact hfinish
  | cons name rest =>
    dsimp only
    by_cases ha : a ≠ .works
    · rw [if_pos ha]
      exact hfinish
    · rw [if_neg ha]
      split
      · rename_i dir hdir
        exact h.reserve howned ht hnone hdir expectBytes
      · exact h.aside howned ht hnone rfl

/-- A socket is bound for the reservation, which the table then lists. -/
theorem act_bind (h : Tidy s) (howned : Owned s) (ht : s.tasks i = some t) {expectBytes : ℕ}
    {p : Place} (hpc : t.pc = .bind expectBytes p) (hno : NoWaiting s t.transfer) :
    Tidy (s.act i t .works) := by
  have hp : t.pc.place = some p := by rw [hpc]; rfl
  have hdest := (h.tasks i t ht).dest p hp
  rw [hpc] at hdest
  unfold World.act
  rw [hpc]
  dsimp only
  rw [if_pos rfl]
  apply h.stay howned ht hp
  · rfl
  · intro j u _ hu hwaits
    exact update_entry (ne_of_noWaiting howned hno hu hwaits)
  · exact local_waits rfl hdest (Function.update_self ..)
  · rw [hpc]
    nofun

theorem act_accept (h : Tidy s) (howned : Owned s) (ht : s.tasks i = some t) (a : Answer)
    {p : Place} (hpc : t.pc = .accept p) : Tidy (s.act i t a) := by
  have hw : t.pc.waits = some (p, true, false) := by rw [hpc]; rfl
  have hdest := (h.tasks i t ht).dest p (place_of_waits hw)
  obtain ⟨n, he⟩ := (h.tasks i t ht).entry p true false hw
  rw [hpc] at hdest
  unfold World.act
  rw [hpc]
  dsimp only
  rw [he]
  exact h.waits_on howned ht hw rfl (by rw [hpc]; rfl) hdest

theorem act_waiting (h : Tidy s) (howned : Owned s) (ht : s.tasks i = some t) {p : Place}
    (hpc : t.pc = .waiting p) : Tidy (s.act i t .works) := by
  have hw : t.pc.waits = some (p, false, false) := by rw [hpc]; rfl
  have hdest := (h.tasks i t ht).dest p (place_of_waits hw)
  obtain ⟨n, he⟩ := (h.tasks i t ht).entry p false false hw
  rw [hpc] at hdest
  unfold World.act
  rw [hpc]
  dsimp only
  rw [he]
  exact h.waits_on howned ht hw rfl (by rw [hpc]; rfl) hdest

/-- The connection is taken out of the table, and nobody else waited for it. -/
theorem act_receive (h : Tidy s) (howned : Owned s) (ht : s.tasks i = some t) (a : Answer)
    {p : Place} (hpc : t.pc = .receive p) : Tidy (s.act i t a) := by
  have hw : t.pc.waits = some (p, false, true) := by rw [hpc]; rfl
  have hdest := (h.tasks i t ht).dest p (place_of_waits hw)
  obtain ⟨n, he⟩ := (h.tasks i t ht).entry p false true hw
  rw [hpc] at hdest
  unfold World.act
  rw [hpc]
  dsimp only
  rw [he]
  apply h.stay howned ht (place_of_waits hw)
  · rfl
  · intro j u hj hu hwaits
    exact update_entry (h.waits_alone ht hw hj hu hwaits)
  · exact local_plain (p := p) rfl hdest rfl rfl rfl
  · rw [hpc]
    nofun

theorem act_create (h : Tidy s) (howned : Owned s) (ht : s.tasks i = some t) (a : Answer)
    {p : Place} {expectBytes : ℕ} (hpc : t.pc = .create p expectBytes)
    (hclear : a = .works → s.dir.Clear (Others p.no) (tempBeside p.dest)) :
    Tidy (s.act i t a) := by
  have hp : t.pc.place = some p := by rw [hpc]; rfl
  have hdest := (h.tasks i t ht).dest p hp
  rw [hpc] at hdest
  unfold World.act
  rw [hpc]
  dsimp only
  by_cases ha : a = .works
  · rw [if_pos ha]
    exact h.created howned ht hpc (hclear ha)
  · rw [if_neg ha]
    apply h.stay howned ht hp
    · rfl
    · intro _ _ _ _ _
      rfl
    · exact local_plain (p := p) rfl hdest rfl rfl rfl
    · rw [hpc]
      nofun

/-- A frame that opened, or the clean end: what was written so far is in the file. -/
theorem act_read (h : Tidy s) (howned : Owned s) (ht : s.tasks i = some t) (a : Answer) {p : Place}
    {expectBytes : ℕ} {file : Lib.Inode String} {written : Bytes}
    (hpc : t.pc = .read p expectBytes file written) : Tidy (s.act i t a) := by
  have hp : t.pc.place = some p := by rw [hpc]; rfl
  have hdest := (h.tasks i t ht).dest p hp
  have hbytes := (h.tasks i t ht).wrote file written (by rw [hpc]; rfl)
  rw [hpc] at hdest
  have hsame : ∀ j u, j ≠ i → s.tasks j = some u → u.pc.waits ≠ none →
      s.incoming u.transfer = s.incoming u.transfer := fun _ _ _ _ _ => rfl
  have hremove : Tidy (s.goto i t (.remove p file)) := by
    apply h.stay howned ht hp rfl hsame
    · exact local_plain (p := p) rfl hdest rfl rfl rfl
    · rw [hpc]
      exact fun _ => rfl
  unfold World.act
  rw [hpc]
  dsimp only
  split
  · split_ifs
    · exact hremove
    · apply h.stay howned ht hp rfl hsame
      · exact local_writes (p := p) rfl hdest rfl hbytes nofun
      · rw [hpc]
        exact fun _ => rfl
  · split_ifs with hlength
    · apply h.stay howned ht hp rfl hsame
      · apply local_writes (p := p) rfl hdest rfl hbytes
        intro n bs hw
        obtain ⟨rfl, rfl⟩ := Prod.mk.inj (Option.some.inj hw)
        exact hlength
      · rw [hpc]
        exact fun _ => rfl
    · exact hremove
  · exact hremove

theorem act_write (h : Tidy s) (howned : Owned s) (ht : s.tasks i = some t) (a : Answer) {p : Place}
    {expectBytes : ℕ} {file : Lib.Inode String} {written plain : Bytes}
    (hpc : t.pc = .write p expectBytes file written plain) : Tidy (s.act i t a) := by
  have hp : t.pc.place = some p := by rw [hpc]; rfl
  have hdest := (h.tasks i t ht).dest p hp
  rw [hpc] at hdest
  unfold World.act
  rw [hpc]
  dsimp only
  split
  · apply h.wrote howned ht hpc plain rfl rfl rfl
    intro hplaceholder hbytes
    exact local_writes (p := p) rfl hplaceholder rfl hbytes nofun
  · rename_i done
    apply h.wrote howned ht hpc (plain.take done) rfl rfl rfl
    intro hplaceholder _
    exact local_plain (p := p) rfl hplaceholder rfl rfl rfl
  · apply h.stay howned ht hp rfl
    · intro _ _ _ _ _
      rfl
    · exact local_plain (p := p) rfl hdest rfl rfl rfl
    · rw [hpc]
      exact fun _ => rfl

theorem act_rename (h : Tidy s) (howned : Owned s) (ht : s.tasks i = some t) {p : Place}
    {expectBytes : ℕ} {file : Lib.Inode String} {written : Bytes}
    (hpc : t.pc = .rename p expectBytes file written) : Tidy (s.act i t .works) := by
  have htemp : t.pc.temp = some (p, file) := by rw [hpc]; rfl
  obtain ⟨hdir, -⟩ := howned.temp i t p file ht htemp
  unfold World.act
  rw [hpc]
  dsimp only
  rw [if_pos ⟨rfl, by rw [hdir]; rfl⟩]
  exact h.renamed howned ht hpc

theorem act_forget (h : Tidy s) (howned : Owned s) (ht : s.tasks i = some t) (a : Answer)
    {p : Place} {arrived : Option (ℕ × Bytes)} (hpc : t.pc = .forget p arrived)
    (hno : NoWaiting s t.transfer) : Tidy (s.act i t a) := by
  have hp : t.pc.place = some p := by rw [hpc]; rfl
  have hdest := (h.tasks i t ht).dest p hp
  rw [hpc] at hdest
  unfold World.act
  rw [hpc]
  cases arrived with
  | some whole => exact h.succeeded howned ht hpc hno
  | none =>
    apply h.stay howned ht hp
    · rfl
    · intro j u _ hu hwaits
      exact update_entry (ne_of_noWaiting howned hno hu hwaits)
    · exact local_plain (p := p) rfl hdest rfl rfl rfl
    · rw [hpc]
      nofun

/-- The placeholder is still there and empty, so it is unlinked next. -/
theorem act_check (h : Tidy s) (howned : Owned s) (ht : s.tasks i = some t) {p : Place}
    (hpc : t.pc = .check p) : Tidy (s.act i t .works) := by
  have hp : t.pc.place = some p := by rw [hpc]; rfl
  have hdest := (h.tasks i t ht).dest p hp
  rw [hpc] at hdest
  obtain ⟨ino, hino, -, hempty⟩ := id hdest
  have hplaceholder : (s.dir.dir p.dest).any (fun file => s.dir.bytes file = []) = true := by
    rw [hino]
    exact decide_eq_true hempty
  unfold World.act
  rw [hpc]
  dsimp only
  rw [if_pos ⟨rfl, hplaceholder⟩]
  apply h.stay howned ht hp
  · rfl
  · intro _ _ _ _ _
    rfl
  · exact local_plain (p := p) rfl hdest rfl rfl rfl
  · rw [hpc]
    nofun

/-- What a task does keeps order, where what gives its name up works. -/
theorem act (h : Tidy s) (howned : Owned s) (ht : s.tasks i = some t) (a : Answer)
    (hfair : Fair s t a) : Tidy (s.act i t a) := by
  unfold Fair at hfair
  cases hpc : t.pc with
  | listen expectBytes => exact h.act_listen howned ht a hpc
  | reserve expectBytes names => exact h.act_reserve howned ht a hpc
  | bind expectBytes p =>
    rw [hpc] at hfair
    obtain ⟨rfl, hno⟩ := hfair
    exact h.act_bind howned ht hpc hno
  | accept p => exact h.act_accept howned ht a hpc
  | waiting p =>
    rw [hpc] at hfair
    obtain rfl : a = .works := hfair
    exact h.act_waiting howned ht hpc
  | receive p => exact h.act_receive howned ht a hpc
  | create p expectBytes =>
    rw [hpc] at hfair
    exact h.act_create howned ht a hpc hfair
  | read p expectBytes file written => exact h.act_read howned ht a hpc
  | write p expectBytes file written plain => exact h.act_write howned ht a hpc
  | rename p expectBytes file written =>
    rw [hpc] at hfair
    obtain rfl : a = .works := hfair
    exact h.act_rename howned ht hpc
  | remove p file =>
    rw [hpc] at hfair
    obtain rfl : a = .works := hfair
    unfold World.act
    rw [hpc]
    dsimp only
    rw [if_pos rfl]
    exact h.removed howned ht hpc
  | forget p arrived =>
    rw [hpc] at hfair
    exact h.act_forget howned ht a hpc hfair
  | check p =>
    rw [hpc] at hfair
    obtain rfl : a = .works := hfair
    exact h.act_check howned ht hpc
  | unlink p =>
    rw [hpc] at hfair
    obtain rfl : a = .works := hfair
    unfold World.act
    rw [hpc]
    dsimp only
    rw [if_pos rfl]
    exact h.unlinked howned ht hpc
  | finished ok =>
    unfold World.act
    rwa [hpc]
  | gone =>
    unfold World.act
    rwa [hpc]

theorem forget (h : Tidy s) (howned : Owned s) {transfer : TransferId}
    (hno : NoWaiting s transfer) : Tidy (s.forget transfer) := by
  constructor
  · exact h.sole
  · intro j u hu
    apply h.local_frame howned hu s.reserved (Lib.Tree.Keeps.refl _ _)
    · intro p hp
      exact Nat.ne_of_lt (h.lt_reserved howned hu hp)
    · intro hwaits
      exact update_entry (ne_of_noWaiting howned hno hu hwaits)
  · exact h.left
  · exact h.arrived
  · exact h.apart

theorem running (h : Tidy s) (running : TransferId → Option ℕ) : Tidy { s with running } :=
  ⟨h.sole, h.tasks, h.left, h.arrived, h.apart⟩

/-- Tasks change otherwise than where they stand, or are new. -/
theorem retask (h : Tidy s) {tasks : ℕ → Option Task} {spawned : ℕ}
    (hback : ∀ j u, tasks j = some u → u.pc.place = none ∨
      ∃ v, s.tasks j = some v ∧ u.pc = v.pc ∧ u.transfer = v.transfer)
    (hforth : ∀ j v, s.tasks j = some v → ∃ u, tasks j = some u ∧ u.pc = v.pc) :
    Tidy { s with tasks, spawned } := by
  have hold : ∀ j u p, tasks j = some u → u.pc.place = some p →
      ∃ v, s.tasks j = some v ∧ v.pc.place = some p := by
    intro j u p hu hp
    rcases hback j u hu with hnone | ⟨v, hv, hpc, -⟩
    · rw [hnone] at hp
      cases hp
    · rw [hpc] at hp
      exact ⟨v, hv, hp⟩
  constructor
  · intro j k u v p q hu hv hp hq hno
    obtain ⟨u', hu', hp'⟩ := hold j u p hu hp
    obtain ⟨v', hv', hq'⟩ := hold k v q hv hq
    exact h.sole j k u' v' p q hu' hv' hp' hq' hno
  · intro j u hu
    rcases hback j u hu with hnone | ⟨v, hv, hpc, htransfer⟩
    · exact local_of_none hnone
    · obtain ⟨hdest, hwrote, hentry, hwhole⟩ := h.tasks j v hv
      constructor
      · rwa [hpc]
      · rwa [hpc]
      · rwa [hpc, htransfer]
      · rwa [hpc]
  · intro name no hn
    rcases h.left name no hn with ⟨j, v, p, hv, hp, hno, hname⟩ | hr
    · obtain ⟨u, hu, hpc⟩ := hforth j v hv
      rw [← hpc] at hp hname
      exact .inl ⟨j, u, p, hu, hp, hno, hname⟩
    · exact .inr hr
  · exact h.arrived
  · intro r hr j u p hu hp
    obtain ⟨v, hv, hp'⟩ := hold j u p hu hp
    exact h.apart r hr j v p hv hp'

theorem abort (h : Tidy s) (i : ℕ) : Tidy (s.abort i) := by
  apply h.retask
  · intro j u hu
    rw [Function.update_apply] at hu
    by_cases hj : j = i
    · rw [if_pos hj, ← hj] at hu
      obtain ⟨v, hv, rfl⟩ := Option.map_eq_some_iff.mp hu
      exact .inr ⟨v, hv, rfl, rfl⟩
    · rw [if_neg hj] at hu
      exact .inr ⟨u, hu, rfl, rfl⟩
  · intro j v hv
    rw [Function.update_apply]
    by_cases hj : j = i
    · rw [if_pos hj, ← hj, hv]
      exact ⟨_, rfl, rfl⟩
    · rw [if_neg hj]
      exact ⟨v, hv, rfl⟩

theorem bulkListen (h : Tidy s) (howned : Owned s) (transfer : TransferId) (expectBytes : ℕ) :
    Tidy (s.bulkListen transfer expectBytes) := by
  have hnew : Tidy { s with
      tasks := Function.update s.tasks s.spawned (some ⟨transfer, .listen expectBytes, false⟩)
      spawned := s.spawned + 1 } := by
    apply h.retask
    · intro j u hu
      rw [Function.update_apply] at hu
      by_cases hj : j = s.spawned
      · rw [if_pos hj] at hu
        rw [← Option.some.inj hu]
        exact .inl rfl
      · rw [if_neg hj] at hu
        exact .inr ⟨u, hu, rfl, rfl⟩
    · intro j v hv
      have hj : j ≠ s.spawned := Nat.ne_of_lt (howned.spawned j v hv)
      exact ⟨v, (Function.update_of_ne hj ..).trans hv, rfl⟩
  exact hnew.running _

theorem bulkCancel (h : Tidy s) (howned : Owned s) {transfer : TransferId}
    (hno : NoWaiting s transfer) : Tidy (s.bulkCancel transfer) := by
  unfold World.bulkCancel
  split
  · rename_i i _
    have hstill : NoWaiting (s.abort i) transfer := by
      intro j hj u hu htransfer
      have hu' : Function.update s.tasks i
        ((s.tasks i).map fun t => { t with aborted := true }) j = some u := hu
      rw [Function.update_apply] at hu'
      by_cases hji : j = i
      · rw [if_pos hji, ← hji] at hu'
        obtain ⟨v, hv, rfl⟩ := Option.map_eq_some_iff.mp hu'
        exact hno j hj v hv htransfer
      · rw [if_neg hji] at hu'
        exact hno j hj u hu' htransfer
    exact ((h.abort i).running _).forget ((howned.abort i).running _) hstill
  · exact h.forget howned hno

/-- What a task that receives is about to take, nobody acts for. -/
theorem unheld_of_receive (h : Tidy s) (ht : s.tasks i = some t) {p : Place}
    (hpc : t.pc = .receive p) {e : Incoming} (he : s.incoming t.transfer = some e) : Unheld s e.place.no := by
  obtain ⟨n, he'⟩ := (h.tasks i t ht).entry p false true (by rw [hpc]; rfl)
  rw [he] at he'
  have hplace : e.place = p := congrArg Incoming.place (Option.some.inj he')
  intro j _ q hq hno
  obtain ⟨u, hu, hq⟩ := Option.bind_eq_some_iff.mp hq
  rw [hplace] at hno
  obtain rfl := h.sole j i u t q p hu ht (place_of_held hq) (by rw [hpc]; rfl) hno
  rw [ht] at hu
  rw [← Option.some.inj hu, hpc] at hq
  cases hq

/-- Orderly steps take connections for reservations that nobody else acts for. -/
theorem apart_of_orderly (h : Tidy s) {x : Step} (hx : Orderly s x) : Apart s x := by
  constructor
  · intro p hp
    cases x with
    | proceed i a =>
      unfold creating at hp
      dsimp only at hp
      split at hp
      · rename_i transfer q expectBytes ht
        split_ifs at hp with ha
        · obtain rfl := Option.some.inj hp
          exact hx _ ht rfl ha
        · cases hp
      · cases hp
    | stop i a =>
      unfold creating at hp
      dsimp only at hp
      split at hp
      · rename_i transfer q expectBytes ht
        exact absurd (hx _ ht) (by simp [At.awaits])
      · cases hp
    | _ => cases hp
  · intro p hp
    cases x with
    | proceed i a =>
      unfold taking at hp
      dsimp only at hp
      split at hp
      · rename_i transfer q aborted ht
        split at hp
        · rename_i e he
          split_ifs at hp with hconnected
          · obtain rfl := Option.some.inj hp
            exact h.unheld_of_receive ht rfl he
          · cases hp
        · cases hp
      · cases hp
    | _ => cases hp

theorem step (h : Tidy s) (howned : Owned s) {x : Step} (hx : Orderly s x) :
    Tidy (Downloads.step s x) := by
  cases x with
  | note peer offer => exact ⟨h.sole, h.tasks, h.left, h.arrived, h.apart⟩
  | forget transfer => exact h.forget howned hx
  | bulkListen transfer expectBytes => exact h.bulkListen howned transfer expectBytes
  | bulkCancel transfer => exact h.bulkCancel howned hx
  | takeReport =>
    show Tidy s.takeReport
    unfold World.takeReport
    split
    · rename_i transfer rest _
      exact (h.report rest).running (Function.update s.running transfer none)
    · exact h
  | proceed i a =>
    show Tidy (s.proceed i a)
    unfold World.proceed
    cases ht : s.tasks i with
    | none => exact h
    | some t =>
      dsimp only
      by_cases hstopped : (t.aborted && t.pc.awaits) = true
      · rw [if_pos hstopped]
        exact h
      · rw [if_neg hstopped]
        exact h.act howned ht a (hx t ht (Bool.eq_false_iff.mpr hstopped))
  | stop i a =>
    show Tidy (s.stop i a)
    unfold World.stop
    cases ht : s.tasks i with
    | none => exact h
    | some t =>
      have hruns := hx t ht
      dsimp only
      split
      · rename_i hpc
        exact h.aside howned ht (by rw [hpc]; rfl) rfl
      · rename_i haborted _
        rw [haborted, Bool.true_and] at hruns
        rw [hruns]
        exact h
      · exact h

end Tidy

/-- Where no name is given up before its connection is taken, transfers that are over leave
nothing but whole files. -/
theorem orderly_leaves_nothing (files : String → Option Bytes) (steps : List Step)
    (h : Lib.Along step Orderly (.new files) steps) :
    Clean (Lib.run step (.new files) steps) := by
  have hboth : Owned (Lib.run step (.new files) steps) ∧
      Tidy (Lib.run step (.new files) steps) := by
    apply h.inv (I := fun s => Owned s ∧ Tidy s)
    · intro s x hs hx
      exact ⟨hs.1.step (hs.2.apart_of_orderly hx), hs.2.step hs.1 hx⟩
    · exact ⟨Owned.new files, Tidy.new files⟩
  exact hboth.2.clean

def takenBack : List Step :=
  [.note "phone" ⟨1, "a.txt", 3, "text/plain"⟩, .bulkListen 1 3] ++
    List.replicate 4 (.proceed 0 .works) ++ [.bulkCancel 1, .stop 0 .works]

/-- Its placeholder stays. -/
theorem taken_back_leaves_its_placeholder :
    ¬Clean (Lib.run step (.new fun _ => none) takenBack) := by
  intro h
  have howned := owned_of_free (fun _ => none) takenBack (by decide +kernel)
  rcases h.left "a.txt" 0 ⟨.made 0, by decide +kernel, by decide +kernel⟩ with hgoing | harrived
  · obtain ⟨i, t, p, ht, hp, -⟩ := hgoing
    have hlt : i < 1 := howned.spawned i t ht
    obtain rfl : i = 0 := by omega
    have hnone : ∀ u ∈ (Lib.run step (.new fun _ => none) takenBack).tasks 0,
        u.pc.place = none := by decide +kernel
    rw [hnone t ht] at hp
    cases hp
  · obtain ⟨r, hr, -⟩ := harrived
    have hnone : (Lib.run step (.new fun _ => none) takenBack).arrived = [] := by decide +kernel
    rw [hnone] at hr
    cases hr

/-- Of two files of one name one arrives, the other breaks off. -/
theorem one_arrives_one_breaks_off :
    Clean (Lib.run step (.new (oneFile "a.txt" [7]))
      (accepted 1 "a.txt" 1 0 2 ++ accepted 2 "a.txt" 2 1 3 ++
        [.proceed 0 .works, .proceed 1 .works, .proceed 0 (.chunk [1]), .proceed 1 (.chunk [2]),
          .proceed 0 .works, .proceed 1 .works, .proceed 0 .ends, .proceed 1 .ends,
          .proceed 0 .works, .proceed 1 .works, .proceed 0 .works, .proceed 1 .works,
          .proceed 1 .works, .proceed 1 .works])) :=
  orderly_leaves_nothing _ _ (by decide +kernel)

end Acrylius.Downloads
