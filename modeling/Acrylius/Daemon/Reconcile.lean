import Acrylius.Lib.Graft
import Acrylius.Lib.Disk
import Acrylius.Rt.Path
import Mathlib.Data.String.Basic
import Mathlib.Logic.Equiv.List

/-! `acryliusd config update`: what the schema has and the config file lacks is added to the file,
and what the file has and the schema lacks is reported (`reconcile.rs`). -/
namespace Acrylius
open Std Lib Lib.Nested

namespace Reconcile

/-- How a table is written: under a header or with dotted keys, or in line as a value is. -/
inductive Written where
  | header
  | inline
  deriving DecidableEq, Encodable

/-- `as_table` finds a table that is not written as a value. -/
def Written.opens : Written → Bool
  | .header => true
  | .inline => false

def Written.holds : Written → Written → Bool
  | .header, _ => true
  | .inline, w => w = .inline

abbrev Table (V : Type) := Nested String Written V

/-- A parsed file: no key twice in one table. -/
abbrev Document (V : Type) := {root : Table V // root.Sound Written.holds .header = true}

/-- The parser and printer of documents. What is printed reads back. -/
structure TomlEdit (V E : Type) where
  parse : String → Except E (Document V)
  print : Document V → String
  parse_print : ∀ d, parse (print d) = .ok d

def userOwned : List String := ["commands"]

/-- What an update changed: dotted paths, in the order they were inserted. -/
structure Added where
  keys : List String
  deriving DecidableEq

def join (parent key : String) : String :=
  if parent = "" then key else parent ++ "." ++ key

variable {V E : Type}

def asTable : Entry String Written V → Option (Table V)
  | .table .header t => some t
  | _ => none

def mergeTable : Table V → Table V → String → Table V × List String
  | into, .empty, _ => (into, [])
  | into, .value key v rest, parent =>
    match into.get key with
    | some _ => mergeTable into rest parent
    | none =>
      let (merged, added) := mergeTable (into.insert key (.value v)) rest parent
      (merged, join parent key :: added)
  | into, .table form key inner rest, parent =>
    match into.get key with
    | some existing =>
      if userOwned.contains (join parent key) then mergeTable into rest parent
      else
        match asTable existing, form with
        | some intoT, .header =>
          let (filled, below) := mergeTable intoT inner (join parent key)
          let (merged, added) := mergeTable (into.insert key (.table .header filled)) rest parent
          (merged, below ++ added)
        | _, _ => mergeTable into rest parent
    | none =>
      let (merged, added) := mergeTable (into.insert key (.table form inner)) rest parent
      (merged, join parent key :: added)

def collectUnknown : Table V → Table V → String → List String
  | .empty, _, _ => []
  | .value key _ rest, reference, parent =>
    (if userOwned.contains (join parent key) then []
      else match reference.get key with
        | none => [join parent key]
        | some _ => []) ++ collectUnknown rest reference parent
  | .table form key inner rest, reference, parent =>
    (if userOwned.contains (join parent key) then []
      else match reference.get key with
        | none => [join parent key]
        | some r =>
          match form, asTable r with
          | .header, some r => collectUnknown inner r (join parent key)
          | _, _ => []) ++ collectUnknown rest reference parent

/-- Whether the walk goes into what it finds at a path, below the path it started from. -/
def enters (parent : String) (p : List String) : Bool := !userOwned.contains (p.foldl join parent)

/-- A merge is a graft, and reports what was lacking. -/
theorem mergeTable_eq {reference : Table V} {m : Written}
    (hr : reference.Sound Written.holds m = true) (into : Table V) (parent : String) :
    mergeTable into reference parent =
      (into.graft Written.opens reference (enters parent),
        (reference.lacking Written.opens into (enters parent) fun _ => true).map
          (·.foldl join parent)) := by
  induction reference generalizing into parent m with
  | empty => rfl
  | value key v rest ih =>
    simp only [Nested.Sound, Bool.and_eq_true, Option.isNone_iff_eq_none] at hr
    rw [mergeTable, graft, lacking]
    cases into.get key with
    | some _ => exact ih hr.2 into parent
    | none =>
      simp only [ih hr.2, lacking_insert hr.1]
      rfl
  | table form key inner rest ihi ih =>
    simp only [Nested.Sound, Bool.and_eq_true, Option.isNone_iff_eq_none] at hr
    have hrest := ih hr.2 into parent
    rw [mergeTable, graft, lacking]
    cases into.get key with
    | none =>
      simp only [ih hr.2, lacking_insert hr.1.1.1]
      rfl
    | some existing =>
      by_cases howned : userOwned.contains (join parent key) = true
      · have henter : enters parent [key] = false := by
          simp only [enters, List.foldl_cons, List.foldl_nil, howned, Bool.not_true]
        cases existing <;> simp only [howned, henter, if_true, hrest, Bool.and_false] <;> rfl
      · have henter : enters parent [key] = true := by
          simp only [enters, List.foldl_cons, List.foldl_nil, howned, Bool.not_false]
        rcases existing with v | ⟨written, t⟩
        · simp only [howned, asTable, hrest]
          rfl
        · rcases written with _ | _
          · cases form with
            | inline => simp [asTable, hrest, Written.opens]
            | header =>
              simp only [howned, henter, asTable, Written.opens, ih hr.2, ihi hr.1.2,
                lacking_insert hr.1.1.1, Bool.and_self, if_true, if_false, Bool.false_eq_true,
                List.map_append, List.map_map]
              rfl
          · simp [asTable, hrest, Written.opens]

theorem collectUnknown_eq (doc reference : Table V) (parent : String) :
    collectUnknown doc reference parent =
      (doc.lacking Written.opens reference (enters parent) (enters parent)).map
        (·.foldl join parent) := by
  induction doc generalizing reference parent with
  | empty => rfl
  | value key v rest ih =>
    have henter : enters parent [key] = !userOwned.contains (join parent key) := rfl
    rw [collectUnknown, lacking, ih, henter]
    by_cases howned : userOwned.contains (join parent key) = true
    · cases reference.get key <;> simp only [howned] <;> rfl
    · cases reference.get key <;> simp only [howned] <;> rfl
  | table form key inner rest ihi ih =>
    have henter : enters parent [key] = !userOwned.contains (join parent key) := rfl
    rw [collectUnknown, lacking, ih, henter]
    by_cases howned : userOwned.contains (join parent key) = true
    · rcases reference.get key with _ | v | ⟨written, t⟩
      · simp only [howned]
        rfl
      · simp only [howned]
        rfl
      · simp only [howned, Bool.not_true, Bool.and_false]
        rfl
    · rcases reference.get key with _ | v | ⟨written, t⟩
      · simp only [howned]
        rfl
      · cases form <;> simp only [howned] <;> rfl
      · cases form with
        | inline => simp [Written.opens]
        | header =>
          cases written with
          | inline => simp [asTable, Written.opens]
          | header =>
            simp only [howned, asTable, Written.opens, ihi, Bool.not_false, Bool.and_self, if_true,
              Bool.false_eq_true, if_false, List.map_append, List.map_map]
            rfl

theorem sound_merge (doc reference : Document V) :
    (mergeTable doc.1 reference.1 "").1.Sound Written.holds .header = true := by
  rw [mergeTable_eq reference.2]
  apply sound_graft _ rfl doc.2 reference.2
  intro m m' hm
  cases m with
  | header => rfl
  | inline => contradiction

/-- A document with every setting the reference has and it lacks, and their paths. -/
def merge (doc reference : Document V) : Document V × Added :=
  (⟨(mergeTable doc.1 reference.1 "").1, sound_merge doc reference⟩,
    ⟨(mergeTable doc.1 reference.1 "").2⟩)

end Reconcile

open Reconcile

variable {V E : Type}

/-- The text to write and what was added. The input is returned unchanged when there is nothing to
add. -/
def reconcile (T : TomlEdit V E) (existing reference : String) : Except E (String × Added) := do
  let doc ← T.parse existing
  let reference ← T.parse reference
  let (doc, added) := merge doc reference
  if added.keys = [] then return (existing, added)
  return (T.print doc, added)

def unknownKeys (T : TomlEdit V E) (existing reference : String) : List String :=
  match T.parse existing, T.parse reference with
  | .ok doc, .ok reference => collectUnknown doc.1 reference.1 ""
  | _, _ => []

namespace Reconcile

def printed (p : List String) : String := p.foldl join ""

/-- The path a report names: its keys stand between the dots. -/
def read (s : String) : List String := (s.toList.splitOn '.').map String.ofList

/-- A path whose report names it: no key has a dot in it, and the first of several is not empty. -/
def Readable (p : List String) : Prop :=
  (∀ k ∈ p, '.' ∉ k.toList) ∧ (p.head? = some "" → p.length = 1)

variable {k : String} {p q : List String} {L : List (List String)}

theorem join_of_ne {parent : String} (h : parent ≠ "") (key : String) :
    join parent key = parent ++ "." ++ key := if_neg h

theorem printed_nil_cons : printed ("" :: p) = printed p := rfl

/-- Below a table with a name, the keys stand between dots. -/
theorem foldl_join {parent : String} (h : parent ≠ "") (p : List String) :
    (p.foldl join parent).toList = ['.'].intercalate (parent.toList :: p.map String.toList) := by
  induction p generalizing parent with
  | nil => simp
  | cons k p ih =>
    have hstep : (parent ++ "." ++ k).toList = parent.toList ++ '.' :: k.toList := by
      rw [String.toList_append, String.toList_append, List.append_assoc]
      rfl
    have hne : parent ++ "." ++ k ≠ "" := by
      intro hempty
      rw [hempty] at hstep
      simp at hstep
    rw [List.foldl_cons, join_of_ne h, ih hne, hstep, List.map_cons, List.intercalate_cons_cons]
    cases p <;> simp [List.intercalate_cons_cons]

theorem toList_printed (hp : p ≠ []) (hhead : p.head? = some "" → p.length = 1) :
    (printed p).toList = ['.'].intercalate (p.map String.toList) := by
  match p, hp with
  | [k], _ => simp [printed, join]
  | k :: k' :: q, _ =>
    have hk : k ≠ "" := by
      rintro rfl
      simp at hhead
    exact foldl_join hk (k' :: q)

/-- The report of a readable path names that path. -/
theorem read_printed (hp : p ≠ []) (h : Readable p) : read (printed p) = p := by
  unfold read
  rw [toList_printed hp h.2, List.splitOn_intercalate]
  · simp
  · intro l hl
    obtain ⟨k, hk, rfl⟩ := List.mem_map.mp hl
    exact h.1 k hk
  · simpa using hp

theorem notMem_of_mem_splitOn {α : Type} [DecidableEq α] {a : α} {l xs : List α}
    (h : l ∈ xs.splitOn a) : a ∉ l := by
  induction xs generalizing l with
  | nil => simp_all
  | cons x xs ih =>
    rw [List.splitOn_cons_eq_if_modifyHead] at h
    split at h
    · rw [List.mem_cons] at h
      obtain rfl | h := h
      · simp
      · exact ih h
    · rename_i hx
      obtain ⟨y, ys, hys⟩ := List.exists_cons_of_ne_nil (List.splitOn_ne_nil a xs)
      rw [hys] at h ih
      rw [List.modifyHead_cons, List.mem_cons] at h
      obtain rfl | h := h
      · have hne : a ≠ x := by
          rintro rfl
          exact hx (beq_self_eq_true a)
        rw [List.mem_cons, not_or]
        exact ⟨hne, ih List.mem_cons_self⟩
      · exact ih (List.mem_cons_of_mem _ h)

/-- No key that a report names has a dot in it. -/
theorem dotless_of_mem_read {s : String} (h : k ∈ read s) : '.' ∉ k.toList := by
  obtain ⟨l, hl, rfl⟩ := List.mem_map.mp h
  rw [String.toList_ofList]
  exact notMem_of_mem_splitOn hl

/-- The path that a report names is readable, whatever path without a dot it was meant to be. -/
theorem readable_read (hp : p ≠ []) (h : ∀ k ∈ p, '.' ∉ k.toList) :
    Readable (read (printed p)) := by
  induction p with
  | nil => contradiction
  | cons k q ih =>
    by_cases hq : q = []
    · subst hq
      have hread : Readable [k] := ⟨h, fun _ => rfl⟩
      rwa [read_printed hp hread]
    · by_cases hk : k = ""
      · subst hk
        rw [printed_nil_cons]
        exact ih hq fun k hk => h k (List.mem_cons_of_mem _ hk)
      · have hread : Readable (k :: q) := ⟨h, fun hhead => absurd (Option.some.inj hhead) hk⟩
        rwa [read_printed hp hread]

/-- Reports that name exactly some paths, all those meant among them, are all readable. -/
theorem readable_of_named {U : List String → Prop} (hnil : [] ∉ L) (hsub : ∀ p ∈ L, U p)
    (h : ∀ p, p ∈ (L.map printed).map read ↔ U p) (hp : U p) : p ∈ L ∧ Readable p := by
  have hdotless : ∀ q, U q → ∀ k ∈ q, '.' ∉ k.toList := by
    intro q hq k hk
    obtain ⟨s, _, rfl⟩ := List.mem_map.mp ((h q).mpr hq)
    exact dotless_of_mem_read hk
  have hread : ∀ q, U q → ∃ r ∈ L, q = read (printed r) ∧ Readable q := by
    intro q hq
    obtain ⟨s, hs, rfl⟩ := List.mem_map.mp ((h q).mpr hq)
    obtain ⟨r, hr, rfl⟩ := List.mem_map.mp hs
    exact ⟨r, hr, rfl, readable_read (ne_of_mem_of_not_mem hr hnil) (hdotless r (hsub r hr))⟩
  obtain ⟨r, hr, heq, hreadable⟩ := hread p hp
  obtain ⟨_, _, _, hr'⟩ := hread r (hsub r hr)
  rw [read_printed (ne_of_mem_of_not_mem hr hnil) hr'] at heq
  exact ⟨heq ▸ hr, hreadable⟩

/-- Readable paths are named by their reports. -/
theorem map_read_printed (hnil : [] ∉ L) (h : ∀ p ∈ L, Readable p) :
    (L.map printed).map read = L := by
  have hid : ∀ p ∈ L, (read ∘ printed) p = id p := by
    intro p hp
    exact read_printed (ne_of_mem_of_not_mem hp hnil) (h p hp)
  rw [List.map_map, List.map_congr_left hid, List.map_id]

/-- Both files open every table down to a path, and the user owns none of them. -/
def Opens (d r : Document V) (q : List String) : Prop := d.1.Open Written.opens r.1 (enters "") q

/-- The paths an update puts in: each is missing from a table that both files open. -/
def putIn (d r : Document V) : List (List String) :=
  r.1.lacking Written.opens d.1 (enters "") fun _ => true

variable {d r : Document V} {added : Added} {T : TomlEdit V E} {existing reference : String}

theorem merge_fst (d r : Document V) :
    (merge d r).1.1 = d.1.graft Written.opens r.1 (enters "") := by
  simp only [merge, mergeTable_eq r.2]

theorem merge_snd (d r : Document V) : (merge d r).2 = ⟨(putIn d r).map printed⟩ := by
  simp only [merge, mergeTable_eq r.2]
  rfl

theorem mem_putIn :
    p ∈ putIn d r ↔ Opens d r p.dropLast ∧ r.1.has p = true ∧ d.1.has p = false := by
  unfold putIn
  rw [mem_lacking r.2]
  constructor
  · rintro ⟨hopen, hr, hd, _⟩
    exact ⟨hopen.symm, hr, hd⟩
  · rintro ⟨hopen, hr, hd⟩
    exact ⟨hopen.symm, hr, hd, rfl⟩

theorem nil_notMem_putIn : [] ∉ putIn d r := nil_notMem_lacking

/-- Two files that parse are brought together, and a second time nothing is put in. -/
theorem reconcile_parsed (hd : T.parse existing = .ok d) (hr : T.parse reference = .ok r) :
    ∃ text, reconcile T existing reference = .ok (text, (merge d r).2) ∧
      T.parse text = .ok (merge d r).1 ∧ ((merge d r).2.keys = [] → text = existing) := by
  unfold reconcile
  rw [hd, hr]
  by_cases h : (merge d r).2.keys = []
  · have hsame : (merge d r).1 = d := by
      apply Subtype.ext
      rw [merge_snd, List.map_eq_nil_iff] at h
      rw [merge_fst]
      exact graft_eq_self h
    refine ⟨existing, if_pos h, ?_, fun _ => rfl⟩
    rw [hsame, hd]
  · exact ⟨T.print (merge d r).1, if_neg h, T.parse_print _, fun hnil => absurd hnil h⟩

theorem merge_twice : (merge (merge d r).1 r).2 = ⟨[]⟩ := by
  rw [merge_snd, putIn, merge_fst, lacking_graft r.2]
  rfl

/-- The paths the existing file has, in the result, and what the report names. -/
structure OnlyAdded (d d' : Document V) (added : Added) : Prop where
  old : ∀ p e, d.1.find p = some e → ∃ e', d'.1.find p = some e' ∧ e.Kept e'
  owned : ∀ e, d.1.find ["commands"] = some e → d'.1.find ["commands"] = some e
  listed : ∀ p, p ∈ added.keys.map read ↔
    d'.1.has p = true ∧ d.1.has p = false ∧ d.1.has p.dropLast = true
  absent : ∀ p ∈ added.keys.map read, d.1.has p = false
  apart : ∀ p ∈ added.keys.map read, ∀ q ∈ added.keys.map read, p <+: q → p = q
  once : (added.keys.map read).Nodup

structure OnlyAdds (T : TomlEdit V E) (existing reference : String) : Prop where
  parsed : ∀ d r, T.parse existing = .ok d → T.parse reference = .ok r →
    ∃ text added d', reconcile T existing reference = .ok (text, added) ∧
      T.parse text = .ok d' ∧ OnlyAdded d d' added ∧
      (added.keys = [] → text = existing) ∧ reconcile T text reference = .ok (text, ⟨[]⟩)
  malformed : (∀ d, T.parse existing ≠ .ok d) ∨ (∀ r, T.parse reference ≠ .ok r) →
    ∃ e, reconcile T existing reference = .error e

/-- What two documents are made into is as promised, when every path put in can be read back. -/
theorem onlyAdded_iff : OnlyAdded d (merge d r).1 (merge d r).2 ↔ ∀ p ∈ putIn d r, Readable p := by
  have hlisted : ∀ p, p ∈ putIn d r ↔
      (merge d r).1.1.has p = true ∧ d.1.has p = false ∧ d.1.has p.dropLast = true := by
    intro p
    rw [merge_fst]
    exact mem_lacking_iff_added r.2
  constructor
  · intro h p hp
    rw [merge_snd] at h
    apply (readable_of_named nil_notMem_putIn (fun _ h => h) _ hp).2
    intro q
    exact (h.listed q).trans (by rw [hlisted q, merge_fst])
  · intro h
    have hread : ((merge d r).2.keys).map read = putIn d r := by
      rw [merge_snd]
      exact map_read_printed nil_notMem_putIn h
    constructor
    · intro p e hp
      rw [merge_fst]
      exact find_graft r.2 hp
    · intro e he
      rw [merge_fst]
      exact get_graft_closed r.2 he rfl
    · rw [hread]
      exact hlisted
    · rw [hread]
      intro p hp
      exact (mem_putIn.mp hp).2.2
    · rw [hread]
      intro p hp q hq
      exact lacking_antichain r.2 hp hq
    · rw [hread]
      exact nodup_lacking r.2

theorem readable_of_onlyAdds (h : OnlyAdds T existing reference) (hd : T.parse existing = .ok d)
    (hr : T.parse reference = .ok r) (hp : p ∈ putIn d r) : Readable p := by
  obtain ⟨text, added, d', heq, hparse, hadded, _⟩ := h.parsed d r hd hr
  obtain ⟨text', heq', hparse', _⟩ := reconcile_parsed hd hr
  rw [heq] at heq'
  cases heq'
  rw [hparse] at hparse'
  cases hparse'
  exact onlyAdded_iff.mp hadded p hp

end Reconcile

open Reconcile

/-- An update only adds, and only once, exactly when the printed path of what it puts in names it. -/
theorem update_only_adds_iff (T : TomlEdit V E) (existing reference : String) :
    OnlyAdds T existing reference ↔
      ∀ d r, T.parse existing = .ok d → T.parse reference = .ok r →
        ∀ p, Opens d r p.dropLast → r.1.has p = true → d.1.has p = false → Readable p := by
  constructor
  · intro h d r hd hr p hopen hrp hdp
    exact readable_of_onlyAdds h hd hr (mem_putIn.mpr ⟨hopen, hrp, hdp⟩)
  · intro h
    constructor
    · intro d r hd hr
      obtain ⟨text, heq, hparse, hsame⟩ := reconcile_parsed hd hr
      obtain ⟨text', heq', _, hsame'⟩ := reconcile_parsed hparse hr
      rw [merge_twice] at heq' hsame'
      refine ⟨text, (merge d r).2, (merge d r).1, heq, hparse, ?_, hsame, ?_⟩
      · apply onlyAdded_iff.mpr
        intro p hp
        obtain ⟨hopen, hrp, hdp⟩ := mem_putIn.mp hp
        exact h d r hd hr p hopen hrp hdp
      · rw [heq', hsame' rfl]
    · intro h
      unfold reconcile
      match hd : T.parse existing, hr : T.parse reference with
      | .error e, _ => exact ⟨e, rfl⟩
      | .ok d, .error e => exact ⟨e, rfl⟩
      | .ok d, .ok r =>
        obtain h | h := h
        · exact absurd hd (h d)
        · exact absurd hr (h r)

namespace Mock

local instance encodableChar : Encodable Char := Encodable.ofLeftInverse Char.toNat Char.ofNat Char.ofNat_toNat

local instance encodableString : Encodable String :=
  Encodable.ofLeftInverse String.toList String.ofList fun _ => String.ofList_toList

def numbered (d : Document String) : String :=
  String.ofList ('=' :: List.replicate (Encodable.encode d) '=')

theorem length_numbered (d : Document String) :
    (numbered d).length = Encodable.encode d + 1 := by
  rw [numbered, ← String.length_toList, String.toList_ofList]
  simp

def tomlEdit (file file' : String × Document String) (hne : file.1 ≠ file'.1)
    (h : ∀ d, file.1 ≠ numbered d) (h' : ∀ d, file'.1 ≠ numbered d) : TomlEdit String Unit where
  parse s :=
    if s = file.1 then .ok file.2
    else if s = file'.1 then .ok file'.2
    else match Encodable.decode (s.length - 1) with
      | some d => .ok d
      | none => .error ()
  print d := if d = file.2 then file.1 else if d = file'.2 then file'.1 else numbered d
  parse_print d := by
    by_cases hd : d = file.2
    · rw [if_pos hd, if_pos rfl, hd]
    rw [if_neg hd]
    by_cases hd' : d = file'.2
    · rw [if_pos hd', if_neg hne.symm, if_pos rfl, hd']
    · rw [if_neg hd', if_neg (h d).symm, if_neg (h' d).symm, length_numbered, Nat.add_sub_cancel,
        Encodable.encodek]

/-- What does not start as another document's text is not one. -/
theorem ne_numbered {s : String} (h : s.toList.head? ≠ some '=') (d : Document String) :
    s ≠ numbered d := by
  rintro rfl
  simp [numbered] at h

def tableAB : Document String := ⟨.table .header "a" (.value "b" "1" .empty) .empty, by decide⟩

/-- One setting, with a dot in its name. -/
def dottedAB : Document String := ⟨.value "a.b" "2" .empty, by decide⟩

def dottedEdit : TomlEdit String Unit :=
  tomlEdit ("[a]\nb = 1\n", tableAB) ("\"a.b\" = 2\n", dottedAB) (by decide)
    (ne_numbered (by decide)) (ne_numbered (by decide))

end Mock

/-- The setting put in is reported by the name of one that was there. -/
theorem dotted_key_misnamed :
    ¬ OnlyAdds Mock.dottedEdit "[a]\nb = 1\n" "\"a.b\" = 2\n" := by
  intro h
  have hmem : ["a.b"] ∈ putIn Mock.tableAB Mock.dottedAB := by decide
  have hread := readable_of_onlyAdds h rfl rfl hmem
  exact hread.1 "a.b" List.mem_cons_self (by decide)

/-- The file the new text of a config goes to first. -/
def newBeside (path : String) : String := Path.withExtension path "toml.new".toList

/-- Reconciles a config file. The new text is written beside it and moved into its place, when
anything was added. -/
def updateFile (T : TomlEdit V E) (path : String) (disk : Disk String Char) (reference : String) :
    Except (Option E) (Added × List (DiskOp String Char)) :=
  match disk[path]? with
  | none => .error none
  | some existing =>
    match reconcile T (String.ofList existing) reference with
    | .error e => .error (some e)
    | .ok (text, added) =>
      let tmp := newBeside path
      .ok (added, if added.keys = [] then []
        else [.create tmp, .write tmp text.toList, .rename tmp path])

theorem newBeside_ne {path : String} (hfile : (Path.fileName path).isSome) : path ≠ newBeside path :=
  Path.withExtension_ne "toml".toList "ne".toList 'w' hfile (by decide) (by decide)

/-- What an update that may have been cut short leaves: the config as it was or as reconciled, and
every other file but the new one. -/
structure Survives (T : TomlEdit V E) (path reference : String) (disk found : Disk String Char)
    (added : Added) : Prop where
  config : found[path]? = disk[path]? ∨ ∃ existing text, disk[path]? = some existing ∧
    reconcile T (String.ofList existing) reference = .ok (text, added) ∧
    found[path]? = some text.toList
  others : ∀ other, other ≠ path → other ≠ newBeside path → found[other]? = disk[other]?

/-- A crash at any point of an update leaves the config as it was, or as reconciled; one that nothing
cuts short leaves it reconciled, and the new file gone. -/
theorem config_survives_crash {T : TomlEdit V E} {path reference : String}
    {disk : Disk String Char} {added : Added} {ops : List (DiskOp String Char)}
    (file : (Path.fileName path).isSome)
    (update : updateFile T path disk reference = .ok (added, ops)) :
    (∀ after bytes, Survives T path reference disk (disk.crash ops after bytes) added) ∧
    (added.keys ≠ [] → ∃ existing text, disk[path]? = some existing ∧
      reconcile T (String.ofList existing) reference = .ok (text, added) ∧
      (disk.perform ops)[path]? = some text.toList ∧ newBeside path ∉ disk.perform ops) := by
  have hne := newBeside_ne file
  unfold updateFile at update
  match hread : disk[path]? with
  | none => simp [hread] at update
  | some existing =>
    simp only [hread] at update
    match hreconcile : reconcile T (String.ofList existing) reference with
    | .error e => simp [hreconcile] at update
    | .ok (text, added') =>
      simp only [hreconcile, Except.ok.injEq, Prod.mk.injEq] at update
      obtain ⟨rfl, rfl⟩ := update
      by_cases hnone : added'.keys = []
      · rw [if_pos hnone]
        exact ⟨fun _ _ => ⟨.inl rfl, fun _ _ _ => rfl⟩, fun h => absurd hnone h⟩
      rw [if_neg hnone]
      have hplace : ((disk.erase (newBeside path)).insert path text.toList)[path]? =
          some text.toList := ExtTreeMap.getElem?_insert_self
      constructor
      · intro after bytes
        by_cases hafter : after < 3
        · exact ⟨.inl (Disk.crash_put_other hne hafter),
            fun other _ hother => Disk.crash_put_other hother hafter⟩
        · rw [Disk.crash_put_done (Nat.le_of_not_lt hafter)]
          refine ⟨.inr ⟨existing, text, hread, hreconcile, hplace⟩, fun other hpath hother => ?_⟩
          rw [getElem?_insert_of_ne hpath, getElem?_erase_of_ne hother]
      · intro _
        rw [Disk.put_in_place]
        refine ⟨existing, text, rfl, hreconcile, hplace, fun hmem => ?_⟩
        rcases ExtTreeMap.mem_insert.mp hmem with heq | hmem
        · exact hne (LawfulEqOrd.eq_of_compare heq)
        · simp at hmem

namespace Mock

def grownEdit : TomlEdit String Unit :=
  tomlEdit ("a = 1\n", ⟨.value "a" "1" .empty, by decide⟩)
    ("a = 1\nb = 2\n", ⟨.value "a" "1" (.value "b" "2" .empty), by decide⟩) (by decide)
    (ne_numbered (by decide)) (ne_numbered (by decide))

def oldConfig : Disk String Char := (∅ : Disk String Char).insert "config.toml" "a = 1\n".toList

end Mock

/-- Cut short while the new file is written. -/
theorem old_config_survives : ∃ ops,
    updateFile Mock.grownEdit "config.toml" Mock.oldConfig "a = 1\nb = 2\n" = .ok (⟨["b"]⟩, ops) ∧
    Survives Mock.grownEdit "config.toml" "a = 1\nb = 2\n" Mock.oldConfig
      (Mock.oldConfig.crash ops 1 3) ⟨["b"]⟩ ∧
    newBeside "config.toml" ∉ Mock.oldConfig.perform ops := by
  have hread : Mock.oldConfig["config.toml"]? = some "a = 1\n".toList :=
    ExtTreeMap.getElem?_insert_self
  have hreconcile : reconcile Mock.grownEdit "a = 1\n" "a = 1\nb = 2\n" =
      .ok ("a = 1\nb = 2\n", ⟨["b"]⟩) := by decide +kernel
  have hupdate : updateFile Mock.grownEdit "config.toml" Mock.oldConfig "a = 1\nb = 2\n" =
      .ok (⟨["b"]⟩, [.create (newBeside "config.toml"),
        .write (newBeside "config.toml") "a = 1\nb = 2\n".toList,
        .rename (newBeside "config.toml") "config.toml"]) := by
    unfold updateFile
    rw [hread]
    dsimp only
    rw [String.ofList_toList, hreconcile]
    rfl
  obtain ⟨hcut, hwhole⟩ := config_survives_crash (by decide) hupdate
  obtain ⟨-, -, -, -, -, hgone⟩ := hwhole (by decide)
  exact ⟨_, hupdate, hcut 1 3, hgone⟩

namespace Reconcile

def BelowCommands (p : List String) : Prop := ["commands"] <+: p ∧ p ≠ ["commands"]

instance : DecidablePred BelowCommands := fun _ => inferInstanceAs (Decidable (_ ∧ _))

/-- A value of the existing file stands on the way to a path. -/
def Blocked (d : Document V) (p : List String) : Prop :=
  ∃ q v, q <+: p ∧ q ≠ p ∧ d.1.find q = some (.value v)

/-- A path the existing file has and the reference lacks, in a table it does not. -/
def Unknown (d r : Document V) (p : List String) : Prop :=
  d.1.has p = true ∧ r.1.has p = false ∧ r.1.has p.dropLast = true ∧ ¬ ["commands"] <+: p

/-- What an update and its report of unknown settings promise of two files that parse. -/
structure Completed (T : TomlEdit V E) (existing reference : String) (d r : Document V) : Prop where
  filled : ∃ text added d', reconcile T existing reference = .ok (text, added) ∧
    T.parse text = .ok d' ∧
    ∀ p, r.1.has p = true → ¬BelowCommands p → ¬Blocked d p → d'.1.has p = true
  unknown : ∀ p, p ∈ (unknownKeys T existing reference).map read ↔ Unknown d r p
  once : ((unknownKeys T existing reference).map read).Nodup

def Completes (T : TomlEdit V E) (existing reference : String) : Prop :=
  ∀ d r, T.parse existing = .ok d → T.parse reference = .ok r → Completed T existing reference d r

def reported (d r : Document V) : List (List String) :=
  d.1.lacking Written.opens r.1 (enters "") (enters "")

theorem unknownKeys_parsed (hd : T.parse existing = .ok d) (hr : T.parse reference = .ok r) :
    unknownKeys T existing reference = (reported d r).map printed := by
  unfold unknownKeys
  rw [hd, hr]
  exact collectUnknown_eq d.1 r.1 ""

theorem enters_iff : enters "" p = true ↔ printed p ≠ "commands" := by
  simp [enters, userOwned, printed]

/-- Only what is unknown is reported. -/
theorem unknown_of_reported (h : p ∈ reported d r) : Unknown d r p := by
  obtain ⟨hopen, hd, hr, henter⟩ := (mem_lacking d.2).mp h
  refine ⟨hd, hr, hopen.has, ?_⟩
  intro howned
  by_cases hp : ["commands"] = p
  · subst hp
    exact absurd rfl (enters_iff.mp henter)
  · obtain ⟨_, _, _, _, _, _, ho, _⟩ := hopen.of_prefix (prefix_dropLast howned hp)
    rw [show enters "" ["commands"] = false from rfl, Bool.and_false] at ho
    contradiction

/-- What is unknown is reported, where both files open the table it is in and its printed path
names it. -/
theorem reported_of_unknown (h : Unknown d r p) (hopen : Opens d r p.dropLast)
    (hread : Readable p) : p ∈ reported d r := by
  obtain ⟨hd, hr, _, howned⟩ := h
  apply (mem_lacking d.2).mpr
  refine ⟨hopen, hd, hr, ?_⟩
  have hne : p ≠ [] := by
    rintro rfl
    simp at hr
  rw [enters_iff]
  intro hprinted
  apply howned
  have hp := read_printed hne hread
  rw [hprinted] at hp
  rw [← hp]
  exact List.prefix_refl _

/-- Everything unknown is reported, exactly when both files open the table it is in and its printed
path names it. -/
theorem unknown_iff (hd : T.parse existing = .ok d) (hr : T.parse reference = .ok r) :
    ((∀ p, p ∈ (unknownKeys T existing reference).map read ↔ Unknown d r p) ∧
      ((unknownKeys T existing reference).map read).Nodup) ↔
    ∀ p, Unknown d r p → Opens d r p.dropLast ∧ Readable p := by
  rw [unknownKeys_parsed hd hr]
  have hnil : [] ∉ reported d r := nil_notMem_lacking
  constructor
  · rintro ⟨h, _⟩ p hp
    obtain ⟨hmem, hread⟩ := readable_of_named hnil (fun _ => unknown_of_reported) h hp
    exact ⟨((mem_lacking d.2).mp hmem).1, hread⟩
  · intro h
    have hread : ((reported d r).map printed).map read = reported d r := by
      apply map_read_printed hnil
      intro p hp
      exact (h p (unknown_of_reported hp)).2
    rw [hread]
    constructor
    · intro p
      constructor
      · exact unknown_of_reported
      · intro hp
        exact reported_of_unknown hp (h p hp).1 (h p hp).2
    · exact nodup_lacking d.2

/-- What the result has of the reference, the file had, or both files open all of it that the file
had. -/
theorem has_merge (hp : r.1.has p = true) : (merge d r).1.1.has p = true ↔
    d.1.has p = true ∨ ∀ q, q <+: p → d.1.has q = true → Opens d r q := by
  rw [merge_fst, has_graft r.2, hp]
  simp only [true_and]
  rfl

theorem opens_of_completed (h : Completed T existing reference d r)
    (hd : T.parse existing = .ok d) (hr : T.parse reference = .ok r) (hrp : r.1.has p = true)
    (hdp : d.1.has p = false) (hbelow : ¬BelowCommands p) (hblocked : ¬Blocked d p) :
    ∀ q, q <+: p → d.1.has q = true → Opens d r q := by
  obtain ⟨text, added, d', heq, hparse, hfilled⟩ := h.filled
  obtain ⟨text', heq', hparse', _⟩ := reconcile_parsed hd hr
  rw [heq] at heq'
  cases heq'
  rw [hparse] at hparse'
  cases hparse'
  obtain h | h := (has_merge hrp).mp (hfilled p hrp hbelow hblocked)
  · rw [hdp] at h
    contradiction
  · exact h

end Reconcile

namespace Mock

def inlineSession : Document String :=
  ⟨.table .inline "session" (.value "lock_command" "[]" .empty) .empty, by decide⟩

def headedSession : Document String :=
  ⟨.table .header "session"
    (.value "lock_command" "[]" (.value "unlock_command" "[]" .empty)) .empty, by decide⟩

def sessionEdit : TomlEdit String Unit :=
  tomlEdit ("session = { lock_command = [] }\n", inlineSession)
    ("[session]\nlock_command = []\nunlock_command = []\n", headedSession) (by decide)
    (ne_numbered (by decide)) (ne_numbered (by decide))

end Mock

end Acrylius
