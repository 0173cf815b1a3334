import Mathlib.Data.List.Infix
import Mathlib.Logic.Encodable.Basic
import Mathlib.Tactic.DeriveEncodable

/-! Tables that hold values and tables of their own, in order, and the paths into them. -/
namespace Lib

/-- A table. The mark of an inner one says how it was written down. -/
inductive Nested (κ μ V : Type) where
  | empty
  | value (key : κ) (v : V) (rest : Nested κ μ V)
  | table (mark : μ) (key : κ) (entries rest : Nested κ μ V)
  deriving DecidableEq, Encodable

inductive Entry (κ μ V : Type) where
  | value (v : V)
  | table (mark : μ) (entries : Nested κ μ V)
  deriving DecidableEq

variable {κ μ V : Type}

def Entry.cons (e : Entry κ μ V) (k : κ) (rest : Nested κ μ V) : Nested κ μ V :=
  match e with
  | .value v => .value k v rest
  | .table m es => .table m k es rest

def Entry.Kept : Entry κ μ V → Entry κ μ V → Prop
  | .value v, e => e = .value v
  | .table m _, e => ∃ es, e = .table m es

theorem Entry.Kept.rfl {e : Entry κ μ V} : e.Kept e := by
  cases e with
  | value v => exact Eq.refl _
  | table m es => exact ⟨es, Eq.refl _⟩

namespace Nested

/-- A table is empty, or has a first entry. -/
@[elab_as_elim] theorem consInduction {motive : Nested κ μ V → Prop} (t : Nested κ μ V)
    (empty : motive .empty)
    (cons : ∀ (e : Entry κ μ V) (k : κ) (rest : Nested κ μ V),
      (∀ m es, e = .table m es → motive es) → motive rest → motive (e.cons k rest)) :
    motive t := by
  induction t with
  | empty => exact empty
  | value k v rest ih => exact cons (.value v) k rest (by simp) ih
  | table m k es rest ihs ih =>
    apply cons (.table m es) k rest _ ih
    rintro _ _ ⟨⟩
    exact ihs

variable [DecidableEq κ]

def get : Nested κ μ V → κ → Option (Entry κ μ V)
  | .empty, _ => none
  | .value k' v rest, k => if k = k' then some (.value v) else rest.get k
  | .table m k' es rest, k => if k = k' then some (.table m es) else rest.get k

/-- In place of what stood at the key, and at the end when nothing did. -/
def insert : Nested κ μ V → κ → Entry κ μ V → Nested κ μ V
  | .empty, k, e => e.cons k .empty
  | .value k' v rest, k, e => if k = k' then e.cons k rest else .value k' v (rest.insert k e)
  | .table m k' es rest, k, e => if k = k' then e.cons k rest else .table m k' es (rest.insert k e)

def find : Nested κ μ V → List κ → Option (Entry κ μ V)
  | _, [] => none
  | t, [k] => t.get k
  | t, k :: k' :: q => match t.get k with
    | some (.table _ es) => es.find (k' :: q)
    | _ => none

def has : Nested κ μ V → List κ → Bool
  | _, [] => true
  | t, k :: q => match t.get k with
    | some (.table _ es) => es.has q
    | some (.value _) => q.isEmpty
    | none => false

/-- No key stands twice, and each table only holds tables written so that it can. -/
def Sound (holds : μ → μ → Bool) : μ → Nested κ μ V → Bool
  | _, .empty => true
  | m, .value k _ rest => (rest.get k).isNone && rest.Sound holds m
  | m, .table m' k es rest =>
    (rest.get k).isNone && holds m m' && es.Sound holds m' && rest.Sound holds m

end Nested

def Entry.Sound [DecidableEq κ] (holds : μ → μ → Bool) (m : μ) : Entry κ μ V → Bool
  | .value _ => true
  | .table m' es => holds m m' && es.Sound holds m'

namespace Nested

variable [DecidableEq κ]
variable {t s rest es : Nested κ μ V} {e : Entry κ μ V} {k k' : κ} {q p : List κ} {m m' : μ}

@[simp] theorem get_empty : (Nested.empty : Nested κ μ V).get k = none := rfl

@[simp] theorem get_cons : (e.cons k' rest).get k = if k = k' then some e else rest.get k := by
  cases e <;> rfl

theorem insert_cons {e' : Entry κ μ V} :
    (e'.cons k' rest).insert k e =
      if k = k' then e.cons k rest else e'.cons k' (rest.insert k e) := by
  cases e' <;> rfl

@[simp] theorem get_insert : (t.insert k' e).get k = if k = k' then some e else t.get k := by
  induction t using consInduction with
  | empty => simp [insert]
  | cons e₁ k₁ rest _ ih =>
    rw [insert_cons]
    split_ifs <;> simp_all

/-- Putting in what is there changes nothing. -/
theorem insert_get (h : t.get k = some e) : t.insert k e = t := by
  induction t using consInduction with
  | empty => simp at h
  | cons e₁ k₁ rest _ ih =>
    rw [get_cons] at h
    rw [insert_cons]
    split_ifs at h ⊢ with hk
    · simp_all
    · rw [ih h]

@[simp] theorem has_nil : t.has [] = true := by
  unfold has
  rfl

theorem has_cons_none (h : t.get k = none) : t.has (k :: q) = false := by
  simp [has, h]

theorem has_cons_table (h : t.get k = some (.table m es)) : t.has (k :: q) = es.has q := by
  simp [has, h]

theorem has_single : t.has [k] = (t.get k).isSome := by
  unfold has
  split <;> simp_all

/-- What stands at a key says all of what stands below it. -/
theorem has_cons_congr (h : t.get k = s.get k) : t.has (k :: q) = s.has (k :: q) := by
  simp [has, h]

theorem find_single : t.find [k] = t.get k := rfl

theorem find_cons_none (h : t.get k = none) : t.find (k :: q) = none := by
  cases q <;> simp [find, h]

theorem find_cons_congr (h : t.get k = s.get k) : t.find (k :: q) = s.find (k :: q) := by
  cases q <;> simp [find, h]

theorem find_cons_table (h : t.get k = some (.table m es)) (hq : q ≠ []) :
    t.find (k :: q) = es.find q := by
  obtain ⟨k', q', rfl⟩ := List.exists_cons_of_ne_nil hq
  simp [find, h]

variable {holds : μ → μ → Bool}

theorem sound_cons :
    (e.cons k rest).Sound holds m =
      ((rest.get k).isNone && e.Sound holds m && rest.Sound holds m) := by
  cases e with
  | value v => simp [Entry.cons, Sound, Entry.Sound]
  | table m' es => simp [Entry.cons, Sound, Entry.Sound, Bool.and_assoc]

/-- A sound table holds only sound entries. -/
theorem sound_get (ht : t.Sound holds m = true) (h : t.get k = some e) :
    e.Sound holds m = true := by
  induction t using consInduction with
  | empty => simp at h
  | cons e₁ k₁ rest _ ih =>
    simp only [sound_cons, Bool.and_eq_true] at ht
    rw [get_cons] at h
    split_ifs at h
    · cases h
      exact ht.1.2
    · exact ih ht.2 h

/-- A table in a sound one is sound. -/
theorem sound_inner (ht : t.Sound holds m = true) (h : t.get k = some (.table m' es)) :
    es.Sound holds m' = true := by
  have he := sound_get ht h
  simp only [Entry.Sound, Bool.and_eq_true] at he
  exact he.2

theorem sound_insert (ht : t.Sound holds m = true) (he : e.Sound holds m = true) :
    (t.insert k e).Sound holds m = true := by
  induction t using consInduction with
  | empty => simp [insert, sound_cons, he, Sound]
  | cons e₁ k₁ rest _ ih =>
    simp only [sound_cons, Bool.and_eq_true] at ht
    rw [insert_cons]
    split_ifs with hk
    · subst hk
      simp [sound_cons, ht, he]
    · simp [sound_cons, Ne.symm hk, ht, ih ht.2]

end Nested
end Lib
