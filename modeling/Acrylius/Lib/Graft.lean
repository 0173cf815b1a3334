import Acrylius.Lib.Nested
import Mathlib.Data.List.Nodup

/-! What one table has and another lacks, found by walking both, and the table that has it put in.
The walk goes into a table where both sides open it and it may enter. -/
namespace Lib.Nested

variable {κ μ V : Type} [DecidableEq κ] (opens : μ → Bool)

/-- The paths at which a table has an entry and another has none. What may be entered and what is
reported depends on the path so far. -/
def lacking : Nested κ μ V → Nested κ μ V → (enter report : List κ → Bool) → List (List κ)
  | .empty, _, _, _ => []
  | .value k _ rest, s, enter, report =>
    (match s.get k with
      | none => if report [k] then [[k]] else []
      | some _ => []) ++ rest.lacking s enter report
  | .table m k es rest, s, enter, report =>
    (match s.get k with
      | none => if report [k] then [[k]] else []
      | some (.table m' es') =>
        if opens m && opens m' && enter [k] then
          (es.lacking es' (fun p => enter (k :: p)) (fun p => report (k :: p))).map (k :: ·)
        else []
      | some (.value _) => []) ++ rest.lacking s enter report

def graft : Nested κ μ V → Nested κ μ V → (enter : List κ → Bool) → Nested κ μ V
  | t, .empty, _ => t
  | t, .value k v rest, enter =>
    match t.get k with
    | none => (t.insert k (.value v)).graft rest enter
    | some _ => t.graft rest enter
  | t, .table m k es rest, enter =>
    match t.get k with
    | none => (t.insert k (.table m es)).graft rest enter
    | some (.table m' es') =>
      if opens m && opens m' && enter [k] then
        (t.insert k (.table m' (es'.graft es fun p => enter (k :: p)))).graft rest enter
      else t.graft rest enter
    | some (.value _) => t.graft rest enter

/-- The walk comes as far as a path: into each table on the way. -/
def Open : Nested κ μ V → Nested κ μ V → (enter : List κ → Bool) → List κ → Prop
  | _, _, _, [] => True
  | t, s, enter, k :: q => ∃ m es m' es', t.get k = some (.table m es) ∧
    s.get k = some (.table m' es') ∧ (opens m && opens m' && enter [k]) = true ∧
    es.Open es' (fun p => enter (k :: p)) q

def beneath (e f : Entry κ μ V) (enter report : List κ → Bool) : List (List κ) :=
  match e, f with
  | .table m es, .table m' es' =>
    if opens m && opens m' && enter [] then es.lacking opens es' enter report else []
  | _, _ => []

def settle (f e : Entry κ μ V) (enter : List κ → Bool) : Entry κ μ V :=
  match f, e with
  | .table m' es', .table m es =>
    if opens m && opens m' && enter [] then .table m' (es'.graft opens es enter)
    else .table m' es'
  | _, _ => f

variable {opens} {t s rest : Nested κ μ V} {e f : Entry κ μ V} {enter report : List κ → Bool}
  {k : κ} {p q : List κ} {holds : μ → μ → Bool} {m : μ}

theorem lacking_cons :
    (e.cons k rest).lacking opens s enter report =
      (match s.get k with
        | none => if report [k] then [[k]] else []
        | some f => (beneath opens e f (fun p => enter (k :: p))
            (fun p => report (k :: p))).map (k :: ·)) ++ rest.lacking opens s enter report := by
  cases e with
  | value v =>
    unfold Entry.cons
    rw [lacking]
    cases s.get k <;> simp [beneath]
  | table m es =>
    unfold Entry.cons
    rw [lacking]
    cases s.get k with
    | none => rfl
    | some f =>
      cases f with
      | value v => simp [beneath]
      | table m' es' =>
        simp only [beneath]
        split_ifs <;> rfl

theorem graft_cons :
    t.graft opens (e.cons k rest) enter =
      (t.insert k (match t.get k with
        | none => e
        | some f => settle opens f e fun p => enter (k :: p))).graft opens rest enter := by
  cases e with
  | value v =>
    unfold Entry.cons
    rw [graft]
    cases h : t.get k with
    | none => rfl
    | some f => cases f <;> simp only [settle, insert_get h]
  | table m es =>
    unfold Entry.cons
    rw [graft]
    cases h : t.get k with
    | none => rfl
    | some f =>
      cases f with
      | value v => simp only [settle, insert_get h]
      | table m' es' =>
        simp only [settle]
        split_ifs
        · rfl
        · rw [insert_get h]

theorem Open.symm (h : t.Open opens s enter q) : s.Open opens t enter q := by
  induction q generalizing t s enter with
  | nil => trivial
  | cons k q ih =>
    obtain ⟨m, es, m', es', ht, hs, ho, hq⟩ := h
    have hswap : (opens m' && opens m && enter [k]) = true := by
      rwa [Bool.and_comm (opens m')]
    exact ⟨m', es', m, es, hs, ht, hswap, ih hq⟩

/-- Where the walk comes, the other side has something. -/
theorem Open.has (h : t.Open opens s enter q) : s.has q = true := by
  induction q generalizing t s enter with
  | nil => exact has_nil
  | cons k q ih =>
    obtain ⟨_, _, _, _, _, hs, _, hq⟩ := h
    rw [has_cons_table hs]
    exact ih hq

theorem Open.of_prefix (hp : q <+: p) (h : t.Open opens s enter p) : t.Open opens s enter q := by
  induction q generalizing t s enter p with
  | nil => trivial
  | cons k q ih =>
    obtain ⟨r, rfl⟩ := hp
    obtain ⟨m, es, m', es', ht, hs, ho, hq⟩ := h
    exact ⟨m, es, m', es', ht, hs, ho, ih ⟨r, rfl⟩ hq⟩

omit [DecidableEq κ] in
/-- A proper start of a path comes before its last key. -/
theorem prefix_dropLast (hqp : q <+: p) (hne : q ≠ p) : q <+: p.dropLast := by
  apply List.prefix_of_prefix_length_le hqp (List.dropLast_prefix p)
  have hlt := hqp.length_le
  have hlen : q.length ≠ p.length := fun h => hne (hqp.eq_of_length h)
  rw [List.length_dropLast]
  omega

section lacking

theorem nil_notMem_lacking : [] ∉ t.lacking opens s enter report := by
  induction t using consInduction with
  | empty => simp [lacking]
  | cons e k rest _ ih =>
    rw [lacking_cons]
    split
    · split_ifs <;> simp [ih]
    · simp [ih]

theorem mem_beneath :
    q ∈ beneath opens e f enter report ↔
      ∃ m es m' es', e = .table m es ∧ f = .table m' es' ∧
        (opens m && opens m' && enter []) = true ∧ q ∈ es.lacking opens es' enter report := by
  cases e with
  | value v => simp [beneath]
  | table m es =>
    cases f with
    | value v => simp [beneath]
    | table m' es' =>
      simp only [beneath]
      constructor
      · intro h
        split_ifs at h with ho
        · exact ⟨m, es, m', es', rfl, rfl, ho, h⟩
        · simp at h
      · rintro ⟨_, _, _, _, ⟨⟩, ⟨⟩, ho, h⟩
        rwa [if_pos ho]

/-- What stands at a key that a table lacks does not matter to what else is lacking. -/
theorem lacking_insert (h : t.get k = none) :
    t.lacking opens (s.insert k e) enter report = t.lacking opens s enter report := by
  induction t using consInduction with
  | empty => rfl
  | cons e' k' rest _ ih =>
    have hk : k' ≠ k := by
      rintro rfl
      simp at h
    rw [get_cons, if_neg hk.symm] at h
    rw [lacking_cons, lacking_cons, ih h, get_insert, if_neg hk]

/-- One step of the walk: the key is missing, or the rest of the path is, one table further in. -/
theorem cons_mem_lacking (ht : t.Sound holds m = true) :
    k :: q ∈ t.lacking opens s enter report ↔ ∃ e, t.get k = some e ∧
      match s.get k with
      | none => q = [] ∧ report [k] = true
      | some f => q ∈ beneath opens e f (fun p => enter (k :: p)) (fun p => report (k :: p)) := by
  induction t using consInduction with
  | empty => simp [lacking]
  | cons e k' rest _ ih =>
    simp only [sound_cons, Bool.and_eq_true, Option.isNone_iff_eq_none] at ht
    rw [lacking_cons, List.mem_append, ih ht.2, get_cons]
    by_cases hk : k = k'
    · subst hk
      simp only [ht.1.1, if_true]
      cases s.get k with
      | none => by_cases hr : report [k] = true <;> simp [hr]
      | some f => simp
    · simp only [hk, if_false, or_iff_right_iff_imp]
      intro h
      exfalso
      revert h
      cases s.get k' with
      | none => by_cases hr : report [k'] = true <;> simp [hr, hk]
      | some f => simp [Ne.symm hk]

/-- What is found lacking: the walk comes to the table it is missing from. -/
theorem mem_lacking (ht : t.Sound holds m = true) :
    p ∈ t.lacking opens s enter report ↔
      t.Open opens s enter p.dropLast ∧ t.has p = true ∧ s.has p = false ∧ report p = true := by
  induction p generalizing t s enter report m with
  | nil => simp [nil_notMem_lacking]
  | cons k q ih =>
    rw [cons_mem_lacking ht]
    by_cases hq : q = []
    · subst hq
      rw [has_single, has_single, List.dropLast_singleton]
      cases t.get k with
      | none => simp
      | some e =>
        cases s.get k with
        | none => simp [Open]
        | some f => simp [mem_beneath, nil_notMem_lacking]
    · rw [List.dropLast_cons_of_ne_nil hq]
      constructor
      · rintro ⟨e, hk, h⟩
        cases hk' : s.get k with
        | none =>
          rw [hk'] at h
          exact absurd h.1 hq
        | some f =>
          rw [hk'] at h
          obtain ⟨m₁, es, m₂, es', rfl, rfl, ho, h⟩ := mem_beneath.mp h
          obtain ⟨h₁, h₂, h₃, h₄⟩ := (ih (sound_inner ht hk)).mp h
          rw [has_cons_table hk, has_cons_table hk']
          exact ⟨⟨m₁, es, m₂, es', hk, hk', ho, h₁⟩, h₂, h₃, h₄⟩
      · rintro ⟨⟨m₁, es, m₂, es', hk, hk', ho, h₁⟩, h₂, h₃, h₄⟩
        rw [has_cons_table hk] at h₂
        rw [has_cons_table hk'] at h₃
        have h : q ∈ es.lacking opens es' (fun p => enter (k :: p)) fun p => report (k :: p) :=
          (ih (sound_inner ht hk)).mpr ⟨h₁, h₂, h₃, h₄⟩
        refine ⟨.table m₁ es, hk, ?_⟩
        rw [hk']
        exact mem_beneath.mpr ⟨m₁, es, m₂, es', rfl, rfl, ho, h⟩

/-- Nothing found lacking is below anything else found lacking. -/
theorem lacking_antichain (ht : t.Sound holds m = true)
    (hp : p ∈ t.lacking opens s enter report) (hq : q ∈ t.lacking opens s enter report)
    (hpq : p <+: q) : p = q := by
  obtain ⟨_, _, hp, _⟩ := (mem_lacking ht).mp hp
  obtain ⟨hq, _, _, _⟩ := (mem_lacking ht).mp hq
  by_contra hne
  have hhas := (hq.of_prefix (prefix_dropLast hpq hne)).has
  rw [hp] at hhas
  contradiction

theorem nodup_lacking (ht : t.Sound holds m = true) :
    (t.lacking opens s enter report).Nodup := by
  induction t using consInduction generalizing s enter report m with
  | empty => simp [lacking]
  | cons e k rest ihs ih =>
    have hs := ht
    simp only [sound_cons, Bool.and_eq_true, Option.isNone_iff_eq_none] at ht
    have hnot : ∀ q, k :: q ∉ rest.lacking opens s enter report := by
      intro q
      rw [cons_mem_lacking ht.2]
      simp [ht.1.1]
    rw [lacking_cons]
    cases s.get k with
    | none => split_ifs <;> simp [hnot, ih ht.2]
    | some f =>
      apply List.Nodup.append
      · apply List.Nodup.map List.cons_injective
        cases e with
        | value v => simp [beneath]
        | table m₁ es =>
          have hget : ((Entry.table m₁ es).cons k rest).get k = some (.table m₁ es) := by simp
          cases f with
          | value v => simp [beneath]
          | table m₂ es' =>
            simp only [beneath]
            split_ifs
            · exact ihs m₁ es rfl (sound_inner hs hget)
            · exact List.nodup_nil
      · exact ih ht.2
      · intro p hp hrest
        obtain ⟨q, _, rfl⟩ := List.mem_map.mp hp
        exact hnot q hrest

end lacking

section graft

/-- What stands at a key once what was lacking is put in. -/
theorem get_graft (hs : s.Sound holds m = true) :
    (t.graft opens s enter).get k =
      match t.get k, s.get k with
      | none, e => e
      | some f, none => some f
      | some f, some e => some (settle opens f e fun p => enter (k :: p)) := by
  induction s using consInduction generalizing t with
  | empty => cases h : t.get k <;> simp [graft, h]
  | cons e k' rest _ ih =>
    simp only [sound_cons, Bool.and_eq_true, Option.isNone_iff_eq_none] at hs
    rw [graft_cons, ih hs.2, get_insert, get_cons]
    by_cases hk : k = k'
    · subst hk
      simp only [if_true, hs.1.1]
      cases t.get k <;> rfl
    · simp only [hk, if_false]

variable (opens) in
/-- A table stays one, with more in it where both sides open it. -/
theorem settle_cases (f e : Entry κ μ V) (enter : List κ → Bool) :
    (∃ m' es' m₁ es, f = .table m' es' ∧ e = .table m₁ es ∧
      (opens m' && opens m₁ && enter []) = true ∧
      settle opens f e enter = .table m' (es'.graft opens es enter)) ∨
    (settle opens f e enter = f ∧ ∀ m' es' m₁ es, f = .table m' es' → e = .table m₁ es →
      (opens m' && opens m₁ && enter []) = false) := by
  cases f with
  | value v => exact .inr ⟨rfl, by simp⟩
  | table m' es' =>
    cases e with
    | value v => exact .inr ⟨rfl, by simp⟩
    | table m₁ es =>
      simp only [settle, Bool.and_comm (opens m₁)]
      split_ifs with ho
      · left
        exact ⟨m', es', m₁, es, rfl, rfl, ho, rfl⟩
      · right
        refine ⟨rfl, ?_⟩
        rintro _ _ _ _ ⟨⟩ ⟨⟩
        simpa using ho

variable (opens) in
/-- All that can have become of a key. -/
theorem graft_cases (hs : s.Sound holds m = true) (t : Nested κ μ V) (enter : List κ → Bool)
    (k : κ) :
    (t.get k = none ∧ (t.graft opens s enter).get k = s.get k) ∨
    (∃ m' es' m₁ es, t.get k = some (.table m' es') ∧ s.get k = some (.table m₁ es) ∧
      (opens m' && opens m₁ && enter [k]) = true ∧
      (t.graft opens s enter).get k =
        some (.table m' (es'.graft opens es fun p => enter (k :: p)))) ∨
    ((t.get k).isSome = true ∧ (t.graft opens s enter).get k = t.get k ∧
      ¬ t.Open opens s enter [k]) := by
  rw [get_graft hs]
  cases ht : t.get k with
  | none => exact .inl ⟨rfl, rfl⟩
  | some f =>
    cases hk : s.get k with
    | none => simp [Open, hk]
    | some e =>
      obtain ⟨m', es', m₁, es, rfl, rfl, ho, heq⟩ | ⟨heq, hnot⟩ :=
        settle_cases opens f e fun p => enter (k :: p)
      · right; left
        exact ⟨m', es', m₁, es, rfl, rfl, ho, congrArg some heq⟩
      · right; right
        refine ⟨rfl, congrArg some heq, ?_⟩
        rintro ⟨_, _, _, _, hf, he, ho, _⟩
        rw [ht] at hf
        rw [hk] at he
        cases hf
        cases he
        rw [hnot _ _ _ _ rfl rfl] at ho
        contradiction

/-- What may not be entered stays as it was. -/
theorem get_graft_closed (hs : s.Sound holds m = true) (h : t.get k = some e)
    (hk : enter [k] = false) : (t.graft opens s enter).get k = some e := by
  obtain ⟨hn, _⟩ | ⟨_, _, _, _, _, _, ho, _⟩ | ⟨_, heq, _⟩ := graft_cases opens hs t enter k
  · simp [hn] at h
  · simp [hk] at ho
  · rw [heq, h]

/-- An open table may hold whatever it is given. -/
theorem sound_graft {m₁ : μ} (hopen : ∀ m' m'', opens m' = true → holds m' m'' = true)
    (hm : opens m = true) (ht : t.Sound holds m = true) (hs : s.Sound holds m₁ = true) :
    (t.graft opens s enter).Sound holds m = true := by
  induction s using consInduction generalizing t m m₁ enter with
  | empty => exact ht
  | cons e k rest ihs ih =>
    have he : e.Sound holds m₁ = true := sound_get hs (by rw [get_cons, if_pos rfl])
    simp only [sound_cons, Bool.and_eq_true] at hs
    rw [graft_cons]
    apply ih hm _ hs.2
    apply sound_insert ht
    cases h : t.get k with
    | none =>
      cases e with
      | value v => rfl
      | table m' es =>
        simp only [Entry.Sound, Bool.and_eq_true] at he ⊢
        exact ⟨hopen m m' hm, he.2⟩
    | some f =>
      have hf := sound_get ht h
      obtain ⟨m', es', m₂, es, rfl, rfl, ho, heq⟩ | ⟨heq, _⟩ :=
        settle_cases opens f e fun p => enter (k :: p)
      · simp only [Entry.Sound, Bool.and_eq_true] at he hf ho
        simp only [heq, Entry.Sound, Bool.and_eq_true]
        exact ⟨hf.1, ihs m₂ es rfl ho.1.1 hf.2 he.2⟩
      · simpa only [heq] using hf

/-- Every path keeps what stood there. -/
theorem find_graft (hs : s.Sound holds m = true) (h : t.find p = some e) :
    ∃ e', (t.graft opens s enter).find p = some e' ∧ e.Kept e' := by
  induction p generalizing t s enter m with
  | nil => simp [find] at h
  | cons k q ih =>
    obtain ⟨hn, _⟩ | ⟨m', es', m₁, es, hk, hk', _, heq⟩ | ⟨_, heq, _⟩ := graft_cases opens hs t enter k
    · rw [find_cons_none hn] at h
      contradiction
    · by_cases hq : q = []
      · subst hq
        rw [find_single, hk] at h
        cases h
        exact ⟨_, heq, _, rfl⟩
      · rw [find_cons_table hk hq] at h
        rw [find_cons_table heq hq]
        exact ih (sound_inner hs hk') h
    · rw [find_cons_congr heq]
      exact ⟨e, h, .rfl⟩

/-- What a path comes to have: what it had, and what is put in where the walk comes to all of the
path that was there. -/
theorem has_graft (hs : s.Sound holds m = true) :
    (t.graft opens s enter).has p = true ↔ t.has p = true ∨
      (s.has p = true ∧ ∀ q, q <+: p → t.has q = true → t.Open opens s enter q) := by
  induction p generalizing t s enter m with
  | nil => simp
  | cons k q ih =>
    obtain ⟨hn, heq⟩ | ⟨m', es', m₁, es, hk, hk', ho, heq⟩ | ⟨hsome, heq, hnot⟩ :=
      graft_cases opens hs t enter k
    · rw [has_cons_congr heq, has_cons_none hn]
      simp only [Bool.false_eq_true, false_or, iff_self_and]
      intro _ r hr hhas
      cases r with
      | nil => trivial
      | cons k' r =>
        rw [(List.cons_prefix_cons.mp hr).1, has_cons_none hn] at hhas
        contradiction
    · rw [has_cons_table heq, has_cons_table hk, has_cons_table hk', ih (sound_inner hs hk')]
      apply or_congr Iff.rfl
      apply and_congr Iff.rfl
      constructor
      · intro h r hr hhas
        cases r with
        | nil => trivial
        | cons k' r =>
          obtain ⟨rfl, hqr⟩ := List.cons_prefix_cons.mp hr
          rw [has_cons_table hk] at hhas
          exact ⟨m', es', m₁, es, hk, hk', ho, h r hqr hhas⟩
      · intro h r hr hhas
        rw [← has_cons_table hk] at hhas
        obtain ⟨_, _, _, _, hg, hg', _, hopen⟩ := h _ (List.cons_prefix_cons.mpr ⟨rfl, hr⟩) hhas
        rw [hk] at hg
        rw [hk'] at hg'
        cases hg
        cases hg'
        exact hopen
    · rw [has_cons_congr heq, or_iff_left]
      rintro ⟨_, h⟩
      apply hnot
      apply h
      · exact List.cons_prefix_cons.mpr ⟨rfl, List.nil_prefix⟩
      · rw [has_single, hsome]

/-- What is found lacking is what comes to stand in a table that was there. -/
theorem mem_lacking_iff_added (hs : s.Sound holds m = true) :
    p ∈ s.lacking opens t enter (fun _ => true) ↔
      (t.graft opens s enter).has p = true ∧ t.has p = false ∧ t.has p.dropLast = true := by
  rw [mem_lacking hs, has_graft hs]
  constructor
  · rintro ⟨hopen, hp, hnot, _⟩
    refine ⟨.inr ⟨hp, ?_⟩, hnot, hopen.has⟩
    intro q hq hhas
    have hne : q ≠ p := by
      rintro rfl
      rw [hnot] at hhas
      contradiction
    exact (hopen.of_prefix (prefix_dropLast hq hne)).symm
  · rintro ⟨h | ⟨hp, h⟩, hnot, hlast⟩
    · rw [hnot] at h
      contradiction
    · exact ⟨(h _ (List.dropLast_prefix p) hlast).symm, hp, hnot, rfl⟩

/-- Where the walk comes in the result it came before, unless it was put in. -/
theorem Open.of_graft (hs : s.Sound holds m = true)
    (h : s.Open opens (t.graft opens s enter) enter q) (hq : t.has q = true) :
    t.Open opens s enter q := by
  induction q generalizing t s enter m with
  | nil => trivial
  | cons k q ih =>
    obtain ⟨m₁, es₁, m₂, es₂, hk₁, hk₂, ho₁, h⟩ := h
    obtain ⟨hn, _⟩ | ⟨m', es', m₃, es, hk, hk', ho, heq⟩ | ⟨_, heq, hnot⟩ :=
      graft_cases opens hs t enter k
    · rw [has_cons_none hn] at hq
      contradiction
    · rw [hk₁] at hk'
      rw [hk₂] at heq
      cases hk'
      cases heq
      rw [has_cons_table hk] at hq
      exact ⟨_, _, m₁, es₁, hk, hk₁, ho, ih (sound_inner hs hk₁) h hq⟩
    · exfalso
      apply hnot
      rw [Bool.and_comm (opens m₁)] at ho₁
      exact ⟨m₂, es₂, m₁, es₁, heq ▸ hk₂, hk₁, ho₁, trivial⟩

/-- Nothing is lacking any more. -/
theorem lacking_graft (hs : s.Sound holds m = true) :
    s.lacking opens (t.graft opens s enter) enter report = [] := by
  apply List.eq_nil_iff_forall_not_mem.mpr
  intro p hp
  obtain ⟨hopen, hhas, hnot, _⟩ := (mem_lacking hs).mp hp
  have hlack := mt (has_graft hs).mpr (by rw [hnot]; simp)
  apply hlack
  right
  refine ⟨hhas, ?_⟩
  intro q hq hhasq
  have hne : q ≠ p := by
    rintro rfl
    exact hlack (.inl hhasq)
  exact (hopen.of_prefix (prefix_dropLast hq hne)).of_graft hs hhasq

/-- A table that lacks nothing is left as it is. -/
theorem graft_eq_self (h : s.lacking opens t enter (fun _ => true) = []) :
    t.graft opens s enter = t := by
  induction s using consInduction generalizing t enter with
  | empty => rfl
  | cons e k rest ihs ih =>
    rw [lacking_cons, List.append_eq_nil_iff] at h
    obtain ⟨hhead, hrest⟩ := h
    rw [graft_cons]
    cases hk : t.get k with
    | none => simp [hk] at hhead
    | some f =>
      have hf : settle opens f e (fun p => enter (k :: p)) = f := by
        simp only [hk, List.map_eq_nil_iff] at hhead
        obtain ⟨m', es', m₁, es, rfl, rfl, ho, heq⟩ | ⟨heq, _⟩ :=
          settle_cases opens f e fun p => enter (k :: p)
        · rw [Bool.and_comm (opens m')] at ho
          simp only [beneath, ho, if_true] at hhead
          rw [heq, ihs m₁ es rfl hhead]
        · exact heq
      simp only [hf, insert_get hk]
      exact ih hrest

end graft
end Lib.Nested
