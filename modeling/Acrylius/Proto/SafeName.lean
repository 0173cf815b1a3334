import Acrylius.Lib.Trim
import Mathlib.Data.String.Basic

/-! `safe_name`: a file name from a peer, made safe to use (`bulk.rs`). -/
namespace Acrylius
namespace SafeName

def maxNameBytes : ℕ := 200

def isSeparator (c : Char) : Bool := c = '/' ∨ c = '\\'

/-- `char::is_control`: the category `Cc`. -/
def isControl (c : Char) : Bool := c.toNat < 0x20 ∨ (0x7f ≤ c.toNat ∧ c.toNat < 0xa0)

/-- `char::is_whitespace`: the property `White_Space`. -/
def isWhitespace (c : Char) : Bool :=
  let n := c.toNat
  (0x9 ≤ n ∧ n ≤ 0xd) ∨ n = 0x20 ∨ n = 0x85 ∨ n = 0xa0 ∨ n = 0x1680 ∨ (0x2000 ≤ n ∧ n ≤ 0x200a) ∨
    n = 0x2028 ∨ n = 0x2029 ∨ n = 0x202f ∨ n = 0x205f ∨ n = 0x3000

def base (offered : String) : List Char :=
  (offered.toList.rtakeWhile (!isSeparator ·)).filter (!isControl ·)

def trim (cs : List Char) : List Char := (cs.dropWhile isWhitespace).rdropWhile isWhitespace

/-- The characters that still fit, after so many bytes. -/
def cut (used : ℕ) : List Char → List Char
  | [] => []
  | c :: cs =>
    if maxNameBytes < used + c.utf8Size then [] else c :: cut (used + c.utf8Size) cs

end SafeName

open SafeName String

/-- A file name from a peer, made safe to use: anything that could steer where the bytes land is
removed rather than rejected. -/
def safeName (offered : String) : String :=
  let trimmed := trim ((trim (base offered)).dropWhile (· = '.'))
  let cleaned := cut 0 trimmed
  if cleaned = [] then "received" else String.ofList cleaned

namespace SafeName

structure Safe (offered : String) : Prop where
  named : safeName offered ≠ ""
  short : (safeName offered).utf8ByteSize ≤ maxNameBytes
  plain : ∀ c ∈ (safeName offered).toList, isSeparator c = false ∧ isControl c = false
  visible : (safeName offered).toList.head? ≠ some '.'
  first : ∀ c, (safeName offered).toList.head? = some c → isWhitespace c = false
  last : ∀ c, (safeName offered).toList.getLast? = some c → isWhitespace c = false
  stable : safeName (safeName offered) = safeName offered

/-- The name once leading white space, then dots, then white space are gone. -/
def stem (offered : String) : List Char :=
  (((base offered).dropWhile isWhitespace).dropWhile (· = '.')).dropWhile isWhitespace

/-- No dot comes to light behind dots and white space, and the limit in bytes does not fall behind
white space inside the name. -/
structure Tame (offered : String) : Prop where
  first : (stem offered).head? ≠ some '.'
  limit : ∀ kept w c rest, stem offered = kept ++ w :: c :: rest → isWhitespace w = true →
    utf8Len (kept ++ [w]) ≤ maxNameBytes → maxNameBytes < utf8Len (kept ++ [w, c]) →
      ∀ d ∈ c :: rest, isWhitespace d = true

section Cutting
variable {used : ℕ} {cs kept : List Char} {c : Char}

/-- The cut leaves a beginning, as long as may be. -/
theorem cut_spec (used : ℕ) (cs : List Char) : ∃ rest, cs = cut used cs ++ rest ∧
    (used ≤ maxNameBytes → used + utf8Len (cut used cs) ≤ maxNameBytes) ∧
    ∀ c r, rest = c :: r → maxNameBytes < used + utf8Len (cut used cs) + c.utf8Size := by
  induction cs generalizing used with
  | nil => exact ⟨[], rfl, fun h => h, nofun⟩
  | cons c cs ih =>
    unfold cut
    by_cases hfull : maxNameBytes < used + c.utf8Size
    · rw [if_pos hfull]
      refine ⟨c :: cs, rfl, fun h => h, fun c' r heq => ?_⟩
      obtain ⟨rfl, -⟩ := List.cons.inj heq
      exact hfull
    · rw [if_neg hfull]
      obtain ⟨rest, hsplit, hfits, hnext⟩ := ih (used + c.utf8Size)
      refine ⟨rest, congrArg (c :: ·) hsplit, fun _ => ?_, fun c' r heq => ?_⟩
      · have hcut := hfits (Nat.le_of_not_lt hfull)
        rw [utf8Len_cons]
        omega
      · have hcut := hnext c' r heq
        rw [utf8Len_cons]
        omega

theorem cut_append (hfits : used + utf8Len kept ≤ maxNameBytes)
    (hnext : maxNameBytes < used + utf8Len kept + c.utf8Size) :
    cut used (kept ++ c :: cs) = kept := by
  induction kept generalizing used with
  | nil =>
    unfold cut
    exact if_pos hnext
  | cons d kept ih =>
    rw [utf8Len_cons] at hfits hnext
    have hroom : ¬ maxNameBytes < used + d.utf8Size := by omega
    rw [List.cons_append]
    unfold cut
    rw [if_neg hroom, ih (by omega) (by omega)]

theorem cut_of_fits (hfits : used + utf8Len cs ≤ maxNameBytes) : cut used cs = cs := by
  induction cs generalizing used with
  | nil => rfl
  | cons d cs ih =>
    rw [utf8Len_cons] at hfits
    have hroom : ¬ maxNameBytes < used + d.utf8Size := by omega
    unfold cut
    rw [if_neg hroom, ih (by omega)]

theorem cut_cons (c : Char) (cs : List Char) : ∃ rest, cut 0 (c :: cs) = c :: rest := by
  have hsize : c.utf8Size ≤ 4 := c.utf8Size_le_four
  have hroom : ¬ maxNameBytes < 0 + c.utf8Size := by
    unfold maxNameBytes
    omega
  unfold cut
  rw [if_neg hroom]
  exact ⟨_, rfl⟩

end Cutting

theorem base_plain {offered : String} {c : Char} (h : c ∈ base offered) :
    isSeparator c = false ∧ isControl c = false := by
  obtain ⟨hmem, hcontrol⟩ := List.mem_filter.mp h
  have hseparator := List.mem_rtakeWhile_imp hmem
  exact ⟨(Bool.not_eq_true' _).mp hseparator, (Bool.not_eq_true' _).mp hcontrol⟩

theorem stem_sublist (offered : String) : (stem offered).Sublist (base offered) := by
  have houter := (List.dropWhile_suffix isWhitespace
    (l := ((base offered).dropWhile isWhitespace).dropWhile (· = '.'))).sublist
  have hdots := (List.dropWhile_suffix (· = '.') (l := (base offered).dropWhile isWhitespace)).sublist
  have hinner := (List.dropWhile_suffix isWhitespace (l := base offered)).sublist
  exact houter.trans (hdots.trans hinner)

theorem stem_head {offered : String} {c : Char} (h : (stem offered).head? = some c) :
    isWhitespace c = false := by
  have hhead := List.head?_dropWhile_not isWhitespace
    (((base offered).dropWhile isWhitespace).dropWhile (· = '.'))
  unfold stem at h
  rw [h] at hhead
  exact hhead

/-- Trimming the end first, as the code does, or last. -/
theorem trimmed_eq (offered : String) : trim ((trim (base offered)).dropWhile (· = '.')) =
    (stem offered).rdropWhile isWhitespace := by
  obtain ⟨u, hsplit, hu⟩ := Lib.rdropWhile_split isWhitespace ((base offered).dropWhile isWhitespace)
  obtain ⟨u', hdots, hu'⟩ := Lib.dropWhile_append_all (p := fun c => decide (c = '.'))
    (l := ((base offered).dropWhile isWhitespace).rdropWhile isWhitespace) hu
  obtain ⟨u'', hspace, hu''⟩ := Lib.dropWhile_append_all (p := isWhitespace)
    (l := (((base offered).dropWhile isWhitespace).rdropWhile isWhitespace).dropWhile (· = '.')) hu'
  have hstem : stem offered = ((((base offered).dropWhile isWhitespace).rdropWhile
      isWhitespace).dropWhile (· = '.')).dropWhile isWhitespace ++ u'' := by
    unfold stem
    conv_lhs => rw [hsplit]
    rw [hdots, hspace]
  rw [hstem, Lib.rdropWhile_append_all hu'']
  rfl

theorem trimmed_cases (offered : String) : stem offered = [] ∨
    ∃ c cs, (stem offered).rdropWhile isWhitespace = c :: cs ∧ (stem offered).head? = some c := by
  cases hstem : stem offered with
  | nil => exact .inl rfl
  | cons c cs =>
    have hc : isWhitespace c = false := stem_head (by rw [hstem]; rfl)
    have hne : (c :: cs).rdropWhile isWhitespace ≠ [] := by
      intro hnil
      have hall := List.rdropWhile_eq_nil_iff.mp hnil c List.mem_cons_self
      rw [hc] at hall
      cases hall
    obtain ⟨d, ds, hd⟩ := List.exists_cons_of_ne_nil hne
    have hprefix := List.rdropWhile_prefix isWhitespace (c :: cs)
    rw [hd] at hprefix
    have heq := (List.cons_prefix_cons.mp hprefix).1
    rw [heq] at hd
    exact .inr ⟨c, ds, hd, rfl⟩

/-- A name that is safe already stays as it is. -/
theorem safeName_of_clean {cs : List Char} (named : cs ≠ []) (short : utf8Len cs ≤ maxNameBytes)
    (plain : ∀ c ∈ cs, isSeparator c = false ∧ isControl c = false) (visible : cs.head? ≠ some '.')
    (first : ∀ c, cs.head? = some c → isWhitespace c = false)
    (last : ∀ c, cs.getLast? = some c → isWhitespace c = false) :
    safeName (String.ofList cs) = String.ofList cs := by
  have hbase : base (String.ofList cs) = cs := by
    unfold base
    rw [String.toList_ofList]
    have htake : cs.rtakeWhile (!isSeparator ·) = cs := by
      rw [List.rtakeWhile_eq_self_iff]
      intro c hc
      rw [(plain c hc).1]
      rfl
    rw [htake, List.filter_eq_self]
    intro c hc
    rw [(plain c hc).2]
    rfl
  have hfront : cs.dropWhile isWhitespace = cs := by
    cases cs with
    | nil => rfl
    | cons c cs =>
      have hc := first c rfl
      exact List.dropWhile_cons_of_neg (by rw [hc]; exact Bool.false_ne_true)
  have hend : cs.rdropWhile isWhitespace = cs := by
    rw [List.rdropWhile_eq_self_iff]
    intro hne hspace
    rw [last _ (List.getLast?_eq_some_getLast hne)] at hspace
    cases hspace
  have htrim : trim cs = cs := by
    unfold trim
    rw [hfront, hend]
  have hdots : cs.dropWhile (· = '.') = cs := by
    cases cs with
    | nil => rfl
    | cons c cs =>
      have hc : ¬ decide (c = '.') = true := by
        intro hdot
        exact visible (congrArg some (of_decide_eq_true hdot))
      exact List.dropWhile_cons_of_neg hc
  have hcut : cut 0 cs = cs := cut_of_fits (by omega)
  unfold safeName
  rw [hbase, htrim, hdots, htrim]
  dsimp only
  rw [hcut, if_neg named]

/-- What any name comes out as, whatever the cut leaves. -/
theorem safeName_cases (offered : String) : stem offered = [] ∧ safeName offered = "received" ∨
    ∃ c cs rest, cut 0 ((stem offered).rdropWhile isWhitespace) = c :: cs ∧
      safeName offered = String.ofList (c :: cs) ∧ (stem offered).head? = some c ∧
      (stem offered).rdropWhile isWhitespace = c :: cs ++ rest ∧
      utf8Len (c :: cs) ≤ maxNameBytes ∧
      ∀ d r, rest = d :: r → maxNameBytes < utf8Len (c :: cs) + d.utf8Size := by
  have hname : safeName offered = if cut 0 ((stem offered).rdropWhile isWhitespace) = [] then "received"
      else String.ofList (cut 0 ((stem offered).rdropWhile isWhitespace)) := by
    unfold safeName
    rw [trimmed_eq]
  rcases trimmed_cases offered with hnil | ⟨c, cs, htrimmed, hhead⟩
  · rw [hname, hnil]
    exact .inl ⟨rfl, rfl⟩
  · obtain ⟨rest, hsplit, hfits, hnext⟩ := cut_spec 0 ((stem offered).rdropWhile isWhitespace)
    have hcut := cut_cons c cs
    rw [← htrimmed] at hcut
    obtain ⟨ds, hds⟩ := hcut
    rw [hds, Nat.zero_add] at hfits
    rw [hds] at hsplit
    refine .inr ⟨c, ds, rest, hds, ?_, hhead, hsplit, hfits (Nat.zero_le _), fun d r heq => ?_⟩
    · rw [hname, hds]
      exact if_neg (List.cons_ne_nil c ds)
    · have hover := hnext d r heq
      rw [hds, Nat.zero_add] at hover
      exact hover

section Promises
variable {offered : String} {c : Char} {cs rest : List Char}

/-- Where the byte limit falls inside the name, white space before it is what the name ends in. -/
theorem cut_at_limit {kept : List Char} {w d : Char}
    (hstem : stem offered = kept ++ w :: d :: rest) (hfits : utf8Len (kept ++ [w]) ≤ maxNameBytes)
    (hnext : maxNameBytes < utf8Len (kept ++ [w, d]))
    (hmore : ¬ ∀ e ∈ d :: rest, isWhitespace e = true) :
    cut 0 ((stem offered).rdropWhile isWhitespace) = kept ++ [w] := by
  have hstays : (d :: rest).rdropWhile isWhitespace ≠ [] := by
    intro hnil
    exact hmore (List.rdropWhile_eq_nil_iff.mp hnil)
  have htrimmed : (stem offered).rdropWhile isWhitespace =
      kept ++ [w] ++ (d :: rest).rdropWhile isWhitespace := by
    have hsplit : kept ++ w :: d :: rest = kept ++ [w] ++ d :: rest := by
      rw [List.append_assoc]
      rfl
    rw [hstem, hsplit, Lib.rdropWhile_append_of_stays hstays]
  obtain ⟨e, es, hes⟩ := List.exists_cons_of_ne_nil hstays
  have hsame : e = d := by
    have hprefix := List.rdropWhile_prefix isWhitespace (d :: rest)
    rw [hes] at hprefix
    exact (List.cons_prefix_cons.mp hprefix).1
  rw [htrimmed, hes, hsame]
  refine cut_append (by omega) ?_
  rw [utf8Len_append, utf8Len_cons, utf8Len_cons, utf8Len_nil] at hnext
  rw [utf8Len_append, utf8Len_cons, utf8Len_nil]
  omega

/-- The name a tame offer comes out as does not end in white space. -/
theorem Tame.last (h : Tame offered)
    (htrimmed : (stem offered).rdropWhile isWhitespace = c :: cs ++ rest)
    (hfits : utf8Len (c :: cs) ≤ maxNameBytes)
    (hnext : ∀ d r, rest = d :: r → maxNameBytes < utf8Len (c :: cs) + d.utf8Size) :
    ∀ w, (c :: cs).getLast? = some w → isWhitespace w = false := by
  intro w hw
  by_contra hspace
  have hspace : isWhitespace w = true := (Bool.not_eq_false _).mp hspace
  obtain ⟨kept, hkept⟩ : ∃ kept, c :: cs = kept ++ [w] := List.getLast?_eq_some_iff.mp hw
  have hne : (stem offered).rdropWhile isWhitespace ≠ [] := by
    rw [htrimmed]
    exact List.cons_ne_nil _ _
  have hlast := List.rdropWhile_last_not isWhitespace (stem offered) hne
  cases rest with
  | nil =>
    -- Nothing was cut off, and trimming leaves no white space at the end.
    rw [List.append_nil, hkept] at htrimmed
    have hend : ((stem offered).rdropWhile isWhitespace).getLast hne = w := by
      simp only [htrimmed, List.getLast_append_singleton]
    exact hlast (hend ▸ hspace)
  | cons d r =>
    obtain ⟨u, hsplit, hu⟩ := Lib.rdropWhile_split isWhitespace (stem offered)
    have hstem : stem offered = kept ++ w :: d :: (r ++ u) := by
      conv_lhs => rw [hsplit]
      rw [htrimmed, hkept]
      simp only [List.append_assoc, List.cons_append, List.nil_append]
    have hover : maxNameBytes < utf8Len (kept ++ [w, d]) := by
      have hlimit := hnext d r rfl
      rw [hkept, utf8Len_append, utf8Len_cons, utf8Len_nil] at hlimit
      rw [utf8Len_append, utf8Len_cons, utf8Len_cons, utf8Len_nil]
      omega
    have hall := h.limit kept w d (r ++ u) hstem hspace (hkept ▸ hfits) hover
    have hmem : ((stem offered).rdropWhile isWhitespace).getLast hne ∈ d :: r := by
      have hend : ((stem offered).rdropWhile isWhitespace).getLast hne =
          (d :: r).getLast (List.cons_ne_nil d r) := by
        simp only [htrimmed]
        exact List.getLast_append_of_ne_nil _ (List.cons_ne_nil d r)
      rw [hend]
      exact List.getLast_mem _
    refine hlast (hall _ ?_)
    rcases List.mem_cons.mp hmem with heq | hr
    · rw [heq]
      exact List.mem_cons_self
    · exact List.mem_cons_of_mem _ (List.mem_append_left u hr)

theorem Safe.tame (h : Safe offered) : Tame offered := by
  rcases safeName_cases offered with ⟨hnil, -⟩ | ⟨c, cs, rest, hcut, hname, hhead, -⟩
  · constructor
    · rw [hnil]
      exact nofun
    · intro kept w d rest hstem
      rw [hnil] at hstem
      exact absurd hstem.symm (by simp)
  · constructor
    · intro hdot
      apply h.visible
      rw [hname, String.toList_ofList]
      exact hhead.symm.trans hdot
    · intro kept w d rest' hstem hspace hfits hnext
      by_contra hmore
      have hend := cut_at_limit hstem hfits hnext hmore
      have hlast := h.last w
      rw [hname, String.toList_ofList, ← hcut, hend] at hlast
      have hfalse := hlast List.getLast?_concat
      rw [hspace] at hfalse
      cases hfalse

theorem Tame.safe (h : Tame offered) : Safe offered := by
  rcases safeName_cases offered with ⟨-, hname⟩ |
    ⟨c, cs, rest, -, hname, hhead, htrimmed, hfits, hnext⟩
  · constructor
    all_goals rw [hname]
    · decide
    · decide
    · intro c hc
      have hall : "received".toList.all fun c => !isSeparator c && !isControl c := by decide
      simpa using List.all_eq_true.mp hall c hc
    · decide
    · intro c hc
      obtain rfl : 'r' = c := Option.some.inj hc
      decide
    · intro c hc
      obtain rfl : 'd' = c := Option.some.inj hc
      decide
    · decide
  · have hlast := h.last htrimmed hfits hnext
    have hplain : ∀ d ∈ c :: cs, isSeparator d = false ∧ isControl d = false := by
      intro d hd
      have hmem : d ∈ (stem offered).rdropWhile isWhitespace := by
        rw [htrimmed]
        exact List.mem_append_left rest hd
      exact base_plain ((stem_sublist offered).subset
        ((List.rdropWhile_prefix isWhitespace (stem offered)).subset hmem))
    have hvisible : (c :: cs).head? ≠ some '.' := fun hdot => h.first (hhead.trans hdot)
    have hfirst : ∀ d, (c :: cs).head? = some d → isWhitespace d = false :=
      fun d hd => stem_head (hhead.trans hd)
    constructor
    all_goals rw [hname]
    · intro hempty
      have hlist := congrArg String.toList hempty
      rw [String.toList_ofList] at hlist
      cases hlist
    · rw [utf8ByteSize_ofList]
      exact hfits
    · rw [String.toList_ofList]
      exact hplain
    · rw [String.toList_ofList]
      exact hvisible
    · rw [String.toList_ofList]
      exact hfirst
    · rw [String.toList_ofList]
      exact hlast
    · exact safeName_of_clean (List.cons_ne_nil c cs) hfits hplain hvisible hfirst hlast

end Promises

/-- A made-safe name keeps its promises exactly if the offered name is tame. -/
theorem safe_iff_tame (offered : String) : Safe offered ↔ Tame offered := ⟨Safe.tame, Tame.safe⟩

/-- A name that comes out as the directory above. -/
theorem parent_directory_survives : ¬ ∀ offered : String, Safe offered := by
  intro hall
  exact (hall ". ..").visible (by decide)

end SafeName
end Acrylius
