import Acrylius.Lib.Trim

/-! Paths as the standard library splits them: the file name, its extension, and the path with
another one (`std::path::Path`). -/
namespace Acrylius

namespace Path

/-- What is left of a path, read from its end, without slashes and dots that name nothing. -/
def trimEnd : List Char → List Char
  | [] => []
  | '/' :: rest => if rest = [] then ['/'] else trimEnd rest
  | '.' :: rest => if rest.head? = some '/' then trimEnd rest else '.' :: rest
  | c :: rest => c :: rest

/-- A path up to the end of its last component. -/
def trimmed (path : String) : List Char := (trimEnd path.toList.reverse).reverse

/-- `Path::file_name`: the last component, if it names something in its directory. -/
def fileName (path : String) : Option (List Char) :=
  let name := (trimmed path).rtakeWhile (· ≠ '/')
  if name = [] ∨ name = ['.'] ∨ name = ['.', '.'] then none else some name

/-- The file name up to its last dot, and what follows; a dot that begins it counts for nothing. -/
def splitName (name : List Char) : List Char × Option (List Char) :=
  match Lib.rsplitOnce '.' name with
  | some (stem, ext) => if stem = [] then (name, none) else (stem, some ext)
  | none => (name, none)

def extension (path : String) : Option (List Char) := (fileName path).bind fun name => (splitName name).2

def withExtension (path : String) (ext : List Char) : String :=
  match fileName path with
  | none => path
  | some name => String.ofList
      ((trimmed path).rdropWhile (· ≠ '/') ++ (splitName name).1 ++ '.' :: ext)

theorem trimmed_of_last {path : String} {cs : List Char} {c : Char} (h : path.toList = cs ++ [c])
    (hslash : c ≠ '/') (hdot : c ≠ '.') : trimmed path = path.toList := by
  have hkept : trimEnd (c :: cs.reverse) = c :: cs.reverse := by
    unfold trimEnd
    split
    · rename_i heq
      cases heq
    · rename_i heq
      exact absurd (List.cons.inj heq).1 hslash
    · rename_i heq
      exact absurd (List.cons.inj heq).1 hdot
    · rename_i heq
      exact heq.symm
  unfold trimmed
  rw [h, List.reverse_append, List.reverse_singleton, List.singleton_append, hkept,
    List.reverse_cons, List.reverse_reverse]

/-- A name without slashes that ends in neither is the file name. -/
theorem fileName_append {path : String} {dir name : List Char} {c : Char}
    (h : path.toList = dir ++ '/' :: (name ++ [c])) (hname : '/' ∉ name) (hslash : c ≠ '/')
    (hdot : c ≠ '.') : fileName path = some (name ++ [c]) ∧
      (trimmed path).rdropWhile (· ≠ '/') = dir ++ ['/'] := by
  have hsplit : path.toList = dir ++ '/' :: name ++ [c] := by rw [h]; simp
  have hmem : '/' ∉ name ++ [c] := by
    intro hmem
    rcases List.mem_append.mp hmem with hmem | hmem
    · exact hname hmem
    · exact hslash (List.mem_singleton.mp hmem).symm
  have htake : (trimmed path).rtakeWhile (· ≠ '/') = name ++ [c] := by
    rw [trimmed_of_last hsplit hslash hdot, h]
    exact Lib.rtakeWhile_append_ne hmem
  constructor
  · unfold fileName
    dsimp only
    rw [htake, if_neg]
    rintro (hnil | hone | htwo)
    · simp at hnil
    · have hone' : name ++ [c] = [] ++ ['.'] := hone
      obtain ⟨-, hc⟩ := List.append_inj' hone' rfl
      exact hdot (List.singleton_inj.mp hc)
    · have htwo' : name ++ [c] = ['.'] ++ ['.'] := htwo
      obtain ⟨-, hc⟩ := List.append_inj' htwo' rfl
      exact hdot (List.singleton_inj.mp hc)
  · have hall : ∀ b ∈ name ++ [c], decide (b ≠ '/') = true := by
      intro b hb
      apply decide_eq_true
      rintro rfl
      exact hmem hb
    have hcut : path.toList = dir ++ ['/'] ++ (name ++ [c]) := by rw [h]; simp
    rw [trimmed_of_last hsplit hslash hdot, hcut, Lib.rdropWhile_append_all hall]
    exact List.rdropWhile_concat_neg (fun x => decide (x ≠ '/')) dir '/' (by simp)

/-- No file has an extension with a dot in it. -/
theorem withExtension_ne {path : String} (front back : List Char) (c : Char)
    (hfile : (fileName path).isSome) (hdot : '.' ∉ back ++ [c]) (hslash : c ≠ '/') :
    path ≠ withExtension path (front ++ '.' :: (back ++ [c])) := by
  intro hsame
  obtain ⟨name, hname⟩ := Option.isSome_iff_exists.mp hfile
  obtain ⟨stem, hstem⟩ : ∃ stem, (splitName name).1 = stem := ⟨_, rfl⟩
  have htext : path.toList = (trimmed path).rdropWhile (· ≠ '/') ++ (stem ++
      '.' :: (front ++ '.' :: (back ++ [c]))) := by
    have hlist := congrArg String.toList hsame
    unfold withExtension at hlist
    rw [hname] at hlist
    dsimp only at hlist
    rw [hstem] at hlist
    rwa [String.toList_ofList, List.append_assoc] at hlist
  have hc : c ≠ '.' := fun h => hdot (by simp [h])
  have hlast : path.toList = ((trimmed path).rdropWhile (· ≠ '/') ++ (stem ++
      '.' :: (front ++ '.' :: back))) ++ [c] := by
    rw [htext]
    simp
  have hwhole := trimmed_of_last hlast hslash hc
  have hown : name = (trimmed path).rtakeWhile (· ≠ '/') := by
    unfold fileName at hname
    dsimp only at hname
    split at hname
    · cases hname
    · exact (Option.some.inj hname).symm
  have hsplit : (trimmed path).rdropWhile (· ≠ '/') ++ name = path.toList := by
    rw [hown, List.rdropWhile_append_rtakeWhile, hwhole]
  have hdots : name = stem ++ '.' :: front ++ '.' :: (back ++ [c]) := by
    rw [List.append_cancel_left (hsplit.trans htext)]
    simp
  -- The last dot of the name would stand further on than where its stem ends.
  have hcut : (splitName name).1 = stem ++ '.' :: front := by
    rw [hdots]
    unfold splitName
    rw [Lib.rsplitOnce_append hdot]
    simp
  have hlen := congrArg List.length (hstem.symm.trans hcut)
  simp at hlen

end Path
end Acrylius
