import Acrylius.Lib.Run
import Acrylius.Lib.Table
import Std.Data.ExtTreeMap.Lemmas

/-! A directory of files, the operations on it, and what a crash in the middle of some of them
leaves behind. -/
namespace Lib
open Std

variable {N B : Type} [Ord N] [TransOrd N]

abbrev Disk (N B : Type) [Ord N] := ExtTreeMap N (List B)

/-- The operations of a file system. A write goes to the end of a file that was opened empty. -/
inductive DiskOp (N B : Type) where
  | create (name : N)
  | write (name : N) (bytes : List B)
  | rename (source target : N)
  | remove (name : N)

namespace Disk

def append (d : Disk N B) (name : N) (bytes : List B) : Disk N B :=
  match d[name]? with
  | some old => d.insert name (old ++ bytes)
  | none => d

/-- Atomic, and over whatever was there. -/
def rename (d : Disk N B) (source target : N) : Disk N B :=
  match d[source]? with
  | some bytes => (d.erase source).insert target bytes
  | none => d

def apply (d : Disk N B) : DiskOp N B → Disk N B
  | .create name => d.insert name []
  | .write name bytes => d.append name bytes
  | .rename source target => d.rename source target
  | .remove name => d.erase name

def perform (d : Disk N B) (ops : List (DiskOp N B)) : Disk N B := Lib.run apply d ops

/-- A crash after so many operations, and that much of the next one's bytes. -/
def crash (d : Disk N B) : List (DiskOp N B) → (after bytes : ℕ) → Disk N B
  | [], _, _ => d
  | .write name bs :: _, 0, bytes => d.append name (bs.take bytes)
  | _ :: _, 0, _ => d
  | op :: ops, after + 1, bytes => crash (d.apply op) ops after bytes

variable {d : Disk N B} {name other source target : N} {bs : List B}

theorem append_some {old : List B} (h : d[name]? = some old) :
    d.append name bs = d.insert name (old ++ bs) := by
  unfold append
  rw [h]

theorem rename_some (h : d[source]? = some bs) :
    d.rename source target = (d.erase source).insert target bs := by
  unfold rename
  rw [h]

variable [LawfulEqOrd N]

theorem append_other (h : other ≠ name) : (d.append name bs)[other]? = d[other]? := by
  unfold append
  split
  · exact getElem?_insert_of_ne h
  · rfl

theorem erase_append : (d.append name bs).erase name = d.erase name := by
  unfold append
  split
  · exact insert_erase d name _
  · rfl

/-- A file made anew, filled, and moved into place. -/
theorem put_in_place :
    d.perform [.create source, .write source bs, .rename source target] =
      (d.erase source).insert target bs := by
  have hnew : (d.insert source [])[source]? = some [] := ExtTreeMap.getElem?_insert_self
  have hfull : append (d.insert source []) source bs = d.insert source bs := by
    rw [append_some hnew, List.nil_append]
    exact insert_insert d source [] bs
  have hread : (d.insert source bs)[source]? = some bs := ExtTreeMap.getElem?_insert_self
  unfold perform
  rw [run_cons, run_cons, run_cons, run_nil]
  dsimp only [apply]
  rw [hfull, rename_some hread, insert_erase]

/-- A crash before it is in place changes nothing but the new file. -/
theorem crash_put_other {after bytes : ℕ} (hs : other ≠ source) (hafter : after < 3) :
    (d.crash [.create source, .write source bs, .rename source target] after bytes)[other]? =
      d[other]? := by
  have hcreate : (d.insert source [])[other]? = d[other]? := getElem?_insert_of_ne hs
  match after, hafter with
  | 0, _ => rfl
  | 1, _ => exact (append_other hs).trans hcreate
  | 2, _ => exact (append_other hs).trans hcreate

/-- A crash once it is in place changes nothing any more. -/
theorem crash_put_done {after bytes : ℕ} (hafter : 3 ≤ after) :
    d.crash [.create source, .write source bs, .rename source target] after bytes =
      (d.erase source).insert target bs := by
  obtain ⟨k, rfl⟩ := Nat.exists_eq_add_of_le' hafter
  rw [← put_in_place]
  rfl

end Disk
end Lib
