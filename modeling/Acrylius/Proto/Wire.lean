import Mathlib.Algebra.Group.Nat.Defs
import Mathlib.Data.List.Sort
import Mathlib.Data.List.Destutter

/-! Byte strings, 32-byte keys, and the CBOR data model the wire records are written in. -/
namespace Acrylius.Proto

abbrev Bytes := List UInt8

def wireVersion : UInt8 := 1

/-- A `[u8; 32]`: an X25519 key, a PSK or a derived key. -/
structure Key32 where
  bytes : Bytes
  size : bytes.length = 32
deriving DecidableEq

/-- `slice.try_into().ok()` at `[u8; 32]`. -/
def Key32.ofBytes (b : Bytes) : Option Key32 :=
  if h : b.length = 32 then some ⟨b, h⟩ else none

@[simp] theorem Key32.ofBytes_bytes (k : Key32) : Key32.ofBytes k.bytes = some k := by
  simp [Key32.ofBytes, k.size]

theorem Key32.bytes_of_ofBytes {b : Bytes} {k : Key32} (h : Key32.ofBytes b = some k) :
    k.bytes = b := by
  unfold Key32.ofBytes at h
  split_ifs at h
  cases h
  rfl

/-- The CBOR items the records of this protocol are made of. -/
inductive Value where
  | uint (n : ℕ)
  /-- The integer `-1 - n`. -/
  | nint (n : ℕ)
  | text (s : String)
  | bytes (b : Bytes)
  | bool (b : Bool)
  | null
  | array (vs : List Value)

/-- A type with derived `minicbor::Encode` and `Decode`: how it is laid out as an item,
and how an item is read back. -/
class Wire (α : Type) where
  toValue : α → Value
  ofValue : Value → Option α
  ofValue_toValue : ∀ a, ofValue (toValue a) = some a

attribute [simp] Wire.ofValue_toValue

instance : Wire ℕ where
  toValue := .uint
  ofValue | .uint n => some n | _ => none
  ofValue_toValue _ := rfl

instance : Wire UInt8 where
  toValue n := .uint n.toNat
  ofValue | .uint n => if n < 256 then some (UInt8.ofNat n) else none | _ => none
  ofValue_toValue n := by simp [n.toNat_lt]

instance : Wire UInt16 where
  toValue n := .uint n.toNat
  ofValue | .uint n => if n < 65536 then some (UInt16.ofNat n) else none | _ => none
  ofValue_toValue n := by simp [show n.toNat < 65536 from n.toNat_lt]

instance : Wire UInt32 where
  toValue n := .uint n.toNat
  ofValue | .uint n => if n < 4294967296 then some (UInt32.ofNat n) else none | _ => none
  ofValue_toValue n := by simp [show n.toNat < 4294967296 from n.toNat_lt]

def int64 (n : ℤ) : Option Int64 :=
  if -9223372036854775808 ≤ n ∧ n < 9223372036854775808 then some (Int64.ofInt n) else none

theorem int64_toInt (n : Int64) : int64 n.toInt = some n := by
  have hlow := n.le_toInt
  have hhigh := n.toInt_lt
  unfold int64
  rw [if_pos ⟨by omega, by omega⟩, Int64.ofInt_toInt]

instance : Wire Int64 where
  toValue n := match n.toInt with
    | .ofNat k => .uint k
    | .negSucc k => .nint k
  ofValue
    | .uint k => int64 k
    | .nint k => int64 (.negSucc k)
    | _ => none
  ofValue_toValue n := by
    have hself := int64_toInt n
    cases h : n.toInt with
    | ofNat k =>
      rw [h] at hself
      exact hself
    | negSucc k =>
      rw [h] at hself
      exact hself

instance : Wire String where
  toValue := .text
  ofValue | .text s => some s | _ => none
  ofValue_toValue _ := rfl

instance : Wire Bool where
  toValue := .bool
  ofValue | .bool b => some b | _ => none
  ofValue_toValue _ := rfl

/-- Byte strings are written `with = "minicbor::bytes"`, never as arrays of numbers. -/
instance : Wire Bytes where
  toValue := .bytes
  ofValue | .bytes b => some b | _ => none
  ofValue_toValue _ := rfl

def Value.texts : List Value → Option (List String)
  | [] => some []
  | .text s :: vs => (Value.texts vs).map (s :: ·)
  | _ :: _ => none

instance : Wire (List String) where
  toValue ss := .array (ss.map .text)
  ofValue | .array vs => Value.texts vs | _ => none
  ofValue_toValue ss := by
    induction ss with
    | nil => rfl
    | cons s ss ih => simpa [Value.texts] using ih

def Value.records (α : Type) [Wire α] : List Value → Option (List α)
  | [] => some []
  | v :: vs => do
    let a ← Wire.ofValue v
    let as ← Value.records α vs
    some (a :: as)

@[reducible] def Wire.list (α : Type) [Wire α] : Wire (List α) where
  toValue as := .array (as.map Wire.toValue)
  ofValue | .array vs => Value.records α vs | _ => none
  ofValue_toValue as := by
    induction as with
    | nil => rfl
    | cons a as ih =>
      dsimp only at ih
      simp [Value.records, ih]

/-- `None` is written as `null` and `Some n` as `n` itself. -/
instance : Wire (Option UInt32) where
  toValue | none => .null | some n => Wire.toValue n
  ofValue | .null => some none | v => (Wire.ofValue v).map some
  ofValue_toValue
    | none => rfl
    | some n => congrArg (Option.map some) (Wire.ofValue_toValue n)

instance : Wire (Option UInt8) where
  toValue | none => .null | some n => Wire.toValue n
  ofValue | .null => some none | v => (Wire.ofValue v).map some
  ofValue_toValue
    | none => rfl
    | some n => congrArg (Option.map some) (Wire.ofValue_toValue n)

instance : Wire (Option ℕ) where
  toValue | none => .null | some n => Wire.toValue n
  ofValue | .null => some none | v => (Wire.ofValue v).map some
  ofValue_toValue
    | none => rfl
    | some n => congrArg (Option.map some) (Wire.ofValue_toValue n)

/-- A record whose last field is optional: a `None` there is left out, not written as `null`. -/
def Value.record (vs : List Value) (last : Value) : Value :=
  match last with
  | .null => .array vs
  | v => .array (vs ++ [v])

theorem Value.record_cases {α : Type} [Wire (Option α)]
    (hnull : (Wire.ofValue .null : Option (Option α)) = some none) (vs : List Value)
    (a : Option α) : (a = none ∧ record vs (Wire.toValue a) = .array vs) ∨
      record vs (Wire.toValue a) = .array (vs ++ [Wire.toValue a]) := by
  have hback := Wire.ofValue_toValue a
  generalize Wire.toValue a = v at hback ⊢
  cases v with
  | null =>
    rw [hnull] at hback
    exact .inl ⟨(Option.some.inj hback).symm, rfl⟩
  | _ => exact .inr rfl

/-- The field at position `i` of an array-encoded record. Positions past the ones a reader
knows are skipped; a position the writer left out is an error. -/
def Value.field {α : Type} [Wire α] (vs : List Value) (i : ℕ) : Option α :=
  vs[i]?.bind Wire.ofValue

/-- An optional field: a position the writer left out reads as `None`. -/
def Value.optField {α : Type} [Wire (Option α)] (vs : List Value) (i : ℕ) : Option (Option α) :=
  match vs[i]? with
  | none => some none
  | some v => Wire.ofValue v

end Acrylius.Proto
