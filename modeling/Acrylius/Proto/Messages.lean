import Acrylius.Proto.Ids

/-! What travels: the frame tag outside the encryption, the `Hello` inside a handshake, the
envelope inside a session, and the keys derived from a finished handshake (`frame.rs`,
`handshake.rs`, `envelope.rs`, `pairing.rs`, `bulk.rs`). -/
namespace Acrylius.Proto

def ascii (s : String) : Bytes := s.toList.map (UInt8.ofNat ·.toNat)

inductive FrameKind where
  | pairHandshake
  | sessionHandshake
  | transport
deriving DecidableEq

def FrameKind.toByte : FrameKind → UInt8
  | .pairHandshake => 1
  | .sessionHandshake => 2
  | .transport => 3

def FrameKind.fromByte (b : UInt8) : Option FrameKind :=
  if b = 1 then some .pairHandshake
  else if b = 2 then some .sessionHandshake
  else if b = 3 then some .transport
  else none

namespace Frame

def join (kind : FrameKind) (payload : Bytes) : Bytes := kind.toByte :: payload

/-- Split a received frame into its kind and body; `none` for an empty frame or an unknown
kind. -/
def split : Bytes → Option (FrameKind × Bytes)
  | [] => none
  | first :: rest => (FrameKind.fromByte first).map (·, rest)

@[simp] theorem split_join (kind : FrameKind) (payload : Bytes) :
    split (join kind payload) = some (kind, payload) := by
  cases kind <;> rfl

theorem join_of_split {msg : Bytes} {kind : FrameKind} {body : Bytes}
    (h : split msg = some (kind, body)) : msg = join kind body := by
  cases msg with
  | nil => simp [split] at h
  | cons b rest =>
    simp only [split, FrameKind.fromByte, Option.map_eq_some_iff, Prod.mk.injEq] at h
    obtain ⟨k, hk, rfl, rfl⟩ := h
    split_ifs at hk with h1 h2 h3 <;> cases hk <;> simp [join, FrameKind.toByte, *]

@[simp] theorem length_join (kind : FrameKind) (payload : Bytes) :
    (join kind payload).length = payload.length + 1 := rfl

end Frame

def maxSkewMs : ℕ := 60000

structure Hello where
  v : UInt8
  /-- Sender's clock, milliseconds since the Unix epoch. -/
  tsMs : ℕ
  /-- For a log line; never trusted. -/
  deviceId : String
  name : String
  platform : String
  capsOut : List String
  capsIn : List String
deriving DecidableEq

instance : Wire Hello where
  toValue h := .array [Wire.toValue h.v, Wire.toValue h.tsMs, Wire.toValue h.deviceId,
    Wire.toValue h.name, Wire.toValue h.platform, Wire.toValue h.capsOut, Wire.toValue h.capsIn]
  ofValue
    | .array vs => do
      let v ← Value.field vs 0
      let tsMs ← Value.field vs 1
      let deviceId ← Value.field vs 2
      let name ← Value.field vs 3
      let platform ← Value.field vs 4
      let capsOut ← Value.field vs 5
      let capsIn ← Value.field vs 6
      some { v, tsMs, deviceId, name, platform, capsOut, capsIn }
    | _ => none
  ofValue_toValue h := by simp [Value.field]

inductive FreshnessError where
  | skew (excess : ℕ)
  | replay (got seen : ℕ)
deriving DecidableEq

def FreshnessError.toString : FreshnessError → String
  | .skew n => "handshake timestamp is " ++ Nat.repr n ++ " ms outside the permitted skew"
  | .replay got seen => "handshake timestamp " ++ Nat.repr got ++
      " is not newer than the last seen " ++ Nat.repr seen ++ ": replay"

/-- Reject a stale, skewed or replayed opener; otherwise the new watermark. -/
def Hello.checkFreshness (h : Hello) (nowMs seen : ℕ) : Except FreshnessError ℕ :=
  let delta := (nowMs - h.tsMs) + (h.tsMs - nowMs)
  if maxSkewMs < delta then .error (.skew (delta - maxSkewMs))
  else if h.tsMs ≤ seen then .error (.replay h.tsMs seen)
  else .ok h.tsMs

theorem Hello.checkFreshness_ok {h : Hello} {nowMs seen w : ℕ}
    (hw : h.checkFreshness nowMs seen = .ok w) :
    w = h.tsMs ∧ seen < h.tsMs ∧ nowMs ≤ h.tsMs + maxSkewMs ∧ h.tsMs ≤ nowMs + maxSkewMs := by
  unfold Hello.checkFreshness at hw
  dsimp only at hw
  split_ifs at hw with h1 h2
  cases hw
  exact ⟨rfl, by omega, by omega, by omega⟩

/-- `sort_unstable` followed by `dedup`. -/
def sortDedup (caps : List String) : List String :=
  (caps.insertionSort (· ≤ ·)).destutter (· ≠ ·)

theorem sortDedup_eq (caps : List String) :
    sortDedup caps = (caps.insertionSort (· ≤ ·)).dedup :=
  (List.pairwise_insertionSort (· ≤ ·) caps).destutter_eq_dedup

theorem sortDedup_pairwise (caps : List String) : (sortDedup caps).Pairwise (· < ·) := by
  rw [sortDedup_eq]
  have hsorted := (List.pairwise_insertionSort (· ≤ ·) caps).sublist (List.dedup_sublist _)
  exact (hsorted.and (List.nodup_dedup _)).imp fun h => Std.lt_of_le_of_ne h.1 h.2

theorem mem_sortDedup {caps : List String} {cap : String} : cap ∈ sortDedup caps ↔ cap ∈ caps := by
  rw [sortDedup_eq, List.mem_dedup, List.mem_insertionSort]

/-- The capabilities that may flow from the sender to the receiver. -/
def negotiate (senderOut receiverIn : List String) : List String :=
  sortDedup (senderOut.filter (· ∈ receiverIn))

theorem mem_negotiate {senderOut receiverIn : List String} {cap : String} :
    cap ∈ negotiate senderOut receiverIn ↔ cap ∈ senderOut ∧ cap ∈ receiverIn := by
  simp [negotiate, mem_sortDedup]

inductive ErrorCode where
  | capNotNegotiated
  | unknownType
  | badBody
  | notAllowed
  | effectFailed
  | notPaired
  | tooLarge
  | timeout
  | internal
deriving DecidableEq

def ErrorCode.asStr : ErrorCode → String
  | .capNotNegotiated => "cap_not_negotiated"
  | .unknownType => "unknown_type"
  | .badBody => "bad_body"
  | .notAllowed => "not_allowed"
  | .effectFailed => "effect_failed"
  | .notPaired => "not_paired"
  | .tooLarge => "too_large"
  | .timeout => "timeout"
  | .internal => "internal"

structure ErrorBody where
  code : String
  message : String
deriving DecidableEq

instance : Wire ErrorBody where
  toValue e := .array [Wire.toValue e.code, Wire.toValue e.message]
  ofValue
    | .array vs => do
      let code ← Value.field vs 0
      let message ← Value.field vs 1
      some { code, message }
    | _ => none
  ofValue_toValue e := by simp [Value.field]

structure Envelope where
  v : UInt8
  id : UInt32
  re : Option UInt32
  cap : String
  ty : String
  body : Bytes
  flags : UInt8
  bulk : Option ℕ
deriving DecidableEq

instance : Wire Envelope where
  toValue e := .record [Wire.toValue e.v, Wire.toValue e.id, Wire.toValue e.re,
    Wire.toValue e.cap, Wire.toValue e.ty, Wire.toValue e.body, Wire.toValue e.flags]
    (Wire.toValue e.bulk)
  ofValue
    | .array vs => do
      let v ← Value.field vs 0
      let id ← Value.field vs 1
      let re ← Value.optField vs 2
      let cap ← Value.field vs 3
      let ty ← Value.field vs 4
      let body ← Value.field vs 5
      let flags ← Value.field vs 6
      let bulk ← Value.optField vs 7
      some { v, id, re, cap, ty, body, flags, bulk }
    | _ => none
  ofValue_toValue e := by
    obtain ⟨v, id, re, cap, ty, body, flags, bulk⟩ := e
    rcases Value.record_cases rfl [Wire.toValue v, Wire.toValue id, Wire.toValue re,
      Wire.toValue cap, Wire.toValue ty, Wire.toValue body, Wire.toValue flags] bulk with
      ⟨rfl, heq⟩ | heq <;> simp [heq, Value.field, Value.optField]

/-- Without a bulk transfer an envelope is an array of seven, not of eight. -/
example (e : Envelope) (h : e.bulk = none) :
    ∃ vs, Wire.toValue e = .array vs ∧ vs.length = 7 := by
  change ∃ vs, Value.record _ (Wire.toValue e.bulk) = .array vs ∧ _
  rw [h]
  exact ⟨_, rfl, rfl⟩

namespace Pairing

def sasInfo : Bytes := ascii "acrylius/pair/v1/sas"

def sessionPskInfo : Bytes := ascii "acrylius/pair/v1/session-psk"

/-- `n` as six decimal digits, leading zeros kept, grouped for reading aloud. -/
def grouped (n : ℕ) : String :=
  let digit (k : ℕ) : Char := Char.ofNat (48 + n / 10 ^ k % 10)
  String.ofList [digit 5, digit 4, digit 3, ' ', digit 2, digit 1, digit 0]

/-- The short authentication string, from the completed handshake hash. -/
def sas (X : Crates) (handshakeHash : Bytes) : String :=
  let out := (X.hkdf handshakeHash sasInfo 4).1
  grouped (out.foldl (fun n b => n * 256 + b.toNat) 0 % 10 ^ 6)

/-- The long-lived session PSK, derived once at pairing time. -/
def sessionPsk (X : Crates) (handshakeHash : Bytes) : Key32 :=
  let out := X.hkdf handshakeHash sessionPskInfo 32
  ⟨out.1, out.2⟩

end Pairing

namespace Bulk

def bulkInfo : Bytes := ascii "acrylius/bulk/v1"

/-- `u64::to_be_bytes`. -/
def beBytes (n : ℕ) : Bytes :=
  ((List.range 8).map fun i => UInt8.ofNat (n / 256 ^ (7 - i) % 256))

/-- The HKDF info string of one transfer: the offerer's id, length-prefixed, then the number
the offerer gave the transfer. The prefix is one byte and saturates. -/
def info (offerer : String) (transfer : ℕ) : Bytes :=
  bulkInfo ++ UInt8.ofNat (min offerer.utf8ByteSize 255) ::
    (offerer.toUTF8.toList ++ beBytes transfer)

def key (X : Crates) (handshakeHash : Bytes) (offerer : String) (transfer : ℕ) : Bytes :=
  (X.hkdf handshakeHash (info offerer transfer) 32).1

end Bulk
end Acrylius.Proto
