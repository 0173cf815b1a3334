import Acrylius.Crates

/-! Device identities, derived by the receiver from a Noise static public key and never
self-asserted (`ids.rs`, `b64.rs`). -/
namespace Acrylius.Proto

def alphabet : List Char :=
  "ABCDEFGHIJKLMNOPQRSTUVWXYZabcdefghijklmnopqrstuvwxyz0123456789-_".toList

/-- The character of the `i`-th sextet of a 24-bit group. -/
def sextet (n i : ℕ) : Char := alphabet.getD (n >>> (18 - 6 * i) &&& 0x3F) 'A'

/-- One chunk of at most three bytes gives one character more than it has bytes. -/
def encodeChunk (b0 b1 b2 : UInt8) (chars : ℕ) : List Char :=
  let n := (b0.toNat <<< 16) ||| (b1.toNat <<< 8) ||| b2.toNat
  (List.range chars).map (sextet n)

def b64Chars : Bytes → List Char
  | [] => []
  | [a] => encodeChunk a 0 0 2
  | [a, b] => encodeChunk a b 0 3
  | a :: b :: c :: rest => encodeChunk a b c 4 ++ b64Chars rest

/-- Strict base64url without padding. -/
def b64Encode (input : Bytes) : String := String.ofList (b64Chars input)

inductive B64Error where
  | badLength (length : ℕ)
  | badByte (index : ℕ)
  | nonCanonical
  | wrongSize (expected actual : ℕ)
deriving DecidableEq

/-- Reverse lookup: the six bits a byte stands for. -/
def decodeByte (c : UInt8) : Option ℕ := alphabet.findIdx? fun a => a.toNat = c.toNat

/-- The bits of a chunk that begins at `index`, its first byte highest. -/
def chunkBits (index : ℕ) (chunk : Bytes) : Except B64Error ℕ :=
  chunk.zipIdx.foldlM (fun n e => match decodeByte e.1 with
    | some v => .ok (n ||| v <<< (18 - 6 * e.2))
    | none => .error (.badByte (index + e.2))) 0

def chunkBytes (n whole : ℕ) : Bytes :=
  (List.range whole).map fun i => UInt8.ofNat ((n >>> (16 - 8 * i)) % 256)

def decodeChunks (index : ℕ) : Bytes → Except B64Error Bytes
  | [] => .ok []
  | a :: b :: c :: d :: rest => do
    let n ← chunkBits index [a, b, c, d]
    let more ← decodeChunks (index + 4) rest
    return chunkBytes n 3 ++ more
  | chunk => do
    let n ← chunkBits index chunk
    let whole := chunk.length - 1
    if n % 2 ^ (24 - 8 * whole) = 0 then return chunkBytes n whole else throw .nonCanonical

/-- Every value has one spelling: no padding, no stray trailing bits. -/
def b64Decode (input : String) : Except B64Error Bytes :=
  let bytes := input.toList.flatMap String.utf8EncodeChar
  if bytes.length % 4 = 1 then .error (.badLength bytes.length) else decodeChunks 0 bytes

/-- Raw Noise static public key (X25519). -/
abbrev PublicKey := Key32

/-- What a person compares: the full hash of a public key. -/
structure Fingerprint where
  str : String
deriving DecidableEq

/-- Truncated identifier of a public key, the key of every per-peer table. -/
structure DeviceId where
  str : String
deriving DecidableEq

/-- Parse a fingerprint from the wire; the decoder rejects non-canonical spellings. -/
def Fingerprint.parse (s : String) : Except B64Error Fingerprint := do
  let bytes ← b64Decode s
  if bytes.length = 32 then return ⟨s⟩ else throw (.wrongSize 32 bytes.length)

def DeviceId.parse (s : String) : Except B64Error DeviceId := do
  let bytes ← b64Decode s
  if bytes.length = 16 then return ⟨s⟩ else throw (.wrongSize 16 bytes.length)

instance : Ord Fingerprint := ⟨compareOn Fingerprint.str⟩
instance : Ord DeviceId := ⟨compareOn DeviceId.str⟩

instance : Std.TransOrd Fingerprint := inferInstanceAs (Std.TransCmp (compareOn Fingerprint.str))
instance : Std.TransOrd DeviceId := inferInstanceAs (Std.TransCmp (compareOn DeviceId.str))

instance : Std.LawfulEqOrd Fingerprint where
  eq_of_compare {a b} h := by
    cases a; cases b
    exact congrArg _ (Std.LawfulEqOrd.eq_of_compare h)

instance : Std.LawfulEqOrd DeviceId where
  eq_of_compare {a b} h := by
    cases a; cases b
    exact congrArg _ (Std.LawfulEqOrd.eq_of_compare h)

def fpTag : Bytes := "acrylius/v1/fp".toList.map (UInt8.ofNat ·.toNat)

def didTag : Bytes := "acrylius/v1/did".toList.map (UInt8.ofNat ·.toNat)

def Fingerprint.of (X : Crates) (pk : PublicKey) : Fingerprint :=
  ⟨b64Encode (X.sha256 (fpTag ++ pk.bytes)).bytes⟩

def DeviceId.of (X : Crates) (pk : PublicKey) : DeviceId :=
  ⟨b64Encode ((X.sha256 (didTag ++ pk.bytes)).bytes.take 16)⟩

end Acrylius.Proto
