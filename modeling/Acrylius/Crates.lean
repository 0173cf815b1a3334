import Acrylius.Proto.Wire

/-! The third-party crates the program is linked against: `snow`, `sha2`, `hkdf`,
`x25519-dalek` and `minicbor`. Nothing below looks inside them. -/
namespace Acrylius
open Proto

/-- The operations the core calls, as it calls them. `Seed` is what `snow`'s resolver draws
from the operating system when a handshake is built. -/
structure Crates where
  sha256 : Bytes → Key32
  /-- `Hkdf::<Sha256>::new(None, ikm).expand(info, &mut [0; n])`. -/
  hkdf : (ikm info : Bytes) → (n : ℕ) → { b : Bytes // b.length = n }
  x25519 : Key32 → Key32
  cborEncode : Value → Bytes
  cborDecode : Bytes → Option Value
  cborDecode_encode : ∀ v, cborDecode (cborEncode v) = some v
  Seed : Type
  HandshakeState : Type
  TransportState : Type
  /-- `Builder::new(params).prologue(..).local_private_key(..).psk(..)
  .remote_public_key(..)`, then `build_initiator` or `build_responder`. -/
  build : (params : String) → (prologue : Bytes) → (localPrivate : Key32) →
    (psk : Option (ℕ × Key32)) → (remotePublic : Option Key32) → (initiator : Bool) →
    Seed → Except String HandshakeState
  isHandshakeFinished : HandshakeState → Bool
  isMyTurn : HandshakeState → Bool
  writeMessage : HandshakeState → Bytes → Except String (Bytes × HandshakeState)
  readMessage : HandshakeState → Bytes → Except String (Bytes × HandshakeState)
  getRemoteStatic : HandshakeState → Option Bytes
  getHandshakeHash : HandshakeState → Bytes
  intoTransportMode : HandshakeState → Except String TransportState
  transportWrite : TransportState → Bytes → Except String (Bytes × TransportState)
  transportRead : TransportState → Bytes → Except String (Bytes × TransportState)

namespace Crates
variable (X : Crates) {α : Type} [Wire α]

/-- `minicbor::to_vec`. -/
def encode (a : α) : Bytes := X.cborEncode (Wire.toValue a)

/-- `minicbor::decode`. -/
def decode (α : Type) [Wire α] (b : Bytes) : Option α := (X.cborDecode b).bind Wire.ofValue

@[simp] theorem decode_encode (a : α) : X.decode α (X.encode a) = some a := by
  simp [encode, decode, X.cborDecode_encode]

end Crates
end Acrylius
