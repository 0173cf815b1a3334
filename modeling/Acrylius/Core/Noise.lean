import Acrylius.Core.Vocab

/-! The Noise layer: `XX` for pairing, `IKpsk2` for sessions, both under a prologue that names
the wire version and the mode (`noise.rs`). -/
namespace Acrylius
open Proto

def maxNoiseMessage : ℕ := 65535

/-- What sealing adds to a plaintext: the Poly1305 tag. -/
def tagLen : ℕ := 16

inductive Mode where
  | pair
  | session
deriving DecidableEq

namespace Mode

def params : Mode → String
  | .pair => "Noise_XX_25519_ChaChaPoly_SHA256"
  | .session => "Noise_IKpsk2_25519_ChaChaPoly_SHA256"

def pskIndex (_ : Mode) : ℕ := 2

def prologue (m : Mode) : Bytes :=
  ascii "ACR" ++ [wireVersion, match m with | .pair => 1 | .session => 2,
    UInt8.ofNat m.params.length] ++ ascii m.params

end Mode

inductive NoiseError where
  | snow (detail : String)
  | tooLarge (got : ℕ)
  | alreadyComplete
  | notComplete
  | unsupportedLink

def NoiseError.toString : NoiseError → String
  | .snow e => "noise: " ++ e
  | .tooLarge got => "message of " ++ Nat.repr got ++ " bytes exceeds the Noise limit of 65535"
  | .alreadyComplete => "the handshake is already complete"
  | .notComplete => "the handshake is not complete yet"
  | .unsupportedLink => "this link is lossy or unordered, which needs a stateless cipher"

/-- A static X25519 keypair; the public half is derived, never stored alongside and trusted. -/
structure Identity (X : Crates) where
  privateKey : Key32
  publicKey : Key32
  derived : publicKey = X.x25519 privateKey

namespace Identity
variable {X : Crates}

def fromPrivate (X : Crates) (k : Key32) : Identity X := ⟨k, X.x25519 k, rfl⟩

def deviceId (i : Identity X) : DeviceId := DeviceId.of X i.publicKey

end Identity

structure Handshake (X : Crates) where
  state : X.HandshakeState
  mode : Mode

structure Session (X : Crates) where
  state : X.TransportState
  /-- Successful calls to `encrypt`. -/
  sent : ℕ

/-- A result of a third-party call under the error type of this layer. -/
def Crates.lift {α : Type} : Except String α → Except NoiseError α
  | .ok a => .ok a
  | .error e => .error (.snow e)

namespace Handshake
variable {X : Crates}

def build (mode : Mode) (id : Identity X) (psk peerStatic : Option Key32) (initiator : Bool)
    (seed : X.Seed) : Except NoiseError (Handshake X) := do
  let state ← Crates.lift (X.build mode.params mode.prologue id.privateKey
    (psk.map (mode.pskIndex, ·)) peerStatic initiator seed)
  return ⟨state, mode⟩

def pairInitiator (id : Identity X) (seed : X.Seed) : Except NoiseError (Handshake X) :=
  build .pair id none none true seed

def pairResponder (id : Identity X) (seed : X.Seed) : Except NoiseError (Handshake X) :=
  build .pair id none none false seed

def sessionInitiator (id : Identity X) (psk peerStatic : Key32) (seed : X.Seed) :
    Except NoiseError (Handshake X) :=
  build .session id (some psk) (some peerStatic) true seed

def sessionResponder (id : Identity X) (psk : Key32) (seed : X.Seed) :
    Except NoiseError (Handshake X) :=
  build .session id (some psk) none false seed

def isComplete (hs : Handshake X) : Bool := X.isHandshakeFinished hs.state

def isMyTurn (hs : Handshake X) : Bool := !hs.isComplete && X.isMyTurn hs.state

def write (hs : Handshake X) (payload : Bytes) : Except NoiseError (Bytes × Handshake X) :=
  if hs.isComplete then .error .alreadyComplete
  else do
    let (m, state) ← Crates.lift (X.writeMessage hs.state payload)
    return (m, { hs with state })

def read (hs : Handshake X) (msg : Bytes) : Except NoiseError (Bytes × Handshake X) :=
  if maxNoiseMessage < msg.length then .error (.tooLarge msg.length)
  else if hs.isComplete then .error .alreadyComplete
  else do
    let (payload, state) ← Crates.lift (X.readMessage hs.state msg)
    return (payload, { hs with state })

def peerStatic (hs : Handshake X) : Option Key32 := (X.getRemoteStatic hs.state).bind Key32.ofBytes

def handshakeHash (hs : Handshake X) : Except NoiseError Bytes :=
  if hs.isComplete then .ok (X.getHandshakeHash hs.state) else .error .notComplete

def zeroPsk : Key32 := ⟨List.replicate 32 0, rfl⟩

/-- Learn who is calling before choosing a PSK, with a throwaway responder. -/
def sessionIdentify (id : Identity X) (msg1 : Bytes) (seed : X.Seed) : Except NoiseError Key32 := do
  let probe ← sessionResponder id zeroPsk seed
  let (_, probe) ← probe.read msg1
  match probe.peerStatic with
  | some pk => return pk
  | none => throw .notComplete

def intoSession (hs : Handshake X) (attrs : LinkAttrs) : Except NoiseError (Session X) :=
  if !hs.isComplete then .error .notComplete
  else if !attrs.supportsStatefulCipher then .error .unsupportedLink
  else do
    let state ← Crates.lift (X.intoTransportMode hs.state)
    return ⟨state, 0⟩

end Handshake

namespace Session
variable {X : Crates}

def encrypt (s : Session X) (plaintext : Bytes) : Except NoiseError (Bytes × Session X) := do
  let (ct, state) ← Crates.lift (X.transportWrite s.state plaintext)
  return (ct, ⟨state, s.sent + 1⟩)

def decrypt (s : Session X) (ciphertext : Bytes) : Except NoiseError (Bytes × Session X) :=
  if maxNoiseMessage < ciphertext.length then .error (.tooLarge ciphertext.length)
  else do
    let (p, state) ← Crates.lift (X.transportRead s.state ciphertext)
    return (p, { s with state })

end Session
end Acrylius
