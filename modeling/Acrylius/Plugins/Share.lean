import Acrylius.Core.Plugin

/-! `org.acrylius.share/1`: what two devices say to each other about a file one of them offers
(`share.rs`). Every device numbers its own offers from one, so a number names a transfer only
together with the device that gave it. -/
namespace Acrylius
open Proto Std

namespace Share

def cap : String := "org.acrylius.share/1"

/-- Refused at the offer rather than discovered gigabytes in. -/
def maxBytes : ℕ := 8 * 1024 * 1024 * 1024

structure Offer where
  /-- Chosen by the sender. -/
  transfer : ℕ
  name : String
  size : ℕ
  mime : String
deriving DecidableEq

instance : Wire Offer where
  toValue o := .array [Wire.toValue o.transfer, Wire.toValue o.name, Wire.toValue o.size,
    Wire.toValue o.mime]
  ofValue
    | .array vs => do
      let transfer ← Value.field vs 0
      let name ← Value.field vs 1
      let size ← Value.field vs 2
      let mime ← Value.field vs 3
      some { transfer, name, size, mime }
    | _ => none
  ofValue_toValue o := by simp [Value.field]

structure Accept where
  transfer : ℕ
  endpoint : String
deriving DecidableEq

instance : Wire Accept where
  toValue a := .array [Wire.toValue a.transfer, Wire.toValue a.endpoint]
  ofValue
    | .array vs => do
      let transfer ← Value.field vs 0
      let endpoint ← Value.field vs 1
      some { transfer, endpoint }
    | _ => none
  ofValue_toValue a := by simp [Value.field]

structure Finished where
  transfer : ℕ
  ok : Bool
  detail : String
deriving DecidableEq

instance : Wire Finished where
  toValue f := .array [Wire.toValue f.transfer, Wire.toValue f.ok, Wire.toValue f.detail]
  ofValue
    | .array vs => do
      let transfer ← Value.field vs 0
      let ok ← Value.field vs 1
      let detail ← Value.field vs 2
      some { transfer, ok, detail }
    | _ => none
  ofValue_toValue f := by simp [Value.field]

def manifest : PluginManifest where
  id := "org.acrylius.share"
  outgoing := [cap]
  incoming := [cap]
  requires := [.share]

structure Incoming where
  peer : DeviceId
  offer : Offer
  /-- The envelope id of the offer, so a result can answer it. -/
  request : UInt32
  /-- The sender's number for this transfer; everything back over the wire uses it. -/
  offeredAs : ℕ
deriving DecidableEq

structure Outgoing where
  peer : DeviceId
  offer : Offer
deriving DecidableEq

end Share

open Share

structure SharePlugin (X : Crates) where
  /-- Offers made to us, under our own numbers. -/
  offered : ExtTreeMap TransferId Incoming
  /-- Offers we made that have not finished. -/
  sending : ExtTreeMap TransferId Outgoing

namespace SharePlugin
variable {X : Crates}

def default (X : Crates) : SharePlugin X := ⟨∅, ∅⟩

def isSendingTo (p : SharePlugin X) (peer : DeviceId) (transfer : TransferId) : Bool :=
  (p.sending[transfer]?).any fun o => o.peer = peer

def incomingFrom (p : SharePlugin X) (peer : DeviceId) (offeredAs : ℕ) : Option TransferId :=
  (p.offered.toList.find? fun e => e.2.peer = peer ∧ e.2.offeredAs = offeredAs).map (·.1)

/-- Ours for something we offered, theirs for something they did. -/
def asThePeerNumbersIt (p : SharePlugin X) (transfer : TransferId) : ℕ :=
  (p.offered[transfer]?).elim transfer (·.offeredAs)

def announce {α : Type} [Wire α] (X : Crates) (cx : Cx) (peer : DeviceId) (ty : String) (body : α) :
    Cx :=
  cx.emit (.plugin peer cap ty (X.encode body))

def remove (p : SharePlugin X) (transfer : TransferId) : SharePlugin X :=
  ⟨p.offered.erase transfer, p.sending.erase transfer⟩

def onPeerDisconnected (p : SharePlugin X) (cx : Cx) (peer : DeviceId) : SharePlugin X × Cx :=
  (⟨p.offered.filter fun _ i => i.peer ≠ peer, p.sending.filter fun _ o => o.peer ≠ peer⟩, cx)

section Messages
variable (p : SharePlugin X) (cx : Cx) (peer : DeviceId)

/-- A peer offers a file: renumbered on arrival, and nothing is accepted yet. -/
def onOffer (env : Envelope) : SharePlugin X × Cx × Except PluginError Unit :=
  if !cx.serves .share then (p, cx, .error .notAllowed)
  else match X.decode Offer env.body with
    | none => (p, cx, .error .badBody)
    | some offer =>
      if maxBytes < offer.size then (p, cx, .error .tooLarge)
      else if offer.name = "" then (p, cx, .error .badBody)
      else
        let (cx, transfer) := cx.newTransfer
        let offered := p.offered.insert transfer
          { peer, offer, request := env.id, offeredAs := offer.transfer }
        ({ p with offered }, announce X cx peer "offer" { offer with transfer }, .ok ())

/-- The entry stays: a second `accept` asks for a second channel. -/
def onAccept (env : Envelope) : SharePlugin X × Cx × Except PluginError Unit :=
  match X.decode Accept env.body with
  | none => (p, cx, .error .badBody)
  | some accept =>
    if !p.isSendingTo peer accept.transfer then (p, cx, .error .notAllowed)
    else (p, cx.bulkSend peer accept.transfer accept.endpoint, .ok ())

def onReject (env : Envelope) : SharePlugin X × Cx × Except PluginError Unit :=
  match X.decode Finished env.body with
  | none => (p, cx, .error .badBody)
  | some f =>
    if !p.isSendingTo peer f.transfer then (p, cx, .error .notAllowed)
    else ({ p with sending := p.sending.erase f.transfer }, announce X cx peer "reject" f, .ok ())

/-- Which of our transfers a `finished` from `peer` is about: one we offered under our number,
looked up first, or one offered to us under the sender's. -/
def finishing (n : ℕ) : Option TransferId :=
  if p.isSendingTo peer n then some n else p.incomingFrom peer n

def onFinished (env : Envelope) : SharePlugin X × Cx × Except PluginError Unit :=
  match X.decode Finished env.body with
  | none => (p, cx, .error .badBody)
  | some f =>
    match p.finishing peer f.transfer with
    | none => (p, cx, .error .notAllowed)
    | some transfer =>
      (p.remove transfer, announce X cx peer "finished" { f with transfer }, .ok ())

def onMessage (env : Envelope) : SharePlugin X × Cx × Except PluginError Unit :=
  match env.ty with
  | "offer" => p.onOffer cx peer env
  | "accept" => p.onAccept cx peer env
  | "reject" => p.onReject cx peer env
  | "finished" => p.onFinished cx peer env
  | other => (p, cx, .error (.unknownType other))

end Messages

section Local
variable (p : SharePlugin X) (cx : Cx) (peer : DeviceId)

def localOffer (body : Bytes) : SharePlugin X × Cx × Except PluginError Unit :=
  match X.decode Offer body with
  | none => (p, cx, .error .badBody)
  | some offer =>
    if maxBytes < offer.size then (p, cx, .error .tooLarge)
    else if !cx.peerCanCarryBulk then
      let cx := cx.emit (.error (some peer) .notAllowed ("the link to " ++ peer.str ++
        " cannot carry files. Reach it over the network for that."))
      let f : Finished :=
        { transfer := offer.transfer, ok := false, detail := "this link cannot carry files" }
      (p, announce X cx peer "reject" f, .ok ())
    else
      ({ p with sending := p.sending.insert offer.transfer { peer, offer } },
        cx.send peer cap "offer" body, .ok ())

/-- A person said yes to something offered to us. The entry stays. -/
def localAccept (body : Bytes) : SharePlugin X × Cx × Except PluginError Unit :=
  match X.decode Finished body with
  | none => (p, cx, .error .badBody)
  | some f =>
    match p.offered[f.transfer]? with
    | none => (p, cx, .error .notAllowed)
    | some incoming =>
      (p, cx.bulkListen incoming.peer f.transfer incoming.offeredAs incoming.offer.size, .ok ())

def localReject (body : Bytes) : SharePlugin X × Cx × Except PluginError Unit :=
  match X.decode Finished body with
  | none => (p, cx, .error .badBody)
  | some f =>
    match p.offered[f.transfer]? with
    | none => (p, cx, .error .notAllowed)
    | some incoming =>
      ({ p with offered := p.offered.erase f.transfer },
        cx.sendReply incoming.peer cap "reject"
          (X.encode { f with transfer := incoming.offeredAs }) incoming.request, .ok ())

def localCancel (body : Bytes) : SharePlugin X × Cx × Except PluginError Unit :=
  match X.decode Finished body with
  | none => (p, cx, .error .badBody)
  | some f =>
    let theirs := p.asThePeerNumbersIt f.transfer
    (p.remove f.transfer, (cx.bulkCancel f.transfer).send peer cap "finished"
      (X.encode { f with transfer := theirs }), .ok ())

def onLocal (ty : String) (body : Bytes) : SharePlugin X × Cx × Except PluginError Unit :=
  match ty with
  | "offer" => p.localOffer cx peer body
  | "accept" => p.localAccept cx body
  | "reject" => p.localReject cx body
  | "cancel" => p.localCancel cx peer body
  | other => (p, cx, .error (.unknownType other))

end Local

/-- The host is listening: only now does the sender learn where. -/
def onBulkListening (p : SharePlugin X) (cx : Cx) (transfer : TransferId) (endpoint : String) :
    SharePlugin X × Cx :=
  match p.offered[transfer]? with
  | none => (p, cx)
  | some incoming =>
    (p, cx.sendReply incoming.peer cap "accept"
      (X.encode ({ transfer := incoming.offeredAs, endpoint } : Accept)) incoming.request)

def partner (p : SharePlugin X) (transfer : TransferId) : Option DeviceId :=
  ((p.offered[transfer]?).map (·.peer)).orElse fun _ => (p.sending[transfer]?).map (·.peer)

/-- The same ending said twice: in the peer's numbering outwards, in ours upwards. -/
def onBulkFinished (p : SharePlugin X) (cx : Cx) (transfer : TransferId) (ok : Bool)
    (detail : String) : SharePlugin X × Cx :=
  let theirs := p.asThePeerNumbersIt transfer
  let f : Finished := { transfer, ok, detail }
  match p.partner transfer with
  | none => (p.remove transfer, cx)
  | some peer =>
    let cx := cx.send peer cap "finished" (X.encode { f with transfer := theirs })
    (p.remove transfer, announce X cx peer "finished" f)

end SharePlugin

instance {X : Crates} : Plugin (SharePlugin X) where
  manifest _ := Share.manifest
  onMessage p cx peer env := p.onMessage cx peer env
  onPeerDisconnected p cx peer := p.onPeerDisconnected cx peer
  onLocal p cx peer ty body := p.onLocal cx peer ty body
  onBulkListening p cx transfer endpoint := p.onBulkListening cx transfer endpoint
  onBulkFinished p cx transfer ok detail := p.onBulkFinished cx transfer ok detail

end Acrylius
