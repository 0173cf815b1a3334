import Acrylius.Core.Calls

/-! What several of the built-in plugins do with the peers they have heard of: keep a list of
those connected, and tell each of them the same thing. -/
namespace Acrylius
open Proto

namespace Peers

def join (connected : List DeviceId) (peer : DeviceId) : List DeviceId :=
  if peer ∈ connected then connected else connected ++ [peer]

def leave (connected : List DeviceId) (peer : DeviceId) : List DeviceId :=
  connected.filter (· ≠ peer)

theorem mem_join {connected : List DeviceId} {peer p : DeviceId} :
    p ∈ join connected peer ↔ p = peer ∨ p ∈ connected := by
  unfold join
  split
  · rename_i hmem
    constructor
    · exact .inr
    · rintro (rfl | h)
      · exact hmem
      · exact h
  · rw [List.mem_append, List.mem_singleton, or_comm]

theorem mem_leave {connected : List DeviceId} {peer p : DeviceId} :
    p ∈ leave connected peer ↔ p ∈ connected ∧ p ≠ peer := by
  simp [leave]

theorem nodup_join {connected : List DeviceId} (h : connected.Nodup) (peer : DeviceId) :
    (join connected peer).Nodup := by
  unfold join
  split
  · exact h
  · rename_i hnot
    rw [List.nodup_append]
    refine ⟨h, List.nodup_singleton _, ?_⟩
    rintro p hp q hq rfl
    rw [List.mem_singleton] at hq
    exact hnot (hq ▸ hp)

def after (connected : List DeviceId) : Call → List DeviceId
  | .connected p => join connected p
  | .disconnected p => leave connected p
  | _ => connected

/-- Who is connected after some calls: told so, and not told otherwise since. -/
def present (τs : List Turn) : List DeviceId := τs.foldl (fun peers τ => after peers τ.call) []

/-- A list kept by every call is who is connected. -/
theorem eq_present {P : Type} {step : P → Turn → P} (connected : P → List DeviceId)
    (h : ∀ p τ, connected (step p τ) = after (connected p) τ.call) {p : P} (hp : connected p = [])
    (τs : List Turn) : connected (Lib.run step p τs) = present τs := by
  induction τs using List.reverseRecOn with
  | nil => exact hp
  | append_singleton τs τ ih =>
    rw [Lib.run_append, present, List.foldl_append]
    change connected (step (Lib.run step p τs) τ) = after (present τs) τ.call
    rw [h, ih]

end Peers

namespace Cx

def unsolicited (cap ty : String) (body : Bytes) (peer : DeviceId) : PendingSend where
  peer := peer
  cap := cap
  ty := ty
  body := body
  re := none

theorem send_eq (cx : Cx) (peer : DeviceId) (cap ty : String) (body : Bytes) :
    cx.send peer cap ty body = { cx with sends := cx.sends ++ [unsolicited cap ty body peer] } := rfl

/-- Those of a list who are told something that one of them may know already. -/
def others (peers : List DeviceId) (alreadyTold : Option DeviceId) : List DeviceId :=
  peers.filter fun p => some p ≠ alreadyTold

/-- Tell everyone except `alreadyTold`, who is getting it as a reply. -/
def tell (cx : Cx) (peers : List DeviceId) (alreadyTold : Option DeviceId) (cap ty : String)
    (body : Bytes) : Cx :=
  peers.foldl (fun cx p => if some p = alreadyTold then cx else cx.send p cap ty body) cx

theorem tell_eq (cx : Cx) (peers : List DeviceId) (alreadyTold : Option DeviceId)
    (cap ty : String) (body : Bytes) : cx.tell peers alreadyTold cap ty body =
      { cx with sends := cx.sends ++
        (others peers alreadyTold).map (unsolicited cap ty body) } := by
  induction peers generalizing cx with
  | nil => simp [tell, others]
  | cons p ps ih =>
    have hcons : cx.tell (p :: ps) alreadyTold cap ty body =
        (if some p = alreadyTold then cx else cx.send p cap ty body).tell ps alreadyTold cap ty
          body := rfl
    rw [hcons, ih]
    by_cases hp : some p = alreadyTold
    · simp [hp, others]
    · simp [hp, others, send_eq]

end Cx
end Acrylius
