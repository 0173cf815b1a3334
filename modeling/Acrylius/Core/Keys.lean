import Acrylius.Core.Channels
import Acrylius.Proto.Bulk
import Mathlib.Data.List.GetD

/-! The keys of bulk channels: each is derived from the session, the offering end and the number
that end gave the transfer, and no two transfers of a session share one. -/
namespace Acrylius
open Proto Std

variable {X : Crates} {P : Type}

/-- Which end offered the transfer a channel is asked for, and the number it has there. -/
def BulkRequest.offered (own : DeviceId) : BulkRequest → Option (DeviceId × TransferId)
  | .listen peer _ offeredAs _ => some (peer, offeredAs)
  | .send _ t _ => some (own, t)
  | .cancel _ => none

def Action.bulkKey : Action → Option Bytes
  | .bulkListen _ _ key _ => some key
  | .bulkSend _ _ key => some key
  | _ => none

/-- `HKDF` tells apart the info strings of the transfers these ends can offer in one session. -/
def Crates.CollisionFree (X : Crates) (handshakeHash : Bytes) (ends : Set DeviceId) : Prop :=
  Set.InjOn (fun info => (X.hkdf handshakeHash info 32).1)
    {info | ∃ o ∈ ends, ∃ t : UInt64, info = Bulk.info o.str t.toNat}

/-- The transfer, as the two ends of its session name it, is the one the key is for. -/
def Core.KeyedFor (c : Core X P) (r : BulkRequest) (k : Bytes) : Prop :=
  ∃ peer hash o n, r.channel = some peer ∧ c.handshakeHashFor peer = some hash ∧
    r.offered c.identity.deviceId = some (o, n) ∧ k = Bulk.key X hash o.str n

namespace Exec

/-- Whatever is started under a key is started under the one derived from the freshest session. -/
theorem withBulkKey_key {s : Exec X P} {peer offerer : DeviceId} {t : TransferId} {n : ℕ}
    {start : Exec X P → Bytes → Exec X P} {f : Bytes → Action}
    (hstart : ∀ key, (start s key).actions = s.actions ++ [f key])
    (hf : ∀ key, (f key).bulkKey = some key) {a : Action} {k : Bytes}
    (ha : a ∈ (s.withBulkKey peer t offerer n start).actions.drop s.actions.length)
    (hk : a.bulkKey = some k) :
    ∃ hash, s.core.handshakeHashFor peer = some hash ∧ k = Bulk.key X hash offerer.str n := by
  unfold withBulkKey at ha
  split at ha
  · simp only [push, ui, List.append_assoc, List.drop_left] at ha
    rcases List.mem_append.mp ha with ha | ha
    all_goals
      rw [List.mem_singleton.mp ha] at hk
      simp [Action.bulkKey] at hk
  · cases hhash : s.core.handshakeHashFor peer with
    | none =>
      simp only [hhash, push, ui, List.drop_left, List.mem_singleton] at ha
      rw [ha] at hk
      simp [Action.bulkKey] at hk
    | some hash =>
      simp only [hhash, hstart, List.drop_left, List.mem_singleton] at ha
      have hkey : (f (Bulk.key X hash offerer.str n)).bulkKey = some k := by rwa [← ha]
      rw [hf, Option.some.injEq] at hkey
      exact ⟨hash, rfl, hkey.symm⟩

/-- A key is handed to the host only for the transfer the request is about. -/
theorem dispatchBulk_keyed {s : Exec X P} {nowMs : ℕ} {r : BulkRequest} {a : Action} {k : Bytes}
    (ha : a ∈ (s.dispatchBulk nowMs r).actions.drop s.actions.length)
    (hk : a.bulkKey = some k) : s.core.KeyedFor r k := by
  cases r with
  | cancel t =>
    simp only [dispatchBulk, push, List.drop_left, List.mem_singleton] at ha
    rw [ha] at hk
    simp [Action.bulkKey] at hk
  | listen peer t n bytes =>
    have hkey := withBulkKey_key (f := fun key => .bulkListen t n key bytes) (fun _ => rfl)
      (fun _ => rfl) ha hk
    obtain ⟨hash, hhash, hkey⟩ := hkey
    exact ⟨peer, hash, peer, n, rfl, hhash, rfl, hkey⟩
  | send peer t endpoint =>
    have hkey := withBulkKey_key (f := fun key => .bulkSend t endpoint key) (fun _ => rfl)
      (fun _ => rfl) ha hk
    obtain ⟨hash, hhash, hkey⟩ := hkey
    exact ⟨peer, hash, s.core.identity.deviceId, t, rfl, hhash, rfl, hkey⟩

end Exec

/-- The info string tells transfers apart, whatever the offerer's name; so under an `HKDF` without
collisions no two transfers of a session have one key, and the host is handed no other keys. -/
theorem bulk_keys_separate (X : Crates) :
    (∀ (o o' : String) (t t' : UInt64), Bulk.info o t.toNat = Bulk.info o' t'.toNat →
      o = o' ∧ t = t') ∧
    (∀ (hash : Bytes) (ends : Set DeviceId), X.CollisionFree hash ends →
      ∀ o ∈ ends, ∀ o' ∈ ends, ∀ t t' : UInt64,
        Bulk.key X hash o.str t.toNat = Bulk.key X hash o'.str t'.toNat → o = o' ∧ t = t') ∧
    ∀ (P : Type) (s : Exec X P) (nowMs : ℕ) (r : BulkRequest) (a : Action) (k : Bytes),
      a ∈ (s.dispatchBulk nowMs r).actions.drop s.actions.length → a.bulkKey = some k →
        s.core.KeyedFor r k := by
  have separate : ∀ (o o' : String) (t t' : UInt64),
      Bulk.info o t.toNat = Bulk.info o' t'.toNat → o = o' ∧ t = t' := by
    intro o o' t t' h
    obtain ⟨hname, hnumber⟩ := Bulk.info_inj t.toNat_lt t'.toNat_lt h
    exact ⟨hname, UInt64.toNat_inj.mp hnumber⟩
  refine ⟨separate, ?_, fun P s nowMs r a k ha hk => Exec.dispatchBulk_keyed ha hk⟩
  intro hash ends hfree o ho o' ho' t t' hkey
  have hinfo := hfree ⟨o, ho, t, rfl⟩ ⟨o', ho', t', rfl⟩ hkey
  obtain ⟨hname, hnumber⟩ := separate o.str o'.str t t' hinfo
  exact ⟨congrArg DeviceId.mk hname, hnumber⟩

namespace Mock

def ownId : DeviceId := DeviceId.of crates (device 1).publicKey

theorem hkdf_back {ikm i i' : Bytes} {n : ℕ} (h : (hkdf ikm i n).1 = (hkdf ikm i' n).1)
    {j : ℕ} (hj : j < n) : i.reverse.getD j 0 = i'.reverse.getD j 0 := by
  have hbyte := congrArg (fun b => b[j]?) h
  simp only [hkdf, List.getElem?_map, List.getElem?_range hj, Option.map_some, Option.some.injEq]
    at hbyte
  exact UInt8.add_right_inj _ |>.mp hbyte

/-- The last 32 bytes of an info string hold all that tells the transfers of the two apart. -/
theorem collisionFree (ikm : Bytes) : crates.CollisionFree ikm {phone, ownId} := by
  intro i hi i' hi' h
  obtain ⟨o, ho, t, rfl⟩ := hi
  obtain ⟨o', ho', t', rfl⟩ := hi'
  have hlength : ∀ o ∈ ({phone, ownId} : Set DeviceId), ∀ t : UInt64,
      (o.str.toUTF8.toList ++ Bulk.beBytes t.toNat).length = 30 := by
    intro o ho t
    have hname : o.str.toUTF8.toList.length = 22 := by
      rcases ho with rfl | rfl
      · decide +kernel
      · decide +kernel
    rw [List.length_append, hname]
    rfl
  have hback : ∀ o ∈ ({phone, ownId} : Set DeviceId), ∀ (t : UInt64) (j : ℕ), j < 30 →
      (o.str.toUTF8.toList ++ Bulk.beBytes t.toNat).reverse.getD j 0 =
        (Bulk.info o.str t.toNat).reverse.getD j 0 := by
    intro o ho t j hj
    have hin : j < (o.str.toUTF8.toList ++ Bulk.beBytes t.toNat).reverse.length := by
      rwa [List.length_reverse, hlength o ho t]
    have hsplit : (Bulk.info o.str t.toNat).reverse =
        (o.str.toUTF8.toList ++ Bulk.beBytes t.toNat).reverse ++
          (UInt8.ofNat (min o.str.utf8ByteSize 255) :: Bulk.bulkInfo.reverse) := by
      simp [Bulk.info]
    rw [hsplit, List.getD_append _ _ _ _ hin]
  have hsame : (o.str.toUTF8.toList ++ Bulk.beBytes t.toNat).reverse =
      (o'.str.toUTF8.toList ++ Bulk.beBytes t'.toNat).reverse := by
    apply List.ext_getElem
    · simp only [List.length_reverse, hlength o ho, hlength o' ho']
    · intro j hj hj'
      have hlt : j < 30 := by rwa [List.length_reverse, hlength o ho] at hj
      have hbyte := hkdf_back h (show j < 32 by omega)
      rwa [← hback o ho t j hlt, ← hback o' ho' t' j hlt, List.getD_eq_getElem _ _ hj,
        List.getD_eq_getElem _ _ hj'] at hbyte
  have hboth := List.reverse_injective hsame
  obtain ⟨hname, hnumber⟩ := List.append_inj' hboth (by simp [Bulk.beBytes])
  have hstr := Bulk.utf8_inj hname
  unfold Bulk.info
  rw [hstr, hnumber]

end Mock

/-- The first file the phone offers in a session and the first the laptop offers there have
different keys. -/
theorem first_transfers_keyed_apart :
    Bulk.key Mock.crates [1, 2, 3] Mock.phone.str (1 : UInt64).toNat ≠
      Bulk.key Mock.crates [1, 2, 3] Mock.ownId.str (1 : UInt64).toNat := by
  intro h
  have hsame := (bulk_keys_separate Mock.crates).2.1 [1, 2, 3] {Mock.phone, Mock.ownId}
    (Mock.collisionFree _) Mock.phone (.inl rfl) Mock.ownId (.inr rfl) 1 1 h
  have hdiffer : Mock.phone ≠ Mock.ownId := by decide +kernel
  exact hdiffer hsame.1

end Acrylius
