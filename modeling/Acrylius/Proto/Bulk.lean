import Acrylius.Lib.BigEndian
import Acrylius.Proto.Messages

/-! The bulk side channel: what a dialer says first, and how chunks are sealed (`bulk.rs`). -/
namespace Acrylius.Proto

/-- `ChaCha20Poly1305`: the nonce, then the text. -/
structure Aead where
  encrypt : Key32 → Bytes → Bytes → Option Bytes
  decrypt : Key32 → Bytes → Bytes → Option Bytes

namespace Bulk

def chunk : ℕ := 64 * 1024

def maxFrame : ℕ := chunk + 64

/-- What a dialer says before any ciphertext: which transfer this connection is for. -/
def hello (transfer : ℕ) : Bytes := ascii "ACRB" ++ beBytes transfer

inductive HelloError where
  | notOurs
deriving DecidableEq

theorem value_beBytes {n : ℕ} (h : n < 2 ^ 64) : Lib.BigEndian.value (beBytes n) = n :=
  @Lib.BigEndian.value_bytes 8 _ h

theorem beBytes_inj {m n : ℕ} (hm : m < 2 ^ 64) (hn : n < 2 ^ 64) (h : beBytes m = beBytes n) :
    m = n := by
  have hvalue := congrArg Lib.BigEndian.value h
  rwa [value_beBytes hm, value_beBytes hn] at hvalue

/-- `ByteArray.toList` counts its way through the bytes from an index. -/
theorem toList_loop (bs : ByteArray) (i : ℕ) (r : Bytes) :
    ByteArray.toList.loop bs i r = r.reverse ++ bs.data.toList.drop i := by
  induction i, r using ByteArray.toList.loop.induct bs with
  | case1 i r hlt ih =>
    have hsize : i < bs.data.toList.length := by simpa using hlt
    have hget : bs.get! i = bs.data.toList[i] := by
      simp [ByteArray.get!, getElem!_pos, hlt]
    rw [ByteArray.toList.loop.eq_1, if_pos hlt, ih, List.drop_eq_getElem_cons hsize, hget]
    simp
  | case2 i r hge =>
    have hsize : bs.data.toList.length ≤ i := by simpa using hge
    rw [ByteArray.toList.loop.eq_1, if_neg hge, List.drop_eq_nil_of_le hsize]
    simp

theorem utf8_inj {s s' : String} (h : s.toUTF8.toList = s'.toUTF8.toList) : s = s' := by
  have hdata : s.toUTF8.data.toList = s'.toUTF8.data.toList := by
    simpa [ByteArray.toList, toList_loop] using h
  have harray : s.toUTF8 = s'.toUTF8 := by
    apply ByteArray.ext
    exact Array.toList_inj.mp hdata
  exact String.toByteArray_inj.mp harray

/-- The number takes the last eight bytes of the info string, so the offerer's name is what is left
between the prefix and them, however long it is. -/
theorem info_inj {o o' : String} {t t' : ℕ} (ht : t < 2 ^ 64) (ht' : t' < 2 ^ 64)
    (h : info o t = info o' t') : o = o' ∧ t = t' := by
  unfold info at h
  have htail := List.append_cancel_left h
  have hsame := (List.cons.inj htail).2
  have hlength : (beBytes t).length = (beBytes t').length := by simp [beBytes]
  obtain ⟨hname, hnumber⟩ := List.append_inj' hsame hlength
  exact ⟨utf8_inj hname, beBytes_inj ht ht' hnumber⟩

/-- Read a dialer's twelve opening bytes. -/
def readHello (bytes : Bytes) : Except HelloError ℕ :=
  if bytes.take 4 ≠ ascii "ACRB" then .error .notOurs
  else .ok (Lib.BigEndian.value (bytes.drop 4))

/-- The nonce is the sequence number. -/
def nonce (seq : ℕ) : Bytes := List.replicate 4 0 ++ beBytes seq

inductive ChunkError where
  | badKey
  | sealed (seq : ℕ)
  | unsealed (seq : ℕ)
deriving DecidableEq

end Bulk

open Bulk

def Aead.seal (A : Aead) (key : Bytes) (seq : ℕ) (plaintext : Bytes) : Except ChunkError Bytes :=
  match Key32.ofBytes key with
  | none => .error .badKey
  | some k =>
    match A.encrypt k (nonce seq) plaintext with
    | some frame => .ok frame
    | none => .error (.unsealed seq)

def Aead.open (A : Aead) (key : Bytes) (seq : ℕ) (frame : Bytes) : Except ChunkError Bytes :=
  match Key32.ofBytes key with
  | none => .error .badKey
  | some k =>
    match A.decrypt k (nonce seq) frame with
    | some plaintext => .ok plaintext
    | none => .error (.sealed seq)

end Acrylius.Proto
