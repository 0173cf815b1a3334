import Acrylius.Lib.Disk
import Acrylius.Proto.Base64
import Acrylius.Rt.Path
import Acrylius.Rt.Store

/-! The host's store on disk: one file for each key, every write made beside it and moved into
place (`store.rs`). -/
namespace Acrylius
open Proto Std

variable {X : Crates}

inductive Proto.DeviceId.Made (X : Crates) : DeviceId → Prop
  | of (pk : PublicKey) : Made X (DeviceId.of X pk)
  | parse {s : String} {p : DeviceId} (h : DeviceId.parse s = .ok p) : Made X p

/-- The files under the store's root, by their path from there. -/
structure FileStore where
  files : Lib.Disk String UInt8

namespace FileStore

/-- Keys are `peer/<device-id>`; anything unexpected is rejected. -/
def pathFor (key : String) : Option String :=
  if ['.', '.'] <:+: key.toList ∨ key.toList.head? = some '/' ∨ key.toList.count '/' ≠ 1 then none
  else some key

/-- What a `put` asks of the file system, or the key is refused. Removing what is not there is
no error. -/
def putOps (key : String) (value : Option Bytes) : Option (List (Lib.DiskOp String UInt8)) :=
  (pathFor key).map fun path => match value with
    | none => [.remove path]
    | some bytes =>
      let tmp := Path.withExtension path "tmp".toList
      [.create tmp, .write tmp bytes, .rename tmp path]

def put (s : FileStore) (key : String) (value : Option Bytes) : FileStore :=
  ⟨Lib.Disk.perform s.files ((putOps key value).getD [])⟩

/-- A `put` that a crash ends after so many operations, in the middle of a write perhaps. -/
def crashIn (s : FileStore) (key : String) (value : Option Bytes) (after bytes : ℕ) : FileStore :=
  ⟨Lib.Disk.crash s.files ((putOps key value).getD []) after bytes⟩

/-- The records `load_peers` finds, from the entries of the directory in the order they are
listed. -/
def loadPeers (X : Crates) (listing : List (String × Bytes)) : List PeerRecord :=
  (listing.filter fun e => "peer/".toList.isPrefixOf e.1.toList ∧
    Path.extension e.1 ≠ some "tmp".toList).filterMap fun e => X.decode PeerRecord e.2

end FileStore

structure PeerPut (X : Crates) where
  id : DeviceId
  made : id.Made X
  record : Option PeerRecord

namespace PeerPut

def key (p : PeerPut X) : String := "peer/" ++ p.id.str

def value (p : PeerPut X) : Option Bytes := p.record.map X.encode

end PeerPut

/-- A `put` that is carried out, or one that a crash interrupts. -/
inductive Attempt (X : Crates) where
  | done (p : PeerPut X)
  | crash (p : PeerPut X) (after bytes : ℕ)

namespace FileStore

def attempt (s : FileStore) : Attempt X → FileStore
  | .done p => s.put p.key p.value
  | .crash p after bytes => s.crashIn p.key p.value after bytes

def run (s : FileStore) (as : List (Attempt X)) : FileStore := Lib.run attempt s as

end FileStore

/-- The puts that took effect: all that were carried out, and any of the interrupted ones. -/
inductive TookEffect : List (Attempt X) → List (PeerPut X) → Prop
  | nil : TookEffect [] []
  | done {p : PeerPut X} {as : List (Attempt X)} {ps : List (PeerPut X)} (h : TookEffect as ps) :
      TookEffect (.done p :: as) (p :: ps)
  | lost {p : PeerPut X} {after bytes : ℕ} {as : List (Attempt X)} {ps : List (PeerPut X)}
      (h : TookEffect as ps) : TookEffect (.crash p after bytes :: as) ps
  | kept {p : PeerPut X} {after bytes : ℕ} {as : List (Attempt X)} {ps : List (PeerPut X)}
      (h : TookEffect as ps) : TookEffect (.crash p after bytes :: as) (p :: ps)

def MemoryStore.puts (s : MemoryStore) (ps : List (PeerPut X)) : MemoryStore :=
  Lib.run (fun s p => s.put p.key p.value) s ps

/-- An id is not empty, and spelled in the alphabet. -/
theorem Proto.DeviceId.Made.plain {p : DeviceId} (h : p.Made X) :
    p.str.toList ≠ [] ∧ '.' ∉ p.str.toList ∧ '/' ∉ p.str.toList := by
  cases h with
  | of pk =>
    have hstr : (DeviceId.of X pk).str.toList =
        b64Chars ((X.sha256 (didTag ++ pk.bytes)).bytes.take 16) := by
      unfold DeviceId.of b64Encode
      exact String.toList_ofList
    rw [hstr]
    refine ⟨?_, fun hdot => absurd (b64Chars_mem hdot) (by decide),
      fun hslash => absurd (b64Chars_mem hslash) (by decide)⟩
    have hsize := (X.sha256 (didTag ++ pk.bytes)).size
    generalize (X.sha256 (didTag ++ pk.bytes)).bytes = bytes at hsize
    match bytes, hsize with
    | a :: b :: c :: rest, _ =>
      intro hnil
      change encodeChunk a b c 4 ++ b64Chars (rest.take 13) = [] at hnil
      have hchunk := (List.append_eq_nil_iff.mp hnil).1
      have hlength := congrArg List.length hchunk
      unfold encodeChunk at hlength
      rw [List.length_map, List.length_range] at hlength
      cases hlength
  | @parse s _ hparse =>
    unfold DeviceId.parse at hparse
    cases hdecode : b64Decode s with
    | error e =>
      rw [hdecode] at hparse
      cases hparse
    | ok bytes =>
      rw [hdecode] at hparse
      by_cases hsize : bytes.length = 16
      case neg =>
        change (if bytes.length = 16 then pure (DeviceId.mk s) else throw _) = _ at hparse
        rw [if_neg hsize] at hparse
        cases hparse
      change (if bytes.length = 16 then pure (DeviceId.mk s) else throw _) = _ at hparse
      rw [if_pos hsize] at hparse
      obtain rfl := Except.ok.inj hparse
      refine ⟨fun hnil => ?_, not_mem_of_b64Decode hdecode rfl (by decide),
        not_mem_of_b64Decode hdecode rfl (by decide)⟩
      change s.toList = [] at hnil
      unfold b64Decode at hdecode
      rw [hnil] at hdecode
      have hempty := Except.ok.inj hdecode
      rw [← hempty] at hsize
      cases hsize

section Paths

/-- A file named after an id, and the one beside it. -/
theorem PeerPut.paths (p : PeerPut X) : FileStore.pathFor p.key = some p.key ∧
    Path.extension p.key = none ∧
    Path.extension (Path.withExtension p.key "tmp".toList) = some "tmp".toList := by
  obtain ⟨hne, hdot, hslash⟩ := p.made.plain
  have hkey : p.key.toList = "peer".toList ++ '/' :: p.id.str.toList := by
    unfold PeerPut.key
    rw [String.toList_append]
    rfl
  obtain ⟨name, c, hid⟩ : ∃ name c, p.id.str.toList = name ++ [c] :=
    ⟨_, _, (List.dropLast_concat_getLast hne).symm⟩
  have hc : c ≠ '/' ∧ c ≠ '.' := by
    constructor
    · rintro rfl
      exact hslash (by simp [hid])
    · rintro rfl
      exact hdot (by simp [hid])
  have hbare : '/' ∉ name := fun hmem => hslash (by simp [hid, hmem])
  obtain ⟨hname, hparent⟩ := Path.fileName_append (hid ▸ hkey) hbare hc.1 hc.2
  rw [← hid] at hname
  have hwhole : Path.splitName p.id.str.toList = (p.id.str.toList, none) := by
    unfold Path.splitName
    rw [Lib.rsplitOnce_of_not_mem hdot]
  refine ⟨?_, ?_, ?_⟩
  · have hdots : ¬ ['.', '.'] <:+: p.key.toList := by
      intro hdouble
      have hmem : '.' ∈ p.key.toList := hdouble.subset List.mem_cons_self
      rw [hkey] at hmem
      rcases List.mem_append.mp hmem with hmem | hmem
      · exact absurd hmem (by decide)
      · rcases List.mem_cons.mp hmem with heq | hmem
        · exact absurd heq (by decide)
        · exact hdot hmem
    have hhead : p.key.toList.head? ≠ some '/' := by
      rw [hkey]
      show some 'p' ≠ some '/'
      decide
    have hcount : p.key.toList.count '/' = 1 := by
      rw [hkey, List.count_append, List.count_cons_self, List.count_eq_zero.mpr hslash]
      rfl
    unfold FileStore.pathFor
    rw [if_neg]
    rintro (hdouble | hroot | hmany)
    · exact hdots hdouble
    · exact hhead hroot
    · exact hmany hcount
  · unfold Path.extension
    rw [hname, Option.bind_some, hwhole]
  · have htmp : (Path.withExtension p.key "tmp".toList).toList =
        "peer".toList ++ '/' :: (p.id.str.toList ++ ".tm".toList ++ ['p']) := by
      unfold Path.withExtension
      rw [hname]
      dsimp only
      rw [hparent, hwhole, String.toList_ofList]
      simp
    have hplain : '/' ∉ p.id.str.toList ++ ".tm".toList := by
      intro hmem
      rcases List.mem_append.mp hmem with hmem | hmem
      · exact hslash hmem
      · exact absurd hmem (by decide)
    obtain ⟨hfile, -⟩ := Path.fileName_append htmp hplain (by decide) (by decide)
    have hends : p.id.str.toList ++ ".tm".toList ++ ['p'] =
        p.id.str.toList ++ '.' :: "tmp".toList := by simp
    unfold Path.extension
    rw [hfile, Option.bind_some, hends]
    unfold Path.splitName
    rw [Lib.rsplitOnce_append (by decide)]
    dsimp only
    rw [if_neg hne]

def PeerPut.tmp (p : PeerPut X) : String := Path.withExtension p.key "tmp".toList

/-- What a `put` of a record asks of the file system. -/
theorem PeerPut.ops (p : PeerPut X) : FileStore.putOps p.key p.value = some (match p.value with
    | none => [.remove p.key]
    | some bytes => [.create p.tmp, .write p.tmp bytes, .rename p.tmp p.key]) := by
  unfold FileStore.putOps
  rw [p.paths.1]
  cases p.value with
  | none => rfl
  | some bytes => rfl

end Paths

/-- The files hold what the store in memory does; what else there is was left by a crash. -/
structure FileStore.Holds (X : Crates) (s : FileStore) (m : MemoryStore) : Prop where
  same : ∀ path, Path.extension path ≠ some "tmp".toList → s.files[path]? = m.entries[path]?
  keyed : ∀ path v, m.entries[path]? = some v → ∃ p : PeerPut X, path = p.key

namespace FileStore.Holds
variable {s : FileStore} {m : MemoryStore}

theorem keyed_put (h : s.Holds X m) (p : PeerPut X) (path : String) (v : Bytes)
    (hv : (m.put p.key p.value).entries[path]? = some v) : ∃ p : PeerPut X, path = p.key := by
  unfold MemoryStore.put at hv
  cases hvalue : p.value with
  | none =>
    rw [hvalue] at hv
    exact h.keyed path v (Lib.getElem?_of_erase hv).2
  | some bytes =>
    rw [hvalue] at hv
    rcases Lib.getElem?_of_insert hv with ⟨rfl, -⟩ | ⟨-, hold⟩
    · exact ⟨p, rfl⟩
    · exact h.keyed path v hold

/-- A `put` that is carried out. -/
theorem put (h : s.Holds X m) (p : PeerPut X) :
    (s.put p.key p.value).Holds X (m.put p.key p.value) := by
  refine ⟨fun path hpath => ?_, h.keyed_put p⟩
  have hops := p.ops
  have hsame := h.same path hpath
  unfold FileStore.put MemoryStore.put
  rw [hops]
  cases p.value with
  | none =>
    change (s.files.erase p.key)[path]? = (m.entries.erase p.key)[path]?
    by_cases hkey : path = p.key
    · rw [hkey, ExtTreeMap.getElem?_erase_self, ExtTreeMap.getElem?_erase_self]
    · rw [Lib.getElem?_erase_of_ne hkey, Lib.getElem?_erase_of_ne hkey, hsame]
  | some bytes =>
    have hplace : Lib.Disk.perform s.files [.create p.tmp, .write p.tmp bytes, .rename p.tmp p.key] =
        (s.files.erase p.tmp).insert p.key bytes := Lib.Disk.put_in_place
    have htmp : path ≠ p.tmp := by
      intro heq
      exact hpath (by rw [heq]; exact p.paths.2.2)
    change (Lib.Disk.perform s.files _)[path]? = (m.entries.insert p.key bytes)[path]?
    rw [Option.getD_some, hplace]
    by_cases hkey : path = p.key
    · rw [hkey, ExtTreeMap.getElem?_insert_self, ExtTreeMap.getElem?_insert_self]
    · rw [Lib.getElem?_insert_of_ne hkey, Lib.getElem?_insert_of_ne hkey,
        Lib.getElem?_erase_of_ne htmp, hsame]

/-- A `put` that a crash ends before its last operation. -/
theorem unchanged (h : s.Holds X m) {s' : FileStore} {tmp : String}
    (htmp : Path.extension tmp = some "tmp".toList)
    (hsame : ∀ path, path ≠ tmp → s'.files[path]? = s.files[path]?) : s'.Holds X m := by
  refine ⟨fun path hpath => ?_, h.keyed⟩
  have hne : path ≠ tmp := by
    rintro rfl
    exact hpath htmp
  rw [hsame path hne]
  exact h.same path hpath

/-- A crash loses the `put` or leaves it done. -/
theorem crashIn (h : s.Holds X m) (p : PeerPut X) (after bytes : ℕ) :
    (s.crashIn p.key p.value after bytes).Holds X m ∨
      (s.crashIn p.key p.value after bytes).Holds X (m.put p.key p.value) := by
  have hops := p.ops
  have hdone := h.put p
  unfold FileStore.put at hdone
  unfold FileStore.crashIn
  rw [hops, Option.getD_some] at hdone ⊢
  cases hvalue : p.value with
  | none =>
    rw [hvalue] at hdone
    match after with
    | 0 => exact .inl h
    | after + 1 => exact .inr hdone
  | some bs =>
    rw [hvalue] at hdone
    by_cases hafter : after < 3
    · refine .inl (h.unchanged p.paths.2.2 fun path hpath => ?_)
      exact Lib.Disk.crash_put_other hpath hafter
    · obtain ⟨k, rfl⟩ : ∃ k, after = k + 3 := ⟨after - 3, by omega⟩
      exact .inr hdone

/-- Both stores load the same records. -/
theorem loadPeers (h : s.Holds X m) {listing : List (String × Bytes)}
    (hlisting : listing.Perm s.files.toList) :
    (FileStore.loadPeers X listing).Perm (m.loadPeers X) := by
  unfold FileStore.loadPeers MemoryStore.loadPeers
  apply List.Perm.filterMap
  have hfiles : listing.Nodup := hlisting.nodup_iff.mpr Lib.nodup_toList
  have hentries : m.entries.toList.Nodup := Lib.nodup_toList
  rw [List.perm_ext_iff_of_nodup (hfiles.filter _) (hentries.filter _)]
  rintro ⟨path, v⟩
  rw [List.mem_filter, List.mem_filter, hlisting.mem_iff, ExtTreeMap.mem_toList_iff_getElem?_eq_some,
    ExtTreeMap.mem_toList_iff_getElem?_eq_some]
  constructor
  · rintro ⟨hv, hpath⟩
    obtain ⟨hdir, hplace⟩ := of_decide_eq_true hpath
    rw [h.same path hplace] at hv
    exact ⟨hv, hdir⟩
  · rintro ⟨hv, hdir⟩
    obtain ⟨p, rfl⟩ := h.keyed path v hv
    have hplace : Path.extension p.key ≠ some "tmp".toList := by
      rw [p.paths.2.1]
      exact nofun
    rw [← h.same p.key hplace] at hv
    exact ⟨hv, decide_eq_true ⟨hdir, hplace⟩⟩

end FileStore.Holds

/-- An attempt takes effect or is lost. -/
theorem FileStore.holds_run {s : FileStore} {m : MemoryStore} (h : s.Holds X m)
    (as : List (Attempt X)) : ∃ ps, TookEffect as ps ∧ (s.run as).Holds X (m.puts ps) := by
  induction as generalizing s m with
  | nil => exact ⟨[], .nil, h⟩
  | cons a as ih =>
    cases a with
    | done p =>
      obtain ⟨ps, heffect, hholds⟩ := ih (h.put p)
      exact ⟨p :: ps, .done heffect, hholds⟩
    | crash p after bytes =>
      rcases h.crashIn p after bytes with hlost | hkept
      · obtain ⟨ps, heffect, hholds⟩ := ih hlost
        exact ⟨ps, .lost heffect, hholds⟩
      · obtain ⟨ps, heffect, hholds⟩ := ih hkept
        exact ⟨p :: ps, .kept heffect, hholds⟩

/-- After any puts, each carried out or interrupted by a crash anywhere inside it, the files load as
a store in memory does after the puts that took effect, in whatever order the directory is read. -/
theorem file_store_refines_map (as : List (Attempt X)) : ∃ ps, TookEffect as ps ∧
    ∀ listing, listing.Perm ((FileStore.mk ∅).run as).files.toList →
      (FileStore.loadPeers X listing).Perm ((MemoryStore.puts ⟨∅⟩ ps).loadPeers X) := by
  have hempty : FileStore.Holds X ⟨∅⟩ ⟨∅⟩ := by
    constructor
    · exact fun path _ => rfl
    · intro path v hv
      rw [ExtTreeMap.getElem?_empty] at hv
      cases hv
  obtain ⟨ps, heffect, hholds⟩ := FileStore.holds_run hempty as
  exact ⟨ps, heffect, fun listing hlisting => hholds.loadPeers hlisting⟩

end Acrylius
