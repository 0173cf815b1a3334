import Acrylius.Proto.Ids
import Mathlib.Data.List.GetD
import Mathlib.Data.List.Induction
import Mathlib.Tactic.Positivity
import Mathlib.Tactic.Ring

/-! Strict base64url (`b64.rs`): what the encoder writes decodes to what it was given, and nothing
else decodes. -/
namespace Acrylius.Proto

section Alphabet

theorem sextet_mem (n i : ℕ) : sextet n i ∈ alphabet := by
  unfold sextet
  rw [List.getD_eq_getElem?_getD]
  cases hget : alphabet[n >>> (18 - 6 * i) &&& 0x3F]? with
  | none => exact (by decide : 'A' ∈ alphabet)
  | some c => exact List.mem_of_getElem? hget

theorem encodeChunk_mem {b0 b1 b2 : UInt8} {chars : ℕ} {c : Char}
    (h : c ∈ encodeChunk b0 b1 b2 chars) : c ∈ alphabet := by
  obtain ⟨i, -, rfl⟩ := List.mem_map.mp h
  exact sextet_mem _ i

theorem b64Chars_mem {input : Bytes} {c : Char} (h : c ∈ b64Chars input) : c ∈ alphabet := by
  induction input using b64Chars.induct with
  | case1 => cases h
  | case2 a => exact encodeChunk_mem h
  | case3 a b => exact encodeChunk_mem h
  | case4 a b d rest ih =>
    unfold b64Chars at h
    rcases List.mem_append.mp h with hchunk | hrest
    · exact encodeChunk_mem hchunk
    · exact ih hrest

theorem foldBits_decodes {index n : ℕ} {es : List (UInt8 × ℕ)} {start : ℕ}
    (h : es.foldlM (fun n e =>
      match decodeByte e.1 with
      | some v => Except.ok (n ||| v <<< (18 - 6 * e.2))
      | none => Except.error (B64Error.badByte (index + e.2))) start = .ok n) :
    ∀ e ∈ es, (decodeByte e.1).isSome := by
  induction es generalizing start with
  | nil => exact fun e he => absurd he List.not_mem_nil
  | cons e es ih =>
    rw [List.foldlM_cons] at h
    cases hdecode : decodeByte e.1 with
    | none =>
      rw [hdecode] at h
      cases h
    | some v =>
      rw [hdecode] at h
      have hrest := ih h
      intro e' he'
      rcases List.mem_cons.mp he' with rfl | he'
      · rw [hdecode]
        rfl
      · exact hrest e' he'

theorem chunkBits_decodes {index n : ℕ} {chunk : Bytes} (h : chunkBits index chunk = .ok n) :
    ∀ b ∈ chunk, (decodeByte b).isSome := by
  intro b hb
  obtain ⟨k, hk⟩ := List.mem_iff_getElem?.mp hb
  exact foldBits_decodes h (b, k) (List.mk_mem_zipIdx_iff_getElem?.mpr hk)

theorem decodeChunks_decodes {index : ℕ} {bytes out : Bytes}
    (h : decodeChunks index bytes = .ok out) : ∀ b ∈ bytes, (decodeByte b).isSome := by
  induction index, bytes using decodeChunks.induct generalizing out with
  | case1 => exact fun b hb => absurd hb List.not_mem_nil
  | case2 index a b c d rest ih =>
    unfold decodeChunks at h
    cases hchunk : chunkBits index [a, b, c, d] with
    | error e =>
      rw [hchunk] at h
      cases h
    | ok n =>
      rw [hchunk] at h
      cases hrest : decodeChunks (index + 4) rest with
      | error e =>
        change (decodeChunks (index + 4) rest >>= _) = _ at h
        rw [hrest] at h
        cases h
      | ok more =>
        have hmore := ih hrest
        have hfour := chunkBits_decodes hchunk
        intro e he
        rcases List.mem_append.mp (show e ∈ [a, b, c, d] ++ rest from he) with he | he
        · exact hfour e he
        · exact hmore e he
  | case3 index chunk hne hshort =>
    rw [decodeChunks.eq_3 index chunk hne hshort] at h
    cases hchunk : chunkBits index chunk with
    | error e =>
      rw [hchunk] at h
      cases h
    | ok n => exact chunkBits_decodes hchunk

/-- A character that stands for no sextet is in nothing that decodes. -/
theorem not_mem_of_b64Decode {s : String} {bytes : Bytes} {c : Char} {b : UInt8}
    (h : b64Decode s = .ok bytes) (hb : String.utf8EncodeChar c = [b]) (hnone : decodeByte b = none) :
    c ∉ s.toList := by
  intro hc
  have hmem : b ∈ s.toList.flatMap String.utf8EncodeChar := by
    rw [List.mem_flatMap]
    exact ⟨c, hc, by rw [hb]; exact List.mem_singleton_self b⟩
  unfold b64Decode at h
  dsimp only at h
  split_ifs at h
  have hsome := decodeChunks_decodes h b hmem
  rw [hnone] at hsome
  cases hsome

def charByte (c : Char) : UInt8 := UInt8.ofNat c.toNat

theorem length_alphabet : alphabet.length = 64 := rfl

theorem toNat_alphabet {c : Char} (h : c ∈ alphabet) : c.toNat < 128 := by
  have hall : alphabet.all fun c => c.toNat < 128 := by decide +kernel
  exact of_decide_eq_true (List.all_eq_true.mp hall c h)

theorem getD_alphabet {v : ℕ} (h : v < 64) : alphabet.getD v 'A' ∈ alphabet := by
  have hlt : v < alphabet.length := by rwa [length_alphabet]
  rw [List.getD_eq_getElem _ _ hlt]
  exact List.getElem_mem hlt

theorem toNat_charByte {c : Char} (h : c ∈ alphabet) : (charByte c).toNat = c.toNat := by
  have hlow := toNat_alphabet h
  simp only [charByte, UInt8.toNat_ofNat']
  omega

theorem utf8_alphabet {c : Char} (h : c ∈ alphabet) : String.utf8EncodeChar c = [charByte c] := by
  have hlow := toNat_alphabet h
  have hnat : c.val.toNat = c.toNat := rfl
  have hmax : (127 : UInt32).toNat = 127 := rfl
  have hsmall : c.val ≤ 127 := UInt32.le_iff_toNat_le.mpr (by omega)
  rw [String.utf8EncodeChar_eq_singleton (Char.utf8Size_eq_one_iff.mpr hsmall)]
  rfl

theorem charByte_inj {c d : Char} (hc : c ∈ alphabet) (hd : d ∈ alphabet)
    (h : charByte c = charByte d) : c = d := by
  rw [← Char.toNat_inj, ← toNat_charByte hc, ← toNat_charByte hd, h]

theorem decodeByte_charByte {v : ℕ} (h : v < 64) :
    decodeByte (charByte (alphabet.getD v 'A')) = some v := by
  revert h v
  decide +kernel

theorem decodeByte_eq_some {b : UInt8} {v : ℕ} (h : decodeByte b = some v) :
    v < 64 ∧ charByte (alphabet.getD v 'A') = b := by
  obtain ⟨hlt, hchar, -⟩ := List.findIdx?_eq_some_iff_getElem.mp h
  have hget : alphabet.getD v 'A' = alphabet[v] := List.getD_eq_getElem _ _ hlt
  have hnat : alphabet[v].toNat = b.toNat := by simpa using hchar
  refine ⟨by rwa [length_alphabet] at hlt, ?_⟩
  rw [hget, charByte, hnat, UInt8.ofNat_toNat]

theorem decodeByte_high {b : UInt8} (h : 128 ≤ b.toNat) : decodeByte b = none := by
  cases hv : decodeByte b with
  | none => rfl
  | some v =>
    obtain ⟨hlt, hbyte⟩ := decodeByte_eq_some hv
    have hlow := toNat_alphabet (getD_alphabet hlt)
    rw [← toNat_charByte (getD_alphabet hlt), hbyte] at hlow
    omega

theorem utf8_ascii {c : Char} (h : ∀ b ∈ String.utf8EncodeChar c, b.toNat < 128) :
    String.utf8EncodeChar c = [charByte c] ∧ c.toNat < 128 := by
  have high : ∀ x y : UInt8, 128 ≤ y.toNat → 128 ≤ (x ||| y).toNat := by
    intro x y hy
    rw [UInt8.toNat_or]
    exact hy.trans Nat.right_le_or
  rcases Char.utf8Size_eq c with h1 | h2 | h3 | h4
  · have hsmall := UInt32.le_iff_toNat_le.mp (Char.utf8Size_eq_one_iff.mp h1)
    have hnat : c.val.toNat = c.toNat := rfl
    have hmax : (127 : UInt32).toNat = 127 := rfl
    refine ⟨?_, by omega⟩
    rw [String.utf8EncodeChar_eq_singleton h1]
    rfl
  · rw [String.utf8EncodeChar_eq_cons_cons h2] at h
    have hlead := h _ List.mem_cons_self
    have := high ((c.val >>> 6).toUInt8 &&& 31) 192 (by decide)
    omega
  · rw [String.utf8EncodeChar_eq_cons_cons_cons h3] at h
    have hlead := h _ List.mem_cons_self
    have := high ((c.val >>> 12).toUInt8 &&& 15) 224 (by decide)
    omega
  · rw [String.utf8EncodeChar_eq_cons_cons_cons_cons h4] at h
    have hlead := h _ List.mem_cons_self
    have := high ((c.val >>> 18).toUInt8 &&& 7) 240 (by decide)
    omega

theorem mem_alphabet {c : Char} (h : ∀ b ∈ String.utf8EncodeChar c, (decodeByte b).isSome) :
    c ∈ alphabet := by
  have hascii : ∀ b ∈ String.utf8EncodeChar c, b.toNat < 128 := by
    intro b hb
    by_contra hge
    have hnone := decodeByte_high (Nat.le_of_not_lt hge)
    have hsome := h b hb
    rw [hnone] at hsome
    cases hsome
  obtain ⟨hbyte, hlt⟩ := utf8_ascii hascii
  have hsome := h (charByte c) (by rw [hbyte]; exact List.mem_singleton_self _)
  obtain ⟨v, hv⟩ := Option.isSome_iff_exists.mp hsome
  obtain ⟨hsmall, hchar⟩ := decodeByte_eq_some hv
  have hmem := getD_alphabet hsmall
  have hlow := toNat_alphabet hmem
  have hnat := congrArg UInt8.toNat hchar
  simp only [charByte, UInt8.toNat_ofNat'] at hnat
  have hsame : c = alphabet.getD v 'A' := by
    apply Char.toNat_inj.mp
    omega
  rwa [hsame]

/-- The bytes of a text in the alphabet, one for each character. -/
theorem flatMap_alphabet {cs : List Char} (h : ∀ c ∈ cs, c ∈ alphabet) :
    cs.flatMap String.utf8EncodeChar = cs.map charByte := by
  induction cs with
  | nil => rfl
  | cons c cs ih =>
    have hc := utf8_alphabet (h c List.mem_cons_self)
    have hcs := ih fun d hd => h d (List.mem_cons_of_mem c hd)
    rw [List.flatMap_cons, hc, hcs]
    rfl

theorem map_charByte_inj {cs ds : List Char} (hc : ∀ c ∈ cs, c ∈ alphabet)
    (hd : ∀ d ∈ ds, d ∈ alphabet) (h : cs.map charByte = ds.map charByte) : cs = ds := by
  induction cs generalizing ds with
  | nil => exact (List.map_eq_nil_iff.mp h.symm).symm
  | cons c cs ih =>
    cases ds with
    | nil => cases h
    | cons d ds =>
      simp only [List.map_cons, List.cons.injEq] at h
      have hhead := charByte_inj (hc c List.mem_cons_self) (hd d List.mem_cons_self) h.1
      have htail := ih (fun e he => hc e (List.mem_cons_of_mem c he))
        (fun e he => hd e (List.mem_cons_of_mem d he)) h.2
      rw [hhead, htail]

end Alphabet

section Groups

theorem sextet_eq (n i : ℕ) : sextet n i = alphabet.getD (n / 2 ^ (18 - 6 * i) % 64) 'A' := by
  have hmask := Nat.and_two_pow_sub_one_eq_mod (n >>> (18 - 6 * i)) 6
  unfold sextet
  rw [← Nat.shiftRight_eq_div_pow, ← hmask]

theorem decodeByte_sextet (n i : ℕ) :
    decodeByte (charByte (sextet n i)) = some (n / 2 ^ (18 - 6 * i) % 64) := by
  rw [sextet_eq]
  exact decodeByte_charByte (Nat.mod_lt _ (by omega))

theorem or_sextet {n v s : ℕ} (hn : n % 2 ^ (s + 6) = 0) (hv : v < 64) :
    n ||| v <<< s = n + v * 2 ^ s := by
  have hlt : v <<< s < 2 ^ (s + 6) := by
    rw [Nat.shiftLeft_eq, Nat.pow_add, Nat.mul_comm]
    have hpos : 0 < 2 ^ s := by positivity
    exact Nat.mul_lt_mul_of_pos_left hv hpos
  obtain ⟨q, rfl⟩ := Nat.dvd_of_mod_eq_zero hn
  rw [← Nat.two_pow_add_eq_or_of_lt hlt, Nat.shiftLeft_eq]

theorem chunkBits_snoc (index : ℕ) (chunk : Bytes) (b : UInt8) :
    chunkBits index (chunk ++ [b]) = (chunkBits index chunk >>= fun n =>
      match decodeByte b with
      | some v => .ok (n ||| v <<< (18 - 6 * chunk.length))
      | none => .error (.badByte (index + chunk.length))) := by
  unfold chunkBits
  cases hb : decodeByte b with
  | some v =>
    simp only [List.zipIdx_append, List.foldlM_append, List.zipIdx_singleton, List.foldlM_cons,
      List.foldlM_nil, Nat.zero_add, bind_pure, hb]
  | none =>
    simp only [List.zipIdx_append, List.foldlM_append, List.zipIdx_singleton, List.foldlM_cons,
      List.foldlM_nil, Nat.zero_add, bind_pure, hb]

/-- The characters of a group are read back to its bits, as far as they go. -/
theorem chunkBits_sextets (index n : ℕ) {k : ℕ} (hk : k ≤ 4) (hn : n < 2 ^ 24) :
    chunkBits index ((List.range k).map fun i => charByte (sextet n i)) =
      .ok (n / 2 ^ (24 - 6 * k) * 2 ^ (24 - 6 * k)) := by
  induction k with
  | zero =>
    have hzero : n / 2 ^ 24 = 0 := Nat.div_eq_of_lt hn
    change Except.ok 0 = Except.ok (n / 2 ^ 24 * 2 ^ 24)
    rw [hzero, Nat.zero_mul]
  | succ k ih =>
    obtain ⟨s, hs⟩ : ∃ s, s = 18 - 6 * k := ⟨_, rfl⟩
    have hbefore : 24 - 6 * k = s + 6 := by omega
    have hafter : 24 - 6 * (k + 1) = s := by omega
    have hlength : ((List.range k).map fun i => charByte (sextet n i)).length = k := by simp
    rw [List.range_succ, List.map_append, List.map_singleton, chunkBits_snoc, ih (by omega),
      decodeByte_sextet, hlength, hbefore, hafter, ← hs]
    have hmultiple : n / 2 ^ (s + 6) * 2 ^ (s + 6) % 2 ^ (s + 6) = 0 := Nat.mul_mod_left _ _
    have hor := or_sextet hmultiple (Nat.mod_lt (n / 2 ^ s) (by omega : 64 > 0))
    change Except.ok _ = _
    rw [hor]
    congr 1
    have hsplit : n / 2 ^ (s + 6) = n / 2 ^ s / 64 := by
      rw [Nat.pow_add, Nat.div_div_eq_div_mul]
    have hdigits := Nat.div_add_mod (n / 2 ^ s) 64
    rw [hsplit, Nat.pow_add, Nat.mul_comm (2 ^ s), ← Nat.mul_assoc, ← Nat.add_mul]
    congr 1
    omega

/-- A chunk whose bits are read is spelled by the sextets of those bits. -/
theorem chunkBits_spelled {index : ℕ} {chunk : Bytes} {n : ℕ} (hlength : chunk.length ≤ 4)
    (h : chunkBits index chunk = .ok n) :
    chunk = ((List.range chunk.length).map fun i => charByte (sextet n i)) ∧
      n % 2 ^ (24 - 6 * chunk.length) = 0 ∧ n < 2 ^ 24 := by
  induction chunk using List.reverseRecOn generalizing n with
  | nil =>
    obtain rfl : 0 = n := Except.ok.inj h
    simp
  | append_singleton chunk b ih =>
    rw [chunkBits_snoc] at h
    rw [List.length_append, List.length_singleton] at hlength ⊢
    cases hchunk : chunkBits index chunk with
    | error e =>
      rw [hchunk] at h
      cases h
    | ok m =>
      cases hv : decodeByte b with
      | none =>
        rw [hchunk, hv] at h
        cases h
      | some v =>
        rw [hchunk, hv] at h
        obtain ⟨hspelled, hmod, hlt⟩ := ih (by omega) hchunk
        obtain ⟨hsmall, hbyte⟩ := decodeByte_eq_some hv
        obtain ⟨s, hs⟩ : ∃ s, s = 18 - 6 * chunk.length := ⟨_, rfl⟩
        have hbefore : 24 - 6 * chunk.length = s + 6 := by omega
        have hafter : 24 - 6 * (chunk.length + 1) = s := by omega
        rw [hbefore] at hmod
        have hsum : m + v * 2 ^ s = n := by
          rw [← or_sextet hmod hsmall, hs]
          exact Except.ok.inj h
        obtain ⟨q, hq⟩ := Nat.dvd_of_mod_eq_zero hmod
        have hwhole : n = (q * 64 + v) * 2 ^ s := by
          rw [← hsum, hq, Nat.pow_add]
          ring
        have hpos : 0 < 2 ^ s := by positivity
        have hquot : n / 2 ^ s = q * 64 + v := by
          rw [hwhole, Nat.mul_div_cancel _ hpos]
        have hgroup : n / 2 ^ (s + 6) = q := by
          rw [Nat.pow_add, ← Nat.div_div_eq_div_mul, hquot]
          omega
        have hlast : sextet n chunk.length = alphabet.getD v 'A' := by
          have hdigit : n / 2 ^ s % 64 = v := by omega
          rw [sextet_eq, ← hs, hdigit]
        have hrest : ∀ i < chunk.length, sextet n i = sextet m i := by
          intro i hi
          obtain ⟨t, ht⟩ : ∃ t, 18 - 6 * i = s + 6 + t := Nat.exists_eq_add_of_le (by omega)
          have hm : m / 2 ^ (s + 6) = q := by
            rw [hq, Nat.mul_div_cancel_left _ (by positivity)]
          rw [sextet_eq, sextet_eq, ht, Nat.pow_add, ← Nat.div_div_eq_div_mul,
            ← Nat.div_div_eq_div_mul, hgroup, hm]
        rw [hafter]
        refine ⟨?_, ?_, ?_⟩
        · rw [List.range_succ, List.map_append, List.map_singleton, hlast, hbyte]
          congr 1
          rw [hspelled, List.length_map, List.length_range]
          apply List.map_congr_left
          intro i hi
          rw [hrest i (List.mem_range.mp hi)]
        · rw [hwhole, Nat.mul_mod_left]
        · have hroom : 2 ^ 24 = 2 ^ (s + 6) * 2 ^ (24 - (s + 6)) := by
            rw [← Nat.pow_add]
            congr 1
            omega
          rw [hroom, hq] at hlt
          have hless := Nat.lt_of_mul_lt_mul_left hlt
          have hnext : n < 2 ^ (s + 6) * (q + 1) := by
            have hdiv := Nat.lt_div_mul_add (a := n) (b := 2 ^ (s + 6)) (by positivity)
            rw [hgroup] at hdiv
            calc n < q * 2 ^ (s + 6) + 2 ^ (s + 6) := hdiv
              _ = 2 ^ (s + 6) * (q + 1) := by ring
          rw [hroom]
          exact hnext.trans_le (Nat.mul_le_mul_left _ hless)

def groupOf (a b c : UInt8) : ℕ := a.toNat <<< 16 ||| b.toNat <<< 8 ||| c.toNat

theorem groupOf_eq (a b c : UInt8) : groupOf a b c = a.toNat * 65536 + b.toNat * 256 + c.toNat := by
  have hb := b.toNat_lt
  have hc := c.toNat_lt
  have hmid : b.toNat <<< 8 < 2 ^ 16 := by
    rw [Nat.shiftLeft_eq]
    omega
  have htop : a.toNat <<< 16 + b.toNat <<< 8 = (a.toNat * 256 + b.toNat) <<< 8 := by
    simp only [Nat.shiftLeft_eq]
    omega
  unfold groupOf
  rw [← Nat.shiftLeft_add_eq_or_of_lt hmid, htop, ← Nat.shiftLeft_add_eq_or_of_lt hc,
    Nat.shiftLeft_eq]
  omega

theorem groupOf_lt (a b c : UInt8) : groupOf a b c < 2 ^ 24 := by
  have ha := a.toNat_lt
  have hb := b.toNat_lt
  have hc := c.toNat_lt
  rw [groupOf_eq]
  omega

theorem map_encodeChunk (a b c : UInt8) (k : ℕ) :
    (encodeChunk a b c k).map charByte =
      (List.range k).map fun i => charByte (sextet (groupOf a b c) i) := by
  unfold encodeChunk
  rw [List.map_map]
  rfl

theorem chunkBytes_three (n : ℕ) : chunkBytes n 3 =
    [UInt8.ofNat (n / 65536 % 256), UInt8.ofNat (n / 256 % 256), UInt8.ofNat (n % 256)] := by
  simp [chunkBytes, List.range_succ, Nat.shiftRight_eq_div_pow]

theorem chunkBytes_take (n : ℕ) {k : ℕ} (hk : k ≤ 3) :
    chunkBytes n k = (chunkBytes n 3).take k := by
  unfold chunkBytes
  rw [← List.map_take, List.take_range, Nat.min_eq_left hk]

theorem chunkBytes_groupOf (a b c : UInt8) : chunkBytes (groupOf a b c) 3 = [a, b, c] := by
  have ha := a.toNat_lt
  have hb := b.toNat_lt
  have hc := c.toNat_lt
  have hhigh : groupOf a b c / 65536 % 256 = a.toNat := by
    rw [groupOf_eq]
    omega
  have hmid : groupOf a b c / 256 % 256 = b.toNat := by
    rw [groupOf_eq]
    omega
  have hlow : groupOf a b c % 256 = c.toNat := by
    rw [groupOf_eq]
    omega
  rw [chunkBytes_three, hhigh, hmid, hlow]
  simp only [UInt8.ofNat_toNat]

theorem groupOf_chunkBytes {n : ℕ} (h : n < 2 ^ 24) :
    groupOf (UInt8.ofNat (n / 65536 % 256)) (UInt8.ofNat (n / 256 % 256))
      (UInt8.ofNat (n % 256)) = n := by
  rw [groupOf_eq]
  simp only [UInt8.toNat_ofNat']
  omega

theorem chunkBits_encodeChunk (index : ℕ) (a b c : UInt8) {k : ℕ} (hk : k ≤ 4)
    (h : groupOf a b c % 2 ^ (24 - 6 * k) = 0) :
    chunkBits index ((encodeChunk a b c k).map charByte) = .ok (groupOf a b c) := by
  rw [map_encodeChunk, chunkBits_sextets index _ hk (groupOf_lt a b c)]
  have hsplit := Nat.div_add_mod (groupOf a b c) (2 ^ (24 - 6 * k))
  rw [h, Nat.add_zero, Nat.mul_comm] at hsplit
  rw [hsplit]

theorem decodeChunks_short {index n : ℕ} {chunk : Bytes} (hne : chunk ≠ [])
    (hlength : chunk.length < 4) (hbits : chunkBits index chunk = .ok n) :
    decodeChunks index chunk = if n % 2 ^ (24 - 8 * (chunk.length - 1)) = 0 then
      .ok (chunkBytes n (chunk.length - 1)) else .error .nonCanonical := by
  have hshort : ∀ a b c d rest, chunk = a :: b :: c :: d :: rest → False := by
    intro a b c d rest h
    rw [h] at hlength
    simp at hlength
    omega
  rw [decodeChunks.eq_3 index chunk hne hshort, hbits]
  rfl

theorem decodeChunks_group {index n : ℕ} {group rest : Bytes} (hlength : group.length = 4)
    (hbits : chunkBits index group = .ok n) :
    decodeChunks index (group ++ rest) =
      (decodeChunks (index + 4) rest).map (chunkBytes n 3 ++ ·) := by
  match group, hlength with
  | [a, b, c, d], _ =>
    change decodeChunks index (a :: b :: c :: d :: rest) = _
    rw [decodeChunks.eq_2, hbits]
    cases decodeChunks (index + 4) rest <;> rfl

theorem length_encodeChunk (a b c : UInt8) (k : ℕ) :
    ((encodeChunk a b c k).map charByte).length = k := by
  simp [encodeChunk]

/-- The bytes left over at the end are written with as many characters as carry them. -/
theorem decodeChunks_encodeChunk (index : ℕ) (a b c : UInt8) {k : ℕ} (hk : 1 < k) (hk' : k < 4)
    (h : groupOf a b c % 2 ^ (24 - 8 * (k - 1)) = 0) :
    decodeChunks index ((encodeChunk a b c k).map charByte) = .ok ([a, b, c].take (k - 1)) := by
  have hlength := length_encodeChunk a b c k
  have hspare : groupOf a b c % 2 ^ (24 - 6 * k) = 0 := by
    have hdvd : 2 ^ (24 - 6 * k) ∣ 2 ^ (24 - 8 * (k - 1)) := pow_dvd_pow 2 (by omega)
    exact Nat.mod_eq_zero_of_dvd (hdvd.trans (Nat.dvd_of_mod_eq_zero h))
  have hne : (encodeChunk a b c k).map charByte ≠ [] := by
    intro hnil
    rw [hnil] at hlength
    simp at hlength
    omega
  rw [decodeChunks_short hne (by omega) (chunkBits_encodeChunk index a b c (by omega) hspare),
    hlength, if_pos h, chunkBytes_take _ (by omega), chunkBytes_groupOf]

/-- What is written of some bytes is read back to them. -/
theorem decodeChunks_b64Chars (index : ℕ) (x : Bytes) :
    decodeChunks index ((b64Chars x).map charByte) = .ok x := by
  induction x using b64Chars.induct generalizing index with
  | case1 => rfl
  | case2 a =>
    have hgroup : groupOf a 0 0 % 2 ^ 16 = 0 := by
      rw [groupOf_eq]
      simp
    unfold b64Chars
    exact decodeChunks_encodeChunk index a 0 0 (by omega) (by omega) hgroup
  | case3 a b =>
    have hgroup : groupOf a b 0 % 2 ^ 8 = 0 := by
      rw [groupOf_eq]
      simp
      omega
    unfold b64Chars
    exact decodeChunks_encodeChunk index a b 0 (by omega) (by omega) hgroup
  | case4 a b c rest ih =>
    have hbits := chunkBits_encodeChunk index a b c le_rfl (Nat.mod_one _)
    unfold b64Chars
    rw [List.map_append, decodeChunks_group (length_encodeChunk a b c 4) hbits, ih,
      chunkBytes_groupOf]
    rfl

/-- What is read to some bytes is what is written of them. -/
theorem b64Chars_of_decodeChunks {index : ℕ} {bytes x : Bytes} (hlength : bytes.length % 4 ≠ 1)
    (h : decodeChunks index bytes = .ok x) : (b64Chars x).map charByte = bytes := by
  induction index, bytes using decodeChunks.induct generalizing x with
  | case1 index =>
    obtain rfl : [] = x := Except.ok.inj h
    rfl
  | case2 index a b c d rest ih =>
    cases hbits : chunkBits index [a, b, c, d] with
    | error e =>
      unfold decodeChunks at h
      rw [hbits] at h
      cases h
    | ok n =>
      obtain ⟨hspelled, -, hlt⟩ := chunkBits_spelled (by simp) hbits
      have hfour : [a, b, c, d].length = 4 := rfl
      have hgroup : decodeChunks index (a :: b :: c :: d :: rest) = _ :=
        decodeChunks_group hfour hbits
      rw [hgroup] at h
      cases hrest : decodeChunks (index + 4) rest with
      | error e =>
        rw [hrest] at h
        cases h
      | ok more =>
        rw [hrest] at h
        obtain rfl : chunkBytes n 3 ++ more = x := Except.ok.inj h
        have hmod : rest.length % 4 ≠ 1 := by
          simp only [List.length_cons] at hlength
          omega
        have htail := ih hmod hrest
        rw [chunkBytes_three]
        change (encodeChunk _ _ _ 4 ++ b64Chars more).map charByte = _
        rw [List.map_append, map_encodeChunk, groupOf_chunkBytes hlt, htail]
        exact congrArg (· ++ rest) hspelled.symm
  | case3 index chunk hne hshort =>
    have hless : chunk.length < 4 := by
      by_contra hge
      match chunk, hge with
      | a :: b :: c :: d :: rest, _ => exact hshort a b c d rest rfl
      | [], hge | [_], hge | [_, _], hge | [_, _, _], hge => simp at hge
    cases hbits : chunkBits index chunk with
    | error e =>
      rw [decodeChunks.eq_3 index chunk hne hshort, hbits] at h
      cases h
    | ok n =>
      obtain ⟨hspelled, -, hlt⟩ := chunkBits_spelled (by omega) hbits
      rw [decodeChunks_short hne hless hbits] at h
      split_ifs at h with hcanonical
      obtain rfl := Except.ok.inj h
      have hpos := List.length_pos_iff.mpr hne
      rw [chunkBytes_take _ (by omega), chunkBytes_three]
      obtain htwo | hthree : chunk.length = 2 ∨ chunk.length = 3 := by omega
      · rw [htwo] at hcanonical hspelled ⊢
        have hmid : UInt8.ofNat (n / 256 % 256) = 0 := by
          have : n / 256 % 256 = 0 := by omega
          rw [this]
          rfl
        have hlow : UInt8.ofNat (n % 256) = 0 := by
          have : n % 256 = 0 := by omega
          rw [this]
          rfl
        have hgroup := groupOf_chunkBytes hlt
        rw [hmid, hlow] at hgroup
        change (encodeChunk (UInt8.ofNat (n / 65536 % 256)) 0 0 2).map charByte = chunk
        rw [map_encodeChunk, hgroup]
        exact hspelled.symm
      · rw [hthree] at hcanonical hspelled ⊢
        have hlow : UInt8.ofNat (n % 256) = 0 := by
          have : n % 256 = 0 := by omega
          rw [this]
          rfl
        have hgroup := groupOf_chunkBytes hlt
        rw [hlow] at hgroup
        change (encodeChunk (UInt8.ofNat (n / 65536 % 256)) (UInt8.ofNat (n / 256 % 256)) 0 3).map
          charByte = chunk
        rw [map_encodeChunk, hgroup]
        exact hspelled.symm


end Groups

/-- The encoder's words have a length the decoder takes. -/
theorem length_b64Chars (x : Bytes) : (b64Chars x).length % 4 ≠ 1 := by
  induction x using b64Chars.induct with
  | case1 => simp [b64Chars]
  | case2 a => simp [b64Chars, encodeChunk]
  | case3 a b => simp [b64Chars, encodeChunk]
  | case4 a b c rest ih =>
    unfold b64Chars
    rw [List.length_append]
    simp [encodeChunk]
    omega

theorem b64Decode_b64Encode (x : Bytes) : b64Decode (b64Encode x) = .ok x := by
  have hplain : ∀ c ∈ b64Chars x, c ∈ alphabet := fun c hc => b64Chars_mem hc
  have hlength : ((b64Chars x).map charByte).length % 4 ≠ 1 := by
    rw [List.length_map]
    exact length_b64Chars x
  unfold b64Decode b64Encode
  rw [String.toList_ofList, flatMap_alphabet hplain]
  dsimp only
  rw [if_neg hlength, decodeChunks_b64Chars]

theorem b64Encode_of_b64Decode {s : String} {x : Bytes} (h : b64Decode s = .ok x) :
    b64Encode x = s := by
  unfold b64Decode at h
  dsimp only at h
  split_ifs at h with hlength
  have hplain : ∀ c ∈ s.toList, c ∈ alphabet := by
    intro c hc
    apply mem_alphabet
    intro b hb
    exact decodeChunks_decodes h b (List.mem_flatMap.mpr ⟨c, hc, hb⟩)
  have hwritten := b64Chars_of_decodeChunks hlength h
  rw [flatMap_alphabet hplain] at hwritten
  have hchars := map_charByte_inj (fun c hc => b64Chars_mem hc) hplain hwritten
  unfold b64Encode
  rw [hchars, String.ofList_toList]

/-- A spelling is accepted exactly if it is the encoder's, of as many bytes as wanted. -/
theorem b64Decode_iff {s : String} {x : Bytes} : b64Decode s = .ok x ↔ s = b64Encode x := by
  constructor
  · intro h
    exact (b64Encode_of_b64Decode h).symm
  · rintro rfl
    exact b64Decode_b64Encode x

/-- Both kinds of id are parsed alike: the spelling of so many bytes is kept as it is. -/
theorem parse_iff {α : Type} (mk : String → α) (n : ℕ) {s : String} {id : α} :
    (b64Decode s >>= fun bytes =>
      if bytes.length = n then pure (mk s) else throw (.wrongSize n bytes.length)) = .ok id ↔
      id = mk s ∧ ∃ b : Bytes, b.length = n ∧ s = b64Encode b := by
  cases h : b64Decode s with
  | error e =>
    constructor
    · intro hok
      cases hok
    · rintro ⟨-, b, -, rfl⟩
      rw [b64Decode_b64Encode] at h
      cases h
  | ok x =>
    have hs := b64Decode_iff.mp h
    change (if x.length = n then pure (mk s) else throw _) = Except.ok id ↔ _
    constructor
    · intro hok
      split_ifs at hok with hsize
      exact ⟨(Except.ok.inj hok).symm, x, hsize, hs⟩
    · rintro ⟨rfl, b, hsize, hb⟩
      have hsame : x = b := by
        rw [hb, b64Decode_b64Encode] at h
        exact (Except.ok.inj h).symm
      rw [hsame, if_pos hsize]
      rfl

/-- Every value has one spelling, and the ids are the spellings of 16 and of 32 bytes. -/
theorem base64_one_spelling :
    (∀ x, b64Decode (b64Encode x) = .ok x) ∧
    (∀ s x, b64Decode s = .ok x → b64Encode x = s) ∧
    (∀ s, (∀ x, s ≠ b64Encode x) → ∃ e, b64Decode s = .error e) ∧
    (∀ s id, DeviceId.parse s = .ok id ↔
      id = ⟨s⟩ ∧ ∃ b : Bytes, b.length = 16 ∧ s = b64Encode b) ∧
    (∀ s fp, Fingerprint.parse s = .ok fp ↔
      fp = ⟨s⟩ ∧ ∃ b : Bytes, b.length = 32 ∧ s = b64Encode b) ∧
    ∀ s s' x, b64Decode s = .ok x → b64Decode s' = .ok x → s = s' := by
  refine ⟨b64Decode_b64Encode, fun s x => b64Encode_of_b64Decode, ?_,
    fun s id => parse_iff DeviceId.mk 16, fun s fp => parse_iff Fingerprint.mk 32, ?_⟩
  · intro s hother
    cases h : b64Decode s with
    | error e => exact ⟨e, rfl⟩
    | ok x => exact absurd (b64Decode_iff.mp h) (hother x)
  · intro s s' x h h'
    rw [b64Decode_iff.mp h, b64Decode_iff.mp h']

end Acrylius.Proto
