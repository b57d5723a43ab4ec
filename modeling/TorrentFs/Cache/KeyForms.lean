import TorrentFs.Cache.Verification

/-!
# The keys that are accepted and the keys that are built

Four functions handle piece keys as text: `piece_key` builds them, `is_valid_piece_key` accepts
them, and `split_piece_key` and `extract_piece_index` take them apart. The module compares them
for all strings.
-/

namespace TorrentFs.Cache

open Text Word List Option Bool

def extractPieceIndex (key : Str) : ℤ :=
  (parseSigned i32Max (key.rtakeWhile (· ≠ ':'))).getD (-1)

/-- An info hash as the keys hold it: 40 or 64 lowercase hexadecimal digits. -/
structure IsInfoHash (infoHash : Str) : Prop where
  length : infoHash.length = v1InfoHashHexLen ∨ infoHash.length = v2InfoHashHexLen
  digits : infoHash.all isLowerHexDigit = true

/-- A key that `piece_key` builds from an info hash and an index that is not negative. -/
def BuiltKey (key : Str) : Prop :=
  ∃ (infoHash : Str) (index : ℤ), IsInfoHash infoHash ∧ 0 ≤ index ∧ index ≤ i32Max ∧
    key = pieceKey infoHash index

def pieceKeyIndex (key : Str) : Str := ((splitOnce pieceKeySeparator key).map Prod.snd).getD []

def rebuildKey (key : Str) : Option Str :=
  (splitPieceKey key).map fun parts => pieceKey parts.1 parts.2

/-! ### The parts of a key -/

lemma isLowerHexDigit_ascii {c : Char} (h : isLowerHexDigit c = true) :
    c ≠ ':' ∧ c.utf8Size = 1 := by
  have hrange : c.toNat ≤ 127 ∧ c.toNat ≠ 58 := by
    simp only [isLowerHexDigit, isAsciiDigit, or_eq_true, and_eq_true,
      decide_eq_true_eq, Char.le_def, UInt32.le_iff_toNat_le] at h
    have h9 : '9'.val.toNat = 57 := rfl
    have ha : 'a'.val.toNat = 97 := rfl
    have hf : 'f'.val.toNat = 102 := rfl
    change c.val.toNat ≤ 127 ∧ c.val.toNat ≠ 58
    omega
  refine ⟨?_, ?_⟩
  · rintro rfl
    exact hrange.2 rfl
  · exact Char.utf8Size_eq_one_iff.mpr (UInt32.le_iff_toNat_le.mpr hrange.1)

lemma hex_text {s : Str} (h : s.all isLowerHexDigit = true) :
    ':' ∉ s ∧ String.utf8Len s = s.length := by
  rw [List.all_eq_true] at h
  refine ⟨fun hmem => (isLowerHexDigit_ascii (h _ hmem)).1 rfl, ?_⟩
  induction s with
  | nil => rfl
  | cons c s ih =>
    rw [String.utf8Len_cons, length_cons, ih fun d hd => h d (mem_cons_of_mem c hd),
      (isLowerHexDigit_ascii (h c mem_cons_self)).2]

lemma isValidPieceKey_iff {key : Str} : isValidPieceKey key = true ↔
    ∃ infoHash index, key = infoHash ++ pieceKeySeparator ++ index ∧ IsInfoHash infoHash ∧
      index ≠ [] ∧ index.all isAsciiDigit = true ∧ digitsValue index ≤ i32Max := by
  have hparse : ∀ {index : Str}, index.all isAsciiDigit = true → index ≠ [] →
      ((parseSigned i32Max index).isSome = true ↔ digitsValue index ≤ i32Max) := by
    intro index hdigits hne
    rw [parseSigned_of_digits hdigits, isSome_map, parseDigits]
    split
    · next h => exact iff_of_true rfl h.2.2
    · next h => exact iff_of_false nofun fun hle => h ⟨hne, hdigits, hle⟩
  constructor
  · intro h
    unfold isValidPieceKey at h
    cases hsplit : splitOnce pieceKeySeparator key with
    | none => simp [hsplit] at h
    | some parts =>
      obtain ⟨infoHash, index⟩ := parts
      simp only [hsplit, and_eq_true, or_eq_true, beq_iff_eq, not_eq_true',
        isEmpty_eq_false_iff] at h
      obtain ⟨⟨⟨⟨hlength, hhex⟩, hne⟩, hdigits⟩, hsome⟩ := h
      rw [(hex_text hhex).2] at hlength
      exact ⟨infoHash, index, eq_of_splitOnce hsplit, ⟨hlength, hhex⟩, hne, hdigits,
        (hparse hdigits hne).mp hsome⟩
  · rintro ⟨infoHash, index, rfl, hhash, hne, hdigits, hle⟩
    have hsplit : splitOnce pieceKeySeparator (infoHash ++ pieceKeySeparator ++ index) =
        some (infoHash, index) := splitOnce_append _ _ (hex_text hhash.digits).1
    unfold isValidPieceKey
    rw [hsplit]
    simp only [and_eq_true, or_eq_true, beq_iff_eq, not_eq_true',
      isEmpty_eq_false_iff]
    rw [(hex_text hhash.digits).2]
    exact ⟨⟨⟨⟨hhash.length, hhash.digits⟩, hne⟩, hdigits⟩, (hparse hdigits hne).mpr hle⟩

lemma parts_of_key {infoHash index : Str} (hhash : IsInfoHash infoHash) (hne : index ≠ [])
    (hdigits : index.all isAsciiDigit = true) (hle : digitsValue index ≤ i32Max) :
    let key := infoHash ++ pieceKeySeparator ++ index
    pieceKeyInfoHash key = infoHash ∧ pieceKeyIndex key = index ∧
      extractPieceIndex key = digitsValue index ∧
      splitPieceKey key = some (infoHash, (digitsValue index : ℤ)) := by
  intro key
  have hsplit : splitOnce pieceKeySeparator key = some (infoHash, index) :=
    splitOnce_append _ _ (hex_text hhash.digits).1
  have hcolon : ':' ∉ index := by
    intro hmem
    have hdigit := List.all_eq_true.mp hdigits _ hmem
    exact absurd hdigit (by decide)
  have hparse : parseSigned i32Max index = some (digitsValue index : ℤ) := by
    rw [parseSigned_of_digits hdigits, parseDigits, if_pos ⟨hne, hdigits, hle⟩]
    rfl
  have hlast : key.rtakeWhile (· ≠ ':') = index := by
    have hkey : key = (infoHash ++ ":piece".toList) ++ ':' :: index := by
      rw [append_assoc]
      exact append_assoc _ _ _
    rw [hkey]
    exact rtakeWhile_append_cons _ hcolon
  have hparts : key.splitOn ':' = [infoHash, "piece".toList, index] := by
    have hkey : key = infoHash ++ ':' :: ("piece".toList ++ ':' :: index) :=
      append_assoc _ _ _
    rw [hkey, splitOn_append_cons (hex_text hhash.digits).1, splitOn_append_cons (by decide),
      splitOn_of_notMem hcolon]
  refine ⟨?_, ?_, ?_, ?_⟩
  · rw [pieceKeyInfoHash, hsplit]
    rfl
  · rw [pieceKeyIndex, hsplit]
    rfl
  · rw [extractPieceIndex, hlast, hparse]
    rfl
  · rw [splitPieceKey, hparts]
    simp only [if_true, hparse, map_some]

/-! ### Accepted and built keys -/

lemma pieceKey_natCast (infoHash : Str) (n : ℕ) :
    pieceKey infoHash n = infoHash ++ pieceKeySeparator ++ decimal n := by
  rw [pieceKey, toString_natCast]

lemma builtKey_iff (key : Str) :
    BuiltKey key ↔ isValidPieceKey key = true ∧ Plain (pieceKeyIndex key) := by
  constructor
  · rintro ⟨infoHash, index, hhash, hnonneg, hle, rfl⟩
    obtain ⟨n, rfl⟩ := Int.eq_ofNat_of_zero_le hnonneg
    have hn : digitsValue (decimal n) ≤ i32Max := by
      rw [digitsValue_decimal]
      exact_mod_cast hle
    rw [pieceKey_natCast]
    obtain ⟨-, hindex, -⟩ := parts_of_key hhash (decimal_ne_nil n) (all_isAsciiDigit_decimal n) hn
    refine ⟨isValidPieceKey_iff.mpr ⟨infoHash, decimal n, rfl, hhash, decimal_ne_nil n,
      all_isAsciiDigit_decimal n, hn⟩, ?_⟩
    rw [hindex]
    exact plain_decimal n
  · rintro ⟨hvalid, hplain⟩
    obtain ⟨infoHash, index, rfl, hhash, hne, hdigits, hle⟩ := isValidPieceKey_iff.mp hvalid
    obtain ⟨-, hindex, -⟩ := parts_of_key hhash hne hdigits hle
    rw [hindex] at hplain
    refine ⟨infoHash, digitsValue index, hhash, Int.natCast_nonneg _, by exact_mod_cast hle, ?_⟩
    rw [pieceKey_natCast, decimal_digitsValue hne hdigits hplain]

lemma rebuildKey_eq_iff {key : Str} (h : isValidPieceKey key = true) :
    splitPieceKey key = some (pieceKeyInfoHash key, extractPieceIndex key) ∧
      (rebuildKey key = some key ↔ Plain (pieceKeyIndex key)) := by
  obtain ⟨infoHash, index, rfl, hhash, hne, hdigits, hle⟩ := isValidPieceKey_iff.mp h
  obtain ⟨hpartHash, hpartIndex, hextract, hsplit⟩ := parts_of_key hhash hne hdigits hle
  refine ⟨by rw [hsplit, hpartHash, hextract], ?_⟩
  rw [rebuildKey, hsplit, map_some, hpartIndex, pieceKey_natCast, Option.some.injEq,
    append_cancel_left_eq]
  constructor
  · intro heq
    exact heq ▸ plain_decimal _
  · exact decimal_digitsValue hne hdigits

/-- For every string: acceptance and construction agree on it exactly if it is no accepted key
with a leading zero in the index. The functions that split an accepted key agree, the parts give
back the key exactly if its index has no leading zero, and two such keys never name the same
piece. -/
theorem accepted_iff_built (key : Str) : ((isValidPieceKey key = true ↔ BuiltKey key) ↔
      (isValidPieceKey key = true → Plain (pieceKeyIndex key))) ∧ (isValidPieceKey key = true →
      splitPieceKey key = some (pieceKeyInfoHash key, extractPieceIndex key) ∧
        (rebuildKey key = some key ↔ Plain (pieceKeyIndex key))) ∧
    ∀ key', isValidPieceKey key = true → isValidPieceKey key' = true →
      Plain (pieceKeyIndex key) → Plain (pieceKeyIndex key') →
      splitPieceKey key = splitPieceKey key' → key = key' := by
  refine ⟨?_, rebuildKey_eq_iff, ?_⟩
  · rw [builtKey_iff]
    exact ⟨fun h hvalid => (h.mp hvalid).2, fun h => ⟨fun hvalid => ⟨hvalid, h hvalid⟩, And.left⟩⟩
  · intro key' hvalid hvalid' hplain hplain' hsame
    have hkey := (rebuildKey_eq_iff hvalid).2.mpr hplain
    have hkey' := (rebuildKey_eq_iff hvalid').2.mpr hplain'
    rw [rebuildKey, hsame] at hkey
    exact Option.some.inj (hkey.symm.trans hkey')

def paddedKey : Str := sampleHash ++ pieceKeySeparator ++ "00".toList

/-- A key with a leading zero is accepted. It is built by no call, its parts give another key, and
both keys name the same piece. -/
theorem accepted_with_leading_zero : isValidPieceKey paddedKey = true ∧ ¬ BuiltKey paddedKey ∧
      rebuildKey paddedKey = some sampleKey ∧ paddedKey ≠ sampleKey ∧
      isValidPieceKey sampleKey = true ∧ splitPieceKey paddedKey = splitPieceKey sampleKey := by
  refine ⟨by decide +kernel, ?_, by decide +kernel, by decide +kernel, by decide +kernel,
    by decide +kernel⟩
  rw [builtKey_iff]
  decide +kernel

end TorrentFs.Cache
