import TorrentFs.Lib.Bencode
import TorrentFs.Lib.Joined
import TorrentFs.Lib.Text

/-!
# The file list of a pending torrent

While a torrent is being added there are no rows for its files, and `extract_bencode_files` reads
the list from the bytes of the torrent file with a small parser of its own. Its integers are
`u64`; on a value with any other integer, in whatever place, the parser gives up.
-/

namespace TorrentFs.Fuse

open Text Joined List Option Function
open Json (byte isDigit natText intText isDigit_of_mem_natText natText_ne_nil foldl_natText)
open Bencode (Bytes Value encode encodeStr encodeItems encodeEntries)

abbrev BencodeU64 := Value ℕ

namespace BencodeParser

def decimal (digits : Bytes) : ℕ := digits.foldl (fun v b => 10 * v + (b.toNat - 48)) 0

/-- `parse` of a string to a `u64`, or to a `usize`: digits after an optional `+`. Bytes that are
not UTF-8 are not digits either. -/
def parseU64 (bytes : Bytes) : Option ℕ :=
  let digits := if bytes.head? = some (byte '+') then bytes.tail else bytes
  if digits ≠ [] ∧ digits.all isDigit ∧ decimal digits < 2 ^ 64 then some (decimal digits)
  else none

def parseStr (data : Bytes) : Option (Bytes × ℕ) :=
  (data.findIdx? (· == byte ':')).bind fun colon =>
    (parseU64 (data.take colon)).bind fun len =>
      let start := colon + 1
      if start + len < 2 ^ 64 ∧ start + len ≤ data.length then
        some ((data.drop start).take len, start + len)
      else none

def parseInt (data : Bytes) : Option (BencodeU64 × ℕ) :=
  ((data.drop 1).findIdx? (· == byte 'e')).bind fun stop =>
    (parseU64 ((data.drop 1).take stop)).map fun n => (.int n, 1 + stop + 1)

def parseItems (parse : Bytes → Option (BencodeU64 × ℕ)) : ℕ → Bytes → Option (List BencodeU64 × ℕ)
  | 0, _ => none
  | _ + 1, [] => none
  | fuel + 1, b :: data =>
    if b = byte 'e' then some ([], 1)
    else
      (parse (b :: data)).bind fun (item, consumed) =>
        (parseItems parse fuel ((b :: data).drop consumed)).map fun (items, more) =>
          (item :: items, consumed + more)

def parseEntries (parse : Bytes → Option (BencodeU64 × ℕ)) :
    ℕ → Bytes → Option (List (Bytes × BencodeU64) × ℕ)
  | 0, _ => none
  | _ + 1, [] => none
  | fuel + 1, b :: data =>
    if b = byte 'e' then some ([], 1)
    else
      (parseStr (b :: data)).bind fun (key, consumed) =>
        (parse ((b :: data).drop consumed)).bind fun (value, consumed') =>
          (parseEntries parse fuel ((b :: data).drop (consumed + consumed'))).map
            fun (entries, more) => ((key, value) :: entries, consumed + consumed' + more)

def parseFuel : ℕ → Bytes → Option (BencodeU64 × ℕ)
  | 0, _ => none
  | _ + 1, [] => none
  | fuel + 1, b :: data =>
    if b = byte 'd' then
      (parseEntries (parseFuel fuel) fuel data).map fun (entries, consumed) =>
        (.dict entries, 1 + consumed)
    else if b = byte 'l' then
      (parseItems (parseFuel fuel) fuel data).map fun (items, consumed) =>
        (.list items, 1 + consumed)
    else if b = byte 'i' then parseInt (b :: data)
    else if isDigit b then
      (parseStr (b :: data)).map fun (bytes, consumed) => (.str bytes, consumed)
    else none

def parse (data : Bytes) : Option (BencodeU64 × ℕ) := parseFuel data.length data

/-! ### The fuel -/

variable {data bytes : Bytes} {c fuel : ℕ} {b : UInt8}

lemma parseStr_bounds (h : parseStr data = some (bytes, c)) : 0 < c ∧ c ≤ data.length := by
  obtain ⟨colon, -, h⟩ := Option.bind_eq_some_iff.mp h
  obtain ⟨len, -, h⟩ := Option.bind_eq_some_iff.mp h
  dsimp only at h
  split at h
  · next hle =>
    obtain ⟨-, rfl⟩ := Prod.mk.inj (Option.some.inj h)
    exact ⟨by omega, hle.2⟩
  · cases h

lemma parseInt_bounds {v : BencodeU64}
    (h : parseInt data = some (v, c)) : 0 < c ∧ c ≤ data.length := by
  obtain ⟨stop, hstop, h⟩ := Option.bind_eq_some_iff.mp h
  obtain ⟨n, -, h⟩ := Option.map_eq_some_iff.mp h
  obtain ⟨-, rfl⟩ := Prod.mk.inj h
  have hlt := (List.findIdx?_eq_some_iff_getElem.mp hstop).1
  rw [length_drop] at hlt
  exact ⟨by omega, by omega⟩

/-- A parser of values that `parse'` agrees with on values of at most `n` bytes. -/
structure Refined (n : ℕ) (parse parse' : Bytes → Option (BencodeU64 × ℕ)) : Prop where
  bounds : ∀ data v c, parse data = some (v, c) → 0 < c ∧ c ≤ data.length
  agree : ∀ data v c, parse data = some (v, c) → c ≤ n → parse' data = some (v, c)

variable {n : ℕ} {parse₁ parse₂ : Bytes → Option (BencodeU64 × ℕ)}

lemma Refined.parseItems (h : Refined n parse₁ parse₂)
    {items : List BencodeU64} (hparse : parseItems parse₁ fuel data = some (items, c)) :
    (0 < c ∧ c ≤ data.length) ∧
      ∀ fuel', c ≤ fuel' → c ≤ n →
        BencodeParser.parseItems parse₂ fuel' data = some (items, c) := by
  induction fuel generalizing data items c with
  | zero => cases hparse
  | succ fuel ih =>
    cases data with
    | nil => cases hparse
    | cons b data =>
      rw [BencodeParser.parseItems] at hparse
      split at hparse
      · next hend =>
        cases hparse
        refine ⟨⟨one_pos, by simp⟩, fun fuel' hfuel' _ => ?_⟩
        obtain ⟨m, rfl⟩ := Nat.exists_eq_add_of_le' hfuel'
        rw [BencodeParser.parseItems, if_pos hend]
      · next hend =>
        obtain ⟨⟨item, k⟩, hitem, hparse⟩ := Option.bind_eq_some_iff.mp hparse
        obtain ⟨⟨more, l⟩, hmore, heq⟩ := Option.map_eq_some_iff.mp hparse
        cases heq
        obtain ⟨hk, hkle⟩ := h.bounds _ _ _ hitem
        obtain ⟨⟨hl, hlle⟩, hagree⟩ := ih hmore
        rw [length_drop] at hlle
        refine ⟨⟨by omega, by omega⟩, fun fuel' hfuel' hn => ?_⟩
        obtain ⟨m, rfl⟩ := Nat.exists_eq_add_of_le' (show 1 ≤ fuel' by omega)
        rw [BencodeParser.parseItems, if_neg hend,
          h.agree _ _ _ hitem (by omega), bind_some]
        dsimp only
        rw [hagree m (by omega) (by omega), map_some]

lemma Refined.parseEntries (h : Refined n parse₁ parse₂) {entries : List (Bytes × BencodeU64)}
    (hparse : parseEntries parse₁ fuel data = some (entries, c)) : (0 < c ∧ c ≤ data.length) ∧
      ∀ fuel', c ≤ fuel' → c ≤ n →
        BencodeParser.parseEntries parse₂ fuel' data = some (entries, c) := by
  induction fuel generalizing data entries c with
  | zero => cases hparse
  | succ fuel ih =>
    cases data with
    | nil => cases hparse
    | cons b data =>
      rw [BencodeParser.parseEntries] at hparse
      split at hparse
      · next hend =>
        cases hparse
        refine ⟨⟨one_pos, by simp⟩, fun fuel' hfuel' _ => ?_⟩
        obtain ⟨m, rfl⟩ := Nat.exists_eq_add_of_le' hfuel'
        rw [BencodeParser.parseEntries, if_pos hend]
      · next hend =>
        obtain ⟨⟨key, j⟩, hkey, hparse⟩ := Option.bind_eq_some_iff.mp hparse
        obtain ⟨⟨value, k⟩, hvalue, hparse⟩ := Option.bind_eq_some_iff.mp hparse
        obtain ⟨⟨more, l⟩, hmore, heq⟩ := Option.map_eq_some_iff.mp hparse
        cases heq
        obtain ⟨hj, hjle⟩ := parseStr_bounds hkey
        obtain ⟨hk, hkle⟩ := h.bounds _ _ _ hvalue
        obtain ⟨⟨hl, hlle⟩, hagree⟩ := ih hmore
        rw [length_drop] at hlle hkle
        refine ⟨⟨by omega, by omega⟩, fun fuel' hfuel' hn => ?_⟩
        obtain ⟨m, rfl⟩ := Nat.exists_eq_add_of_le' (show 1 ≤ fuel' by omega)
        rw [BencodeParser.parseEntries, if_neg hend, hkey, bind_some]
        dsimp only
        rw [h.agree _ _ _ hvalue (by omega), bind_some]
        rw [hagree m (by omega) (by omega), map_some]

lemma refined_parseFuel (fuel n : ℕ) : Refined n (parseFuel fuel) (parseFuel n) := by
  induction fuel generalizing n with
  | zero => exact ⟨fun _ _ _ h => (by cases h), fun _ _ _ h => (by cases h)⟩
  | succ fuel ih =>
    suffices hboth : ∀ data v c, parseFuel (fuel + 1) data = some (v, c) →
        (0 < c ∧ c ≤ data.length) ∧ (c ≤ n → parseFuel n data = some (v, c)) from
      ⟨fun data v c h => (hboth data v c h).1, fun data v c h => (hboth data v c h).2⟩
    intro data v c h
    cases data with
    | nil => cases h
    | cons b data =>
      have hrefined := ih (n - 1)
      rw [parseFuel] at h
      split at h
      · next hd =>
        obtain ⟨⟨entries, k⟩, hentries, heq⟩ := Option.map_eq_some_iff.mp h
        cases heq
        obtain ⟨⟨hk, hkle⟩, hagree⟩ := hrefined.parseEntries hentries
        refine ⟨⟨by omega, by rw [length_cons]; omega⟩, fun hn => ?_⟩
        obtain ⟨m, rfl⟩ := Nat.exists_eq_add_of_le' (show 1 ≤ n by omega)
        rw [parseFuel, if_pos hd]
        rw [Nat.add_sub_cancel] at hagree
        rw [hagree m (by omega) (by omega), map_some]
      · next hd =>
        split at h
        · next hl =>
          obtain ⟨⟨items, k⟩, hitems, heq⟩ := Option.map_eq_some_iff.mp h
          cases heq
          obtain ⟨⟨hk, hkle⟩, hagree⟩ := hrefined.parseItems hitems
          refine ⟨⟨by omega, by rw [length_cons]; omega⟩, fun hn => ?_⟩
          obtain ⟨m, rfl⟩ := Nat.exists_eq_add_of_le' (show 1 ≤ n by omega)
          rw [parseFuel, if_neg hd, if_pos hl]
          rw [Nat.add_sub_cancel] at hagree
          rw [hagree m (by omega) (by omega), map_some]
        · next hl =>
          -- integers and strings take no fuel
          have hbounds : 0 < c ∧ c ≤ (b :: data).length := by
            split at h
            · exact parseInt_bounds h
            · split at h
              · obtain ⟨⟨bytes, k⟩, hbytes, heq⟩ := Option.map_eq_some_iff.mp h
                obtain ⟨-, rfl⟩ := Prod.mk.inj heq
                exact parseStr_bounds hbytes
              · cases h
          refine ⟨hbounds, fun hn => ?_⟩
          obtain ⟨m, rfl⟩ := Nat.exists_eq_add_of_le' (show 1 ≤ n by omega)
          rw [parseFuel, if_neg hd, if_neg hl]
          exact h

lemma parse_eq_some_iff {v : BencodeU64} :
    parse data = some (v, c) ↔ ∃ fuel, parseFuel fuel data = some (v, c) := by
  refine ⟨fun h => ⟨_, h⟩, fun ⟨fuel, h⟩ => ?_⟩
  have hrefined := refined_parseFuel fuel data.length
  exact hrefined.agree _ _ _ h (hrefined.bounds _ _ _ h).2

/-! ### Reading an encoded value -/

def u64Of (z : ℤ) : Option ℕ := if 0 ≤ z ∧ z < 2 ^ 64 then some z.toNat else none

lemma eq_of_u64Of_natCast {n k : ℕ} (h : u64Of n = some k) : k = n := by
  unfold u64Of at h
  split at h
  · rw [← Option.some.inj h, Int.toNat_natCast]
  · cases h

lemma isSome_u64Of {z : ℤ} : (u64Of z).isSome = true ↔ 0 ≤ z ∧ z < 2 ^ 64 := by
  unfold u64Of
  split <;> simp_all

lemma findIdx?_append_cons {p : UInt8 → Bool} {l rest : Bytes}
    (hl : ∀ c ∈ l, p c = false) (hb : p b = true) :
    (l ++ b :: rest).findIdx? p = some l.length := by
  rw [findIdx?_append, List.findIdx?_eq_none_iff.mpr hl, findIdx?_cons, if_pos hb]
  simp

lemma ne_of_mem_natText {n : ℕ} {c : UInt8} (hb : b ∈ natText n) (hc : isDigit c = false) :
    b ≠ c := by
  rintro rfl
  rw [isDigit_of_mem_natText hb] at hc
  cases hc

lemma parseU64_natText (n : ℕ) : parseU64 (natText n) = if n < 2 ^ 64 then some n else none := by
  have hhead : (natText n).head? ≠ some (byte '+') := fun h =>
    ne_of_mem_natText (mem_of_head? h) (by decide) rfl
  have hdecimal : decimal (natText n) = n := foldl_natText n
  have hdigits : (natText n).all isDigit = true :=
    List.all_eq_true.mpr fun b hb => isDigit_of_mem_natText hb
  unfold parseU64
  simp only [if_neg hhead, hdecimal, hdigits, natText_ne_nil, ne_eq, not_false_eq_true, true_and]

lemma parseU64_intText (z : ℤ) : parseU64 (intText z) = u64Of z := by
  unfold intText u64Of
  split
  · next hneg =>
    rw [if_neg (by omega)]
    unfold parseU64
    rw [head?_cons, if_neg (show some (byte '-') ≠ some (byte '+') by decide)]
    refine if_neg fun h => ?_
    -- the sign is not a digit
    exact absurd (List.all_eq_true.mp h.2.1 (byte '-') mem_cons_self) (by decide)
  · next hnonneg =>
    rw [parseU64_natText]
    have hlt : z.natAbs < 2 ^ 64 ↔ 0 ≤ z ∧ z < 2 ^ 64 := by omega
    rw [if_congr hlt rfl rfl, show z.natAbs = z.toNat by omega]

lemma ne_of_mem_intText {z : ℤ} (h : b ∈ intText z) : b ≠ byte 'e' := by
  unfold intText at h
  split at h
  · rcases List.mem_cons.mp h with rfl | h
    · decide
    · exact ne_of_mem_natText h (by decide)
  · exact ne_of_mem_natText h (by decide)

lemma parseInt_encode (z : ℤ) (rest : Bytes) : parseInt (encode (.int z) ++ rest) =
      (u64Of z).map fun n => (.int n, (encode (.int z)).length) := by
  have hdrop : (encode (.int z) ++ rest).drop 1 = intText z ++ byte 'e' :: rest := by
    simp [encode]
  have hstop : (intText z ++ byte 'e' :: rest).findIdx? (· == byte 'e') =
      some (intText z).length :=
    findIdx?_append_cons (fun b hb => by simpa using ne_of_mem_intText hb) (by simp)
  rw [parseInt, hdrop, hstop, bind_some, take_left, parseU64_intText]
  have hlen : (encode (.int z)).length = 1 + (intText z).length + 1 := by
    simp [encode]
    omega
  rw [hlen]

lemma parseStr_encodeStr (rest : Bytes) (h : (encodeStr bytes).length < 2 ^ 64) :
    parseStr (encodeStr bytes ++ rest) = some (bytes, (encodeStr bytes).length) := by
  have hlen : (encodeStr bytes).length = (natText bytes.length).length + 1 + bytes.length := by
    simp [encodeStr]
    omega
  have hdata : encodeStr bytes ++ rest = natText bytes.length ++ byte ':' :: (bytes ++ rest) := by
    simp [encodeStr]
  have hcolon : (natText bytes.length ++ byte ':' :: (bytes ++ rest)).findIdx? (· == byte ':') =
      some (natText bytes.length).length :=
    findIdx?_append_cons (fun b hb => by simpa using ne_of_mem_natText hb (by decide)) (by simp)
  have hdrop : (natText bytes.length ++ byte ':' :: (bytes ++ rest)).drop
      ((natText bytes.length).length + 1) = bytes ++ rest := by
    rw [drop_append, drop_eq_nil_of_le (by omega)]
    simp
  rw [parseStr, hdata, hcolon, bind_some, take_left, parseU64_natText,
    if_pos (by omega), bind_some]
  have hfits : (natText bytes.length).length + 1 + bytes.length ≤
      (natText bytes.length ++ byte ':' :: (bytes ++ rest)).length := by
    simp only [length_append, length_cons]
    omega
  rw [if_pos ⟨by omega, hfits⟩, hdrop, take_left, hlen]

lemma exists_encodeStr_eq_cons (bytes : Bytes) :
    ∃ b tail, encodeStr bytes = b :: tail ∧ isDigit b = true := by
  obtain ⟨b, digits, hdigits⟩ := exists_cons_of_ne_nil (natText_ne_nil bytes.length)
  refine ⟨b, digits ++ byte ':' :: bytes, by rw [encodeStr, hdigits, cons_append], ?_⟩
  exact isDigit_of_mem_natText (hdigits ▸ mem_cons_self)

lemma ne_of_isDigit {c : UInt8} (hb : isDigit b = true) (hc : isDigit c = false) : b ≠ c := by
  rintro rfl
  rw [hb] at hc
  cases hc

lemma exists_encode_eq_cons (v : Value ℤ) : ∃ b tail, encode v = b :: tail ∧ b ≠ byte 'e' := by
  cases v with
  | str bytes =>
    obtain ⟨b, tail, heq, hdigit⟩ := exists_encodeStr_eq_cons bytes
    exact ⟨b, tail, by rw [encode, heq], ne_of_isDigit hdigit (by decide)⟩
  | int n => exact ⟨byte 'i', _, by rw [encode], by decide⟩
  | list items => exact ⟨byte 'l', _, by rw [encode], by decide⟩
  | dict entries => exact ⟨byte 'd', _, by rw [encode], by decide⟩

lemma parseFuel_encode_str (rest : Bytes) (h : (encodeStr bytes).length < 2 ^ 64) :
    parseFuel (fuel + 1) (encodeStr bytes ++ rest) =
      some (.str bytes, (encodeStr bytes).length) := by
  have hstr := parseStr_encodeStr rest h
  obtain ⟨b, tail, heq, hdigit⟩ := exists_encodeStr_eq_cons bytes
  rw [heq, cons_append] at hstr ⊢
  rw [parseFuel, if_neg (ne_of_isDigit hdigit (by decide)),
    if_neg (ne_of_isDigit hdigit (by decide)), if_neg (ne_of_isDigit hdigit (by decide)),
    if_pos hdigit, hstr, map_some]

lemma parseItems_encode_append {parse : Bytes → Option (BencodeU64 × ℕ)}
    (v : Value ℤ) (rest : Bytes) : parseItems parse (fuel + 1) (encode v ++ rest) =
      (parse (encode v ++ rest)).bind fun (item, consumed) =>
        (parseItems parse fuel ((encode v ++ rest).drop consumed)).map fun (items, more) =>
          (item :: items, consumed + more) := by
  obtain ⟨b, tail, heq, hne⟩ := exists_encode_eq_cons v
  rw [heq, cons_append, parseItems, if_neg hne]

lemma parseEntries_encodeStr_append {parse : Bytes → Option (BencodeU64 × ℕ)}
    {key : Bytes} (rest : Bytes) (h : (encodeStr key).length < 2 ^ 64) :
    parseEntries parse (fuel + 1) (encodeStr key ++ rest) =
      (parse rest).bind fun (value, consumed) =>
        (parseEntries parse fuel (rest.drop consumed)).map fun (entries, more) =>
          ((key, value) :: entries, (encodeStr key).length + consumed + more) := by
  have hstr := parseStr_encodeStr rest h
  have hdrop : ∀ k, (encodeStr key ++ rest).drop ((encodeStr key).length + k) = rest.drop k := by
    intro k
    rw [← drop_drop, drop_left]
  obtain ⟨b, tail, heq, hdigit⟩ := exists_encodeStr_eq_cons key
  rw [heq, cons_append] at hstr hdrop ⊢
  rw [parseEntries, if_neg (ne_of_isDigit hdigit (by decide)), hstr, bind_some]
  dsimp only
  have hzero := hdrop 0
  rw [Nat.add_zero, drop_zero] at hzero
  rw [hzero]
  simp only [hdrop]

mutual

lemma parseFuel_encode : ∀ (v : Value ℤ) (fuel : ℕ) (rest : Bytes),
    (encode v).length ≤ fuel → (encode v).length < 2 ^ 64 →
    parseFuel fuel (encode v ++ rest) = (v.convert u64Of).map fun w => (w, (encode v).length)
  | v, 0, _, hfuel, _ => absurd (Bencode.length_encode_pos v) (Nat.not_lt_of_le hfuel)
  | .str bytes, fuel + 1, rest, _, hsize => by
      rw [encode] at hsize ⊢
      rw [parseFuel_encode_str rest hsize]
      rfl
  | .int n, fuel + 1, rest, _, _ => by
      have hint := parseInt_encode n rest
      rw [Value.convert, Option.map_map]
      rw [encode, cons_append] at hint ⊢
      rw [parseFuel, if_neg (by decide), if_neg (by decide), if_pos rfl, hint]
      rfl
  | .list items, fuel + 1, rest, hfuel, hsize => by
      have hlen : (encode (.list items)).length = 1 + ((encodeItems items).length + 1) := by
        simp [encode]
        omega
      have hitems := parseItems_encodeItems items fuel fuel rest (by omega) (by omega) (by omega)
      rw [hlen, encode, cons_append, parseFuel, if_neg (by decide), if_pos rfl,
        append_assoc, singleton_append, hitems, Value.convert, Option.map_map,
        Option.map_map]
      rfl
  | .dict entries, fuel + 1, rest, hfuel, hsize => by
      have hlen : (encode (.dict entries)).length = 1 + ((encodeEntries entries).length + 1) := by
        simp [encode]
        omega
      have hentries :=
        parseEntries_encodeEntries entries fuel fuel rest (by omega) (by omega) (by omega)
      rw [hlen, encode, cons_append, parseFuel, if_pos rfl, append_assoc,
        singleton_append, hentries, Value.convert, Option.map_map, Option.map_map]
      rfl

lemma parseItems_encodeItems : ∀ (items : List (Value ℤ)) (n fuel : ℕ) (rest : Bytes),
    (encodeItems items).length ≤ n → (encodeItems items).length + 1 ≤ fuel →
    (encodeItems items).length < 2 ^ 64 →
    parseItems (parseFuel n) fuel (encodeItems items ++ byte 'e' :: rest) =
      (Value.convertItems u64Of items).map fun ws => (ws, (encodeItems items).length + 1)
  | _, _, 0, _, _, hfuel, _ => absurd hfuel (by omega)
  | [], n, fuel + 1, rest, _, _, _ => by
      rw [encodeItems, nil_append, parseItems, if_pos rfl]
      rfl
  | v :: items, n, fuel + 1, rest, hn, hfuel, hsize => by
      have hpos := Bencode.length_encode_pos v
      rw [encodeItems, length_append] at hn hfuel hsize ⊢
      rw [append_assoc, parseItems_encode_append,
        parseFuel_encode v n _ (by omega) (by omega), Value.convertItems]
      cases hv : v.convert u64Of with
      | none => rfl
      | some w =>
        rw [map_some, bind_some, bind_some]
        dsimp only
        rw [drop_left,
          parseItems_encodeItems items n fuel rest (by omega) (by omega) (by omega),
          Option.map_map, Option.map_map]
        simp only [comp_def, Nat.add_assoc]

lemma parseEntries_encodeEntries : ∀ (entries : List (Bytes × Value ℤ)) (n fuel : ℕ)
    (rest : Bytes), (encodeEntries entries).length ≤ n →
    (encodeEntries entries).length + 1 ≤ fuel → (encodeEntries entries).length < 2 ^ 64 →
    parseEntries (parseFuel n) fuel (encodeEntries entries ++ byte 'e' :: rest) =
      (Value.convertEntries u64Of entries).map fun ws => (ws, (encodeEntries entries).length + 1)
  | _, _, 0, _, _, hfuel, _ => absurd hfuel (by omega)
  | [], n, fuel + 1, rest, _, _, _ => by
      rw [encodeEntries, nil_append, parseEntries, if_pos rfl]
      rfl
  | (key, v) :: entries, n, fuel + 1, rest, hn, hfuel, hsize => by
      have hpos := Bencode.length_encode_pos v
      rw [encodeEntries, length_append, length_append] at hn hfuel hsize ⊢
      rw [append_assoc, append_assoc, parseEntries_encodeStr_append _ (by omega),
        parseFuel_encode v n _ (by omega) (by omega), Value.convertEntries]
      cases hv : v.convert u64Of with
      | none => rfl
      | some w =>
        rw [map_some, bind_some, bind_some]
        dsimp only
        rw [drop_left,
          parseEntries_encodeEntries entries n fuel rest (by omega) (by omega) (by omega),
          Option.map_map, Option.map_map]
        simp only [comp_def, Nat.add_assoc]

end

lemma parse_encode {v : Value ℤ} (h : (encode v).length < 2 ^ 64) :
    parse (encode v) = (v.convert u64Of).map fun w => (w, (encode v).length) := by
  have hparse := parseFuel_encode v (encode v).length [] le_rfl h
  rwa [append_nil] at hparse

/-- The encoding of a value of strings, 64-bit integers, lists and dictionaries is read back
whatever follows it, and no value that is read takes nothing or more than there is. -/
theorem parse_encode_append {v : Value ℤ} {w : BencodeU64} (hv : v.convert u64Of = some w)
    (rest : Bytes) (hsize : (encode v ++ rest).length < 2 ^ 64) :
    parse (encode v ++ rest) = some (w, (encode v).length) ∧
      ∀ data w' c, parse data = some (w', c) → 0 < c ∧ c ≤ data.length := by
  refine ⟨parse_eq_some_iff.mpr ⟨(encode v).length, ?_⟩, fun data w' c h => ?_⟩
  · rw [List.length_append] at hsize
    rw [parseFuel_encode v _ rest le_rfl (by omega), hv]
    rfl
  · exact (refined_parseFuel data.length data.length).bounds data w' c h

theorem parse_list_of_end : ∃ w,
    parse (encode (.list [.int 3, .str [byte 'e']]) ++ [byte 'e']) = some (w, 8) :=
  ⟨_, (parse_encode_append (v := .list [.int 3, .str [byte 'e']]) rfl [byte 'e'] (by decide)).1⟩

end BencodeParser

/-! ### The files -/

def utf8 (s : Str) : Bytes := s.flatMap String.utf8EncodeChar

def fromUtf8 (bytes : Bytes) : Option Str :=
  (String.fromUTF8? bytes.toByteArray).map String.toList

lemma fromUtf8_utf8 (s : Str) : fromUtf8 (utf8 s) = some s := by
  have hvalid : (utf8 s).toByteArray.IsValidUTF8 := ⟨s, rfl⟩
  rw [fromUtf8, String.fromUTF8?, dif_pos hvalid, map_some]
  exact congrArg some (String.toList_ofList)

def key (name : String) : Bytes := name.toList.map byte

namespace BencodeU64

def asStr : BencodeU64 → Option Str
  | .str bytes => fromUtf8 bytes
  | _ => none

def getStr (v : BencodeU64) (name : String) : Option Str := (v.get (key name)).bind asStr

def getInt (v : BencodeU64) (name : String) : Option ℕ :=
  match v.get (key name) with
  | some (.int n) => some n
  | _ => none

def getList (v : BencodeU64) (name : String) : Option (List BencodeU64) :=
  match v.get (key name) with
  | some (.list items) => some items
  | _ => none

end BencodeU64

open BencodeU64

structure PendingFile where
  path : Str
  size : ℕ
deriving DecidableEq

def pendingFile (entry : BencodeU64) : Option PendingFile :=
  (getInt entry "length").bind fun length =>
    (getList entry "path").bind fun pathList =>
      (pathList.mapM asStr).map fun parts => ⟨joined '/' parts, length⟩

def extractBencodeName (data : Bytes) : Option Str :=
  (BencodeParser.parse data).bind fun (root, _) =>
    (root.get (key "info")).bind fun info => getStr info "name"

def extractBencodeFiles (data : Bytes) : Option (Str × List PendingFile) :=
  (BencodeParser.parse data).bind fun (root, _) =>
    (root.get (key "info")).bind fun info =>
      (getStr info "name").bind fun name =>
        match getList info "files" with
        | some files => (files.mapM pendingFile).map fun result => (name, result)
        | none => (getInt info "length").map fun length => (name, [⟨name, length⟩])

end TorrentFs.Fuse
