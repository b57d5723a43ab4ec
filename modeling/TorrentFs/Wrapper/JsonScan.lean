import TorrentFs.Lib.Json

/-!
# The JSON scanner of the wrapper

The wrapper reads JSON with a scanner of its own. A pointer into the text is the list of the
bytes that are left, without the terminating zero: `*p` is zero exactly at the end of the list.
-/

namespace TorrentFs.Wrapper

open Json List Bool

def isSpace (b : UInt8) : Bool := b = 0x20 || (0x09 ≤ b && b ≤ 0x0D)

def skipJsonWs (p : Bytes) : Bytes := p.dropWhile isSpace

def hexValue (b : UInt8) : Option ℕ :=
  if isDigit b then some (b.toNat - 48)
  else if 0x61 ≤ b && b ≤ 0x66 then some (b.toNat - 0x61 + 10)
  else if 0x41 ≤ b && b ≤ 0x46 then some (b.toNat - 0x41 + 10)
  else none

def readHex (acc : ℕ) : Bytes → ℕ
  | [] => acc
  | b :: bs =>
    match hexValue b with
    | none => acc
    | some d => readHex (acc * 16 + d) bs

/-- `strtoul(hex, nullptr, 16)`, cast to 32 bits: white space, a sign and `0x` may come first. -/
def strtoulHex (hex : Bytes) : ℕ :=
  let p := hex.dropWhile isSpace
  let negative := p.head? = some (byte '-')
  let p := if negative || p.head? = some (byte '+') then p.tail else p
  let p := match p with
    | z :: x :: d :: rest =>
      if z = byte '0' && (x = byte 'x' || x = byte 'X') && (hexValue d).isSome then d :: rest
      else p
    | _ => p
  let n := readHex 0 p
  (if negative then 2 ^ 64 - n else n) % 2 ^ 32

def encodeCodePoint (cp : ℕ) : Bytes :=
  if cp < 0x80 then [UInt8.ofNat cp]
  else if cp < 0x800 then [UInt8.ofNat (0xC0 ||| (cp >>> 6)), UInt8.ofNat (0x80 ||| (cp &&& 0x3F))]
  else [UInt8.ofNat (0xE0 ||| (cp >>> 12)), UInt8.ofNat (0x80 ||| ((cp >>> 6) &&& 0x3F)),
    UInt8.ofNat (0x80 ||| (cp &&& 0x3F))]

def unescape (c : UInt8) : UInt8 :=
  if c = byte 'n' then 0x0A
  else if c = byte 't' then 0x09
  else if c = byte 'r' then 0x0D
  else if c = byte 'b' then 0x08
  else if c = byte 'f' then 0x0C
  else c

def parseStringLoop (result : Bytes) : Bytes → Bytes × Bytes
  | [] => (result, [])
  | b :: rest =>
    if b = byte '"' then (result, rest)
    else if b = byte '\\' then
      match rest with
      -- a backslash at the very end is an ordinary byte
      | [] => (result ++ [b], [])
      | c :: rest =>
        if c = byte 'u' then
          match rest with
          | h₁ :: h₂ :: h₃ :: h₄ :: rest =>
            parseStringLoop (result ++ encodeCodePoint (strtoulHex [h₁, h₂, h₃, h₄])) rest
          -- fewer than four bytes follow: only the letter is skipped
          | rest => parseStringLoop result rest
        else parseStringLoop (result ++ [unescape c]) rest
    else parseStringLoop (result ++ [b]) rest

def parseJsonString (p : Bytes) : Bytes × Bytes := parseStringLoop [] p.tail

def parseDigits (val : ℤ) : Bytes → ℤ × Bytes
  | [] => (val, [])
  | b :: rest =>
    if isDigit b then parseDigits ((val * 10 + ((b.toNat - 48 : ℕ) : ℤ)).bmod (2 ^ 64)) rest
    else (val, b :: rest)

def parseJsonInt (p : Bytes) : ℤ × Bytes :=
  if p.head? = some (byte '-') then ((-(parseDigits 0 p.tail).1).bmod (2 ^ 64),
    (parseDigits 0 p.tail).2)
  else parseDigits 0 p

/-! ### Strings -/

lemma strtoulHex_control (b : UInt8) (h : b < 0x20) :
    encodeCodePoint (strtoulHex [byte '0', byte '0', hexDigit (b.toNat / 16),
      hexDigit (b.toNat % 16)]) = [b] := by
  refine forall_byte_lt 32 b (UInt8.lt_iff_toNat_lt.mp h) ?_
  decide

lemma parseStringLoop_quote (result rest : Bytes) :
    parseStringLoop result (byte '"' :: rest) = (result, rest) := by
  rw [parseStringLoop.eq_def]
  exact if_pos rfl

lemma parseStringLoop_plain {b : UInt8} (hquote : b ≠ byte '"') (hback : b ≠ byte '\\')
    (result rest : Bytes) :
    parseStringLoop result (b :: rest) = parseStringLoop (result ++ [b]) rest := by
  rw [parseStringLoop.eq_def]
  simp only [if_neg hquote, if_neg hback]

lemma parseStringLoop_escape {c : UInt8} (hc : c ≠ byte 'u') (result rest : Bytes) :
    parseStringLoop result (byte '\\' :: c :: rest) =
      parseStringLoop (result ++ [unescape c]) rest := by
  have hquote : byte '\\' ≠ byte '"' := by decide
  rw [parseStringLoop.eq_def]
  simp only [if_neg hquote, if_true, if_neg hc]

lemma parseStringLoop_escapeByte (b : UInt8) (result rest : Bytes) :
    parseStringLoop result (escapeByte b ++ rest) = parseStringLoop (result ++ [b]) rest := by
  unfold escapeByte
  split_ifs with h₁ h₂ h₃ h₄ h₅ h₆ h₇ h₈
  · rw [h₁]
    exact parseStringLoop_escape (by decide) result rest
  · rw [h₂]
    exact parseStringLoop_escape (by decide) result rest
  · rw [h₃]
    exact parseStringLoop_escape (by decide) result rest
  · rw [h₄]
    exact parseStringLoop_escape (by decide) result rest
  · rw [h₅]
    exact parseStringLoop_escape (by decide) result rest
  · rw [h₆]
    exact parseStringLoop_escape (by decide) result rest
  · rw [h₇]
    exact parseStringLoop_escape (by decide) result rest
  · rw [← strtoulHex_control b h₈]
    rfl
  · exact parseStringLoop_plain h₁ h₂ result rest

lemma parseStringLoop_flatMap (s result rest : Bytes) :
    parseStringLoop result (s.flatMap escapeByte ++ byte '"' :: rest) = (result ++ s, rest) := by
  induction s generalizing result with
  | nil => rw [flatMap_nil, nil_append, append_nil, parseStringLoop_quote]
  | cons b s ih =>
    rw [flatMap_cons, append_assoc, parseStringLoop_escapeByte, ih,
      append_assoc, singleton_append]

lemma parseJsonString_strText (s rest : Bytes) :
    parseJsonString (strText s ++ rest) = (s, rest) := by
  have htail : (strText s ++ rest).tail = s.flatMap escapeByte ++ byte '"' :: rest := by
    simp [strText]
  rw [parseJsonString, htail, parseStringLoop_flatMap, nil_append]

/-! ### Numbers -/

def NoDigitHead (p : Bytes) : Prop := ∀ b ∈ p.head?, isDigit b = false

variable {p : Bytes}

lemma parseDigits_of_noDigitHead (h : NoDigitHead p) (val : ℤ) : parseDigits val p = (val, p) := by
  cases p with
  | nil => rfl
  | cons b rest => rw [parseDigits, if_neg (by simp [h b rfl])]

lemma parseDigits_append {ds : Bytes} (hds : ∀ b ∈ ds, isDigit b = true) (hp : NoDigitHead p)
    {val : ℤ} {n : ℕ} (hval : val.bmod (2 ^ 32) = (n : ℤ).bmod (2 ^ 32)) :
    (parseDigits val (ds ++ p)).2 = p ∧ (parseDigits val (ds ++ p)).1.bmod (2 ^ 32) =
      ((ds.foldl (fun v b => 10 * v + (b.toNat - 48)) n : ℕ) : ℤ).bmod (2 ^ 32) := by
  induction ds generalizing val n with
  | nil =>
    rw [nil_append, parseDigits_of_noDigitHead hp]
    exact ⟨rfl, hval⟩
  | cons b ds ih =>
    rw [cons_append, parseDigits, if_pos (hds b (.head _)), foldl_cons]
    apply ih fun c hc => hds c (.tail _ hc)
    rw [Int.bmod_bmod_of_dvd (by decide), ← Int.bmod_add_bmod, ← Int.bmod_mul_bmod, hval,
      Int.bmod_mul_bmod, Int.bmod_add_bmod]
    push_cast
    rw [mul_comm]

lemma parseDigits_natText (n : ℕ) (hp : NoDigitHead p) : (parseDigits 0 (natText n ++ p)).2 = p ∧
      (parseDigits 0 (natText n ++ p)).1.bmod (2 ^ 32) = (n : ℤ).bmod (2 ^ 32) := by
  have hzero : (0 : ℤ).bmod (2 ^ 32) = ((0 : ℕ) : ℤ).bmod (2 ^ 32) := rfl
  have h := parseDigits_append (fun b (hb : b ∈ natText n) => isDigit_of_mem_natText hb) hp hzero
  rwa [foldl_natText] at h

lemma head_natText_ne_minus (n : ℕ) (p : Bytes) : (natText n ++ p).head? ≠ some (byte '-') := by
  intro h
  cases htext : natText n with
  | nil => exact natText_ne_nil n htext
  | cons b rest =>
    rw [htext] at h
    have hdigit := isDigit_of_mem_natText (n := n) (htext ▸ mem_cons_self)
    cases h
    revert hdigit
    decide

lemma parseJsonInt_signed (negative : Bool) (n : ℕ) (hp : NoDigitHead p) :
    let r := parseJsonInt ((if negative then [byte '-'] else []) ++ (natText n ++ p))
    r.2 = p ∧ r.1.bmod (2 ^ 32) = (if negative then -(n : ℤ) else n).bmod (2 ^ 32) := by
  obtain ⟨hrest, hval⟩ := parseDigits_natText n hp
  cases negative with
  | false =>
    simp only [false_eq_true, if_false, nil_append]
    rw [parseJsonInt, if_neg (head_natText_ne_minus n p)]
    exact ⟨hrest, hval⟩
  | true =>
    simp only [if_true, singleton_append]
    rw [parseJsonInt, if_pos head?_cons]
    refine ⟨hrest, ?_⟩
    rw [Int.bmod_bmod_of_dvd (by decide), tail_cons, ← Int.bmod_neg_bmod, hval,
      Int.bmod_neg_bmod]

lemma parseJsonInt_intText (z : ℤ) (hp : NoDigitHead p) : (parseJsonInt (intText z ++ p)).2 = p ∧
      (parseJsonInt (intText z ++ p)).1.bmod (2 ^ 32) = z.bmod (2 ^ 32) := by
  rw [intText]
  by_cases hz : z < 0
  · have habs : -(z.natAbs : ℤ) = z := by omega
    have h := parseJsonInt_signed true z.natAbs hp
    rw [if_pos hz]
    simp only [if_true, habs] at h
    exact h
  · have habs : (z.natAbs : ℤ) = z := by omega
    have h := parseJsonInt_signed false z.natAbs hp
    rw [if_neg hz]
    simp only [false_eq_true, if_false, habs] at h
    exact h

lemma parseJsonInt_float (f : Json.Float) (p : Bytes) :
    (parseJsonInt (f.text ++ p)).2 = f.tailText ++ p ∧
      (parseJsonInt (f.text ++ p)).1.bmod (2 ^ 32) = f.integerPart.bmod (2 ^ 32) := by
  have hp : NoDigitHead (f.tailText ++ p) := by
    obtain ⟨b, rest, htail, hb⟩ := f.tailText_eq_cons
    intro c hc
    rw [htail] at hc
    cases hc
    rcases hb with rfl | rfl <;> rfl
  have h := parseJsonInt_signed f.negative f.whole hp
  rw [Decimal.text, append_assoc, append_assoc]
  exact h

/-! ### The first byte of a value -/

def startsNumber (b : UInt8) : Bool := b = byte '-' || isDigit b

lemma startsNumber_not_other {b : UInt8} (h : startsNumber b = true) :
    b ≠ byte '"' ∧ (b = byte 't' || b = byte 'f') = false ∧ isSpace b = false := by
  simp only [startsNumber, isDigit, or_eq_true, and_eq_true, decide_eq_true_eq] at h
  rcases h with rfl | ⟨hlow, hhigh⟩
  · decide
  · have hlow' : 48 ≤ b.toNat := UInt8.le_iff_toNat_le.mp hlow
    have hhigh' : b.toNat ≤ 57 := UInt8.le_iff_toNat_le.mp hhigh
    have hne : ∀ c : UInt8, c.toNat < 48 ∨ 57 < c.toNat → b ≠ c := by
      rintro c hc rfl
      omega
    refine ⟨hne _ (by decide), ?_, ?_⟩
    · rw [decide_eq_false (hne _ (by decide)), decide_eq_false (hne _ (by decide)), Bool.or_false]
    · have hspace : ¬ b ≤ 0x0D := fun h => by
        have := UInt8.le_iff_toNat_le.mp h
        exact absurd (hlow'.trans this) (by decide)
      rw [isSpace, decide_eq_false (hne _ (by decide)), decide_eq_false hspace, Bool.and_false,
        Bool.or_false]

lemma headD_signed (negative : Bool) (n : ℕ) (p : Bytes) :
    startsNumber (((if negative then [byte '-'] else []) ++ (natText n ++ p)).headD 0) = true := by
  cases negative with
  | true => rfl
  | false =>
    cases htext : natText n with
    | nil => exact absurd htext (natText_ne_nil n)
    | cons b rest =>
      have hdigit := isDigit_of_mem_natText (n := n) (htext ▸ mem_cons_self)
      simp [startsNumber, hdigit]

lemma head_intText (z : ℤ) (p : Bytes) : startsNumber ((intText z ++ p).headD 0) = true := by
  rw [intText]
  split_ifs
  · exact headD_signed true z.natAbs p
  · exact headD_signed false z.natAbs p

lemma head_float (f : Json.Float) (p : Bytes) : startsNumber ((f.text ++ p).headD 0) = true := by
  rw [Decimal.text, append_assoc, append_assoc]
  exact headD_signed f.negative f.whole (f.tailText ++ p)

lemma skipJsonWs_value (v : Value) (p : Bytes) : skipJsonWs (v.text ++ p) = v.text ++ p := by
  have hhead : ∀ q : Bytes, isSpace (q.headD 0) = false → skipJsonWs q = q := by
    intro q hq
    cases q with
    | nil => rfl
    | cons b rest => exact dropWhile_cons_of_neg (by simpa using hq)
  apply hhead
  cases v with
  | str s => rfl
  | int z => exact (startsNumber_not_other (head_intText z p)).2.2
  | float f => exact (startsNumber_not_other (head_float f p)).2.2
  | bool b => cases b <;> rfl

/-! ### The scanner moves forward -/

lemma length_skipJsonWs_le (p : Bytes) : (skipJsonWs p).length ≤ p.length :=
  (dropWhile_suffix _).length_le

lemma length_parseStringLoop_le (result p : Bytes) :
    (parseStringLoop result p).2.length ≤ p.length := by
  fun_induction parseStringLoop result p <;> simp_all <;> omega

lemma length_parseDigits_le (val : ℤ) (p : Bytes) : (parseDigits val p).2.length ≤ p.length := by
  induction p generalizing val with
  | nil => exact Nat.le_refl _
  | cons b rest ih =>
    rw [parseDigits]
    split
    · exact (ih _).trans (Nat.le_succ _)
    · exact Nat.le_refl _

lemma length_parseJsonInt_le (p : Bytes) : (parseJsonInt p).2.length ≤ p.length := by
  rw [parseJsonInt]
  split
  · exact (length_parseDigits_le _ _).trans (by simp)
  · exact length_parseDigits_le _ _

end TorrentFs.Wrapper
