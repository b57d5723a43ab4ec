import Mathlib.Tactic.Linarith
import Mathlib.Tactic.Positivity

/-!
# JSON text

The bytes of flat JSON objects as a standard serializer writes them: no white space, members in
the order of their keys, strings with the short escapes where there is one, floating-point
numbers with a fraction or an exponent.
-/

namespace Json

open List Option

abbrev Bytes := List UInt8

def byte (c : Char) : UInt8 := UInt8.ofNat c.toNat

@[elab_as_elim]
lemma forall_byte_lt {P : UInt8 → Prop} (n : ℕ) (b : UInt8) (hb : b.toNat < n)
    (h : ∀ k < n, P (UInt8.ofNat k)) : P b := by
  have hP := h b.toNat hb
  rwa [UInt8.ofNat_toNat] at hP

def utf8 (s : String) : Bytes := s.toByteArray.data.toList

/-! ### Numbers -/

def isDigit (b : UInt8) : Bool := 48 ≤ b && b ≤ 57

def natText (n : ℕ) : Bytes := (Nat.toDigits 10 n).map byte

def intText (z : ℤ) : Bytes :=
  if z < 0 then byte '-' :: natText z.natAbs else natText z.natAbs

lemma toNat_byte {c : Char} (h : c.isDigit = true) : (byte c).toNat = c.toNat := by
  have hle : c.toNat ≤ 57 := by
    simp only [Char.isDigit, Bool.and_eq_true, decide_eq_true_eq] at h
    exact h.2
  simp [byte]
  omega

lemma isDigit_of_mem_natText {n : ℕ} {b : UInt8} (h : b ∈ natText n) : isDigit b = true := by
  obtain ⟨c, hc, rfl⟩ := List.mem_map.mp h
  have hdigit := Nat.isDigit_of_mem_toDigits (by decide) (by decide) hc
  have hnat := toNat_byte hdigit
  simp only [Char.isDigit, Bool.and_eq_true, decide_eq_true_eq] at hdigit
  have hlow : 48 ≤ c.toNat := hdigit.1
  have hhigh : c.toNat ≤ 57 := hdigit.2
  simp only [isDigit, Bool.and_eq_true, decide_eq_true_eq, UInt8.le_iff_toNat_le, hnat]
  exact ⟨hlow, hhigh⟩

lemma natText_ne_nil (n : ℕ) : natText n ≠ [] := by
  simp [natText, Nat.toDigits_ne_nil]

lemma foldl_natText (n : ℕ) : (natText n).foldl (fun v b => 10 * v + (b.toNat - 48)) 0 = n := by
  have hfold : (natText n).foldl (fun v b => 10 * v + (b.toNat - 48)) 0 =
      Nat.ofDigitChars 10 (Nat.toDigits 10 n) 0 := by
    rw [natText, foldl_map]
    apply foldl_ext
    intro v c hc
    rw [toNat_byte (Nat.isDigit_of_mem_toDigits (by decide) (by decide) hc)]
    rfl
  rw [hfold, Nat.ofDigitChars_toDigits (by decide) (by decide)]

structure Decimal where
  negative : Bool
  whole : ℕ
  fraction : List (Fin 10)
  exponent : Option ℤ
deriving DecidableEq

namespace Decimal

def fractionValue : List (Fin 10) → ℚ
  | [] => 0
  | d :: ds => ((d : ℕ) + fractionValue ds) / 10

def value (d : Decimal) : ℚ :=
  (if d.negative then -1 else 1) * ((d.whole + fractionValue d.fraction) *
    10 ^ (d.exponent.getD 0))

def integerPart (d : Decimal) : ℤ := if d.negative then -d.whole else d.whole

def tailText (d : Decimal) : Bytes :=
  (if d.fraction = [] then []
    else byte '.' :: d.fraction.map fun n : Fin 10 => byte (Nat.digitChar n)) ++
    match d.exponent with
    | none => []
    | some e => byte 'e' :: intText e

def text (d : Decimal) : Bytes :=
  (if d.negative then [byte '-'] else []) ++ natText d.whole ++ d.tailText

lemma fractionValue_nonneg (ds : List (Fin 10)) : 0 ≤ fractionValue ds := by
  induction ds with
  | nil => exact le_refl 0
  | cons d ds ih =>
    rw [fractionValue]
    positivity

lemma fractionValue_lt_one (ds : List (Fin 10)) : fractionValue ds < 1 := by
  induction ds with
  | nil => exact zero_lt_one
  | cons d ds ih =>
    have hd : ((d : ℕ) : ℚ) ≤ 9 := by exact_mod_cast Nat.le_of_lt_succ d.isLt
    rw [fractionValue, div_lt_one (by norm_num)]
    linarith

lemma integerPart_of_exponent_none {d : Decimal} {n : ℤ} (he : d.exponent = none)
    (h : d.value = n) : d.integerPart = n := by
  have hlow := fractionValue_nonneg d.fraction
  have hhigh := fractionValue_lt_one d.fraction
  rw [value, he] at h
  rw [integerPart]
  cases hneg : d.negative with
  | false =>
    simp only [hneg, Bool.false_eq_true, if_false, getD_none, zpow_zero, mul_one,
      one_mul] at h ⊢
    have h₁ : ((d.whole : ℤ) : ℚ) < ((n + 1 : ℤ) : ℚ) := by push_cast; linarith
    have h₂ : ((n : ℤ) : ℚ) < ((d.whole + 1 : ℤ) : ℚ) := by push_cast; linarith
    have h₁' := Int.cast_lt.mp h₁
    have h₂' := Int.cast_lt.mp h₂
    omega
  | true =>
    simp only [hneg, if_true, getD_none, zpow_zero, mul_one] at h ⊢
    have h₁ : ((-d.whole : ℤ) : ℚ) < ((n + 1 : ℤ) : ℚ) := by push_cast; linarith
    have h₂ : ((n : ℤ) : ℚ) < ((-d.whole + 1 : ℤ) : ℚ) := by push_cast; linarith
    have h₁' := Int.cast_lt.mp h₁
    have h₂' := Int.cast_lt.mp h₂
    omega

end Decimal

/-- A finite floating-point number, given by the decimal number a serializer writes for it. It
has a fraction or an exponent; the exponent is used for large and for small numbers only. -/
structure Float extends Decimal where
  hasTail : fraction ≠ [] ∨ exponent ≠ none
  magnitude : exponent ≠ none →
    10 ^ 16 ≤ |toDecimal.value| ∨ (toDecimal.value ≠ 0 ∧ |toDecimal.value| < 1)

namespace Float

lemma integerPart_of_value_eq {f : Float} {n : ℤ} (hn : |n| < 10 ^ 16) (h : f.value = n) :
    f.integerPart = n := by
  by_cases he : f.exponent = none
  · exact Decimal.integerPart_of_exponent_none he h
  · exfalso
    rcases f.magnitude he with hlarge | ⟨hzero, hsmall⟩
    · rw [h] at hlarge
      have hlarge' : (10 : ℤ) ^ 16 ≤ |n| := by exact_mod_cast hlarge
      omega
    · rw [h] at hzero hsmall
      have hsmall' : |n| < 1 := by exact_mod_cast hsmall
      have hn0 : n = 0 := Int.abs_lt_one_iff.mp hsmall'
      exact hzero (by rw [hn0]; rfl)

lemma tailText_eq_cons (f : Float) :
    ∃ b rest, f.tailText = b :: rest ∧ (b = byte '.' ∨ b = byte 'e') := by
  rw [Decimal.tailText]
  by_cases hfraction : f.fraction = []
  · obtain ⟨e, he⟩ : ∃ e, f.exponent = some e :=
      Option.ne_none_iff_exists'.mp (f.hasTail.resolve_left (not_not.mpr hfraction))
    simp [hfraction, he]
  · simp [hfraction]

end Float

/-! ### Strings -/

def hexDigit (n : ℕ) : UInt8 := byte (Nat.digitChar n)

def escapeByte (b : UInt8) : Bytes :=
  if b = byte '"' then utf8 "\\\""
  else if b = byte '\\' then utf8 "\\\\"
  else if b = 0x08 then utf8 "\\b"
  else if b = 0x09 then utf8 "\\t"
  else if b = 0x0A then utf8 "\\n"
  else if b = 0x0C then utf8 "\\f"
  else if b = 0x0D then utf8 "\\r"
  else if b < 0x20 then utf8 "\\u00" ++ [hexDigit (b.toNat / 16), hexDigit (b.toNat % 16)]
  else [b]

def strText (s : Bytes) : Bytes := byte '"' :: s.flatMap escapeByte ++ [byte '"']

/-! ### Values and objects -/

inductive Value
  | str (s : Bytes)
  | int (z : ℤ)
  | bool (b : Bool)
  | float (f : Float)

namespace Value

def text : Value → Bytes
  | .str s => strText s
  | .int z => intText z
  | .bool true => utf8 "true"
  | .bool false => utf8 "false"
  | .float f => f.text

end Value

def keyLt (a b : Bytes) : Prop := a.map UInt8.toNat < b.map UInt8.toNat

instance (a b : Bytes) : Decidable (keyLt a b) :=
  inferInstanceAs (Decidable (a.map UInt8.toNat < b.map UInt8.toNat))

lemma keyLt_trans {a b c : Bytes} (hab : keyLt a b) (hbc : keyLt b c) : keyLt a c :=
  lt_trans (α := List ℕ) hab hbc

lemma keyLt_irrefl (a : Bytes) : ¬ keyLt a a :=
  lt_irrefl (α := List ℕ) _

lemma keyLt_of_not_lt {a b : Bytes} (h : ¬ keyLt a b) (hne : a ≠ b) : keyLt b a := by
  refine lt_of_le_of_ne (α := List ℕ) (not_lt.mp h) fun heq => hne ?_
  have hinj : Function.Injective UInt8.toNat := fun x y hxy => UInt8.toNat_inj.mp hxy
  exact (List.map_injective_iff.mpr hinj heq).symm

/-- An object in the order of its keys, as a sorted map keeps it. -/
structure Object where
  members : List (Bytes × Value)
  sorted : members.Pairwise fun x y => keyLt x.1 y.1

namespace Object

def empty : Object := ⟨[], .nil⟩

def insertMember (k : Bytes) (v : Value) : List (Bytes × Value) → List (Bytes × Value)
  | [] => [(k, v)]
  | m :: ms =>
    if keyLt k m.1 then (k, v) :: m :: ms
    else if k = m.1 then (k, v) :: ms
    else m :: insertMember k v ms

lemma mem_insertMember {k : Bytes} {v : Value} {ms : List (Bytes × Value)} {x : Bytes × Value}
    (h : x ∈ insertMember k v ms) : x = (k, v) ∨ x ∈ ms := by
  induction ms with
  | nil => simpa [insertMember] using h
  | cons m ms ih =>
    rw [insertMember] at h
    split_ifs at h
    · simpa using h
    · rcases List.mem_cons.mp h with h | h
      · exact .inl h
      · exact .inr (.tail _ h)
    · rcases List.mem_cons.mp h with h | h
      · exact .inr (h ▸ .head _)
      · exact (ih h).imp_right (.tail _)

lemma sorted_insertMember {k : Bytes} {v : Value} {ms : List (Bytes × Value)}
    (h : ms.Pairwise fun x y => keyLt x.1 y.1) :
    (insertMember k v ms).Pairwise fun x y => keyLt x.1 y.1 := by
  induction ms with
  | nil => simp [insertMember]
  | cons m ms ih =>
    obtain ⟨hm, hms⟩ := List.pairwise_cons.mp h
    rw [insertMember]
    split_ifs with hlt heq
    · refine List.pairwise_cons.mpr ⟨fun x hx => ?_, h⟩
      rcases List.mem_cons.mp hx with rfl | hx
      · exact hlt
      · exact keyLt_trans hlt (hm x hx)
    · exact List.pairwise_cons.mpr ⟨fun x hx => heq ▸ hm x hx, hms⟩
    · refine List.pairwise_cons.mpr ⟨fun x hx => ?_, ih hms⟩
      rcases mem_insertMember hx with rfl | hx
      · exact keyLt_of_not_lt hlt heq
      · exact hm x hx

def insert (o : Object) (k : Bytes) (v : Value) : Object :=
  ⟨insertMember k v o.members, sorted_insertMember o.sorted⟩

end Object

def memberText (m : Bytes × Value) : Bytes := strText m.1 ++ byte ':' :: m.2.text

def membersText : List (Bytes × Value) → Bytes
  | [] => [byte '\x7d']
  | [m] => memberText m ++ [byte '\x7d']
  | m :: ms => memberText m ++ byte ',' :: membersText ms

def objectText (o : Object) : Bytes := byte '\x7b' :: membersText o.members

def elementsText : List Bytes → Bytes
  | [] => [byte ']']
  | [e] => e ++ [byte ']']
  | e :: es => e ++ byte ',' :: elementsText es

def arrayText (elements : List Bytes) : Bytes := byte '[' :: elementsText elements

lemma elementsText_cons_cons (e e' : Bytes) (elements : List Bytes) :
    elementsText (e :: e' :: elements) = e ++ byte ',' :: elementsText (e' :: elements) := rfl

lemma elementsText_eq_intercalate (elements : List Bytes) :
    elementsText elements = [byte ','].intercalate elements ++ [byte ']'] := by
  induction elements with
  | nil => rfl
  | cons e elements ih =>
    cases elements with
    | nil => rw [elementsText, intercalate_singleton]
    | cons e' elements =>
      rw [elementsText_cons_cons, ih, intercalate_cons_cons, append_assoc,
        append_assoc]
      rfl

/-! ### The text has no zero byte -/

lemma zero_notMem_natText (n : ℕ) : 0 ∉ natText n := fun h =>
  absurd (isDigit_of_mem_natText h) (by decide)

lemma zero_notMem_intText (z : ℤ) : 0 ∉ intText z := by
  have hminus : (0 : UInt8) ≠ byte '-' := by decide
  rw [intText]
  split_ifs
  · rw [mem_cons, not_or]
    exact ⟨hminus, zero_notMem_natText _⟩
  · exact zero_notMem_natText _

lemma zero_notMem_decimal (d : Decimal) : 0 ∉ d.text := by
  have hminus : (0 : UInt8) ≠ byte '-' := by decide
  have hpoint : (0 : UInt8) ≠ byte '.' := by decide
  have hletter : (0 : UInt8) ≠ byte 'e' := by decide
  have hdigit : ∀ n : Fin 10, byte (Nat.digitChar n) ≠ 0 := by decide
  have hfraction : ∀ ds : List (Fin 10),
      (0 : UInt8) ∉ ds.map fun n : Fin 10 => byte (Nat.digitChar n) := by
    intro ds h
    obtain ⟨n, -, hn⟩ := List.mem_map.mp h
    exact hdigit n hn
  have hexponent := fun e => zero_notMem_intText e
  simp only [Decimal.text, Decimal.tailText, mem_append, not_or]
  refine ⟨⟨?_, zero_notMem_natText _⟩, ?_, ?_⟩
  · split_ifs <;> simp [hminus]
  · split_ifs
    · simp
    · simp only [mem_cons, not_or]
      exact ⟨hpoint, hfraction _⟩
  · split
    · simp
    · simp only [mem_cons, not_or]
      exact ⟨hletter, hexponent _⟩

lemma zero_notMem_escapeByte (b : UInt8) : 0 ∉ escapeByte b := by
  have hhex : ∀ n < 16, hexDigit n ≠ 0 := by decide
  rw [escapeByte]
  split_ifs with h₁ h₂ h₃ h₄ h₅ h₆ h₇ h₈
  · decide
  · decide
  · decide
  · decide
  · decide
  · decide
  · decide
  · have hb : b.toNat < 32 := UInt8.lt_iff_toNat_lt.mp h₈
    have hpre : (0 : UInt8) ∉ utf8 "\\u00" := by decide
    simp only [mem_append, mem_cons, not_mem_nil, or_false, not_or]
    exact ⟨hpre, (hhex _ (by omega)).symm, (hhex _ (by omega)).symm⟩
  · rw [mem_singleton]
    rintro rfl
    exact h₈ (by decide)

lemma zero_notMem_strText (s : Bytes) : 0 ∉ strText s := by
  have hquote : (0 : UInt8) ≠ byte '"' := by decide
  simp only [strText, mem_cons, mem_append, mem_flatMap, not_mem_nil, or_false,
    not_or, not_exists, not_and, cons_append]
  exact ⟨hquote, fun b _ => zero_notMem_escapeByte b, hquote⟩

lemma zero_notMem_memberText (m : Bytes × Value) : 0 ∉ memberText m := by
  have hcolon : (0 : UInt8) ≠ byte ':' := by decide
  simp only [memberText, mem_append, mem_cons, not_or]
  refine ⟨zero_notMem_strText _, hcolon, ?_⟩
  cases m.2 with
  | str s => exact zero_notMem_strText s
  | int z => exact zero_notMem_intText z
  | bool b => cases b <;> decide
  | float f => exact zero_notMem_decimal _

lemma zero_notMem_objectText (o : Object) : 0 ∉ objectText o := by
  have hopen : (0 : UInt8) ≠ byte '\x7b' := by decide
  have hclose : (0 : UInt8) ∉ [byte '\x7d'] := by decide
  have hcomma : (0 : UInt8) ≠ byte ',' := by decide
  have hmembers : ∀ ms, 0 ∉ membersText ms := by
    intro ms
    induction ms with
    | nil => exact hclose
    | cons m ms ih =>
      cases ms with
      | nil =>
        rw [membersText, mem_append, not_or]
        exact ⟨zero_notMem_memberText m, hclose⟩
      | cons m' ms =>
        rw [membersText, mem_append, mem_cons, not_or, not_or]
        · exact ⟨zero_notMem_memberText m, hcomma, ih⟩
        · simp
  rw [objectText, mem_cons, not_or]
  exact ⟨hopen, hmembers _⟩

lemma zero_notMem_arrayText {elements : List Bytes} (h : ∀ e ∈ elements, 0 ∉ e) :
    0 ∉ arrayText elements := by
  have hopen : (0 : UInt8) ≠ byte '[' := by decide
  have hclose : (0 : UInt8) ∉ [byte ']'] := by decide
  have hcomma : (0 : UInt8) ≠ byte ',' := by decide
  have helements : 0 ∉ elementsText elements := by
    induction elements with
    | nil => exact hclose
    | cons e elements ih =>
      have he := h e mem_cons_self
      cases elements with
      | nil =>
        rw [elementsText, mem_append, not_or]
        exact ⟨he, hclose⟩
      | cons e' elements =>
        rw [elementsText_cons_cons, mem_append, mem_cons, not_or, not_or]
        exact ⟨he, hcomma, ih fun x hx => h x (mem_cons_of_mem e hx)⟩
  rw [arrayText, mem_cons, not_or]
  exact ⟨hopen, helements⟩

end Json
