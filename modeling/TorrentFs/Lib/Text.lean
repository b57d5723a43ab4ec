import Mathlib.Data.String.Basic
import Mathlib.Data.List.DropRight

/-!
# Text as lists of characters

A string is the list of its Unicode scalar values; `String.utf8Len` is the length in bytes of
its UTF-8 encoding.
-/

namespace Text

open List

abbrev Str := List Char

lemma length_le_utf8Len (s : Str) : s.length ≤ String.utf8Len s := by
  induction s with
  | nil => simp
  | cons c s ih =>
    have hpos := c.utf8Size_pos
    rw [String.utf8Len_cons, length_cons]
    omega

def splitOnce (sep : Str) : Str → Option (Str × Str)
  | [] => if sep = [] then some ([], []) else none
  | c :: s =>
    if sep.isPrefixOf (c :: s) then some ([], (c :: s).drop sep.length)
    else (splitOnce sep s).map fun p => (c :: p.1, p.2)

variable {sep c : Char} {s : Str} {max : ℕ}

lemma eq_of_splitOnce {sep before after : Str} (h : splitOnce sep s = some (before, after)) :
    s = before ++ sep ++ after := by
  induction s generalizing before with
  | nil =>
    rw [splitOnce] at h
    split at h
    · next hsep =>
      cases h
      rw [hsep]
      rfl
    · cases h
  | cons c s ih =>
    rw [splitOnce] at h
    split at h
    · next hstart =>
      obtain ⟨rest, hrest⟩ := List.isPrefixOf_iff_prefix.mp hstart
      cases h
      rw [← hrest, drop_left, nil_append]
    · obtain ⟨⟨before', after'⟩, hsplit, heq⟩ := Option.map_eq_some_iff.mp h
      cases heq
      rw [ih hsplit]
      rfl

lemma splitOnce_append (sep after : Str) {before : Str} (h : c ∉ before) :
    splitOnce (c :: sep) (before ++ (c :: sep) ++ after) = some (before, after) := by
  induction before with
  | nil =>
    have hstart : (c :: sep).isPrefixOf (c :: (sep ++ after)) = true :=
      List.isPrefixOf_iff_prefix.mpr ⟨after, rfl⟩
    simp only [nil_append, cons_append, splitOnce]
    rw [if_pos hstart, length_cons, drop_succ_cons, drop_left]
  | cons d before ih =>
    rw [mem_cons, not_or] at h
    have hstart : ¬ (c :: sep).isPrefixOf (d :: (before ++ (c :: sep) ++ after)) = true := by
      rw [ isPrefixOf_iff_prefix, cons_prefix_cons]
      exact fun hpre => h.1 hpre.1
    simp only [cons_append, splitOnce]
    rw [if_neg hstart, ih h.2]
    rfl

def rsplitOnce (sep : Char) (s : Str) : Option (Str × Str) :=
  let tail := s.rtakeWhile (· ≠ sep)
  if tail.length = s.length then none else some (s.take (s.length - tail.length - 1), tail)

lemma of_mem_splitOnP {p : Char → Bool} {part : Str} (h : part ∈ s.splitOnP p) :
    ∀ c ∈ part, p c = false := by
  induction s generalizing part with
  | nil =>
    rw [splitOnP_nil, mem_singleton] at h
    rw [h]
    exact forall_mem_nil _
  | cons d s ih =>
    rw [splitOnP_cons_eq_if_modifyHead] at h
    split at h
    · rcases List.mem_cons.mp h with rfl | h
      · exact forall_mem_nil _
      · exact ih h
    · next hd =>
      -- the first part is longer by the character `d`, which is no separator
      cases hparts : s.splitOnP p with
      | nil =>
        rw [hparts] at h
        cases h
      | cons first rest =>
        rw [hparts, modifyHead_cons] at h
        rcases List.mem_cons.mp h with rfl | h
        · exact List.forall_mem_cons.mpr
            ⟨Bool.eq_false_iff.mpr hd, ih (hparts ▸ mem_cons_self)⟩
        · exact ih (hparts ▸ mem_cons_of_mem _ h)

lemma notMem_of_mem_splitOn {part : Str} (h : part ∈ s.splitOn sep) :
    sep ∉ part := fun hmem => by simpa using of_mem_splitOnP h sep hmem

lemma splitOn_append_cons {a : Str} (h : sep ∉ a) (b : Str) :
    (a ++ sep :: b).splitOn sep = a :: b.splitOn sep := by
  apply splitOnP_append_cons_of_forall_mem
  · intro c hc
    exact beq_eq_false_iff_ne.mpr fun heq => h (heq ▸ hc)
  · exact beq_self_eq_true sep

lemma splitOn_of_notMem {a : Str} (h : sep ∉ a) : a.splitOn sep = [a] := by
  apply splitOnP_eq_singleton
  intro c hc
  exact beq_eq_false_iff_ne.mpr fun heq => h (heq ▸ hc)

lemma rtakeWhile_append_cons (a : Str) {u : Str} (hu : sep ∉ u) :
    (a ++ sep :: u).rtakeWhile (· ≠ sep) = u := by
  have hall : ∀ c ∈ u.reverse, decide (c ≠ sep) = true := fun c hc =>
    decide_eq_true fun heq => hu (heq ▸ List.mem_reverse.mp hc)
  rw [List.rtakeWhile, reverse_append, reverse_cons, append_assoc,
    singleton_append, takeWhile_append_of_pos hall,
    takeWhile_cons_of_neg (by simp), append_nil, reverse_reverse]

lemma rsplitOnce_append (a : Str) {u : Str} (hu : sep ∉ u) :
    rsplitOnce sep (a ++ sep :: u) = some (a, u) := by
  have htail := rtakeWhile_append_cons a hu
  have hlength : (a ++ sep :: u).length = a.length + u.length + 1 := by
    rw [length_append, length_cons]
    omega
  unfold rsplitOnce
  rw [htail, if_neg (by omega), hlength]
  have hcut : a.length + u.length + 1 - u.length - 1 = a.length := by omega
  rw [hcut, take_left]

lemma rsplitOnce_of_notMem (h : sep ∉ s) : rsplitOnce sep s = none := by
  have htail : s.rtakeWhile (· ≠ sep) = s := by
    rw [rtakeWhile_eq_self_iff]
    exact fun c hc => decide_eq_true fun heq => h (heq ▸ hc)
  unfold rsplitOnce
  rw [htail, if_pos rfl]

lemma exists_append_of_mem (h : sep ∈ s) : ∃ a u, s = a ++ sep :: u ∧ sep ∉ u := by
  obtain ⟨u, a, hreverse, hu⟩ := eq_append_cons_of_mem (List.mem_reverse.mpr h)
  refine ⟨a.reverse, u.reverse, ?_, fun hmem => hu (List.mem_reverse.mp hmem)⟩
  rw [← reverse_reverse s, hreverse]
  simp

def replaceChar (c : Char) (by' : Str) (s : Str) : Str :=
  s.flatMap fun d => if d = c then by' else [d]

def isAsciiDigit (c : Char) : Bool := '0' ≤ c && c ≤ '9'

def digitValue (c : Char) : ℕ := c.toNat - '0'.toNat

def digitsValue (s : Str) : ℕ := s.foldl (fun n c => 10 * n + digitValue c) 0

def parseDigits (max : ℕ) (s : Str) : Option ℕ :=
  if s ≠ [] ∧ s.all isAsciiDigit ∧ digitsValue s ≤ max then some (digitsValue s) else none

def parseUnsigned (max : ℕ) : Str → Option ℕ
  | '+' :: s => parseDigits max s
  | s => parseDigits max s

def parseSigned (max : ℕ) : Str → Option ℤ
  | '-' :: s => (parseDigits (max + 1) s).map fun n => -(n : ℤ)
  | '+' :: s => (parseDigits max s).map fun n => (n : ℤ)
  | s => (parseDigits max s).map fun n => (n : ℤ)

def decimal (n : ℕ) : Str := Nat.toDigits 10 n

lemma decimal_injective : Function.Injective decimal := by
  intro m n h
  have hvalue := congrArg (Nat.ofDigitChars 10 · 0) h
  dsimp only [decimal] at hvalue
  rwa [Nat.ofDigitChars_toDigits (by decide) (by decide),
    Nat.ofDigitChars_toDigits (by decide) (by decide)] at hvalue

lemma notMem_decimal (h : c.isDigit = false) (n : ℕ) : c ∉ decimal n := by
  intro hc
  have hdigit := Nat.isDigit_of_mem_toDigits (by decide) (by decide) hc
  rw [h] at hdigit
  exact Bool.false_ne_true hdigit

/-! ### Decimal numbers, written and read -/

lemma isAsciiDigit_eq_isDigit (c : Char) : isAsciiDigit c = c.isDigit := by
  rw [isAsciiDigit, Char.isDigit, Bool.eq_iff_iff]
  simp only [Bool.and_eq_true, decide_eq_true_eq]
  exact Iff.rfl

lemma digitChar_digitValue (h : isAsciiDigit c = true) :
    digitValue c < 10 ∧ Nat.digitChar (digitValue c) = c := by
  have hzero : '0'.toNat = 48 := rfl
  have hrange : 48 ≤ c.toNat ∧ c.toNat ≤ 57 := by
    rw [isAsciiDigit_eq_isDigit, Char.isDigit, Bool.and_eq_true, decide_eq_true_eq,
      decide_eq_true_eq] at h
    exact h
  have hlt : digitValue c < 10 := by
    rw [digitValue, hzero]
    omega
  refine ⟨hlt, Char.toNat_inj.mp ?_⟩
  rw [Nat.toNat_digitChar_of_lt_ten hlt, digitValue, hzero]
  omega

lemma decimal_ne_nil (n : ℕ) : decimal n ≠ [] := Nat.toDigits_ne_nil

lemma all_isAsciiDigit_decimal (n : ℕ) : (decimal n).all isAsciiDigit = true := by
  rw [all_eq_true]
  intro c hc
  rw [isAsciiDigit_eq_isDigit]
  exact Nat.isDigit_of_mem_toDigits (by decide) (by decide) hc

lemma digitsValue_decimal (n : ℕ) : digitsValue (decimal n) = n :=
  Nat.ofDigitChars_toDigits (by decide) (by decide)

lemma digitsValue_append_singleton (s : Str) (c : Char) :
    digitsValue (s ++ [c]) = 10 * digitsValue s + digitValue c := by
  rw [digitsValue, foldl_append]
  rfl

/-- A single digit, or digits that do not start with a zero. -/
def Plain (s : Str) : Prop := s.length = 1 ∨ s.head? ≠ some '0'

instance (s : Str) : Decidable (Plain s) := inferInstanceAs (Decidable (_ ∨ _))

lemma plain_decimal (n : ℕ) : Plain (decimal n) := by
  induction n using Nat.strong_induction_on with
  | _ n ih =>
    by_cases hn : n < 10
    · left
      rw [decimal, Nat.toDigits_of_lt_base hn]
      rfl
    · -- the first digit is that of the number without its last digit
      have hdiv : decimal n = decimal (n / 10) ++ [(n % 10).digitChar] :=
        Nat.toDigits_of_base_le (by decide) (by omega)
      right
      rw [hdiv, head?_append_of_ne_nil _ (decimal_ne_nil _)]
      rcases ih (n / 10) (by omega) with hone | hhead
      · -- one digit is left, which is not zero
        intro hzero
        obtain ⟨c, hc⟩ := List.length_eq_one_iff.mp hone
        rw [hc, head?_cons, Option.some.injEq] at hzero
        have hvalue := digitsValue_decimal (n / 10)
        rw [hc, hzero] at hvalue
        have hpos : digitsValue ['0'] = 0 := rfl
        omega
      · exact hhead

lemma decimal_digitsValue (hne : s ≠ []) (hdigits : s.all isAsciiDigit = true)
    (hplain : Plain s) : decimal (digitsValue s) = s := by
  induction s using List.reverseRecOn with
  | nil => exact absurd rfl hne
  | append_singleton s c ih =>
    rw [all_append, Bool.and_eq_true, all_cons, all_nil, Bool.and_true] at hdigits
    obtain ⟨hlt, hchar⟩ := digitChar_digitValue hdigits.2
    rw [digitsValue_append_singleton]
    by_cases hs : s = []
    · subst hs
      rw [decimal, Nat.toDigits_of_lt_base (by simpa [digitsValue] using hlt)]
      simpa [digitsValue] using hchar
    · have hhead : s.head? ≠ some '0' := by
        have hlength := List.length_pos_iff.mpr hs
        rw [Plain, length_append, length_singleton,
          head?_append_of_ne_nil _ hs] at hplain
        exact hplain.resolve_left (by omega)
      have hrest := ih hs hdigits.1 (.inr hhead)
      -- the digits before the last one do not denote zero
      have hpos : 0 < digitsValue s := by
        rw [Nat.pos_iff_ne_zero]
        intro hzero
        rw [hzero] at hrest
        exact hhead (hrest ▸ rfl)
      have happend := Nat.toDigits_append_toDigits (by decide : 1 < 10) hpos hlt
      rw [decimal, ← happend, Nat.toDigits_of_lt_base hlt, hchar]
      exact congrArg (· ++ [c]) hrest

lemma parseDigits_decimal {n : ℕ} (h : n ≤ max) : parseDigits max (decimal n) = some n := by
  unfold parseDigits
  rw [digitsValue_decimal,
    if_pos ⟨decimal_ne_nil n, all_isAsciiDigit_decimal n, h⟩]

lemma parseSigned_of_digits (h : s.all isAsciiDigit = true) :
    parseSigned max s = (parseDigits max s).map fun n => (n : ℤ) := by
  unfold parseSigned
  split
  · simp [isAsciiDigit] at h
  · simp [isAsciiDigit] at h
  · rfl

lemma parseUnsigned_of_digits (h : s.all isAsciiDigit = true) :
    parseUnsigned max s = parseDigits max s := by
  unfold parseUnsigned
  split
  · simp [isAsciiDigit] at h
  · rfl

lemma parseUnsigned_decimal {n : ℕ} (h : n ≤ max) : parseUnsigned max (decimal n) = some n := by
  rw [parseUnsigned_of_digits (all_isAsciiDigit_decimal n), parseDigits_decimal h]

lemma toString_natCast (n : ℕ) : (toString (n : ℤ)).toList = decimal n := by
  simp [Int.repr, Nat.repr, decimal]

end Text
