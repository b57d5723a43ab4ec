import TorrentFs.Lib.Text

/-!
# UTF-8 and lines of bytes

Text is written as UTF-8 and read back from bytes that may be anything. The module has the
encoding, the decoding that puts a replacement character for what is no UTF-8, and the cutting of
a stream of bytes into lines.
-/

namespace Utf8

open Text List Nat

def encode (s : Str) : List UInt8 := s.flatMap String.utf8EncodeChar

def replacement : Char := Char.ofNat 0xFFFD

def within (lo hi b : UInt8) : Bool := decide (lo ≤ b) && decide (b ≤ hi)

def isContinuation (b : UInt8) : Bool := within 0x80 0xBF b

def extend (value : ℕ) (b : UInt8) : ℕ := value * 64 + (b.toNat - 0x80)

def second3 (b b₁ : UInt8) : Bool :=
  if b = 0xE0 then within 0xA0 0xBF b₁
  else if b = 0xED then within 0x80 0x9F b₁
  else isContinuation b₁

def second4 (b b₁ : UInt8) : Bool :=
  if b = 0xF0 then within 0x90 0xBF b₁
  else if b = 0xF4 then within 0x80 0x8F b₁
  else isContinuation b₁

/-- The text of some bytes. A sequence that breaks off is replaced up to the byte that cannot
continue it, where decoding goes on. -/
def decodeLossy : List UInt8 → Str
  | [] => []
  | b :: rest =>
    if b < 0x80 then Char.ofNat b.toNat :: decodeLossy rest
    else if within 0xC2 0xDF b then
      match rest with
      | b₁ :: rest₁ =>
        if isContinuation b₁ then
          Char.ofNat (extend (b.toNat - 0xC0) b₁) :: decodeLossy rest₁
        else replacement :: decodeLossy (b₁ :: rest₁)
      | [] => [replacement]
    else if within 0xE0 0xEF b then
      match rest with
      | b₁ :: rest₁ =>
        if second3 b b₁ then
          match rest₁ with
          | b₂ :: rest₂ =>
            if isContinuation b₂ then
              Char.ofNat (extend (extend (b.toNat - 0xE0) b₁) b₂) :: decodeLossy rest₂
            else replacement :: decodeLossy (b₂ :: rest₂)
          | [] => [replacement]
        else replacement :: decodeLossy (b₁ :: rest₁)
      | [] => [replacement]
    else if within 0xF0 0xF4 b then
      match rest with
      | b₁ :: rest₁ =>
        if second4 b b₁ then
          match rest₁ with
          | b₂ :: rest₂ =>
            if isContinuation b₂ then
              match rest₂ with
              | b₃ :: rest₃ =>
                if isContinuation b₃ then
                  Char.ofNat (extend (extend (extend (b.toNat - 0xF0) b₁) b₂) b₃) ::
                    decodeLossy rest₃
                else replacement :: decodeLossy (b₃ :: rest₃)
              | [] => [replacement]
            else replacement :: decodeLossy (b₂ :: rest₂)
          | [] => [replacement]
        else replacement :: decodeLossy (b₁ :: rest₁)
      | [] => [replacement]
    else replacement :: decodeLossy rest

-- "aé€" followed by a lead byte that breaks off and a byte that cannot start a sequence
example : decodeLossy [0x61, 0xC3, 0xA9, 0xE2, 0x82, 0xAC, 0xE2, 0x82, 0x62, 0xFF] =
    ['a', 'é', '€', replacement, 'b', replacement] := by decide

/-! ### Ranges of bytes -/

variable {lo hi b b₁ : UInt8} {x : List UInt8}

lemma within_iff :
    within lo hi b = true ↔ lo.toNat ≤ b.toNat ∧ b.toNat ≤ hi.toNat := by
  simp [within, UInt8.le_iff_toNat_le]

lemma within_of_lt (h : b < lo) : within lo hi b = false := by
  have hnot : ¬ lo ≤ b := UInt8.not_le.mpr h
  simp [within, hnot]

lemma within_of_gt (h : hi < b) : within lo hi b = false := by
  have hnot : ¬ b ≤ hi := UInt8.not_le.mpr h
  simp [within, hnot]

lemma isContinuation_of_lt (h : b < 0x80) : isContinuation b = false :=
  within_of_lt h

lemma second3_iff : second3 b b₁ = true ↔ (0x80 ≤ b₁.toNat ∧ b₁.toNat ≤ 0xBF) ∧
      (b.toNat = 0xE0 → 0xA0 ≤ b₁.toNat) ∧ (b.toNat = 0xED → b₁.toNat ≤ 0x9F) := by
  have he0 : b = 0xE0 ↔ b.toNat = 0xE0 := UInt8.toNat_inj.symm
  have hed : b = 0xED ↔ b.toNat = 0xED := UInt8.toNat_inj.symm
  rw [second3]
  simp only [he0, hed]
  split_ifs <;> simp only [isContinuation, within_iff, UInt8.toNat_ofNat] <;> omega

lemma second4_iff : second4 b b₁ = true ↔ (0x80 ≤ b₁.toNat ∧ b₁.toNat ≤ 0xBF) ∧
      (b.toNat = 0xF0 → 0x90 ≤ b₁.toNat) ∧ (b.toNat = 0xF4 → b₁.toNat ≤ 0x8F) := by
  have hf0 : b = 0xF0 ↔ b.toNat = 0xF0 := UInt8.toNat_inj.symm
  have hf4 : b = 0xF4 ↔ b.toNat = 0xF4 := UInt8.toNat_inj.symm
  rw [second4]
  simp only [hf0, hf4]
  split_ifs <;> simp only [isContinuation, within_iff, UInt8.toNat_ofNat] <;> omega

lemma second3_of_lt (h : b₁ < 0x80) : second3 b b₁ = false := by
  rw [second3]
  split_ifs
  · exact within_of_lt (UInt8.lt_trans h (by decide))
  · exact within_of_lt h
  · exact isContinuation_of_lt h

lemma second4_of_lt (h : b₁ < 0x80) : second4 b b₁ = false := by
  rw [second4]
  split_ifs
  · exact within_of_lt (UInt8.lt_trans h (by decide))
  · exact within_of_lt h
  · exact isContinuation_of_lt h

/-! ### Text is read back -/

lemma toNat_ofNat_of_lt {n : ℕ} (hn : n < 256) : (UInt8.ofNat n).toNat = n := by
  rw [UInt8.toNat_ofNat']
  exact mod_eq_of_lt hn

lemma decodeLossy_cons_of_lt (hb : b < 0x80) (rest : List UInt8) :
    decodeLossy (b :: rest) = Char.ofNat b.toNat :: decodeLossy rest := by
  rw [decodeLossy.eq_def]
  exact if_pos hb

lemma decodeLossy_two (hb : within 0xC2 0xDF b = true)
    (h₁ : isContinuation b₁ = true) (rest : List UInt8) :
    decodeLossy (b :: b₁ :: rest) =
      Char.ofNat (extend (b.toNat - 0xC0) b₁) :: decodeLossy rest := by
  have hlow : ¬ b < 0x80 := by
    rw [UInt8.lt_iff_toNat_lt]
    have := (within_iff.mp hb).1
    exact fun h => absurd (this.trans_lt h) (by decide)
  rw [decodeLossy.eq_def]
  simp only [if_neg hlow, hb, h₁, if_true]

lemma decodeLossy_three {b₂ : UInt8} (hb : within 0xE0 0xEF b = true)
    (h₁ : second3 b b₁ = true) (h₂ : isContinuation b₂ = true) (rest : List UInt8) :
    decodeLossy (b :: b₁ :: b₂ :: rest) =
      Char.ofNat (extend (extend (b.toNat - 0xE0) b₁) b₂) :: decodeLossy rest := by
  have hge : 0xE0 ≤ b := UInt8.le_iff_toNat_le.mpr (within_iff.mp hb).1
  have hlow : ¬ b < 0x80 := UInt8.not_lt.mpr (UInt8.le_trans (by decide) hge)
  have htwo : within 0xC2 0xDF b = false := within_of_gt (UInt8.lt_of_lt_of_le (by decide) hge)
  rw [decodeLossy.eq_def]
  simp only [if_neg hlow, htwo, hb, h₁, h₂, if_true, Bool.false_eq_true, if_false]

lemma decodeLossy_four {b₂ b₃ : UInt8} (hb : within 0xF0 0xF4 b = true)
    (h₁ : second4 b b₁ = true) (h₂ : isContinuation b₂ = true) (h₃ : isContinuation b₃ = true)
    (rest : List UInt8) :
    decodeLossy (b :: b₁ :: b₂ :: b₃ :: rest) =
      Char.ofNat (extend (extend (extend (b.toNat - 0xF0) b₁) b₂) b₃) :: decodeLossy rest := by
  have hge : 0xF0 ≤ b := UInt8.le_iff_toNat_le.mpr (within_iff.mp hb).1
  have hlow : ¬ b < 0x80 := UInt8.not_lt.mpr (UInt8.le_trans (by decide) hge)
  have htwo : within 0xC2 0xDF b = false := within_of_gt (UInt8.lt_of_lt_of_le (by decide) hge)
  have hthree : within 0xE0 0xEF b = false := within_of_gt (UInt8.lt_of_lt_of_le (by decide) hge)
  rw [decodeLossy.eq_def]
  simp only [if_neg hlow, htwo, hthree, hb, h₁, h₂, h₃, if_true, Bool.false_eq_true, if_false]

lemma decodeLossy_utf8EncodeChar (c : Char) (rest : List UInt8) :
    decodeLossy (String.utf8EncodeChar c ++ rest) = c :: decodeLossy rest := by
  have hvalid : c.val.toNat < 0xD800 ∨ 0xDFFF < c.val.toNat ∧ c.val.toNat < 0x110000 := c.valid
  have hchar : c = Char.ofNat c.val.toNat := (Char.ofNat_toNat c).symm
  unfold String.utf8EncodeChar
  dsimp only
  generalize c.val.toNat = v at hvalid hchar ⊢
  split_ifs with h1 h2 h3
  · have hlt : UInt8.ofNat v < 0x80 := by
      rw [UInt8.lt_iff_toNat_lt, toNat_ofNat_of_lt (by omega)]
      exact lt_succ_of_le h1
    rw [singleton_append, decodeLossy_cons_of_lt hlt, toNat_ofNat_of_lt (by omega), ← hchar]
  · have hb := toNat_ofNat_of_lt (n := v / 64 % 32 + 192) (by omega)
    have hb₁ := toNat_ofNat_of_lt (n := v % 64 + 128) (by omega)
    have hvalue : extend (v / 64 % 32 + 192 - 0xC0) (UInt8.ofNat (v % 64 + 128)) = v := by
      unfold extend
      omega
    rw [cons_append, singleton_append, decodeLossy_two, hb, hvalue, ← hchar]
    · exact within_iff.mpr (by simp only [hb, UInt8.toNat_ofNat]; omega)
    · exact within_iff.mpr (by simp only [hb₁, UInt8.toNat_ofNat]; omega)
  · have hb := toNat_ofNat_of_lt (n := v / 4096 % 16 + 224) (by omega)
    have hb₁ := toNat_ofNat_of_lt (n := v / 64 % 64 + 128) (by omega)
    have hb₂ := toNat_ofNat_of_lt (n := v % 64 + 128) (by omega)
    have hvalue : extend (extend (v / 4096 % 16 + 224 - 0xE0) (UInt8.ofNat (v / 64 % 64 + 128)))
        (UInt8.ofNat (v % 64 + 128)) = v := by
      unfold extend
      omega
    rw [cons_append, cons_append, singleton_append, decodeLossy_three, hb, hvalue,
      ← hchar]
    · exact within_iff.mpr (by simp only [hb, UInt8.toNat_ofNat]; omega)
    · exact second3_iff.mpr (by simp only [hb, hb₁]; omega)
    · exact within_iff.mpr (by simp only [hb₂, UInt8.toNat_ofNat]; omega)
  · have hb := toNat_ofNat_of_lt (n := v / 262144 % 8 + 240) (by omega)
    have hb₁ := toNat_ofNat_of_lt (n := v / 4096 % 64 + 128) (by omega)
    have hb₂ := toNat_ofNat_of_lt (n := v / 64 % 64 + 128) (by omega)
    have hb₃ := toNat_ofNat_of_lt (n := v % 64 + 128) (by omega)
    have hvalue : extend (extend (extend (v / 262144 % 8 + 240 - 0xF0)
        (UInt8.ofNat (v / 4096 % 64 + 128))) (UInt8.ofNat (v / 64 % 64 + 128)))
        (UInt8.ofNat (v % 64 + 128)) = v := by
      unfold extend
      omega
    rw [cons_append, cons_append, cons_append, singleton_append,
      decodeLossy_four, hb, hvalue, ← hchar]
    · exact within_iff.mpr (by simp only [hb, UInt8.toNat_ofNat]; omega)
    · exact second4_iff.mpr (by simp only [hb, hb₁]; omega)
    · exact within_iff.mpr (by simp only [hb₂, UInt8.toNat_ofNat]; omega)
    · exact within_iff.mpr (by simp only [hb₃, UInt8.toNat_ofNat]; omega)

lemma decodeLossy_encode (s : Str) : decodeLossy (encode s) = s := by
  induction s with
  | nil => rfl
  | cons c s ih =>
    rw [encode, flatMap_cons, decodeLossy_utf8EncodeChar]
    exact congrArg (c :: ·) ih

/-! ### Cutting at ASCII bytes -/

lemma decodeLossy_append {y : List UInt8} (hy : ∀ b ∈ y.head?, b < 0x80) :
    decodeLossy (x ++ y) = decodeLossy x ++ decodeLossy y := by
  cases y with
  | nil => rw [append_nil, decodeLossy, append_nil]
  | cons a y =>
    have ha : a < 0x80 := hy a rfl
    have hcont := isContinuation_of_lt ha
    have h3 := fun b => second3_of_lt (b := b) ha
    have h4 := fun b => second4_of_lt (b := b) ha
    fun_induction decodeLossy x
    case case1 => rfl
    all_goals
      rw [cons_append, decodeLossy.eq_def]
      simp_all

lemma toNat_charOfNat {n : ℕ} (h : n.isValidChar) : (Char.ofNat n).toNat = n := by
  rw [Char.ofNat, dif_pos h]
  rfl

lemma le_toNat_ofNat {n : ℕ} (hn : 0x80 ≤ n) (hvalid : n < 0xD800 ∨ 0xDFFF < n ∧ n < 0x110000) :
    0x80 ≤ (Char.ofNat n).toNat := by
  rw [toNat_charOfNat hvalid]
  exact hn

lemma le_toNat_of_mem_decodeLossy (hx : ∀ b ∈ x, 0x80 ≤ b) :
    ∀ c ∈ decodeLossy x, 0x80 ≤ c.toNat := by
  have hreplacement : 0x80 ≤ replacement.toNat := by decide
  have h2 : ∀ b b₁ : UInt8, within 0xC2 0xDF b = true → isContinuation b₁ = true →
      0x80 ≤ (Char.ofNat (extend (b.toNat - 0xC0) b₁)).toNat := by
    intro b b₁ hb h₁
    have hb := within_iff.mp hb
    have h₁ := within_iff.mp h₁
    simp only [UInt8.toNat_ofNat] at hb h₁
    apply le_toNat_ofNat
    · unfold extend
      omega
    · unfold extend
      omega
  have h3 : ∀ b b₁ b₂ : UInt8, within 0xE0 0xEF b = true → second3 b b₁ = true →
      isContinuation b₂ = true →
      0x80 ≤ (Char.ofNat (extend (extend (b.toNat - 0xE0) b₁) b₂)).toNat := by
    intro b b₁ b₂ hb h₁ h₂
    have hb := within_iff.mp hb
    have h₁ := second3_iff.mp h₁
    have h₂ := within_iff.mp h₂
    simp only [UInt8.toNat_ofNat] at hb h₂
    apply le_toNat_ofNat
    · unfold extend
      omega
    · unfold extend
      omega
  have h4 : ∀ b b₁ b₂ b₃ : UInt8, within 0xF0 0xF4 b = true → second4 b b₁ = true →
      isContinuation b₂ = true → isContinuation b₃ = true →
      0x80 ≤ (Char.ofNat (extend (extend (extend (b.toNat - 0xF0) b₁) b₂) b₃)).toNat := by
    intro b b₁ b₂ b₃ hb h₁ h₂ h₃
    have hb := within_iff.mp hb
    have h₁ := second4_iff.mp h₁
    have h₂ := within_iff.mp h₂
    have h₃ := within_iff.mp h₃
    simp only [UInt8.toNat_ofNat] at hb h₂ h₃
    apply le_toNat_ofNat
    · unfold extend
      omega
    · unfold extend
      omega
  fun_induction decodeLossy x
  case case2 b rest hlow ih => exact absurd hlow (UInt8.not_lt.mpr (hx b mem_cons_self))
  all_goals simp_all

lemma le_of_mem_utf8EncodeChar {c : Char} (hc : 0x80 ≤ c.toNat)
    (hb : b ∈ String.utf8EncodeChar c) : 0x80 ≤ b := by
  have hval : 0x80 ≤ c.val.toNat := hc
  have hhigh : ∀ n, 128 ≤ n → n < 256 → 0x80 ≤ UInt8.ofNat n := fun n hle hlt => by
    rw [UInt8.le_iff_toNat_le, toNat_ofNat_of_lt hlt]
    exact hle
  unfold String.utf8EncodeChar at hb
  dsimp only at hb
  generalize c.val.toNat = v at hval hb
  split_ifs at hb with h1 h2 h3
  · omega
  all_goals
    simp only [mem_cons, not_mem_nil, or_false] at hb
    rcases hb with rfl | rfl | rfl | rfl <;> exact hhigh _ (by omega) (by omega)

lemma utf8EncodeChar_ofNat_of_lt (hb : b < 0x80) :
    String.utf8EncodeChar (Char.ofNat b.toNat) = [b] := by
  have hlt : b.toNat < 128 := UInt8.lt_iff_toNat_lt.mp hb
  have hval : (Char.ofNat b.toNat).val.toNat = b.toNat :=
    toNat_charOfNat (.inl (by omega))
  unfold String.utf8EncodeChar
  rw [hval, if_pos (by omega), UInt8.ofNat_toNat]

/-! ### Repaired bytes -/

def repair (x : List UInt8) : List UInt8 := encode (decodeLossy x)

def IsUtf8 (x : List UInt8) : Prop := repair x = x

instance (x : List UInt8) : Decidable (IsUtf8 x) := inferInstanceAs (Decidable (repair x = x))

lemma repair_append {y : List UInt8} (hy : ∀ b ∈ y.head?, b < 0x80) :
    repair (x ++ y) = repair x ++ repair y := by
  rw [repair, decodeLossy_append hy, encode, flatMap_append]
  rfl

lemma repair_cons_of_lt (hb : b < 0x80) (rest : List UInt8) :
    repair (b :: rest) = b :: repair rest := by
  rw [repair, decodeLossy_cons_of_lt hb, encode, flatMap_cons, utf8EncodeChar_ofNat_of_lt hb]
  rfl

lemma repair_append_of_ascii (hx : ∀ b ∈ x, b < 0x80) (y : List UInt8) :
    repair (x ++ y) = x ++ repair y := by
  induction x with
  | nil => rfl
  | cons b x ih =>
    rw [cons_append, repair_cons_of_lt (hx b mem_cons_self),
      ih fun c hc => hx c (mem_cons_of_mem b hc), cons_append]

lemma le_of_mem_repair (hx : ∀ b ∈ x, 0x80 ≤ b) : ∀ b ∈ repair x, 0x80 ≤ b := by
  intro b hb
  obtain ⟨c, hc, hb⟩ := List.mem_flatMap.mp hb
  exact le_of_mem_utf8EncodeChar (le_toNat_of_mem_decodeLossy hx c hc) hb

/-- A rewriting of single ASCII bytes by ASCII text. -/
structure AsciiRewrite (f : UInt8 → List UInt8) : Prop where
  high : ∀ b, 0x80 ≤ b → f b = [b]
  low : ∀ b < 0x80, f b ≠ [] ∧ ∀ c ∈ f b, c < 0x80

lemma AsciiRewrite.flatMap_of_high {f : UInt8 → List UInt8} (h : AsciiRewrite f)
    (hx : ∀ b ∈ x, 0x80 ≤ b) : x.flatMap f = x := by
  induction x with
  | nil => rfl
  | cons b x ih =>
    rw [flatMap_cons, h.high b (hx b mem_cons_self),
      ih fun c hc => hx c (mem_cons_of_mem b hc), singleton_append]

lemma AsciiRewrite.repair_flatMap {f : UInt8 → List UInt8} (h : AsciiRewrite f)
    (x : List UInt8) : repair (x.flatMap f) = (repair x).flatMap f := by
  -- the induction passes over a run of bytes beyond ASCII, which has to be read in one piece
  have hrun : ∀ u : List UInt8, (∀ b ∈ u, 0x80 ≤ b) →
      repair (u ++ x.flatMap f) = (repair (u ++ x)).flatMap f := by
    induction x with
    | nil =>
      intro u hu
      rw [flatMap_nil, append_nil, h.flatMap_of_high (le_of_mem_repair hu)]
    | cons b x ih =>
      intro u hu
      rw [flatMap_cons]
      by_cases hb : b < 0x80
      · obtain ⟨hne, hascii⟩ := h.low b hb
        have hhead : ∀ c ∈ (f b ++ x.flatMap f).head?, c < 0x80 := by
          intro c hc
          rw [head?_append_of_ne_nil _ hne] at hc
          exact hascii c (mem_of_mem_head? hc)
        have hcons : ∀ c ∈ (b :: x).head?, c < 0x80 := by
          intro c hc
          cases hc
          exact hb
        have htail : repair (x.flatMap f) = (repair x).flatMap f := ih [] nofun
        rw [repair_append hhead, repair_append hcons, repair_append_of_ascii hascii,
          repair_cons_of_lt hb, flatMap_append, flatMap_cons,
          h.flatMap_of_high (le_of_mem_repair hu), htail]
      · have hb' : 0x80 ≤ b := UInt8.not_lt.mp hb
        have hu' : ∀ c ∈ u ++ [b], 0x80 ≤ c := by
          intro c hc
          rcases List.mem_append.mp hc with hc | hc
          · exact hu c hc
          · exact List.mem_singleton.mp hc ▸ hb'
        rw [h.high b hb', ← append_assoc, ih (u ++ [b]) hu', append_assoc,
          singleton_append]
  exact hrun [] nofun

/-! ### Lines -/

def newline : UInt8 := 0x0A

/-- The lines of some bytes, each with the newline that ends it; the last one may have none. -/
def readLines : List UInt8 → List (List UInt8)
  | [] => []
  | b :: rest =>
    if b = newline then [b] :: readLines rest
    else
      match readLines rest with
      | [] => [[b]]
      | line :: lines => (b :: line) :: lines

def IsLine (line : List UInt8) : Prop := ∃ body, line = body ++ [newline] ∧ newline ∉ body

lemma readLines_append {line : List UInt8} (h : IsLine line) (rest : List UInt8) :
    readLines (line ++ rest) = line :: readLines rest := by
  obtain ⟨body, rfl, hbody⟩ := h
  induction body with
  | nil => simp [readLines]
  | cons b body ih =>
    rw [mem_cons, not_or] at hbody
    rw [cons_append, cons_append, readLines, if_neg (Ne.symm hbody.1), ih hbody.2]

lemma readLines_of_notMem {tail : List UInt8} (h : newline ∉ tail) :
    readLines tail = if tail = [] then [] else [tail] := by
  induction tail with
  | nil => rfl
  | cons b tail ih =>
    rw [mem_cons, not_or] at h
    rw [readLines, if_neg (Ne.symm h.1), ih h.2, if_neg (cons_ne_nil b tail)]
    by_cases htail : tail = []
    · simp [htail]
    · simp [htail]

lemma readLines_flatten {lines : List (List UInt8)} (h : ∀ line ∈ lines, IsLine line)
    {tail : List UInt8} (htail : newline ∉ tail) :
    readLines (lines.flatten ++ tail) = lines ++ if tail = [] then [] else [tail] := by
  induction lines with
  | nil => exact readLines_of_notMem htail
  | cons line lines ih =>
    rw [flatten_cons, append_assoc, readLines_append (h line mem_cons_self),
      ih fun l hl => h l (mem_cons_of_mem line hl), cons_append]

lemma isLine_encode {s : Str} (h : '\n' ∉ s) : IsLine (encode (s ++ ['\n'])) := by
  refine ⟨encode s, by rw [encode, flatMap_append]; rfl, ?_⟩
  intro hmem
  obtain ⟨c, hc, hbyte⟩ := List.mem_flatMap.mp hmem
  by_cases hlow : c.toNat < 0x80
  · have hlt : c.val.toNat ≤ 127 := le_of_lt_succ hlow
    unfold String.utf8EncodeChar at hbyte
    rw [if_pos hlt, mem_singleton] at hbyte
    have hval : c.val.toNat = 10 := by
      rw [← toNat_ofNat_of_lt (n := c.val.toNat) (by omega), ← hbyte]
      rfl
    have hnewline : c = '\n' := Char.ext (UInt32.toNat_inj.mp hval)
    exact h (hnewline ▸ hc)
  · exact absurd (le_of_mem_utf8EncodeChar (Nat.not_lt.mp hlow) hbyte) (by decide)

end Utf8
