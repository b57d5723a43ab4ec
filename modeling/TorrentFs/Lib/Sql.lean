import Mathlib.Data.List.Nodup
import Mathlib.Data.List.Infix
import TorrentFs.Lib.Text

/-!
# A fragment of SQL

The parts of SQLite that updates of text columns rest on: `LIKE` with an escape character, which
folds the case of ASCII letters only; `substr`, which counts characters; and an `UPDATE` over a
table with a unique column, which stops at the first row that would collide.
-/

namespace Sql

open Text List

def asciiLower (c : Char) : Char :=
  if 'A' ≤ c ∧ c ≤ 'Z' then Char.ofNat (c.toNat + 32) else c

def substr (s : Str) (start : ℕ) : Str := s.drop (start - 1)

def eqFold (c d : Char) : Bool := asciiLower c == asciiLower d

def like (escape : Char) : Str → Str → Bool
  | [], text => text.isEmpty
  | c :: pattern, text =>
    if c = '%' then text.tails.any (like escape pattern)
    else if c = escape then
      -- the next character of the pattern stands for itself
      match pattern, text with
      | e :: rest, d :: text => eqFold e d && like escape rest text
      | _, _ => false
    else
      match text with
      | d :: text => (c = '_' || eqFold c d) && like escape pattern text
      | [] => false

/-- `text` starts with `p` up to the case of ASCII letters. -/
def FoldedPrefix : Str → Str → Prop
  | [], _ => True
  | _ :: _, [] => False
  | c :: p, d :: text => eqFold c d = true ∧ FoldedPrefix p text

instance : ∀ p text, Decidable (FoldedPrefix p text)
  | [], _ => isTrue trivial
  | _ :: _, [] => isFalse id
  | c :: p, d :: text =>
    have := instDecidableFoldedPrefix p text
    inferInstanceAs (Decidable (eqFold c d = true ∧ FoldedPrefix p text))

lemma foldedPrefix_of_isPrefix {p text : Str} (h : p <+: text) : FoldedPrefix p text := by
  obtain ⟨rest, rfl⟩ := h
  induction p with
  | nil => trivial
  | cons c p ih => exact ⟨by simp [eqFold], ih⟩

lemma like_percent (escape : Char) (text : Str) : like escape ['%'] text = true := by
  rw [like.eq_def]
  show (text.tails.any (like escape [])) = true
  rw [any_eq_true]
  exact ⟨[], (mem_tails _ _).mpr (nil_suffix), rfl⟩

lemma like_escaped {escape : Char} (hescape : escape ≠ '%') (c : Char) (pattern text : Str) :
    like escape (escape :: c :: pattern) text =
      match text with
      | d :: text => eqFold c d && like escape pattern text
      | [] => false := by
  rw [like.eq_def]
  cases text <;> simp [hescape]

lemma like_plain {escape c : Char} (hall : c ≠ '%') (hone : c ≠ '_') (hescape : c ≠ escape)
    (pattern text : Str) :
    like escape (c :: pattern) text =
      match text with
      | d :: text => eqFold c d && like escape pattern text
      | [] => false := by
  rw [like.eq_def]
  simp [hall, hone, hescape]

lemma like_flatMap_append {escape : Char} {quote : Char → Str}
    (hquote : ∀ c, quote c = [escape, c] ∨ (quote c = [c] ∧ c ≠ '%' ∧ c ≠ '_' ∧ c ≠ escape))
    (hescape : escape ≠ '%') (p text : Str) :
    like escape (p.flatMap quote ++ ['%']) text = true ↔ FoldedPrefix p text := by
  induction p generalizing text with
  | nil => simp [like_percent, FoldedPrefix]
  | cons c p ih =>
    have hhead : like escape ((c :: p).flatMap quote ++ ['%']) text =
        match text with
        | d :: text => eqFold c d && like escape (p.flatMap quote ++ ['%']) text
        | [] => false := by
      rw [flatMap_cons, append_assoc]
      rcases hquote c with hc | ⟨hc, hall, hone, hesc⟩
      · rw [hc]
        exact like_escaped hescape c _ text
      · rw [hc]
        exact like_plain hall hone hesc _ text
    rw [hhead]
    cases text with
    | nil => simp [FoldedPrefix]
    | cons d text => simp [FoldedPrefix, ih text]

lemma FoldedPrefix.length_le {p text : Str} (h : FoldedPrefix p text) : p.length ≤ text.length := by
  induction p generalizing text with
  | nil => exact Nat.zero_le _
  | cons c p ih =>
    cases text with
    | nil => exact absurd h id
    | cons d text => exact Nat.succ_le_succ (ih h.2)

lemma eq_slash_of_eqFold {d : Char} (h : eqFold '/' d = true) : d = '/' := by
  have hlower : asciiLower '/' = '/' := by decide
  rw [eqFold, hlower, beq_iff_eq, asciiLower] at h
  split at h
  · next hupper =>
    -- an upper case letter is mapped to a letter
    have hlow : 65 ≤ d.toNat := hupper.1
    have hhigh : d.toNat ≤ 90 := hupper.2
    have hvalid : (d.toNat + 32).isValidChar := .inl (by omega)
    have hnat := congrArg Char.toNat h
    have hletter : (Char.ofNat (d.toNat + 32)).toNat = d.toNat + 32 := by
      rw [Char.ofNat, dif_pos hvalid]
      rfl
    have hslash : '/'.toNat = 47 := rfl
    omega
  · exact h.symm

lemma FoldedPrefix.exists_slash {a : Str} : ∀ {text : Str}, FoldedPrefix (a ++ ['/']) text →
    ∃ b rest, text = b ++ '/' :: rest ∧ b.length = a.length := by
  induction a with
  | nil =>
    intro text h
    cases text with
    | nil => exact absurd h id
    | cons d text =>
      obtain rfl := eq_slash_of_eqFold h.1
      exact ⟨[], text, rfl, rfl⟩
  | cons c a ih =>
    intro text h
    cases text with
    | nil => exact absurd h id
    | cons d text =>
      obtain ⟨b, rest, rfl, hlength⟩ := ih h.2
      exact ⟨d :: b, rest, rfl, congrArg Nat.succ hlength⟩

section Update

variable {ρ κ : Type*} [DecidableEq κ]

/-- The rows still to be updated, after those of `done`: each row that meets `p` is replaced by
its image under `f`, unless another row has the key of the image by then. -/
def updateRows (key : ρ → κ) (p : ρ → Bool) (f : ρ → ρ) : List ρ → List ρ → Option (List ρ)
  | done, [] => some done
  | done, r :: rest =>
    if p r then
      if (done ++ rest).any fun other => key other = key (f r) then none
      else updateRows key p f (done ++ [f r]) rest
    else updateRows key p f (done ++ [r]) rest

def updateUnique (key : ρ → κ) (p : ρ → Bool) (f : ρ → ρ) (rows : List ρ) : Option (List ρ) :=
  updateRows key p f [] rows

variable {key : ρ → κ} {p : ρ → Bool} {f : ρ → ρ} {rows after : List ρ}

private lemma updateRows_eq_some {done : List ρ} (h : updateRows key p f done rows = some after) :
    after = done ++ rows.map fun r => if p r then f r else r := by
  induction rows generalizing done with
  | nil =>
    rw [updateRows, Option.some.injEq] at h
    simp [h]
  | cons r rest ih =>
    rw [updateRows] at h
    split at h
    · next hp =>
      split at h
      · cases h
      · rw [ih h]
        simp [hp]
    · next hp =>
      rw [ih h]
      simp [hp]

lemma updateUnique_eq_some (h : updateUnique key p f rows = some after) :
    after = rows.map fun r => if p r then f r else r := by
  simpa using updateRows_eq_some h

private lemma nodup_updateRows {done : List ρ} (h : updateRows key p f done rows = some after)
    (hnodup : ((done ++ rows).map key).Nodup) : (after.map key).Nodup := by
  induction rows generalizing done with
  | nil =>
    cases h
    simpa using hnodup
  | cons r rest ih =>
    have hperm : ∀ r', ((done ++ r' :: rest).map key).Perm (key r' :: (done ++ rest).map key) := by
      intro r'
      rw [← map_cons]
      exact List.perm_middle.map key
    rw [updateRows] at h
    split at h
    · split at h
      · cases h
      · next hfree =>
        refine ih h ?_
        rw [append_assoc, singleton_append, (hperm (f r)).nodup_iff,
          nodup_cons]
        refine ⟨fun hmem => hfree ?_, (List.nodup_cons.mp ((hperm r).nodup_iff.mp hnodup)).2⟩
        obtain ⟨other, hother, heq⟩ := List.mem_map.mp hmem
        exact List.any_eq_true.mpr ⟨other, hother, decide_eq_true heq⟩
    · refine ih h ?_
      rwa [append_assoc, singleton_append]

lemma nodup_updateUnique
    (h : updateUnique key p f rows = some after) (hnodup : (rows.map key).Nodup) :
    (after.map key).Nodup :=
  nodup_updateRows h hnodup

end Update

lemma find?_unique {ρ κ : Type*} [DecidableEq κ] {key : ρ → κ} {rows : List ρ}
    (hnodup : (rows.map key).Nodup) {k : κ} {r : ρ} :
    rows.find? (fun r => key r = k) = some r ↔ r ∈ rows ∧ key r = k := by
  constructor
  · intro h
    exact ⟨mem_of_find?_eq_some h, by simpa using find?_some h⟩
  · rintro ⟨hr, rfl⟩
    cases hfind : rows.find? fun r' => key r' = key r with
    | none => simpa using List.find?_eq_none.mp hfind r hr
    | some r' =>
      have hkey : key r' = key r := by simpa using find?_some hfind
      rw [inj_on_of_nodup_map hnodup (mem_of_find?_eq_some hfind) hr hkey]

end Sql
