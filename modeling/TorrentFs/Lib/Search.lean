import Mathlib.Data.List.Basic

/-!
# Binary search for a partition point

A list whose first elements satisfy a predicate and whose other elements do not is cut where the
predicate stops to hold. The search halves the part of the list in which the cut lies.
-/

namespace Search

variable {α : Type*}

/-- The halving of `[base, base + size)`; the first argument bounds the number of turns. -/
def halve (holds : ℕ → Bool) : ℕ → ℕ → ℕ → ℕ
  | 0, base, _ => base
  | turns + 1, base, size =>
    if 1 < size then
      let half := size / 2
      halve holds turns (if holds (base + half) then base + half else base) (size - half)
    else base

def holdsAt (p : α → Bool) (l : List α) (i : ℕ) : Bool := l[i]?.any p

/-- `slice::partition_point`, which compares the last candidate once more after the halving. -/
def partitionPoint (p : α → Bool) (l : List α) : ℕ :=
  if l = [] then 0
  else
    let base := halve (holdsAt p l) l.length 0 l.length
    base + (holdsAt p l base).toNat

/-- The halving keeps the cut: what it leaves is the element before the cut, or the first one. -/
lemma halve_near_cut {holds : ℕ → Bool} {cut : ℕ} (turns base size : ℕ)
    (hcut : ∀ i < base + size, holds i = true ↔ i < cut) (hturns : size ≤ turns) (hsize : 0 < size)
    (hbase : base = 0 ∨ base < cut) (hend : cut ≤ base + size) :
    let last := halve holds turns base size
    last < base + size ∧ (last = 0 ∨ last < cut) ∧ cut ≤ last + 1 := by
  induction turns generalizing base size with
  | zero => omega
  | succ turns ih =>
    rw [halve]
    split
    · next hlarge =>
      dsimp only
      by_cases hmid : holds (base + size / 2) = true
      · rw [if_pos hmid]
        have hlt := (hcut (base + size / 2) (by omega)).mp hmid
        obtain ⟨hlast, hnear⟩ := ih (base + size / 2) (size - size / 2)
          (fun i hi => hcut i (by omega)) (by omega) (by omega) (.inr hlt) (by omega)
        exact ⟨by omega, hnear⟩
      · rw [if_neg hmid]
        have hle := mt (hcut (base + size / 2) (by omega)).mpr hmid
        obtain ⟨hlast, hnear⟩ := ih base (size - size / 2)
          (fun i hi => hcut i (by omega)) (by omega) (by omega) hbase (by omega)
        exact ⟨by omega, hnear⟩
    · exact ⟨by omega, hbase, by omega⟩

theorem partitionPoint_eq {p : α → Bool} {l : List α} {cut : ℕ} (hle : cut ≤ l.length)
    (hcut : ∀ i < l.length, holdsAt p l i = true ↔ i < cut) : partitionPoint p l = cut := by
  unfold partitionPoint
  split
  · next hnil => simp_all
  · next hnil =>
    have hpos : 0 < l.length := List.length_pos_iff.mpr hnil
    obtain ⟨hlast, hbefore, hnear⟩ := halve_near_cut l.length 0 l.length
      (by simpa using hcut) (Nat.le_refl _) hpos (.inl rfl) (by omega)
    simp only [Nat.zero_add] at hlast
    dsimp only
    cases hholds : holdsAt p l (halve (holdsAt p l) l.length 0 l.length) with
    | true =>
      have := (hcut _ hlast).mp hholds
      simp only [Bool.toNat_true]
      omega
    | false =>
      have := mt (hcut _ hlast).mpr (by simp [hholds])
      simp only [Bool.toNat_false]
      omega

end Search
