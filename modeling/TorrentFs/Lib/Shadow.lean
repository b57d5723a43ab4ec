import Mathlib.Data.List.Basic

/-!
# Write-only devices and their shadow copies

A device holds a value in each of its cells, numbered from zero, and can only be written. Its
owner keeps a shadow copy of the first cells and leaves out the writes that, by the copy, change
nothing. The module says when that is the same as writing every cell.
-/

namespace Shadow

open List Function

variable {α : Type*}

inductive Write (α : Type*)
  | cell (i : ℕ) (a : α)
  | all (a : α)

def write (device : ℕ → α) : Write α → ℕ → α
  | .cell i a => Function.update device i a
  | .all a => fun _ => a

def writes (device : ℕ → α) (ws : List (Write α)) : ℕ → α := ws.foldl write device

@[simp] lemma writes_nil (device : ℕ → α) : writes device [] = device := rfl

@[simp] lemma writes_cons (device : ℕ → α) (w : Write α) (ws : List (Write α)) :
    writes device (w :: ws) = writes (write device w) ws := rfl

/-- The shadow copy agrees with the cells it is a copy of. -/
def Mirrors (device : ℕ → α) (shadow : List α) : Prop :=
  ∀ p a, shadow[p]? = some a → device p = a

lemma mirrors_replicate (n : ℕ) (a : α) : Mirrors (fun _ => a) (List.replicate n a) := by
  intro p b hb
  rw [getElem?_replicate] at hb
  split at hb
  · exact Option.some.inj hb
  · cases hb

lemma Mirrors.set {device : ℕ → α} {shadow : List α} (h : Mirrors device shadow) (i : ℕ)
    (a : α) : Mirrors (write device (.cell i a)) (shadow.set i a) := by
  intro p b hb
  by_cases hp : p = i
  · subst hp
    rw [getElem?_set_self'] at hb
    obtain ⟨-, -, rfl⟩ := Option.map_eq_some_iff.mp hb
    exact update_self p a device
  · rw [getElem?_set_ne (Ne.symm hp)] at hb
    exact (update_of_ne hp a device).trans (h p b hb)

variable [DecidableEq α]

/-- The writes that bring the cells from `i` on to the values of `target`; with `skip`, without
those to cells whose copy has the value already. -/
def updatesFrom (skip : Bool) : ℕ → List α → List α → List (Write α)
  | _, _, [] => []
  | i, shadow, a :: target =>
    let rest := updatesFrom skip (i + 1) shadow.tail target
    if skip ∧ shadow.head? = some a then rest else .cell i a :: rest

def updates (skip : Bool) (shadow target : List α) : List (Write α) :=
  updatesFrom skip 0 shadow target

lemma writes_updatesFrom (skip : Bool) (device : ℕ → α) (i : ℕ) (shadow target : List α) (p : ℕ) :
    writes device (updatesFrom skip i shadow target) p =
      if i ≤ p ∧ ¬ (skip ∧ shadow[p - i]? = target[p - i]?) then
        (target[p - i]?).getD (device p) else device p := by
  induction target generalizing i shadow device with
  | nil => simp [updatesFrom]
  | cons a target ih =>
    -- the cell `i` is the first of the list, the others are those of the induction
    have htail : ∀ q, i < q → shadow.tail[q - (i + 1)]? = shadow[q - i]? ∧
        target[q - (i + 1)]? = (a :: target)[q - i]? := by
      intro q hq
      obtain ⟨d, rfl⟩ : ∃ d, q = i + 1 + d := ⟨q - (i + 1), by omega⟩
      have hsub : i + 1 + d - i = d + 1 := by omega
      rw [Nat.add_sub_cancel_left, hsub, getElem?_tail, getElem?_cons_succ]
      exact ⟨rfl, rfl⟩
    obtain ⟨first, hfirst, hwritten⟩ : ∃ first : ℕ → α,
        (∀ q, first q =
          if q = i ∧ ¬ (skip ∧ shadow[0]? = some a) then a else device q) ∧
        writes device (updatesFrom skip i shadow (a :: target)) =
          writes first (updatesFrom skip (i + 1) shadow.tail target) := by
      simp only [updatesFrom, head?_eq_getElem?]
      by_cases hskip : skip ∧ shadow[0]? = some a
      · exact ⟨device, fun q => by simp [hskip], by rw [if_pos hskip]⟩
      · refine ⟨write device (.cell i a), fun q => ?_, by rw [if_neg hskip]; rfl⟩
        simp only [hskip, not_false_eq_true, and_true, write, update_apply]
    rw [hwritten, ih, hfirst]
    rcases Nat.lt_trichotomy p i with hlt | rfl | hgt
    · simp [Nat.not_le_of_lt hlt, Nat.ne_of_lt hlt, show ¬ i + 1 ≤ p by omega]
    · simp only [Nat.not_succ_le_self, Nat.le_refl, Nat.sub_self, getElem?_cons_zero,
        Option.getD_some, false_and, true_and, if_false]
    · obtain ⟨hshadow, htarget⟩ := htail p hgt
      simp only [hshadow, htarget, Nat.ne_of_gt hgt, Nat.le_of_lt hgt, Nat.succ_le_of_lt hgt,
        false_and, if_false]

lemma mirrors_updates_all (device : ℕ → α) (shadow target : List α) :
    Mirrors (writes device (updates false shadow target)) target := by
  intro p a ha
  rw [updates, writes_updatesFrom]
  simp [ha]

lemma Mirrors.updates_skip {device : ℕ → α} {shadow : List α} (h : Mirrors device shadow)
    (target : List α) :
    writes device (updates true shadow target) = writes device (updates false shadow target) := by
  ext p
  rw [updates, updates, writes_updatesFrom, writes_updatesFrom]
  simp only [Nat.zero_le, Nat.sub_zero, true_and, Bool.false_eq_true, false_and,
    not_false_eq_true, if_true]
  split
  · rfl
  · next hskip =>
    -- the cell was left out: its copy, so the cell itself, has the new value
    have hsame : shadow[p]? = target[p]? := not_not.mp hskip
    cases htarget : target[p]? with
    | none => rfl
    | some a => exact h p a (hsame.trans htarget)

lemma Mirrors.updates {device : ℕ → α} {shadow : List α} (h : Mirrors device shadow)
    (skip : Bool) (target : List α) :
    Mirrors (writes device (updates skip shadow target)) target := by
  cases skip
  · exact mirrors_updates_all device shadow target
  · rw [h.updates_skip]
    exact mirrors_updates_all device shadow target

end Shadow
