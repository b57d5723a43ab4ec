import Mathlib.Data.Nat.Notation

/-!
# Loops that consume their input

A `while` loop is given by its turn: from a state it fails, goes on with another state, or leaves
the loop with a result. When every turn makes a measure of the state smaller, the loop ends, and a
bound on the number of its turns can be read off the state it starts from.
-/

namespace Loop

variable {σ ρ : Type*}

def turns (turn : σ → Option (σ ⊕ ρ)) : ℕ → σ → Option ρ
  | 0, _ => none
  | n + 1, s =>
    match turn s with
    | none => none
    | some (.inl t) => turns turn n t
    | some (.inr r) => some r

def run (turn : σ → Option (σ ⊕ ρ)) (size : σ → ℕ) (s : σ) : Option ρ :=
  turns turn (size s + 1) s

/-- Every turn that goes on makes the measure smaller. -/
def Shrinks (turn : σ → Option (σ ⊕ ρ)) (size : σ → ℕ) : Prop :=
  ∀ s t, turn s = some (.inl t) → size t < size s

variable {turn : σ → Option (σ ⊕ ρ)} {size : σ → ℕ} {s t : σ} {r : ρ}

lemma turns_of_lt (h : Shrinks turn size) {n m : ℕ} (hn : size s < n) (hm : size s < m) :
    turns turn n s = turns turn m s := by
  induction n generalizing m s with
  | zero => exact absurd hn (Nat.not_lt_zero _)
  | succ n ih =>
    obtain ⟨m, rfl⟩ : ∃ k, m = k + 1 := Nat.exists_eq_succ_of_ne_zero (by omega)
    rw [turns, turns]
    split
    · rfl
    · next t ht =>
      have hlt := h s t ht
      exact ih (by omega) (by omega)
    · rfl

lemma run_of_next (h : Shrinks turn size) (hs : turn s = some (.inl t)) :
    run turn size s = run turn size t := by
  have hlt := h s t hs
  rw [run, turns, hs]
  exact turns_of_lt h hlt (Nat.lt_succ_self _)

lemma run_of_done (hs : turn s = some (.inr r)) : run turn size s = some r := by
  rw [run, turns, hs]

lemma post_of_run (Inv : σ → Prop) (Post : ρ → Prop)
    (hnext : ∀ s t, Inv s → turn s = some (.inl t) → Inv t)
    (hdone : ∀ s r, Inv s → turn s = some (.inr r) → Post r) (hs : Inv s)
    (hrun : run turn size s = some r) : Post r := by
  unfold run at hrun
  generalize size s + 1 = n at hrun
  induction n generalizing s with
  | zero => cases hrun
  | succ n ih =>
    rw [turns] at hrun
    split at hrun
    · cases hrun
    · next t ht => exact ih (hnext s t hs ht) hrun
    · next r' hr =>
      cases hrun
      exact hdone s r hs hr

end Loop
