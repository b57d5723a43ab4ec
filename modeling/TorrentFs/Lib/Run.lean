import Mathlib.Logic.Relation

/-!
# Runs of labelled transition systems

A system is a partial step function: `step s a` is the state after action `a`, or `none`
when `a` cannot happen in `s`. A run is a list of actions, each of which can happen where it
is taken. An interleaving of several components is a run over the union of their actions.
-/

namespace Run

variable {σ α : Type*} (step : σ → α → Option σ)

def runFrom : σ → List α → Option σ
  | s, [] => some s
  | s, a :: as => (step s a).bind fun t => runFrom t as

/-- Every step of the run of `as` from `s` satisfies `P`, a predicate of the state before the
step and of the action taken. -/
def Along (P : σ → α → Prop) : σ → List α → Prop
  | _, [] => True
  | s, a :: as => P s a ∧ ∀ t, step s a = some t → Along P t as

@[simp] lemma runFrom_nil (s : σ) : runFrom step s [] = some s := rfl

lemma runFrom_cons (s : σ) (a : α) (as : List α) :
    runFrom step s (a :: as) = (step s a).bind fun t => runFrom step t as := rfl

@[simp] lemma along_nil (P : σ → α → Prop) (s : σ) : Along step P s [] := trivial

variable {step}

lemma runFrom_cons_eq_some {s u : σ} {a : α} {as : List α} : runFrom step s (a :: as) = some u ↔
      ∃ t, step s a = some t ∧ runFrom step t as = some u := by
  rw [runFrom_cons, Option.bind_eq_some_iff]

lemma runFrom_append {s u : σ} {as bs : List α} : runFrom step s (as ++ bs) = some u ↔
      ∃ t, runFrom step s as = some t ∧ runFrom step t bs = some u := by
  induction as generalizing s with
  | nil => simp
  | cons a as ih =>
    rw [List.cons_append, runFrom_cons_eq_some]
    constructor
    · rintro ⟨t, ha, hrest⟩
      obtain ⟨t', hmid, hlast⟩ := ih.mp hrest
      exact ⟨t', runFrom_cons_eq_some.mpr ⟨t, ha, hmid⟩, hlast⟩
    · rintro ⟨t', hfirst, hlast⟩
      obtain ⟨t, ha, hmid⟩ := runFrom_cons_eq_some.mp hfirst
      exact ⟨t, ha, ih.mpr ⟨t', hmid, hlast⟩⟩

lemma along_cons {P : σ → α → Prop} {s t : σ} {a : α} {as : List α} (h : step s a = some t) :
    Along step P s (a :: as) ↔ P s a ∧ Along step P t as := by
  refine and_congr_right fun _ => ⟨fun hall => hall t h, fun htail u hu => ?_⟩
  rwa [← Option.some.inj (h.symm.trans hu)]

/-- Whether a decidable predicate holds along a run can be decided by running. -/
instance decidableAlong {P : σ → α → Prop} [∀ s a, Decidable (P s a)] :
    ∀ (s : σ) (as : List α), Decidable (Along step P s as)
  | _, [] => isTrue trivial
  | s, a :: as =>
    match h : step s a with
    | none => decidable_of_iff (P s a)
        ⟨fun hp => ⟨hp, fun _ ht => absurd (h.symm.trans ht) (Option.some_ne_none _).symm⟩,
          And.left⟩
    | some t =>
      have : Decidable (Along step P t as) := decidableAlong t as
      decidable_of_iff (P s a ∧ Along step P t as) (along_cons h).symm

/-- What holds at the end of a concrete run can be checked by running it. -/
instance decidableExistsEqSome (o : Option σ) (P : σ → Prop) [DecidablePred P] :
    Decidable (∃ s, o = some s ∧ P s) :=
  inferInstanceAs (Decidable (∃ s ∈ o, P s))

lemma invariant_of_run_along {P : σ → α → Prop} {Inv : σ → Prop}
    (hstep : ∀ s a t, Inv s → P s a → step s a = some t → Inv t)
    {s u : σ} {as : List α} (hs : Inv s) (halong : Along step P s as)
    (hrun : runFrom step s as = some u) : Inv u := by
  induction as generalizing s with
  | nil =>
    rw [runFrom_nil, Option.some.injEq] at hrun
    exact hrun ▸ hs
  | cons a as ih =>
    obtain ⟨t, ha, hrest⟩ := runFrom_cons_eq_some.mp hrun
    exact ih (hstep s a t hs halong.1 ha) (halong.2 t ha) hrest

lemma along_of_forall {P : σ → α → Prop} (h : ∀ s a, P s a) (s : σ) (as : List α) :
    Along step P s as := by
  induction as generalizing s with
  | nil => trivial
  | cons a as ih => exact ⟨h s a, fun t _ => ih t⟩

lemma invariant_of_run {Inv : σ → Prop} (hstep : ∀ s a t, Inv s → step s a = some t → Inv t)
    {s u : σ} {as : List α} (hs : Inv s) (hrun : runFrom step s as = some u) : Inv u :=
  invariant_of_run_along (P := fun _ _ => True) (fun s a t hinv _ => hstep s a t hinv) hs
    (along_of_forall (fun _ _ => trivial) s as) hrun

end Run
