import Mathlib.Data.List.Basic

/-!
# Programs that may stop between two commits

A program is a list of steps, each of which commits some states one after the other or fails. It
may stop after any commit; what is left then is the last state committed.
-/

namespace Commits

open List

universe w

variable {σ ε ι : Type*}

/-- A step commits a list of states, in order, or fails. -/
structure Step (σ ε ι : Type*) where
  label : ι
  commit : σ → Except ε (List σ)

def once (label : ι) (f : σ → Except ε σ) : Step σ ε ι :=
  ⟨label, fun s => (f s).map fun t => [t]⟩

def run : List (Step σ ε ι) → σ → Except ε σ
  | [], s => .ok s
  | p :: ps, s =>
    match p.commit s with
    | .error e => .error e
    | .ok states => run ps (states.getLastD s)

def mark (label : ι) : List σ → List ((ι × ℕ) × σ)
  | [] => []
  | t :: ts => ((label, ts.length), t) :: mark label ts

/-- The states left by a stop: after a commit of a step, with the commits it still had to make. -/
def stops : List (Step σ ε ι) → σ → List ((ι × ℕ) × σ)
  | [], _ => []
  | p :: ps, s =>
    match p.commit s with
    | .error _ => []
    | .ok states => mark p.label states ++ stops ps (states.getLastD s)

variable {t s : σ} {ps : List (Step σ ε ι)} {xs : List σ}

lemma mem_mark {label : ι} {states : List σ} {l : ι} {n : ℕ} (h : ((l, n), t) ∈ mark label states) :
    l = label ∧ ∃ before after, states = before ++ t :: after ∧ after.length = n := by
  induction states with
  | nil => simp [mark] at h
  | cons u us ih =>
    rw [mark, mem_cons] at h
    rcases h with h | h
    · obtain ⟨⟨rfl, rfl⟩, rfl⟩ : (l = label ∧ n = us.length) ∧ t = u := by simpa using h
      exact ⟨rfl, [], us, rfl, rfl⟩
    · obtain ⟨hl, before, after, hstates, hafter⟩ := ih h
      exact ⟨hl, u :: before, after, by rw [hstates, cons_append], hafter⟩

lemma bind_eq_ok {α β : Type w} {x : Except ε α} {f : α → Except ε β} {b : β} :
    (x >>= f) = .ok b ↔ ∃ a, x = .ok a ∧ f a = .ok b := by
  cases x <;> simp [bind, Except.bind]

lemma map_eq_ok {α β : Type w} {x : Except ε α} {f : α → β} {b : β} :
    x.map f = .ok b ↔ ∃ a, x = .ok a ∧ f a = b := by
  cases x <;> simp [Except.map]

lemma run_cons_eq_ok {p : Step σ ε ι} : run (p :: ps) s = .ok t ↔
      ∃ states, p.commit s = .ok states ∧ run ps (states.getLastD s) = .ok t := by
  rw [run]
  cases h : p.commit s with
  | error | ok => simp

lemma run_once_eq_ok {label : ι} {f : σ → Except ε σ} :
    run (once label f :: ps) s = .ok t ↔ ∃ u, f s = .ok u ∧ run ps u = .ok t := by
  rw [run_cons_eq_ok]
  cases h : f s with
  | error | ok => simp [once, h, Except.map]

lemma stops_cons_of_ok {p : Step σ ε ι} {states : List σ} (h : p.commit s = .ok states) :
    stops (p :: ps) s = mark p.label states ++ stops ps (states.getLastD s) := by
  rw [stops, h]

lemma mem_stops_once {label : ι} {f : σ → Except ε σ}
    {stop : ι × ℕ} (h : (stop, t) ∈ stops (once label f :: ps) s) :
    ∃ u, f s = .ok u ∧ ((stop = (label, 0) ∧ t = u) ∨ (stop, t) ∈ stops ps u) := by
  rw [stops] at h
  cases hf : f s with
  | error e => simp [once, hf, Except.map] at h
  | ok u => exact ⟨u, rfl, by simpa [once, hf, Except.map, mark] using h⟩

lemma run_append {qs : List (Step σ ε ι)} :
    run (ps ++ qs) s = .ok t ↔ ∃ u, run ps s = .ok u ∧ run qs u = .ok t := by
  induction ps generalizing s with
  | nil => simp [run]
  | cons p ps ih =>
    rw [cons_append, run_cons_eq_ok]
    constructor
    · rintro ⟨states, hp, hrest⟩
      obtain ⟨u, hps, hqs⟩ := ih.mp hrest
      exact ⟨u, run_cons_eq_ok.mpr ⟨states, hp, hps⟩, hqs⟩
    · rintro ⟨u, hps, hqs⟩
      obtain ⟨states, hp, hrest⟩ := run_cons_eq_ok.mp hps
      exact ⟨states, hp, ih.mpr ⟨u, hrest, hqs⟩⟩

lemma stops_append {qs : List (Step σ ε ι)} {u : σ} (h : run ps s = .ok u) :
    stops (ps ++ qs) s = stops ps s ++ stops qs u := by
  induction ps generalizing s with
  | nil =>
    cases h
    rfl
  | cons p ps ih =>
    obtain ⟨states, hp, hrest⟩ := run_cons_eq_ok.mp h
    rw [cons_append, stops_cons_of_ok hp, stops_cons_of_ok hp, ih hrest, append_assoc]

lemma label_of_mem_stops {stop : ι × ℕ}
    (h : (stop, t) ∈ stops ps s) : stop.1 ∈ ps.map Step.label := by
  induction ps generalizing s with
  | nil => simp [stops] at h
  | cons p ps ih =>
    rw [stops] at h
    split at h
    · simp at h
    · rw [map_cons, mem_cons]
      rcases List.mem_append.mp h with h | h
      · exact .inl (mem_mark h).1
      · exact .inr (ih h)

/-! ### Commits that only add -/

/-- Every commit is larger than the state before it. -/
def Grows (μ : σ → ℕ) (s : σ) (states : List σ) : Prop :=
  List.IsChain (fun t u => μ t < μ u) (s :: states)

variable {μ : σ → ℕ}

lemma getLastD_append (xs ys : List σ) (s : σ) :
    (xs ++ ys).getLastD s = ys.getLastD (xs.getLastD s) := by
  induction xs generalizing s with
  | nil => rfl
  | cons x xs ih => rw [cons_append, getLastD_cons, getLastD_cons, ih]

lemma getLastD_map {τ : Type*} (f : σ → τ) (xs : List σ) (s : σ) :
    (xs.map f).getLastD (f s) = f (xs.getLastD s) := by
  induction xs generalizing s with
  | nil => rfl
  | cons x xs ih => rw [map_cons, getLastD_cons, getLastD_cons, ih]

lemma Grows.append {ys : List σ} (hxs : Grows μ s xs)
    (hys : Grows μ (xs.getLastD s) ys) : Grows μ s (xs ++ ys) := by
  induction xs generalizing s with
  | nil => exact hys
  | cons x xs ih =>
    obtain ⟨hlt, hrest⟩ := List.isChain_cons_cons.mp hxs
    exact List.isChain_cons_cons.mpr ⟨hlt, ih hrest (by rwa [getLastD_cons] at hys)⟩

lemma Grows.lt_last {x : σ} (h : Grows μ s (x :: xs)) : μ s < μ (xs.getLastD x) := by
  induction xs generalizing s x with
  | nil => exact (List.isChain_cons_cons.mp h).1
  | cons y ys ih =>
    obtain ⟨hlt, hrest⟩ := List.isChain_cons_cons.mp h
    rw [getLastD_cons]
    exact Nat.lt_trans hlt (ih hrest)

lemma Grows.last_eq_iff (h : Grows μ s xs) : s = xs.getLastD s ↔ xs = [] := by
  cases xs with
  | nil => simp
  | cons x xs =>
    rw [getLastD_cons]
    refine ⟨fun heq => ?_, fun hnil => nomatch hnil⟩
    have hlt := h.lt_last
    rw [← heq] at hlt
    exact absurd hlt (Nat.lt_irrefl _)

lemma Grows.of_append {ys : List σ} (h : Grows μ s (xs ++ t :: ys)) : Grows μ t ys := by
  induction xs generalizing s with
  | nil => exact (List.isChain_cons_cons.mp h).2
  | cons x xs ih => exact ih (List.isChain_cons_cons.mp h).2

end Commits
