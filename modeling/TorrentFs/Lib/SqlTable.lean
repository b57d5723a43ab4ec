import Mathlib.Data.List.Nodup
import Mathlib.Algebra.Order.Ring.Int

/-!
# Tables with an automatic id

A table whose rows have an `INTEGER PRIMARY KEY AUTOINCREMENT`: the rows in the order of their ids,
with the last id the table ever gave. The order and the bound are fields, so an id finds at most
one row and a new row never takes the id of an old one. A statement of a transaction may fail; then
the transaction is rolled back.
-/

namespace Sql

/-- How a statement can fail: a constraint does not hold, there is no id left, or the database
itself fails. -/
inductive SqlError
  | constraint
  | full
  | other
deriving DecidableEq

def maxRowId : ℕ := 2 ^ 63 - 1

/-- A table with an `AUTOINCREMENT` id. -/
structure AutoTable (ρ : Type*) (key : ρ → ℕ) where
  rows : List ρ
  last : ℕ
  sorted : rows.Pairwise fun r r' => key r < key r'
  bounded : ∀ r ∈ rows, key r ≤ last

namespace AutoTable

variable {ρ : Type*} {key : ρ → ℕ}

instance : Membership ρ (AutoTable ρ key) := ⟨fun t r => r ∈ t.rows⟩

variable {t : AutoTable ρ key} {r : ρ} {n : ℕ}

lemma mem_def : r ∈ t ↔ r ∈ t.rows := Iff.rfl

lemma eq_of_key {r' : ρ} (hr : r ∈ t) (hr' : r' ∈ t) (h : key r = key r') : r = r' := by
  have hnodup : (t.rows.map key).Nodup := List.pairwise_map.mpr (t.sorted.imp Nat.ne_of_lt)
  exact List.inj_on_of_nodup_map hnodup hr hr' h

def empty : AutoTable ρ key := ⟨[], 0, .nil, by simp⟩

@[simp] lemma notMem_empty (r : ρ) : r ∉ (empty : AutoTable ρ key) := List.not_mem_nil

def get? (t : AutoTable ρ key) (n : ℕ) : Option ρ := t.rows.find? fun r => key r == n

lemma get?_eq_some : t.get? n = some r ↔ r ∈ t ∧ key r = n := by
  constructor
  · intro h
    exact ⟨List.mem_of_find?_eq_some h, by simpa using List.find?_some h⟩
  · rintro ⟨hr, rfl⟩
    cases hfind : t.rows.find? fun r' => key r' == key r with
    | none => simpa using List.find?_eq_none.mp hfind r hr
    | some r' =>
      have hkey : key r' = key r := by simpa using List.find?_some hfind
      exact hfind.trans (congrArg some (eq_of_key (List.mem_of_find?_eq_some hfind) hr hkey))

lemma get?_eq_none : t.get? n = none ↔ ∀ r ∈ t, key r ≠ n := by
  simp [get?, mem_def]

def filter (t : AutoTable ρ key) (p : ρ → Bool) : AutoTable ρ key where
  rows := t.rows.filter p
  last := t.last
  sorted := t.sorted.filter p
  bounded := fun r hr => t.bounded r (List.mem_filter.mp hr).1

@[simp] lemma mem_filter {p : ρ → Bool} : r ∈ t.filter p ↔ r ∈ t ∧ p r = true := List.mem_filter

def update (t : AutoTable ρ key) (n : ℕ) (f : ρ → ρ) (hf : ∀ r, key (f r) = key r) :
    AutoTable ρ key where
  rows := t.rows.map fun r => if key r = n then f r else r
  last := t.last
  sorted := by
    have hkey : ∀ r, key (if key r = n then f r else r) = key r := by
      intro r
      split
      · exact hf r
      · rfl
    rw [List.pairwise_map]
    exact t.sorted.imp fun h => by rwa [hkey, hkey]
  bounded := by
    intro r hr
    obtain ⟨r', hr', rfl⟩ := List.mem_map.mp hr
    split
    · rw [hf]
      exact t.bounded r' hr'
    · exact t.bounded r' hr'

lemma mem_update {f : ρ → ρ} (hf : ∀ r, key (f r) = key r) : r ∈ t.update n f hf ↔
      (r ∈ t ∧ key r ≠ n) ∨ ∃ r' ∈ t, key r' = n ∧ f r' = r := by
  show r ∈ t.rows.map _ ↔ _
  rw [List.mem_map]
  constructor
  · rintro ⟨r', hr', rfl⟩
    by_cases h : key r' = n
    · exact .inr ⟨r', hr', h, by rw [if_pos h]⟩
    · rw [if_neg h]
      exact .inl ⟨hr', h⟩
  · rintro (⟨hr, h⟩ | ⟨r', hr', h, rfl⟩)
    · exact ⟨r, hr, if_neg h⟩
    · exact ⟨r', hr', if_pos h⟩

def withRows (t : AutoTable ρ key) (rows : List ρ) (h : rows.map key = t.rows.map key) :
    AutoTable ρ key where
  rows
  last := t.last
  sorted := by
    rw [← List.pairwise_map (f := key) (R := (· < ·)), h, List.pairwise_map]
    exact t.sorted
  bounded := by
    intro r hr
    obtain ⟨r', hr', hkey⟩ := List.mem_map.mp (h ▸ List.mem_map_of_mem hr)
    exact hkey ▸ t.bounded r' hr'

def insert (t : AutoTable ρ key) (row : ℕ → ρ) (hrow : ∀ n, key (row n) = n) :
    Except SqlError (AutoTable ρ key × ℕ) :=
  if t.last < maxRowId then
    .ok ({  rows := t.rows ++ [row (t.last + 1)]
            last := t.last + 1
            sorted := by
              rw [List.pairwise_append]
              refine ⟨t.sorted, List.pairwise_singleton _ _, fun r hr r' hr' => ?_⟩
              rw [List.mem_singleton.mp hr', hrow]
              exact Nat.lt_succ_of_le (t.bounded r hr)
            bounded := by
              intro r hr
              rcases List.mem_append.mp hr with hr | hr
              · exact Nat.le_succ_of_le (t.bounded r hr)
              · exact Nat.le_of_eq (by rw [List.mem_singleton.mp hr, hrow]) }, t.last + 1)
  else .error .full

lemma insert_eq_ok {t' : AutoTable ρ key} {row : ℕ → ρ} {hrow : ∀ n, key (row n) = n}
    (h : t.insert row hrow = .ok (t', n)) :
    (∀ r, r ∈ t' ↔ r ∈ t ∨ r = row n) ∧ ∀ r ∈ t, key r ≠ n := by
  unfold insert at h
  split at h
  · cases h
    refine ⟨fun r => by simp [mem_def], fun r hr heq => ?_⟩
    have := t.bounded r hr
    omega
  · cases h

lemma rows_of_insert {t' : AutoTable ρ key} {row : ℕ → ρ} {hrow : ∀ n, key (row n) = n}
    (h : t.insert row hrow = .ok (t', n)) : t'.rows = t.rows ++ [row n] := by
  unfold insert at h
  split at h
  · cases h
    rfl
  · cases h

end AutoTable

section Transaction

variable {σ α : Type*}

/-- A transaction on the tables `s`. When a statement fails, `?` ends the function and the
transaction is rolled back; `fault` is the failure of a statement that none of the tables
explains. -/
def transaction (fault : Option SqlError) (body : σ → Except SqlError (α × σ)) (s : σ) :
    Except SqlError α × σ :=
  match fault with
  | some e => (.error e, s)
  | none =>
    match body s with
    | .error e => (.error e, s)
    | .ok (a, s') => (.ok a, s')

lemma transaction_cases (fault : Option SqlError) (body : σ → Except SqlError (α × σ)) (s : σ) :
    (∃ e, transaction fault body s = (.error e, s)) ∨
      ∃ a s', body s = .ok (a, s') ∧ transaction fault body s = (.ok a, s') := by
  cases fault with
  | some e => exact .inl ⟨e, rfl⟩
  | none =>
    cases h : body s with
    | error e => exact .inl ⟨e, by simp [transaction, h]⟩
    | ok result => exact .inr ⟨result.1, result.2, rfl, by simp [transaction, h]⟩

end Transaction

end Sql
