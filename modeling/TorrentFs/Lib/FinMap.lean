import Mathlib.Algebra.Order.Ring.Int
import Mathlib.Algebra.BigOperators.Group.Finset.Lemmas
import Mathlib.Algebra.Order.BigOperators.Group.Finset

/-!
# Finite maps with a summable support

A finite map is its lookup function together with the finite set of its keys. The key set
is a field, so totals over all entries are `Finset` sums and every update comes with a
lemma saying how such a total moves.
-/

/-- A finite map: a lookup function and the finite set of the keys it is defined on. -/
structure FinMap (K V : Type*) where
  /-- The value stored under a key. -/
  get : K → Option V
  /-- The keys that have a value. -/
  keys : Finset K
  /-- The key set is exactly the domain of the lookup function. -/
  mem_keys : ∀ k, k ∈ keys ↔ (get k).isSome

namespace FinMap

open List Option Finset

variable {K V W : Type*}

variable {m : FinMap K V}

@[ext]
lemma ext {n : FinMap K V} (h : ∀ k, m.get k = n.get k) : m = n := by
  obtain ⟨get, keys, hkeys⟩ := m
  obtain ⟨get', keys', hkeys'⟩ := n
  obtain rfl : get = get' := funext h
  obtain rfl : keys = keys' := by
    ext k
    rw [hkeys, hkeys']
  rfl

def empty : FinMap K V where
  get := fun _ => none
  keys := ∅
  mem_keys := by simp

@[simp] lemma get_empty (k : K) : (empty : FinMap K V).get k = none := rfl

@[simp] lemma keys_empty : (empty : FinMap K V).keys = ∅ := rfl

def contains (m : FinMap K V) (k : K) : Bool := (m.get k).isSome

def isEmpty [DecidableEq K] (m : FinMap K V) : Bool := decide (m.keys = ∅)

lemma mem_keys_iff_exists {k : K} : k ∈ m.keys ↔ ∃ v, m.get k = some v := by
  rw [m.mem_keys, isSome_iff_exists]

lemma mem_keys_of_get {k : K} {v : V} (h : m.get k = some v) : k ∈ m.keys :=
  mem_keys_iff_exists.mpr ⟨v, h⟩

lemma notMem_keys {k : K} : k ∉ m.keys ↔ m.get k = none := by
  rw [m.mem_keys, Bool.not_eq_true, isSome_eq_false_iff, isNone_iff_eq_none]

def filter (m : FinMap K V) (p : K → Bool) : FinMap K V where
  get := fun k => if p k then m.get k else none
  keys := m.keys.filter (fun k => p k)
  mem_keys := by
    intro k
    by_cases h : p k <;> simp [h, m.mem_keys]

@[simp] lemma get_filter (m : FinMap K V) (p : K → Bool) (k : K) :
    (m.filter p).get k = if p k then m.get k else none := rfl

@[simp] lemma keys_filter (m : FinMap K V) (p : K → Bool) :
    (m.filter p).keys = m.keys.filter (fun k => p k) := rfl

def retain (m : FinMap K V) (p : V → Bool) : FinMap K V where
  get := fun k => (m.get k).filter p
  keys := m.keys.filter (fun k => (m.get k).any p)
  mem_keys := by
    intro k
    rw [Finset.mem_filter, m.mem_keys]
    cases hk : m.get k with
    | none => simp
    | some v => by_cases hv : p v <;> simp [Option.filter, hv]

@[simp] lemma get_retain (m : FinMap K V) (p : V → Bool) (k : K) :
    (m.retain p).get k = (m.get k).filter p := rfl

def mapValues (m : FinMap K V) (f : V → W) : FinMap K W where
  get := fun k => (m.get k).map f
  keys := m.keys
  mem_keys := by
    intro k
    rw [m.mem_keys, Option.isSome_map]

def mapEntries (m : FinMap K V) (f : K → V → W) : FinMap K W where
  get := fun k => (m.get k).map (f k)
  keys := m.keys
  mem_keys := by
    intro k
    rw [m.mem_keys, Option.isSome_map]

@[simp] lemma get_mapEntries (m : FinMap K V) (f : K → V → W) (k : K) :
    (m.mapEntries f).get k = (m.get k).map (f k) := rfl

section Update

variable [DecidableEq K]

def collect (s : Finset K) (f : K → Option V) : FinMap K V where
  get := fun k => if k ∈ s then f k else none
  keys := s.filter fun k => (f k).isSome
  mem_keys := by
    intro k
    by_cases h : k ∈ s <;> simp [h]

variable {k : K} {l : List (K × V)}

lemma get_collect_of_mem {s : Finset K} (f : K → Option V) (h : k ∈ s) :
    (collect s f).get k = f k := if_pos h

def insert (m : FinMap K V) (k : K) (v : V) : FinMap K V where
  get := fun k' => if k' = k then some v else m.get k'
  keys := Insert.insert k m.keys
  mem_keys := by
    intro k'
    by_cases h : k' = k <;> simp [h, m.mem_keys]

def erase (m : FinMap K V) (k : K) : FinMap K V where
  get := fun k' => if k' = k then none else m.get k'
  keys := m.keys.erase k
  mem_keys := by
    intro k'
    by_cases h : k' = k <;> simp [h, m.mem_keys]

@[simp] lemma get_insert (m : FinMap K V) (k k' : K) (v : V) :
    (m.insert k v).get k' = if k' = k then some v else m.get k' := rfl

lemma get_insert_self (m : FinMap K V) (k : K) (v : V) : (m.insert k v).get k = some v := by
  simp

lemma get_insert_ne (m : FinMap K V) {k' : K} (h : k' ≠ k) (v : V) :
    (m.insert k v).get k' = m.get k' := by
  simp [h]

@[simp] lemma get_erase (m : FinMap K V) (k k' : K) :
    (m.erase k).get k' = if k' = k then none else m.get k' := rfl

@[simp] lemma keys_insert (m : FinMap K V) (k : K) (v : V) :
    (m.insert k v).keys = Insert.insert k m.keys := rfl

@[simp] lemma keys_erase (m : FinMap K V) (k : K) : (m.erase k).keys = m.keys.erase k := rfl

lemma erase_of_get_none {m : FinMap K V} (h : m.get k = none) : m.erase k = m := by
  ext1 k'
  by_cases hk : k' = k
  · subst hk
    simp [h]
  · simp [hk]

def lastOf (l : List (K × V)) (k : K) : Option V :=
  ((l.filter fun p => p.1 = k).getLast?).map Prod.snd

lemma lastOf_concat (l : List (K × V)) (p : K × V) (k : K) :
    lastOf (l ++ [p]) k = if p.1 = k then some p.2 else lastOf l k := by
  unfold lastOf
  by_cases h : p.1 = k <;> simp [h]

lemma mem_of_lastOf {v : V} (h : lastOf l k = some v) : (k, v) ∈ l := by
  obtain ⟨p, hlast, rfl⟩ := Option.map_eq_some_iff.mp h
  have hp := List.mem_filter.mp (mem_of_getLast? hlast)
  obtain rfl : p.1 = k := of_decide_eq_true hp.2
  exact hp.1

lemma isSome_lastOf : (lastOf l k).isSome = true ↔ k ∈ l.map Prod.fst := by
  constructor
  · intro h
    obtain ⟨v, hv⟩ := Option.isSome_iff_exists.mp h
    exact List.mem_map.mpr ⟨(k, v), mem_of_lastOf hv, rfl⟩
  · intro h
    obtain ⟨p, hp, rfl⟩ := List.mem_map.mp h
    have hmem : p ∈ l.filter fun q => q.1 = p.1 := List.mem_filter.mpr ⟨hp, decide_eq_true rfl⟩
    rw [lastOf, isSome_map, getLast?_isSome]
    exact ne_nil_of_mem hmem

lemma lastOf_of_mem (hnodup : (l.map Prod.fst).Nodup) {v : V}
    (h : (k, v) ∈ l) : lastOf l k = some v := by
  obtain ⟨w, hw⟩ := Option.isSome_iff_exists.mp
    (isSome_lastOf.mpr (List.mem_map.mpr ⟨(k, v), h, rfl⟩))
  have heq := inj_on_of_nodup_map hnodup (mem_of_lastOf hw) h rfl
  exact hw.trans (congrArg some (congrArg Prod.snd heq))

lemma get_foldl_insert (l : List (K × V)) (m : FinMap K V) (k : K) :
    (l.foldl (fun m p => m.insert p.1 p.2) m).get k = (lastOf l k).or (m.get k) := by
  induction l using List.reverseRecOn with
  | nil => rfl
  | append_singleton l p ih =>
    rw [foldl_append, foldl_cons, foldl_nil, get_insert, lastOf_concat, ih]
    by_cases hk : k = p.1
    · rw [if_pos hk, if_pos hk.symm]
      rfl
    · rw [if_neg hk, if_neg (Ne.symm hk)]

end Update

section Total

def weight (m : FinMap K V) (f : V → ℕ) (k : K) : ℕ := ((m.get k).map f).getD 0

def total (m : FinMap K V) (f : V → ℕ) : ℕ := ∑ k ∈ m.keys, m.weight f k

variable {m : FinMap K V}

lemma weight_of_get {f : V → ℕ} {k : K} {v : V} (h : m.get k = some v) : m.weight f k = f v := by
  simp [weight, h]

lemma weight_of_none {f : V → ℕ} {k : K} (h : m.get k = none) : m.weight f k = 0 := by
  simp [weight, h]

lemma total_of_keys_empty (f : V → ℕ) (h : m.keys = ∅) : m.total f = 0 := by
  simp [total, h]

lemma total_filter_add (m : FinMap K V) (f : V → ℕ) (p : K → Bool) :
    (m.filter p).total f + (m.filter (fun k => !p k)).total f = m.total f := by
  have hpos : (m.filter p).total f = ∑ k ∈ m.keys.filter (fun k => p k), m.weight f k := by
    refine sum_congr rfl fun k hk => ?_
    simp [weight, (Finset.mem_filter.mp hk).2]
  have hneg : (m.filter (fun k => !p k)).total f =
      ∑ k ∈ m.keys.filter (fun k => ¬(p k = true)), m.weight f k := by
    refine sum_congr (by ext; simp) fun k hk => ?_
    simp [weight, (Finset.mem_filter.mp hk).2]
  rw [hpos, hneg]
  exact sum_filter_add_sum_filter_not m.keys (fun k => p k = true) (m.weight f)

variable [DecidableEq K]

lemma total_erase_add (m : FinMap K V) (f : V → ℕ) (k : K) :
    (m.erase k).total f + m.weight f k = m.total f := by
  have hcongr : (m.erase k).total f = ∑ k' ∈ m.keys.erase k, m.weight f k' := by
    refine sum_congr rfl fun k' hk' => ?_
    simp [weight, ne_of_mem_erase hk']
  rw [hcongr]
  by_cases h : k ∈ m.keys
  · exact sum_erase_add _ _ h
  · rw [erase_eq_of_notMem h, weight_of_none (notMem_keys.mp h), Nat.add_zero]
    rfl

lemma total_insert_add (m : FinMap K V) (f : V → ℕ) (k : K) (v : V) :
    (m.insert k v).total f + m.weight f k = m.total f + f v := by
  have herase : (m.insert k v).erase k = m.erase k := by
    ext1 k'
    by_cases hk : k' = k <;> simp [hk]
  have hinsert := total_erase_add (m.insert k v) f k
  have hold := total_erase_add m f k
  rw [herase, weight_of_get (get_insert_self m k v)] at hinsert
  omega

end Total

section Gather

variable {α : Type*}

def items (m : FinMap K V) (f : V → Multiset α) (k : K) : Multiset α := ((m.get k).map f).getD 0

def gather (m : FinMap K V) (f : V → Multiset α) : Multiset α := ∑ k ∈ m.keys, m.items f k

@[simp] lemma gather_empty (f : V → Multiset α) : (empty : FinMap K V).gather f = 0 := by
  simp [gather]

lemma items_of_get {m : FinMap K V} {f : V → Multiset α} {k : K} {v : V}
    (h : m.get k = some v) : m.items f k = f v := by
  simp [items, h]

variable [DecidableEq K]

lemma gather_of_get {m : FinMap K V} {k : K} {v : V} (f : V → Multiset α)
    (h : m.get k = some v) : m.gather f = f v + (m.erase k).gather f := by
  have hcongr : (m.erase k).gather f = ∑ k' ∈ m.keys.erase k, m.items f k' := by
    refine sum_congr rfl fun k' hk' => ?_
    simp [items, ne_of_mem_erase hk']
  rw [hcongr, gather, ← add_sum_erase _ _ (mem_keys_of_get h), items_of_get h]

lemma gather_insert (m : FinMap K V) (f : V → Multiset α) (k : K) (v : V) :
    (m.insert k v).gather f = f v + (m.erase k).gather f := by
  have herase : (m.insert k v).erase k = m.erase k := by
    ext1 k'
    by_cases hk : k' = k <;> simp [hk]
  rw [gather_of_get f (get_insert_self m k v), herase]

end Gather

end FinMap
