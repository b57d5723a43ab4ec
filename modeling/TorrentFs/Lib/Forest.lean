import Mathlib.Data.List.Nodup
import Mathlib.Data.List.Perm.Subperm
import Mathlib.Order.Nat

/-!
# Forests of parent links

A forest is given by its links: a node and its parent, or a node and no parent. `AncestorAt` is the
reflexive and transitive closure of the links with the number of steps. The lemmas say how it
changes when a leaf is added or subtrees are removed, that it determines the links, and that a chain
of ancestors is not longer than the list of the nodes. `not_transGen_of_reflTransGen` is about the
links as a relation: a chain that ends has no cycle.
-/

namespace Forest

open List

variable {ι : Type*}

lemma not_transGen_of_reflTransGen {parent : ι → ι → Prop} {i top : ι}
    (hunique : Relator.RightUnique parent) (htop : ∀ j, ¬ parent top j)
    (h : Relation.ReflTransGen parent i top) : ¬ Relation.TransGen parent i i := by
  induction h using Relation.ReflTransGen.head_induction_on with
  | refl =>
    intro hcycle
    obtain ⟨j, hj, -⟩ := Relation.TransGen.head'_iff.mp hcycle
    exact htop j hj
  | @head i j hij _ ih =>
    intro hcycle
    obtain ⟨k, hik, hki⟩ := Relation.TransGen.head'_iff.mp hcycle
    obtain rfl := hunique hij hik
    exact ih (Relation.TransGen.tail' hki hij)

/-- Node `a` is reached from node `d` by `n` links. -/
inductive AncestorAt (links : ι → Option ι → Prop) : ι → ι → ℕ → Prop
  | refl {d : ι} {parent : Option ι} (h : links d parent) : AncestorAt links d d 0
  | link {a d p : ι} {n : ℕ} (h : links d (some p)) (rest : AncestorAt links a p n) :
      AncestorAt links a d (n + 1)

def Closed (links : ι → Option ι → Prop) : Prop :=
  ∀ d p, links d (some p) → ∃ parent, links p parent

section Links

variable {links links' : ι → Option ι → Prop} {a d p : ι} {n : ℕ}

lemma ancestorAt_zero : AncestorAt links a d 0 ↔ a = d ∧ ∃ parent, links d parent := by
  constructor
  · rintro ⟨h⟩
    exact ⟨rfl, _, h⟩
  · rintro ⟨rfl, _, h⟩
    exact .refl h

lemma ancestorAt_succ :
    AncestorAt links a d (n + 1) ↔ ∃ p, links d (some p) ∧ AncestorAt links a p n := by
  constructor
  · rintro (_ | ⟨h, rest⟩)
    exact ⟨_, h, rest⟩
  · rintro ⟨p, h, rest⟩
    exact .link h rest

lemma AncestorAt.descendant (h : AncestorAt links a d n) : ∃ parent, links d parent := by
  cases h with
  | refl h => exact ⟨_, h⟩
  | link h _ => exact ⟨_, h⟩

lemma AncestorAt.ancestor (h : AncestorAt links a d n) : ∃ parent, links a parent := by
  induction h with
  | refl h => exact ⟨_, h⟩
  | link _ _ ih => exact ih

lemma ancestorAt_succ_top (hclosed : Closed links) :
    AncestorAt links a d (n + 1) ↔ ∃ c, links c (some a) ∧ AncestorAt links c d n := by
  induction n generalizing d with
  | zero =>
    rw [ancestorAt_succ]
    constructor
    · rintro ⟨p, hlink, hrest⟩
      obtain ⟨rfl, -⟩ := ancestorAt_zero.mp hrest
      exact ⟨d, hlink, .refl hlink⟩
    · rintro ⟨c, hlink, hrest⟩
      obtain ⟨rfl, -⟩ := ancestorAt_zero.mp hrest
      obtain ⟨parent, hparent⟩ := hclosed c a hlink
      exact ⟨a, hlink, .refl hparent⟩
  | succ n ih =>
    rw [ancestorAt_succ]
    constructor
    · rintro ⟨p, hlink, hrest⟩
      obtain ⟨c, htop, hrest⟩ := ih.mp hrest
      exact ⟨c, htop, .link hlink hrest⟩
    · rintro ⟨c, htop, hrest⟩
      obtain ⟨p, hlink, hrest⟩ := ancestorAt_succ.mp hrest
      exact ⟨p, hlink, ih.mpr ⟨c, htop, hrest⟩⟩

lemma ancestorAt_one (hclosed : Closed links) : AncestorAt links p d 1 ↔ links d (some p) := by
  constructor
  · intro h
    obtain ⟨q, hlink, hrest⟩ := ancestorAt_succ.mp h
    obtain ⟨rfl, -⟩ := ancestorAt_zero.mp hrest
    exact hlink
  · intro h
    obtain ⟨parent, hparent⟩ := hclosed d p h
    exact .link h (.refl hparent)

lemma links_of_ancestorAt (hclosed : Closed links) (hclosed' : Closed links')
    (h : ∀ a d, AncestorAt links a d 1 ↔ AncestorAt links' a d 1) :
    links d (some p) ↔ links' d (some p) := by
  rw [← ancestorAt_one hclosed, h, ancestorAt_one hclosed']

lemma ancestorAt_insert {x : ι} {q : Option ι} (hclosed : Closed links)
    (hfresh : ∀ parent, ¬ links x parent)
    (h : ∀ d parent, links' d parent ↔ links d parent ∨ (d = x ∧ parent = q)) :
    AncestorAt links' a d n ↔ AncestorAt links a d n ∨
      (d = x ∧ ((n = 0 ∧ a = x) ∨ ∃ p m, q = some p ∧ n = m + 1 ∧ AncestorAt links' a p m)) := by
  induction n generalizing d with
  | zero =>
    rw [ancestorAt_zero, ancestorAt_zero]
    constructor
    · rintro ⟨rfl, parent, hlink⟩
      rcases (h a parent).mp hlink with hold | ⟨rfl, -⟩
      · exact .inl ⟨rfl, parent, hold⟩
      · exact .inr ⟨rfl, .inl ⟨rfl, rfl⟩⟩
    · rintro (⟨rfl, parent, hlink⟩ | ⟨rfl, ⟨-, rfl⟩ | ⟨p, m, -, hm, -⟩⟩)
      · exact ⟨rfl, parent, (h a parent).mpr (.inl hlink)⟩
      · exact ⟨rfl, q, (h a q).mpr (.inr ⟨rfl, rfl⟩)⟩
      · cases hm
  | succ n ih =>
    rw [ancestorAt_succ, ancestorAt_succ]
    constructor
    · rintro ⟨p, hlink, hrest⟩
      rcases (h d _).mp hlink with hold | ⟨rfl, hq⟩
      · -- the parent is an old node, so the chain does not meet the new leaf
        rcases ih.mp hrest with hrest | ⟨rfl, -⟩
        · exact .inl ⟨p, hold, hrest⟩
        · obtain ⟨parent, hparent⟩ := hclosed d p hold
          exact absurd hparent (hfresh parent)
      · exact .inr ⟨rfl, .inr ⟨p, n, hq.symm, rfl, hrest⟩⟩
    · rintro (⟨p, hlink, hrest⟩ | ⟨rfl, ⟨hn, -⟩ | ⟨p, m, hq, hm, hrest⟩⟩)
      · exact ⟨p, (h d _).mpr (.inl hlink), ih.mpr (.inl hrest)⟩
      · cases hn
      · obtain rfl := Nat.succ.inj hm
        exact ⟨p, (h d _).mpr (.inr ⟨rfl, hq.symm⟩), hrest⟩

lemma closure_insert {x : ι} {q : Option ι} {C C' : ι → ι → ℕ → Prop} (hclosed : Closed links)
    (hfresh : ∀ parent, ¬ links x parent) (hparent : ∀ p, q = some p → ∃ parent, links p parent)
    (h : ∀ d parent, links' d parent ↔ links d parent ∨ (d = x ∧ parent = q))
    (hC : ∀ a d n, C a d n ↔ AncestorAt links a d n) (hC' : ∀ a d n, C' a d n ↔ C a d n ∨
      (d = x ∧ ((n = 0 ∧ a = x) ∨ ∃ p m, q = some p ∧ n = m + 1 ∧ C a p m))) :
    C' a d n ↔ AncestorAt links' a d n := by
  rw [hC', ancestorAt_insert hclosed hfresh h, hC]
  refine or_congr_right (and_congr_right fun _ => or_congr_right ?_)
  refine exists_congr fun p => exists_congr fun m => and_congr_right fun hp =>
    and_congr_right fun _ => ?_
  -- the parent is an old node
  obtain ⟨parent, hlink⟩ := hparent p hp
  rw [hC, ancestorAt_insert hclosed hfresh h]
  exact ⟨.inl, fun hor => hor.resolve_right fun hleaf => hfresh parent (hleaf.1 ▸ hlink)⟩

lemma ancestorAt_restrict {keep : ι → Prop} (hkeep : ∀ d p, links d (some p) → keep d → keep p)
    (h : ∀ d parent, links' d parent ↔ links d parent ∧ keep d) :
    AncestorAt links' a d n ↔ AncestorAt links a d n ∧ keep a ∧ keep d := by
  induction n generalizing d with
  | zero =>
    rw [ancestorAt_zero, ancestorAt_zero]
    constructor
    · rintro ⟨rfl, parent, hlink⟩
      obtain ⟨hold, ha⟩ := (h a parent).mp hlink
      exact ⟨⟨rfl, parent, hold⟩, ha, ha⟩
    · rintro ⟨⟨rfl, parent, hlink⟩, -, ha⟩
      exact ⟨rfl, parent, (h a parent).mpr ⟨hlink, ha⟩⟩
  | succ n ih =>
    rw [ancestorAt_succ, ancestorAt_succ]
    constructor
    · rintro ⟨p, hlink, hrest⟩
      obtain ⟨hold, hd⟩ := (h d _).mp hlink
      obtain ⟨hrest, ha, -⟩ := ih.mp hrest
      exact ⟨⟨p, hold, hrest⟩, ha, hd⟩
    · rintro ⟨⟨p, hlink, hrest⟩, ha, hd⟩
      exact ⟨p, (h d _).mpr ⟨hlink, hd⟩, ih.mpr ⟨hrest, ha, hkeep d p hlink hd⟩⟩

lemma AncestorAt.exists_chain {rank : ι → ℕ} (hrank : ∀ d p, links d (some p) → rank p < rank d)
    (h : AncestorAt links a d n) : ∃ chain : List ι, chain.length = n + 1 ∧ chain.Nodup ∧
      ∀ x ∈ chain, rank x ≤ rank d ∧ ∃ parent, links x parent := by
  induction h with
  | refl hlink =>
    refine ⟨[a], rfl, nodup_singleton a, fun x hx => ?_⟩
    obtain rfl := List.mem_singleton.mp hx
    exact ⟨le_rfl, _, hlink⟩
  | @link d p n hlink hrest ih =>
    obtain ⟨chain, hlength, hnodup, hall⟩ := ih
    have hlt := hrank d p hlink
    refine ⟨d :: chain, by rw [length_cons, hlength], ?_, fun x hx => ?_⟩
    · refine List.nodup_cons.mpr ⟨fun hmem => ?_, hnodup⟩
      have hle := (hall d hmem).1
      omega
    · rcases List.mem_cons.mp hx with rfl | hx
      · exact ⟨le_rfl, _, hlink⟩
      · exact ⟨(hall x hx).1.trans hlt.le, (hall x hx).2⟩

lemma AncestorAt.lt_length {rank : ι → ℕ} (hrank : ∀ d p, links d (some p) → rank p < rank d)
    {nodes : List ι} (hnodes : ∀ d parent, links d parent → d ∈ nodes)
    (h : AncestorAt links a d n) : n < nodes.length := by
  obtain ⟨chain, hlength, hnodup, hall⟩ := h.exists_chain hrank
  have hsubset : chain ⊆ nodes := fun x hx => by
    obtain ⟨parent, hlink⟩ := (hall x hx).2
    exact hnodes x parent hlink
  have hle := (subperm_of_subset hnodup hsubset).length_le
  omega

end Links

end Forest
