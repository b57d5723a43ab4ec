import Mathlib.Data.List.Forall2
import Mathlib.Data.List.Infix

/-!
# The tree of a list of paths

A list of files with their paths is a tree: the directories are the proper beginnings of the paths.
A tree is seen through the lookups of names in directories; the module says when a family of
lookups shows the tree of a list.
-/

namespace PathTree

open List Option

variable {ν σ δ : Type*}

/-- What is at a path: a directory, or a file with its size. -/
inductive Kind (σ : Type*)
  | directory
  | file (size : σ)
deriving DecidableEq

def Below (files : List (List ν × σ)) (path : List ν) : Prop :=
  ∃ f ∈ files, path <+: f.1 ∧ path ≠ f.1

lemma below_map {τ : Type*} {files : List (List ν × σ)} {path : List ν} (g : σ → τ) :
    Below (files.map fun f => (f.1, g f.2)) path ↔ Below files path := by
  unfold Below
  simp only [List.mem_map, exists_exists_and_eq_and]

variable [DecidableEq ν]

instance (files : List (List ν × σ)) (path : List ν) : Decidable (Below files path) :=
  inferInstanceAs (Decidable (∃ f ∈ files, path <+: f.1 ∧ path ≠ f.1))

/-- What the tree of the files has at a path. A directory hides a file of the same name; of several
files the first counts. -/
def kindAt (files : List (List ν × σ)) (path : List ν) : Option (Kind σ) :=
  if Below files path then some .directory
  else (files.find? fun f => f.1 = path).map fun f => .file f.2

variable {files : List (List ν × σ)} {path : List ν}

lemma kindAt_of_below (h : Below files path) : kindAt files path = some .directory := if_pos h

lemma below_of_kindAt_append {rest : List ν} {k : Kind σ} (hrest : rest ≠ [])
    (h : kindAt files (path ++ rest) = some k) : Below files path := by
  have hlonger : path ≠ path ++ rest := fun heq => hrest (List.self_eq_append_right.mp heq)
  unfold kindAt at h
  split at h
  · next hbelow =>
    obtain ⟨f, hf, ⟨more, hmore⟩, -⟩ := hbelow
    refine ⟨f, hf, ⟨rest ++ more, by rw [← hmore, append_assoc]⟩, ?_⟩
    rintro rfl
    rw [append_assoc, append_right_eq_self] at hmore
    exact hrest (List.append_eq_nil_iff.mp hmore).1
  · obtain ⟨f, hfind, -⟩ := Option.map_eq_some_iff.mp h
    have hpath : f.1 = path ++ rest := by simpa using find?_some hfind
    exact ⟨f, mem_of_find?_eq_some hfind, ⟨rest, hpath.symm⟩, hpath ▸ hlonger⟩

lemma kindAt_ne_none {f : List ν × σ} (hf : f ∈ files) : kindAt files f.1 ≠ none := by
  unfold kindAt
  split
  · exact some_ne_none _
  · rw [Ne, map_eq_none_iff, find?_eq_none]
    intro h
    exact h f hf (decide_eq_true rfl)

lemma kindAt_eq_none_of_length_lt (h : ∀ f ∈ files, f.1.length < path.length) :
    kindAt files path = none := by
  unfold kindAt
  rw [if_neg, map_eq_none_iff, find?_eq_none]
  · intro f hf heq
    have hlt := h f hf
    rw [of_decide_eq_true heq] at hlt
    exact lt_irrefl _ hlt
  · rintro ⟨f, hf, hsub, -⟩
    exact absurd hsub.length_le (Nat.not_le_of_lt (h f hf))

lemma rel_find? {α β : Type*} {R : α → β → Prop} {p : α → Bool} {q : β → Bool} {l : List α}
    {l' : List β} (h : List.Forall₂ R l l') (hpq : ∀ a b, R a b → p a = q b) :
    Option.Rel R (l.find? p) (l'.find? q) := by
  induction h with
  | nil => exact .none
  | @cons a b l l' hab _ ih =>
    rw [find?_cons, find?_cons, hpq a b hab]
    cases q b with
    | true => exact .some hab
    | false => exact ih

lemma find?_eq_getElem?_findIdx {α β : Type*} {R : α → β → Prop} {p : α → Bool} {q : β → Bool}
    {l : List α} {l' : List β} (h : List.Forall₂ R l l') (hpq : ∀ a b, R a b → p a = q b) :
    l.find? p = l[l'.findIdx q]? := by
  induction h with
  | nil => rfl
  | @cons a b l l' hab _ ih =>
    rw [find?_cons, findIdx_cons, hpq a b hab]
    cases q b with
    | true => rfl
    | false => exact ih

/-- Lookups of names in nodes that show the tree of the files: `At d path` when the node `d` stands
for `path`. Names that are not `Valid` are never looked up. -/
structure ShownBy (files : List (List ν × σ)) (Valid : ν → Prop) (child : δ → ν → Option δ)
    (kind : δ → Kind σ) (At : δ → List ν → Prop) : Prop where
  leaf : ∀ d path name, At d path → kind d ≠ .directory → child d name = none
  inner : ∀ d path name, At d path → Valid name → kind d = .directory →
    (child d name).map kind = kindAt files (path ++ [name])
  next : ∀ d path name d', At d path → Valid name → child d name = some d' →
    At d' (path ++ [name])

lemma ShownBy.map_kind_foldlM {Valid : ν → Prop} {child : δ → ν → Option δ} {kind : δ → Kind σ}
    {At : δ → List ν → Prop} (h : ShownBy files Valid child kind At) {d : δ} {rest : List ν}
    (hat : At d path) (hkind : kindAt files path = some (kind d))
    (hrest : ∀ name ∈ rest, Valid name) :
    (rest.foldlM child d).map kind = kindAt files (path ++ rest) := by
  induction rest generalizing d path with
  | nil => rw [append_nil, hkind]; rfl
  | cons name rest ih =>
    have hvalid := hrest name mem_cons_self
    have hchild : (child d name).map kind = kindAt files (path ++ [name]) := by
      cases hd : kind d with
      | directory => exact h.inner d path name hat hvalid hd
      | file size =>
        -- below a file there is nothing
        rw [h.leaf d path name hat (by simp [hd]), map_none]
        by_contra hsome
        obtain ⟨k, hk⟩ := Option.ne_none_iff_exists'.mp (Ne.symm hsome)
        have hdir := kindAt_of_below (below_of_kindAt_append (cons_ne_nil _ _) hk)
        rw [hkind, hd] at hdir
        cases hdir
    rw [foldlM_cons]
    cases hd : child d name with
    | none =>
      rw [hd] at hchild
      by_contra hsome
      obtain ⟨k, hk⟩ := Option.ne_none_iff_exists'.mp (Ne.symm hsome)
      rw [← singleton_append, ← append_assoc] at hk
      cases rest with
      | nil =>
        rw [append_nil, ← hchild] at hk
        cases hk
      | cons _ _ =>
        rw [kindAt_of_below (below_of_kindAt_append (cons_ne_nil _ _) hk)] at hchild
        cases hchild
    | some d' =>
      rw [hd] at hchild
      rw [← singleton_append, ← append_assoc]
      exact ih (h.next d path name d' hat hvalid hd) hchild.symm fun n hn =>
        hrest n (mem_cons_of_mem _ hn)

end PathTree
