import Mathlib.Data.Finset.Card

/-!
# Trees of names

A tree kept as parent links: every directory has a parent and a name, and the path of a directory
is spelled by the names on the way down from the root. The links may be anything; a directory that
the root cannot be reached from has no path.
-/

namespace NameTree

open List Option Finset

variable {ι ν : Type*}

/-- The names from the root down to a directory. `dirs` gives the parent and the name of each
directory but the root. -/
inductive Spells (dirs : ι → Option (ι × ν)) (root : ι) : ι → List ν → Prop
  | root : Spells dirs root root []
  | child {i parent : ι} {name : ν} {path : List ν} (h : dirs i = some (parent, name))
      (hparent : Spells dirs root parent path) : Spells dirs root i (path ++ [name])

/-- The directories with one parent have different names. -/
def DistinctSiblings (dirs : ι → Option (ι × ν)) : Prop :=
  ∀ i j link, dirs i = some link → dirs j = some link → i = j

namespace Spells

variable {dirs dirs' : ι → Option (ι × ν)} {root i j : ι} {path path' : List ν}

lemma path_unique (hroot : dirs root = none) (h : Spells dirs root i path)
    (h' : Spells dirs root i path') : path = path' := by
  induction h generalizing path' with
  | root =>
    cases h' with
    | root => rfl
    | child hlink _ => exact absurd (hroot.symm.trans hlink) (some_ne_none _).symm
  | child hlink _ ih =>
    cases h' with
    | root => exact absurd (hroot.symm.trans hlink) (some_ne_none _).symm
    | child hlink' hparent' =>
      obtain ⟨rfl, rfl⟩ := Prod.mk.inj (Option.some.inj (hlink.symm.trans hlink'))
      rw [ih hparent']

lemma eq_of_path (hsiblings : DistinctSiblings dirs) (h : Spells dirs root i path)
    (h' : Spells dirs root j path) : i = j := by
  induction h generalizing j with
  | root =>
    generalize hpath : ([] : List ν) = path at h'
    cases h' with
    | root => rfl
    | child _ _ => simp at hpath
  | @child i parent name path hlink _ ih =>
    generalize hpath : path ++ [name] = path' at h'
    cases h' with
    | root => simp at hpath
    | child hlink' hparent' =>
      obtain ⟨rfl, hname⟩ := append_inj' hpath rfl
      obtain rfl : name = _ := by simpa using hname
      obtain rfl := ih hparent'
      exact hsiblings _ _ _ hlink hlink'

lemma mono (hsub : ∀ i link, dirs i = some link → dirs' i = some link)
    (h : Spells dirs root i path) : Spells dirs' root i path := by
  induction h with
  | root => exact .root
  | child hlink _ ih => exact .child (hsub _ _ hlink) ih

lemma of_append {rest : List ν} (h : Spells dirs root i (path ++ rest)) :
    ∃ j, Spells dirs root j path := by
  induction rest using List.reverseRecOn generalizing i with
  | nil => exact ⟨i, by rwa [append_nil] at h⟩
  | append_singleton rest name ih =>
    rw [← append_assoc] at h
    generalize hpath : path ++ rest ++ [name] = path' at h
    cases h with
    | root => simp at hpath
    | child _ hparent =>
      obtain ⟨rfl, -⟩ := append_inj' hpath rfl
      exact ih hparent

lemma remove {d : ι} (hleaf : ∀ i name, dirs i ≠ some (d, name))
    (hkept : ∀ i, i ≠ d → dirs' i = dirs i) (h : Spells dirs root i path) (hne : i ≠ d) :
    Spells dirs' root i path := by
  induction h with
  | root => exact .root
  | @child i parent name path hlink _ ih =>
    refine .child ((hkept i hne).trans hlink) (ih ?_)
    rintro rfl
    exact hleaf i name hlink

lemma add_iff {d parent : ι} {name : ν} {pathParent : List ν} (hroot : dirs root = none)
    (hd : d ≠ root) (hnew : dirs d = none) (hleaf : ∀ i name, dirs i ≠ some (d, name))
    (hkept : ∀ i, i ≠ d → dirs' i = dirs i) (hadded : dirs' d = some (parent, name))
    (hparent : Spells dirs root parent pathParent) :
    Spells dirs' root i path ↔ Spells dirs root i path ∨ i = d ∧ path = pathParent ++ [name] := by
  have hsub : ∀ i link, dirs i = some link → dirs' i = some link := by
    intro i link hlink
    rwa [hkept i]
    rintro rfl
    rw [hnew] at hlink
    cases hlink
  constructor
  · intro h
    induction h with
    | root => exact .inl .root
    | @child i parent' name' path hlink _ ih =>
      by_cases hi : i = d
      · subst hi
        obtain ⟨rfl, rfl⟩ := Prod.mk.inj (Option.some.inj (hadded.symm.trans hlink))
        rcases ih with ih | ⟨rfl, -⟩
        · exact .inr ⟨rfl, by rw [path_unique hroot ih hparent]⟩
        · -- the new directory was not there, so nothing could be added below it
          cases hparent with
          | root => exact absurd rfl hd
          | child hlink' _ => exact absurd (hnew.symm.trans hlink') (some_ne_none _).symm
      · rw [hkept i hi] at hlink
        rcases ih with ih | ⟨rfl, -⟩
        · exact .inl (.child hlink ih)
        · exact absurd hlink (hleaf i name')
  · rintro (h | ⟨rfl, rfl⟩)
    · exact h.mono hsub
    · exact .child hadded (hparent.mono hsub)

section Move

variable {d target : ι} {newName : ν} {pathD pathTarget : List ν}

lemma move_of_not_isPrefix (hkept : ∀ i, i ≠ d → dirs' i = dirs i)
    (hd : Spells dirs root d pathD) (hroot : dirs root = none) (h : Spells dirs root i path)
    (hpath : ¬ pathD <+: path) : Spells dirs' root i path := by
  induction h with
  | root => exact .root
  | @child i parent name path hlink hparent ih =>
    have hne : i ≠ d := by
      rintro rfl
      exact hpath (path_unique hroot hd (.child hlink hparent) ▸ prefix_rfl)
    refine .child ((hkept i hne).trans hlink) (ih fun hbelow => ?_)
    exact hpath (hbelow.trans (prefix_append _ _))

lemma move (hsiblings : DistinctSiblings dirs) (hroot : dirs root = none)
    (hkept : ∀ i, i ≠ d → dirs' i = dirs i) (hmoved : dirs' d = some (target, newName))
    (hd : Spells dirs root d pathD) (htarget : Spells dirs root target pathTarget)
    (houtside : ¬ pathD <+: pathTarget) {rest : List ν} (h : Spells dirs root i (pathD ++ rest)) :
    Spells dirs' root i (pathTarget ++ newName :: rest) := by
  have htarget' := move_of_not_isPrefix hkept hd hroot htarget houtside
  have hd' : Spells dirs' root d (pathTarget ++ [newName]) := .child hmoved htarget'
  induction rest using List.reverseRecOn generalizing i with
  | nil =>
    rw [append_nil] at h
    rwa [eq_of_path hsiblings h hd]
  | append_singleton rest name ih =>
    generalize hpath : pathD ++ (rest ++ [name]) = path at h
    cases h with
    | root => simp at hpath
    | @child _ parent name' path hlink hparent =>
      rw [← append_assoc] at hpath
      obtain ⟨rfl, hname⟩ := append_inj' hpath rfl
      obtain rfl : name = name' := by simpa using hname
      have hne : i ≠ d := by
        rintro rfl
        have heq := path_unique hroot hd (.child hlink hparent)
        have hlen := congrArg List.length heq
        simp only [length_append, length_singleton] at hlen
        omega
      have hchild := Spells.child ((hkept i hne).trans hlink) (ih hparent)
      rwa [append_assoc, cons_append] at hchild

end Move

lemma length_le_card [DecidableEq ι] {s : Finset ι} (hs : ∀ i, (dirs i).isSome → i ∈ s)
    (hroot : dirs root = none) (h : Spells dirs root i path) : path.length ≤ s.card := by
  -- one directory of `s` for each name of the path
  suffices hexists : ∃ t ⊆ s, t.card = path.length ∧
      ∀ j ∈ t, ∃ path', Spells dirs root j path' ∧ path'.length ≤ path.length by
    obtain ⟨t, hts, hcard, -⟩ := hexists
    exact hcard ▸ card_le_card hts
  induction h with
  | root => exact ⟨∅, empty_subset s, rfl, by simp⟩
  | @child i parent name path hlink hparent ih =>
    obtain ⟨t, hts, hcard, hshort⟩ := ih
    have hnew : i ∉ t := by
      intro hi
      obtain ⟨path', hpath', hlen⟩ := hshort i hi
      rw [path_unique hroot hpath' (.child hlink hparent), length_append,
        length_singleton] at hlen
      omega
    refine ⟨insert i t, insert_subset (hs i (by simp [hlink])) hts, ?_, fun j hj => ?_⟩
    · rw [card_insert_of_notMem hnew, hcard, length_append, length_singleton]
    · rcases Finset.mem_insert.mp hj with rfl | hj
      · exact ⟨_, .child hlink hparent, le_rfl⟩
      · obtain ⟨path', hpath', hlen⟩ := hshort j hj
        exact ⟨path', hpath', hlen.trans (by simp)⟩

end Spells

end NameTree
