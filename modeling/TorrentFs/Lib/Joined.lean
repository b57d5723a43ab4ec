import Mathlib.Data.List.Infix
import Mathlib.Data.List.Nodup

/-!
# Lists joined by a separator

Parts that do not contain the separator can be read back from their join: the join is injective,
and the beginnings of a join that end at a separator are the joins of the beginnings of the list.
-/

namespace Joined

open List

variable {α : Type*}

def joined (sep : α) (parts : List (List α)) : List α := [sep].intercalate parts

/-- No part is empty, and none contains the separator. -/
def SepFree (sep : α) (parts : List (List α)) : Prop := ∀ part ∈ parts, part ≠ [] ∧ sep ∉ part

variable {sep : α} {parts parts' : List (List α)}

@[simp] lemma joined_nil : joined sep [] = [] := rfl

@[simp] lemma joined_singleton (part : List α) : joined sep [part] = part :=
  intercalate_singleton

lemma joined_cons_cons (a b : List α) (parts : List (List α)) :
    joined sep (a :: b :: parts) = a ++ sep :: joined sep (b :: parts) := by
  rw [joined, intercalate_cons_cons, append_assoc]
  rfl

lemma joined_append (h : parts ≠ []) (h' : parts' ≠ []) :
    joined sep (parts ++ parts') = joined sep parts ++ sep :: joined sep parts' := by
  induction parts with
  | nil => exact absurd rfl h
  | cons a parts ih =>
    cases parts with
    | nil =>
      obtain ⟨b, rest, rfl⟩ := exists_cons_of_ne_nil h'
      rw [singleton_append, joined_cons_cons, joined_singleton]
    | cons b rest =>
      rw [cons_append, cons_append, joined_cons_cons, joined_cons_cons,
        ← cons_append, ih (cons_ne_nil _ _), append_assoc, cons_append]

lemma SepFree.append (h : SepFree sep parts) (h' : SepFree sep parts') :
    SepFree sep (parts ++ parts') := by
  intro part hpart
  exact (List.mem_append.mp hpart).elim (h part) (h' part)

lemma SepFree.tail {a : List α} (h : SepFree sep (a :: parts)) : SepFree sep parts :=
  fun part hpart => h part (mem_cons_of_mem a hpart)

lemma sepFree_singleton {part : List α} (hne : part ≠ []) (hsep : sep ∉ part) :
    SepFree sep [part] := by
  intro p hp
  rw [List.mem_singleton.mp hp]
  exact ⟨hne, hsep⟩

lemma SepFree.joined_ne_nil (h : SepFree sep parts) (hne : parts ≠ []) : joined sep parts ≠ [] := by
  obtain ⟨a, rest, rfl⟩ := exists_cons_of_ne_nil hne
  have ha := (h a mem_cons_self).1
  cases rest with
  | nil => rwa [joined_singleton]
  | cons b rest =>
    rw [joined_cons_cons]
    exact append_ne_nil_of_left_ne_nil ha _

lemma append_cons_inj {a b u v : List α} (ha : sep ∉ a) (hb : sep ∉ b)
    (h : a ++ sep :: u = b ++ sep :: v) : a = b ∧ u = v := by
  induction a generalizing b with
  | nil =>
    cases b with
    | nil => exact ⟨rfl, (List.cons.inj h).2⟩
    | cons c b => exact absurd ((List.cons.inj h).1 ▸ mem_cons_self) hb
  | cons c a ih =>
    cases b with
    | nil => exact absurd ((List.cons.inj h).1 ▸ mem_cons_self) ha
    | cons d b =>
      obtain ⟨rfl, htail⟩ := List.cons.inj h
      obtain ⟨rfl, rfl⟩ := ih (fun hmem => ha (mem_cons_of_mem _ hmem))
        (fun hmem => hb (mem_cons_of_mem _ hmem)) htail
      exact ⟨rfl, rfl⟩

lemma append_cons_inj_last {a b u v : List α} (hu : sep ∉ u) (hv : sep ∉ v)
    (h : a ++ sep :: u = b ++ sep :: v) : a = b ∧ u = v := by
  have hreverse := congrArg List.reverse h
  simp only [reverse_append, reverse_cons, append_assoc, singleton_append]
    at hreverse
  obtain ⟨hlast, hbefore⟩ := append_cons_inj (fun hmem => hu (List.mem_reverse.mp hmem))
    (fun hmem => hv (List.mem_reverse.mp hmem)) hreverse
  exact ⟨reverse_injective hbefore, reverse_injective hlast⟩

lemma SepFree.exists_of_append_cons (h : SepFree sep parts) {a rest : List α} (ha : sep ∉ a)
    (heq : a ++ sep :: rest = joined sep parts) :
    ∃ more, more ≠ [] ∧ parts = a :: more ∧ joined sep more = rest := by
  match parts with
  | [] => exact absurd heq (append_ne_nil_of_right_ne_nil _ (cons_ne_nil _ _))
  | [b] =>
    rw [joined_singleton] at heq
    exact absurd (heq ▸ by simp) (h b mem_cons_self).2
  | b :: c :: more =>
    obtain ⟨rfl, rfl⟩ := append_cons_inj ha (h b mem_cons_self).2 heq
    exact ⟨c :: more, cons_ne_nil _ _, rfl, rfl⟩

lemma SepFree.exists_of_joined_append (h : SepFree sep parts) (h' : SepFree sep parts')
    (hne : parts ≠ []) {rest : List α} (heq : joined sep parts ++ sep :: rest = joined sep parts') :
    ∃ more, more ≠ [] ∧ parts' = parts ++ more ∧ joined sep more = rest := by
  induction parts generalizing parts' with
  | nil => exact absurd rfl hne
  | cons a parts ih =>
    have ha := (h a mem_cons_self).2
    cases parts with
    | nil =>
      rw [joined_singleton] at heq
      exact h'.exists_of_append_cons ha heq
    | cons b parts =>
      rw [joined_cons_cons, append_assoc, cons_append] at heq
      obtain ⟨tail, -, rfl, htail⟩ := h'.exists_of_append_cons ha heq
      obtain ⟨more, hmore, rfl, hrest⟩ :=
        ih h.tail h'.tail (cons_ne_nil _ _) htail.symm
      exact ⟨more, hmore, rfl, hrest⟩

lemma SepFree.joined_inj (h : SepFree sep parts) (h' : SepFree sep parts')
    (heq : joined sep parts = joined sep parts') : parts = parts' := by
  induction parts generalizing parts' with
  | nil =>
    by_contra hne
    exact h'.joined_ne_nil (Ne.symm hne) heq.symm
  | cons a parts ih =>
    have ha := (h a mem_cons_self).2
    cases parts with
    | nil =>
      rw [joined_singleton] at heq
      match parts' with
      | [] => exact absurd heq (h a mem_cons_self).1
      | [b] => rw [heq, joined_singleton]
      | b :: c :: more =>
        rw [joined_cons_cons] at heq
        exact absurd (heq ▸ by simp) ha
    | cons b parts =>
      obtain ⟨more, -, rfl, hmore⟩ := h'.exists_of_append_cons ha heq
      rw [ih h.tail h'.tail hmore.symm]

lemma SepFree.joined_append_sep_isPrefix_iff (h : SepFree sep parts) (h' : SepFree sep parts')
    (hne : parts ≠ []) :
    joined sep parts ++ [sep] <+: joined sep parts' ↔ parts <+: parts' ∧ parts ≠ parts' := by
  constructor
  · rintro ⟨rest, hrest⟩
    rw [append_assoc, singleton_append] at hrest
    obtain ⟨more, hmore, rfl, -⟩ := h.exists_of_joined_append h' hne hrest
    exact ⟨prefix_append _ _, fun heq => hmore (List.self_eq_append_right.mp heq)⟩
  · rintro ⟨⟨more, rfl⟩, hproper⟩
    have hmore : more ≠ [] := by
      rintro rfl
      exact hproper (append_nil _).symm
    exact ⟨joined sep more, by rw [joined_append hne hmore, append_assoc]; rfl⟩

end Joined
