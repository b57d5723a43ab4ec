import Mathlib.Logic.Relation
import Mathlib.Data.List.Basic

/-!
# Publication of snapshots through a generation gate

A value changes under a lock. A snapshot of it is taken under the lock, tagged with the next
generation, and written later without the lock; writes of different snapshots may take place in
any order and may fail. The gate lets a write replace the published snapshot only by one of a
later generation. A flag tells that the value has changed since the last snapshot; a failed write
sets it again, after some delay. A flush takes a snapshot and writes it while it holds the lock.

The value and what a snapshot stores of it are of arbitrary types, related by `Describes`.
-/

namespace Publisher

open List

variable {V E : Type*}

/-- What is stored of the value, and the position of the snapshot in the order of all. -/
structure Snapshot (E : Type*) where
  generation : ℕ
  entries : E

/-- A value, its published file and the writes on their way. -/
structure State (V E : Type*) where
  current : V
  dirty : Bool
  /-- The generation of the last snapshot taken. -/
  generation : ℕ
  file : Snapshot E
  /-- The snapshots taken and not yet written. -/
  waiting : List (Snapshot E)
  /-- The failed writes after which the flag is not yet set again. -/
  unmarked : ℕ
  /-- The snapshot of the flush that holds the lock. -/
  flushing : Option (Snapshot E)
  /-- The snapshots whose write returned without an error. -/
  succeeded : List (Snapshot E)

inductive Step (Describes : E → V → Prop) : State V E → State V E → Prop
  -- the flag may stay clear only when the value stays as it is
  | change {s : State V E} (v : V) (d : Bool) (hfree : s.flushing = none)
      (hclean : d = false → s.dirty = false ∧ v = s.current) :
      Step Describes s { s with current := v, dirty := d }
  | take {s : State V E} (e : E) (hfree : s.flushing = none) (he : Describes e s.current) :
      Step Describes s
        { s with
          dirty := false
          generation := s.generation + 1
          waiting := ⟨s.generation + 1, e⟩ :: s.waiting }
  | skip {s : State V E} (i : ℕ) (p : Snapshot E) (hp : s.waiting[i]? = some p)
      (hold : p.generation ≤ s.file.generation) :
      Step Describes s
        { s with waiting := s.waiting.eraseIdx i, succeeded := p :: s.succeeded }
  | publish {s : State V E} (i : ℕ) (p : Snapshot E) (hp : s.waiting[i]? = some p)
      (hnew : s.file.generation < p.generation) :
      Step Describes s
        { s with file := p, waiting := s.waiting.eraseIdx i, succeeded := p :: s.succeeded }
  | fail {s : State V E} (i : ℕ) (p : Snapshot E) (hp : s.waiting[i]? = some p) :
      Step Describes s
        { s with waiting := s.waiting.eraseIdx i, unmarked := s.unmarked + 1 }
  | mark {s : State V E} (hfree : s.flushing = none) (hfailed : 0 < s.unmarked) :
      Step Describes s { s with dirty := true, unmarked := s.unmarked - 1 }
  | flush {s : State V E} (e : E) (hfree : s.flushing = none) (he : Describes e s.current) :
      Step Describes s
        { s with generation := s.generation + 1, flushing := some ⟨s.generation + 1, e⟩ }
  | flushSkip {s : State V E} (p : Snapshot E) (hp : s.flushing = some p)
      (hold : p.generation ≤ s.file.generation) :
      Step Describes s
        { s with dirty := false, flushing := none, succeeded := p :: s.succeeded }
  | flushPublish {s : State V E} (p : Snapshot E) (hp : s.flushing = some p)
      (hnew : s.file.generation < p.generation) :
      Step Describes s
        { s with file := p, dirty := false, flushing := none, succeeded := p :: s.succeeded }
  | flushFail {s : State V E} (p : Snapshot E) (hp : s.flushing = some p) :
      Step Describes s { s with dirty := true, flushing := none }

namespace State

def Known (s : State V E) (p : Snapshot E) : Prop :=
  p ∈ s.waiting ∨ p ∈ s.succeeded ∨ s.flushing = some p

/-- Nothing is on its way: the flag is clear, every snapshot taken has been written, and every
failed write has set the flag again. -/
def Settled (s : State V E) : Prop :=
  s.dirty = false ∧ s.waiting = [] ∧ s.unmarked = 0 ∧ s.flushing = none

/-- Generations are given out once, up to the last one. -/
structure Ordered (s : State V E) : Prop where
  bounded : ∀ p, s.Known p → p.generation ≤ s.generation
  unique : ∀ p q, s.Known p → s.Known q → p.generation = q.generation → p = q

/-- The file is the newest snapshot written, and the flag covers what it misses. -/
structure Inv (Describes : E → V → Prop) (s : State V E) : Prop extends s.Ordered where
  published : s.file ∈ s.succeeded
  newest : ∀ p ∈ s.succeeded, p.generation ≤ s.file.generation
  flushing : ∀ p, s.flushing = some p →
    p.generation = s.generation ∧ Describes p.entries s.current
  /-- With the flag clear, the last snapshot taken describes the value, and it is published,
  waiting, or its write has failed. -/
  latest : s.dirty = false → s.flushing = none → 0 < s.unmarked ∨
    ∃ p, (p ∈ s.waiting ∨ p = s.file) ∧ p.generation = s.generation ∧
      Describes p.entries s.current

variable {Describes : E → V → Prop} {s t : State V E}

lemma Inv.described (h : s.Inv Describes) (hsettled : s.Settled) :
    Describes s.file.entries s.current := by
  obtain ⟨hdirty, hwaiting, hunmarked, hflushing⟩ := hsettled
  rcases h.latest hdirty hflushing with hpos | ⟨p, hp, -, hdescribes⟩
  · omega
  · rcases hp with hmem | rfl
    · rw [hwaiting] at hmem
      exact absurd hmem not_mem_nil
    · exact hdescribes

lemma Ordered.of_known (h : s.Ordered) (hgen : t.generation = s.generation)
    (hknown : ∀ p, t.Known p → s.Known p) : t.Ordered where
  bounded p hp := hgen ▸ h.bounded p (hknown p hp)
  unique p q hp hq := h.unique p q (hknown p hp) (hknown q hq)

lemma Ordered.of_new (h : s.Ordered) {e : E} (hgen : t.generation = s.generation + 1)
    (hknown : ∀ p, t.Known p → s.Known p ∨ p = ⟨s.generation + 1, e⟩) : t.Ordered where
  bounded p hp := by
    rcases hknown p hp with hold | rfl
    · have hle := h.bounded p hold
      omega
    · exact Nat.le_of_eq hgen.symm
  unique p q hp hq heq := by
    -- an old snapshot has a generation below the new one
    rcases hknown p hp with hpold | rfl <;> rcases hknown q hq with hqold | rfl
    · exact h.unique p q hpold hqold heq
    · have hle := h.bounded p hpold
      simp only at heq
      omega
    · have hle := h.bounded q hqold
      simp only at heq
      omega
    · rfl

variable {p q : Snapshot E}

lemma mem_eraseIdx {l : List (Snapshot E)} {i : ℕ} (hp : l[i]? = some p)
    (hq : q ∈ l) : q = p ∨ q ∈ l.eraseIdx i := by
  obtain ⟨j, hj⟩ := List.mem_iff_getElem?.mp hq
  by_cases hij : j = i
  · left
    rw [hij, hp] at hj
    exact (Option.some.inj hj).symm
  · exact .inr (List.mem_eraseIdx_iff_getElem?.mpr ⟨j, hij, hj⟩)

lemma known_of_eraseIdx {i : ℕ} (hq : t.Known q)
    (hp : s.waiting[i]? = some p) (hwaiting : t.waiting = s.waiting.eraseIdx i)
    (hflushing : t.flushing = s.flushing)
    (hsucceeded : t.succeeded = s.succeeded ∨ t.succeeded = p :: s.succeeded) : s.Known q := by
  rcases hq with hmem | hmem | hflush
  · rw [hwaiting] at hmem
    exact .inl (mem_of_mem_eraseIdx hmem)
  · rcases hsucceeded with heq | heq
    · exact .inr (.inl (heq ▸ hmem))
    · rw [heq, mem_cons] at hmem
      rcases hmem with rfl | hmem
      · exact .inl (mem_of_getElem? hp)
      · exact .inr (.inl hmem)
  · exact .inr (.inr (hflushing ▸ hflush))

lemma known_of_flushed (hq : t.Known q) (hp : s.flushing = some p)
    (hwaiting : t.waiting = s.waiting) (hfree : t.flushing = none)
    (hsucceeded : t.succeeded = s.succeeded ∨ t.succeeded = p :: s.succeeded) : s.Known q := by
  rcases hq with hmem | hmem | hflush
  · exact .inl (hwaiting ▸ hmem)
  · rcases hsucceeded with heq | heq
    · exact .inr (.inl (heq ▸ hmem))
    · rw [heq, mem_cons] at hmem
      rcases hmem with rfl | hmem
      · exact .inr (.inr hp)
      · exact .inr (.inl hmem)
  · rw [hfree] at hflush
    cases hflush

lemma Inv.eq_file (h : s.Inv Describes) (hp : s.Known p)
    (hlast : p.generation = s.generation) (hold : p.generation ≤ s.file.generation) :
    p = s.file := by
  have hfile : s.Known s.file := .inr (.inl h.published)
  have hle := h.bounded s.file hfile
  exact h.unique p s.file hp hfile (by omega)

lemma Inv.step (h : s.Inv Describes) (hstep : Step Describes s t) : t.Inv Describes := by
  cases hstep with
  | change v d hfree hclean =>
    refine ⟨Ordered.of_known h.toOrdered rfl fun p hp => hp, h.published, h.newest, ?_, ?_⟩
    · intro p hp
      exact absurd (hfree.symm.trans hp) (by simp)
    · intro hd hflushing
      obtain ⟨hdirty, rfl⟩ := hclean hd
      exact h.latest hdirty hflushing
  | take e hfree he =>
    refine ⟨Ordered.of_new h.toOrdered (e := e) rfl ?_, h.published, h.newest, ?_, ?_⟩
    · rintro p (hwaiting | hsucceeded | hflushing)
      · rcases List.mem_cons.mp hwaiting with rfl | hwaiting
        · exact .inr rfl
        · exact .inl (.inl hwaiting)
      · exact .inl (.inr (.inl hsucceeded))
      · exact .inl (.inr (.inr hflushing))
    · intro p hp
      exact absurd (hfree.symm.trans hp) (by simp)
    · intro _ _
      exact .inr ⟨_, .inl (mem_cons_self ..), rfl, he⟩
  | skip i p hp hold =>
    refine ⟨Ordered.of_known h.toOrdered rfl fun q hq =>
      known_of_eraseIdx hq hp rfl rfl (.inr rfl), mem_cons_of_mem _ h.published, ?_,
      h.flushing, ?_⟩
    · exact List.forall_mem_cons.mpr ⟨hold, h.newest⟩
    · intro hdirty hflushing
      rcases h.latest hdirty hflushing with hpos | ⟨q, hq, hlast, hdescribes⟩
      · exact .inl hpos
      · refine .inr ⟨q, ?_, hlast, hdescribes⟩
        rcases hq with hmem | rfl
        · rcases mem_eraseIdx hp hmem with rfl | hmem
          · exact .inr (h.eq_file (.inl (mem_of_getElem? hp)) hlast hold)
          · exact .inl hmem
        · exact .inr rfl
  | publish i p hp hnew =>
    have hknown : s.Known p := .inl (mem_of_getElem? hp)
    refine ⟨Ordered.of_known h.toOrdered rfl fun q hq =>
      known_of_eraseIdx hq hp rfl rfl (.inr rfl), mem_cons_self .., ?_, h.flushing, ?_⟩
    · intro q hq
      rcases List.mem_cons.mp hq with rfl | hq
      · exact Nat.le_refl _
      · exact Nat.le_of_lt (Nat.lt_of_le_of_lt (h.newest q hq) hnew)
    · intro hdirty hflushing
      rcases h.latest hdirty hflushing with hpos | ⟨q, hq, hlast, hdescribes⟩
      · exact .inl hpos
      · refine .inr ⟨q, ?_, hlast, hdescribes⟩
        rcases hq with hmem | rfl
        · exact (mem_eraseIdx hp hmem).symm
        · -- the old file cannot be of the last generation: `p` is later
          have hle := h.bounded p hknown
          omega
  | fail i p hp =>
    refine ⟨Ordered.of_known h.toOrdered rfl fun q hq =>
      known_of_eraseIdx hq hp rfl rfl (.inl rfl), h.published, h.newest, h.flushing, ?_⟩
    intro _ _
    exact .inl (Nat.succ_pos _)
  | mark hfree hfailed =>
    refine ⟨Ordered.of_known h.toOrdered rfl fun p hp => hp, h.published, h.newest,
      h.flushing, ?_⟩
    intro hd
    cases hd
  | flush e hfree he =>
    refine ⟨Ordered.of_new h.toOrdered (e := e) rfl ?_, h.published, h.newest, ?_, ?_⟩
    · rintro p (hwaiting | hsucceeded | hflushing)
      · exact .inl (.inl hwaiting)
      · exact .inl (.inr (.inl hsucceeded))
      · exact .inr (Option.some.inj hflushing).symm
    · intro p hp
      cases hp
      exact ⟨rfl, he⟩
    · intro _ hflushing
      cases hflushing
  | flushSkip p hp hold =>
    obtain ⟨hlast, hdescribes⟩ := h.flushing p hp
    refine ⟨Ordered.of_known h.toOrdered rfl fun q hq =>
      known_of_flushed hq hp rfl rfl (.inr rfl),
      mem_cons_of_mem _ h.published, ?_, ?_, ?_⟩
    · exact List.forall_mem_cons.mpr ⟨hold, h.newest⟩
    · intro q hq
      cases hq
    · intro _ _
      exact .inr ⟨p, .inr (h.eq_file (.inr (.inr hp)) hlast hold), hlast, hdescribes⟩
  | flushPublish p hp hnew =>
    obtain ⟨hlast, hdescribes⟩ := h.flushing p hp
    refine ⟨Ordered.of_known h.toOrdered rfl fun q hq =>
      known_of_flushed hq hp rfl rfl (.inr rfl),
      mem_cons_self .., ?_, ?_, ?_⟩
    · intro q hq
      rcases List.mem_cons.mp hq with rfl | hq
      · exact Nat.le_refl _
      · exact Nat.le_of_lt (Nat.lt_of_le_of_lt (h.newest q hq) hnew)
    · intro q hq
      cases hq
    · intro _ _
      exact .inr ⟨p, .inr rfl, hlast, hdescribes⟩
  | flushFail p hp =>
    refine ⟨Ordered.of_known h.toOrdered rfl fun q hq =>
      known_of_flushed hq hp rfl rfl (.inl rfl),
      h.published, h.newest, ?_, ?_⟩
    · intro q hq
      cases hq
    · intro hdirty
      cases hdirty

lemma Inv.steps (h : s.Inv Describes) (hsteps : Relation.ReflTransGen (Step Describes) s t) :
    t.Inv Describes := by
  induction hsteps with
  | refl => exact h
  | tail _ hstep ih => exact Inv.step ih hstep

lemma generation_le_of_steps (hsteps : Relation.ReflTransGen (Step Describes) s t) :
    s.file.generation ≤ t.file.generation := by
  induction hsteps with
  | refl => exact Nat.le_refl _
  | tail _ hstep ih =>
    apply Nat.le_trans ih
    cases hstep with
    | publish _ _ _ hnew => exact Nat.le_of_lt hnew
    | flushPublish _ _ hnew => exact Nat.le_of_lt hnew
    | _ => exact Nat.le_refl _

end State

end Publisher
