import TorrentFs.Lib.FinMap
import TorrentFs.Lib.Text
import TorrentFs.Lib.Word

/-!
# The table of deferred reads

`PendingTable` holds the replies of the reads that wait for a download. Reads of one range share a
group, under a ticket id; the range index finds the group of a range. The first read of a range
leads: its caller starts the download and resolves the ticket. Each function here is what happens
under the lock of the table.

A hash map is a `FinMap`; the order in which `cancel_by_torrent_id` and `expire` meet the groups is
an argument. A failed `expect` is `none`.
-/

namespace TorrentFs.Fuse

open Text Word List Function FinMap Finset

def maxPending : ℕ := 256

def enodata : ℤ := 61

def eio : ℤ := 5

structure RangeKey where
  infoHash : Str
  fileIndex : ℤ
  offset : ℕ
  size : ℕ
deriving DecidableEq

structure PendingEntry (R : Type*) where
  reply : R
  torrentId : ℤ
  deadline : ℕ

structure PendingGroup (R : Type*) where
  key : RangeKey
  waiters : List (PendingEntry R)

/-- `Inner`, what the lock of `PendingTable` guards. -/
structure PendingTable (R : Type*) where
  groups : FinMap ℕ (PendingGroup R)
  byRange : FinMap RangeKey ℕ
  nextId : ℕ

/-- What a reply is resolved with: data or an errno. -/
inductive Answer where
  | data (bytes : List UInt8)
  | error (errno : ℤ)
deriving DecidableEq

inductive InsertOutcome where
  | leader (id : ℕ)
  | joined

/-- How a pass of the loop of `insert` ends: with an outcome, in the wait for a free slot, or in
the `expect` on the range index. -/
inductive Pass (R : Type*) where
  | done (table : PendingTable R) (outcome : InsertOutcome)
  | full
  | panicked

namespace PendingGroup

variable {R : Type*}

def replies (g : PendingGroup R) : List R := g.waiters.map PendingEntry.reply

end PendingGroup

namespace PendingTable

variable {R : Type*}

def new : PendingTable R := ⟨FinMap.empty, FinMap.empty, 0⟩

def insertOnce (t : PendingTable R) (entry : PendingEntry R) (key : RangeKey) : Pass R :=
  match t.byRange.get key with
  | some id =>
    match t.groups.get id with
    | none => .panicked
    | some group =>
      let joined := { group with waiters := group.waiters ++ [entry] }
      .done { t with groups := t.groups.insert id joined } .joined
  | none =>
    if t.groups.keys.card < maxPending then
      .done
        { groups := t.groups.insert t.nextId ⟨key, [entry]⟩
          byRange := t.byRange.insert key t.nextId
          nextId := addU64 t.nextId 1 }
        (.leader t.nextId)
    else .full

def removeGroup (t : PendingTable R) (id : ℕ) : Option (PendingTable R × PendingGroup R) :=
  match t.groups.get id with
  | none => none
  | some group =>
    some ({ t with groups := t.groups.erase id, byRange := t.byRange.erase group.key }, group)

/-- `resolve` and `resolve_error`: the group leaves the table and each of its waiters is to be
given the answer. -/
def resolveWith (t : PendingTable R) (id : ℕ) (answer : Answer) :
    PendingTable R × Option (List (R × Answer)) :=
  match t.removeGroup id with
  | none => (t, none)
  | some (t, group) => (t, some (group.replies.map fun reply => (reply, answer)))

def resolve (t : PendingTable R) (id : ℕ) (data : List UInt8) :
    PendingTable R × Option (List (R × Answer)) :=
  t.resolveWith id (.data data)

def resolveError (t : PendingTable R) (id : ℕ) (errno : ℤ) :
    PendingTable R × Option (List (R × Answer)) :=
  t.resolveWith id (.error errno)

def resolveOrEnodata (t : PendingTable R) (id : ℕ) (data : List UInt8) (size : ℕ) :
    PendingTable R × Option (List (R × Answer)) :=
  if data.isEmpty ∧ 0 < size then t.resolveError id enodata else t.resolve id data

/-- The loop of `cancel_by_torrent_id` and of `expire`, over the ids of the groups: the waiters that
satisfy `p` leave, and a group without waiters leaves with them. -/
def dropWaiters (p : PendingEntry R → Bool) :
    List ℕ → PendingTable R → List R → Option (PendingTable R × List R)
  | [], t, removed => some (t, removed)
  | id :: ids, t, removed =>
    match t.groups.get id with
    | none => none
    | some group =>
      let (out, left) := group.waiters.partition p
      let removed := removed ++ out.map PendingEntry.reply
      if left.isEmpty then
        dropWaiters p ids
          { t with groups := t.groups.erase id, byRange := t.byRange.erase group.key } removed
      else
        dropWaiters p ids
          { t with groups := t.groups.insert id { group with waiters := left } } removed

def cancelByTorrentId (t : PendingTable R) (torrentId : ℤ) (ids : List ℕ) :
    Option (PendingTable R × List R) :=
  dropWaiters (fun w => w.torrentId == torrentId) ids t []

def expire (t : PendingTable R) (now : ℕ) (ids : List ℕ) : Option (PendingTable R × List R) :=
  dropWaiters (fun w => decide (w.deadline ≤ now)) ids t []

def waiting (t : PendingTable R) : Multiset R := t.groups.gather fun g => (g.replies : Multiset R)

/-- The range index and the groups are in one-to-one correspondence, no group is empty, and there
are at most `maxPending` groups. -/
structure Coherent (t : PendingTable R) : Prop where
  indexed : ∀ key id, t.byRange.get key = some id ↔ ∃ g, t.groups.get id = some g ∧ g.key = key
  occupied : ∀ id g, t.groups.get id = some g → g.waiters ≠ []
  bounded : t.groups.keys.card ≤ maxPending

/-- The groups of `t'` are groups of `t`, with some of their waiters. -/
def Shrinks (t t' : PendingTable R) : Prop :=
  ∀ id g', t'.groups.get id = some g' →
    ∃ g, t.groups.get id = some g ∧ g'.key = g.key ∧ ∀ w ∈ g'.waiters, w ∈ g.waiters

lemma Shrinks.refl (t : PendingTable R) : Shrinks t t :=
  fun _ g hg => ⟨g, hg, rfl, fun _ hw => hw⟩

lemma Shrinks.trans {t u v : PendingTable R} (h : Shrinks t u) (h' : Shrinks u v) :
    Shrinks t v := by
  intro id g'' hg''
  obtain ⟨g', hg', hkey', hw'⟩ := h' id g'' hg''
  obtain ⟨g, hg, hkey, hw⟩ := h id g' hg'
  exact ⟨g, hg, hkey'.trans hkey, fun w hmem => hw w (hw' w hmem)⟩

lemma coherent_new : (new : PendingTable R).Coherent where
  indexed := by simp [new]
  occupied := by simp [new]
  bounded := by simp [new]

@[simp] lemma waiting_new : (new : PendingTable R).waiting = 0 := by
  simp [new, waiting]

section Updates

variable {t : PendingTable R}

variable {id : ℕ} {g : PendingGroup R}

section

variable (h : t.Coherent) (hg : t.groups.get id = some g)
include h hg

lemma Coherent.id_unique {id' : ℕ} {g' : PendingGroup R} (hg' : t.groups.get id' = some g')
    (hkey : g.key = g'.key) : id = id' := by
  have hid := (h.indexed g.key id).mpr ⟨g, hg, rfl⟩
  have hid' := (h.indexed g.key id').mpr ⟨g', hg', hkey.symm⟩
  exact Option.some.inj (hid.symm.trans hid')

lemma Coherent.replace {g' : PendingGroup R} (hkey : g'.key = g.key) (hwaiters : g'.waiters ≠ []) :
    ({ t with groups := t.groups.insert id g' } : PendingTable R).Coherent where
  indexed := by
    intro key k
    rw [h.indexed key k, get_insert]
    by_cases hk : k = id
    · subst hk
      simp [hg, hkey]
    · simp [hk]
  occupied := by
    intro k g''
    rw [get_insert]
    split
    · rintro ⟨⟩
      exact hwaiters
    · exact h.occupied k g''
  bounded := by
    have hmem : id ∈ t.groups.keys := mem_keys_of_get hg
    simpa [Finset.insert_eq_self.mpr hmem] using h.bounded

lemma Coherent.erase :
    ({ t with groups := t.groups.erase id, byRange := t.byRange.erase g.key } :
      PendingTable R).Coherent where
  indexed := by
    intro key k
    simp only [get_erase]
    by_cases hk : k = id
    · subst hk
      -- the range index had only the range of the group for this id
      have hkey : ¬ (key ≠ g.key ∧ t.byRange.get key = some k) := by
        rintro ⟨hne, hget⟩
        obtain ⟨g', hg', hkey⟩ := (h.indexed key k).mp hget
        obtain rfl := Option.some.inj (hg.symm.trans hg')
        exact hne hkey.symm
      by_cases hkey' : key = g.key <;> simp_all
    · by_cases hkey : key = g.key
      · subst hkey
        simp only [if_true, if_neg hk, reduceCtorEq, false_iff, not_exists, not_and]
        intro g' hg' hkey
        exact hk (h.id_unique hg' hg hkey)
      · rw [if_neg hkey, if_neg hk]
        exact h.indexed key k
  occupied := by
    intro k g'
    rw [get_erase]
    split
    · rintro ⟨⟩
    · exact h.occupied k g'
  bounded := (card_le_card (Finset.erase_subset _ _)).trans h.bounded

end

lemma Coherent.add (h : t.Coherent) {key : RangeKey} {entry : PendingEntry R}
    (hid : t.groups.get id = none) (hkey : t.byRange.get key = none)
    (hroom : t.groups.keys.card < maxPending) (nextId : ℕ) :
    (⟨t.groups.insert id ⟨key, [entry]⟩, t.byRange.insert key id, nextId⟩ :
      PendingTable R).Coherent where
  indexed := by
    intro key' k
    simp only [get_insert]
    by_cases hk : k = id
    · subst hk
      by_cases hkey' : key' = key
      · simp [hkey']
      · simp only [if_neg hkey', if_true, Option.some.injEq, exists_eq_left', h.indexed, hid]
        simpa using Ne.symm hkey'
    · by_cases hkey' : key' = key
      · subst hkey'
        have hnone := (not_congr (h.indexed key' k)).mp (by simp [hkey])
        simpa [hk, Ne.symm hk] using hnone
      · rw [if_neg hkey', if_neg hk]
        exact h.indexed key' k
  occupied := by
    intro k g'
    rw [get_insert]
    split
    · rintro ⟨⟩
      simp
    · exact h.occupied k g'
  bounded := by
    rw [keys_insert]
    exact (card_insert_le _ _).trans hroom

lemma waiting_of_get (hg : t.groups.get id = some g) :
    t.waiting = (g.replies : Multiset R) + (t.groups.erase id).gather fun g =>
      (g.replies : Multiset R) :=
  gather_of_get _ hg

end Updates

section Operations

variable {t : PendingTable R}

lemma insertOnce_cases (h : t.Coherent) (entry : PendingEntry R) (key : RangeKey) :
    (∃ id g, t.groups.get id = some g ∧ g.key = key ∧ t.byRange.get key = some id ∧
      t.insertOnce entry key = .done
        { t with groups := t.groups.insert id { g with waiters := g.waiters ++ [entry] } }
        .joined) ∨
    (t.byRange.get key = none ∧ t.groups.keys.card < maxPending ∧
      t.insertOnce entry key = .done
        ⟨t.groups.insert t.nextId ⟨key, [entry]⟩, t.byRange.insert key t.nextId,
          addU64 t.nextId 1⟩ (.leader t.nextId)) ∨
    (t.byRange.get key = none ∧ t.groups.keys.card = maxPending ∧
      t.insertOnce entry key = .full) := by
  unfold insertOnce
  cases hrange : t.byRange.get key with
  | some id =>
    obtain ⟨g, hg, hkey⟩ := (h.indexed key id).mp hrange
    exact .inl ⟨id, g, hg, hkey, rfl, by simp only [hg]⟩
  | none =>
    by_cases hroom : t.groups.keys.card < maxPending
    · exact .inr (.inl ⟨rfl, hroom, if_pos hroom⟩)
    · have hfull : t.groups.keys.card = maxPending := le_antisymm h.bounded (not_lt.mp hroom)
      exact .inr (.inr ⟨rfl, hfull, if_neg hroom⟩)

lemma resolveWith_cases (h : t.Coherent) (id : ℕ) (answer : Answer) :
    (t.groups.get id = none ∧ t.resolveWith id answer = (t, none)) ∨
    ∃ t' g, t.groups.get id = some g ∧
      t.resolveWith id answer = (t', some (g.replies.map fun reply => (reply, answer))) ∧
      t'.Coherent ∧ Shrinks t t' ∧ t'.nextId = t.nextId ∧
      t.waiting = (g.replies : Multiset R) + t'.waiting := by
  unfold resolveWith removeGroup
  cases hg : t.groups.get id with
  | none => exact .inl ⟨rfl, rfl⟩
  | some g =>
    refine .inr ⟨_, g, rfl, rfl, h.erase hg, fun k g' hg' => ?_, rfl, waiting_of_get hg⟩
    rw [get_erase] at hg'
    split at hg'
    · cases hg'
    · exact ⟨g', hg', rfl, fun _ hw => hw⟩

lemma resolveOrEnodata_eq (t : PendingTable R) (id : ℕ) (data : List UInt8) (size : ℕ) :
    t.resolveOrEnodata id data size = t.resolveWith id
      (if data.isEmpty ∧ 0 < size then .error enodata else .data data) := by
  unfold resolveOrEnodata resolveError resolve
  split <;> rfl

lemma coe_partition_replies (p : PendingEntry R → Bool) (waiters : List (PendingEntry R)) :
    (waiters.map PendingEntry.reply : Multiset R) =
      ((waiters.filter p).map PendingEntry.reply : Multiset R) +
        ((waiters.filter fun w => !p w).map PendingEntry.reply : Multiset R) := by
  rw [Multiset.coe_add, ← map_append, Multiset.coe_eq_coe]
  exact (filter_append_perm p waiters).symm.map _

lemma dropWaiters_spec (p : PendingEntry R → Bool) (ids : List ℕ) (hnodup : ids.Nodup) :
    ∀ (t : PendingTable R) (removed : List R), t.Coherent → (∀ id ∈ ids, (t.groups.get id).isSome) →
      ∃ t' out, dropWaiters p ids t removed = some (t', removed ++ out) ∧ t'.Coherent ∧
        Shrinks t t' ∧ t'.nextId = t.nextId ∧ t.waiting = (out : Multiset R) + t'.waiting := by
  induction ids with
  | nil => exact fun t removed h _ => ⟨t, [], by simp [dropWaiters], h, .refl t, rfl, by simp⟩
  | cons id ids ih =>
    intro t removed h hlive
    obtain ⟨hid, hrest⟩ := List.nodup_cons.mp hnodup
    obtain ⟨g, hg⟩ := Option.isSome_iff_exists.mp (hlive id mem_cons_self)
    -- the rest of the loop runs on a table that differs at `id` only
    have hnext : ∀ u : PendingTable R, u.Coherent → (∀ k, k ≠ id →
        u.groups.get k = t.groups.get k) → Shrinks t u → u.nextId = t.nextId →
        t.waiting = ((g.waiters.filter p).map PendingEntry.reply : Multiset R) + u.waiting →
        dropWaiters p (id :: ids) t removed =
          dropWaiters p ids u (removed ++ (g.waiters.filter p).map PendingEntry.reply) →
        ∃ t' out, dropWaiters p (id :: ids) t removed = some (t', removed ++ out) ∧
          t'.Coherent ∧ Shrinks t t' ∧ t'.nextId = t.nextId ∧
          t.waiting = (out : Multiset R) + t'.waiting := by
      intro u hu hsame hshrinks hnextId hwaiting heq
      obtain ⟨t', out, hdrop, hcoherent, hshrinks', hnextId', hwaiting'⟩ := ih hrest u
        (removed ++ (g.waiters.filter p).map PendingEntry.reply) hu (fun k hk => by
          rw [hsame k fun hkid => hid (hkid ▸ hk)]
          exact hlive k (mem_cons_of_mem _ hk))
      refine ⟨t', (g.waiters.filter p).map PendingEntry.reply ++ out, ?_, hcoherent,
        hshrinks.trans hshrinks', hnextId'.trans hnextId, ?_⟩
      · rw [heq, hdrop, append_assoc]
      · rw [hwaiting, hwaiting', ← Multiset.coe_add, add_assoc]
    have hsplit := coe_partition_replies p g.waiters
    by_cases hleft : (g.waiters.filter fun w => !p w).isEmpty
    · refine hnext _ (h.erase hg) (fun k hk => by simp [hk]) (fun k g' hg' => ?_) rfl ?_ ?_
      · rw [get_erase] at hg'
        split at hg'
        · cases hg'
        · exact ⟨g', hg', rfl, fun _ hw => hw⟩
      · rw [List.isEmpty_iff.mp hleft, map_nil, Multiset.coe_nil, add_zero] at hsplit
        rw [← hsplit]
        exact waiting_of_get hg
      · simp [dropWaiters, hg, hleft, comp_def]
    · have hne : (g.waiters.filter fun w => !p w) ≠ [] := fun heq => hleft (by simp [heq])
      set kept : PendingGroup R := { g with waiters := g.waiters.filter fun w => !p w } with hkept
      have hcoherent := h.replace hg (show kept.key = g.key from rfl) hne
      refine hnext _ hcoherent (fun k hk => by simp [hk]) (fun k g' hg' => ?_) rfl ?_ ?_
      · rw [get_insert] at hg'
        split at hg'
        · next hk =>
          cases hg'
          exact ⟨g, hk ▸ hg, rfl, fun w hw => mem_of_mem_filter hw⟩
        · exact ⟨g', hg', rfl, fun _ hw => hw⟩
      · rw [waiting_of_get hg, PendingGroup.replies, hsplit, waiting, gather_insert,
          add_assoc]
        rfl
      · simp [dropWaiters, hg, hleft, comp_def, hkept]

end Operations

end PendingTable

end TorrentFs.Fuse
