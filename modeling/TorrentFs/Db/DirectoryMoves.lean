import TorrentFs.Db.DirectoryClosure

/-!
# Renames and the closure of the metadata directories

A rename rewrites the paths of a directory and of the directories below it and links the directory
to its new parent. It does not touch the closure table. The module settles which renames keep the
tables consistent, and what that means for every run of the three operations.
-/

namespace TorrentFs.Db

open Text Sql Forest List Option AutoTable

namespace MetadataStore

/-! ### Renaming a directory -/

/-- The directory stays below its parent, under a name without a slash. -/
def SameDirectory (oldPath newName newPath : Str) : Prop :=
  '/' ∉ newName ∧
    match rsplitOnce '/' oldPath with
    | none => newPath = newName
    | some (above, _) => newPath = above ++ '/' :: newName

instance (oldPath newName newPath : Str) : Decidable (SameDirectory oldPath newName newPath) := by
  unfold SameDirectory
  split <;> infer_instance

/-- The renames that keep the tables consistent: the directory keeps its parent, and the statements
give every row the path it should have. -/
structure RenameKeeps (s : MetadataStore) (oldPath newName newPath : Str) : Prop where
  self : ∀ r ∈ s.directories, r.path = oldPath → SameDirectory oldPath newName newPath
  rows : ∀ d ∈ s.directories, RewrittenExactly oldPath newPath d.path

section Rename

variable {s s' : MetadataStore} {sources : List TorrentSource} {oldPath newName newPath : Str}

lemma rename_eq_some (h : s.renameMetadataDirectory sources oldPath newName newPath = some s') :
    (∀ d', d' ∈ s'.directories ↔
      ∃ d ∈ s.directories, renamedRow (s.newParentId newPath) oldPath newName newPath d = d') ∧
      s'.closure = s.closure := by
  unfold renameMetadataDirectory at h
  split at h
  · cases h
  · next db hrename =>
    cases h
    refine ⟨fun d' => ?_, rfl⟩
    change d' ∈ db.metadataDirectories ↔ _
    rw [(directories_of_rename hrename).1, List.mem_map]
    rfl

lemma renamedPath_append {above name : Str} (hname : '/' ∉ name)
    (hne : above ++ '/' :: name ≠ oldPath) : renamedPath oldPath newPath (above ++ '/' :: name) =
      renamedPath oldPath newPath above ++ '/' :: name := by
  have hbelow : pathPrefix oldPath <+: above ++ '/' :: name ↔
      above = oldPath ∨ pathPrefix oldPath <+: above := by
    unfold pathPrefix
    constructor
    · rintro ⟨rest, hrest⟩
      rw [append_assoc, singleton_append] at hrest
      rcases List.append_eq_append_iff.mp hrest with ⟨more, rfl, hmore⟩ | ⟨more, rfl, hmore⟩
      · cases more with
        | nil => exact .inl (append_nil oldPath)
        | cons c more =>
          obtain ⟨rfl, -⟩ := List.cons.inj hmore
          exact .inr ⟨more, by simp⟩
      · cases more with
        | nil => exact .inl (append_nil above).symm
        | cons c more =>
          obtain ⟨-, hname'⟩ := List.cons.inj hmore
          exact absurd (hname' ▸ by simp) hname
    · rintro (rfl | ⟨rest, rfl⟩)
      · exact ⟨name, by simp⟩
      · exact ⟨rest ++ '/' :: name, by simp⟩
  have hlong : ∀ {p : Str}, pathPrefix oldPath <+: p → oldPath.length < p.length := by
    intro p hp
    have hle := hp.length_le
    rw [length_pathPrefix] at hle
    omega
  rw [renamedPath, if_neg hne, renamedPath]
  simp only [ isPrefixOf_iff_prefix, hbelow]
  by_cases habove : above = oldPath
  · subst habove
    rw [if_pos (.inl rfl), if_pos rfl, drop_left]
  · rw [if_neg habove]
    by_cases hprefix : pathPrefix oldPath <+: above
    · rw [if_pos (.inr hprefix), if_pos hprefix, drop_append_of_le_length (hlong hprefix).le,
        append_assoc]
    · rw [if_neg (by simp [habove, hprefix]), if_neg hprefix]

lemma renamedPath_of_notMem {path : Str} (hpath : '/' ∉ path) (hne : path ≠ oldPath) :
    renamedPath oldPath newPath path = path := by
  rw [renamedPath, if_neg hne, if_neg]
  rw [ isPrefixOf_iff_prefix]
  rintro ⟨rest, rfl⟩
  exact hpath (by simp [pathPrefix])

lemma updatedPath_of_length {path : Str} (hlength : path.length < oldPath.length) :
    updatedPath oldPath newPath path = path ∧ renamedPath oldPath newPath path = path := by
  have hne : path ≠ oldPath := by
    rintro rfl
    exact lt_irrefl _ hlength
  constructor
  · rw [updatedPath, if_neg hne, if_neg]
    intro hlike
    have hle := (likeBelow_iff.mp hlike).length_le
    rw [length_pathPrefix] at hle
    omega
  · rw [renamedPath, if_neg hne, if_neg]
    rw [ isPrefixOf_iff_prefix]
    intro hprefix
    have hle := hprefix.length_le
    rw [length_pathPrefix] at hle
    omega

lemma Sound.exists_parent (h : s.Sound) {d : MetadataDirectory} (hd : d ∈ s.directories) {p : ℕ}
    (hparent : d.parentId = some p) :
    ∃ q ∈ s.directories, q.id = p ∧ d.path = q.path ++ '/' :: d.name ∧
      rsplitOnce '/' d.path = some (q.path, d.name) := by
  obtain ⟨q, hq, hid, hpath⟩ := (h.consistent.placed d hd).of_some hparent
  exact ⟨q, hq, hid, hpath, by rw [hpath, rsplitOnce_append _ (h.names d hd)]⟩

lemma find?_path {q : MetadataDirectory} (hq : q ∈ s.directories) :
    s.directories.rows.find? (fun d => d.path = q.path) = some q :=
  (find?_unique s.uniquePaths).mpr ⟨hq, rfl⟩

lemma Sound.newParentId_eq (h : s.Sound) {r : MetadataDirectory} (hr : r ∈ s.directories)
    (hsame : SameDirectory r.path newName newPath) : s.newParentId newPath = r.parentId := by
  obtain ⟨hname, hpath⟩ := hsame
  cases hparent : r.parentId with
  | none =>
    rw [rsplitOnce_of_notMem ((h.consistent.root_iff r hr).mp hparent)] at hpath
    rw [newParentId, hpath, rsplitOnce_of_notMem hname, bind_none]
  | some p =>
    obtain ⟨q, hq, rfl, -, hsplit⟩ := h.exists_parent hr hparent
    rw [hsplit] at hpath
    rw [newParentId, hpath, rsplitOnce_append _ hname, bind_some, find?_path hq,
      map_some]

lemma Sound.of_renamed (h : s.Sound) (hmem : ∀ d', d' ∈ s'.directories ↔
      ∃ d ∈ s.directories, renamedRow (s.newParentId newPath) oldPath newName newPath d = d')
    (hclosure : s'.closure = s.closure) (hpaths : ∀ d ∈ s.directories,
      updatedPath oldPath newPath d.path = renamedPath oldPath newPath d.path)
    (hself : ∀ r ∈ s.directories, r.path = oldPath → SameDirectory oldPath newName newPath) :
    s'.Sound := by
  set row := renamedRow (s.newParentId newPath) oldPath newName newPath with hrow
  have hpath : ∀ d ∈ s.directories, (row d).path = renamedPath oldPath newPath d.path := hpaths
  have hself_name : ∀ d, d.path = oldPath → (row d).name = newName := fun d hd => if_pos hd
  have hother_name : ∀ d, d.path ≠ oldPath → (row d).name = d.name := fun d hd => if_neg hd
  have hparents : ∀ d ∈ s.directories, (row d).parentId = d.parentId := by
    intro d hd
    by_cases hold : d.path = oldPath
    · exact (if_pos hold).trans (h.newParentId_eq hd (hold ▸ hself d hd hold))
    · exact if_neg hold
  have hlinks : links s'.directories = links s.directories := by
    ext id parent
    constructor
    · rintro ⟨d', hd', rfl, rfl⟩
      obtain ⟨d, hd, rfl⟩ := (hmem d').mp hd'
      exact ⟨d, hd, rfl, (hparents d hd).symm⟩
    · rintro ⟨d, hd, rfl, rfl⟩
      exact ⟨row d, (hmem _).mpr ⟨d, hd, rfl⟩, rfl, hparents d hd⟩
  -- the directories without a parent
  have hroots : ∀ d ∈ s.directories, d.parentId = none →
      (row d).path = (row d).name ∧ '/' ∉ (row d).path := by
    intro d hd hroot
    have hslash := (h.consistent.root_iff d hd).mp hroot
    by_cases hold : d.path = oldPath
    · obtain ⟨hname, hnew⟩ := hself d hd hold
      rw [← hold, rsplitOnce_of_notMem hslash] at hnew
      rw [hpath d hd, hself_name d hold, renamedPath, if_pos hold, hnew]
      exact ⟨rfl, hname⟩
    · rw [hpath d hd, hother_name d hold, renamedPath_of_notMem hslash hold]
      exact ⟨(h.consistent.placed d hd).of_none hroot, hslash⟩
  have hchildren : ∀ d ∈ s.directories, ∀ p, d.parentId = some p → ∃ q ∈ s.directories,
      q.id = p ∧ (row d).path = (row q).path ++ '/' :: (row d).name := by
    intro d hd p hparent
    obtain ⟨q, hq, hid, heq, hsplit⟩ := h.exists_parent hd hparent
    refine ⟨q, hq, hid, ?_⟩
    rw [hpath d hd, hpath q hq]
    by_cases hold : d.path = oldPath
    · -- the parent of the directory has a shorter path
      obtain ⟨-, hnew⟩ := hself d hd hold
      have hshort : q.path.length < oldPath.length := by
        rw [← hold, heq, length_append, length_cons]
        omega
      rw [← hold, hsplit] at hnew
      rw [(updatedPath_of_length hshort).2, hself_name d hold, renamedPath, if_pos hold]
      exact hnew
    · rw [hother_name d hold, heq, renamedPath_append (h.names d hd) (heq ▸ hold)]
  refine ⟨⟨fun d' hd' => ?_, fun d' hd' => ?_, fun a d n => ?_⟩, fun d' hd' => ?_⟩
  · obtain ⟨d, hd, rfl⟩ := (hmem d').mp hd'
    unfold Placed
    rw [hparents d hd]
    cases hparent : d.parentId with
    | none => exact (hroots d hd hparent).1
    | some p =>
      obtain ⟨q, hq, hid, heq⟩ := hchildren d hd p hparent
      exact ⟨row q, (hmem _).mpr ⟨q, hq, rfl⟩, hid, heq⟩
  · obtain ⟨d, hd, rfl⟩ := (hmem d').mp hd'
    rw [hparents d hd]
    cases hparent : d.parentId with
    | none => exact iff_of_true rfl (hroots d hd hparent).2
    | some p =>
      obtain ⟨q, -, -, heq⟩ := hchildren d hd p hparent
      refine iff_of_false (some_ne_none p) fun hnot => hnot ?_
      rw [heq]
      simp
  · rw [hclosure, hlinks]
    exact h.consistent.closure_iff a d n
  · obtain ⟨d, hd, rfl⟩ := (hmem d').mp hd'
    by_cases hold : d.path = oldPath
    · rw [hself_name d hold]
      exact (hself d hd hold).1
    · rw [hother_name d hold]
      exact h.names d hd

lemma parentId_of_consistent (h : s.Consistent) (h' : s'.Consistent)
    {row : MetadataDirectory → MetadataDirectory} (hid : ∀ d, (row d).id = d.id)
    (hmem : ∀ d', d' ∈ s'.directories ↔ ∃ d ∈ s.directories, row d = d')
    (hclosure : s'.closure = s.closure) : ∀ d ∈ s.directories, (row d).parentId = d.parentId := by
  intro d hd
  have hrow : row d ∈ s'.directories := (hmem _).mpr ⟨d, hd, rfl⟩
  have hpairs : ∀ a id, AncestorAt (links s.directories) a id 1 ↔
      AncestorAt (links s'.directories) a id 1 := by
    intro a id
    rw [← h.closure_iff, ← h'.closure_iff, hclosure]
  ext p
  have hlink := links_of_ancestorAt (d := d.id) (p := p) (closed_links h.placed)
    (closed_links h'.placed) hpairs
  rw [links_id hd, ← hid d, links_id hrow] at hlink
  exact hlink.symm

section

variable (h : s.Sound) (h' : s'.Consistent)
  (hmem : ∀ d', d' ∈ s'.directories ↔ ∃ d ∈ s.directories,
    renamedRow (s.newParentId newPath) oldPath newName newPath d = d')
  (hparents : ∀ d ∈ s.directories,
    (renamedRow (s.newParentId newPath) oldPath newName newPath d).parentId = d.parentId)
include h h' hmem hparents

lemma sameDirectory_of_consistent {r : MetadataDirectory} (hr : r ∈ s.directories)
    (hpath : r.path = oldPath) :
    SameDirectory oldPath newName newPath ∧ updatedPath oldPath newPath oldPath = newPath := by
  set row := renamedRow (s.newParentId newPath) oldPath newName newPath with hrow
  have hrow' : row r ∈ s'.directories := (hmem _).mpr ⟨r, hr, rfl⟩
  have hname : (row r).name = newName := if_pos hpath
  have hrowPath : (row r).path = updatedPath oldPath newPath oldPath :=
    congrArg (updatedPath oldPath newPath) hpath
  have hnewParent : s.newParentId newPath = r.parentId := (if_pos hpath).symm.trans (hparents r hr)
  -- the directory itself is moved once unless its new path has a slash at the end of the old one
  have hupdated : updatedPath oldPath newPath oldPath =
      if likeBelow oldPath newPath then movedPath oldPath newPath newPath else newPath := by
    rw [updatedPath, if_pos rfl]
  cases hparent : r.parentId with
  | none =>
    have hroot : (row r).parentId = none := (hparents r hr).trans hparent
    have hslash := (h'.root_iff _ hrow').mp hroot
    have hplaced := (h'.placed _ hrow').of_none hroot
    rw [hrowPath, hupdated] at hslash
    rw [hrowPath, hname] at hplaced
    have hnot : ¬ likeBelow oldPath newPath = true := by
      intro hlike
      rw [if_pos hlike] at hslash
      exact hslash (by simp [movedPath, pathPrefix])
    rw [if_neg hnot] at hslash hupdated
    rw [hupdated] at hplaced
    refine ⟨⟨hplaced ▸ hslash, ?_⟩, hupdated⟩
    rw [← hpath, rsplitOnce_of_notMem ((h.consistent.root_iff r hr).mp hparent)]
    exact hplaced
  | some p =>
    obtain ⟨q, hq, rfl, hold, hsplit⟩ := h.exists_parent hr hparent
    rw [hparent] at hnewParent
    have hmemSlash : '/' ∈ newPath := by
      by_contra hnot
      rw [newParentId, rsplitOnce_of_notMem hnot] at hnewParent
      cases hnewParent
    obtain ⟨above, last, rfl, hlast⟩ := exists_append_of_mem hmemSlash
    have habove : above = q.path := by
      rw [newParentId, rsplitOnce_append _ hlast, bind_some] at hnewParent
      obtain ⟨q', hfind, hid⟩ := Option.map_eq_some_iff.mp hnewParent
      have hpath' : q'.path = above := by simpa using find?_some hfind
      rw [← hpath', eq_of_key (mem_of_find?_eq_some hfind) hq hid]
    subst habove
    have hshort : q.path.length < oldPath.length := by
      rw [← hpath, hold, length_append, length_cons]
      omega
    have hnot : ¬ likeBelow oldPath (q.path ++ '/' :: last) = true := by
      intro hlike
      obtain ⟨b, rest, heq, hlength⟩ := (likeBelow_iff.mp hlike).exists_slash
      rcases List.append_eq_append_iff.mp heq with ⟨more, rfl, hmore⟩ | ⟨more, hq', -⟩
      · cases more with
        | nil => rw [append_nil] at hlength; omega
        | cons c more =>
          obtain ⟨-, rfl⟩ := List.cons.inj hmore
          exact hlast (by simp)
      · have hle := congrArg List.length hq'
        rw [length_append] at hle
        omega
    rw [if_neg hnot] at hupdated
    obtain ⟨q', hq', hid, hplaced⟩ := (h'.placed _ hrow').of_some
      ((hparents r hr).trans hparent)
    obtain ⟨d, hd, rfl⟩ := (hmem q').mp hq'
    obtain rfl := eq_of_key hd hq hid
    have hrowq : (row d).path = d.path := (updatedPath_of_length hshort).1
    rw [hrowPath, hupdated, hrowq, hname] at hplaced
    have hlast' : last = newName := (List.cons.inj (append_cancel_left hplaced)).2
    refine ⟨⟨hlast' ▸ hlast, ?_⟩, hupdated⟩
    rw [← hpath, hsplit, hlast']

lemma updatedPath_of_consistent (n : ℕ) : ∀ d ∈ s.directories, d.path.length = n →
      updatedPath oldPath newPath d.path = renamedPath oldPath newPath d.path := by
  induction n using Nat.strongRec with
  | ind n ih =>
    intro d hd hn
    by_cases hold : d.path = oldPath
    · rw [hold, (sameDirectory_of_consistent h h' hmem hparents hd hold).2, renamedPath,
        if_pos rfl]
    · have hrow := (hmem _).mpr ⟨d, hd, rfl⟩
      have hplaced := h'.placed _ hrow
      have hname : (renamedRow (s.newParentId newPath) oldPath newName newPath d).name = d.name :=
        if_neg hold
      cases hparent : d.parentId with
      | none =>
        have hpath := hplaced.of_none ((hparents d hd).trans hparent)
        rw [hname, ← (h.consistent.placed d hd).of_none hparent] at hpath
        rw [renamedPath_of_notMem ((h.consistent.root_iff d hd).mp hparent) hold]
        exact hpath
      | some p =>
        obtain ⟨q, hq, rfl, heq, -⟩ := h.exists_parent hd hparent
        obtain ⟨q', hq', hid, hpath⟩ := hplaced.of_some ((hparents d hd).trans hparent)
        obtain ⟨c, hc, rfl⟩ := (hmem q').mp hq'
        obtain rfl := eq_of_key hc hq hid
        have hshort : c.path.length < n := by
          rw [← hn, heq, length_append, length_cons]
          omega
        have hparentPath := ih _ hshort c hc rfl
        have hrenamed : renamedPath oldPath newPath d.path =
            updatedPath oldPath newPath c.path ++ '/' :: d.name := by
          rw [heq, renamedPath_append (h.names d hd) (heq ▸ hold), hparentPath]
        rw [hname] at hpath
        exact hpath.trans hrenamed.symm

end

section

variable (h : s.Sound)
  (hrename : s.renameMetadataDirectory sources oldPath newName newPath = some s')
include h hrename

lemma consistent_rename_iff : s'.Consistent ↔ s.RenameKeeps oldPath newName newPath := by
  obtain ⟨hmem, hclosure⟩ := rename_eq_some hrename
  constructor
  · intro h'
    have hid : ∀ d, (renamedRow (s.newParentId newPath) oldPath newName newPath d).id = d.id :=
      fun _ => rfl
    have hparents := parentId_of_consistent h.consistent h' hid hmem hclosure
    refine ⟨fun r hr hpath => (sameDirectory_of_consistent h h' hmem hparents hr hpath).1,
      fun d hd => ?_⟩
    exact updatedPath_eq_iff.mp (updatedPath_of_consistent h h' hmem hparents _ d hd rfl)
  · intro hkeeps
    exact (h.of_renamed hmem hclosure (fun d hd => updatedPath_eq_iff.mpr (hkeeps.rows d hd))
      hkeeps.self).consistent

lemma Sound.rename (hkeeps : s.RenameKeeps oldPath newName newPath) : s'.Sound := by
  obtain ⟨hmem, hclosure⟩ := rename_eq_some hrename
  exact h.of_renamed hmem hclosure (fun d hd => updatedPath_eq_iff.mpr (hkeeps.rows d hd))
    hkeeps.self

end

end Rename

/-! ### Every run -/

end MetadataStore

inductive DirectoryStep
  | ensure (path : Str)
  | delete (path : Str)
  | rename (sources : List TorrentSource) (oldPath newName newPath : Str)
  /-- A rename that is rolled back. -/
  | rollback (sources : List TorrentSource) (oldPath newName newPath : Str)

namespace MetadataStore

def step (s : MetadataStore) : DirectoryStep → Option MetadataStore
  | .ensure path => some (s.ensureMetadataDirectories path).2
  | .delete path => some (s.deleteMetadataDirectory path)
  | .rename sources oldPath newName newPath =>
    s.renameMetadataDirectory sources oldPath newName newPath
  | .rollback sources oldPath newName newPath =>
    if s.renameMetadataDirectory sources oldPath newName newPath = none then some s else none

/-- A rename that commits keeps the tables consistent. -/
def Keeps (s : MetadataStore) : DirectoryStep → Prop
  | .rename _ oldPath newName newPath => s.RenameKeeps oldPath newName newPath
  | _ => True

lemma sound_empty : empty.Sound := by
  have hnone : ∀ d, d ∉ (empty : MetadataStore).directories := notMem_empty
  refine ⟨⟨fun d hd => absurd hd (hnone d), fun d hd => absurd hd (hnone d), fun a d n => ?_⟩,
    fun d hd => absurd hd (hnone d)⟩
  refine iff_of_false not_mem_nil fun hpair => ?_
  obtain ⟨_, row, hrow, -⟩ := hpair.descendant
  exact hnone row hrow

lemma Sound.step {s t : MetadataStore} {a : DirectoryStep} (h : s.Sound) (hkeeps : s.Keeps a)
    (hstep : s.step a = some t) : t.Sound := by
  cases a with
  | ensure path =>
    cases hstep
    exact h.ensure path
  | delete path =>
    cases hstep
    exact h.delete path
  | rename sources oldPath newName newPath => exact h.rename hstep hkeeps
  | rollback sources oldPath newName newPath =>
    obtain ⟨-, rfl⟩ : _ ∧ s = t := by simpa [MetadataStore.step] using hstep
    exact h

/-- After every run whose renames keep the directories below their parents and rewrite the paths as
they should, the paths follow the parents and the closure table is their closure. The next rename
keeps it so exactly when it is such a rename too. -/
theorem consistent_of_run (steps : List DirectoryStep) (s : MetadataStore)
    (hrun : Run.runFrom step empty steps = some s) (halong : Run.Along step Keeps empty steps) :
    s.Consistent ∧ ∀ sources oldPath newName newPath s',
      s.renameMetadataDirectory sources oldPath newName newPath = some s' →
        (s'.Consistent ↔ s.RenameKeeps oldPath newName newPath) := by
  have hsound := Run.invariant_of_run_along
    (fun _ _ _ hs hkeeps hstep => Sound.step hs hkeeps hstep) sound_empty halong hrun
  exact ⟨hsound.consistent, fun sources oldPath newName newPath s' hrename =>
    consistent_rename_iff hsound hrename⟩

theorem consistent_after_rename_in_place : ∃ s, Run.runFrom step empty
        [.ensure "a/b".toList, .rename [] "a".toList "c".toList "c".toList] = some s ∧
      s.Consistent ∧
      s.directories.rows.map MetadataDirectory.path = ["c".toList, "c/b".toList] := by
  have hkeeps : (empty.ensureMetadataDirectories "a/b".toList).2.RenameKeeps "a".toList "c".toList
      "c".toList := by
    constructor
    · change ∀ r ∈ (empty.ensureMetadataDirectories "a/b".toList).2.directories.rows, _
      decide +kernel
    · change ∀ r ∈ (empty.ensureMetadataDirectories "a/b".toList).2.directories.rows, _
      decide +kernel
  have halong : Run.Along step Keeps empty
      [.ensure "a/b".toList, .rename [] "a".toList "c".toList "c".toList] := by
    refine ⟨trivial, fun t ht => ?_⟩
    cases ht
    exact ⟨hkeeps, fun _ _ => trivial⟩
  exact ⟨_, rfl, (consistent_of_run _ _ rfl halong).1, by decide +kernel⟩

/-- The directory `a/b`, which is not empty, is moved below `c`: its parent is `c` and its path is
`c/b`, but in the closure table `a` is above it and `c` is not. -/
theorem move_leaves_closure :
    ∃ s, Run.runFrom step empty [.ensure "a/b/x".toList, .ensure "c".toList,
        .rename [] "a/b".toList "b".toList "c/b".toList] = some s ∧
      s.directories.rows = [⟨1, none, "a".toList, "a".toList⟩,
        ⟨2, some 4, "b".toList, "c/b".toList⟩, ⟨3, some 2, "x".toList, "c/b/x".toList⟩,
        ⟨4, none, "c".toList, "c".toList⟩] ∧
      ⟨1, 2, 1⟩ ∈ s.closure ∧ ⟨4, 2, 1⟩ ∉ s.closure ∧ ¬ s.Consistent := by
  obtain ⟨s, hs, hrows, hpair, hmissing⟩ : ∃ s, Run.runFrom step empty [.ensure "a/b/x".toList,
      .ensure "c".toList, .rename [] "a/b".toList "b".toList "c/b".toList] = some s ∧
      s.directories.rows = [⟨1, none, "a".toList, "a".toList⟩,
        ⟨2, some 4, "b".toList, "c/b".toList⟩, ⟨3, some 2, "x".toList, "c/b/x".toList⟩,
        ⟨4, none, "c".toList, "c".toList⟩] ∧ ⟨1, 2, 1⟩ ∈ s.closure ∧ ⟨4, 2, 1⟩ ∉ s.closure := by
    decide +kernel
  refine ⟨s, hs, hrows, hpair, hmissing, fun h => ?_⟩
  -- the pair of `a` and `b` says that `a` is the parent of `b`
  obtain ⟨d, hd, hid, hparent⟩ :=
    (ancestorAt_one (closed_links h.placed)).mp ((h.closure_iff 1 2 1).mp hpair)
  rw [AutoTable.mem_def, hrows] at hd
  revert hid hparent
  revert d
  decide

end MetadataStore

end TorrentFs.Db
