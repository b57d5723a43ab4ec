import TorrentFs.Lib.Forest
import TorrentFs.Db.Names

/-!
# Paths, parents and closure of the metadata directories

A metadata directory has a parent link, a name and a path, and the pairs of the directories above it
are kept in a closure table. Three operations maintain them: directories are created along a path,
deleted with everything below them, and renamed.
-/

namespace TorrentFs.Db

open Text Sql Forest List Option AutoTable Nat

def DirectoryTable.doomed (path : Str) (t : DirectoryTable) : List ℕ :=
  t.withChildren t.rows.length ((t.rows.filter fun d => d.path = path).map MetadataDirectory.id)

/-- The tables `metadata_directories` and `metadata_directory_closure`. -/
structure MetadataStore where
  directories : DirectoryTable
  closure : List Closure
  uniquePaths : (directories.rows.map MetadataDirectory.path).Nodup
  uniquePairs : (closure.map fun c => (c.ancestorId, c.descendantId)).Nodup

namespace MetadataStore

/-! ### The operations -/

def empty : MetadataStore := ⟨.empty, [], List.nodup_nil, List.nodup_nil⟩

def insertDirectory (s : MetadataStore) (parentId : Option ℕ) (name path : Str) :
    Except SqlError (MetadataStore × ℕ) :=
  if hfresh : ∀ d ∈ s.directories.rows, d.path ≠ path then
    match h : s.directories.insert (fun id => ⟨id, parentId, name, path⟩) fun _ => rfl with
    | .error e => .error e
    | .ok (directories, id) =>
      .ok (⟨directories, s.closure, by
        rw [AutoTable.rows_of_insert h, List.map_append, List.nodup_append_comm]
        refine List.nodup_cons.mpr ⟨fun hmem => ?_, s.uniquePaths⟩
        obtain ⟨d, hd, hpath⟩ := List.mem_map.mp hmem
        exact hfresh d hd hpath, s.uniquePairs⟩, id)
  else .error .constraint

def insertClosure (s : MetadataStore) (pairs : List Closure) : Except SqlError MetadataStore :=
  if h : ((s.closure ++ pairs).map fun c => (c.ancestorId, c.descendantId)).Nodup then
    .ok { s with closure := s.closure ++ pairs, uniquePairs := h }
  else .error .constraint

def ancestorPairs (s : MetadataStore) (id parentId : ℕ) : List Closure :=
  (s.closure.filter fun c => c.descendantId = parentId).map fun c =>
    ⟨c.ancestorId, id, c.depth + 1⟩

/-- The statements of `ensure_metadata_directories` that create one directory. Each is committed by
itself. -/
def createDirectory (s : MetadataStore) (parentId : Option ℕ) (name path : Str) :
    Except SqlError ℕ × MetadataStore :=
  match s.insertDirectory parentId name path with
  | .error e => (.error e, s)
  | .ok (s, id) =>
    match s.insertClosure [⟨id, id, 0⟩] with
    | .error e => (.error e, s)
    | .ok s =>
      match parentId with
      | none => (.ok id, s)
      | some parentId =>
        match s.insertClosure (s.ancestorPairs id parentId) with
        | .error e => (.error e, s)
        | .ok s => (.ok id, s)

def childPath (currentPath part : Str) : Str :=
  if currentPath = [] then part else currentPath ++ '/' :: part

def ensureParts : Str → Option ℕ → List Str → MetadataStore → Except SqlError Unit × MetadataStore
  | _, _, [], s => (.ok (), s)
  | currentPath, parentId, part :: rest, s =>
    let path := childPath currentPath part
    match s.directories.rows.find? fun d => d.path = path with
    | some d => ensureParts path (some d.id) rest s
    | none =>
      match s.createDirectory parentId part path with
      | (.error e, s) => (.error e, s)
      | (.ok id, s) => ensureParts path (some id) rest s

def ensureMetadataDirectories (path : Str) (s : MetadataStore) :
    Except SqlError Unit × MetadataStore :=
  ensureParts [] none ((path.splitOn '/').filter fun part => part ≠ []) s

/-- `delete_metadata_directory`: the foreign keys take the directories below it, and the pairs of
all of them. -/
def deleteMetadataDirectory (path : Str) (s : MetadataStore) : MetadataStore where
  directories := s.directories.deleteMetadataDirectory path
  closure := s.closure.filter fun c =>
    c.ancestorId ∉ s.directories.doomed path ∧ c.descendantId ∉ s.directories.doomed path
  uniquePaths := s.uniquePaths.sublist (List.filter_sublist.map _)
  uniquePairs := s.uniquePairs.sublist (List.filter_sublist.map _)

def newParentId (s : MetadataStore) (newPath : Str) : Option ℕ :=
  (rsplitOnce '/' newPath).bind fun parts =>
    (s.directories.rows.find? fun d => d.path = parts.1).map MetadataDirectory.id

def renamedRow (parentId : Option ℕ) (oldPath newName newPath : Str) (d : MetadataDirectory) :
    MetadataDirectory where
  id := d.id
  parentId := if d.path = oldPath then parentId else d.parentId
  name := if d.path = oldPath then newName else d.name
  path := updatedPath oldPath newPath d.path

lemma directories_of_rename {rows : List MetadataDirectory} {sources : List TorrentSource}
    {db : Catalog} {oldPath newName newPath : Str}
    (h : Catalog.renameMetadataDirectory ⟨rows, sources⟩ oldPath newName newPath = some db) :
    db.metadataDirectories = rows.map (renamedRow ((rsplitOnce '/' newPath).bind fun parts =>
        (rows.find? fun d => d.path = parts.1).map MetadataDirectory.id)
        oldPath newName newPath) ∧ ((rows.map MetadataDirectory.path).Nodup →
        (db.metadataDirectories.map MetadataDirectory.path).Nodup) := by
  simp only [Catalog.renameMetadataDirectory, bind_eq_bind, bind_eq_some_iff,
    Option.some.injEq] at h
  obtain ⟨dirs₁, hdirs₁, dirs₂, hdirs₂, sources₁, -, sources₂, -, rfl⟩ := h
  refine ⟨?_, fun hnodup => nodup_updateUnique hdirs₂ (nodup_updateUnique hdirs₁ hnodup)⟩
  rw [updateUnique_eq_some hdirs₂, updateUnique_eq_some hdirs₁, List.map_map]
  refine map_congr_left fun d _ => ?_
  by_cases hself : d.path = oldPath <;> by_cases hlike : likeBelow oldPath newPath = true <;>
    by_cases hlike' : likeBelow oldPath d.path = true <;>
    simp [updatedPath, renamedRow, hself, hlike, hlike']

/-- `rename_metadata_directory`, with the sources of the torrents at that time; `none` when it is
rolled back. -/
def renameMetadataDirectory (sources : List TorrentSource) (oldPath newName newPath : Str)
    (s : MetadataStore) : Option MetadataStore :=
  match h : Catalog.renameMetadataDirectory ⟨s.directories.rows, sources⟩ oldPath newName
      newPath with
  | none => none
  | some db =>
    some {
      directories := s.directories.withRows db.metadataDirectories (by
        rw [(directories_of_rename h).1, List.map_map]
        rfl)
      closure := s.closure
      uniquePaths := (directories_of_rename h).2 s.uniquePaths
      uniquePairs := s.uniquePairs }

/-! ### Consistent tables -/

def links (t : DirectoryTable) (id : ℕ) (parentId : Option ℕ) : Prop :=
  ∃ d ∈ t, d.id = id ∧ d.parentId = parentId

/-- The path of a directory is that of its parent followed by a slash and its name, or its name. -/
def Placed (t : DirectoryTable) (d : MetadataDirectory) : Prop :=
  match d.parentId with
  | none => d.path = d.name
  | some parentId => ∃ q ∈ t, q.id = parentId ∧ d.path = q.path ++ '/' :: d.name

/-- Paths follow the parents, the directories without a parent are those without a slash, and the
closure table has exactly the pairs of the closure of the parents, with their distances. -/
structure Consistent (s : MetadataStore) : Prop where
  placed : ∀ d ∈ s.directories, Placed s.directories d
  root_iff : ∀ d ∈ s.directories, d.parentId = none ↔ '/' ∉ d.path
  closure_iff : ∀ a d n, ⟨a, d, n⟩ ∈ s.closure ↔ AncestorAt (links s.directories) a d n

/-- Consistent tables of names without a slash. -/
structure Sound (s : MetadataStore) : Prop where
  consistent : s.Consistent
  names : ∀ d ∈ s.directories, '/' ∉ d.name

section Links

variable {t : DirectoryTable} {d : MetadataDirectory}

lemma links_id (hd : d ∈ t) {parentId : Option ℕ} :
    links t d.id parentId ↔ d.parentId = parentId := by
  constructor
  · rintro ⟨d', hd', hid, rfl⟩
    rw [eq_of_key hd hd' hid.symm]
  · intro h
    exact ⟨d, hd, rfl, h⟩

lemma Placed.of_none (h : Placed t d) (hroot : d.parentId = none) : d.path = d.name := by
  unfold Placed at h
  rwa [hroot] at h

lemma Placed.of_some (h : Placed t d) {parentId : ℕ} (hparent : d.parentId = some parentId) :
    ∃ q ∈ t, q.id = parentId ∧ d.path = q.path ++ '/' :: d.name := by
  unfold Placed at h
  rwa [hparent] at h

lemma closed_links (h : ∀ d ∈ t, Placed t d) : Closed (links t) := by
  rintro _ parentId ⟨d, hd, rfl, hparent⟩
  obtain ⟨q, hq, rfl, -⟩ := (h d hd).of_some hparent
  exact ⟨q.parentId, q, hq, rfl, rfl⟩

def pathLength (t : DirectoryTable) (id : ℕ) : ℕ := ((t.get? id).map fun d => d.path.length).getD 0

lemma pathLength_eq (hd : d ∈ t) : pathLength t d.id = d.path.length := by
  rw [pathLength, AutoTable.get?_eq_some.mpr ⟨hd, rfl⟩]
  rfl

lemma pathLength_lt (h : ∀ d ∈ t, Placed t d) (id parentId : ℕ)
    (hlink : links t id (some parentId)) : pathLength t parentId < pathLength t id := by
  obtain ⟨d, hd, rfl, hparent⟩ := hlink
  obtain ⟨q, hq, rfl, hpath⟩ := (h d hd).of_some hparent
  rw [pathLength_eq hd, pathLength_eq hq, hpath, length_append, length_cons]
  omega

end Links

/-! ### Creating directories -/

section Ensure

variable {s s' : MetadataStore} {parentId : Option ℕ} {name path : Str} {id : ℕ}

lemma insertClosure_of_fresh (pairs : List Closure)
    (hnodup : (pairs.map fun c => (c.ancestorId, c.descendantId)).Nodup)
    (hfresh : ∀ c ∈ pairs, ∀ c' ∈ s.closure,
      (c'.ancestorId, c'.descendantId) ≠ (c.ancestorId, c.descendantId)) :
    ∃ s', s.insertClosure pairs = .ok s' ∧ s'.directories = s.directories ∧
      s'.closure = s.closure ++ pairs := by
  have hall : ((s.closure ++ pairs).map fun c => (c.ancestorId, c.descendantId)).Nodup := by
    rw [map_append]
    refine s.uniquePairs.append hnodup fun pair hold hnew => ?_
    obtain ⟨c', hc', rfl⟩ := List.mem_map.mp hold
    obtain ⟨c, hc, heq⟩ := List.mem_map.mp hnew
    exact hfresh c hc c' hc' heq.symm
  exact ⟨_, dif_pos hall, rfl, rfl⟩

lemma insertDirectory_eq_ok (h : s.insertDirectory parentId name path = .ok (s', id)) :
    (∀ d, d ∈ s'.directories ↔ d ∈ s.directories ∨ d = ⟨id, parentId, name, path⟩) ∧
      (∀ d ∈ s.directories, d.id ≠ id) ∧ s'.closure = s.closure ∧
      s.directories.insert (fun id => ⟨id, parentId, name, path⟩) (fun _ => rfl) =
        .ok (s'.directories, id) := by
  unfold insertDirectory at h
  split at h
  · split at h
    · cases h
    · next directories id' hinsert =>
      cases h
      obtain ⟨hmem, hids⟩ := insert_eq_ok hinsert
      exact ⟨hmem, hids, rfl, hinsert⟩
  · cases h

lemma insertDirectory_eq_error {e : SqlError} (hfresh : ∀ d ∈ s.directories.rows, d.path ≠ path)
    (h : s.insertDirectory parentId name path = .error e) :
    s.directories.insert (fun id => ⟨id, parentId, name, path⟩) (fun _ => rfl) = .error e := by
  rw [insertDirectory, dif_pos hfresh] at h
  split at h
  · next hinsert =>
    obtain rfl := Except.error.inj h
    exact hinsert
  · cases h

lemma mem_ancestorPairs {a d n p : ℕ} :
    ⟨a, d, n⟩ ∈ s.ancestorPairs id p ↔ d = id ∧ ∃ m, n = m + 1 ∧ ⟨a, p, m⟩ ∈ s.closure := by
  simp only [ancestorPairs, List.mem_map, List.mem_filter, decide_eq_true_eq, Closure.mk.injEq]
  constructor
  · rintro ⟨⟨a', p', m⟩, ⟨hc, rfl⟩, rfl, rfl, rfl⟩
    exact ⟨rfl, m, rfl, hc⟩
  · rintro ⟨rfl, m, rfl, hc⟩
    exact ⟨_, ⟨hc, rfl⟩, rfl, rfl, rfl⟩

lemma nodup_ancestorPairs (s : MetadataStore) (id p : ℕ) :
    ((s.ancestorPairs id p).map fun c => (c.ancestorId, c.descendantId)).Nodup := by
  rw [ancestorPairs, List.map_map]
  refine List.Nodup.map_on (fun c hc c' hc' heq => ?_) (s.uniquePairs.of_map.filter _)
  obtain ⟨hc, hp⟩ := List.mem_filter.mp hc
  obtain ⟨hc', hp'⟩ := List.mem_filter.mp hc'
  refine inj_on_of_nodup_map s.uniquePairs hc hc' (Prod.ext (Prod.mk.inj heq).1 ?_)
  exact (of_decide_eq_true hp).trans (of_decide_eq_true hp').symm

/-- The parent that the loop has reached: the row of the path so far. -/
def Reached (s : MetadataStore) (currentPath : Str) : Option ℕ → Prop
  | none => currentPath = []
  | some parentId => currentPath ≠ [] ∧ ∃ q ∈ s.directories, q.id = parentId ∧ q.path = currentPath

variable {currentPath part : Str}

lemma Reached.placed (h : s.Reached currentPath parentId) (id : ℕ) :
    Placed s.directories ⟨id, parentId, part, childPath currentPath part⟩ := by
  cases parentId with
  | none => exact if_pos h
  | some p =>
    obtain ⟨hne, q, hq, hid, hpath⟩ := h
    exact ⟨q, hq, hid, by rw [hpath]; exact if_neg hne⟩

lemma childPath_ne_nil (hpart : part ≠ []) : childPath currentPath part ≠ [] := by
  unfold childPath
  split
  · exact hpart
  · exact append_ne_nil_of_right_ne_nil _ (cons_ne_nil _ _)

lemma Reached.root_iff (h : s.Reached currentPath parentId)
    (hpart : '/' ∉ part) : parentId = none ↔ '/' ∉ childPath currentPath part := by
  cases parentId with
  | none =>
    have hpath : childPath currentPath part = part := if_pos h
    rw [hpath]
    exact iff_of_true rfl hpart
  | some p =>
    have hpath : childPath currentPath part = currentPath ++ '/' :: part := if_neg h.1
    rw [hpath]
    exact iff_of_false (some_ne_none p) (fun hnot => hnot (by simp))

lemma Placed.mono {t t' : DirectoryTable} {d : MetadataDirectory} (h : Placed t d)
    (hle : ∀ q ∈ t, q ∈ t') : Placed t' d := by
  unfold Placed at h ⊢
  cases hparent : d.parentId with
  | none => rwa [hparent] at h
  | some p =>
    rw [hparent] at h
    obtain ⟨q, hq, hid, hpath⟩ := h
    exact ⟨q, hle q hq, hid, hpath⟩

lemma Sound.leaf (h : s.Sound) (id : ℕ)
    (hreached : s.Reached currentPath parentId) (hpart : '/' ∉ part)
    (hmem : ∀ d, d ∈ s'.directories ↔
      d ∈ s.directories ∨ d = ⟨id, parentId, part, childPath currentPath part⟩)
    (hfresh : ∀ d ∈ s.directories, d.id ≠ id)
    (hclosure : ∀ a d n, ⟨a, d, n⟩ ∈ s'.closure ↔ ⟨a, d, n⟩ ∈ s.closure ∨
      (d = id ∧ ((n = 0 ∧ a = id) ∨
        ∃ p m, parentId = some p ∧ n = m + 1 ∧ ⟨a, p, m⟩ ∈ s.closure))) : s'.Sound := by
  have hclosed := closed_links h.consistent.placed
  have hle : ∀ q ∈ s.directories, q ∈ s'.directories := fun q hq => (hmem q).mpr (.inl hq)
  have hlinks : ∀ d parent, links s'.directories d parent ↔
      links s.directories d parent ∨ (d = id ∧ parent = parentId) := by
    intro d parent
    constructor
    · rintro ⟨row, hrow, rfl, rfl⟩
      rcases (hmem row).mp hrow with hold | rfl
      · exact .inl ⟨row, hold, rfl, rfl⟩
      · exact .inr ⟨rfl, rfl⟩
    · rintro (⟨row, hrow, rfl, rfl⟩ | ⟨rfl, rfl⟩)
      · exact ⟨row, hle row hrow, rfl, rfl⟩
      · exact ⟨_, (hmem _).mpr (.inr rfl), rfl, rfl⟩
  have hunlinked : ∀ parent, ¬ links s.directories id parent := by
    rintro parent ⟨row, hrow, hid, -⟩
    exact hfresh row hrow hid
  have hparent : ∀ p, parentId = some p → ∃ parent, links s.directories p parent := by
    rintro p rfl
    obtain ⟨-, q, hq, rfl, -⟩ := hreached
    exact ⟨_, q, hq, rfl, rfl⟩
  refine ⟨⟨fun d hd => ?_, fun d hd => ?_, fun a d n => ?_⟩, fun d hd => ?_⟩
  · rcases (hmem d).mp hd with hold | rfl
    · exact (h.consistent.placed d hold).mono hle
    · exact (hreached.placed id).mono hle
  · rcases (hmem d).mp hd with hold | rfl
    · exact h.consistent.root_iff d hold
    · exact hreached.root_iff hpart
  · exact closure_insert hclosed hunlinked hparent hlinks h.consistent.closure_iff hclosure
  · rcases (hmem d).mp hd with hold | rfl
    · exact h.names d hold
    · exact hpart

lemma Sound.createDirectory (h : s.Sound)
    (hreached : s.Reached currentPath parentId) (hpart : '/' ∉ part)
    (hpath : ∀ d ∈ s.directories.rows, d.path ≠ childPath currentPath part) :
    (∃ e, s.createDirectory parentId part (childPath currentPath part) = (.error e, s) ∧
      s.directories.insert (fun id => ⟨id, parentId, part, childPath currentPath part⟩)
        (fun _ => rfl) = .error e) ∨
    ∃ id s', s.createDirectory parentId part (childPath currentPath part) = (.ok id, s') ∧
      s.directories.insert (fun id => ⟨id, parentId, part, childPath currentPath part⟩)
        (fun _ => rfl) = .ok (s'.directories, id) ∧
      s'.Sound ∧ ∃ d ∈ s'.directories, d.id = id ∧ d.path = childPath currentPath part := by
  cases hinsert : s.insertDirectory parentId part (childPath currentPath part) with
  | error e =>
    exact .inl ⟨e, by rw [MetadataStore.createDirectory, hinsert],
      insertDirectory_eq_error hpath hinsert⟩
  | ok result =>
    obtain ⟨s₁, id⟩ := result
    obtain ⟨hmem, hfresh, hclosure₁, hrows⟩ := insertDirectory_eq_ok hinsert
    have hrow := (hmem _).mpr (.inr rfl)
    have hids : ∀ c ∈ s.closure, c.ancestorId ≠ id ∧ c.descendantId ≠ id := by
      intro c hc
      have hpair := (h.consistent.closure_iff c.ancestorId c.descendantId c.depth).mp hc
      obtain ⟨_, d, hd, hdid, -⟩ := hpair.descendant
      obtain ⟨_, a, ha, haid, -⟩ := hpair.ancestor
      exact ⟨haid ▸ hfresh a ha, hdid ▸ hfresh d hd⟩
    obtain ⟨s₂, hself, hdirs₂, hclosure₂⟩ := insertClosure_of_fresh (s := s₁)
      [⟨id, id, 0⟩] (nodup_singleton _) (by
        intro c hc c' hc' heq
        rw [List.mem_singleton.mp hc] at heq
        exact (hids c' (hclosure₁ ▸ hc')).1 (Prod.mk.inj heq).1)
    rw [hclosure₁] at hclosure₂
    right
    unfold MetadataStore.createDirectory
    rw [hinsert]
    dsimp only
    rw [hself]
    cases parentId with
    | none =>
      refine ⟨id, s₂, rfl, hdirs₂ ▸ hrows,
        h.leaf id hreached hpart (by rwa [hdirs₂]) hfresh ?_, _, hdirs₂ ▸ hrow, rfl,
        rfl⟩
      intro a d n
      rw [hclosure₂, mem_append, mem_singleton, Closure.mk.injEq]
      simp only [reduceCtorEq, false_and, exists_false, or_false]
      tauto
    | some p =>
      have hp : p ≠ id := by
        obtain ⟨-, q, hq, rfl, -⟩ := hreached
        exact hfresh q hq
      have hselect : ∀ {a d n}, ⟨a, d, n⟩ ∈ s₂.ancestorPairs id p ↔
          d = id ∧ ∃ m, n = m + 1 ∧ ⟨a, p, m⟩ ∈ s.closure := by
        intro a d n
        rw [mem_ancestorPairs, hclosure₂]
        refine and_congr_right fun _ => exists_congr fun m => and_congr_right fun _ => ?_
        rw [mem_append, mem_singleton, Closure.mk.injEq]
        exact ⟨fun hor => hor.resolve_right fun hself => hp hself.2.1, .inl⟩
      obtain ⟨s₃, hpairs, hdirs₃, hclosure₃⟩ := insertClosure_of_fresh (s := s₂) _
        (nodup_ancestorPairs s₂ id p) (by
          intro c hc c' hc' heq
          obtain ⟨hancestor, hdescendant⟩ := Prod.mk.inj heq
          obtain ⟨hid, m, -, hold⟩ := hselect.mp hc
          rw [hclosure₂] at hc'
          rcases List.mem_append.mp hc' with hc' | hc'
          · exact (hids c' hc').2 (hdescendant.trans hid)
          · rw [List.mem_singleton.mp hc'] at hancestor
            exact (hids _ hold).1 hancestor.symm)
      dsimp only
      rw [hpairs]
      refine ⟨id, s₃, rfl, hdirs₃ ▸ hdirs₂ ▸ hrows, h.leaf id hreached hpart
        (by rwa [hdirs₃, hdirs₂]) hfresh ?_, _, hdirs₃ ▸ hdirs₂ ▸ hrow, rfl, rfl⟩
      intro a d n
      rw [hclosure₃, hclosure₂, append_assoc, mem_append, mem_append,
        mem_singleton, Closure.mk.injEq, hselect]
      simp only [Option.some.injEq, exists_and_left, exists_eq_left']
      tauto

lemma Sound.ensureParts (parts : List Str) :
    ∀ {s : MetadataStore} {currentPath : Str} {parentId : Option ℕ} {budget : ℕ}, s.Sound →
      s.Reached currentPath parentId → (∀ part ∈ parts, part ≠ [] ∧ '/' ∉ part) →
        parts.length ≤ budget → (s.ensureParts currentPath parentId parts).2.Sound ∧
          (s.ensureParts currentPath parentId parts).2.directories =
            s.directories.ensureParts budget currentPath parentId parts := by
  induction parts with
  | nil =>
    intro s currentPath parentId budget h _ _ _
    exact ⟨h, by cases budget <;> rfl⟩
  | cons part rest ih =>
    intro s currentPath parentId budget h hreached hparts hbudget
    obtain ⟨hne, hslash⟩ := hparts part mem_cons_self
    have hrest : ∀ part ∈ rest, part ≠ [] ∧ '/' ∉ part := fun part hpart =>
      hparts part (mem_cons_of_mem _ hpart)
    obtain ⟨budget, rfl⟩ : ∃ n, budget = n + 1 := exists_eq_succ_of_ne_zero (by
      rintro rfl
      cases hbudget)
    have hlength : rest.length ≤ budget := Nat.succ_le_succ_iff.mp hbudget
    have hpath : (if currentPath = [] then part else currentPath ++ '/' :: part) =
        childPath currentPath part := rfl
    rw [MetadataStore.ensureParts, DirectoryTable.ensureParts, hpath]
    cases hfind : s.directories.rows.find? fun d => d.path = childPath currentPath part with
    | some d =>
      -- the directory is there
      have hd : d.path = childPath currentPath part := by simpa using find?_some hfind
      exact ih h ⟨childPath_ne_nil hne, d, mem_of_find?_eq_some hfind, rfl, hd⟩ hrest
        (le_succ_of_le hlength)
    | none =>
      have hfresh : ∀ d ∈ s.directories.rows, d.path ≠ childPath currentPath part := by
        simpa using List.find?_eq_none.mp hfind
      rcases h.createDirectory hreached hslash hfresh with
        ⟨e, he, hinsert⟩ | ⟨id, s', hs', hinsert, hsound, hrow⟩
      · simp only [he, hinsert]
        exact ⟨h, trivial⟩
      · simp only [hs', hinsert]
        exact ih hsound ⟨childPath_ne_nil hne, hrow⟩ hrest hlength

lemma reached_root (s : MetadataStore) : s.Reached [] none := rfl

lemma notMem_of_mem_parts {path : Str}
    (h : part ∈ (path.splitOn '/').filter fun part => part ≠ []) : part ≠ [] ∧ '/' ∉ part := by
  obtain ⟨hpart, hne⟩ := List.mem_filter.mp h
  exact ⟨of_decide_eq_true hne, notMem_of_mem_splitOn hpart⟩

lemma Sound.ensure (h : s.Sound) (path : Str) : (s.ensureMetadataDirectories path).2.Sound :=
  (Sound.ensureParts _ h s.reached_root (fun _ => notMem_of_mem_parts) le_rfl).1

end Ensure

/-! ### Deleting a directory -/

section Delete

variable {t : DirectoryTable} {s : MetadataStore}

lemma mem_children {ids : List ℕ} {id : ℕ} :
    id ∈ (t.rows.filter fun d => d.parentId.any (· ∈ ids)).map MetadataDirectory.id ↔
      ∃ p ∈ ids, links t id (some p) := by
  simp only [List.mem_map, List.mem_filter]
  constructor
  · rintro ⟨d, ⟨hd, hany⟩, rfl⟩
    obtain ⟨p, hp, hmem⟩ := (Option.any_eq_true _ _).mp hany
    exact ⟨p, of_decide_eq_true hmem, d, hd, rfl, hp⟩
  · rintro ⟨p, hp, d, hd, rfl, hparent⟩
    refine ⟨d, ⟨hd, ?_⟩, rfl⟩
    rw [hparent]
    exact decide_eq_true hp

lemma mem_withChildren (hclosed : Closed (links t)) (fuel : ℕ) :
    ∀ {ids : List ℕ} {id : ℕ}, (∀ a ∈ ids, ∃ parent, links t a parent) →
      (id ∈ t.withChildren fuel ids ↔ ∃ a ∈ ids, ∃ n ≤ fuel, AncestorAt (links t) a id n) := by
  induction fuel with
  | zero =>
    intro ids id hids
    constructor
    · intro hmem
      obtain ⟨parent, hlink⟩ := hids id hmem
      exact ⟨id, hmem, 0, le_rfl, .refl hlink⟩
    · rintro ⟨a, ha, n, hn, hpath⟩
      obtain rfl := Nat.le_zero.mp hn
      obtain ⟨rfl, -⟩ := ancestorAt_zero.mp hpath
      exact ha
  | succ fuel ih =>
    intro ids id hids
    have hnext : ∀ a ∈ ids ++ (t.rows.filter fun d => d.parentId.any (· ∈ ids)).map
        MetadataDirectory.id, ∃ parent, links t a parent := by
      intro a ha
      rcases List.mem_append.mp ha with ha | ha
      · exact hids a ha
      · obtain ⟨p, -, hlink⟩ := mem_children.mp ha
        exact ⟨_, hlink⟩
    rw [DirectoryTable.withChildren, ih hnext]
    constructor
    · rintro ⟨a, ha, n, hn, hpath⟩
      rcases List.mem_append.mp ha with ha | ha
      · exact ⟨a, ha, n, le_succ_of_le hn, hpath⟩
      · obtain ⟨p, hp, hlink⟩ := mem_children.mp ha
        exact ⟨p, hp, n + 1, succ_le_succ hn,
          (ancestorAt_succ_top hclosed).mpr ⟨a, hlink, hpath⟩⟩
    · rintro ⟨a, ha, n, hn, hpath⟩
      cases n with
      | zero => exact ⟨a, mem_append_left _ ha, 0, Nat.zero_le _, hpath⟩
      | succ n =>
        obtain ⟨c, hlink, hrest⟩ := (ancestorAt_succ_top hclosed).mp hpath
        exact ⟨c, mem_append_right _ (mem_children.mpr ⟨a, ha, hlink⟩), n,
          Nat.succ_le_succ_iff.mp hn, hrest⟩

lemma mem_doomed_of_parent (hplaced : ∀ d ∈ t, Placed t d) {path : Str} {id p : ℕ}
    (hlink : links t id (some p)) (hp : p ∈ t.doomed path) : id ∈ t.doomed path := by
  have hclosed := closed_links hplaced
  have hids : ∀ a ∈ (t.rows.filter fun d => d.path = path).map MetadataDirectory.id,
      ∃ parent, links t a parent := by
    intro a ha
    obtain ⟨d, hd, rfl⟩ := List.mem_map.mp ha
    exact ⟨d.parentId, d, (List.mem_filter.mp hd).1, rfl, rfl⟩
  obtain ⟨a, ha, n, -, hpath⟩ := (mem_withChildren hclosed _ hids).mp hp
  have hchain : AncestorAt (links t) a id (n + 1) := .link hlink hpath
  have hlt : n + 1 < (t.rows.map MetadataDirectory.id).length := by
    refine hchain.lt_length (pathLength_lt hplaced) fun d parent hnode => ?_
    obtain ⟨row, hrow, rfl, -⟩ := hnode
    exact List.mem_map_of_mem hrow
  rw [length_map] at hlt
  exact (mem_withChildren hclosed _ hids).mpr ⟨a, ha, n + 1, hlt.le, hchain⟩

lemma Sound.delete (h : s.Sound) (path : Str) : (s.deleteMetadataDirectory path).Sound := by
  have hmem : ∀ d, d ∈ (s.deleteMetadataDirectory path).directories ↔
      d ∈ s.directories ∧ d.id ∉ s.directories.doomed path := by
    intro d
    rw [← decide_eq_true_iff (p := d.id ∉ s.directories.doomed path)]
    exact AutoTable.mem_filter
  have hkeep : ∀ d p, links s.directories d (some p) → d ∉ s.directories.doomed path →
      p ∉ s.directories.doomed path := fun d p hlink hd hp =>
    hd (mem_doomed_of_parent h.consistent.placed hlink hp)
  have hlinks : ∀ d parent, links (s.deleteMetadataDirectory path).directories d parent ↔
      links s.directories d parent ∧ d ∉ s.directories.doomed path := by
    intro d parent
    constructor
    · rintro ⟨row, hrow, rfl, rfl⟩
      obtain ⟨hold, hkept⟩ := (hmem row).mp hrow
      exact ⟨⟨row, hold, rfl, rfl⟩, hkept⟩
    · rintro ⟨⟨row, hrow, rfl, rfl⟩, hkept⟩
      exact ⟨row, (hmem row).mpr ⟨hrow, hkept⟩, rfl, rfl⟩
  refine ⟨⟨fun d hd => ?_, fun d hd => ?_, fun a d n => ?_⟩, fun d hd => ?_⟩
  · obtain ⟨hold, hkept⟩ := (hmem d).mp hd
    have hplaced := h.consistent.placed d hold
    cases hparent : d.parentId with
    | none =>
      unfold Placed
      rw [hparent]
      exact hplaced.of_none hparent
    | some p =>
      obtain ⟨q, hq, rfl, hpath⟩ := hplaced.of_some hparent
      unfold Placed
      rw [hparent]
      exact ⟨q, (hmem q).mpr ⟨hq, hkeep d.id q.id ⟨d, hold, rfl, hparent⟩ hkept⟩, rfl, hpath⟩
  · exact h.consistent.root_iff d ((hmem d).mp hd).1
  · rw [ancestorAt_restrict hkeep hlinks, ← h.consistent.closure_iff]
    simp [deleteMetadataDirectory]
  · exact h.names d ((hmem d).mp hd).1

end Delete

end MetadataStore

end TorrentFs.Db
