import Mathlib.Data.List.Find
import TorrentFs.Fuse.FsService
import TorrentFs.Fuse.Lookup

/-!
# The tree of a torrent, pending and landed

Below `data/<name>.torrent` the files of a torrent are shown from two sources: while the torrent is
being added, from the bytes of the torrent file; afterwards from the rows that were made of
libtorrent's file list. The two agree on a torrent with one file and a `length`, unless some integer
in the torrent file is not a `u64`. They disagree on every torrent with a list of files: libtorrent
puts the name of the torrent in front of each path, the pending list does not. And they disagree on
torrents of version 2 alone, for which the pending list is empty.
-/

namespace TorrentFs.Fuse

open Text Word Joined Db PathTree List Option Function BencodeParser
open Bencode (Bytes Value encode)

/-- The files of a torrent: one that has the name of the torrent, or a list of them. -/
inductive Layout
  | single (length : ℕ)
  | multi (files : List (List Str × ℕ))

def Layout.Valid : Layout → Prop
  | .single length => length < 2 ^ 63
  | .multi files => files ≠ [] ∧ ∀ f ∈ files, f.1 ≠ [] ∧ SepFree '/' f.1 ∧ f.2 < 2 ^ 63

structure Torrent where
  name : Str
  layout : Layout
  named : name ≠ [] ∧ '/' ∉ name
  valid : layout.Valid

namespace Torrent

def isSingle (torrent : Torrent) : Bool :=
  match torrent.layout with
  | .single _ => true
  | .multi _ => false

/-- The file list of libtorrent: the name of the torrent, or the name and the path of each file. -/
def fileList (torrent : Torrent) : List FileEntry :=
  match torrent.layout with
  | .single length => [⟨torrent.name, length⟩]
  | .multi files => files.map fun f => ⟨torrent.name ++ '/' :: joined '/' f.1, f.2⟩

def landedFiles (torrent : Torrent) : List (List Str × ℕ) :=
  match torrent.layout with
  | .single length => [([torrent.name], length)]
  | .multi files => files.map fun f => (torrent.name :: f.1, f.2)

def pendingFiles (torrent : Torrent) : List (List Str × ℕ) :=
  match torrent.layout with
  | .single length => [([torrent.name], length)]
  | .multi files => files

end Torrent

/-- A dictionary of the list `files`. -/
def DescribesFile (entry : Value ℤ) (f : List Str × ℕ) : Prop :=
  entry.get (key "length") = some (.int f.2) ∧
    entry.get (key "path") = some (.list (f.1.map fun part => .str (utf8 part)))

/-- The info dictionary lists the files as version 1 of the format does. -/
def ListsFiles (info : Value ℤ) : Layout → Prop
  | .single length => info.get (key "files") = none ∧ info.get (key "length") = some (.int length)
  | .multi files =>
    ∃ entries, info.get (key "files") = some (.list entries) ∧
      List.Forall₂ DescribesFile entries files

/-- The value is the file of a torrent. A torrent of version 2 alone has its files in a tree under
another key, and neither `files` nor `length`. -/
def Describes (v : Value ℤ) (torrent : Torrent) : Prop :=
  ∃ info, v.get (key "info") = some info ∧
    info.get (key "name") = some (.str (utf8 torrent.name)) ∧
    (ListsFiles info torrent.layout ∨
      info.get (key "files") = none ∧ info.get (key "length") = none)

def hasLength (v : Value ℤ) : Bool :=
  match (v.get (key "info")).bind fun info => info.get (key "length") with
  | some (.int _) => true
  | _ => false

def shown (hash : List Str → ℕ) (m : FinMap ℕ InodeData) (names : NameTables) (d : DataInode)
    (path : List Str) : Option (Kind ℕ) :=
  (path.foldlM (fun d name => (resolveChild hash m names d name).map Prod.snd) d).map
    DataInode.kindSize

namespace Torrent

variable (torrent : Torrent)

lemma sepFree_name : SepFree '/' [torrent.name] :=
  sepFree_singleton torrent.named.1 torrent.named.2

lemma pendingFiles_valid : ∀ f ∈ torrent.pendingFiles,
    f.1 ≠ [] ∧ SepFree '/' f.1 ∧ f.2 < 2 ^ 63 := by
  have hvalid := torrent.valid
  unfold pendingFiles
  cases hlayout : torrent.layout with
  | single length =>
    rw [hlayout] at hvalid
    intro f hf
    rw [List.mem_singleton.mp hf]
    exact ⟨cons_ne_nil _ _, torrent.sepFree_name, hvalid⟩
  | multi files =>
    rw [hlayout] at hvalid
    exact hvalid.2

lemma landedFiles_valid : ∀ f ∈ torrent.landedFiles, f.1 ≠ [] ∧ SepFree '/' f.1 ∧ f.2 < 2 ^ 63 := by
  have hvalid := torrent.valid
  unfold landedFiles
  cases hlayout : torrent.layout with
  | single length =>
    rw [hlayout] at hvalid
    intro f hf
    rw [List.mem_singleton.mp hf]
    exact ⟨cons_ne_nil _ _, torrent.sepFree_name, hvalid⟩
  | multi files =>
    rw [hlayout] at hvalid
    intro f hf
    obtain ⟨g, hg, rfl⟩ := List.mem_map.mp hf
    obtain ⟨-, hfree, hlt⟩ := hvalid.2 g hg
    exact ⟨cons_ne_nil _ _, torrent.sepFree_name.append hfree, hlt⟩

lemma pendingFiles_ne_nil : torrent.pendingFiles ≠ [] := by
  have hvalid := torrent.valid
  unfold pendingFiles
  cases hlayout : torrent.layout with
  | single length => exact cons_ne_nil _ _
  | multi files =>
    rw [hlayout] at hvalid
    exact hvalid.1

lemma landedFiles_ne_nil : torrent.landedFiles ≠ [] := by
  have hvalid := torrent.valid
  unfold landedFiles
  cases hlayout : torrent.layout with
  | single length => exact cons_ne_nil _ _
  | multi files =>
    rw [hlayout] at hvalid
    simpa using hvalid.1

lemma lists_fileList : List.Forall₂ FileTables.Lists torrent.fileList
    (torrent.landedFiles.map fun f => (f.1, (f.2 : ℤ))) := by
  have hvalid := torrent.valid
  unfold fileList landedFiles
  cases hlayout : torrent.layout with
  | single length =>
    exact .cons ⟨(joined_singleton _).symm, rfl, cons_ne_nil _ _, torrent.sepFree_name⟩ .nil
  | multi files =>
    rw [hlayout] at hvalid
    rw [List.map_map, forall₂_map_left_iff, forall₂_map_right_iff, forall₂_same]
    intro f hf
    obtain ⟨hne, hfree, -⟩ := hvalid.2 f hf
    refine ⟨?_, rfl, cons_ne_nil _ _, torrent.sepFree_name.append hfree⟩
    show torrent.name ++ '/' :: joined '/' f.1 = joined '/' ([torrent.name] ++ f.1)
    rw [joined_append (cons_ne_nil _ _) hne, joined_singleton]

end Torrent

lemma kindAt_nil {files : List (List Str × ℕ)} (hne : files ≠ []) (h : ∀ f ∈ files, f.1 ≠ []) :
    kindAt files [] = some .directory := by
  obtain ⟨f, files, rfl⟩ := exists_cons_of_ne_nil hne
  have hf := h f mem_cons_self
  exact kindAt_of_below ⟨f, mem_cons_self, nil_prefix, hf.symm⟩

/-! ### The pending tree -/

section Converted

variable {v : Value ℤ} {w : BencodeU64} {name : String}

section

variable (hw : v.convert BencodeParser.u64Of = some w)
include hw

lemma getInt_of_get {n : ℕ} (h : v.get (key name) = some (.int n)) :
    BencodeU64.getInt w name = some n := by
  obtain ⟨x, hx, hget⟩ := Value.get_convert_of_some hw h
  rw [Value.convert] at hx
  obtain ⟨k, hk, rfl⟩ := Option.map_eq_some_iff.mp hx
  rw [BencodeU64.getInt, hget, eq_of_u64Of_natCast hk]

lemma getStr_of_get {s : Str} (h : v.get (key name) = some (.str (utf8 s))) :
    BencodeU64.getStr w name = some s := by
  obtain ⟨x, hx, hget⟩ := Value.get_convert_of_some hw h
  rw [BencodeU64.getStr, hget, ← Option.some.inj hx]
  exact fromUtf8_utf8 s

lemma getList_of_get {items : List (Value ℤ)} (h : v.get (key name) = some (.list items)) :
    ∃ ws, BencodeU64.getList w name = some ws ∧
      List.Forall₂ (fun x y => x.convert BencodeParser.u64Of = some y) items ws := by
  obtain ⟨x, hx, hget⟩ := Value.get_convert_of_some hw h
  obtain ⟨ws, hws, rfl⟩ := Option.map_eq_some_iff.mp hx
  exact ⟨ws, by rw [BencodeU64.getList, hget], Value.convertItems_eq_some.mp hws⟩

end

end Converted

def toPendingFile (f : List Str × ℕ) : PendingFile := ⟨joined '/' f.1, f.2⟩

lemma mapM_asStr {parts : List Str} {ws : List BencodeU64}
    (h : List.Forall₂ (fun part w => (Value.str (utf8 part)).convert BencodeParser.u64Of = some w)
      parts ws) : ws.mapM BencodeU64.asStr = some parts := by
  induction h with
  | nil => rfl
  | @cons part w _ _ hw _ ih =>
    rw [mapM_cons, ih, ← Option.some.inj hw]
    show (fromUtf8 (utf8 part)).bind _ = _
    rw [fromUtf8_utf8]
    rfl

lemma pendingFile_of_describesFile {entry : Value ℤ} {w : BencodeU64} {f : List Str × ℕ}
    (h : DescribesFile entry f) (hw : entry.convert BencodeParser.u64Of = some w) :
    pendingFile w = some (toPendingFile f) := by
  obtain ⟨ws, hlist, hws⟩ := getList_of_get hw h.2
  rw [forall₂_map_left_iff] at hws
  rw [pendingFile, getInt_of_get hw h.1, bind_some, hlist, bind_some,
    mapM_asStr hws]
  rfl

lemma mapM_pendingFile {entries : List (Value ℤ)} {ws : List BencodeU64}
    {files : List (List Str × ℕ)} (hfiles : List.Forall₂ DescribesFile entries files)
    (hws : List.Forall₂ (fun x y => x.convert BencodeParser.u64Of = some y) entries ws) :
    ws.mapM pendingFile = some (files.map toPendingFile) := by
  induction hfiles generalizing ws with
  | nil =>
    rw [List.forall₂_nil_left_iff.mp hws]
    rfl
  | cons hentry _ ih =>
    cases hws with
    | cons hw hws =>
      rw [mapM_cons, pendingFile_of_describesFile hentry hw, ih hws]
      rfl

lemma extractBencodeFiles_encode {v info : Value ℤ} {torrent : Torrent}
    (hinfo : v.get (key "info") = some info)
    (hname : info.get (key "name") = some (.str (utf8 torrent.name)))
    (hlayout : ListsFiles info torrent.layout) (hsize : (encode v).length < 2 ^ 64) :
    extractBencodeFiles (encode v) = (v.convert BencodeParser.u64Of).map fun _ =>
      (torrent.name, torrent.pendingFiles.map toPendingFile) := by
  rw [extractBencodeFiles, parse_encode hsize]
  cases hw : v.convert BencodeParser.u64Of with
  | none => rfl
  | some w =>
    obtain ⟨info', hinfo', hget⟩ := Value.get_convert_of_some hw hinfo
    rw [map_some, bind_some, map_some]
    dsimp only
    rw [hget, bind_some, getStr_of_get hinfo' hname, bind_some]
    unfold Torrent.pendingFiles
    cases hl : torrent.layout with
    | single length =>
      rw [hl] at hlayout
      have hnone : BencodeU64.getList info' "files" = none := by
        rw [BencodeU64.getList, Value.get_convert_of_none hinfo' hlayout.1]
      rw [hnone, getInt_of_get hinfo' hlayout.2]
      rw [map_some, map_singleton, toPendingFile, joined_singleton]
    | multi files =>
      rw [hl] at hlayout
      obtain ⟨entries, hentries, hfiles⟩ := hlayout
      obtain ⟨ws, hlist, hws⟩ := getList_of_get hinfo' hentries
      rw [hlist]
      dsimp only
      rw [mapM_pendingFile hfiles hws, map_some]

lemma extractBencodeFiles_eq_none {v info : Value ℤ} (hinfo : v.get (key "info") = some info)
    (hfiles : info.get (key "files") = none) (hlength : info.get (key "length") = none)
    (hsize : (encode v).length < 2 ^ 64) : extractBencodeFiles (encode v) = none := by
  rw [extractBencodeFiles, parse_encode hsize]
  cases hw : v.convert BencodeParser.u64Of with
  | none => rfl
  | some w =>
    obtain ⟨info', hinfo', hget⟩ := Value.get_convert_of_some hw hinfo
    rw [map_some, bind_some]
    dsimp only
    rw [hget, bind_some, BencodeU64.getList, Value.get_convert_of_none hinfo' hfiles,
      BencodeU64.getInt, Value.get_convert_of_none hinfo' hlength]
    cases BencodeU64.getStr info' "name" <;> rfl

section Pending

variable {hash : List Str → ℕ} {m : FinMap ℕ InodeData} {names : NameTables}
  {sourcePath filename title : Str} {data : Bytes} {files : List (List Str × ℕ)}

lemma resolvePendingTorrentChildren_eq
    (hfind : findPendingTorrentData m sourcePath filename = some data)
    (hextract : extractBencodeFiles data = some (title, files.map toPendingFile))
    (hfiles : ∀ f ∈ files, SepFree '/' f.1) {path : List Str} (hpath : SepFree '/' path)
    {name : Str} (hname : SepFree '/' [name]) :
    resolvePendingTorrentChildren hash m sourcePath filename (joined '/' path) name =
      if Below files (path ++ [name]) then
        some (makePendingTorrentDirIno hash sourcePath filename (joined '/' (path ++ [name])),
          .torrentDir 0 0 name (joined '/' (path ++ [name])) sourcePath filename) else
        (files.find? fun f => f.1 = path ++ [name]).map fun f =>
          (makePendingTorrentFileIno hash sourcePath filename (joined '/' (path ++ [name])),
            .torrentFile 0 0 name (toI64 f.2) sourcePath filename) := by
  have hchild : SepFree '/' (path ++ [name]) := hpath.append hname
  -- both texts that the function builds are the join of the child's path
  have hjoin : joined '/' path = [] ∧ joined '/' (path ++ [name]) = name ∨
      joined '/' path ≠ [] ∧ joined '/' (path ++ [name]) = joined '/' path ++ '/' :: name := by
    by_cases hnil : path = []
    · subst hnil
      exact .inl ⟨rfl, joined_singleton name⟩
    · refine .inr ⟨hpath.joined_ne_nil hnil, ?_⟩
      rw [joined_append hnil (cons_ne_nil _ _), joined_singleton]
  have habove : (if joined '/' path = [] then [] else joined '/' path ++ ['/']) ++ name =
      joined '/' (path ++ [name]) := by
    rcases hjoin with ⟨hnil, heq⟩ | ⟨hnil, heq⟩
    · rw [if_pos hnil, heq, nil_append]
    · rw [if_neg hnil, heq, append_assoc, singleton_append]
  have hchildPath : childPath (joined '/' path) name = joined '/' (path ++ [name]) := by
    unfold childPath
    rcases hjoin with ⟨hnil, heq⟩ | ⟨hnil, heq⟩
    · rw [if_pos hnil, heq]
    · rw [if_neg hnil, heq]
  have hsubdir : ((files.map toPendingFile).any fun f =>
      (joined '/' (path ++ [name]) ++ ['/']).isPrefixOf f.path) = true ↔
      Below files (path ++ [name]) := by
    rw [List.any_map, List.any_eq_true]
    refine exists_congr fun f => and_congr_right fun hf => ?_
    rw [comp_apply, isPrefixOf_iff_prefix]
    exact hchild.joined_append_sep_isPrefix_iff (hfiles f hf) (by simp)
  have hfile : ((files.map toPendingFile).find? fun f =>
      f.path = joined '/' (path ++ [name])) =
      (files.find? fun f => f.1 = path ++ [name]).map toPendingFile := by
    rw [find?_map]
    refine congrArg _ (find?_congr fun f hf => ?_)
    rw [comp_apply, decide_eq_decide]
    exact ⟨(hfiles f hf).joined_inj hchild, congrArg (joined '/')⟩
  rw [resolvePendingTorrentChildren, hfind, bind_some, hextract, bind_some]
  simp only [habove, hchildPath, hsubdir, hfile, Option.map_map]
  rfl

/-- The inodes of a pending torrent and their paths. -/
def PendingAt (sourcePath filename : Str) : DataInode → List Str → Prop
  | .torrentRoot torrentId sp _ fn, path =>
    torrentId = 0 ∧ sp = sourcePath ∧ fn = filename ∧ path = []
  | .torrentDir torrentId _ _ dirPath sp fn, path =>
    torrentId = 0 ∧ sp = sourcePath ∧ fn = filename ∧ SepFree '/' path ∧ dirPath = joined '/' path
  | .torrentFile _ _ _ _ _ _, _ => True
  | .sourcePathDir _, _ => False

lemma resolveChild_of_leaf {d : DataInode} {name : Str} (hleaf : d.kindSize ≠ .directory) :
    (resolveChild hash m names d name).map Prod.snd = none := by
  cases d with
  | torrentFile _ _ _ _ _ _ => rfl
  | _ => exact absurd rfl hleaf

lemma PendingAt.resolveChild_eq {d : DataInode} {path : List Str}
    (h : PendingAt sourcePath filename d path) (hdir : d.kindSize = .directory) (name : Str) :
    SepFree '/' path ∧ resolveChild hash m names d name =
      resolvePendingTorrentChildren hash m sourcePath filename (joined '/' path) name := by
  cases d with
  | sourcePathDir p => exact absurd h id
  | torrentRoot torrentId sp n fn =>
    obtain ⟨rfl, rfl, rfl, rfl⟩ := h
    exact ⟨forall_mem_nil _, rfl⟩
  | torrentDir torrentId dirId n dirPath sp fn =>
    obtain ⟨rfl, rfl, rfl, hfree, rfl⟩ := h
    exact ⟨hfree, rfl⟩
  | torrentFile torrentId fileId n size sp fn => cases hdir

lemma shownBy_pending (hfind : findPendingTorrentData m sourcePath filename = some data)
    (hextract : extractBencodeFiles data = some (title, files.map toPendingFile))
    (hfiles : ∀ f ∈ files, f.1 ≠ [] ∧ SepFree '/' f.1 ∧ f.2 < 2 ^ 63) :
    ShownBy files (fun name => SepFree '/' [name])
      (fun d name => (resolveChild hash m names d name).map Prod.snd) DataInode.kindSize
      (PendingAt sourcePath filename) := by
  have hchildren : ∀ d path name, PendingAt sourcePath filename d path → SepFree '/' [name] →
      d.kindSize = .directory → SepFree '/' (path ++ [name]) ∧
      (resolveChild hash m names d name).map Prod.snd =
        if Below files (path ++ [name]) then
          some (.torrentDir 0 0 name (joined '/' (path ++ [name])) sourcePath filename)
        else
          (files.find? fun f => f.1 = path ++ [name]).map fun f =>
            .torrentFile 0 0 name (toI64 f.2) sourcePath filename := by
    intro d path name hat hname hdir
    obtain ⟨hpath, heq⟩ := hat.resolveChild_eq hdir name
    refine ⟨hpath.append hname, ?_⟩
    rw [heq, resolvePendingTorrentChildren_eq hfind hextract (fun f hf => (hfiles f hf).2.1) hpath
      hname]
    split
    · rfl
    · rw [Option.map_map]
      rfl
  refine ⟨fun _ _ _ _ => resolveChild_of_leaf, fun d path name hat hname hdir => ?_,
    fun d path name d' hat hname hd' => ?_⟩
  · rw [(hchildren d path name hat hname hdir).2, kindAt]
    split
    · rfl
    · rw [Option.map_map]
      cases hfile : files.find? fun f => f.1 = path ++ [name] with
      | none => rfl
      | some f =>
        -- the size fits in both 64-bit types
        have hlt := (hfiles f (mem_of_find?_eq_some hfile)).2.2
        show some (Kind.file (toU64 (toI64 f.2))) = some (.file f.2)
        rw [toI64_of_lt hlt, toU64_natCast (by omega)]
  · by_cases hdir : d.kindSize = .directory
    · obtain ⟨hfree, heq⟩ := hchildren d path name hat hname hdir
      rw [heq] at hd'
      split at hd'
      · cases hd'
        exact ⟨rfl, rfl, rfl, hfree, rfl⟩
      · obtain ⟨f, -, rfl⟩ := Option.map_eq_some_iff.mp hd'
        trivial
    · rw [resolveChild_of_leaf hdir] at hd'
      cases hd'

end Pending

lemma shown_eq_none {hash : List Str → ℕ} {m : FinMap ℕ InodeData} {names : NameTables}
    {data : Bytes} {sourcePath filename title : Str}
    (hpending : findPendingTorrentData m sourcePath filename = some data)
    (hextract : extractBencodeFiles data = none) {path : List Str} (hne : path ≠ []) :
    shown hash m names (.torrentRoot 0 sourcePath title filename) path = none := by
  obtain ⟨name, rest, rfl⟩ := exists_cons_of_ne_nil hne
  have hchild : resolveChild hash m names (.torrentRoot 0 sourcePath title filename) name =
      none := by
    show resolvePendingTorrentChildren hash m sourcePath filename [] name = none
    rw [resolvePendingTorrentChildren, hpending, bind_some, hextract]
    rfl
  rw [shown, foldlM_cons, hchild]
  rfl

lemma shown_pending {hash : List Str → ℕ} {m : FinMap ℕ InodeData} {names : NameTables}
    {data : Bytes} {w : Option BencodeU64} {torrent : Torrent} {sourcePath filename : Str}
    (title : Str) (hextract : extractBencodeFiles data =
      w.map fun _ => (torrent.name, torrent.pendingFiles.map toPendingFile))
    (hpending : findPendingTorrentData m sourcePath filename = some data) {path : List Str}
    (hpath : SepFree '/' path) (hne : path ≠ []) :
    shown hash m names (.torrentRoot 0 sourcePath title filename) path =
      w.bind fun _ => kindAt torrent.pendingFiles path := by
  cases w with
  | none => exact shown_eq_none hpending hextract hne
  | some w =>
    have hshown := @shownBy_pending hash m names _ _ _ _ _ hpending hextract
      torrent.pendingFiles_valid
    have hroot := kindAt_nil torrent.pendingFiles_ne_nil fun f hf =>
      (torrent.pendingFiles_valid f hf).1
    exact hshown.map_kind_foldlM (d := .torrentRoot 0 sourcePath title filename)
      ⟨rfl, rfl, rfl, rfl⟩ hroot fun name hname =>
        sepFree_singleton (hpath name hname).1 (hpath name hname).2

/-! ### The landed tree -/

section Landed

variable {hash : List Str → ℕ} {m : FinMap ℕ InodeData} {names : NameTables}
  {sourceId contentId : ℕ} {files : List (List Str × ℕ)}

def LandedAt (t : FileTables) (sourceId contentId : ℕ) : DataInode → List Str → Prop
  | .torrentRoot torrentId _ _ _, path => torrentId = sourceId ∧ path = []
  | .torrentDir torrentId dirId _ _ _ _, path =>
    torrentId = sourceId ∧ t.DirAt contentId (some dirId) path
  | .torrentFile _ _ _ _ _ _, _ => True
  | .sourcePathDir _, _ => False

lemma LandedAt.resolveChild_eq {d : DataInode} {path : List Str}
    (h : LandedAt names.torrents.files sourceId contentId d path) (hid : sourceId ≠ 0)
    (hdir : d.kindSize = .directory) (name : Str) :
    ∃ parent, names.torrents.files.DirAt contentId parent path ∧ resolveChild hash m names d name =
        resolveTorrentDirLookup names.torrents sourceId parent name := by
  cases d with
  | sourcePathDir p => exact absurd h id
  | torrentRoot torrentId sp n fn =>
    obtain ⟨rfl, rfl⟩ := h
    exact ⟨none, .root, if_neg hid⟩
  | torrentDir torrentId dirId n dirPath sp fn =>
    obtain ⟨rfl, hat⟩ := h
    exact ⟨some dirId, hat, if_neg hid⟩
  | torrentFile torrentId fileId n size sp fn => cases hdir

lemma resolveTorrentDirLookup_eq {t : TorrentTables}
    (hsource : resolveContentId t sourceId = some contentId) (parent : Option ℕ) (name : Str) :
    resolveTorrentDirLookup t sourceId parent name =
      match t.files.findDirectory contentId parent name with
      | some dirId => some (makeTorrentDirIno dirId, .torrentDir sourceId dirId name [] [] [])
      | none => (t.files.findFile contentId parent name).map fun file =>
        (makeTorrentFileIno file.id, .torrentFile sourceId file.id file.name file.size [] []) := by
  rw [resolveTorrentDirLookup, getTorrentDirectory, getTorrentFileByName, hsource]
  rfl

lemma shownBy_landed (hid : sourceId ≠ 0)
    (hsource : resolveContentId names.torrents sourceId = some contentId)
    (hstored : names.torrents.files.Stored contentId
      (FileTables.directoryPaths (files.map fun f => (f.1, (f.2 : ℤ))))
      (files.map fun f => (f.1, (f.2 : ℤ))))
    (hfiles : ∀ f ∈ files, f.1 ≠ [] ∧ SepFree '/' f.1 ∧ f.2 < 2 ^ 63) :
    ShownBy files (fun name => SepFree '/' [name])
      (fun d name => (resolveChild hash m names d name).map Prod.snd) DataInode.kindSize
      (LandedAt names.torrents.files sourceId contentId) := by
  refine ⟨fun _ _ _ _ => resolveChild_of_leaf, fun d path name hat hname hdir => ?_,
    fun d path name d' hat hname hd' => ?_⟩
  · obtain ⟨parent, hparent, heq⟩ := hat.resolveChild_eq hid hdir name
    have hbelow : (names.torrents.files.findDirectory contentId parent name).isSome = true ↔
        Below files (path ++ [name]) := by
      rw [hstored.findDirectory_isSome_iff hparent, ← below_map (Nat.cast : ℕ → ℤ)]
      exact or_iff_right (by simp)
    rw [heq, resolveTorrentDirLookup_eq hsource]
    cases hfind : names.torrents.files.findDirectory contentId parent name with
    | some dirId => exact (kindAt_of_below (hbelow.mp (by rw [hfind]; rfl))).symm
    | none =>
      rw [hfind] at hbelow
      have hrel := hstored.findFile_rel hparent name
      rw [find?_map] at hrel
      rw [kindAt, if_neg fun h => by cases hbelow.mpr h]
      cases hfile : files.find? fun f => f.1 = path ++ [name] with
      | none =>
        rw [show (files.find? ((fun f : List Str × ℤ => decide (f.1 = path ++ [name])) ∘
          fun f => (f.1, (f.2 : ℤ)))) = none from hfile] at hrel
        generalize names.torrents.files.findFile contentId parent name = row at hrel ⊢
        cases hrel with
        | none => rfl
      | some f =>
        have hlt := (hfiles f (mem_of_find?_eq_some hfile)).2.2
        rw [show (files.find? ((fun f : List Str × ℤ => decide (f.1 = path ++ [name])) ∘
          fun f => (f.1, (f.2 : ℤ)))) = some f from hfile] at hrel
        generalize names.torrents.files.findFile contentId parent name = row at hrel ⊢
        cases hrel with
        | @some row _ hrow =>
          obtain ⟨-, -, hrowSize, -⟩ := hrow
          show some (Kind.file (toU64 row.size)) = some (.file f.2)
          rw [hrowSize, toU64_natCast (by omega)]
  · by_cases hdir : d.kindSize = .directory
    · obtain ⟨parent, hparent, heq⟩ := hat.resolveChild_eq hid hdir name
      rw [heq, resolveTorrentDirLookup_eq hsource] at hd'
      cases hfind : names.torrents.files.findDirectory contentId parent name with
      | some dirId =>
        rw [hfind] at hd'
        cases hd'
        exact ⟨rfl, (hstored.findDirectory_eq_some_iff hparent).mp hfind⟩
      | none =>
        rw [hfind] at hd'
        obtain ⟨found, hfile, rfl⟩ := Option.map_eq_some_iff.mp hd'
        obtain ⟨file, -, rfl⟩ := Option.map_eq_some_iff.mp hfile
        trivial
    · rw [resolveChild_of_leaf hdir] at hd'
      cases hd'

end Landed

lemma shown_landed {hash : List Str → ℕ} {m : FinMap ℕ InodeData} {names : NameTables}
    {torrent : Torrent} {t : FileTables} {sourceId contentId : ℕ} (sourcePath title filename : Str)
    (hrows : t.NoRows contentId)
    (hinsert : t.insertFilesInTx contentId torrent.fileList = .ok names.torrents.files)
    (hid : sourceId ≠ 0) (hsource : resolveContentId names.torrents sourceId = some contentId)
    {path : List Str} (hpath : SepFree '/' path) :
    shown hash m names (.torrentRoot sourceId sourcePath title filename) path =
      kindAt torrent.landedFiles path := by
  have hstored := FileTables.stored_insertFilesInTx hrows torrent.lists_fileList hinsert
  have hshown := @shownBy_landed hash m names _ _ _ hid hsource hstored torrent.landedFiles_valid
  have hroot := kindAt_nil torrent.landedFiles_ne_nil fun f hf =>
    (torrent.landedFiles_valid f hf).1
  exact hshown.map_kind_foldlM (d := .torrentRoot sourceId sourcePath title filename)
    ⟨rfl, rfl⟩ hroot fun name hname => sepFree_singleton (hpath name hname).1 (hpath name hname).2

/-! ### The two trees -/

lemma Torrent.pendingFiles_eq_landedFiles {torrent : Torrent} (h : torrent.isSingle = true) :
    torrent.pendingFiles = torrent.landedFiles := by
  unfold Torrent.isSingle at h
  unfold Torrent.pendingFiles Torrent.landedFiles
  cases hlayout : torrent.layout with
  | single length => rfl
  | multi files => simp [hlayout] at h

lemma Torrent.exists_landed_not_pending {torrent : Torrent} (h : torrent.isSingle = false) :
    ∃ f ∈ torrent.landedFiles, kindAt torrent.pendingFiles f.1 = none := by
  have hvalid := torrent.valid
  unfold Torrent.isSingle at h
  unfold Torrent.pendingFiles Torrent.landedFiles
  cases hlayout : torrent.layout with
  | single length => simp [hlayout] at h
  | multi files =>
    rw [hlayout] at hvalid
    obtain ⟨f, hf, hmax⟩ := Finset.exists_max_image files.toFinset (fun f => f.1.length)
      (toFinset_nonempty_iff files |>.mpr hvalid.1)
    refine ⟨(torrent.name :: f.1, f.2), List.mem_map_of_mem (List.mem_toFinset.mp hf), ?_⟩
    apply kindAt_eq_none_of_length_lt
    intro g hg
    exact Nat.lt_succ_of_le (hmax g (List.mem_toFinset.mpr hg))

lemma hasLength_of_listsFiles {v info : Value ℤ} {torrent : Torrent}
    (hinfo : v.get (key "info") = some info) (hlayout : ListsFiles info torrent.layout)
    (h : torrent.isSingle = true) : hasLength v = true := by
  unfold Torrent.isSingle at h
  cases hl : torrent.layout with
  | single length =>
    rw [hl] at hlayout
    simp [hasLength, hinfo, hlayout.2]
  | multi files => simp [hl] at h

/-- The tree shown while a torrent is being added is the one shown afterwards exactly when the
torrent has a single file, its info dictionary has an integer `length` and all integers in its file
are `u64`. -/
theorem shown_pending_eq_shown_landed_iff {hash : List Str → ℕ} {m m' : FinMap ℕ InodeData}
    {names names' : NameTables} {v : Value ℤ} {torrent : Torrent} {t : FileTables}
    {sourceId contentId : ℕ} {sourcePath filename title title' : Str}
    (hdescribes : Describes v torrent) (hsize : (encode v).length ≤ maxTorrentSize)
    (hpending : findPendingTorrentData m sourcePath filename = some (encode v))
    (hrows : t.NoRows contentId)
    (hinsert : t.insertFilesInTx contentId torrent.fileList = .ok names'.torrents.files)
    (hid : sourceId ≠ 0) (hsource : resolveContentId names'.torrents sourceId = some contentId) :
    (∀ path, SepFree '/' path → shown hash m names (.torrentRoot 0 sourcePath title filename) path =
        shown hash m' names' (.torrentRoot sourceId sourcePath title' filename) path) ↔
      torrent.isSingle = true ∧ hasLength v = true ∧ ∀ n ∈ v.integers, 0 ≤ n ∧ n < 2 ^ 64 := by
  have hintegers : (∀ n ∈ v.integers, 0 ≤ n ∧ n < 2 ^ 64) ↔
      (v.convert BencodeParser.u64Of).isSome = true := by
    rw [Value.isSome_convert_iff]
    simp only [BencodeParser.isSome_u64Of]
  have hland := fun path (hpath : SepFree '/' path) =>
    @shown_landed hash m' names' torrent t sourceId contentId sourcePath title' filename hrows
      hinsert hid hsource path hpath
  -- every file of the landed tree must be in the pending one
  have hfile (h : ∀ path, SepFree '/' path →
      shown hash m names (.torrentRoot 0 sourcePath title filename) path =
        shown hash m' names' (.torrentRoot sourceId sourcePath title' filename) path) :
      ∀ f ∈ torrent.landedFiles,
        shown hash m names (.torrentRoot 0 sourcePath title filename) f.1 ≠ none := by
    intro f hf
    obtain ⟨-, hfree, -⟩ := torrent.landedFiles_valid f hf
    rw [h f.1 hfree, hland f.1 hfree]
    exact kindAt_ne_none hf
  obtain ⟨f, files, hlist⟩ := List.exists_cons_of_ne_nil torrent.landedFiles_ne_nil
  have hf : f ∈ torrent.landedFiles := hlist ▸ List.mem_cons_self
  have hlt := lt_of_le_of_lt hsize (by decide : maxTorrentSize < 2 ^ 64)
  obtain ⟨info, hinfo, hname, hlayout | ⟨hfiles, hlength⟩⟩ := hdescribes
  · have hpend := fun path (hpath : SepFree '/' path) (hne : path ≠ []) =>
      @shown_pending hash m names _ _ torrent sourcePath filename title
        (extractBencodeFiles_encode hinfo hname hlayout hlt) hpending path hpath hne
    rw [hintegers]
    constructor
    · intro h
      have hkind : ∀ f ∈ torrent.landedFiles, ((v.convert BencodeParser.u64Of).bind fun _ =>
          kindAt torrent.pendingFiles f.1) ≠ none := by
        intro f hf
        obtain ⟨hne, hfree, -⟩ := torrent.landedFiles_valid f hf
        rw [← hpend f.1 hfree hne]
        exact hfile h f hf
      have hsingle : torrent.isSingle = true := by
        by_contra hmulti
        obtain ⟨f, hf, hnone⟩ := Torrent.exists_landed_not_pending (Bool.not_eq_true _ ▸ hmulti)
        refine hkind f hf ?_
        rw [hnone]
        cases v.convert BencodeParser.u64Of <;> rfl
      refine ⟨hsingle, hasLength_of_listsFiles hinfo hlayout hsingle, ?_⟩
      cases hv : v.convert BencodeParser.u64Of with
      | none => exact absurd (by rw [hv]; rfl) (hkind f hf)
      | some w => rfl
    · rintro ⟨hsingle, -, hsome⟩ path hpath
      by_cases hne : path = []
      · subst hne
        rfl
      · obtain ⟨w, hw⟩ := Option.isSome_iff_exists.mp hsome
        rw [hpend path hpath hne, hland path hpath, hw, Option.bind_some,
          Torrent.pendingFiles_eq_landedFiles hsingle]
  · -- the pending list of a torrent of version 2 is empty
    refine iff_of_false (fun h => hfile h f hf ?_) fun h => ?_
    · exact shown_eq_none hpending (extractBencodeFiles_eq_none hinfo hfiles hlength hlt)
        (torrent.landedFiles_valid f hf).1
    · simp [hasLength, hinfo, hlength] at h

def singleTorrent : Torrent where
  name := "a".toList
  layout := .single 3
  named := by decide
  valid := show 3 < 2 ^ 63 by decide

def singleValue : Value ℤ :=
  .dict [(key "info", .dict [(key "length", .int 3), (key "name", .str (utf8 "a".toList))])]

def landedTables (torrent : Torrent) : NameTables where
  torrents := (TorrentTables.empty.insertTorrent (fun _ => []) none
    ⟨[], torrent.name, "a.torrent".toList, 3, "0a".toList, 1, torrent.fileList, some []⟩).2
  directories := Sql.AutoTable.empty

def pendingInodes (v : Value ℤ) : FinMap ℕ InodeData :=
  InodeManager.new.inodes.insert firstIno (.file metadataIno "a.torrent".toList (encode v) false)

lemma noRows_empty (contentId : ℕ) : FileTables.empty.NoRows contentId :=
  ⟨forall_mem_nil _, forall_mem_nil _⟩

theorem shown_singleTorrent : Describes singleValue singleTorrent ∧ ∀ path, SepFree '/' path →
      shown (fun _ => 0) (pendingInodes singleValue) ⟨TorrentTables.empty, Sql.AutoTable.empty⟩
          (.torrentRoot 0 [] "a".toList "a.torrent".toList) path =
        shown (fun _ => 0) (pendingInodes singleValue) (landedTables singleTorrent)
          (.torrentRoot 1 [] "a".toList "a.torrent".toList) path := by
  have hdescribes : Describes singleValue singleTorrent :=
    ⟨_, rfl, rfl, .inl ⟨rfl, rfl⟩⟩
  refine ⟨hdescribes, ?_⟩
  exact (shown_pending_eq_shown_landed_iff hdescribes (by decide +kernel) (by decide +kernel)
    (noRows_empty 1) (t := .empty) rfl (by decide) (by decide +kernel)).mpr
      ⟨rfl, rfl, by decide +kernel⟩

def multiTorrent : Torrent where
  name := "a".toList
  layout := .multi [(["f".toList], 3)]
  named := by decide
  valid := by
    refine ⟨List.cons_ne_nil _ _, fun f hf => ?_⟩
    rw [List.mem_singleton.mp hf]
    exact ⟨List.cons_ne_nil _ _, sepFree_singleton (by decide) (by decide), by decide⟩

def multiValue : Value ℤ :=
  .dict [(key "info", .dict
    [(key "files", .list [.dict [(key "length", .int 3),
        (key "path", .list [.str (utf8 "f".toList)])]]),
      (key "name", .str (utf8 "a".toList))])]

def librariesOf (torrent : Torrent) : Services.Libraries where
  parse := fun _ => some ⟨torrent.name, 3, "0a".toList, 1, torrent.fileList⟩
  contentHash := fun _ => []

def addTorrentFile (v : Value ℤ) : List FsAction :=
  [.create metadataIno "a.torrent".toList, .write firstIno 0 (encode v),
    .release FsService.noFaults 1]

def shownAtBoth (s : FsService) (torrentId : ℕ) : List (Option (Kind ℕ)) :=
  [["f".toList], ["a".toList, "f".toList]].map
    (shown (fun _ => 0) s.inodes s.names
      (.torrentRoot torrentId [] "a".toList "a.torrent".toList))

/-- A torrent with the file `f` is added: while its thread runs, `f` is shown at the root; when the
thread has inserted the row, `f` is shown in a directory with the name of the torrent. -/
theorem multi_file_tree_changes :
    Describes multiValue multiTorrent ∧
    ∃ s s', Run.runFrom (FsService.step (librariesOf multiTorrent)) FsService.new
        (addTorrentFile multiValue) = some s ∧
      FsService.step (librariesOf multiTorrent) s (.persist FsService.noFaults 0) = some s' ∧
      s.processingTorrents = {([], "a.torrent".toList)} ∧
      s'.names.torrents.sources.rows.map TorrentSource.id = [1] ∧
      shownAtBoth s 0 = [some (.file 3), none] ∧ shownAtBoth s' 1 = [none, some (.file 3)] := by
  refine ⟨⟨_, rfl, rfl, .inl ⟨_, rfl, .cons ⟨rfl, rfl⟩ .nil⟩⟩, ?_⟩
  obtain ⟨s, hs, s', hs', hend⟩ : ∃ s, Run.runFrom (FsService.step (librariesOf multiTorrent))
      FsService.new (addTorrentFile multiValue) = some s ∧
      ∃ s', FsService.step (librariesOf multiTorrent) s (.persist FsService.noFaults 0) = some s' ∧
        s.processingTorrents = {([], "a.torrent".toList)} ∧
        s'.names.torrents.sources.rows.map TorrentSource.id = [1] ∧
        shownAtBoth s 0 = [some (.file 3), none] ∧ shownAtBoth s' 1 = [none, some (.file 3)] := by
    decide +kernel
  exact ⟨s, s', hs, hs', hend⟩

end TorrentFs.Fuse
