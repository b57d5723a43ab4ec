import TorrentFs.Lib.Utf8
import TorrentFs.Cache.KeyForms
import TorrentFs.Cache.Snapshot

/-!
# The metadata file

`write_metadata_scratch` writes one line for each record of the map: the key and three numbers,
separated by tabs. `load_metadata_file` reads raw bytes up to each newline, decodes them with
replacement characters and skips a line it cannot use.
-/

namespace TorrentFs.Cache

open Text Word Utf8 List Option FinMap

def recordText (r : MetadataRecord) : Str :=
  r.1 ++ '\t' :: (decimal r.2.lastAccessed ++ '\t' :: (decimal r.2.size ++
    '\t' :: decimal r.2.hitCount))

def recordLine (r : MetadataRecord) : List UInt8 := encode (recordText r ++ ['\n'])

def metadataBytes (records : List MetadataRecord) : List UInt8 := records.flatMap recordLine

def loadMetadataBytes (bytes : List UInt8) : FinMap Str PieceMetadata :=
  loadMetadataFile ((readLines bytes).map decodeLossy)

/-- A line of the file that parses to a record: a valid key and two numbers. A third field that
is missing or no number counts as no hits. -/
def IsRecord (line : List UInt8) : Prop :=
  ∃ key lastAccessed size rest,
    ((decodeLossy line).rdropWhile fun c => c = '\n' ∨ c = '\r').splitOn '\t' =
      key :: lastAccessed :: size :: rest ∧
    isValidPieceKey key = true ∧ (parseUnsigned u64Max lastAccessed).isSome = true ∧
    (parseUnsigned u64Max size).isSome = true

/-- The lines `lines'` are the lines `lines` with others put between them that meet `P`. -/
inductive Inserted (P : List UInt8 → Prop) : List (List UInt8) → List (List UInt8) → Prop
  | nil : Inserted P [] []
  | keep {lines lines' : List (List UInt8)} (line : List UInt8) (h : Inserted P lines lines') :
      Inserted P (line :: lines) (line :: lines')
  | insert {lines lines' : List (List UInt8)} {line : List UInt8} (hline : P line)
      (h : Inserted P lines lines') : Inserted P lines (line :: lines')

variable {P : List UInt8 → Prop}

lemma Inserted.refl : ∀ lines, Inserted P lines lines
  | [] => .nil
  | line :: lines => .keep line (Inserted.refl lines)

lemma Inserted.isLine {lines lines' : List (List UInt8)}
    (h : Inserted (fun line => IsLine line ∧ P line) lines lines')
    (hlines : ∀ line ∈ lines, IsLine line) : ∀ line ∈ lines', IsLine line := by
  induction h with
  | nil => exact hlines
  | keep line _ ih =>
    rw [forall_mem_cons] at hlines ⊢
    exact ⟨hlines.1, ih hlines.2⟩
  | insert hline _ ih =>
    rw [forall_mem_cons]
    exact ⟨hline.1, ih hlines⟩

structure PieceMetadata.Fits (info : PieceMetadata) : Prop where
  lastAccessed : info.lastAccessed ≤ u64Max
  size : info.size ≤ u64Max
  hitCount : info.hitCount ≤ u64Max

/-! ### One line -/

lemma not_isRecord_nil : ¬ IsRecord [] := by
  rintro ⟨key, lastAccessed, size, rest, hsplit, -⟩
  cases hsplit

lemma loadMetadataLine_of_not_isRecord {line : List UInt8} (h : ¬ IsRecord line)
    (m : FinMap Str PieceMetadata) : loadMetadataLine m (decodeLossy line) = m := by
  unfold loadMetadataLine
  dsimp only
  split
  · rfl
  · split
    · rfl
    · next key fields hfields =>
      split
      · next lastAccessed size hlast hsize =>
        -- both numbers parse, so there are two fields, and the key cannot be valid
        cases fields with
        | nil =>
          cases hlast
        | cons first fields =>
          cases fields with
          | nil =>
            cases hsize
          | cons second rest =>
            rw [if_neg]
            intro hvalid
            refine h ⟨key, first, second, rest, hfields, hvalid, ?_, ?_⟩
            · exact Option.isSome_iff_exists.mpr ⟨lastAccessed, hlast⟩
            · exact Option.isSome_iff_exists.mpr ⟨size, hsize⟩
      · rfl

lemma validKey_text {key : Str} (h : isValidPieceKey key = true) :
    '\t' ∉ key ∧ '\n' ∉ key ∧ '\r' ∉ key := by
  obtain ⟨infoHash, index, rfl, hhash, -, hdigits, -⟩ := isValidPieceKey_iff.mp h
  have hhex : ∀ c ∈ infoHash, isLowerHexDigit c = true := List.all_eq_true.mp hhash.digits
  have hdigit : ∀ c ∈ index, isAsciiDigit c = true := List.all_eq_true.mp hdigits
  -- a character that no part of a key can have
  have hother : ∀ c, isLowerHexDigit c = false → isAsciiDigit c = false →
      c ∉ pieceKeySeparator → c ∉ infoHash ++ pieceKeySeparator ++ index := by
    intro c hnothex hnotdigit hnotsep hc
    rcases List.mem_append.mp hc with hc | hc
    · rcases List.mem_append.mp hc with hc | hc
      · exact Bool.false_ne_true (hnothex.symm.trans (hhex c hc))
      · exact hnotsep hc
    · exact Bool.false_ne_true (hnotdigit.symm.trans (hdigit c hc))
  exact ⟨hother _ (by decide) (by decide) (by decide), hother _ (by decide) (by decide) (by decide),
    hother _ (by decide) (by decide) (by decide)⟩

lemma recordText_text {r : MetadataRecord} (h : isValidPieceKey r.1 = true) :
    '\n' ∉ recordText r ∧ '\r' ∉ recordText r := by
  obtain ⟨-, hnewline, hreturn⟩ := validKey_text h
  constructor
  · simp only [recordText, mem_append, mem_cons, not_or]
    exact ⟨hnewline, by decide, notMem_decimal (by decide) _, by decide,
      notMem_decimal (by decide) _, by decide, notMem_decimal (by decide) _⟩
  · simp only [recordText, mem_append, mem_cons, not_or]
    exact ⟨hreturn, by decide, notMem_decimal (by decide) _, by decide,
      notMem_decimal (by decide) _, by decide, notMem_decimal (by decide) _⟩

lemma loadMetadataLine_recordLine {r : MetadataRecord} (hvalid : isValidPieceKey r.1 = true)
    (hfits : r.2.Fits) (m : FinMap Str PieceMetadata) :
    loadMetadataLine m (decodeLossy (recordLine r)) = m.insert r.1 r.2 := by
  obtain ⟨hnewline, hreturn⟩ := recordText_text hvalid
  obtain ⟨htab, -⟩ := validKey_text hvalid
  have hdecode : decodeLossy (recordLine r) = recordText r ++ ['\n'] := decodeLossy_encode _
  have hne : recordText r ≠ [] := by simp [recordText]
  -- the newline is trimmed, and nothing of the text
  have htrim : (recordText r ++ ['\n']).rdropWhile (fun c => c = '\n' ∨ c = '\r') =
      recordText r := by
    rw [rdropWhile_concat_pos _ _ _ (by decide), rdropWhile_eq_self_iff]
    intro _ hlast
    have hmem := getLast_mem hne
    rcases of_decide_eq_true hlast with heq | heq
    · exact hnewline (heq ▸ hmem)
    · exact hreturn (heq ▸ hmem)
  have hsplit : (recordText r).splitOn '\t' = [r.1, decimal r.2.lastAccessed,
      decimal r.2.size, decimal r.2.hitCount] := by
    rw [recordText, splitOn_append_cons htab, splitOn_append_cons (notMem_decimal (by decide) _),
      splitOn_append_cons (notMem_decimal (by decide) _),
      splitOn_of_notMem (notMem_decimal (by decide) _)]
  unfold loadMetadataLine
  rw [hdecode]
  rw [htrim, if_neg hne, hsplit]
  simp only [headD_cons, tail_cons, head?_cons, bind_some,
    parseUnsigned_decimal hfits.lastAccessed, parseUnsigned_decimal hfits.size,
    parseUnsigned_decimal hfits.hitCount, getD_some, hvalid, if_true]

/-! ### The whole file -/

lemma foldl_inserted (hP : ∀ line, P line → ¬ IsRecord line)
    {lines lines' : List (List UInt8)} (h : Inserted P lines lines')
    (m : FinMap Str PieceMetadata) : (lines'.map decodeLossy).foldl loadMetadataLine m =
      (lines.map decodeLossy).foldl loadMetadataLine m := by
  induction h generalizing m with
  | nil => rfl
  | keep line _ ih => exact ih _
  | insert hline _ ih =>
    rw [map_cons, foldl_cons, loadMetadataLine_of_not_isRecord (hP _ hline), ih]

lemma foldl_recordLines {records : List MetadataRecord}
    (h : ∀ r ∈ records, isValidPieceKey r.1 = true ∧ r.2.Fits) (m : FinMap Str PieceMetadata) :
    ((records.map recordLine).map decodeLossy).foldl loadMetadataLine m =
      records.foldl (fun m r => m.insert r.1 r.2) m := by
  induction records generalizing m with
  | nil => rfl
  | cons r records ih =>
    obtain ⟨hvalid, hfits⟩ := h r mem_cons_self
    rw [map_cons, map_cons, foldl_cons, foldl_cons,
      loadMetadataLine_recordLine hvalid hfits]
    exact ih (fun r' hr' => h r' (mem_cons_of_mem r hr')) _

lemma foldl_insert_recordsOf {m : FinMap Str PieceMetadata} {order : List Str}
    (horder : IterationOrder m order) :
    (recordsOf m order).foldl (fun m r => m.insert r.1 r.2) .empty = m := by
  obtain ⟨hnodup, hmem⟩ := describes_recordsOf horder
  apply FinMap.ext
  intro key
  rw [get_foldl_insert, get_empty, or_none]
  apply Option.ext
  intro info
  rw [← hmem]
  exact ⟨mem_of_lastOf, lastOf_of_mem hnodup⟩

/-- The map written to the file is loaded from it as it was, in whatever order its records were
written. The same holds with any lines put between the records, before or after them, with or
without a newline at the end of the file, if they do not parse to a valid key with numbers. -/
theorem load_written_metadata {m : FinMap Str PieceMetadata}
    (hvalid : ∀ key ∈ m.keys, isValidPieceKey key = true)
    (hfits : ∀ key info, m.get key = some info → info.Fits) {order : List Str}
    (horder : IterationOrder m order) : loadMetadataBytes (metadataBytes (recordsOf m order)) = m ∧
      ∀ lines tail, Inserted (fun line => IsLine line ∧ ¬ IsRecord line)
          ((recordsOf m order).map recordLine) lines →
        newline ∉ tail → ¬ IsRecord tail → loadMetadataBytes (lines.flatten ++ tail) = m := by
  have hrecords : ∀ r ∈ recordsOf m order, isValidPieceKey r.1 = true ∧ r.2.Fits := by
    intro r hr
    have hget := ((describes_recordsOf horder).2 r.1 r.2).mp hr
    exact ⟨hvalid r.1 (FinMap.mem_keys_of_get hget), hfits r.1 r.2 hget⟩
  have hwritten : ∀ line ∈ (recordsOf m order).map recordLine, IsLine line := by
    intro line hline
    obtain ⟨r, hr, rfl⟩ := List.mem_map.mp hline
    exact isLine_encode (recordText_text (hrecords r hr).1).1
  have hload : ∀ lines tail, Inserted (fun line => IsLine line ∧ ¬ IsRecord line)
      ((recordsOf m order).map recordLine) lines → newline ∉ tail → ¬ IsRecord tail →
      loadMetadataBytes (lines.flatten ++ tail) = m := by
    intro lines tail hinserted hnewline htail
    have hlines : ∀ line ∈ lines, IsLine line := hinserted.isLine hwritten
    have hrest : ∀ m', (List.map decodeLossy (if tail = [] then [] else [tail])).foldl
        loadMetadataLine m' = m' := by
      intro m'
      split
      · rfl
      · exact loadMetadataLine_of_not_isRecord htail m'
    rw [loadMetadataBytes, loadMetadataFile, readLines_flatten hlines hnewline, List.map_append,
      List.foldl_append, hrest, foldl_inserted (fun _ h => h.2) hinserted,
      foldl_recordLines hrecords, foldl_insert_recordsOf horder]
  refine ⟨?_, hload⟩
  have hbytes : metadataBytes (recordsOf m order) =
      ((recordsOf m order).map recordLine).flatten ++ [] := by
    rw [List.append_nil, metadataBytes, List.flatMap_def]
  rw [hbytes]
  exact hload _ [] (.refl _) List.not_mem_nil not_isRecord_nil

def oneRecord : FinMap Str PieceMetadata := FinMap.empty.insert sampleKey ⟨5, 7, 1⟩

theorem load_after_broken_line :
    loadMetadataBytes (metadataBytes (recordsOf oneRecord [sampleKey])) = oneRecord ∧
      loadMetadataBytes ([0xFF, newline] ++ recordLine (sampleKey, ⟨5, 7, 1⟩)) = oneRecord := by
  have hget : ∀ {key info}, oneRecord.get key = some info →
      key = sampleKey ∧ info = ⟨5, 7, 1⟩ := by
    intro key info h
    rw [oneRecord, FinMap.get_insert] at h
    split at h
    · next hkey => exact ⟨hkey, (Option.some.inj h).symm⟩
    · cases h
  have hvalid : ∀ key ∈ oneRecord.keys, isValidPieceKey key = true := by
    intro key hkey
    obtain ⟨info, hinfo⟩ := FinMap.mem_keys_iff_exists.mp hkey
    rw [(hget hinfo).1]
    decide +kernel
  have hfits : ∀ key info, oneRecord.get key = some info → info.Fits := by
    intro key info hinfo
    rw [(hget hinfo).2]
    exact ⟨by decide, by decide, by decide⟩
  have horder : IterationOrder oneRecord [sampleKey] := by decide +kernel
  have hbroken : IsLine [0xFF, newline] ∧ ¬ IsRecord [0xFF, newline] := by
    refine ⟨⟨[0xFF], rfl, by decide⟩, ?_⟩
    rintro ⟨key, lastAccessed, size, rest, hsplit, -⟩
    cases hsplit
  have hload := load_written_metadata hvalid hfits horder
  refine ⟨hload.1, ?_⟩
  have hlines : recordsOf oneRecord [sampleKey] = [(sampleKey, ⟨5, 7, 1⟩)] := by decide +kernel
  have hinserted : Inserted (fun line => IsLine line ∧ ¬ IsRecord line)
      ((recordsOf oneRecord [sampleKey]).map recordLine)
      [[0xFF, newline], recordLine (sampleKey, ⟨5, 7, 1⟩)] := by
    rw [hlines]
    exact .insert hbroken (.refl _)
  have hfile := hload.2 _ [] hinserted List.not_mem_nil not_isRecord_nil
  simpa using hfile

end TorrentFs.Cache
