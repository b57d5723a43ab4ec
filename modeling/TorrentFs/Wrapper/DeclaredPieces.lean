import TorrentFs.Lib.Json

/-!
# The pieces that are declared without a check

When hash checks are off, `declare_cached_pieces` tells libtorrent which pieces of a torrent are
cached. It goes through the names in the torrent's directory and takes the index of a piece from
the digits of a name. The storage goes the other way, from an index to a name. Several names stand
for one index, and the storage reads only one of them.
-/

namespace TorrentFs.Wrapper

open Json

/-- The directory of a torrent's pieces. `size` is what `stat` gives for a name; there is none for a
name that is not in the directory or cannot be followed. -/
structure PieceDir where
  names : List Bytes
  size : Bytes → Option ℕ
  listed : ∀ name, (size name).isSome → name ∈ names

/-- `num_pieces` and `piece_size` of a torrent. -/
structure PieceSizes where
  numPieces : ℕ
  pieceSize : ℕ → ℕ
  /-- The number of pieces is an `int`. -/
  numPieces_lt : numPieces < 2 ^ 31

def piecePrefix (infoHashHex : Bytes) : Bytes := infoHashHex ++ utf8 ":piece:"

def stoi (digits : Bytes) : Option ℕ :=
  let value := digits.foldl (fun v b => 10 * v + (b.toNat - 48)) 0
  if value < 2 ^ 31 then some value else none

def parsePieceFileName (name pre : Bytes) : Option ℕ :=
  if name.length ≤ pre.length ∨ ¬ pre <+: name then none
  else if (name.drop pre.length).all isDigit then stoi (name.drop pre.length)
  else none

def pieceFileName (infoHashHex : Bytes) (pieceIndex : ℕ) : Bytes :=
  piecePrefix infoHashHex ++ natText pieceIndex

variable (t : PieceSizes) (dir : PieceDir)

/-- Whether the file is as long as the piece and no marker lies beside it. -/
def IsWhole (name : Bytes) (index : ℕ) : Prop :=
  index < t.numPieces ∧ dir.size name = some (t.pieceSize index) ∧
    dir.size (name ++ utf8 ".incomplete") = none

instance (name : Bytes) (index : ℕ) : Decidable (IsWhole t dir name index) :=
  inferInstanceAs (Decidable (_ ∧ _ ∧ _))

def declareEntry (infoHashHex : Bytes) (havePieces : Option (List Bool)) (name : Bytes) :
    Option (List Bool) :=
  match parsePieceFileName name (piecePrefix infoHashHex) with
  | none => havePieces
  | some index =>
    if IsWhole t dir name index then
      some ((havePieces.getD (List.replicate t.numPieces false)).set index true)
    else havePieces

def declareCachedPieces (infoHashHex : Bytes) : Option (List Bool) :=
  dir.names.foldl (declareEntry t dir infoHashHex) none

variable {t dir} {infoHashHex : Bytes}

lemma parsePieceFileName_pieceFileName {index : ℕ} (h : index < 2 ^ 31) :
    parsePieceFileName (pieceFileName infoHashHex index) (piecePrefix infoHashHex) =
      some index := by
  have hdigits : (natText index).all isDigit = true :=
    List.all_eq_true.mpr fun b hb => isDigit_of_mem_natText hb
  rw [parsePieceFileName, pieceFileName, List.drop_left, if_neg (by simp [natText_ne_nil]),
    if_pos hdigits, stoi, foldl_natText, if_pos h]

def hasPiece (havePieces : Option (List Bool)) (index : ℕ) : Bool :=
  (havePieces.getD []).getD index false

/-- A bitmap has a bit for every piece, and one of them is set. -/
def Sized (t : PieceSizes) (havePieces : Option (List Bool)) : Prop :=
  ∀ bits ∈ havePieces, bits.length = t.numPieces ∧ true ∈ bits

lemma sized_none : Sized t none := by simp [Sized]

lemma declareEntry_spec {havePieces : Option (List Bool)} (h : Sized t havePieces) (name : Bytes) :
    Sized t (declareEntry t dir infoHashHex havePieces name) ∧
      ∀ i, hasPiece (declareEntry t dir infoHashHex havePieces name) i = true ↔
        hasPiece havePieces i = true ∨
          (parsePieceFileName name (piecePrefix infoHashHex) = some i ∧ IsWhole t dir name i) := by
  unfold declareEntry
  split
  · next hparse => simp [h, hparse]
  · next index hparse =>
    split
    · next hwhole =>
      set bits := havePieces.getD (List.replicate t.numPieces false) with hbits
      have hlength : bits.length = t.numPieces := by
        cases havePieces with
        | none => exact List.length_replicate
        | some bits => exact (h bits rfl).1
      have hold : ∀ i, bits.getD i false = hasPiece havePieces i := by
        intro i
        cases havePieces with
        | none =>
          simp only [hbits, hasPiece, Option.getD_none, List.getD_eq_getElem?_getD,
            List.getElem?_replicate]
          split <;> rfl
        | some bits => rfl
      have hindex : index < bits.length := hlength ▸ hwhole.1
      refine ⟨?_, fun i => ?_⟩
      · rintro _ ⟨⟩
        exact ⟨by rw [List.length_set, hlength], List.mem_set hindex true⟩
      · rw [← hold, hasPiece, Option.getD_some, List.getD_eq_getElem?_getD, List.getElem?_set]
        by_cases hi : index = i
        · subst hi
          simp [hparse, hwhole, hindex]
        · simp [hparse, hi]
    · next hwhole =>
      refine ⟨h, fun i => (or_iff_left ?_).symm⟩
      rintro ⟨hsome, hi⟩
      obtain rfl := Option.some.inj (hparse.symm.trans hsome)
      exact hwhole hi

lemma foldl_declareEntry (names : List Bytes) {havePieces : Option (List Bool)}
    (h : Sized t havePieces) : Sized t (names.foldl (declareEntry t dir infoHashHex) havePieces) ∧
      ∀ i, hasPiece (names.foldl (declareEntry t dir infoHashHex) havePieces) i = true ↔
        hasPiece havePieces i = true ∨ ∃ name ∈ names,
          parsePieceFileName name (piecePrefix infoHashHex) = some i ∧ IsWhole t dir name i := by
  induction names generalizing havePieces with
  | nil => simp [h]
  | cons name names ih =>
    obtain ⟨hsized, hbit⟩ := @declareEntry_spec t dir infoHashHex _ h name
    obtain ⟨hsized', hbits⟩ := ih hsized
    refine ⟨hsized', fun i => ?_⟩
    rw [List.foldl_cons, hbits, hbit, or_assoc, List.exists_mem_cons_iff]

lemma hasPiece_declareCachedPieces (i : ℕ) :
    hasPiece (declareCachedPieces t dir infoHashHex) i = true ↔ ∃ name ∈ dir.names,
      parsePieceFileName name (piecePrefix infoHashHex) = some i ∧ IsWhole t dir name i := by
  rw [declareCachedPieces, (foldl_declareEntry dir.names sized_none).2]
  simp [hasPiece]

lemma exists_hasPiece {bits : List Bool} (h : declareCachedPieces t dir infoHashHex = some bits) :
    ∃ i, hasPiece (declareCachedPieces t dir infoHashHex) i = true := by
  have hsized := (foldl_declareEntry dir.names sized_none).1 bits h
  obtain ⟨i, hi, htrue⟩ := List.mem_iff_getElem.mp hsized.2
  exact ⟨i, by simp [h, hasPiece, hi, htrue]⟩

/-- The bitmap has the pieces whose own files are whole, and is there only if there is one, exactly
when every whole file under another name stands for a piece whose own file is whole too. -/
theorem declared_iff_whole (t : PieceSizes) (dir : PieceDir) (infoHashHex : Bytes) :
    ((∀ i, hasPiece (declareCachedPieces t dir infoHashHex) i = true ↔
          IsWhole t dir (pieceFileName infoHashHex i) i) ∧
        ((∀ i, ¬ IsWhole t dir (pieceFileName infoHashHex i) i) →
          declareCachedPieces t dir infoHashHex = none)) ↔
      ∀ name ∈ dir.names, ∀ i, parsePieceFileName name (piecePrefix infoHashHex) = some i →
        IsWhole t dir name i → IsWhole t dir (pieceFileName infoHashHex i) i := by
  constructor
  · rintro ⟨hbits, -⟩ name hname i hparse hwhole
    exact (hbits i).mp ((hasPiece_declareCachedPieces i).mpr ⟨name, hname, hparse, hwhole⟩)
  · intro h
    have hbits : ∀ i, hasPiece (declareCachedPieces t dir infoHashHex) i = true ↔
        IsWhole t dir (pieceFileName infoHashHex i) i := by
      intro i
      rw [hasPiece_declareCachedPieces]
      constructor
      · rintro ⟨name, hname, hparse, hwhole⟩
        exact h name hname i hparse hwhole
      · intro hwhole
        -- the file the storage reads is met on the way, and its name gives back the index
        have hname := dir.listed _ (Option.isSome_of_eq_some hwhole.2.1)
        have hindex := hwhole.1.trans t.numPieces_lt
        exact ⟨_, hname, parsePieceFileName_pieceFileName hindex, hwhole⟩
    refine ⟨hbits, fun hnone => ?_⟩
    cases hdeclared : declareCachedPieces t dir infoHashHex with
    | none => rfl
    | some bits =>
      obtain ⟨i, hi⟩ := exists_hasPiece hdeclared
      exact absurd ((hbits i).mp hi) (hnone i)

/-- The only file is called `a:piece:00`: piece 0 is declared, and `a:piece:0` cannot be read. -/
theorem other_spelling_declared : ∃ (t : PieceSizes) (dir : PieceDir),
    declareCachedPieces t dir [97] = some [true] ∧ dir.size (pieceFileName [97] 0) = none := by
  refine ⟨⟨1, fun _ => 1, by decide⟩, ⟨[utf8 "a:piece:00"],
    fun name => if name = utf8 "a:piece:00" then some 1 else none, fun name h => ?_⟩, ?_⟩
  · simpa using h
  · decide

end TorrentFs.Wrapper
