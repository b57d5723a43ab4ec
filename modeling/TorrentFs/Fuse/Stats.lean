import Mathlib.Algebra.BigOperators.Group.List.Basic
import Mathlib.Data.List.Induction
import TorrentFs.Download.ReadRange

/-!
# The downloaded bytes in `.stats`

The `.stats` file of a torrent and that of its directory show how much of a torrent is downloaded.
Both go by the pieces that are cached, but the torrent's own file counts every one of them with the
full piece length, and its directory's gives the last piece its own size. The two figures are
compared over every subset of the pieces.
-/

namespace TorrentFs.Fuse

open Download Word List Nat

def pieceDownloaded (pieces : List Bool) (pieceLength : ℕ) : ℕ :=
  if pieces = [] ∨ pieceLength = 0 then 0 else mulU64 (pieces.count true) pieceLength

/-- The bytes `generate_torrent_stats` shows as downloaded. Without a snapshot of the pieces they
are those of the status. -/
def torrentDownloaded (pieces : Option (ℕ × List Bool)) (totalDone : ℕ) : ℕ :=
  (pieces.map fun p => pieceDownloaded p.2 p.1).getD totalDone

def summaryTorrentStats (pieces : Option (ℕ × List Bool)) (totalDone : Option ℕ)
    (totalSize : ℕ) : ℕ :=
  match pieces with
  | some (pieceLength, pieces) =>
    if pieceLength = 0 then 0
    else
      ((pieces.zipIdx.filter Prod.fst).map fun p => expectedPieceSize (toI32 p.2) pieceLength
        (toI32 pieces.length) totalSize).sum % 2 ^ 64
  | none => min (totalDone.getD 0) totalSize

section Figures

variable {totalSize pieceLength : ℕ} {init pieces : List Bool} {last : Bool}

lemma sum_concat (init : List Bool) (last : Bool) (f : Bool × ℕ → ℕ) :
    (((init ++ [last]).zipIdx.filter Prod.fst).map f).sum =
      ((init.zipIdx.filter Prod.fst).map f).sum + if last then f (last, init.length) else 0 := by
  rw [zipIdx_append, filter_append, map_append, List.sum_append]
  cases last <;> simp

lemma sum_of_const {l : ℕ} {f : Bool × ℕ → ℕ} (init : List Bool)
    (hf : ∀ b, ∀ i < init.length, f (b, i) = l) :
    ((init.zipIdx.filter Prod.fst).map f).sum = init.count true * l := by
  induction init using List.reverseRecOn with
  | nil => simp
  | append_singleton init b ih =>
    rw [length_append] at hf
    rw [sum_concat, ih fun b i hi => hf b i (by omega), count_append, Nat.add_mul,
      hf b init.length (by simp)]
    cases b <;> simp

lemma mul_pieceLength_lt (hpos : 0 < pieceLength)
    (hlength : init.length + 1 = (totalSize + pieceLength - 1) / pieceLength) :
    init.length * pieceLength < totalSize ∧ totalSize ≤ (init.length + 1) * pieceLength := by
  have hle := div_mul_le_self (totalSize + pieceLength - 1) pieceLength
  have hlt := lt_div_mul_add hpos (a := totalSize + pieceLength - 1)
  rw [← hlength, Nat.add_mul] at hle hlt
  rw [Nat.add_mul]
  omega

lemma dvd_iff_of_bounds (hlt : init.length * pieceLength < totalSize)
    (hle : totalSize ≤ (init.length + 1) * pieceLength) :
    pieceLength ∣ totalSize ↔ totalSize = (init.length + 1) * pieceLength := by
  constructor
  · rintro ⟨k, rfl⟩
    rw [Nat.mul_comm pieceLength] at hlt hle ⊢
    have := Nat.lt_of_mul_lt_mul_right hlt
    rw [le_antisymm hle (Nat.mul_le_mul_right _ this)]
  · rintro rfl
    exact Nat.dvd_mul_left _ _

lemma downloaded_concat (hpiece : pieceLength < 2 ^ 63) (htotal : totalSize < 2 ^ 63)
    (hinit : init.length + 1 < 2 ^ 31) (hlt : init.length * pieceLength < totalSize)
    (hle : totalSize ≤ (init.length + 1) * pieceLength) (done : Option ℕ) :
    pieceDownloaded (init ++ [last]) pieceLength =
        init.count true * pieceLength + (if last then pieceLength else 0) ∧
      summaryTorrentStats (some (pieceLength, init ++ [last])) done totalSize =
        init.count true * pieceLength +
          if last then totalSize - init.length * pieceLength else 0 := by
  have hcount : init.count true * pieceLength ≤ init.length * pieceLength :=
    Nat.mul_le_mul_right _ count_le_length
  have hne : pieceLength ≠ 0 := by
    rintro rfl
    omega
  constructor
  · rw [pieceDownloaded, if_neg (by simp [hne]), mulU64, count_append, Nat.add_mul]
    cases last <;> simp <;> omega
  · have hlast : toI32 (init ++ [last]).length = init.length + 1 := by
      rw [length_append, length_singleton, toI32_of_lt hinit]
      rfl
    have hfull : ∀ b : Bool, ∀ i < init.length, expectedPieceSize (toI32 (b, i).2) pieceLength
        (toI32 (init ++ [last]).length) totalSize = pieceLength := by
      intro b i hi
      rw [hlast, toI32_of_lt (by omega), expectedPieceSize, if_neg (by omega)]
    -- the last piece ends with the torrent
    have hrest : expectedPieceSize (toI32 init.length) pieceLength
        (toI32 (init ++ [last]).length) totalSize = totalSize - init.length * pieceLength := by
      rw [hlast, toI32_of_lt (by omega), expectedPieceSize, if_pos (by omega), add_sub_cancel_right,
        toU64_natCast (by omega), mulU64_of_lt (by omega), if_pos (by omega)]
    rw [summaryTorrentStats, if_neg hne, sum_concat, sum_of_const init hfull, hrest]
    refine mod_eq_of_lt ?_
    split <;> omega

/-- The directory's figure never exceeds the total size and reaches it with the last piece. The
torrent's own figure is the same, and so has the two properties as well, exactly when the last piece
is a full one or is not cached. -/
theorem downloaded_figures_agree_iff (hpos : 0 < pieceLength) (hpiece : pieceLength < 2 ^ 63)
    (htotal : totalSize < 2 ^ 63) (hlength : pieces.length < 2 ^ 31)
    (hcount : pieces.length = (totalSize + pieceLength - 1) / pieceLength)
    (statusDone : ℕ) (done : Option ℕ) :
    (summaryTorrentStats (some (pieceLength, pieces)) done totalSize ≤ totalSize ∧
        (summaryTorrentStats (some (pieceLength, pieces)) done totalSize = totalSize ↔
          ∀ cached ∈ pieces, cached = true)) ∧
      (torrentDownloaded (some (pieceLength, pieces)) statusDone =
            summaryTorrentStats (some (pieceLength, pieces)) done totalSize ∧
          torrentDownloaded (some (pieceLength, pieces)) statusDone ≤ totalSize ∧
          (torrentDownloaded (some (pieceLength, pieces)) statusDone = totalSize ↔
            ∀ cached ∈ pieces, cached = true) ↔
        pieceLength ∣ totalSize ∨ pieces.getLast? ≠ some true) := by
  set own := torrentDownloaded (some (pieceLength, pieces)) statusDone with hdefOwn
  set shown := summaryTorrentStats (some (pieceLength, pieces)) done totalSize
  have hshown : (shown ≤ totalSize ∧ (shown = totalSize ↔ ∀ cached ∈ pieces, cached = true)) ∧
      (own = shown ↔ pieceLength ∣ totalSize ∨ pieces.getLast? ≠ some true) := by
    cases pieces using List.reverseRecOn with
    | nil =>
      have hzero : totalSize = 0 := by
        have := (Nat.div_eq_zero_iff_lt hpos).mp hcount.symm
        omega
      subst hzero
      have hempty : shown = 0 := if_neg hpos.ne'
      simp [hempty, hdefOwn, torrentDownloaded, pieceDownloaded]
    | append_singleton init last =>
      rw [List.length_append, List.length_singleton] at hlength hcount
      obtain ⟨hlt, hle⟩ := mul_pieceLength_lt hpos hcount
      obtain ⟨hown, hshown⟩ := @downloaded_concat _ _ _ last hpiece htotal hlength hlt hle done
      have hown : own = _ := hown
      have hshown : shown = _ := hshown
      have hall : (∀ cached ∈ init, cached = true) ↔ init.count true = init.length := by
        rw [List.count_eq_length]
        simp only [eq_comm]
      have hbound : init.count true * pieceLength ≤ init.length * pieceLength :=
        Nat.mul_le_mul_right _ List.count_le_length
      have hcancel : init.count true * pieceLength = init.length * pieceLength ↔
          init.count true = init.length := Nat.mul_left_inj hpos.ne'
      rw [hown, hshown, dvd_iff_of_bounds hlt hle, List.getLast?_concat, Nat.add_mul]
      simp only [List.forall_mem_append, List.forall_mem_singleton, hall, ← hcancel]
      cases last <;> simp <;> omega
  refine ⟨hshown.1, ?_⟩
  rw [← hshown.2]
  exact ⟨fun h => h.1, fun h => ⟨h, h ▸ hshown.1⟩⟩

/-- Both pieces of a torrent of 1500 bytes are cached: its own file shows 2048 bytes. -/
theorem own_figure_exceeds_total : torrentDownloaded (some (1024, [true, true])) 0 = 2048 ∧
      summaryTorrentStats (some (1024, [true, true])) none 1500 = 1500 := by
  decide

theorem figures_agree_without_last_piece : torrentDownloaded (some (1024, [true, false])) 0 =
      summaryTorrentStats (some (1024, [true, false])) none 1500 :=
  (((downloaded_figures_agree_iff (by decide) (by decide) (by decide) (by decide) (by decide) 0
    none).2).mpr (.inr (by decide))).1

end Figures

end TorrentFs.Fuse
