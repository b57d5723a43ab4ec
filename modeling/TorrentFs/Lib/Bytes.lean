import Mathlib.Data.List.Basic

/-!
# Files as byte lists

A file is the list of its bytes. Writing past the end fills the gap with zeros, as a seek
followed by a write does; a write of no bytes leaves the file as it is.
-/

namespace Bytes

open List

def writeAt (file : List UInt8) (offset : ℕ) (data : List UInt8) : List UInt8 :=
  if data = [] then file
  else
    file.take offset ++ List.replicate (offset - file.length) 0 ++ data ++
      file.drop (offset + data.length)

def slice (l : List UInt8) (a b : ℕ) : List UInt8 := (l.take b).drop a

@[simp] lemma length_slice (l : List UInt8) (a b : ℕ) :
    (slice l a b).length = min b l.length - a := by
  rw [slice, length_drop, length_take]

lemma slice_eq_nil {l : List UInt8} {a b : ℕ} (h : b ≤ a) : slice l a b = [] := by
  rw [slice, drop_eq_nil_iff, length_take]
  omega

lemma slice_min_length (l : List UInt8) (a b : ℕ) : slice l a (min b l.length) = slice l a b := by
  rw [slice, slice, ← take_eq_take_min]

lemma slice_append_slice (l : List UInt8) {a b c : ℕ} (hab : a ≤ b) (hbc : b ≤ c) :
    slice l a b ++ slice l b c = slice l a c := by
  obtain ⟨d, rfl⟩ := Nat.exists_eq_add_of_le hbc
  have hright : slice l b (b + d) = (l.drop b).take d := by
    rw [slice, drop_take, Nat.add_sub_cancel_left]
  rw [hright, slice, slice, take_add, drop_append, length_take]
  by_cases hlen : b ≤ l.length
  · rw [Nat.min_eq_left hlen, Nat.sub_eq_zero_of_le hab, drop_zero]
  · -- the first slice already ends past the last byte
    rw [(drop_eq_nil_iff (l := l)).mpr (by omega), take_nil, drop_nil]

lemma slice_slice (l : List UInt8) {s e i j : ℕ} (h : s + j ≤ e) :
    slice (slice l s e) i j = slice l (s + i) (s + j) := by
  rw [slice, slice, slice, take_drop, drop_drop, take_take, Nat.min_eq_left h]

lemma getElem?_writeAt {file data : List UInt8} {offset i : ℕ}
    (h : i < (writeAt file offset data).length) : (writeAt file offset data)[i]? =
      if offset ≤ i ∧ i < offset + data.length then data[i - offset]?
      else some (file[i]?.getD 0) := by
  unfold writeAt at h ⊢
  by_cases hdata : data = []
  · rw [if_pos hdata] at h ⊢
    rw [if_neg (by rw [hdata, length_nil]; omega), getElem?_eq_getElem h]
    rfl
  · rw [if_neg hdata] at h ⊢
    have hfront : (file.take offset ++ List.replicate (offset - file.length) (0 : UInt8)).length =
        offset := by
      rw [length_append, length_take, length_replicate]
      omega
    by_cases hbefore : i < offset
    · -- before the block: the old file, then the gap
      rw [if_neg (by omega), append_assoc, getElem?_append_left (by omega)]
      by_cases hfile : i < file.length
      · rw [getElem?_append_left (by rw [length_take]; omega),
          getElem?_take_of_lt hbefore, getElem?_eq_getElem hfile]
        rfl
      · rw [getElem?_append_right (by rw [length_take]; omega),
          getElem?_eq_none (by omega : file.length ≤ i),
          getElem?_replicate_of_lt (by rw [length_take]; omega)]
        rfl
    · rw [append_assoc, getElem?_append_right (by omega), hfront]
      by_cases hblock : i < offset + data.length
      · rw [if_pos ⟨by omega, hblock⟩, getElem?_append_left (by omega)]
      · -- behind the block: the rest of the old file
        rw [if_neg (by omega), getElem?_append_right (by omega), getElem?_drop]
        have hposition : offset + data.length + (i - offset - data.length) = i := by omega
        have hfile : i < file.length := by
          rw [length_append, length_append, hfront, length_drop] at h
          omega
        rw [hposition, getElem?_eq_getElem hfile]
        rfl

def lastWritten (last : ℕ → Option UInt8) (offset : ℕ) (data : List UInt8) : ℕ → Option UInt8 :=
  fun i => if offset ≤ i ∧ i < offset + data.length then data[i - offset]? else last i

/-- Every byte of the file is the one last written there, and zero where nothing was written;
nothing was written past the end. -/
structure Holds (last : ℕ → Option UInt8) (file : List UInt8) : Prop where
  bytes : ∀ i < file.length, file[i]? = some ((last i).getD 0)
  past : ∀ i, file.length ≤ i → last i = none

lemma holds_nil : Holds (fun _ => none) [] :=
  ⟨fun _ h => absurd h (Nat.not_lt_zero _), fun _ _ => rfl⟩

lemma length_writeAt (file data : List UInt8) (offset : ℕ) : (writeAt file offset data).length =
      if data = [] then file.length else max file.length (offset + data.length) := by
  unfold writeAt
  split
  · rfl
  · rw [length_append, length_append, length_append, length_take,
      length_replicate, length_drop]
    omega

lemma Holds.writeAt {last : ℕ → Option UInt8} {file : List UInt8} (h : Holds last file)
    (offset : ℕ) (data : List UInt8) :
    Holds (lastWritten last offset data) (writeAt file offset data) := by
  constructor
  · intro i hi
    rw [getElem?_writeAt hi, lastWritten]
    split
    · rw [getElem?_eq_getElem (by omega)]
      rfl
    · by_cases hfile : i < file.length
      · rw [h.bytes i hfile]
        rfl
      · rw [getElem?_eq_none (by omega), h.past i (by omega)]
  · intro i hi
    rw [length_writeAt] at hi
    unfold lastWritten
    by_cases hdata : data = []
    · rw [if_pos hdata] at hi
      rw [if_neg (by rw [hdata, length_nil]; omega), h.past i hi]
    · rw [if_neg hdata] at hi
      rw [if_neg (by omega), h.past i (by omega)]

end Bytes
