import Mathlib.Data.Int.Notation
import TorrentFs.Lib.Bytes

/-!
# Input file streams

An input stream over the bytes of a file: its position, its state flags and the count of its last
read. A read that finds fewer bytes than it asks for stores those it finds and sets `eofbit` and
`failbit`. A stream that is not good reads nothing.

A buffer is memory that may not have been written: a cell without a value is uninitialised.
-/

abbrev Buffer := List (Option UInt8)

namespace Buffer

def malloc (size : ℕ) : Buffer := List.replicate size none

def fill (buf : Buffer) (data : List UInt8) : Buffer := data.map some ++ buf.drop data.length

lemma getElem?_fill_of_lt {buf : Buffer} {data : List UInt8} {i : ℕ} (h : i < data.length) :
    (buf.fill data)[i]? = some data[i]? := by
  rw [fill, List.getElem?_append_left (by rwa [List.length_map]), List.getElem?_map,
    List.getElem?_eq_getElem h]
  rfl

end Buffer

structure InStream where
  content : List UInt8
  pos : ℕ
  eofbit : Bool
  failbit : Bool
  badbit : Bool
  /-- The number of bytes of the last read. -/
  gcount : ℕ

namespace InStream

def ofFile (content : List UInt8) : InStream := ⟨content, 0, false, false, false, 0⟩

def good (s : InStream) : Bool := !s.eofbit && !s.failbit && !s.badbit

def seekg (s : InStream) (offset : ℤ) : InStream :=
  let s := { s with eofbit := false }
  if s.failbit || s.badbit then s
  else if 0 ≤ offset then { s with pos := offset.toNat }
  else { s with failbit := true }

def read (s : InStream) (n : ℕ) (deviceFails : Bool) : InStream × List UInt8 :=
  if s.good then
    if deviceFails then ({ s with badbit := true, gcount := 0 }, [])
    else
      let data := (s.content.drop s.pos).take n
      let isShort := decide (data.length < n)
      ({ s with
         pos := s.pos + data.length
         gcount := data.length
         eofbit := isShort
         failbit := isShort }, data)
  else ({ s with failbit := true, gcount := 0 }, [])

/-- Read in chunks of at most `chunk` bytes until `remaining` bytes are read or a read finds
nothing; the bytes in their order. -/
def readChunks (chunk : ℕ) (s : InStream) (remaining : ℕ) : List UInt8 :=
  if _ : remaining = 0 then []
  else
    let result := s.read (min remaining chunk) false
    if _ : result.2.length = 0 then []
    else result.2 ++ readChunks chunk result.1 (remaining - result.2.length)
termination_by remaining
decreasing_by exact Nat.sub_lt (Nat.pos_of_ne_zero ‹_›) (Nat.pos_of_ne_zero ‹_›)

lemma good_ofFile (content : List UInt8) : (ofFile content).good = true := rfl

lemma read_of_good {s : InStream} (h : s.good = true) (n : ℕ) :
    s.read n false =
      ({ s with
         pos := s.pos + ((s.content.drop s.pos).take n).length
         gcount := ((s.content.drop s.pos).take n).length
         eofbit := decide (((s.content.drop s.pos).take n).length < n)
         failbit := decide (((s.content.drop s.pos).take n).length < n) },
        (s.content.drop s.pos).take n) := by
  rw [read, if_pos h, if_neg Bool.false_ne_true]

lemma read_of_not_good {s : InStream} (h : s.good = false) (n : ℕ) (deviceFails : Bool) :
    (s.read n deviceFails).2 = [] := by
  rw [read, if_neg (by rw [h]; exact Bool.false_ne_true)]

lemma readChunks_eq {chunk : ℕ} (hchunk : 0 < chunk) (remaining : ℕ) :
    ∀ {s : InStream}, s.good = true →
      s.readChunks chunk remaining = (s.content.drop s.pos).take remaining := by
  induction remaining using Nat.strongRecOn with
  | ind remaining ih =>
    intro s hs
    rw [readChunks]
    by_cases hzero : remaining = 0
    · rw [dif_pos hzero, hzero, List.take_zero]
    rw [dif_neg hzero, read_of_good hs]
    set data := (s.content.drop s.pos).take (min remaining chunk) with hdata
    have hlength : data.length = min (min remaining chunk) (s.content.length - s.pos) := by
      rw [hdata, List.length_take, List.length_drop]
    dsimp only
    split
    · next hnone =>
      -- nothing is left in the file
      rw [List.drop_of_length_le (by omega), List.take_nil]
    · next hsome =>
      have hrest : (s.content.drop s.pos).take remaining =
          data ++ (s.content.drop (s.pos + data.length)).take (remaining - data.length) := by
        have hdata' : data = (s.content.drop s.pos).take data.length := by
          rw [hdata, List.length_take, List.take_eq_take_iff]
          omega
        conv_lhs => rw [show remaining = data.length + (remaining - data.length) by omega,
          List.take_add, List.drop_drop, ← hdata']
      rw [hrest]
      congr 1
      by_cases hshort : data.length < min remaining chunk
      · -- the chunk ended at the end of the file
        rw [List.drop_of_length_le (by omega), List.take_nil, readChunks]
        split
        · rfl
        · rw [dif_pos]
          rw [read_of_not_good]
          · rfl
          · simp [good, hshort]
      · refine ih _ (by omega) ?_
        rw [good] at hs ⊢
        simp only [Bool.and_eq_true, Bool.not_eq_true'] at hs ⊢
        exact ⟨⟨decide_eq_false hshort, decide_eq_false hshort⟩, hs.2⟩

end InStream
