import TorrentFs.Lib.Json

/-!
# Bencoded values

Strings, integers, lists and dictionaries, and the bytes they are written as. The type of integers
is a parameter: the format has integers of any size and sign, a decoder usually has fewer.
-/

namespace Bencode

open List Option

open Json (byte natText intText)

abbrev Bytes := List UInt8

/-- A bencoded value with integers of type `ι`. -/
inductive Value (ι : Type)
  | str (bytes : Bytes)
  | int (n : ι)
  | list (items : List (Value ι))
  | dict (entries : List (Bytes × Value ι))

def encodeStr (bytes : Bytes) : Bytes := natText bytes.length ++ byte ':' :: bytes

mutual

def encode : Value ℤ → Bytes
  | .str bytes => encodeStr bytes
  | .int n => byte 'i' :: (intText n ++ [byte 'e'])
  | .list items => byte 'l' :: (encodeItems items ++ [byte 'e'])
  | .dict entries => byte 'd' :: (encodeEntries entries ++ [byte 'e'])

def encodeItems : List (Value ℤ) → Bytes
  | [] => []
  | item :: items => encode item ++ encodeItems items

def encodeEntries : List (Bytes × Value ℤ) → Bytes
  | [] => []
  | (key, value) :: entries => encodeStr key ++ encode value ++ encodeEntries entries

end

lemma length_encodeStr_pos (bytes : Bytes) : 0 < (encodeStr bytes).length := by
  simp [encodeStr]

lemma length_encode_pos (v : Value ℤ) : 0 < (encode v).length := by
  cases v with
  | str bytes => exact length_encodeStr_pos bytes
  | int | list | dict => simp [encode]

namespace Value

variable {ι κ : Type}

def get (key : Bytes) : Value ι → Option (Value ι)
  | .dict entries => (entries.find? fun e => e.1 == key).map Prod.snd
  | _ => none

mutual

def convert (f : ι → Option κ) : Value ι → Option (Value κ)
  | .str bytes => some (.str bytes)
  | .int n => (f n).map .int
  | .list items => (convertItems f items).map .list
  | .dict entries => (convertEntries f entries).map .dict

def convertItems (f : ι → Option κ) : List (Value ι) → Option (List (Value κ))
  | [] => some []
  | item :: items =>
    (convert f item).bind fun item => (convertItems f items).map (item :: ·)

def convertEntries (f : ι → Option κ) : List (Bytes × Value ι) → Option (List (Bytes × Value κ))
  | [] => some []
  | (key, value) :: entries =>
    (convert f value).bind fun value => (convertEntries f entries).map ((key, value) :: ·)

end

variable {f : ι → Option κ} {v : Value ι} {w : Value κ}

lemma convertItems_eq_some {items : List (Value ι)} {items' : List (Value κ)} :
    convertItems f items = some items' ↔
      List.Forall₂ (fun v w => convert f v = some w) items items' := by
  induction items generalizing items' with
  | nil => cases items' <;> simp [convertItems]
  | cons item items ih =>
    rw [convertItems, bind_eq_some_iff]
    constructor
    · rintro ⟨w, hw, hmap⟩
      obtain ⟨ws, hws, rfl⟩ := Option.map_eq_some_iff.mp hmap
      exact .cons hw (ih.mp hws)
    · intro h
      cases h with
      | cons hw hws => exact ⟨_, hw, by rw [ih.mpr hws]; rfl⟩

lemma rel_find?_convertEntries (key : Bytes)
    {entries : List (Bytes × Value ι)} {entries' : List (Bytes × Value κ)}
    (h : convertEntries f entries = some entries') : Option.Rel (fun v w => convert f v = some w)
      ((entries.find? fun e => e.1 == key).map Prod.snd)
      ((entries'.find? fun e => e.1 == key).map Prod.snd) := by
  induction entries generalizing entries' with
  | nil =>
    cases h
    exact .none
  | cons e entries ih =>
    obtain ⟨w, hw, hmap⟩ := Option.bind_eq_some_iff.mp h
    obtain ⟨ws, hws, rfl⟩ := Option.map_eq_some_iff.mp hmap
    rw [find?_cons, find?_cons]
    cases hkey : e.1 == key with
    | true => exact .some hw
    | false => exact ih hws

lemma rel_get_convert (h : convert f v = some w)
    (key : Bytes) : Option.Rel (fun x y => convert f x = some y) (v.get key) (w.get key) := by
  cases v with
  | str bytes =>
    cases h
    exact .none
  | int n =>
    obtain ⟨m, -, rfl⟩ := Option.map_eq_some_iff.mp h
    exact .none
  | list items =>
    obtain ⟨ws, -, rfl⟩ := Option.map_eq_some_iff.mp h
    exact .none
  | dict entries =>
    obtain ⟨ws, hws, rfl⟩ := Option.map_eq_some_iff.mp h
    exact rel_find?_convertEntries key hws

lemma get_convert_of_some {x : Value ι} {key : Bytes}
    (h : convert f v = some w) (hget : v.get key = some x) :
    ∃ y, convert f x = some y ∧ w.get key = some y := by
  have hrel := rel_get_convert h key
  rw [hget] at hrel
  generalize hw : w.get key = o at hrel
  cases hrel with
  | some hy => exact ⟨_, hy, rfl⟩

lemma get_convert_of_none {key : Bytes}
    (h : convert f v = some w) (hget : v.get key = none) : w.get key = none := by
  have hrel := rel_get_convert h key
  rw [hget] at hrel
  generalize w.get key = o at hrel ⊢
  cases hrel with
  | none => rfl

mutual

def integers : Value ι → List ι
  | .str _ => []
  | .int n => [n]
  | .list items => itemIntegers items
  | .dict entries => entryIntegers entries

def itemIntegers : List (Value ι) → List ι
  | [] => []
  | item :: items => integers item ++ itemIntegers items

def entryIntegers : List (Bytes × Value ι) → List ι
  | [] => []
  | (_, value) :: entries => integers value ++ entryIntegers entries

end

mutual

lemma isSome_convert_iff (f : ι → Option κ) : ∀ v : Value ι,
    (convert f v).isSome = true ↔ ∀ n ∈ v.integers, (f n).isSome = true
  | .str bytes => by simp [convert, integers]
  | .int n => by simp [convert, integers]
  | .list items => by
      rw [convert, integers, isSome_map, isSome_convertItems_iff f items]
  | .dict entries => by
      rw [convert, integers, isSome_map, isSome_convertEntries_iff f entries]

lemma isSome_convertItems_iff (f : ι → Option κ) : ∀ items : List (Value ι),
    (convertItems f items).isSome = true ↔ ∀ n ∈ itemIntegers items, (f n).isSome = true
  | [] => by simp [convertItems, itemIntegers]
  | item :: items => by
      rw [convertItems, itemIntegers, forall_mem_append, ← isSome_convert_iff f item,
        ← isSome_convertItems_iff f items]
      cases convert f item <;> simp

lemma isSome_convertEntries_iff (f : ι → Option κ) : ∀ entries : List (Bytes × Value ι),
    (convertEntries f entries).isSome = true ↔ ∀ n ∈ entryIntegers entries, (f n).isSome = true
  | [] => by simp [convertEntries, entryIntegers]
  | (key, value) :: entries => by
      rw [convertEntries, entryIntegers, forall_mem_append, ← isSome_convert_iff f value,
        ← isSome_convertEntries_iff f entries]
      cases convert f value <;> simp

end

end Value

end Bencode
