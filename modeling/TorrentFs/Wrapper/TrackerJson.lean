import TorrentFs.Lib.Loop
import TorrentFs.Lib.Utf8
import TorrentFs.Wrapper.JsonScan

/-!
# Tracker lists as JSON

A tracker list leaves the wrapper and enters it as a JSON array of objects with a tier and a URL.
On the way out the wrapper writes the text, and a JSON library reads it after bytes that are no
UTF-8 have been replaced. On the way in the library writes the text and the wrapper reads it with
a scanner of its own.
-/

namespace TorrentFs.Wrapper

open Json Text Utf8 List Option

structure AnnounceEntry where
  tier : UInt8
  url : Bytes
deriving DecidableEq

structure TrackerEntry where
  tier : ℤ
  url : Str
deriving DecidableEq

/-! ### Writing -/

def escapeUrlByte (uc : UInt8) : Bytes :=
  if uc = byte '"' then utf8 "\\\""
  else if uc = byte '\\' then utf8 "\\\\"
  else if uc = 0x08 then utf8 "\\b"
  else if uc = 0x0C then utf8 "\\f"
  else if uc = 0x0A then utf8 "\\n"
  else if uc = 0x0D then utf8 "\\r"
  else if uc = 0x09 then utf8 "\\t"
  else if uc < 0x20 then
    -- four hexadecimal digits
    utf8 "\\u" ++ [hexDigit (uc.toNat / 4096 % 16), hexDigit (uc.toNat / 256 % 16),
      hexDigit (uc.toNat / 16 % 16), hexDigit (uc.toNat % 16)]
  else [uc]

def trackerJson (t : AnnounceEntry) : Bytes :=
  utf8 "\x7b\"tier\":" ++ intText t.tier.toNat ++ utf8 ",\"url\":\"" ++
    t.url.flatMap escapeUrlByte ++ utf8 "\"\x7d"

def trackersToJson (trackers : List AnnounceEntry) : Bytes :=
  utf8 "[" ++ [byte ','].intercalate (trackers.map trackerJson) ++ utf8 "]"

def entryJson (tier : ℤ) (url : Bytes) : Bytes :=
  byte '\x7b' :: membersText [(utf8 "tier", .int tier), (utf8 "url", .str url)]

def entriesText (entries : List TrackerEntry) : Bytes :=
  arrayText (entries.map fun e => entryJson e.tier (encode e.url))

/-- The JSON library reads the text of entries with small tiers as these entries. -/
def ReadsBack (fromStr : Bytes → Option (List TrackerEntry)) : Prop :=
  ∀ entries : List TrackerEntry, (∀ e ∈ entries, 0 ≤ e.tier ∧ e.tier < 256) →
    fromStr (entriesText entries) = some entries

def cStr (text : Bytes) : Bytes := text.takeWhile (· ≠ 0)

def AnnounceEntry.lossy (t : AnnounceEntry) : TrackerEntry := ⟨t.tier.toNat, decodeLossy t.url⟩

def TrackerEntry.announce (e : TrackerEntry) : AnnounceEntry :=
  ⟨UInt8.ofInt e.tier, encode e.url⟩

lemma escapeUrlByte_eq (b : UInt8) : escapeUrlByte b = escapeByte b := by
  by_cases hb : b < 0x20
  · refine forall_byte_lt 32 b (UInt8.lt_iff_toNat_lt.mp hb) ?_
    decide
  · have hne : ∀ c : UInt8, c < 0x20 → b ≠ c := by
      rintro c hc rfl
      exact hb hc
    simp only [escapeUrlByte, escapeByte, if_neg hb, if_neg (hne 0x08 (by decide)),
      if_neg (hne 0x09 (by decide)), if_neg (hne 0x0A (by decide)), if_neg (hne 0x0C (by decide)),
      if_neg (hne 0x0D (by decide))]

lemma trackerJson_eq (t : AnnounceEntry) : trackerJson t = entryJson t.tier.toNat t.url := by
  have hescape : escapeUrlByte = escapeByte := funext escapeUrlByte_eq
  have hopen : utf8 "\x7b\"tier\":" = byte '\x7b' :: (strText (utf8 "tier") ++ [byte ':']) := by
    decide
  have hmid : utf8 ",\"url\":\"" = byte ',' :: (strText (utf8 "url") ++ [byte ':', byte '"']) := by
    decide
  have hclose : utf8 "\"\x7d" = [byte '"', byte '\x7d'] := by decide
  rw [trackerJson, entryJson, hescape, hopen, hmid, hclose]
  simp [membersText, memberText, Value.text, strText]

lemma trackersToJson_eq (trackers : List AnnounceEntry) :
    trackersToJson trackers = arrayText (trackers.map fun t => entryJson t.tier.toNat t.url) := by
  have hopen : utf8 "[" = [byte '['] := by decide
  have hclose : utf8 "]" = [byte ']'] := by decide
  have hjson : trackerJson = fun t => entryJson t.tier.toNat t.url := funext trackerJson_eq
  rw [trackersToJson, arrayText, elementsText_eq_intercalate, hjson, hopen, hclose,
    append_assoc, singleton_append]

/-! ### The text on its way out -/

lemma asciiRewrite_escapeByte : AsciiRewrite escapeByte where
  high b hb := by
    have hne : ∀ c : UInt8, c < 0x80 → b ≠ c := by
      rintro c hc rfl
      exact UInt8.not_lt.mpr hb hc
    have hlow : ¬ b < 0x20 := fun h => UInt8.not_lt.mpr hb (UInt8.lt_trans h (by decide))
    simp only [escapeByte, if_neg hlow, if_neg (hne _ (by decide : byte '"' < 0x80)),
      if_neg (hne _ (by decide : byte '\\' < 0x80)), if_neg (hne 0x08 (by decide)),
      if_neg (hne 0x09 (by decide)), if_neg (hne 0x0A (by decide)), if_neg (hne 0x0C (by decide)),
      if_neg (hne 0x0D (by decide))]
  low b hb := by
    refine forall_byte_lt 128 b (UInt8.lt_iff_toNat_lt.mp hb) ?_
    decide +kernel

lemma lt_of_mem_intText {z : ℤ} {b : UInt8} (hb : b ∈ intText z) : b < 0x80 := by
  have hdigit : ∀ n, ∀ c ∈ natText n, c < 0x80 := by
    intro n c hc
    have h := isDigit_of_mem_natText hc
    rw [isDigit, Bool.and_eq_true, decide_eq_true_eq, decide_eq_true_eq] at h
    exact UInt8.lt_of_le_of_lt h.2 (by decide)
  rw [intText] at hb
  split_ifs at hb
  · rcases List.mem_cons.mp hb with rfl | hb
    · decide
    · exact hdigit _ b hb
  · exact hdigit _ b hb

lemma repair_entryJson (tier : ℤ) (url : Bytes) :
    repair (entryJson tier url) = entryJson tier (repair url) := by
  let before := byte '\x7b' :: (strText (utf8 "tier") ++ [byte ':'])
  let between := byte ',' :: (strText (utf8 "url") ++ [byte ':', byte '"'])
  let after := [byte '"', byte '\x7d']
  have htext : ∀ u : Bytes, entryJson tier u =
      (before ++ (intText tier ++ between)) ++ (u.flatMap escapeByte ++ after) := by
    intro u
    simp [entryJson, membersText, memberText, Value.text, strText, before, between, after]
  -- everything but the URL is ASCII
  have hascii : ∀ b ∈ before ++ (intText tier ++ between), b < 0x80 := by
    have hbefore : ∀ b ∈ before, b < 0x80 := by decide +kernel
    have hbetween : ∀ b ∈ between, b < 0x80 := by decide +kernel
    intro b hb
    rcases List.mem_append.mp hb with hb | hb
    · exact hbefore b hb
    · rcases List.mem_append.mp hb with hb | hb
      · exact lt_of_mem_intText hb
      · exact hbetween b hb
  have hafter : repair after = after := by decide
  rw [htext, htext, repair_append_of_ascii hascii, repair_append (by decide +kernel), hafter,
    asciiRewrite_escapeByte.repair_flatMap]

lemma repair_arrayText (elements : List Bytes) :
    repair (arrayText elements) = arrayText (elements.map repair) := by
  have hclose : repair [byte ']'] = [byte ']'] := by decide
  have helements : repair (elementsText elements) = elementsText (elements.map repair) := by
    induction elements with
    | nil => exact hclose
    | cons e elements ih =>
      cases elements with
      | nil =>
        rw [map_singleton, elementsText, elementsText, repair_append (by decide +kernel),
          hclose]
      | cons e' elements =>
        have hcomma : ∀ b ∈ (byte ',' :: elementsText (e' :: elements)).head?, b < 0x80 := by
          intro b hb
          cases hb
          decide
        rw [elementsText_cons_cons, repair_append hcomma, repair_cons_of_lt (by decide), ih]
        rfl
  rw [arrayText, repair_cons_of_lt (by decide), helements, arrayText]

lemma repair_trackersToJson (trackers : List AnnounceEntry) :
    repair (trackersToJson trackers) = entriesText (trackers.map AnnounceEntry.lossy) := by
  rw [trackersToJson_eq, repair_arrayText, entriesText, List.map_map, List.map_map]
  congr 1
  apply map_congr_left
  intro t _
  exact repair_entryJson _ _

lemma cStr_of_notMem {text : Bytes} (h : 0 ∉ text) : cStr text = text := by
  rw [cStr, takeWhile_eq_self_iff]
  intro b hb
  simpa using ne_of_mem_of_not_mem hb h

lemma zero_notMem_entryJson (tier : ℤ) (url : Bytes) : 0 ∉ entryJson tier url := by
  have hopen : (0 : UInt8) ≠ byte '\x7b' := by decide
  have hcomma : (0 : UInt8) ≠ byte ',' := by decide
  have hclose : (0 : UInt8) ≠ byte '\x7d' := by decide
  simp only [entryJson, membersText, mem_cons, mem_append, not_or]
  exact ⟨hopen, zero_notMem_memberText _, hcomma, zero_notMem_memberText _, hclose,
    not_mem_nil⟩

lemma zero_notMem_entriesText (entries : List TrackerEntry) : 0 ∉ entriesText entries := by
  apply zero_notMem_arrayText
  intro e he
  obtain ⟨entry, -, rfl⟩ := List.mem_map.mp he
  exact zero_notMem_entryJson _ _

lemma zero_notMem_trackersToJson (trackers : List AnnounceEntry) : 0 ∉ trackersToJson trackers := by
  rw [trackersToJson_eq]
  apply zero_notMem_arrayText
  intro e he
  obtain ⟨t, -, rfl⟩ := List.mem_map.mp he
  exact zero_notMem_entryJson _ _

lemma fromStr_trackersToJson {fromStr : Bytes → Option (List TrackerEntry)}
    (h : ReadsBack fromStr) (trackers : List AnnounceEntry) :
    fromStr (repair (cStr (trackersToJson trackers))) =
      some (trackers.map AnnounceEntry.lossy) := by
  rw [cStr_of_notMem (zero_notMem_trackersToJson trackers), repair_trackersToJson]
  apply h
  intro e he
  obtain ⟨t, -, rfl⟩ := List.mem_map.mp he
  have hlt := t.tier.toNat_lt
  dsimp only [AnnounceEntry.lossy]
  omega

/-! ### Reading -/

/-- An object while it is read: the URL is there once its member has been seen. -/
structure PartialEntry where
  tier : UInt8
  url : Option Bytes

def skipComma (p : Bytes) : Bytes :=
  match skipJsonWs p with
  | [] => []
  | b :: rest => if b = byte ',' then skipJsonWs rest else b :: rest

def parseMemberValue (key p : Bytes) (entry : PartialEntry) : Option (Bytes × PartialEntry) :=
  if key = utf8 "tier" then
    -- the tier is a byte, so only the low bits of the number are kept
    some ((parseJsonInt p).2, { entry with tier := UInt8.ofInt (parseJsonInt p).1 })
  else if key = utf8 "url" then
    if p.head? = some (byte '"') then
      some ((parseJsonString p).2, { entry with url := some (parseJsonString p).1 })
    else none
  else if p.head? = some (byte '"') then some ((parseJsonString p).2, entry)
  else some ((parseJsonInt p).2, entry)

def parseMember (p : Bytes) (entry : PartialEntry) : Option (Bytes × PartialEntry) :=
  match skipJsonWs p with
  | [] => none
  | b :: rest =>
    if b = byte '"' then
      let key := parseJsonString (b :: rest)
      match skipJsonWs key.2 with
      | [] => none
      | c :: q =>
        if c = byte ':' then
          (parseMemberValue key.1 (skipJsonWs q) entry).map fun r => (skipComma r.1, r.2)
        else none
    else none

def memberTurn : Bytes × PartialEntry → Option ((Bytes × PartialEntry) ⊕ (Bytes × PartialEntry))
  | ([], entry) => some (.inr ([], entry))
  | (b :: rest, entry) =>
    if b = byte '\x7d' then some (.inr (b :: rest, entry))
    else (parseMember (b :: rest) entry).map .inl

def parseMembers (p : Bytes) : Option (Bytes × PartialEntry) :=
  Loop.run memberTurn (fun s => s.1.length) (p, ⟨0, none⟩)

def entryTurn :
    Bytes × List AnnounceEntry → Option ((Bytes × List AnnounceEntry) ⊕ List AnnounceEntry)
  | ([], _) => none
  | (b :: rest, out) =>
    if b = byte ']' then some (.inr out)
    else if b = byte '\x7b' then
      match parseMembers (skipJsonWs rest) with
      | none => none
      | some (p, entry) =>
        match entry.url, p with
        | some url, c :: rest =>
          if c = byte '\x7d' then some (.inl (skipComma rest, out ++ [⟨entry.tier, url⟩]))
          else none
        | _, _ => none
    else none

def parseTrackersJson (json : Bytes) : Option (List AnnounceEntry) :=
  match skipJsonWs json with
  | [] => none
  | b :: p =>
    if b = byte '[' then Loop.run entryTurn (fun s => s.1.length) (skipJsonWs p, [])
    else none

/-! ### The loops end -/

lemma length_skipComma_le (p : Bytes) : (skipComma p).length ≤ p.length := by
  have hskip := length_skipJsonWs_le p
  rw [skipComma]
  split
  · exact Nat.zero_le _
  · next b rest hp =>
    rw [hp, length_cons] at hskip
    have hrest := length_skipJsonWs_le rest
    split_ifs
    · omega
    · exact hskip

lemma length_parseJsonString_le (p : Bytes) : (parseJsonString p).2.length ≤ p.length :=
  (length_parseStringLoop_le _ _).trans (by simp)

variable {p p' : Bytes} {entry : PartialEntry}

lemma length_parseMemberValue_le {key : Bytes} {entry' : PartialEntry}
    (h : parseMemberValue key p entry = some (p', entry')) : p'.length ≤ p.length := by
  unfold parseMemberValue at h
  split_ifs at h <;> cases h
  · exact length_parseJsonInt_le p
  · exact length_parseJsonString_le p
  · exact length_parseJsonString_le p
  · exact length_parseJsonInt_le p

lemma length_parseMember_lt {entry' : PartialEntry}
    (h : parseMember p entry = some (p', entry')) : p'.length < p.length := by
  have hskip := length_skipJsonWs_le p
  unfold parseMember at h
  split at h
  · cases h
  · next b rest hp =>
    split_ifs at h
    dsimp only at h
    split at h
    · cases h
    · next c q hq =>
      split_ifs at h
      obtain ⟨⟨p₁, entry₁⟩, hvalue, heq⟩ := Option.map_eq_some_iff.mp h
      cases heq
      have hkey : (parseJsonString (b :: rest)).2.length ≤ rest.length :=
        length_parseStringLoop_le _ _
      have hcolon := length_skipJsonWs_le (parseJsonString (b :: rest)).2
      have hws := length_skipJsonWs_le q
      have hle := length_parseMemberValue_le hvalue
      have hcomma := length_skipComma_le p₁
      rw [hq, length_cons] at hcolon
      rw [hp, length_cons] at hskip
      dsimp only
      omega

lemma shrinks_memberTurn : Loop.Shrinks memberTurn fun s => s.1.length := by
  rintro ⟨p, entry⟩ ⟨p', entry'⟩ h
  cases p with
  | nil => cases h
  | cons b rest =>
    rw [memberTurn] at h
    split_ifs at h
    · cases h
    · obtain ⟨r, hmember, heq⟩ := Option.map_eq_some_iff.mp h
      cases heq
      exact length_parseMember_lt hmember

lemma length_parseMembers_le (h : parseMembers p = some (p', entry)) : p'.length ≤ p.length := by
  refine Loop.post_of_run (fun s => s.1.length ≤ p.length)
    (fun r : Bytes × PartialEntry => r.1.length ≤ p.length) ?_ ?_ (Nat.le_refl _) h
  · intro s t hs hnext
    exact (shrinks_memberTurn s t hnext).le.trans hs
  · rintro ⟨q, entry⟩ r hs hdone
    cases q with
    | nil =>
      cases hdone
      exact hs
    | cons b rest =>
      rw [memberTurn] at hdone
      split_ifs at hdone
      · cases hdone
        exact hs
      · obtain ⟨r', -, heq⟩ := Option.map_eq_some_iff.mp hdone
        cases heq

lemma shrinks_entryTurn : Loop.Shrinks entryTurn fun s => s.1.length := by
  rintro ⟨p, out⟩ ⟨p', out'⟩ h
  cases p with
  | nil => cases h
  | cons b rest =>
    rw [entryTurn] at h
    split_ifs at h
    · cases h
    · split at h
      · cases h
      · next q entry hmembers =>
        have hws := length_skipJsonWs_le rest
        have hle := length_parseMembers_le hmembers
        split at h
        · next url c rest' hurl =>
          split_ifs at h
          cases h
          have hcomma := length_skipComma_le rest'
          rw [length_cons] at hle
          simp only [length_cons]
          omega
        · cases h

/-! ### The text on its way in -/

lemma parseMember_memberText (m : Bytes × Value) (p : Bytes) (entry : PartialEntry) :
    parseMember (memberText m ++ p) entry =
      (parseMemberValue m.1 (m.2.text ++ p) entry).map fun r => (skipComma r.1, r.2) := by
  have htext : memberText m ++ p =
      byte '"' :: (m.1.flatMap escapeByte ++ byte '"' :: byte ':' :: (m.2.text ++ p)) := by
    simp [memberText, strText]
  have hkey : parseJsonString (memberText m ++ p) = (m.1, byte ':' :: (m.2.text ++ p)) := by
    rw [memberText, append_assoc, parseJsonString_strText, cons_append]
  have hcolon : skipJsonWs (byte ':' :: (m.2.text ++ p)) = byte ':' :: (m.2.text ++ p) := rfl
  have hskip : skipJsonWs (memberText m ++ p) = memberText m ++ p := by
    rw [htext]
    rfl
  unfold parseMember
  rw [hskip, htext]
  dsimp only
  rw [← htext, if_pos rfl, hkey]
  rw [hcolon]
  dsimp only
  rw [if_pos rfl, skipJsonWs_value]

lemma ofInt_eq_of_bmod_eq {x y : ℤ} (h : x.bmod (2 ^ 32) = y.bmod (2 ^ 32)) :
    UInt8.ofInt x = UInt8.ofInt y := by
  have hword : x % ((2 ^ 32 : ℕ) : ℤ) = y % ((2 ^ 32 : ℕ) : ℤ) := by
    rw [← Int.bmod_emod, h, Int.bmod_emod]
  have hbyte : ∀ z : ℤ, z % ((2 ^ 32 : ℕ) : ℤ) % 2 ^ 8 = z % 2 ^ 8 := fun z =>
    Int.emod_emod_of_dvd z (by decide)
  rw [UInt8.ofInt, UInt8.ofInt, ← hbyte x, hword, hbyte]

lemma parseMember_tier (tier : ℤ) (hp : p.head? = some (byte '"')) (entry : PartialEntry) :
    parseMember (memberText (utf8 "tier", .int tier) ++ byte ',' :: p) entry =
      some (p, { entry with tier := UInt8.ofInt tier }) := by
  have hdigit : NoDigitHead (byte ',' :: p) := by
    intro b hb
    cases hb
    rfl
  have hcomma : skipComma (byte ',' :: p) = p := by
    cases p with
    | nil => rfl
    | cons b rest =>
      cases hp
      rfl
  obtain ⟨hrest, hval⟩ := parseJsonInt_intText tier hdigit
  rw [parseMember_memberText, parseMemberValue, if_pos rfl, Value.text, hrest,
    ofInt_eq_of_bmod_eq hval, map_some, hcomma]

lemma parseMember_url (url rest : Bytes) (entry : PartialEntry) :
    parseMember (memberText (utf8 "url", .str url) ++ byte '\x7d' :: rest) entry =
      some (byte '\x7d' :: rest, { entry with url := some url }) := by
  have hne : utf8 "url" ≠ utf8 "tier" := by decide
  have hquote : ((Value.str url).text ++ byte '\x7d' :: rest).head? = some (byte '"') := rfl
  rw [parseMember_memberText, parseMemberValue, if_neg hne, if_pos rfl, if_pos hquote, Value.text,
    parseJsonString_strText]
  rfl

lemma parseMembers_entry (tier : ℤ) (url rest : Bytes) :
    parseMembers (membersText [(utf8 "tier", .int tier), (utf8 "url", .str url)] ++ rest) =
      some (byte '\x7d' :: rest, ⟨UInt8.ofInt tier, some url⟩) := by
  have hnext : ∀ {p p' : Bytes} {entry entry' : PartialEntry},
      p.head? = some (byte '"') → parseMember p entry = some (p', entry') →
        memberTurn (p, entry) = some (.inl (p', entry')) := by
    intro p p' entry entry' hhead hmember
    cases p with
    | nil => cases hhead
    | cons b q =>
      cases hhead
      rw [memberTurn, if_neg (by decide), hmember]
      rfl
  have htext : membersText [(utf8 "tier", .int tier), (utf8 "url", .str url)] ++ rest =
      memberText (utf8 "tier", .int tier) ++ byte ',' ::
        (memberText (utf8 "url", .str url) ++ byte '\x7d' :: rest) := by
    simp [membersText]
  have hdone : memberTurn (byte '\x7d' :: rest, ⟨UInt8.ofInt tier, some url⟩) =
      some (.inr (byte '\x7d' :: rest, ⟨UInt8.ofInt tier, some url⟩)) := by
    rw [memberTurn, if_pos rfl]
  rw [parseMembers, htext,
    Loop.run_of_next shrinks_memberTurn (hnext rfl (parseMember_tier tier rfl ⟨0, none⟩)),
    Loop.run_of_next shrinks_memberTurn (hnext rfl (parseMember_url url rest _)),
    Loop.run_of_done hdone]

lemma entryTurn_entryJson (tier : ℤ) (url p : Bytes) (out : List AnnounceEntry) :
    entryTurn (entryJson tier url ++ p, out) =
      some (.inl (skipComma p, out ++ [⟨UInt8.ofInt tier, url⟩])) := by
  have hskip : skipJsonWs (membersText [(utf8 "tier", .int tier), (utf8 "url", .str url)] ++ p) =
      membersText [(utf8 "tier", .int tier), (utf8 "url", .str url)] ++ p := rfl
  rw [entryJson, cons_append, entryTurn, if_neg (by decide), if_pos rfl, hskip,
    parseMembers_entry]
  exact if_pos rfl

lemma parseTrackersJson_arrayText {α : Type*} (tier : α → ℤ) (url : α → Bytes) (entries : List α) :
    parseTrackersJson (arrayText (entries.map fun e => entryJson (tier e) (url e))) =
      some (entries.map fun e => ⟨UInt8.ofInt (tier e), url e⟩) := by
  let text := fun e => entryJson (tier e) (url e)
  let read := fun e => (⟨UInt8.ofInt (tier e), url e⟩ : AnnounceEntry)
  have hskip : ∀ l : List α,
      skipJsonWs (elementsText (l.map text)) = elementsText (l.map text) := by
    intro l
    cases l with
    | nil => rfl
    | cons e l => cases l <;> rfl
  -- the loop has read some entries into `out` and is at the first of the others
  have hloop : ∀ (l : List α) (out : List AnnounceEntry),
      Loop.run entryTurn (fun s => s.1.length) (elementsText (l.map text), out) =
        some (out ++ l.map read) := by
    intro l
    induction l with
    | nil =>
      intro out
      rw [map_nil, map_nil, append_nil, elementsText]
      exact Loop.run_of_done (by rw [entryTurn, if_pos rfl])
    | cons e l ih =>
      intro out
      have hout : out ++ (e :: l).map read = (out ++ [read e]) ++ l.map read := by simp
      have hturn := fun p => entryTurn_entryJson (tier e) (url e) p out
      rw [hout, ← ih]
      cases l with
      | nil => exact Loop.run_of_next shrinks_entryTurn (hturn [byte ']'])
      | cons e' l =>
        have hcomma : skipComma (byte ',' :: elementsText ((e' :: l).map text)) =
            elementsText ((e' :: l).map text) := hskip (e' :: l)
        have h := hturn (byte ',' :: elementsText ((e' :: l).map text))
        rw [hcomma] at h
        exact Loop.run_of_next shrinks_entryTurn h
  have hopen : skipJsonWs (arrayText (entries.map text)) =
      byte '[' :: elementsText (entries.map text) := rfl
  rw [parseTrackersJson, hopen]
  dsimp only
  rw [if_pos rfl, hskip, hloop, nil_append]

lemma parseTrackersJson_entriesText (entries : List TrackerEntry) :
    parseTrackersJson (entriesText entries) = some (entries.map TrackerEntry.announce) :=
  parseTrackersJson_arrayText TrackerEntry.tier (fun e => encode e.url) entries

/-! ### There and back -/

lemma ofInt_toNat (b : UInt8) : UInt8.ofInt b.toNat = b := by
  have hlt := b.toNat_lt
  rw [UInt8.ofInt, Int.emod_eq_of_lt (by omega) (by omega), Int.toNat_natCast, UInt8.ofNat_toNat]

/-- The text of any list of trackers, as the C string that is passed on, is read as the same
list. -/
theorem parseTrackersJson_trackersToJson (trackers : List AnnounceEntry) :
    parseTrackersJson (cStr (trackersToJson trackers)) = some trackers := by
  have hread := parseTrackersJson_arrayText (fun t : AnnounceEntry => t.tier.toNat)
    AnnounceEntry.url trackers
  rw [← trackersToJson_eq] at hread
  rw [cStr_of_notMem (zero_notMem_trackersToJson trackers), hread, Option.some.injEq]
  simp only [ofInt_toNat]
  exact List.map_id _

lemma announce_lossy (t : AnnounceEntry) : t.lossy.announce = ⟨t.tier, repair t.url⟩ := by
  rw [TrackerEntry.announce, AnnounceEntry.lossy, ofInt_toNat, repair]

lemma announce_lossy_of_isUtf8 {t : AnnounceEntry} (h : IsUtf8 t.url) : t.lossy.announce = t := by
  rw [announce_lossy, h]

lemma lossy_announce {e : TrackerEntry} (h : 0 ≤ e.tier ∧ e.tier < 256) : e.announce.lossy = e := by
  have htier : ((UInt8.ofInt e.tier).toNat : ℤ) = e.tier := by
    have hmod : e.tier % 2 ^ 8 = e.tier := Int.emod_eq_of_lt h.1 h.2
    rw [UInt8.ofInt, hmod, toNat_ofNat_of_lt (by omega)]
    omega
  rw [TrackerEntry.announce, AnnounceEntry.lossy, decodeLossy_encode, htier]

def readEntries (text : Bytes) : Option (List TrackerEntry) :=
  (parseTrackersJson text).map fun l => l.map AnnounceEntry.lossy

lemma readsBack_readEntries : ReadsBack readEntries := by
  intro entries h
  rw [readEntries, parseTrackersJson_entriesText, map_some, List.map_map]
  congr 1
  exact (map_congr_left fun e he => lossy_announce (h e he)).trans (List.map_id _)

end TorrentFs.Wrapper
