import TorrentFs.Config.Settings
import TorrentFs.Wrapper.SettingsPack

/-!
# From the configuration to the settings pack

The settings are written as JSON by one side and read by a hand-written scanner on the other.
The module determines what the scanner makes of the text, and for which configurations that is
what the text says: the scanner leaves the loop after a number with a fraction or an exponent,
and it cuts integers to 32 bits.
-/

namespace TorrentFs.Config

open Json Wrapper List Option

/-! ### What the scanner does with a member -/

def settingOf (m : Bytes × Value) : Option Setting :=
  match m.2 with
  | .str _ =>
    match lookup strSettings m.1 with
    | some t => some (.str t)
    | none => if m.1 = utf8 "proxy_type" then some (.int .proxyType) else none
  | .int _ => (lookup intSettings m.1).join.map .int
  | .bool _ => (lookup boolSettings m.1).join.map .bool
  | .float _ => (lookup intSettings m.1).join.map .int

/-- What the scanner takes a value for: a string for an integer setting is the kind of the proxy,
integers are cut to 32 bits, and of other numbers only the integer part is read. -/
def taken (i2p : Bool) : Value → Setting → Option PackValue
  | .str s, .str _ => some (.str s)
  | .str s, .int _ => (proxyTypeFromString i2p s).map .int
  | .int z, .int _ => some (.int (z.bmod (2 ^ 32)))
  | .bool b, .bool _ => some (.bool b)
  | .float f, .int _ => some (.int (f.integerPart.bmod (2 ^ 32)))
  | _, _ => none

def assigned (i2p : Bool) (m : Bytes × Value) : Option (Setting × PackValue) :=
  (settingOf m).bind fun s => (taken i2p m.2 s).map fun v => (s, v)

def applyMember (i2p : Bool) (pack : Pack) (m : Bytes × Value) : Pack :=
  match assigned i2p m with
  | some (s, v) => pack.set s v
  | none => pack

lemma applyStrSetting_eq (i2p : Bool) (pack : Pack) (k s : Bytes) :
    applyStrSetting i2p pack k s = applyMember i2p pack (k, .str s) := by
  rw [applyStrSetting, applyMember, assigned, settingOf]
  cases lookup strSettings k with
  | some t => rfl
  | none =>
    split_ifs
    · rw [bind_some, taken]
      cases proxyTypeFromString i2p s <;> rfl
    · rfl

lemma applyIntSetting_int (i2p : Bool) (pack : Pack) (k : Bytes) (z : ℤ) :
    applyIntSetting pack k (z.bmod (2 ^ 32)) = applyMember i2p pack (k, .int z) := by
  rw [applyIntSetting, applyMember, assigned, settingOf]
  cases (lookup intSettings k).join <;> rfl

lemma applyIntSetting_float (i2p : Bool) (pack : Pack) (k : Bytes) (f : Json.Float) :
    applyIntSetting pack k (f.integerPart.bmod (2 ^ 32)) = applyMember i2p pack (k, .float f) := by
  rw [applyIntSetting, applyMember, assigned, settingOf]
  cases (lookup intSettings k).join <;> rfl

lemma applyBoolSetting_eq (i2p : Bool) (pack : Pack) (k : Bytes) (b : Bool) :
    applyBoolSetting pack k b = applyMember i2p pack (k, .bool b) := by
  rw [applyBoolSetting, applyMember, assigned, settingOf]
  cases (lookup boolSettings k).join <;> rfl

variable {i2p : Bool} {m : Bytes × Value} {s : Setting} {v : PackValue} {p k : Bytes} {pack : Pack}
  {ms : List (Bytes × Value)} {build : Build} {c c' : TorrentfsConfig}

lemma assigned_eq_some :
    assigned i2p m = some (s, v) ↔ settingOf m = some s ∧ taken i2p m.2 s = some v := by
  simp [assigned, bind_eq_some_iff]

def leftover : Value → Bytes
  | .float f => f.tailText
  | _ => []

/-- The text goes on with a comma or the closing brace. -/
def Ends (p : Bytes) : Prop := ∃ rest, p = byte ',' :: rest ∨ p = byte '\x7d' :: rest

lemma Ends.noDigitHead (h : Ends p) : NoDigitHead p := by
  obtain ⟨rest, rfl | rfl⟩ := h <;> (intro b hb; cases hb; rfl)

lemma applyValue_number (i2p : Bool) (k p : Bytes) (pack : Pack)
    (h : startsNumber (p.headD 0) = true) : applyValue i2p k p pack =
      ((parseJsonInt p).2, applyIntSetting pack k ((parseJsonInt p).1.bmod (2 ^ 32))) := by
  obtain ⟨hquote, hbool, -⟩ := startsNumber_not_other h
  rw [applyValue]
  simp only [if_neg hquote, hbool, Bool.false_eq_true, if_false]
  exact if_pos h

lemma applyValue_text (i2p : Bool) (k : Bytes) (v : Value) (hp : Ends p) (pack : Pack) :
    applyValue i2p k (v.text ++ p) pack = (leftover v ++ p, applyMember i2p pack (k, v)) := by
  cases v with
  | str s =>
    have hquote : ((Value.str s).text ++ p).headD 0 = byte '"' := rfl
    rw [applyValue, if_pos hquote, Value.text, parseJsonString_strText, applyStrSetting_eq]
    rfl
  | int z =>
    obtain ⟨hrest, hval⟩ := parseJsonInt_intText z hp.noDigitHead
    rw [Value.text, applyValue_number _ _ _ _ (head_intText z p), hrest, hval,
      applyIntSetting_int i2p]
    rfl
  | float f =>
    obtain ⟨hrest, hval⟩ := parseJsonInt_float f p
    rw [Value.text, applyValue_number _ _ _ _ (head_float f p), hrest, hval,
      applyIntSetting_float i2p]
    rfl
  | bool b =>
    rw [← applyBoolSetting_eq]
    obtain ⟨rest, rfl | rfl⟩ := hp <;> cases b <;> rfl

lemma settingsStep_member (i2p : Bool) (m : Bytes × Value) (hp : Ends p) (pack : Pack) :
    settingsStep i2p (memberText m ++ p) pack =
      some (leftover m.2 ++ p, applyMember i2p pack m) := by
  have hkey : parseJsonString (memberText m ++ p) = (m.1, byte ':' :: (m.2.text ++ p)) := by
    rw [memberText, append_assoc, parseJsonString_strText, cons_append]
  rw [settingsStep_of_key (by rfl) hkey, skipJsonWs_value, applyValue_text i2p m.1 m.2 hp]

/-! ### What the scanner does with an object -/

def isFloat : Value → Bool
  | .float _ => true
  | _ => false

/-- The members the scanner gets to: those up to the first number with a fraction or an
exponent. -/
def reached : List (Bytes × Value) → List (Bytes × Value)
  | [] => []
  | m :: ms => m :: if isFloat m.2 then [] else reached ms

lemma scan_of_none (h : settingsStep i2p p pack = none) : scan i2p p pack = pack := by
  rw [scan_eq, h]
  split_ifs <;> rfl

lemma scan_of_some {p' : Bytes} {pack' : Pack}
    (h : settingsStep i2p p pack = some (p', pack')) : scan i2p p pack = scan i2p p' pack' := by
  have hp : p ≠ [] := by
    rintro rfl
    exact nomatch h
  rw [scan_eq, if_neg hp, h]

def restText : List (Bytes × Value) → Bytes
  | [] => [byte '\x7d']
  | m :: ms => byte ',' :: membersText (m :: ms)

lemma membersText_cons (m : Bytes × Value) (ms : List (Bytes × Value)) :
    membersText (m :: ms) = memberText m ++ restText ms := by
  cases ms <;> rfl

lemma ends_restText (ms : List (Bytes × Value)) : Ends (restText ms) := by
  cases ms with
  | nil => exact ⟨[], .inr rfl⟩
  | cons m ms => exact ⟨_, .inl rfl⟩

lemma scan_restText {g : Pack → Pack} (h : ∀ pack, scan i2p (membersText ms) pack = g pack) :
    scan i2p (restText ms) pack = g pack := by
  cases ms with
  | nil => exact h pack
  | cons m ms => exact (scan_of_some rfl).trans (h pack)

lemma scan_membersText (i2p : Bool) (ms : List (Bytes × Value)) (pack : Pack) :
    scan i2p (membersText ms) pack = (reached ms).foldl (applyMember i2p) pack := by
  induction ms generalizing pack with
  | nil => exact scan_of_none rfl
  | cons m ms ih =>
    rw [membersText_cons, scan_of_some (settingsStep_member i2p m (ends_restText ms) pack),
      reached, foldl_cons]
    cases hm : m.2 with
    | float f =>
      -- what is left of the number ends the loop
      obtain ⟨b, rest, htail, hb⟩ := f.tailText_eq_cons
      have hstop : settingsStep i2p (f.tailText ++ restText ms) (applyMember i2p pack m) =
          none := by
        rw [htail]
        rcases hb with rfl | rfl <;> rfl
      exact scan_of_none hstop
    | str | int | bool => exact scan_restText ih

lemma buildSettingsPack_objectText (i2p : Bool) (o : Object) :
    buildSettingsPack i2p (objectText o) =
      (reached o.members).foldl (applyMember i2p) fun _ => none := by
  rw [← scan_membersText]
  rfl

/-! ### The last member for a setting counts -/

lemma exists_assigned_of_foldl (h : ms.foldl (applyMember i2p) pack s = some v) :
    pack s = some v ∨ ∃ m ∈ ms, assigned i2p m = some (s, v) := by
  induction ms generalizing pack with
  | nil => exact .inl h
  | cons m ms ih =>
    rcases ih h with hpack | ⟨m', hm', hval⟩
    · rw [applyMember] at hpack
      cases hm : assigned i2p m with
      | none =>
        rw [hm] at hpack
        exact .inl hpack
      | some a =>
        rw [hm] at hpack
        by_cases hs : s = a.1
        · rw [hs] at hpack
          have hv : v = a.2 := by simpa [Pack.set] using hpack.symm
          exact .inr ⟨m, .head _, by rw [hm, hs, hv]⟩
        · exact .inl (by simpa [Pack.set, hs] using hpack)
    · exact .inr ⟨m', .tail _ hm', hval⟩

lemma foldl_ne_none (h : pack s ≠ none) : ms.foldl (applyMember i2p) pack s ≠ none := by
  induction ms generalizing pack with
  | nil => exact h
  | cons m ms ih =>
    apply ih
    rw [applyMember]
    cases assigned i2p m with
    | none => exact h
    | some a =>
      by_cases hs : s = a.1
      · simp [Pack.set, hs]
      · simpa [Pack.set, hs] using h

lemma foldl_ne_none_of_mem (hm : m ∈ ms)
    (h : assigned i2p m = some (s, v)) : ms.foldl (applyMember i2p) pack s ≠ none := by
  induction ms generalizing pack with
  | nil => cases hm
  | cons m' ms ih =>
    rcases List.mem_cons.mp hm with rfl | hm
    · rw [foldl_cons]
      apply foldl_ne_none
      simp [applyMember, h, Pack.set]
    · exact ih hm

/-! ### What the text says -/

/-- A value of a setting agrees with a value in the text. A string for an integer setting is the
name of a kind of proxy. -/
def Spells (i2p : Bool) : Value → Setting → PackValue → Prop
  | .str a, .str _, .str b => b = a
  | .str a, .int _, .int z => proxyTypeFromString i2p a = some z
  | .int z, .int _, .int n => n = z
  | .bool b, .bool _, .bool c => c = b
  | .float f, .int _, .int n => f.value = n
  | _, _, _ => False

def FitsI32 (z : ℤ) : Prop := -2 ^ 31 ≤ z ∧ z < 2 ^ 31

lemma bmod_of_fitsI32 {z : ℤ} (h : FitsI32 z) : z.bmod (2 ^ 32) = z :=
  Int.bmod_eq_of_le (by have := h.1; omega) (by have := h.2; omega)

lemma fitsI32_bmod (z : ℤ) : FitsI32 (z.bmod (2 ^ 32)) := by
  have hlow := Int.le_bmod (x := z) (m := 2 ^ 32) (by decide)
  have hhigh := Int.bmod_lt (x := z) (m := 2 ^ 32) (by decide)
  constructor <;> omega

/-- A value the wrapper can take as it is written: an integer of 32 bits, or a number that is
one. -/
def FitsSetting : Value → Prop
  | .int z => FitsI32 z
  | .float f => ∃ n : ℤ, FitsI32 n ∧ f.value = n
  | _ => True

lemma proxyTypeFromString_fits {val : Bytes} {z : ℤ}
    (h : proxyTypeFromString i2p val = some z) : FitsI32 z := by
  obtain ⟨entry, hfind, rfl⟩ := Option.map_eq_some_iff.mp h
  have hmem := mem_of_find?_eq_some hfind
  have hall : ∀ e ∈ [("none", (0 : ℤ)), ("socks4", 1), ("socks5", 2), ("socks5_pw", 3),
      ("http", 4), ("http_pw", 5)] ++ [("i2p_proxy", 6)], 0 ≤ e.2 ∧ e.2 < 7 := by decide
  have hrange : 0 ≤ entry.2 ∧ entry.2 < 7 := by
    apply hall
    cases i2p with
    | true => exact hmem
    | false => exact mem_append_left _ (by simpa using hmem)
  constructor <;> omega

lemma fitsI32_of_taken {v : Value} {z : ℤ} (h : taken i2p v s = some (.int z)) : FitsI32 z := by
  rw [taken.eq_def] at h
  split at h
  · cases h
  · obtain ⟨n, hn, hz⟩ := Option.map_eq_some_iff.mp h
    cases hz
    exact proxyTypeFromString_fits hn
  · cases h
    exact fitsI32_bmod _
  · cases h
  · cases h
    exact fitsI32_bmod _
  · cases h

lemma spells_of_taken {v : Value} {w : PackValue}
    (hfits : FitsSetting v) (h : taken i2p v s = some w) : Spells i2p v s w := by
  rw [taken.eq_def] at h
  split at h
  · cases h
    rfl
  · obtain ⟨n, hn, hw⟩ := Option.map_eq_some_iff.mp h
    cases hw
    exact hn
  · cases h
    exact bmod_of_fitsI32 hfits
  · cases h
    rfl
  · rename_i f _
    cases h
    obtain ⟨n, hn, hvalue⟩ := hfits
    have hsize : |n| < 10 ^ 16 := by
      have h₁ := hn.1
      have h₂ := hn.2
      rw [abs_lt]
      constructor <;> omega
    rw [Spells, Float.integerPart_of_value_eq hsize hvalue, bmod_of_fitsI32 hn]
    exact hvalue
  · cases h

lemma fitsSetting_of_spells {v : Value} {w : PackValue}
    (h : Spells i2p v s w) (hrange : ∀ z, w = .int z → FitsI32 z) : FitsSetting v := by
  rw [Spells.eq_def] at h
  split at h
  · trivial
  · trivial
  · cases h
    exact hrange _ rfl
  · trivial
  · exact ⟨_, hrange _ rfl, h⟩
  · exact h.elim

/-! ### Keys for the same setting -/

/-- The keys that share a setting with another key: the two limits of torrents announced to the
DHT, and the proxy address with its aliases. -/
def sharedKeys : List String :=
  ["active_dht_limit", "max_active_dht_limit", "proxy_hostname", "host", "proxy_port", "port"]

/-- Two entries of a table set different settings, or share one in a known way. -/
def Separate {α : Type} (ignored : α → Bool) (e e' : String × α) : Prop :=
  e.2 = e'.2 → ignored e.2 = true ∨ (e.1 ∈ sharedKeys ∧ e'.1 ∈ sharedKeys)

instance {α : Type} [DecidableEq α] (ignored : α → Bool) (e e' : String × α) :
    Decidable (Separate ignored e e') := inferInstanceAs (Decidable (_ → _))

instance {α : Type} (ignored : α → Bool) : Std.Symm (Separate ignored) where
  symm _ _ h heq := (h heq.symm).imp (heq ▸ ·) And.symm

lemma strSettings_separate : strSettings.Pairwise (Separate fun _ => false) := by decide +kernel

lemma intSettings_separate : intSettings.Pairwise (Separate Option.isNone) := by decide +kernel

lemma boolSettings_separate : boolSettings.Pairwise (Separate Option.isNone) := by decide +kernel

lemma proxyType_not_int : ∀ e ∈ intSettings, e.2 ≠ some .proxyType := by decide +kernel

/-- Two keys are equal, or both share a setting with another key. -/
def SameKey (k k' : Bytes) : Prop :=
  k = k' ∨ (k ∈ sharedKeys.map utf8 ∧ k' ∈ sharedKeys.map utf8)

lemma mem_of_lookup {α : Type} {table : List (String × α)} {x : α}
    (h : lookup table k = some x) : ∃ n, (n, x) ∈ table ∧ utf8 n = k := by
  obtain ⟨e, he, rfl⟩ := Option.map_eq_some_iff.mp h
  exact ⟨e.1, mem_of_find?_eq_some he, by simpa using find?_some he⟩

lemma sameKey_of_lookup {α : Type} {table : List (String × α)} {ignored : α → Bool} {x : α}
    (htable : table.Pairwise (Separate ignored)) (hx : ignored x = false) {k' : Bytes}
    (hk : lookup table k = some x) (hk' : lookup table k' = some x) : SameKey k k' := by
  obtain ⟨n, hn, rfl⟩ := mem_of_lookup hk
  obtain ⟨n', hn', rfl⟩ := mem_of_lookup hk'
  by_cases hsame : n = n'
  · exact .inl (by rw [hsame])
  · have hne : (n, x) ≠ (n', x) := fun h => hsame (congrArg Prod.fst h)
    rcases htable.forall hn hn' hne rfl with hignored | hshared
    · rw [hx] at hignored
      cases hignored
    · exact .inr ⟨List.mem_map_of_mem hshared.1, List.mem_map_of_mem hshared.2⟩

lemma lookup_of_join {α : Type} {table : List (String × Option α)} {x : α}
    (h : (lookup table k).join = some x) : lookup table k = some (some x) :=
  Option.join_eq_some_iff.mp h

lemma settingOf_eq_some (h : settingOf m = some s) :
    (∃ t, s = .str t ∧ lookup strSettings m.1 = some t) ∨
      (s = .int .proxyType ∧ m.1 = utf8 "proxy_type") ∨
      (∃ t, s = .int t ∧ lookup intSettings m.1 = some (some t)) ∨
      ∃ t, s = .bool t ∧ lookup boolSettings m.1 = some (some t) := by
  rw [settingOf] at h
  split at h
  · split at h
    · cases h
      exact .inl ⟨_, rfl, by assumption⟩
    · split_ifs at h with hkey
      cases h
      exact .inr (.inl ⟨rfl, hkey⟩)
  · obtain ⟨t, ht, rfl⟩ := Option.map_eq_some_iff.mp h
    exact .inr (.inr (.inl ⟨t, rfl, lookup_of_join ht⟩))
  · obtain ⟨t, ht, rfl⟩ := Option.map_eq_some_iff.mp h
    exact .inr (.inr (.inr ⟨t, rfl, lookup_of_join ht⟩))
  · obtain ⟨t, ht, rfl⟩ := Option.map_eq_some_iff.mp h
    exact .inr (.inr (.inl ⟨t, rfl, lookup_of_join ht⟩))

lemma proxyType_not_lookup : lookup intSettings k ≠ some (some .proxyType) := by
  intro h
  obtain ⟨n, hn, -⟩ := mem_of_lookup h
  exact proxyType_not_int _ hn rfl

lemma sameKey_of_settingOf {m' : Bytes × Value} (h : settingOf m = some s)
    (h' : settingOf m' = some s) : SameKey m.1 m'.1 := by
  rcases settingOf_eq_some h with ⟨t, rfl, hk⟩ | ⟨rfl, hk⟩ | ⟨t, rfl, hk⟩ | ⟨t, rfl, hk⟩ <;>
    rcases settingOf_eq_some h' with ⟨t', ht, hk'⟩ | ⟨ht, hk'⟩ | ⟨t', ht, hk'⟩ | ⟨t', ht, hk'⟩ <;>
    cases ht
  · exact sameKey_of_lookup strSettings_separate rfl hk hk'
  · exact .inl (hk.trans hk'.symm)
  · exact absurd hk' proxyType_not_lookup
  · exact absurd hk proxyType_not_lookup
  · exact sameKey_of_lookup intSettings_separate rfl hk hk'
  · exact sameKey_of_lookup boolSettings_separate rfl hk hk'

/-! ### What the configuration writes -/

/-- Only two ratios are floats, and a proxy type is a known one. -/
structure Emitted (i2p : Bool) (m : Bytes × Value) : Prop where
  floatKey : isFloat m.2 = true →
    m.1 = utf8 "share_ratio_limit" ∨ m.1 = utf8 "seed_time_ratio_limit"
  proxyKind : ∀ s, m.2 = .str s → m.1 = utf8 "proxy_type" → proxyTypeFromString i2p s ≠ none

def AllEmitted (i2p : Bool) (fields : List Field) : Prop :=
  ∀ field ∈ fields, ∀ v, field.2 = some v → Emitted i2p (utf8 field.1, v)

section AllEmitted

variable {i2p : Bool} {fields fields' : List Field} {name : String}

lemma allEmitted_nil : AllEmitted i2p [] := fun _ h => (nomatch h)

lemma AllEmitted.append (h : AllEmitted i2p fields) (h' : AllEmitted i2p fields') :
    AllEmitted i2p (fields ++ fields') := List.forall_mem_append.mpr ⟨h, h'⟩

lemma AllEmitted.int {val : Option ℤ} (h : AllEmitted i2p fields) :
    AllEmitted i2p (intField name val :: fields) := by
  refine List.forall_mem_cons.mpr ⟨fun v hv => ?_, h⟩
  obtain ⟨z, -, rfl⟩ := Option.map_eq_some_iff.mp hv
  exact ⟨fun hf => (nomatch hf), fun s hs => (nomatch hs)⟩

lemma AllEmitted.bool {val : Option Bool} (h : AllEmitted i2p fields) :
    AllEmitted i2p (boolField name val :: fields) := by
  refine List.forall_mem_cons.mpr ⟨fun v hv => ?_, h⟩
  obtain ⟨b, -, rfl⟩ := Option.map_eq_some_iff.mp hv
  exact ⟨fun hf => (nomatch hf), fun s hs => (nomatch hs)⟩

lemma AllEmitted.float {val : Option F64}
    (hkey : utf8 name = utf8 "share_ratio_limit" ∨ utf8 name = utf8 "seed_time_ratio_limit")
    (h : AllEmitted i2p fields) : AllEmitted i2p (floatField name val :: fields) := by
  refine List.forall_mem_cons.mpr ⟨fun v hv => ?_, h⟩
  obtain ⟨x, -, rfl⟩ := Option.map_eq_some_iff.mp hv
  cases x with
  | finite | nonFinite => exact ⟨fun _ => hkey, fun s hs => (nomatch hs)⟩

lemma AllEmitted.str {val : Option Bytes} (hproxy : utf8 name = utf8 "proxy_type" →
      ∀ s, val = some s → proxyTypeFromString i2p s ≠ none)
    (h : AllEmitted i2p fields) : AllEmitted i2p (strField name val :: fields) := by
  refine List.forall_mem_cons.mpr ⟨fun v hv => ?_, h⟩
  obtain ⟨s, hs, hval⟩ := Option.bind_eq_some_iff.mp hv
  split_ifs at hval
  cases hval
  refine ⟨fun hf => (nomatch hf), fun t ht hkey => ?_⟩
  cases ht
  exact hproxy hkey s hs

end AllEmitted

lemma proxyTypeFromString_ne_none {val : Bytes} (hlegal : val ∈ legalProxyTypes.map utf8)
    (hi2p : ¬(val = utf8 "i2p_proxy" ∧ build.i2pEnabled = false)) :
    proxyTypeFromString build.i2pEnabled val ≠ none := by
  cases hbuild : build.i2pEnabled with
  | true =>
    have hall : ∀ val ∈ legalProxyTypes.map utf8, proxyTypeFromString true val ≠ none := by
      decide
    exact hall val hlegal
  | false =>
    have hall : ∀ val ∈ legalProxyTypes.map utf8, val = utf8 "i2p_proxy" ∨
        proxyTypeFromString false val ≠ none := by decide
    exact (hall val hlegal).resolve_left fun h => hi2p ⟨h, hbuild⟩

lemma allEmitted_fields (h : c.fromFile build = .ok c') : AllEmitted build.i2pEnabled c.fields := by
  have hproxy : ∀ s, c.proxy.proxyType = some s → proxyTypeFromString build.i2pEnabled s ≠ none :=
    fun s hs => by
      obtain ⟨hlegal, hi2p⟩ := proxyType_of_fromFile h hs
      exact proxyTypeFromString_ne_none hlegal hi2p
  unfold TorrentfsConfig.fields
  repeat' with_reducible apply AllEmitted.append
  all_goals first
    | unfold ConnectionsConfig.fields | unfold DhtConfig.fields | unfold LocalDiscoveryConfig.fields
    | unfold RateLimitsConfig.fields | unfold DiskIoConfig.fields | unfold CacheConfig.fields
    | unfold PiecesConfig.fields | unfold TimeoutsConfig.fields | unfold TrackerConfig.fields
    | unfold AlgorithmsConfig.fields | unfold ActiveLimitsConfig.fields
    | unfold AutoManageConfig.fields
    | unfold EncryptionConfig.fields | unfold ProxyConfig.fields | unfold UserAgentConfig.fields
    | unfold AlertConfig.fields | unfold PerformanceConfig.fields | unfold MiscConfig.fields
  -- one step for each field; only the kind of the proxy needs the checks
  all_goals repeat first
    | with_reducible exact allEmitted_nil
    | with_reducible apply AllEmitted.int
    | with_reducible apply AllEmitted.bool
    | with_reducible apply AllEmitted.float (by decide)
    | with_reducible apply AllEmitted.str fun _ => hproxy
    | with_reducible apply AllEmitted.str fun hkey => absurd hkey (by decide)

lemma emitted_of_mem (h : c.fromFile build = .ok c')
    (hm : m ∈ c.settings.members) : Emitted build.i2pEnabled m := by
  rcases mem_writeJson hm with hempty | ⟨field, hfield, hval, hkey⟩
  · cases hempty
  · have hemitted := allEmitted_fields h field hfield m.2 hval
    rw [← hkey] at hemitted
    exact hemitted

lemma eq_of_key_eq {o : Object} {m' : Bytes × Value} (hm : m ∈ o.members)
    (hm' : m' ∈ o.members) (h : m.1 = m'.1) : m = m' := by
  by_contra hne
  have hsymm : Std.Symm fun x y : Bytes × Value => x.1 ≠ y.1 := ⟨fun _ _ => Ne.symm⟩
  have hpair : o.members.Pairwise fun x y => x.1 ≠ y.1 := by
    apply o.sorted.imp
    intro x y hlt heq
    rw [heq] at hlt
    exact keyLt_irrefl _ hlt
  exact hpair.forall hm hm' hne h

/-! ### The members the scanner reaches -/

lemma mem_reached_iff (hsorted : ms.Pairwise fun x y => keyLt x.1 y.1) :
    m ∈ reached ms ↔ m ∈ ms ∧ ∀ x ∈ ms, isFloat x.2 = true → ¬ keyLt x.1 m.1 := by
  induction ms with
  | nil => simp [reached]
  | cons y ys ih =>
    obtain ⟨hy, hys⟩ := List.pairwise_cons.mp hsorted
    rw [reached, mem_cons, mem_cons, forall_mem_cons]
    constructor
    · rintro (rfl | hm)
      · refine ⟨.inl rfl, fun _ => keyLt_irrefl _, fun x hx _ hlt => ?_⟩
        exact keyLt_irrefl _ (keyLt_trans hlt (hy x hx))
      · split_ifs at hm with hfloat
        · cases hm
        · obtain ⟨hmem, hall⟩ := (ih hys).mp hm
          exact ⟨.inr hmem, fun h => absurd h hfloat, hall⟩
    · rintro ⟨rfl | hm, hhead, hall⟩
      · exact .inl rfl
      · have hfloat : ¬ isFloat y.2 = true := fun h => hhead h (hy m hm)
        rw [if_neg hfloat]
        exact .inr ((ih hys).mpr ⟨hm, hall⟩)

/-! ### From the configuration file to the pack -/

def cString (text : Bytes) : Bytes := if 0 ∈ text then [] else text

def appliedPack (build : Build) (c : TorrentfsConfig) : Pack :=
  buildSettingsPack build.i2pEnabled (cString c.toSettingsJson)

/-- Every member the wrapper knows is applied as written, and nothing else is set. -/
def AppliesSettings (build : Build) (c : TorrentfsConfig) : Prop :=
  (∀ m ∈ c.settings.members, ∀ s, settingOf m = some s →
    ∃ v, appliedPack build c s = some v ∧ Spells build.i2pEnabled m.2 s v) ∧
  ∀ s v, appliedPack build c s = some v → ∃ m ∈ c.settings.members, settingOf m = some s

/-- The configurations that survive the way to the pack: what is written for a setting fits it,
no setting is written after a number with a fraction or an exponent, and no setting is written
twice with different values. -/
structure Representable (c : TorrentfsConfig) : Prop where
  fits : ∀ m ∈ c.settings.members, settingOf m ≠ none → FitsSetting m.2
  floatLast : ∀ x ∈ c.settings.members, isFloat x.2 = true →
    ∀ m ∈ c.settings.members, settingOf m ≠ none → ¬ keyLt x.1 m.1
  agree : ∀ m ∈ c.settings.members, ∀ m' ∈ c.settings.members, settingOf m ≠ none →
    settingOf m = settingOf m' → m.2 = m'.2

lemma appliedPack_eq (build : Build) (c : TorrentfsConfig) : appliedPack build c =
      (reached c.settings.members).foldl (applyMember build.i2pEnabled) fun _ => none := by
  rw [appliedPack, TorrentfsConfig.toSettingsJson, cString, if_neg (zero_notMem_objectText _),
    buildSettingsPack_objectText]

lemma exists_reached (h : appliedPack build c s = some v) :
    ∃ m ∈ reached c.settings.members, settingOf m = some s ∧
      taken build.i2pEnabled m.2 s = some v := by
  rw [appliedPack_eq] at h
  rcases exists_assigned_of_foldl h with hnone | ⟨m, hm, hassigned⟩
  · cases hnone
  · exact ⟨m, hm, assigned_eq_some.mp hassigned⟩

lemma exists_taken (he : Emitted i2p m)
    (hs : settingOf m = some s) : ∃ v, taken i2p m.2 s = some v := by
  rw [settingOf] at hs
  cases hm : m.2 with
  | str a =>
    rw [hm] at hs
    dsimp only at hs
    split at hs
    · cases hs
      exact ⟨_, rfl⟩
    · split_ifs at hs with hkey
      cases hs
      obtain ⟨z, hz⟩ := Option.ne_none_iff_exists'.mp (he.proxyKind a hm hkey)
      exact ⟨.int z, by rw [taken, hz]; rfl⟩
  | int | bool | float =>
    rw [hm] at hs
    obtain ⟨t, -, rfl⟩ := Option.map_eq_some_iff.mp hs
    exact ⟨_, rfl⟩

lemma appliesSettings_of_representable
    (h : c.fromFile build = .ok c') (hc : Representable c) : AppliesSettings build c := by
  constructor
  · intro m hm s hs
    have hne : settingOf m ≠ none := by simp [hs]
    have hreached : m ∈ reached c.settings.members :=
      (mem_reached_iff c.settings.sorted).mpr
        ⟨hm, fun x hx hfloat => hc.floatLast x hx hfloat m hm hne⟩
    obtain ⟨w, hw⟩ := exists_taken (emitted_of_mem h hm) hs
    have hset : appliedPack build c s ≠ none := by
      rw [appliedPack_eq]
      exact foldl_ne_none_of_mem hreached (assigned_eq_some.mpr ⟨hs, hw⟩)
    obtain ⟨v, hv⟩ := Option.ne_none_iff_exists'.mp hset
    refine ⟨v, hv, ?_⟩
    -- the last member for the setting agrees with this one
    obtain ⟨m', hm', hs', htaken⟩ := exists_reached hv
    have hmem' := ((mem_reached_iff c.settings.sorted).mp hm').1
    rw [← hc.agree m hm m' hmem' hne (hs.trans hs'.symm)] at htaken
    exact spells_of_taken (hc.fits m hm hne) htaken
  · intro s v hv
    obtain ⟨m, hm, hs, -⟩ := exists_reached hv
    exact ⟨m, ((mem_reached_iff c.settings.sorted).mp hm).1, hs⟩

lemma sharedKeys_facts : ∀ k ∈ sharedKeys.map utf8, k ≠ utf8 "proxy_type" ∧
    ∀ r ∈ [utf8 "share_ratio_limit", utf8 "seed_time_ratio_limit"], k ≠ r ∧ ¬ keyLt r k := by
  decide +kernel

def writtenValue : PackValue → Value
  | .str b => .str b
  | .int n => .int n
  | .bool c => .bool c

lemma eq_writtenValue
    (he : Emitted i2p m) (hs : settingOf m = some s) (hk : m.1 ∈ sharedKeys.map utf8)
    (h : Spells i2p m.2 s v) : m.2 = writtenValue v := by
  obtain ⟨hproxy, hratio⟩ := sharedKeys_facts m.1 hk
  rw [Spells.eq_def] at h
  split at h
  · rename_i a _ b hm
    rw [hm, h]
    rfl
  · -- only the kind of the proxy is a string for an integer setting
    rename_i a t z hm
    rw [settingOf, hm] at hs
    dsimp only at hs
    split at hs
    · cases hs
    · split_ifs at hs with hkey
      exact absurd hkey hproxy
  · rename_i z _ n hm
    rw [hm, h]
    rfl
  · rename_i b _ c hm
    rw [hm, h]
    rfl
  · rename_i f _ n hm
    rcases he.floatKey (by rw [hm]; rfl) with hkey | hkey
    · exact absurd hkey (hratio _ (.head _)).1
    · exact absurd hkey (hratio _ (.tail _ (.head _))).1
  · exact h.elim

lemma representable_of_appliesSettings
    (h : c.fromFile build = .ok c') (hc : AppliesSettings build c) : Representable c := by
  obtain ⟨happlied, -⟩ := hc
  refine ⟨fun m hm hne => ?_, fun x hx hfloat m hm hne hlt => ?_, fun m hm m' hm' hne heq => ?_⟩
  · obtain ⟨s, hs⟩ := Option.ne_none_iff_exists'.mp hne
    obtain ⟨v, hv, hspells⟩ := happlied m hm s hs
    refine fitsSetting_of_spells hspells fun z hz => ?_
    obtain ⟨m', -, -, htaken⟩ := exists_reached hv
    rw [hz] at htaken
    exact fitsI32_of_taken htaken
  · -- what is in the pack for the setting of `m` comes from a member before `x`
    obtain ⟨s, hs⟩ := Option.ne_none_iff_exists'.mp hne
    obtain ⟨v, hv, -⟩ := happlied m hm s hs
    obtain ⟨m', hm', hs', -⟩ := exists_reached hv
    obtain ⟨hmem', hbefore⟩ := (mem_reached_iff c.settings.sorted).mp hm'
    rcases sameKey_of_settingOf hs hs' with hkey | ⟨hshared, -⟩
    · exact hbefore x hx hfloat (hkey ▸ hlt)
    · obtain ⟨-, hratio⟩ := sharedKeys_facts m.1 hshared
      rcases (emitted_of_mem h hx).floatKey hfloat with hx' | hx'
      · exact (hratio _ (.head _)).2 (hx' ▸ hlt)
      · exact (hratio _ (.tail _ (.head _))).2 (hx' ▸ hlt)
  · obtain ⟨s, hs⟩ := Option.ne_none_iff_exists'.mp hne
    have hs' : settingOf m' = some s := heq.symm.trans hs
    rcases sameKey_of_settingOf hs hs' with hkey | ⟨hk, hk'⟩
    · rw [eq_of_key_eq hm hm' hkey]
    · obtain ⟨v, hv, hspells⟩ := happlied m hm s hs
      obtain ⟨v', hv', hspells'⟩ := happlied m' hm' s hs'
      cases hv.symm.trans hv'
      rw [eq_writtenValue (emitted_of_mem h hm) hs hk hspells,
        eq_writtenValue (emitted_of_mem h hm') hs' hk' hspells']

/-- A configuration that is accepted reaches the session as written exactly when it is
representable. -/
theorem appliesSettings_iff {build : Build} {c c' : TorrentfsConfig}
    (h : c.fromFile build = .ok c') : AppliesSettings build c ↔ Representable c :=
  ⟨representable_of_appliesSettings h, appliesSettings_of_representable h⟩

def plainBuild : Build := ⟨true, fun _ => ""⟩

def plainConfig : TorrentfsConfig where
  connections := { listenInterfaces := some (utf8 "\"eth0\"\n") }
  dht := { enabled := some true }
  rateLimits := { uploadRateLimit := some 5 }
  proxy := { proxyType := some (utf8 "socks5") }

lemma representable_plainConfig : Representable plainConfig := by
  have hmembers : plainConfig.settings.members = [(utf8 "enable_dht", .bool true),
      (utf8 "listen_interfaces", .str (utf8 "\"eth0\"\n")),
      (utf8 "proxy_type", .str (utf8 "socks5")), (utf8 "upload_rate_limit", .int 5)] := rfl
  have hsettings : (plainConfig.settings.members.map settingOf).Nodup := by
    rw [hmembers]
    decide +kernel
  refine ⟨fun m hm _ => ?_, fun x hx hfloat => ?_, fun m hm m' hm' _ heq => ?_⟩
  · rw [hmembers] at hm
    simp only [mem_cons, not_mem_nil, or_false] at hm
    rcases hm with rfl | rfl | rfl | rfl
    · trivial
    · trivial
    · trivial
    · constructor <;> decide
  · rw [hmembers] at hx
    simp only [mem_cons, not_mem_nil, or_false] at hx
    rcases hx with rfl | rfl | rfl | rfl <;> cases hfloat
  · rw [inj_on_of_nodup_map hsettings hm hm' heq]

theorem appliesSettings_plainConfig :
    plainConfig.fromFile plainBuild = .ok plainConfig ∧ AppliesSettings plainBuild plainConfig :=
  ⟨rfl, (appliesSettings_iff rfl).mpr representable_plainConfig⟩

def twoPointZero : Json.Float where
  negative := false
  whole := 2
  fraction := [0]
  exponent := none
  hasTail := .inl (by decide)
  magnitude h := absurd rfl h

def ratioConfig : TorrentfsConfig where
  autoManage := { seedTimeRatioLimit := some (.finite twoPointZero) }
  rateLimits := { uploadRateLimit := some 5 }

/-- A ratio ends the scan: the upload limit of the same configuration is not applied. -/
theorem uploadRateLimit_dropped_after_ratio : ratioConfig.fromFile plainBuild = .ok ratioConfig ∧
      (utf8 "upload_rate_limit", Value.int 5) ∈ ratioConfig.settings.members ∧
      settingOf (utf8 "upload_rate_limit", .int 5) = some (.int .uploadRateLimit) ∧
      appliedPack plainBuild ratioConfig (.int .uploadRateLimit) = none := by
  have hmembers : ratioConfig.settings.members =
      [(utf8 "seed_time_ratio_limit", .float twoPointZero),
        (utf8 "upload_rate_limit", .int 5)] := rfl
  refine ⟨rfl, ?_, by decide +kernel, ?_⟩
  · rw [hmembers]
    exact .tail _ (.head _)
  · rw [appliedPack_eq, hmembers]
    decide +kernel

end TorrentFs.Config
