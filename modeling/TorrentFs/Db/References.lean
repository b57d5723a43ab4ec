import TorrentFs.Db.Torrents
import TorrentFs.Lib.Run

/-!
# References between sources and contents

Every transaction on contents and sources is an update of the map from names to contents. From this
follow, over every sequence of transactions: no content is left without a source, no two contents
have the same bytes, and the info hash that an overwrite, a removal or an overwriting move reports
for purging is one that a source referred to before and none refers to after.
-/

namespace TorrentFs.Db

open Text Sql Option Function AutoTable

namespace TorrentTables

/-- Every content is held by some name, except perhaps the one with the given id. -/
def UsedBut (t : TorrentTables) (contentId : ℕ) : Prop :=
  ∀ c ∈ t.contents, c.id ≠ contentId → ∃ name, t.holdings name = some c

/-- The bytes of each content are stored with their hash, and are its own. -/
structure Stored (contentHashOf : List UInt8 → Str) (t : TorrentTables) : Prop where
  hashed : ∀ c ∈ t.contents, ∃ bytes, c.torrentData = some bytes ∧
    c.contentHash = contentHashOf bytes
  distinct : ∀ c ∈ t.contents, ∀ c' ∈ t.contents, c.torrentData = c'.torrentData → c = c'

/-- Every content is held by some name, and has bytes of its own. -/
structure Sound (contentHashOf : List UInt8 → Str) (t : TorrentTables) : Prop where
  used : ∀ c ∈ t.contents, ∃ name, t.holdings name = some c
  stored : t.Stored contentHashOf

/-- A source of `t` refers to the info hash, and none of `t'` does. -/
def Released (t t' : TorrentTables) (infoHash : Str) : Prop :=
  t.Referenced infoHash ∧ ¬ t'.Referenced infoHash

section Lemmas

variable {contentHashOf : List UInt8 → Str} {t t' : TorrentTables} {s : TorrentSource}
  {c : Content}

lemma Stored.mono (h : t.Stored contentHashOf) (hsub : ∀ c ∈ t'.contents, c ∈ t.contents) :
    t'.Stored contentHashOf where
  hashed := fun c hc => h.hashed c (hsub c hc)
  distinct := fun c hc c' hc' => h.distinct c (hsub c hc) c' (hsub c' hc')

lemma UsedBut.dropUnreferenced {contentId : ℕ} (h : t.UsedBut contentId) :
    ∀ c ∈ (t.dropUnreferenced contentId).contents,
      ∃ name, (t.dropUnreferenced contentId).holdings name = some c := by
  rw [holdings_dropUnreferenced]
  intro c hc
  by_cases hid : c.id = contentId
  · -- the content is still there, so some source refers to it
    have hcount : t.refCount contentId ≠ 0 := by
      intro hzero
      rw [TorrentTables.dropUnreferenced, if_pos hzero] at hc
      have hne := (AutoTable.mem_filter.mp hc).2
      simp [hid] at hne
    obtain ⟨s, hs, href⟩ : ∃ s ∈ t.sources, s.torrentId = contentId := by
      by_contra hnone
      exact hcount (refCount_eq_zero.mpr fun s hs href => hnone ⟨s, hs, href⟩)
    exact ⟨s.location,
      holdings_of_mem hs (mem_of_mem_dropUnreferenced hc) (hid.trans href.symm)⟩
  · exact h c (mem_of_mem_dropUnreferenced hc) hid

lemma Sound.deleteRows (h : t.Sound contentHashOf) (sourceId : ℕ) :
    (t.deleteRows sourceId).Sound contentHashOf := by
  cases hget : t.sources.get? sourceId with
  | none =>
    have habsent : ∀ r ∈ t.sources, r.id ≠ sourceId := AutoTable.get?_eq_none.mp hget
    refine ⟨fun c hc => ?_, h.stored.mono fun c hc => mem_of_mem_deleteRows hc⟩
    rw [holdings_deleteRows_of_absent habsent]
    exact h.used c (mem_of_mem_deleteRows hc)
  | some s =>
    obtain ⟨hs, rfl⟩ := AutoTable.get?_eq_some.mp hget
    have hbut : (t.deleteSource s.id).UsedBut s.torrentId := by
      intro c hc hid
      obtain ⟨name, hname⟩ := h.used c hc
      refine ⟨name, ?_⟩
      rw [holdings_deleteSource hs, update_of_ne, hname]
      rintro rfl
      obtain ⟨c', -, hcid', -, hholds⟩ := exists_joined hs
      rw [hname, Option.some.injEq] at hholds
      exact hid (hholds ▸ hcid')
    refine ⟨?_, h.stored.mono fun c hc => mem_of_mem_deleteRows hc⟩
    rw [deleteRows_of_mem hs]
    exact hbut.dropUnreferenced

variable {filename sourcePath infoHash : Str} {name : Str × Str} {new : NewTorrent}
  {fault : Option SqlError}

lemma held_of_setSourceName {sourceId : ℕ}
    (h : t.setSourceName sourceId filename sourcePath = .ok t')
    (hname : t.holdings name = some c) : ∃ name', t'.holdings name' = some c := by
  cases hget : t.sources.get? sourceId with
  | none =>
    refine ⟨name, ?_⟩
    rw [holdings_setSourceName_of_absent (AutoTable.get?_eq_none.mp hget) h, hname]
  | some s =>
    obtain ⟨hs, rfl⟩ := AutoTable.get?_eq_some.mp hget
    by_cases hold : name = s.location
    · subst hold
      refine ⟨(sourcePath, filename), ?_⟩
      rw [holdings_setSourceName hs h, update_self, hname]
    · -- the new name was free, or the update would have failed
      refine ⟨name, ?_⟩
      rw [holdings_setSourceName hs h, update_of_ne, update_of_ne hold, hname]
      rintro rfl
      rw [free_of_setSourceName hs h hold] at hname
      cases hname

lemma Sound.setSourceName {sourceId : ℕ} (hsound : t.Sound contentHashOf)
    (h : t.setSourceName sourceId filename sourcePath = .ok t') : t'.Sound contentHashOf := by
  have hcontents := (setSourceName_eq_ok h).1
  refine ⟨fun c hc => ?_, hsound.stored.mono fun c hc => hcontents ▸ hc⟩
  obtain ⟨name, hname⟩ := hsound.used c (hcontents ▸ hc)
  exact held_of_setSourceName h hname

lemma findOrCreateContent_eq_ok {bytes : List UInt8} {contentId : ℕ}
    {created : Bool} (hsound : t.Sound contentHashOf) (hdata : new.data = some bytes)
    (h : t.findOrCreateContent contentHashOf new = .ok (t', contentId, created)) :
    t'.holdings = t.holdings ∧ t'.sources = t.sources ∧ t'.Stored contentHashOf ∧
      t'.UsedBut contentId ∧ ∃ c ∈ t'.contents, c.id = contentId ∧ c.torrentData = some bytes := by
  unfold findOrCreateContent at h
  split at h
  · next id hexisting =>
    obtain ⟨rfl, rfl, -⟩ : t = t' ∧ id = contentId ∧ _ := by simpa using h
    refine ⟨rfl, rfl, hsound.stored, fun c hc _ => hsound.used c hc, ?_⟩
    simp only [existingContent, hdata] at hexisting
    obtain ⟨c, hfind, hid⟩ := Option.map_eq_some_iff.mp hexisting
    have hmatch := List.find?_some hfind
    simp only [Bool.and_eq_true, beq_iff_eq] at hmatch
    exact ⟨c, List.mem_of_find?_eq_some hfind, hid, hmatch.2⟩
  · next hmissing =>
    -- no content has these bytes, so the new one keeps the bytes distinct
    have hnew : ∀ c ∈ t.contents, c.torrentData ≠ some bytes := by
      intro c hc hbytes
      obtain ⟨bytes', hbytes', hhash⟩ := hsound.stored.hashed c hc
      obtain rfl : bytes' = bytes := Option.some.inj (hbytes'.symm.trans hbytes)
      simp only [existingContent, hdata, map_eq_none_iff] at hmissing
      have := List.find?_eq_none.mp hmissing c hc
      simp_all
    split at h
    · cases h
    · next t₁ id hinsert =>
      obtain ⟨rfl, rfl, -⟩ : t₁ = t' ∧ id = contentId ∧ _ := by simpa using h
      obtain ⟨hholdings, hsources, hmem⟩ := holdings_insertContent hinsert
      refine ⟨hholdings, hsources, ⟨fun c hc => ?_, fun c hc c' hc' heq => ?_⟩,
        fun c hc hne => ?_, _, (hmem _).mpr (.inr rfl), rfl, hdata⟩
      · rcases (hmem c).mp hc with hc | rfl
        · exact hsound.stored.hashed c hc
        · exact ⟨bytes, hdata, by simp [hdata]⟩
      · rcases (hmem c).mp hc with hc | rfl <;> rcases (hmem c').mp hc' with hc' | rfl
        · exact hsound.stored.distinct c hc c' hc' heq
        · exact absurd (heq.trans hdata) (hnew c hc)
        · exact absurd (heq.symm.trans hdata) (hnew c' hc')
        · rfl
      · rcases (hmem c).mp hc with hc | rfl
        · rw [hholdings]
          exact hsound.used c hc
        · exact absurd rfl hne

/-! ### Released info hashes -/

lemma released_iff (hname : t.holdings name = some c)
    (hkept : ∀ n c', n ≠ name → t.holdings n = some c' → ∃ n', t'.holdings n' = some c') :
    Released t t' infoHash ↔ ¬ t'.Referenced c.infoHash ∧ c.infoHash = infoHash := by
  constructor
  · rintro ⟨hbefore, hafter⟩
    obtain ⟨n, c', hn, rfl⟩ := referenced_iff.mp hbefore
    have heq : n = name := by
      by_contra hne
      obtain ⟨n', hn'⟩ := hkept n c' hne hn
      exact hafter (referenced_iff.mpr ⟨n', c', hn', rfl⟩)
    subst heq
    obtain rfl : c' = c := Option.some.inj (hn.symm.trans hname)
    exact ⟨hafter, rfl⟩
  · rintro ⟨hafter, rfl⟩
    exact ⟨referenced_iff.mpr ⟨name, c, hname, rfl⟩, hafter⟩

lemma not_released (hkept : ∀ n c', t.holdings n = some c' → ∃ n', t'.holdings n' = some c') :
    ¬ Released t t' infoHash := by
  rintro ⟨hbefore, hafter⟩
  obtain ⟨n, c', hn, hhash⟩ := referenced_iff.mp hbefore
  obtain ⟨n', hn'⟩ := hkept n c' hn
  exact hafter (referenced_iff.mpr ⟨n', c', hn', hhash⟩)

lemma not_released_self : ¬ Released t t infoHash :=
  fun h => h.2 h.1

lemma purgeUnreferenced_iff (hname : t.holdings name = some c)
    (hkept : ∀ n c', n ≠ name → t.holdings n = some c' → ∃ n', t'.holdings n' = some c') :
    t'.purgeUnreferenced false c.infoHash = some infoHash ↔ Released t t' infoHash := by
  rw [released_iff hname hkept, purgeUnreferenced, if_neg Bool.false_ne_true]
  split
  · next hempty => simp [isEmpty_sourcesOfInfoHash.mp hempty]
  · next hsome =>
    rw [isEmpty_sourcesOfInfoHash, not_not] at hsome
    simp [hsome]

lemma purgeUnreferenced_eq_some {checkFails : Bool} {infoHash' : Str}
    (h : t.purgeUnreferenced checkFails infoHash = some infoHash') :
    t.purgeUnreferenced false infoHash = some infoHash' := by
  cases checkFails with
  | true => cases h
  | false => exact h

/-! ### Insertions -/

lemma repointSource_eq_ok {contentId : ℕ} {stale : Option Str}
    (hstored : t.Stored contentHashOf) (hbut : t.UsedBut contentId) (hs : s ∈ t.sources)
    (h : t.repointSource s contentId = .ok (t', stale)) :
    t'.Sound contentHashOf ∧ (∃ c ∈ t.contents, c.id = contentId ∧
      t'.holdings = Function.update t.holdings s.location (some c)) ∧
      ∀ infoHash, stale = some infoHash ↔ Released t t' infoHash := by
  obtain ⟨old, hold, holdid, hjoined, hholds⟩ := exists_joined hs
  unfold repointSource at h
  simp only [hjoined] at h
  split at h
  · cases h
  next t₁ hset =>
  obtain ⟨c, hc, hcid, hcontents, hholdings⟩ := holdings_setSourceContent hs hset
  -- all contents but the old one are held after the update
  have hbut₁ : t₁.UsedBut old.id := by
    intro c' hc' hne
    rw [hcontents] at hc'
    by_cases hnew : c'.id = contentId
    · obtain rfl : c' = c := eq_of_key hc' hc (hnew.trans hcid.symm)
      exact ⟨s.location, by rw [hholdings, update_self]⟩
    · obtain ⟨name, hname⟩ := hbut c' hc' hnew
      refine ⟨name, ?_⟩
      rw [hholdings, update_of_ne, hname]
      rintro rfl
      rw [hholds, Option.some.injEq] at hname
      exact hne (congrArg Content.id hname.symm)
  have hkept : ∀ n c', n ≠ s.location → t.holdings n = some c' → t₁.holdings n = some c' := by
    intro n c' hn hc'
    rw [hholdings, update_of_ne hn, hc']
  by_cases hzero : t₁.refCount old.id = 0
  · have hne : old.id ≠ contentId := by
      intro heq
      have hself : t₁.holdings s.location = some c := by rw [hholdings, update_self]
      obtain ⟨r, hr, -, -, hrid⟩ := holdings_eq_some.mp hself
      exact refCount_eq_zero.mp hzero r hr (hrid.symm.trans (hcid.trans heq.symm))
    rw [if_pos ⟨hne, hzero⟩] at h
    cases h
    have hdrop : t₁.deleteContent old.id = t₁.dropUnreferenced old.id :=
      (if_pos hzero).symm
    rw [hdrop]
    have hsame := holdings_dropUnreferenced (t := t₁) old.id
    refine ⟨⟨hbut₁.dropUnreferenced, hstored.mono fun c hc => ?_⟩,
      ⟨c, hc, hcid, hsame.trans hholdings⟩, fun infoHash => ?_⟩
    · exact hcontents ▸ mem_of_mem_dropUnreferenced hc
    · refine purgeUnreferenced_iff hholds fun n c' hn hc' => ⟨n, ?_⟩
      rw [hsame]
      exact hkept n c' hn hc'
  · rw [if_neg fun h => hzero h.2] at h
    cases h
    -- another source still refers to the old content, so nothing is released
    have hused := hbut₁.dropUnreferenced
    rw [dropUnreferenced, if_neg hzero] at hused
    refine ⟨⟨hused, hstored.mono fun c hc => hcontents ▸ hc⟩, ⟨c, hc, hcid, hholdings⟩,
      fun infoHash => iff_of_false (some_ne_none _).symm (not_released fun n c' hn => ?_)⟩
    by_cases hloc : n = s.location
    · subst hloc
      obtain rfl : c' = old := Option.some.inj (hn.symm.trans hholds)
      exact hused c' (hcontents ▸ hold)
    · exact ⟨n, hkept n c' hloc hn⟩

lemma mem_of_mem_repointSource {contentId : ℕ} {stale : Option Str}
    (h : t.repointSource s contentId = .ok (t', stale)) (hc : c ∈ t'.contents) :
    c ∈ t.contents := by
  unfold repointSource at h
  dsimp only at h
  split at h
  · cases h
  next t₁ hset =>
  have hcontents := (setSourceContent_eq_ok hset).1
  split at h
  · obtain ⟨rfl, -⟩ := Prod.mk.inj (Except.ok.inj h)
    exact hcontents ▸ hc
  · split at h
    · obtain ⟨rfl, -⟩ := Prod.mk.inj (Except.ok.inj h)
      exact hcontents ▸ (AutoTable.mem_filter.mp hc).1
    · obtain ⟨rfl, -⟩ := Prod.mk.inj (Except.ok.inj h)
      exact hcontents ▸ hc

lemma insertBody_eq_ok {bytes : List UInt8} {outcome : InsertTorrentOutcome}
    (hsound : t.Sound contentHashOf) (hdata : new.data = some bytes)
    (h : insertBody contentHashOf new t = .ok (outcome, t')) :
    t'.Sound contentHashOf ∧ (∃ c, c.torrentData = some bytes ∧
      t'.holdings = Function.update t.holdings (new.sourcePath, new.filename) (some c)) ∧
      ∀ infoHash, outcome.staleInfoHash = some infoHash ↔ Released t t' infoHash := by
  simp only [insertBody] at h
  split at h
  · cases h
  next t₁ contentId created hfind =>
  obtain ⟨hholdings₁, hsources₁, hstored₁, hbut₁, c, hc, hcid, hbytes⟩ :=
    findOrCreateContent_eq_ok hsound hdata hfind
  have hreleased : ∀ infoHash, Released t₁ t' infoHash ↔ Released t t' infoHash := by
    intro infoHash
    rw [Released, Released, referenced_iff, referenced_iff (t := t), hholdings₁]
  split at h
  · next s hat =>
    obtain ⟨hs, hloc⟩ := sourceAt_eq_some.mp hat
    split at h
    · cases h
    next t₂ stale hrepoint =>
    cases h
    obtain ⟨hsound₂, ⟨c', hc', hcid', hholdings₂⟩, hstale⟩ :=
      repointSource_eq_ok hstored₁ hbut₁ (hsources₁ ▸ hs) hrepoint
    obtain rfl : c' = c := eq_of_key hc' hc (hcid'.trans hcid.symm)
    refine ⟨hsound₂, ⟨c', hbytes, ?_⟩, fun infoHash => (hstale infoHash).trans (hreleased _)⟩
    rw [hholdings₂, hholdings₁, hloc]
  · next hat =>
    split at h
    · cases h
    next t₂ sourceId hinsert =>
    obtain ⟨rfl, rfl⟩ := Prod.mk.inj (Except.ok.inj h)
    obtain ⟨c', hc', hcid', hcontents, hholdings₂⟩ := holdings_insertSource hinsert
    obtain rfl : c' = c := eq_of_key hc' hc (hcid'.trans hcid.symm)
    -- the name held nothing, so every content is still held
    have hfree : t.holdings (new.sourcePath, new.filename) = none := by
      rw [holdings, contentAt, hat]
      rfl
    have hkept : ∀ n d, t₁.holdings n = some d → t₂.holdings n = some d := by
      intro n d hn
      rw [hholdings₂, update_of_ne, hn]
      rintro rfl
      rw [hholdings₁, hfree] at hn
      cases hn
    have hused : ∀ d ∈ t₂.contents, ∃ n, t₂.holdings n = some d := by
      intro d hd
      by_cases hid : d.id = contentId
      · obtain rfl : d = c' := eq_of_key (hcontents ▸ hd) hc (hid.trans hcid.symm)
        exact ⟨_, by rw [hholdings₂, update_self]⟩
      · obtain ⟨n, hn⟩ := hbut₁ d (hcontents ▸ hd) hid
        exact ⟨n, hkept n d hn⟩
    refine ⟨⟨hused, hstored₁.mono fun d hd => hcontents ▸ hd⟩,
      ⟨c', hbytes, hholdings₁ ▸ hholdings₂⟩, fun infoHash => ?_⟩
    rw [← hreleased infoHash]
    exact iff_of_false (some_ne_none _).symm
      (not_released fun n d hn => ⟨n, hkept n d hn⟩)

/-! ### Removals and moves -/

lemma removeTorrent_cases (fault : Option SqlError) (checkFails : Bool)
    (filename sourcePath : Str) (t : TorrentTables) :
    (∃ result, t.removeTorrent fault checkFails filename sourcePath = (result, none, t)) ∨
      ∃ s ∈ t.sources, ∃ c, s.location = (sourcePath, filename) ∧ t.holdings s.location = some c ∧
        t.removeTorrent fault checkFails filename sourcePath = (.ok (some (s.id, c.infoHash)),
            (t.deleteRows s.id).purgeUnreferenced checkFails c.infoHash, t.deleteRows s.id) := by
  unfold removeTorrent
  cases fault with
  | some e => exact .inl ⟨.error e, rfl⟩
  | none =>
    cases hat : t.sourceAt sourcePath filename with
    | none => exact .inl ⟨.ok none, rfl⟩
    | some s =>
      obtain ⟨hs, hloc⟩ := sourceAt_eq_some.mp hat
      obtain ⟨c, -, -, hjoined, hholds⟩ := exists_joined hs
      refine .inr ⟨s, hs, c, hloc, hholds, ?_⟩
      rw [bind_some, hjoined]
      rfl

lemma moveBody_eq_ok {sourceFilename destFilename destPath : Str} {result : MoveOverwriteResult}
    (h : moveBody sourceFilename sourcePath destFilename destPath t = .ok (result, t')) :
    (result = .sourceAbsent ∧ t' = t ∧ t.holdings (sourcePath, sourceFilename) = none) ∨
      ∃ s ∈ t.sources, s.location = (sourcePath, sourceFilename) ∧
        ((t.holdings (destPath, destFilename) = none ∧ result = .moved none ∧
            t.setSourceName s.id destFilename destPath = .ok t') ∨
          ∃ d ∈ t.sources, ∃ c, d.location = (destPath, destFilename) ∧
            t.holdings d.location = some c ∧ result = .moved (some (d.id, c.infoHash)) ∧
            (t.deleteRows d.id).setSourceName s.id destFilename destPath = .ok t') := by
  unfold moveBody at h
  split at h
  · next hat =>
    cases h
    refine .inl ⟨rfl, rfl, ?_⟩
    rw [holdings, contentAt, hat]
    rfl
  next s hat =>
  obtain ⟨hs, hloc⟩ := sourceAt_eq_some.mp hat
  refine .inr ⟨s, hs, hloc, ?_⟩
  cases hdest : t.sourceAt destPath destFilename with
  | none =>
    simp only [hdest, bind_none, map_none] at h
    split at h
    · cases h
    next t₁ hset =>
    cases h
    refine .inl ⟨?_, rfl, hset⟩
    rw [holdings, contentAt, hdest]
    rfl
  | some d =>
    obtain ⟨hd, hdloc⟩ := sourceAt_eq_some.mp hdest
    obtain ⟨c, -, -, hjoined, hholds⟩ := exists_joined hd
    simp only [hdest, bind_some, hjoined, map_some] at h
    split at h
    · cases h
    next t₁ hset =>
    cases h
    exact .inr ⟨d, hd, c, hdloc, hholds, rfl, hset⟩

lemma held_of_move {d r : TorrentSource} (hd : d ∈ t.sources)
    (h : (t.deleteRows d.id).setSourceName r.id filename sourcePath = .ok t')
    (hname : name ≠ d.location) (hholds : t.holdings name = some c) :
    ∃ name', t'.holdings name' = some c := by
  have hstays : (t.deleteRows d.id).holdings name = some c := by
    rw [holdings_deleteRows hd, update_of_ne hname, hholds]
  exact held_of_setSourceName h hstays

/-! ### The contents after a transaction -/

lemma Sound.referenced_iff (h : t.Sound contentHashOf) :
    t.Referenced infoHash ↔ ∃ c ∈ t.contents, c.infoHash = infoHash := by
  constructor
  · rintro ⟨s, -, c, hc, -, hhash⟩
    exact ⟨c, hc, hhash⟩
  · rintro ⟨c, hc, hhash⟩
    obtain ⟨name, hname⟩ := h.used c hc
    exact TorrentTables.referenced_iff.mpr ⟨name, c, hname, hhash⟩

lemma mem_contents_insertTorrent (hc : c ∈ (t.insertTorrent contentHashOf fault new).2.contents) :
    c ∈ t.contents ∨ c.infoHash = new.infoHash ∧ c.torrentData = new.data := by
  unfold insertTorrent at hc
  rcases transaction_cases fault (insertBody contentHashOf new) t with
    ⟨e, heq⟩ | ⟨outcome, t', hbody, heq⟩
  · rw [heq] at hc
    exact .inl hc
  rw [heq] at hc
  simp only [insertBody] at hbody
  split at hbody
  · cases hbody
  next t₁ contentId created hfind =>
  have hmid : c ∈ t₁.contents := by
    split at hbody
    · split at hbody
      · cases hbody
      next t₂ stale hrepoint =>
      obtain ⟨-, rfl⟩ := Prod.mk.inj (Except.ok.inj hbody)
      exact mem_of_mem_repointSource hrepoint hc
    · split at hbody
      · cases hbody
      next t₂ sourceId hinsert =>
      obtain ⟨-, rfl⟩ := Prod.mk.inj (Except.ok.inj hbody)
      obtain ⟨-, -, -, hcontents, -⟩ := holdings_insertSource hinsert
      exact hcontents ▸ hc
  unfold findOrCreateContent at hfind
  split at hfind
  · obtain ⟨rfl, -⟩ := Prod.mk.inj (Except.ok.inj hfind)
    exact .inl hmid
  · split at hfind
    · cases hfind
    next t₂ id hinsert =>
    obtain ⟨rfl, -⟩ := Prod.mk.inj (Except.ok.inj hfind)
    obtain ⟨-, -, hmem⟩ := holdings_insertContent hinsert
    rcases (hmem c).mp hmid with hc | rfl
    · exact .inl hc
    · exact .inr ⟨rfl, rfl⟩

lemma mem_contents_removeTorrent {checkFails : Bool}
    (hc : c ∈ (t.removeTorrent fault checkFails filename sourcePath).2.2.contents) :
    c ∈ t.contents := by
  rcases removeTorrent_cases fault checkFails filename sourcePath t with
    ⟨result, heq⟩ | ⟨s, -, c', -, -, heq⟩
  · rwa [heq] at hc
  · rw [heq] at hc
    exact mem_of_mem_deleteRows hc

lemma mem_contents_renameTorrentOverwriting {checkFails : Bool}
    {oldName oldSourcePath newName newSourcePath : Str}
    (hc : c ∈ (t.renameTorrentOverwriting fault checkFails oldName oldSourcePath newName
      newSourcePath).2.2.contents) : c ∈ t.contents := by
  unfold renameTorrentOverwriting moveTorrentReplacing at hc
  rcases transaction_cases fault (moveBody oldName oldSourcePath newName newSourcePath) t with
    ⟨e, heq⟩ | ⟨result, t', hbody, heq⟩
  · rwa [heq] at hc
  rw [heq] at hc
  rcases moveBody_eq_ok hbody with ⟨rfl, rfl, -⟩ | ⟨s, -, -, hmoved⟩
  · exact hc
  rcases hmoved with ⟨-, rfl, hset⟩ | ⟨d, -, c', -, -, rfl, hset⟩
  · exact (setSourceName_eq_ok hset).1 ▸ hc
  · have hcontents := (setSourceName_eq_ok hset).1
    exact mem_of_mem_deleteRows (hcontents ▸ hc)

/-! ### What an overwriting move does to the names -/

/-- The names after a move: the destination holds what the source held, the source nothing unless
it is the destination, and the others what they held. Without a move every name keeps what it
held. -/
def MovesContent (t t' : TorrentTables) (source dest : Str × Str) :
    Except SqlError MoveOverwriteResult → Prop
  | .ok (.moved _) => t'.holdings dest = t.holdings source ∧
      (source ≠ dest → t'.holdings source = none) ∧
      ∀ name, name ≠ source → name ≠ dest → t'.holdings name = t.holdings name
  | .ok .sourceAbsent | .error _ => t'.holdings = t.holdings

lemma movesContent_of_update {source dest : Str × Str} {removed : Option (ℕ × Str)}
    (h : t'.holdings =
      Function.update (Function.update t.holdings source none) dest (t.holdings source)) :
    MovesContent t t' source dest (.ok (.moved removed)) := by
  refine ⟨?_, fun hne => ?_, fun name hsource hdest => ?_⟩
  · rw [h, update_self]
  · rw [h, update_of_ne hne, update_self]
  · rw [h, update_of_ne hdest, update_of_ne hsource]

lemma holdings_moveBody {sourceFilename destFilename destPath : Str} {result : MoveOverwriteResult}
    (h : moveBody sourceFilename sourcePath destFilename destPath t = .ok (result, t'))
    (hsource : t.holdings (sourcePath, sourceFilename) ≠ none) :
    (∃ removed, result = .moved removed) ∧
      t'.holdings = if (sourcePath, sourceFilename) = (destPath, destFilename) then
          Function.update t.holdings (sourcePath, sourceFilename) none
        else Function.update (Function.update t.holdings (sourcePath, sourceFilename) none)
          (destPath, destFilename) (t.holdings (sourcePath, sourceFilename)) := by
  rcases moveBody_eq_ok h with ⟨-, -, hnone⟩ | ⟨s, hs, hloc, hmoved⟩
  · exact absurd hnone hsource
  rw [← hloc] at hsource ⊢
  rcases hmoved with ⟨hfree, rfl, hset⟩ | ⟨d, hd, c, hdloc, hholds, rfl, hset⟩
  · refine ⟨⟨_, rfl⟩, ?_⟩
    rw [if_neg, holdings_setSourceName hs hset]
    rintro heq
    exact hsource (heq ▸ hfree)
  refine ⟨⟨_, rfl⟩, ?_⟩
  rw [← hdloc]
  split
  · -- the row that was to be renamed has been deleted as the destination
    next heq =>
      obtain rfl := t.unique s hs d hd heq
      have habsent : ∀ r ∈ (t.deleteRows s.id).sources, r.id ≠ s.id :=
        fun r hr => (mem_sources_deleteRows.mp hr).2
      rw [holdings_setSourceName_of_absent habsent hset, holdings_deleteRows hs]
  · next hne =>
    have hid : s.id ≠ d.id := fun hid => hne (congrArg _ (eq_of_key hs hd hid))
    rw [holdings_setSourceName (mem_sources_deleteRows.mpr ⟨hs, hid⟩) hset,
      holdings_deleteRows hd, update_of_ne hne, ← hdloc,
      update_comm (Ne.symm hne), update_idem]

lemma moveBody_self (hsource : t.holdings (sourcePath, filename) ≠ none) :
    ∃ result t', moveBody filename sourcePath filename sourcePath t = .ok (result, t') := by
  cases hat : t.sourceAt sourcePath filename with
  | none => exact absurd (by rw [holdings, contentAt, hat]; rfl) hsource
  | some s =>
    obtain ⟨hs, -⟩ := sourceAt_eq_some.mp hat
    obtain ⟨c, -, -, hjoined, -⟩ := exists_joined hs
    have habsent : ∀ r ∈ (t.deleteRows s.id).sources, r.id ≠ s.id :=
      fun r hr => (mem_sources_deleteRows.mp hr).2
    obtain ⟨t', hset⟩ := exists_setSourceName_of_absent habsent filename sourcePath
    refine ⟨.moved (some (s.id, c.infoHash)), t', ?_⟩
    simp only [moveBody, hat, bind_some, hjoined, hset, map_some]

/-- A move does what it should exactly when the names differ, or nothing is moved: the source is
absent, or the transaction fails. -/
theorem movesContent_iff (fault : Option SqlError)
    (sourceFilename sourcePath destFilename destPath : Str) (t : TorrentTables) :
    let moved := t.moveTorrentReplacing fault sourceFilename sourcePath destFilename destPath
    MovesContent t moved.2 (sourcePath, sourceFilename) (destPath, destFilename) moved.1 ↔
      (sourcePath, sourceFilename) ≠ (destPath, destFilename) ∨
        t.holdings (sourcePath, sourceFilename) = none ∨ fault.isSome = true := by
  constructor
  · intro hmoves
    by_contra hbad
    obtain ⟨heq, hsource, hfault⟩ := not_or.mp hbad |>.imp not_not.mp not_or.mp
    cases heq
    obtain rfl : fault = none := by simpa using hfault
    obtain ⟨result, t', hbody⟩ := moveBody_self hsource
    obtain ⟨⟨removed, rfl⟩, hholdings⟩ := holdings_moveBody hbody hsource
    have hmove : t.moveTorrentReplacing none sourceFilename sourcePath sourceFilename sourcePath =
        (.ok (.moved removed), t') := by
      simp only [moveTorrentReplacing, transaction, hbody]
    -- nothing is left at the destination, although the source held a content
    rw [hmove] at hmoves
    rw [if_pos rfl] at hholdings
    have hdest := hmoves.1
    rw [hholdings, Function.update_self] at hdest
    exact hsource hdest.symm
  · intro hgood
    unfold moveTorrentReplacing
    rcases transaction_cases fault
      (moveBody sourceFilename sourcePath destFilename destPath) t with
      ⟨e, hfail⟩ | ⟨result, t', hbody, hok⟩
    · rw [hfail]
      exact rfl
    rw [hok]
    by_cases hsource : t.holdings (sourcePath, sourceFilename) = none
    · obtain ⟨rfl, rfl, -⟩ | ⟨s, hs, hloc, -⟩ := moveBody_eq_ok hbody
      · exact rfl
      · exact absurd hloc (holdings_eq_none.mp hsource s hs)
    · have hne : (sourcePath, sourceFilename) ≠ (destPath, destFilename) := by
        rcases hgood with hne | hnone | hfault
        · exact hne
        · exact absurd hnone hsource
        · obtain ⟨e, rfl⟩ := Option.isSome_iff_exists.mp hfault
          cases hok
      obtain ⟨⟨removed, rfl⟩, hholdings⟩ := holdings_moveBody hbody hsource
      rw [if_neg hne] at hholdings
      exact movesContent_of_update hholdings

end Lemmas

/-! ### Sequences of transactions -/

/-- A transaction on the database, with the failures it meets. Insertions carry the bytes of the
torrent. -/
inductive Transaction
  | insert (fault : Option SqlError) (new : NewTorrent) (data : List UInt8)
  | delete (fault : Option SqlError) (sourceId : ℕ)
  | rename (fault : Option SqlError) (sourceId : ℕ) (newFilename newSourcePath : Str)
  | remove (fault : Option SqlError) (checkFails : Bool) (filename sourcePath : Str)
  | move (fault : Option SqlError) (checkFails : Bool)
      (oldName oldSourcePath newName newSourcePath : Str)

def staleOf : Except SqlError InsertTorrentOutcome → Option Str
  | .ok outcome => outcome.staleInfoHash
  | .error _ => none

def apply (contentHashOf : List UInt8 → Str) (t : TorrentTables) :
    Transaction → Option Str × TorrentTables
  | .insert fault new data =>
    let (result, t) := t.insertTorrent contentHashOf fault { new with data := some data }
    (staleOf result, t)
  | .delete fault sourceId => (none, (t.deleteTorrent fault sourceId).2)
  | .rename fault sourceId newFilename newSourcePath =>
    (none, (t.renameTorrent fault sourceId newFilename newSourcePath).2)
  | .remove fault checkFails filename sourcePath =>
    (t.removeTorrent fault checkFails filename sourcePath).2
  | .move fault checkFails oldName oldSourcePath newName newSourcePath =>
    (t.renameTorrentOverwriting fault checkFails oldName oldSourcePath newName newSourcePath).2

def Transaction.reports : Transaction → Bool
  | .insert .. | .remove .. | .move .. => true
  | .delete .. | .rename .. => false

def Transaction.checkFails : Transaction → Bool
  | .remove _ checkFails _ _ | .move _ checkFails _ _ _ _ => checkFails
  | _ => false

def afterAll (contentHashOf : List UInt8 → Str) (transactions : List Transaction) : TorrentTables :=
  transactions.foldl (fun t transaction => (t.apply contentHashOf transaction).2) empty

/-- What is reported is released; and all that is released is reported, unless the check fails. -/
def ReportsReleased (t t' : TorrentTables) (checkFails : Bool) (reported : Option Str) : Prop :=
  (∀ infoHash, reported = some infoHash → Released t t' infoHash) ∧
    (checkFails = false → ∀ infoHash, Released t t' infoHash → reported = some infoHash)

section Steps

variable {contentHashOf : List UInt8 → Str} {t t' : TorrentTables} {checkFails : Bool}

lemma reportsReleased_none (h : ∀ infoHash, ¬ Released t t' infoHash) :
    ReportsReleased t t' checkFails none :=
  ⟨fun _ h => absurd h (some_ne_none _).symm, fun _ infoHash hr => absurd hr (h infoHash)⟩

lemma reportsReleased_purge {c : Content} {name : Str × Str} (hname : t.holdings name = some c)
    (hkept : ∀ n c', n ≠ name → t.holdings n = some c' → ∃ n', t'.holdings n' = some c') :
    ReportsReleased t t' checkFails (t'.purgeUnreferenced checkFails c.infoHash) := by
  refine ⟨fun infoHash h => ?_, fun hok infoHash h => ?_⟩
  · exact (purgeUnreferenced_iff hname hkept).mp (purgeUnreferenced_eq_some h)
  · subst hok
    exact (purgeUnreferenced_iff hname hkept).mpr h

section

variable (h : t.Sound contentHashOf) (fault : Option SqlError)
include h fault

lemma sound_insertTorrent (new : NewTorrent) {bytes : List UInt8} (hdata : new.data = some bytes) :
    (t.insertTorrent contentHashOf fault new).2.Sound contentHashOf ∧
      ReportsReleased t (t.insertTorrent contentHashOf fault new).2 false
        (staleOf (t.insertTorrent contentHashOf fault new).1) := by
  unfold insertTorrent
  rcases transaction_cases fault (insertBody contentHashOf new) t with
    ⟨e, heq⟩ | ⟨outcome, t', hbody, heq⟩
  · rw [heq]
    exact ⟨h, reportsReleased_none fun _ => not_released_self⟩
  · rw [heq]
    obtain ⟨hsound, -, hstale⟩ := insertBody_eq_ok h hdata hbody
    exact ⟨hsound, fun infoHash => (hstale infoHash).mp, fun _ infoHash => (hstale infoHash).mpr⟩

lemma sound_deleteTorrent (sourceId : ℕ) :
    (t.deleteTorrent fault sourceId).2.Sound contentHashOf := by
  cases fault with
  | some e => exact h
  | none => exact h.deleteRows sourceId

lemma sound_renameTorrent (sourceId : ℕ) (newFilename newSourcePath : Str) :
    (t.renameTorrent fault sourceId newFilename newSourcePath).2.Sound contentHashOf := by
  unfold renameTorrent
  rcases transaction_cases fault (fun t =>
    (t.setSourceName sourceId newFilename newSourcePath).map fun t => ((), t)) t with
    ⟨e, heq⟩ | ⟨_, t', hbody, heq⟩
  · rw [heq]
    exact h
  · rw [heq]
    cases hset : t.setSourceName sourceId newFilename newSourcePath with
    | error e =>
      rw [hset] at hbody
      cases hbody
    | ok t₁ =>
      rw [hset] at hbody
      obtain ⟨-, rfl⟩ := Prod.mk.inj (Except.ok.inj hbody)
      exact h.setSourceName hset

lemma sound_removeTorrent (checkFails : Bool) (filename sourcePath : Str) :
    (t.removeTorrent fault checkFails filename sourcePath).2.2.Sound contentHashOf ∧
      ReportsReleased t (t.removeTorrent fault checkFails filename sourcePath).2.2 checkFails
        (t.removeTorrent fault checkFails filename sourcePath).2.1 := by
  rcases removeTorrent_cases fault checkFails filename sourcePath t with
    ⟨result, heq⟩ | ⟨s, hs, c, -, hholds, heq⟩
  · rw [heq]
    exact ⟨h, reportsReleased_none fun _ => not_released_self⟩
  · rw [heq]
    refine ⟨h.deleteRows s.id, reportsReleased_purge hholds fun n c' hn hc' => ⟨n, ?_⟩⟩
    rw [holdings_deleteRows hs, update_of_ne hn, hc']

lemma sound_renameTorrentOverwriting (checkFails : Bool)
    (oldName oldSourcePath newName newSourcePath : Str) :
    (t.renameTorrentOverwriting fault checkFails oldName oldSourcePath newName
        newSourcePath).2.2.Sound contentHashOf ∧ ReportsReleased t
        (t.renameTorrentOverwriting fault checkFails oldName oldSourcePath newName
          newSourcePath).2.2 checkFails
        (t.renameTorrentOverwriting fault checkFails oldName oldSourcePath newName
          newSourcePath).2.1 := by
  unfold renameTorrentOverwriting moveTorrentReplacing
  rcases transaction_cases fault (moveBody oldName oldSourcePath newName newSourcePath) t with
    ⟨e, heq⟩ | ⟨result, t', hbody, heq⟩
  · rw [heq]
    exact ⟨h, reportsReleased_none fun _ => not_released_self⟩
  rw [heq]
  rcases moveBody_eq_ok hbody with ⟨rfl, rfl, -⟩ | ⟨s, hs, -, hmoved⟩
  · exact ⟨h, reportsReleased_none fun _ => not_released_self⟩
  rcases hmoved with ⟨-, rfl, hset⟩ | ⟨d, hd, c, -, hholds, rfl, hset⟩
  · refine ⟨h.setSourceName hset, reportsReleased_none fun _ => not_released fun n c hn => ?_⟩
    exact held_of_setSourceName hset hn
  · refine ⟨(h.deleteRows d.id).setSourceName hset, reportsReleased_purge hholds ?_⟩
    exact fun n c' hn hc' => held_of_move hd hset hn hc'

end

lemma sound_apply (h : t.Sound contentHashOf) (transaction : Transaction) :
    (t.apply contentHashOf transaction).2.Sound contentHashOf ∧ (transaction.reports = true →
        ReportsReleased t (t.apply contentHashOf transaction).2 transaction.checkFails
          (t.apply contentHashOf transaction).1) := by
  cases transaction with
  | insert fault new data =>
    have hinsert := sound_insertTorrent h fault { new with data := some data } rfl
    exact ⟨hinsert.1, fun _ => hinsert.2⟩
  | delete fault sourceId =>
    exact ⟨sound_deleteTorrent h fault sourceId, fun hreports => by cases hreports⟩
  | rename fault sourceId newFilename newSourcePath =>
    exact ⟨sound_renameTorrent h fault sourceId newFilename newSourcePath,
      fun hreports => by cases hreports⟩
  | remove fault checkFails filename sourcePath =>
    have hremove := sound_removeTorrent h fault checkFails filename sourcePath
    exact ⟨hremove.1, fun _ => hremove.2⟩
  | move fault checkFails oldName oldSourcePath newName newSourcePath =>
    have hmove := sound_renameTorrentOverwriting h fault checkFails oldName oldSourcePath newName
      newSourcePath
    exact ⟨hmove.1, fun _ => hmove.2⟩

lemma sound_empty : (empty : TorrentTables).Sound contentHashOf where
  used := fun c hc => absurd hc (notMem_empty c)
  stored :=
    { hashed := fun c hc => absurd hc (notMem_empty c)
      distinct := fun c hc => absurd hc (notMem_empty c) }

lemma sound_afterAll (transactions : List Transaction) :
    (afterAll contentHashOf transactions).Sound contentHashOf :=
  List.foldlRecOn transactions _ sound_empty fun _ h transaction _ => (sound_apply h transaction).1

lemma nodup_locations (t : TorrentTables) : (t.sources.rows.map TorrentSource.location).Nodup := by
  refine List.Nodup.map_on (fun s hs s' hs' => t.unique s hs s' hs') ?_
  exact t.sources.sorted.imp fun hlt heq => by simp [heq] at hlt

end Steps

/-- What holds of the rows after every sequence of transactions. -/
structure Consistent (t : TorrentTables) : Prop where
  names : (t.sources.rows.map TorrentSource.location).Nodup
  foreign : ∀ s ∈ t.sources, ∃ c ∈ t.contents, c.id = s.torrentId
  used : ∀ c ∈ t.contents, ∃ s ∈ t.sources, s.torrentId = c.id
  bytes : ∀ c ∈ t.contents, ∀ c' ∈ t.contents, c.torrentData = c'.torrentData → c = c'

lemma Sound.consistent {contentHashOf : List UInt8 → Str} {t : TorrentTables}
    (h : t.Sound contentHashOf) : t.Consistent where
  names := t.nodup_locations
  foreign := t.foreign
  used := by
    intro c hc
    obtain ⟨name, hname⟩ := h.used c hc
    obtain ⟨s, hs, -, -, hid⟩ := holdings_eq_some.mp hname
    exact ⟨s, hs, hid.symm⟩
  bytes := h.stored.distinct

/-- After every sequence of transactions the rows are consistent, and the next transaction that
reports an info hash reports the one that loses its last reference. When the query for remaining
references fails, it may report nothing. -/
theorem consistent_and_reportsReleased (contentHashOf : List UInt8 → Str)
    (transactions : List Transaction) (next : Transaction) (hreports : next.reports = true) :
    let t := afterAll contentHashOf transactions
    let after := t.apply contentHashOf next
    t.Consistent ∧ after.2.Consistent ∧ ReportsReleased t after.2 next.checkFails after.1 := by
  have hsound := @sound_afterAll contentHashOf transactions
  obtain ⟨hnext, hreported⟩ := sound_apply hsound next
  exact ⟨hsound.consistent, hnext.consistent, hreported hreports⟩

def sampleTorrent : NewTorrent where
  sourcePath := []
  name := "a".toList
  filename := "a.torrent".toList
  totalSize := 0
  infoHash := "0a".toList
  fileCount := 0
  files := []
  data := none

theorem consistent_and_reportsReleased_of_sharedBytes :
    let contentHashOf : List UInt8 → Str := fun _ => []
    let t := afterAll contentHashOf
      [.insert none sampleTorrent [1],
        .insert none { sampleTorrent with filename := "b.torrent".toList } [1]]
    let next := Transaction.remove none false "a.torrent".toList []
    let after := t.apply contentHashOf next
    next.reports = true ∧ after.1 = none ∧
      t.Consistent ∧ after.2.Consistent ∧ ReportsReleased t after.2 next.checkFails after.1 :=
  ⟨rfl, by decide, consistent_and_reportsReleased _ _ _ rfl⟩

/-- When the query for remaining references fails, the removal of the last source of an info hash
reports nothing. -/
theorem released_unreported_of_failed_check : let contentHashOf : List UInt8 → Str := fun _ => []
    let t := afterAll contentHashOf [.insert none sampleTorrent [1]]
    let after := t.apply contentHashOf (.remove none true "a.torrent".toList [])
    Released t after.2 sampleTorrent.infoHash ∧ after.1 = none := by
  refine ⟨⟨?_, ?_⟩, by decide⟩
  · rw [← not_not (a := Referenced _ _), ← isEmpty_sourcesOfInfoHash]
    decide
  · rw [← isEmpty_sourcesOfInfoHash]
    decide

/-- A move of the only source onto its own name deletes it. -/
theorem content_lost_by_move_onto_itself : let name := "a.torrent".toList
    let t := afterAll (fun _ => []) [.insert none sampleTorrent [1]]
    let moved := t.moveTorrentReplacing none name [] name []
    ¬ MovesContent t moved.2 ([], name) ([], name) moved.1 ∧ moved.2.contents.rows = [] := by
  refine ⟨fun h => absurd h.1 ?_, by decide⟩
  decide

end TorrentTables

end TorrentFs.Db
