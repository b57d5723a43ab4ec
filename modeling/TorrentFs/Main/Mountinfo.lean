import TorrentFs.Lib.Text

/-!
# The table of mounts

Before it detaches a mount, the program looks for a FUSE mount at the mount point in
`/proc/self/mountinfo`. The kernel separates the fields of a line by spaces and writes a space, a
tab, a newline and a backslash in a text as octal escapes. The program splits a line at any Unicode
white space.
-/

namespace TorrentFs.Main

open Text List

variable {c d : Char} {s t target : Str}

/-! ### What the program reads -/

def isWhitespace (c : Char) : Bool :=
  9 ≤ c.toNat && c.toNat ≤ 13 || 0x2000 ≤ c.toNat && c.toNat ≤ 0x200a ||
    c.toNat ∈ [0x20, 0x85, 0xa0, 0x1680, 0x2028, 0x2029, 0x202f, 0x205f, 0x3000]

def splitWhitespace (s : Str) : List Str := (s.splitOnP isWhitespace).filter (· ≠ [])

/-- `str::lines`: a carriage return before the newline is dropped, and so is an empty last line. -/
def lines (s : Str) : List Str :=
  let parts := s.splitOn '\n'
  parts.dropLast.map (fun l => if l.getLast? = some '\r' then l.dropLast else l) ++
    parts.getLast?.toList.filter (· ≠ [])

def replaceFrom (pattern result : Str) : ℕ → Str → Str
  | _, [] => []
  | skip + 1, _ :: s => replaceFrom pattern result skip s
  | 0, c :: s =>
    if pattern.isPrefixOf (c :: s) then
      result ++ replaceFrom pattern result (pattern.length - 1) s
    else c :: replaceFrom pattern result 0 s

def decodeMountinfoField (raw : Str) : Str :=
  let spaces := replaceFrom "\\040".toList [' '] 0 raw
  let tabs := replaceFrom "\\011".toList ['\t'] 0 spaces
  let newlines := replaceFrom "\\012".toList ['\n'] 0 tabs
  replaceFrom "\\134".toList ['\\'] 0 newlines

def isFuse (fstype : Str) : Bool := fstype = "fuse".toList || "fuse.".toList.isPrefixOf fstype

def mountinfoLineIsFuse (line target : Str) : Bool :=
  match (splitWhitespace line).drop 4 with
  | [] => false
  | rawMountpoint :: fields =>
    decodeMountinfoField rawMountpoint = target &&
      (fields.dropWhile (· ≠ ['-']))[1]?.any isFuse

def mountinfoHasFuseMount (mountinfo target : Str) : Bool :=
  (lines mountinfo).any (mountinfoLineIsFuse · target)

/-! ### What the kernel writes -/

def escapedChars : List Char := [' ', '\t', '\n', '\\']

def octal (c : Char) : Str :=
  ['\\', (c.toNat / 64).digitChar, (c.toNat / 8 % 8).digitChar, (c.toNat % 8).digitChar]

def escapeIn (cs : List Char) (s : Str) : Str :=
  s.flatMap fun c => if c ∈ cs then octal c else [c]

def escape (s : Str) : Str := escapeIn escapedChars s

/-- A word other than the one that ends the optional fields. -/
def IsWord (s : Str) : Prop := s ≠ ['-'] ∧ s ≠ [] ∧ s.any isWhitespace = false

instance : DecidablePred IsWord := fun _ => instDecidableAnd

structure Mount where
  id : Str
  parent : Str
  device : Str
  root : Str
  mountpoint : Str
  options : Str
  optional : List Str
  fstype : Str
  source : Str
  superOptions : Str
  words : ∀ o ∈ [id, parent, device, options] ++ optional, IsWord o
  texts : ∀ s ∈ [root, mountpoint, fstype], s ≠ []

def Mount.fields (m : Mount) : List Str :=
  [m.parent, m.device, escape m.root, escape m.mountpoint] ++
    (m.options :: m.optional ++ [['-'], escape m.fstype])

def Mount.line (m : Mount) : Str :=
  m.id ++ (m.fields ++ [escape m.source, escape m.superOptions]).flatMap (' ' :: ·)

def mountinfo (mounts : List Mount) : Str := mounts.flatMap fun m => m.line ++ ['\n']

/-- Every white space in the text is one that the kernel escapes. -/
def PlainSpaces (s : Str) : Prop := ∀ c ∈ s, isWhitespace c = true → c ∈ escapedChars

instance : DecidablePred PlainSpaces := fun s => List.decidableBAll _ s

/-! ### Words of a line -/

lemma splitWhitespace_append_cons (h : isWhitespace c = true) (s t : Str) :
    splitWhitespace (s ++ c :: t) = splitWhitespace s ++ splitWhitespace t := by
  rw [splitWhitespace, splitOnP_append_cons _ _ h, filter_append]
  rfl

lemma splitWhitespace_word (h : s ≠ [] ∧ s.any isWhitespace = false) : splitWhitespace s = [s] := by
  rw [splitWhitespace, splitOnP_eq_singleton (by simpa using h.2)]
  simp [h.1]

lemma splitWhitespace_fields (s : Str) (fields : List Str) :
    splitWhitespace (s ++ fields.flatMap (' ' :: ·)) =
      splitWhitespace s ++ fields.flatMap splitWhitespace := by
  induction fields generalizing s with
  | nil => simp
  | cons f fields ih =>
    rw [flatMap_cons, cons_append, splitWhitespace_append_cons (by decide), ih]
    rfl

/-! ### Escapes -/

lemma escapeIn_cons (cs : List Char) (c : Char) (s : Str) :
    escapeIn cs (c :: s) = (if c ∈ cs then octal c else [c]) ++ escapeIn cs s := rfl

lemma mem_escape (h : c ∈ escape s) :
    c ∈ s ∧ c ∉ escapedChars ∨ ∃ d ∈ escapedChars, c ∈ octal d := by
  obtain ⟨d, hd, hc⟩ := List.mem_flatMap.mp h
  grind

lemma isWhitespace_of_mem_octal (hd : d ∈ escapedChars) (hc : c ∈ octal d) :
    isWhitespace c = false := by
  have hoctal : (escapedChars.flatMap octal).all (!isWhitespace ·) = true := by decide
  simpa using List.all_eq_true.mp hoctal c (List.mem_flatMap.mpr ⟨d, hd, hc⟩)

lemma PlainSpaces.escape_word (h : PlainSpaces s) (hne : s ≠ []) :
    escape s ≠ [] ∧ (escape s).any isWhitespace = false := by
  refine ⟨?_, List.any_eq_false.mpr fun c hc => ?_⟩
  · obtain ⟨c, s, rfl⟩ := exists_cons_of_ne_nil hne
    rw [escape, escapeIn_cons]
    split <;> simp [octal]
  · obtain ⟨hmem, hplain⟩ | ⟨d, hd, hc⟩ := mem_escape hc
    · exact fun hspace => hplain (h c hmem hspace)
    · exact Bool.eq_false_iff.mp (isWhitespace_of_mem_octal hd hc)

lemma replaceFrom_octal (hc : c ∈ escapedChars) (hd : d ∈ escapedChars) (rest : Str) :
    replaceFrom (octal d) [d] 0 (octal c ++ rest) =
      (if c = d then [d] else octal c) ++ replaceFrom (octal d) [d] 0 rest := by
  simp only [escapedChars, mem_cons, not_mem_nil, or_false] at hc hd
  rcases hc with rfl | rfl | rfl | rfl <;> rcases hd with rfl | rfl | rfl | rfl <;> rfl

lemma replaceFrom_escapeIn {cs : List Char} (hcs : d :: cs ⊆ escapedChars) (hd : d ∉ cs)
    (hbackslash : '\\' ∈ d :: cs) (s : Str) :
    replaceFrom (octal d) [d] 0 (escapeIn (d :: cs) s) = escapeIn cs s := by
  induction s with
  | nil => rfl
  | cons c s ih =>
    rw [escapeIn_cons, escapeIn_cons]
    by_cases hc : c ∈ d :: cs
    · rw [if_pos hc, replaceFrom_octal (hcs hc) (hcs mem_cons_self), ih]
      grind
    · -- the text has no other backslash than those of the escapes
      have hne : '\\' ≠ c := fun heq => hc (heq ▸ hbackslash)
      rw [if_neg hc, if_neg fun hmem => hc (mem_cons_of_mem _ hmem), singleton_append,
        replaceFrom, if_neg (by simp [octal, List.isPrefixOf, hne]), ih]
      rfl

lemma decodeMountinfoField_escape (s : Str) : decodeMountinfoField (escape s) = s := by
  dsimp only [decodeMountinfoField]
  rw [show "\\040".toList = octal ' ' from rfl, show "\\011".toList = octal '\t' from rfl,
    show "\\012".toList = octal '\n' from rfl, show "\\134".toList = octal '\\' from rfl, escape,
    escapedChars, replaceFrom_escapeIn (by decide) (by decide) (by decide),
    replaceFrom_escapeIn (by decide) (by decide) (by decide),
    replaceFrom_escapeIn (by decide) (by decide) (by decide),
    replaceFrom_escapeIn (by decide) (by decide) (by decide)]
  simp [escapeIn]

lemma mem_replaceFrom {pattern result : Str} {skip : ℕ}
    (h : c ∈ replaceFrom pattern result skip s) : c ∈ result ∨ c ∈ s := by
  fun_induction replaceFrom pattern result skip s <;> grind

lemma plainSpaces_decodeMountinfoField (h : ∀ c ∈ s, isWhitespace c = false) :
    PlainSpaces (decodeMountinfoField s) := by
  intro c hc hspace
  have hresult : ∀ d ∈ escapedChars, ∀ {pattern s : Str},
      c ∈ replaceFrom pattern [d] 0 s → c ∈ escapedChars ∨ c ∈ s := fun d hd _ _ hmem =>
    (mem_replaceFrom hmem).imp_left fun hmem => by rwa [List.mem_singleton.mp hmem]
  refine (hresult _ (by decide) hc).elim id fun hc => ?_
  refine (hresult _ (by decide) hc).elim id fun hc => ?_
  refine (hresult _ (by decide) hc).elim id fun hc => ?_
  refine (hresult _ (by decide) hc).elim id fun hc => ?_
  exact absurd hspace (by rw [h c hc]; decide)

lemma prefix_escape_iff {p : Str} (hp : p.all (· ∉ escapedChars) = true) :
    p <+: escape t ↔ p <+: t := by
  induction p generalizing t with
  | nil => simp
  | cons a p ih =>
    cases t with
    | nil => rfl
    | cons b t =>
      rw [escape, escapeIn_cons, cons_prefix_cons]
      by_cases hb : b ∈ escapedChars
      · have ha := of_decide_eq_true (List.all_eq_true.mp hp a mem_cons_self)
        refine iff_of_false ?_ fun h => ha (h.1 ▸ hb)
        rw [if_pos hb]
        exact fun h => ha ((List.cons_prefix_cons.mp h).1 ▸ by decide)
      · rw [if_neg hb, singleton_append, cons_prefix_cons]
        exact and_congr_right fun _ => ih (Bool.and_eq_true_iff.mp hp).2

lemma isFuse_escape (t : Str) : isFuse (escape t) = isFuse t := by
  have hname : escape t = "fuse".toList ↔ t = "fuse".toList := by
    constructor
    · intro h
      rw [← decodeMountinfoField_escape t, h]
      decide
    · rintro rfl
      decide
  rw [isFuse, isFuse, Bool.eq_iff_iff]
  simp only [Bool.or_eq_true, decide_eq_true_eq, isPrefixOf_iff_prefix, hname,
    prefix_escape_iff (show "fuse.".toList.all (· ∉ escapedChars) = true by decide)]

/-! ### The lines of the table -/

/-- No white space that the kernel does not escape, except in mount points that are the target. -/
structure Mount.PlainBut (m : Mount) (target : Str) : Prop where
  root : PlainSpaces m.root
  fstype : PlainSpaces m.fstype
  mountpoint : m.mountpoint = target ∨ PlainSpaces m.mountpoint

lemma mountinfoLineIsFuse_line {m : Mount} (h : m.PlainBut target) (htarget : PlainSpaces target) :
    mountinfoLineIsFuse m.line target = true ↔ m.mountpoint = target ∧ isFuse m.fstype = true := by
  have hmountpoint : PlainSpaces m.mountpoint := h.mountpoint.elim (fun heq => heq ▸ htarget) id
  have htexts := m.texts
  have hwords := m.words
  simp only [forall_mem_append, forall_mem_cons] at htexts hwords
  obtain ⟨⟨hid, hparent, hdevice, hoptions, -⟩, hoptional⟩ := hwords
  obtain ⟨hroot, hmp, hfstype, -⟩ := htexts
  have hopt : m.optional.flatMap splitWhitespace = m.optional := by
    rw [flatMap_congr fun o ho => splitWhitespace_word (hoptional o ho).2]
    exact flatMap_singleton' _
  have htype : ∀ rest, (m.options :: m.optional ++ ['-'] :: escape m.fstype :: rest).dropWhile
      (· ≠ ['-']) = ['-'] :: escape m.fstype :: rest := by
    intro rest
    rw [dropWhile_append_of_pos]
    · rfl
    · exact List.forall_mem_cons.mpr ⟨decide_eq_true hoptions.1,
        fun o ho => decide_eq_true (hoptional o ho).1⟩
  rw [mountinfoLineIsFuse, Mount.line, splitWhitespace_fields, splitWhitespace_word hid.2]
  simp only [Mount.fields, flatMap_append, flatMap_cons, flatMap_nil, hopt,
    splitWhitespace_word hparent.2, splitWhitespace_word hdevice.2,
    splitWhitespace_word hoptions.2, splitWhitespace_word (h.root.escape_word hroot),
    splitWhitespace_word (hmountpoint.escape_word hmp),
    splitWhitespace_word (h.fstype.escape_word hfstype),
    show splitWhitespace ['-'] = [['-']] by decide]
  simp only [cons_append, nil_append, append_assoc, drop_succ_cons,
    drop_zero, decodeMountinfoField_escape, Bool.and_eq_true, decide_eq_true_eq] at htype ⊢
  rw [htype]
  simp [isFuse_escape]

lemma Mount.newline_notMem_line (m : Mount) : '\n' ∉ m.line := by
  have hescape : ∀ s, '\n' ∉ escape s := by
    intro s hmem
    obtain ⟨-, h⟩ | ⟨d, hd, h⟩ := mem_escape hmem
    · exact h (by decide)
    · exact absurd (isWhitespace_of_mem_octal hd h) (by decide)
  have hword : ∀ o ∈ [m.id, m.parent, m.device, m.options] ++ m.optional, '\n' ∉ o :=
    fun o ho hmem => List.any_eq_false.mp (m.words o ho).2.2 _ hmem (by decide)
  simp only [forall_mem_append, forall_mem_cons] at hword
  simp [Mount.line, Mount.fields, hescape]
  grind

lemma splitOn_mountinfo (mounts : List Mount) :
    (mountinfo mounts).splitOn '\n' = mounts.map Mount.line ++ [[]] := by
  induction mounts with
  | nil => rfl
  | cons m mounts ih =>
    rw [mountinfo, flatMap_cons, append_assoc, singleton_append,
      splitOn_append_cons m.newline_notMem_line, ← mountinfo, ih]
    rfl

lemma any_lines_mountinfo (mounts : List Mount) : mountinfoHasFuseMount (mountinfo mounts) target =
      mounts.any fun m => mountinfoLineIsFuse m.line target := by
  have hstrip : ∀ line, mountinfoLineIsFuse
      (if line.getLast? = some '\r' then line.dropLast else line) target =
        mountinfoLineIsFuse line target := by
    intro line
    split
    · next hlast =>
      have hwords := splitWhitespace_append_cons (show isWhitespace '\r' = true by decide)
        line.dropLast []
      rw [dropLast_append_getLast? _ hlast] at hwords
      rw [mountinfoLineIsFuse, mountinfoLineIsFuse, hwords]
      simp [splitWhitespace]
    · rfl
  simp [mountinfoHasFuseMount, lines, splitOn_mountinfo, Function.comp_def, hstrip]

lemma plainSpaces_of_mountinfoHasFuseMount (h : mountinfoHasFuseMount s target = true) :
    PlainSpaces target := by
  obtain ⟨line, -, hline⟩ := List.any_eq_true.mp h
  unfold mountinfoLineIsFuse at hline
  split at hline
  · cases hline
  · next raw fields hdrop =>
    rw [Bool.and_eq_true, decide_eq_true_eq] at hline
    have hmem : raw ∈ splitWhitespace line :=
      mem_of_mem_drop (hdrop ▸ mem_cons_self : raw ∈ (splitWhitespace line).drop 4)
    exact hline.1 ▸ plainSpaces_decodeMountinfoField (of_mem_splitOnP (List.mem_filter.mp hmem).1)

def fuseAt (target : Str) (hne : target ≠ []) : Mount where
  id := ['2']
  parent := ['1']
  device := "0:1".toList
  root := ['/']
  mountpoint := target
  options := "rw".toList
  optional := []
  fstype := "fuse".toList
  source := []
  superOptions := []
  words := by decide
  texts := by simp [hne]

/-- The table has a FUSE mount at the target. -/
def FuseMounted (mounts : List Mount) (target : Str) : Prop :=
  ∃ m ∈ mounts, m.mountpoint = target ∧ isFuse m.fstype = true

/-- A table is read right exactly if the kernel escapes every white space in the target, or there is
no FUSE mount at it to be missed. -/
theorem mountinfo_read_right_iff {mounts : List Mount} {target : Str}
    (hmounts : ∀ m ∈ mounts, m.PlainBut target) :
    (mountinfoHasFuseMount (mountinfo mounts) target = true ↔ FuseMounted mounts target) ↔
      PlainSpaces target ∨ ¬FuseMounted mounts target := by
  constructor
  · intro h
    refine or_iff_not_imp_right.mpr fun hmounted => ?_
    exact plainSpaces_of_mountinfoHasFuseMount (h.mpr (not_not.mp hmounted))
  · intro h
    by_cases htarget : PlainSpaces target
    · rw [any_lines_mountinfo, List.any_eq_true]
      exact exists_congr fun m => and_congr_right fun hm =>
        mountinfoLineIsFuse_line (hmounts m hm) htarget
    · -- no table makes the program find such a target
      exact iff_of_false (fun hfound => htarget (plainSpaces_of_mountinfoHasFuseMount hfound))
        (h.resolve_left htarget)

def spacedTarget : Str := "/mnt/a\u00a0b".toList

def twoMounts : List Mount :=
  [fuseAt "/mnt/x".toList (by decide), fuseAt "/mnt/a b".toList (by decide)]

/-- A mounted target with a space, and one with a no-break space that is not mounted. -/
theorem mountinfo_read_right_of_twoMounts :
    (mountinfoHasFuseMount (mountinfo twoMounts) "/mnt/a b".toList = true ↔
      FuseMounted twoMounts "/mnt/a b".toList) ∧
    (mountinfoHasFuseMount (mountinfo twoMounts) spacedTarget = true ↔
      FuseMounted twoMounts spacedTarget) := by
  have hplain (target : Str) : ∀ m ∈ twoMounts, m.PlainBut target := by
    have htexts : ∀ m ∈ twoMounts,
        PlainSpaces m.root ∧ PlainSpaces m.fstype ∧ PlainSpaces m.mountpoint := by decide
    exact fun m hm => ⟨(htexts m hm).1, (htexts m hm).2.1, .inr (htexts m hm).2.2⟩
  refine ⟨(mountinfo_read_right_iff (hplain _)).mpr (.inl (by decide)),
    (mountinfo_read_right_iff (hplain _)).mpr (.inr ?_)⟩
  rintro ⟨m, hm, htarget, -⟩
  exact absurd htarget ((by decide : ∀ m ∈ twoMounts, m.mountpoint ≠ spacedTarget) m hm)

theorem fuse_mount_at_spaced_target_missed :
    FuseMounted [fuseAt spacedTarget (by decide)] spacedTarget ∧
    mountinfoHasFuseMount (mountinfo [fuseAt spacedTarget (by decide)]) spacedTarget = false :=
  ⟨⟨_, List.mem_singleton_self _, rfl, rfl⟩, by decide +kernel⟩

end TorrentFs.Main
