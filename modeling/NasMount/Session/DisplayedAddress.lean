import NasMount.Core.UncGrammar
import NasMount.Foundation.PercentEscape
import NasMount.Session.ShareAddress

/-!
# Reading a displayed address back

The display form escapes three characters and leaves all others literal. Whatever
the parser does with literal characters, the escapes keep the path free of the two
characters that would end it, and give the third one back.
-/
namespace NasMount.Session.ShareAddress

open NasMount.Foundation NasMount.Core QString

/-- A host of letters, digits, `.`, `_` and `-`. -/
def PlainHost (host : QString) : Prop := host ≠ [] ∧ ∀ c ∈ host, isHostChar c = true

/-- The URL with a host and a path and nothing else. -/
def smbUrl (host path : QString) : Url where
  valid := true
  scheme := qs "smb"
  host := host
  path := path

/-- How Qt takes `smb://host/path` apart: a path that ends neither in a query nor in a
fragment has its escapes decoded once, and the host loses its upper case. The
tolerant mode takes literal spaces and other characters, the strict one may not. -/
def ReadsAddresses (qt : Qt) : Prop :=
  ∀ mode host path decoded, PlainHost host → '?' ∉ path → '#' ∉ path →
    hasControlChars path = false → PercentEscape.decode path = some decoded →
    mode = .tolerant ∨ (qt.parseUrl mode (smbPrefix ++ (host ++ '/' :: path))).valid = true →
    qt.parseUrl mode (smbPrefix ++ (host ++ '/' :: path)) =
      smbUrl (host.map Char.toLower) ('/' :: decoded)

section Display

variable {qt : Qt} {raw unc host path username : QString}

/-- A displayed character reads back as itself. -/
theorem decode_displayChar (c : Char) (rest : QString) :
    PercentEscape.decode (displayChar c ++ rest) =
      (PercentEscape.decode rest).map (c :: ·) := by
  unfold displayChar
  split_ifs with hpercent hhash hquestion
  · rw [hpercent]
    exact @PercentEscape.decode_escaped '%' rest (by decide)
  · rw [hhash]
    exact @PercentEscape.decode_escaped '#' rest (by decide)
  · rw [hquestion]
    exact @PercentEscape.decode_escaped '?' rest (by decide)
  · exact PercentEscape.decode_cons hpercent

theorem displayChar_of_hostChar {c : Char} (h : isHostChar c = true) : displayChar c = [c] := by
  unfold displayChar
  have hpercent : c ≠ '%' := fun heq => nomatch (heq ▸ h : isHostChar '%' = true)
  have hhash : c ≠ '#' := fun heq => nomatch (heq ▸ h : isHostChar '#' = true)
  have hquestion : c ≠ '?' := fun heq => nomatch (heq ▸ h : isHostChar '?' = true)
  rw [if_neg hpercent, if_neg hhash, if_neg hquestion]

theorem display_host (h : PlainHost host) : host.flatMap displayChar = host := by
  have hsame : host.flatMap displayChar = host.flatMap fun c => [c] := by
    rw [List.flatMap, List.flatMap]
    apply congrArg List.flatten
    exact List.map_congr_left fun c hc => displayChar_of_hostChar (h.2 c hc)
  rw [hsame]
  exact List.flatMap_singleton' host

/-- The displayed form, part by part. -/
theorem displayUrl_uncText (h : PlainHost host) :
    displayUrl (uncText host path) = smbPrefix ++ (host ++ '/' :: path.flatMap displayChar) := by
  have hstrip : stripPrefix? (qs "//") (uncText host path) = some (host ++ '/' :: path) := by
    rw [stripPrefix?_eq_some]
    rfl
  rw [displayUrl, hstrip]
  dsimp only
  rw [List.flatMap_append, display_host h, List.flatMap_cons]
  rfl

/-- Displaying adds neither of the characters that end a path. -/
theorem notMem_display {c : Char} (hc : c = '?' ∨ c = '#') : c ∉ path.flatMap displayChar := by
  intro hmem
  obtain ⟨d, -, hd⟩ := List.mem_flatMap.mp hmem
  unfold displayChar at hd
  split_ifs at hd with hpercent hhash hquestion
  · rcases hc with rfl | rfl <;> exact absurd hd (by decide)
  · rcases hc with rfl | rfl <;> exact absurd hd (by decide)
  · rcases hc with rfl | rfl <;> exact absurd hd (by decide)
  · rcases hc with rfl | rfl
    · exact hquestion (List.mem_singleton.mp hd).symm
    · exact hhash (List.mem_singleton.mp hd).symm

theorem hasControlChars_display (h : hasControlChars path = false) :
    hasControlChars (path.flatMap displayChar) = false := by
  rw [hasControlChars, List.any_eq_false] at h ⊢
  intro c hc
  obtain ⟨d, hd, hcd⟩ := List.mem_flatMap.mp hc
  unfold displayChar at hcd
  split_ifs at hcd
  · exact List.any_eq_false.mp (by decide : hasControlChars (qs "%25") = false) c hcd
  · exact List.any_eq_false.mp (by decide : hasControlChars (qs "%23") = false) c hcd
  · exact List.any_eq_false.mp (by decide : hasControlChars (qs "%3F") = false) c hcd
  · rw [List.mem_singleton.mp hcd]
    exact h d hd

theorem hasBadEscape_display (path : QString) :
    hasBadEscape (path.flatMap displayChar) = false := by
  have hescape : ∀ a b rest, isHexDigit a = true → isHexDigit b = true → a ≠ '%' → b ≠ '%' →
      hasBadEscape ('%' :: a :: b :: rest) = hasBadEscape rest := by
    intro a b rest ha hb ha' hb'
    simp [hasBadEscape, ha, hb, ha', hb']
  induction path with
  | nil => rfl
  | cons c path ih =>
    rw [List.flatMap_cons, displayChar]
    split_ifs with hpercent hhash hquestion
    · exact (hescape '2' '5' _ (by decide) (by decide) (by decide) (by decide)).trans ih
    · exact (hescape '2' '3' _ (by decide) (by decide) (by decide) (by decide)).trans ih
    · exact (hescape '3' 'F' _ (by decide) (by decide) (by decide) (by decide)).trans ih
    · rw [List.singleton_append, hasBadEscape, ih]
      simp [hpercent]

theorem hasBadEscape_append {front : QString} (hfront : '%' ∉ front) (rest : QString) :
    hasBadEscape (front ++ rest) = hasBadEscape rest := by
  induction front with
  | nil => rfl
  | cons c front ih =>
    obtain ⟨hc, hfront⟩ := not_or.mp (List.mem_cons.not.mp hfront)
    rw [List.cons_append, hasBadEscape, ih hfront]
    simp [Ne.symm hc]

/-- The URL of a displayed address, whichever mode reads it. -/
theorem readUrl_display (laws : ReadsAddresses qt) (hhost : PlainHost host)
    (hpath : hasControlChars path = false) :
    readUrl qt (smbPrefix ++ (host ++ '/' :: path.flatMap displayChar)) =
      .ok (smbUrl (host.map Char.toLower) ('/' :: path)) := by
  have hparse : ∀ mode, mode = .tolerant ∨
      (qt.parseUrl mode (smbPrefix ++ (host ++ '/' :: path.flatMap displayChar))).valid = true →
      qt.parseUrl mode (smbPrefix ++ (host ++ '/' :: path.flatMap displayChar)) =
        smbUrl (host.map Char.toLower) ('/' :: path) := by
    intro mode hmode
    apply laws mode host _ path hhost
    · exact notMem_display (Or.inl rfl)
    · exact notMem_display (Or.inr rfl)
    · exact hasControlChars_display hpath
    · exact PercentEscape.decode_flatMap decode_displayChar path
    · exact hmode
  have hescapes : hasBadEscape (smbPrefix ++ (host ++ '/' :: path.flatMap displayChar)) =
      false := by
    have hplain : '%' ∉ smbPrefix ++ (host ++ ['/']) := by
      rw [List.mem_append, List.mem_append, not_or, not_or]
      refine ⟨by decide, fun hmem => ?_, by decide⟩
      exact nomatch (hhost.2 _ hmem : isHostChar '%' = true)
    have hfront := hasBadEscape_append hplain (path.flatMap displayChar)
    rw [hasBadEscape_display, List.append_assoc, List.append_assoc] at hfront
    exact hfront
  unfold readUrl
  dsimp only
  by_cases hstrict :
      (qt.parseUrl .strict (smbPrefix ++ (host ++ '/' :: path.flatMap displayChar))).valid = true
  · rw [if_pos hstrict, hparse .strict (Or.inr hstrict)]
  · rw [if_neg hstrict, hescapes, if_neg Bool.false_ne_true, hparse .tolerant (Or.inl rfl)]
    rfl

/-- What is checked of the characters of a host can be checked of the ASCII
characters one by one. -/
theorem forall_hostChar {P : Char → Bool}
    (h : (List.range 128).all (fun n => !isHostChar (Char.ofNat n) || P (Char.ofNat n)) = true)
    {c : Char} (hc : isHostChar c = true) : P c = true := by
  have hascii : c.toNat < 128 := by
    have hbelow : ∀ d : Char, d.toNat < 128 → c ≤ d → c.toNat < 128 :=
      fun d hd hle => Nat.lt_of_le_of_lt (UInt32.le_iff_toNat_le.mp hle) hd
    simp only [isHostChar, isDigit, Bool.or_eq_true, Bool.and_eq_true, decide_eq_true_eq,
      beq_iff_eq] at hc
    rcases hc with ((((⟨-, hc⟩ | ⟨-, hc⟩) | ⟨-, hc⟩) | rfl) | rfl) | rfl
    · exact hbelow '9' (by decide) hc
    · exact hbelow 'Z' (by decide) hc
    · exact hbelow 'z' (by decide) hc
    · decide
    · decide
    · decide
  have hcheck := List.all_eq_true.mp h c.toNat (List.mem_range.mpr hascii)
  rw [Char.ofNat_toNat, hc] at hcheck
  exact hcheck

theorem isHostChar_toLower {c : Char} (h : isHostChar c = true) : isHostChar c.toLower = true :=
  forall_hostChar (P := fun c => isHostChar c.toLower) (by decide +kernel) h

theorem plainHost_toLower (h : PlainHost host) : PlainHost (host.map Char.toLower) := by
  constructor
  · simpa using h.1
  · intro c hc
    obtain ⟨d, hd, rfl⟩ := List.mem_map.mp hc
    exact isHostChar_toLower (h.2 d hd)

theorem stripSlashes_path (hhead : path.head? ≠ some '/') (hlast : path.getLast? ≠ some '/') :
    stripSlashes ('/' :: path) = path := by
  have hdrop : ('/' :: path).dropWhile (· = '/') = path := by
    cases path with
    | nil => rfl
    | cons c path =>
      have hc : c ≠ '/' := fun heq => hhead (heq ▸ rfl)
      simp [hc]
  have hchop := chopTrailing_append hlast (fun _ h => nomatch (h : _ ∈ ([] : QString)))
  rw [List.append_nil] at hchop
  rw [stripSlashes, hdrop, hchop]

/-- What a UNC that was accepted consists of. -/
structure Address (host path : QString) : Prop extends UncParts host path where
  control : hasControlChars path = false
  comma : ',' ∉ path
  chopped : path.getLast? ≠ some '/'

theorem Address.plainHost (h : Address host path) : PlainHost host := ⟨h.host_ne, h.hostChar⟩

theorem hasControlChars_uncText (hhost : PlainHost host) :
    hasControlChars (uncText host path) = hasControlChars path := by
  have hnone : hasControlChars host = false := by
    rw [hasControlChars, List.any_eq_false]
    intro c hc
    have hplain := forall_hostChar (P := fun c => !(decide (c.toNat < 0x20) || c.toNat == 0x7F))
      (by decide +kernel) (hhost.2 c hc)
    simpa using hplain
  have hparts : hasControlChars (uncText host path) =
      (hasControlChars (qs "//") || (hasControlChars host || (hasControlChars (qs "/") ||
        hasControlChars path))) := by
    rw [hasControlChars, hasControlChars, hasControlChars, hasControlChars, hasControlChars,
      ← List.any_append, ← List.any_append, ← List.any_append]
    rfl
  rw [hparts, hnone]
  rfl

theorem comma_notMem_uncText (hhost : PlainHost host) : ',' ∉ uncText host path ↔ ',' ∉ path := by
  have hnone : ',' ∉ host := fun hmem => nomatch (hhost.2 _ hmem : isHostChar ',' = true)
  simp [uncText, hnone]

theorem getLast?_uncText (hpath : path ≠ []) : (uncText host path).getLast? = path.getLast? := by
  have hparts : uncText host path = (qs "//" ++ host ++ qs "/") ++ path := by
    rw [List.append_assoc, List.append_assoc]
    rfl
  rw [hparts, List.getLast?_append_of_ne_nil _ hpath]

/-- The accepted UNCs are the addresses. -/
theorem Address.validateUnc (h : Address host path) :
    validateUnc (uncText host path) = .ok (uncText host path) := by
  apply validateUnc_eq_ok.mpr
  constructor
  · exact ⟨[], nofun, (List.append_nil _).symm⟩
  · rw [getLast?_uncText h.path_ne]
    exact h.chopped
  · exact ⟨host, path, h.toUncParts, rfl⟩
  · rw [hasControlChars_uncText h.plainHost]
    exact h.control
  · exact (comma_notMem_uncText h.plainHost).mpr h.comma

theorem address_of_validateUnc (h : validateUnc raw = .ok unc)
    (hcaptures : uncCaptures unc = some (host, path)) :
    Address host path ∧ unc = uncText host path := by
  have hgrammar := validateUnc_eq_ok.mp h
  obtain ⟨host', path', hparts, hform⟩ := hgrammar.form
  have hsame : uncCaptures unc = some (host', path') :=
    uncCaptures_eq_some.mpr
      ⟨hform, hparts.host_ne, hparts.hostChar, hparts.path_ne, hparts.path_head⟩
  rw [hcaptures, Option.some.injEq, Prod.mk.injEq] at hsame
  obtain ⟨rfl, rfl⟩ := hsame
  obtain ⟨slashes, -, hraw⟩ := hgrammar.trailing
  have hhost : PlainHost host := ⟨hparts.host_ne, hparts.hostChar⟩
  have hcontrol : hasControlChars unc = false := by
    have hall := hgrammar.control
    rw [hraw, hasControlChars, List.any_append, Bool.or_eq_false_iff] at hall
    exact hall.1
  have hcomma : ',' ∉ unc := fun hmem => hgrammar.comma (hraw ▸ List.mem_append_left _ hmem)
  rw [hform] at hcontrol hcomma
  refine ⟨⟨hparts, ?_, ?_, ?_⟩, hform⟩
  · rwa [hasControlChars_uncText hhost] at hcontrol
  · exact (comma_notMem_uncText hhost).mp hcomma
  · rw [← getLast?_uncText hparts.path_ne, ← hform]
    exact hgrammar.chopped

theorem Address.toLower (h : Address host path) : Address (host.map Char.toLower) path := by
  have hhost := plainHost_toLower h.plainHost
  exact { h with host_ne := hhost.1, hostChar := hhost.2 }

/-- A displayed address is parsed to its own UNC, and names no user. -/
theorem parseSmbUrl_displayUrl (laws : ReadsAddresses qt) (h : Address host path) :
    parseSmbUrl qt (displayUrl (uncText host path)) =
      .ok (uncText (host.map Char.toLower) path, []) := by
  have hhost := plainHost_toLower h.plainHost
  have hcolon : (host.map Char.toLower).contains ':' = false := by
    rw [List.contains_eq_mem, decide_eq_false_iff_not]
    exact fun hmem => nomatch (hhost.2 _ hmem : isHostChar ':' = true)
  have hcontrol : hasControlChars (host.map Char.toLower) = false := by
    have hboth := h.toLower.control
    rw [← hasControlChars_uncText hhost, hasControlChars] at hboth
    rw [hasControlChars, List.any_eq_false] at *
    intro c hc
    exact hboth c (by simp [uncText, hc])
  have hstrip := stripSlashes_path h.path_head h.chopped
  rw [displayUrl_uncText h.plainHost, parseSmbUrl]
  simp only [bind_eq_ok, require_eq_ok, exists_const, pure_eq_ok]
  refine ⟨_, readUrl_display laws h.plainHost h.control, decide_eq_true rfl, ?_, ?_, ?_, ?_, ?_, ?_⟩
  · rfl
  · exact decide_eq_true hhost.1
  · rw [smbUrl, hcolon, Bool.not_false]
  · rw [smbUrl, hstrip]
    exact decide_eq_true h.path_ne
  · rw [smbUrl, hstrip, hcontrol, h.control]
    rfl
  · rw [smbUrl, hstrip, uncText, List.append_assoc, List.append_assoc]
    rfl

/-- A displayed address reads back as the same share. -/
theorem resolveShareInput_displayUrl (laws : ReadsAddresses qt) (h : Address host path)
    (username : QString) :
    resolveShareInput qt (displayUrl (uncText host path)) username =
      .ok (uncText (host.map Char.toLower) path) := by
  have hmarked : hasSmbPrefix qt (displayUrl (uncText host path)) = true := by
    rw [displayUrl_uncText h.plainHost, hasSmbPrefix, List.take_left]
    exact decide_eq_true rfl
  have hvalid := h.toLower.validateUnc
  obtain ⟨-, hcontrol, hcomma, -⟩ := validateUnc_ok hvalid
  rw [resolveShareInput, readShareInput, if_pos hmarked, parseSmbUrl_displayUrl laws h]
  simp only [bind_eq_ok, require_eq_ok, exists_const, pure_eq_ok, mapError_eq_ok]
  refine ⟨_, rfl, ?_, ?_, _, hvalid, (), rfl, rfl⟩
  · rw [hcontrol, Bool.not_false]
  · simpa using hcomma

/-- The host of a URL: no upper case, and no slash. -/
def UrlHost (host : QString) : Prop := host.map Char.toLower = host ∧ '/' ∉ host

/-- The parts before the first slash are the same. -/
theorem append_slash_inj {a b s t : QString} (ha : '/' ∉ a) (hb : '/' ∉ b)
    (h : a ++ '/' :: s = b ++ '/' :: t) : a = b ∧ s = t := by
  have hsplit := congrArg (split '/') h
  rw [split_append_sep ha, split_append_sep hb] at hsplit
  obtain rfl := (List.cons.inj hsplit).1
  exact ⟨rfl, (List.cons.inj (List.append_cancel_left h)).2⟩

/-- An accepted `//host/path` loses the slashes at its end. -/
theorem address_of_uncText (hhost : '/' ∉ host) (h : validateUnc (uncText host path) = .ok unc) :
    Address host (chopTrailing '/' path) ∧ unc = uncText host (chopTrailing '/' path) := by
  have hgrammar := validateUnc_eq_ok.mp h
  obtain ⟨slashes, hslashes, hraw⟩ := hgrammar.trailing
  obtain ⟨host', path', hparts, hform⟩ := hgrammar.form
  have hcaptures : uncCaptures unc = some (host', path') :=
    uncCaptures_eq_some.mpr
      ⟨hform, hparts.host_ne, hparts.hostChar, hparts.path_ne, hparts.path_head⟩
  obtain ⟨haddress, -⟩ := address_of_validateUnc h hcaptures
  have hhost' : '/' ∉ host' := fun hmem => nomatch (hparts.hostChar _ hmem : isHostChar '/' = true)
  have hbelow : host ++ '/' :: path = host' ++ '/' :: (path' ++ slashes) := by
    rw [hform, uncText, uncText] at hraw
    simpa using hraw
  obtain ⟨rfl, rfl⟩ := append_slash_inj hhost hhost' hbelow
  rw [chopTrailing_append haddress.chopped hslashes]
  exact ⟨haddress, hform⟩

/-- A picked address reads back as the share it names. -/
theorem resolveShareInput_browsed (laws : ReadsAddresses qt) {picked : Url}
    {slashes : QString} {browsed : BrowsedShare} (hhost : UrlHost picked.host)
    (hslashes : ∀ c ∈ slashes, c = '/') (hpath : picked.path = slashes ++ path)
    (hbrowsed : browsedShareInput qt picked = .ok browsed)
    (h : validateUnc (uncText picked.host path) = .ok unc) :
    unc = uncText picked.host (chopTrailing '/' path) ∧
      ∀ username, resolveShareInput qt browsed.input username = .ok unc := by
  obtain ⟨haddress, rfl⟩ := address_of_uncText hhost.2 h
  refine ⟨rfl, ?_⟩
  have hhead : path.head? ≠ some '/' := by
    obtain ⟨rest, -, hrest⟩ := (chopTrailing_trailing '/' path).1
    rw [hrest, List.head?_append_of_ne_nil _ haddress.path_ne]
    exact haddress.path_head
  have hstrip : stripSlashes picked.path = chopTrailing '/' path := by
    have hdrop : path.dropWhile (· = '/') = path := by
      cases path with
      | nil => rfl
      | cons c path =>
        have hc : c ≠ '/' := fun heq => hhead (heq ▸ rfl)
        simp [hc]
    rw [stripSlashes, hpath,
      List.dropWhile_append_of_pos fun c hc => decide_eq_true (hslashes c hc), hdrop]
  have hinput : browsed.input = displayUrl (uncText picked.host (chopTrailing '/' path)) := by
    simp only [browsedShareInput, bind_eq_ok, require_eq_ok, exists_const, pure_eq_ok] at hbrowsed
    obtain ⟨-, -, -, -, -, rfl⟩ := hbrowsed
    dsimp only
    rw [hstrip, if_neg haddress.path_ne, uncText, List.append_assoc, List.append_assoc]
    rfl
  intro username
  rw [hinput, resolveShareInput_displayUrl laws haddress, hhost.1]

end Display

/-- Reading a URL with a plain host: the escapes are decoded once, and the strict
mode takes no literal space. -/
def addressUrl (mode : ParsingMode) (text : QString) : Url :=
  match stripPrefix? smbPrefix text with
  | none => .none
  | some rest =>
    let host := rest.takeWhile (· ≠ '/')
    let path := (rest.dropWhile (· ≠ '/')).drop 1
    if (host = [] ∧ path ≠ []) ∨ host.all isHostChar = false ∨ '?' ∈ path ∨ '#' ∈ path ∨
        mode = .strict ∧ ' ' ∈ path then .none
    else
      match PercentEscape.decode path with
      | none => .none
      | some decoded => smbUrl (host.map Char.toLower) ('/' :: decoded)

def escapedChars : List Char :=
  ['"', '#', '%', '<', '>', '?', '[', '\\', ']', '^', '\x60', '\x7b', '|', '\x7d']

/-- The characters that a URL spells as an escape. -/
def isEscaped (c : Char) : Bool :=
  c.toNat ≤ 0x20 || c.toNat == 0x7F || escapedChars.contains c

def encodeChar (c : Char) : QString := if isEscaped c then PercentEscape.escaped c else [c]

/-- Qt on addresses with a plain host and a path of ASCII characters. -/
def addressQt : Qt where
  foldCase := Char.toLower
  parseUrl := addressUrl
  setHost url host := { url with valid := host.all isHostChar, host := host.map Char.toLower }
  setPath url path := { url with path := path }
  encoded url :=
    if url.valid then smbPrefix ++ (url.host ++ url.path.flatMap encodeChar) else []

theorem hostChar_notSlash {host : QString} (h : ∀ c ∈ host, isHostChar c = true) :
    ∀ c ∈ host, decide (c ≠ '/') = true := by
  intro c hc
  apply decide_eq_true
  rintro rfl
  exact nomatch (h _ hc : isHostChar '/' = true)

/-- The reading of an address, part by part. -/
theorem addressUrl_eq (mode : ParsingMode) {host path : QString} (hhost : PlainHost host) :
    addressUrl mode (smbPrefix ++ (host ++ '/' :: path)) =
      if '?' ∈ path ∨ '#' ∈ path ∨ mode = .strict ∧ ' ' ∈ path then .none
      else
        match PercentEscape.decode path with
        | none => .none
        | some decoded => smbUrl (host.map Char.toLower) ('/' :: decoded) := by
  have hstrip : stripPrefix? smbPrefix (smbPrefix ++ (host ++ '/' :: path)) =
      some (host ++ '/' :: path) := stripPrefix?_eq_some.mpr rfl
  have htake : (host ++ '/' :: path).takeWhile (· ≠ '/') = host := by
    rw [List.takeWhile_append_of_pos (hostChar_notSlash hhost.2)]
    simp
  have hdrop : (host ++ '/' :: path).dropWhile (· ≠ '/') = '/' :: path := by
    rw [List.dropWhile_append_of_pos (hostChar_notSlash hhost.2)]
    simp
  have hall : host.all isHostChar = true := List.all_eq_true.mpr hhost.2
  rw [addressUrl, hstrip]
  dsimp only
  rw [htake, hdrop, List.drop_one, List.tail_cons, hall]
  simp only [hhost.1, false_and, Bool.true_eq_false, false_or]

theorem addressQt_reads : ReadsAddresses addressQt := by
  intro mode host path decoded hhost hquestion hhash hcontrol hdecode hmode
  have hurl := @addressUrl_eq mode host path hhost
  rw [hdecode] at hurl
  simp only [hquestion, hhash, false_or] at hurl
  rw [addressQt] at hmode ⊢
  dsimp only at hmode ⊢
  rw [hurl] at hmode ⊢
  split_ifs at hmode ⊢ with hspace
  · rcases hmode with htolerant | hvalid
    · rw [htolerant] at hspace
      exact nomatch hspace.1
    · exact nomatch hvalid
  · rfl

/-- A displayed address, and the address of a picked folder, read back as the same
share. -/
theorem displayed_address_reads_back {qt : Qt} (laws : ReadsAddresses qt) :
    (∀ raw unc host path username, validateUnc raw = .ok unc → uncCaptures unc = some (host, path) →
      resolveShareInput qt (displayUrl unc) username =
        .ok (uncText (host.map Char.toLower) path)) ∧
    ∀ (picked : Url) (slashes path : QString) (browsed : BrowsedShare) (unc username : QString),
      UrlHost picked.host → (∀ c ∈ slashes, c = '/') → picked.path = slashes ++ path →
      browsedShareInput qt picked = .ok browsed →
      validateUnc (uncText picked.host path) = .ok unc →
      unc = uncText picked.host (chopTrailing '/' path) ∧
        resolveShareInput qt browsed.input username = .ok unc := by
  constructor
  · intro raw unc host path username h hcaptures
    obtain ⟨haddress, rfl⟩ := address_of_validateUnc h hcaptures
    exact resolveShareInput_displayUrl laws haddress username
  · intro picked slashes path browsed unc username hhost hslashes hpath hbrowsed h
    obtain ⟨hunc, hresolve⟩ := resolveShareInput_browsed laws hhost hslashes hpath hbrowsed h
    exact ⟨hunc, hresolve username⟩

theorem displayed_address_reads_back_sample :
    resolveShareInput addressQt (displayUrl (qs "//NAS/Media Library/100%25#1?")) (qs "alice") =
        .ok (qs "//nas/Media Library/100%25#1?") ∧
      ∃ browsed, browsedShareInput addressQt (smbUrl (qs "nas") (qs "//Films//")) = .ok browsed ∧
        resolveShareInput addressQt browsed.input [] = .ok (qs "//nas/Films") := by
  constructor
  · exact (displayed_address_reads_back addressQt_reads).1 (qs "//NAS/Media Library/100%25#1?")
      (qs "//NAS/Media Library/100%25#1?") (qs "NAS") (qs "Media Library/100%25#1?") (qs "alice")
      (by decide +kernel) (by decide +kernel)
  · have hslashes : (qs "//").all (· = '/') = true := by decide
    refine ⟨{ input := qs "smb://nas/Films", user := [] }, by decide +kernel, ?_⟩
    exact ((displayed_address_reads_back addressQt_reads).2 (smbUrl (qs "nas") (qs "//Films//"))
      (qs "//") (qs "Films//") _ (qs "//nas/Films") [] ⟨by decide +kernel, by decide +kernel⟩
      (fun c hc => of_decide_eq_true (List.all_eq_true.mp hslashes c hc)) (by decide +kernel)
      (by decide +kernel) (by decide +kernel)).2

end NasMount.Session.ShareAddress
