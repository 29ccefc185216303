import NasMount.Session.DisplayedAddress

/-!
# The key of a stored login

The key is the URL of the server and the first path component. A displayed address
passes through the parser, which folds the host, before the key is built; a `//`
address does not, and the key builder takes a host that the URL spells otherwise for
no host at all.
-/
namespace NasMount.Session.ShareAddress

open NasMount.Foundation NasMount.Core QString

/-- What the keys rely on in Qt. -/
structure LookupUrls (qt : Qt) : Prop where
  reads : ReadsAddresses qt
  /-- A slash is not a letter in either case. -/
  slash : qt.foldCase '/' ≠ qt.foldCase 's'
  /-- The setters: the host loses its upper case, the path is taken as it is. -/
  target : ∀ host share, PlainHost host → share ≠ [] → '/' ∉ share →
    qt.setPath (qt.setHost (qt.parseUrl .tolerant (qs "smb:///")) host) ('/' :: share) =
      smbUrl (host.map Char.toLower) ('/' :: share)
  /-- A URL that is printed fully encoded parses back strictly to itself. -/
  reparses : ∀ host share, PlainHost host → host.map Char.toLower = host → share ≠ [] →
    '/' ∉ share →
    qt.parseUrl .strict (qt.encoded (smbUrl host ('/' :: share))) = smbUrl host ('/' :: share)
  /-- The empty text is no URL. -/
  empty : (qt.parseUrl .strict []).valid = false

section Keys

variable {qt : Qt} {host path : QString}

/-- The first component of the path of an address. -/
def firstComponent (path : QString) : QString := uncSection path 0

theorem firstComponent_ne_nil (hne : path ≠ []) (hhead : path.head? ≠ some '/') :
    firstComponent path ≠ [] := by
  obtain ⟨c, cs, rfl⟩ := List.exists_cons_of_ne_nil hne
  have hc : c ≠ '/' := fun heq => hhead (heq ▸ rfl)
  obtain ⟨part, parts, hparts⟩ := List.exists_cons_of_ne_nil (split_ne_nil '/' cs)
  rw [firstComponent, uncSection, split, if_neg hc, hparts]
  exact List.cons_ne_nil c part

theorem slash_notMem_firstComponent (path : QString) : '/' ∉ firstComponent path := by
  obtain ⟨part, parts, hparts⟩ := List.exists_cons_of_ne_nil (split_ne_nil '/' path)
  rw [firstComponent, uncSection, hparts]
  apply @notMem_of_mem_split '/' path
  rw [hparts]
  exact List.mem_cons_self

theorem toLower_toLower (h : PlainHost host) :
    (host.map Char.toLower).map Char.toLower = host.map Char.toLower := by
  rw [List.map_map]
  apply List.map_congr_left
  intro c hc
  exact of_decide_eq_true
    (forall_hostChar (P := fun c => c.toLower.toLower = c.toLower) (by decide +kernel) (h.2 c hc))

/-- A `//` address is resolved to itself. -/
theorem resolveShareInput_uncText (laws : LookupUrls qt) (h : Address host path)
    (username : QString) :
    resolveShareInput qt (uncText host path) username = .ok (uncText host path) := by
  have hunmarked : hasSmbPrefix qt (uncText host path) = false := by
    rw [hasSmbPrefix, Qt.sameFolded, decide_eq_false_iff_not]
    intro hsame
    exact laws.slash (List.cons.inj hsame).1
  have hslashes : startsWith (uncText host path) (qs "//") = true := by
    have hstrip : stripPrefix? (qs "//") (uncText host path) = some (host ++ '/' :: path) :=
      stripPrefix?_eq_some.mpr rfl
    rw [startsWith, hstrip]
    rfl
  have hvalid := h.validateUnc
  obtain ⟨-, hcontrol, hcomma, -⟩ := validateUnc_ok hvalid
  rw [resolveShareInput, readShareInput, hunmarked, if_neg Bool.false_ne_true, if_pos hslashes]
  simp only [bind_eq_ok, require_eq_ok, exists_const, pure_eq_ok, mapError_eq_ok]
  refine ⟨_, rfl, ?_, ?_, _, hvalid, (), rfl, rfl⟩
  · rw [hcontrol, Bool.not_false]
  · simpa using hcomma

/-- The target of an address has the host as it is written, or there is none. -/
theorem authLookupTarget_uncText (laws : LookupUrls qt) (h : Address host path) :
    authLookupTarget qt (uncText host path) =
      if host.map Char.toLower = host then smbUrl host ('/' :: firstComponent path)
      else .none := by
  have hslash : '/' ∉ host := fun hmem => nomatch (h.hostChar _ hmem : isHostChar '/' = true)
  have hrest : (uncText host path).dropWhile (· = '/') = host ++ '/' :: path := by
    obtain ⟨c, cs, rfl⟩ := List.exists_cons_of_ne_nil h.host_ne
    have hc : c ≠ '/' := fun heq => hslash (heq ▸ List.mem_cons_self)
    simp [uncText, hc]
  have hfirst := firstComponent_ne_nil h.path_ne h.path_head
  have hhost : uncSection (host ++ '/' :: path) 0 = host := by
    rw [uncSection, split_append_sep hslash]
    rfl
  have hshare : uncSection (host ++ '/' :: path) 1 = firstComponent path := by
    rw [uncSection, split_append_sep hslash]
    rfl
  have htarget := laws.target host (firstComponent path) h.plainHost hfirst
    (slash_notMem_firstComponent path)
  rw [authLookupTarget, hrest]
  dsimp only
  rw [hhost, hshare, if_neg (not_or.mpr ⟨h.host_ne, hfirst⟩), htarget]
  by_cases hlower : host.map Char.toLower = host
  · rw [hlower, if_pos rfl, if_neg (by simp [smbUrl])]
  · rw [if_neg hlower]
    exact if_pos (Or.inr hlower)

/-- The key of a server and a share. -/
def keyOf (qt : Qt) (host path : QString) : QString :=
  qt.encoded (smbUrl (host.map Char.toLower) ('/' :: firstComponent path))

/-- The displayed address has the key of its server and share. -/
theorem lookupTargetOf_displayUrl (laws : LookupUrls qt) (h : Address host path) :
    lookupTargetOf qt (displayUrl (uncText host path)) = keyOf qt host path := by
  rw [lookupTargetOf, resolveShareInput_displayUrl laws.reads h]
  dsimp only
  rw [authLookupTarget_uncText laws h.toLower, if_pos (toLower_toLower h.plainHost)]
  rfl

/-- The `//` address has it where its host is written without upper case, and no key
otherwise. -/
theorem lookupTargetOf_uncText (laws : LookupUrls qt) (h : Address host path) :
    lookupTargetOf qt (uncText host path) =
      if host.map Char.toLower = host then keyOf qt host path else [] := by
  rw [lookupTargetOf, resolveShareInput_uncText laws h]
  dsimp only
  rw [authLookupTarget_uncText laws h]
  by_cases hlower : host.map Char.toLower = host
  · rw [if_pos hlower, if_pos hlower, keyOf, hlower]
    rfl
  · rw [if_neg hlower, if_neg hlower]
    rfl

theorem keyOf_ne_nil (laws : LookupUrls qt) (h : Address host path) : keyOf qt host path ≠ [] := by
  intro hempty
  have hparse := laws.reparses (host.map Char.toLower) (firstComponent path)
    (plainHost_toLower h.plainHost) (toLower_toLower h.plainHost)
    (firstComponent_ne_nil h.path_ne h.path_head) (slash_notMem_firstComponent path)
  have hinvalid := laws.empty
  rw [← keyOf, hempty] at hparse
  rw [hparse] at hinvalid
  exact nomatch hinvalid

/-- Keys tell servers and shares apart, and nothing else. -/
theorem keyOf_inj (laws : LookupUrls qt) {host' path' : QString} (h : Address host path)
    (h' : Address host' path') :
    keyOf qt host path = keyOf qt host' path' ↔
      host.map Char.toLower = host'.map Char.toLower ∧
        firstComponent path = firstComponent path' := by
  constructor
  · intro hkeys
    have hparse := laws.reparses (host.map Char.toLower) (firstComponent path)
      (plainHost_toLower h.plainHost) (toLower_toLower h.plainHost)
      (firstComponent_ne_nil h.path_ne h.path_head) (slash_notMem_firstComponent path)
    have hparse' := laws.reparses (host'.map Char.toLower) (firstComponent path')
      (plainHost_toLower h'.plainHost) (toLower_toLower h'.plainHost)
      (firstComponent_ne_nil h'.path_ne h'.path_head) (slash_notMem_firstComponent path')
    rw [← keyOf] at hparse hparse'
    have hurls := hparse.symm.trans ((congrArg (qt.parseUrl .strict) hkeys).trans hparse')
    exact ⟨congrArg Url.host hurls, (List.cons.inj (congrArg Url.path hurls)).2⟩
  · rintro ⟨hhost, hshare⟩
    rw [keyOf, keyOf, hhost, hshare]

/-- Two addresses in both spellings: every spelling has a key, the spellings of one
address have the same, and two addresses have the same exactly if they are in one
share of one server. -/
structure KeysAgree (qt : Qt) (unc unc' host path host' path' : QString) : Prop where
  spelling : lookupTargetOf qt unc = lookupTargetOf qt (displayUrl unc) ∧
    lookupTargetOf qt unc ≠ []
  spelling' : lookupTargetOf qt unc' = lookupTargetOf qt (displayUrl unc') ∧
    lookupTargetOf qt unc' ≠ []
  same : lookupTargetOf qt unc = lookupTargetOf qt unc' ↔
    host.map Char.toLower = host'.map Char.toLower ∧ firstComponent path = firstComponent path'

/-- The keys agree exactly where both hosts are written without upper case. The
displayed spelling is right in any case. -/
theorem lookupTargetOf_agrees (laws : LookupUrls qt) {raw raw' unc unc' host' path' : QString}
    (h : validateUnc raw = .ok unc) (hcaptures : uncCaptures unc = some (host, path))
    (h' : validateUnc raw' = .ok unc') (hcaptures' : uncCaptures unc' = some (host', path')) :
    (KeysAgree qt unc unc' host path host' path' ↔
      host.map Char.toLower = host ∧ host'.map Char.toLower = host') ∧
    lookupTargetOf qt (displayUrl unc) ≠ [] ∧
    (lookupTargetOf qt (displayUrl unc) = lookupTargetOf qt (displayUrl unc') ↔
      host.map Char.toLower = host'.map Char.toLower ∧
        firstComponent path = firstComponent path') := by
  obtain ⟨haddress, rfl⟩ := address_of_validateUnc h hcaptures
  obtain ⟨haddress', rfl⟩ := address_of_validateUnc h' hcaptures'
  have hlower : ∀ {host path}, Address host path → lookupTargetOf qt (uncText host path) ≠ [] →
      host.map Char.toLower = host := by
    intro host path haddress hne
    by_contra hupper
    rw [lookupTargetOf_uncText laws haddress, if_neg hupper] at hne
    exact hne rfl
  rw [lookupTargetOf_displayUrl laws haddress, lookupTargetOf_displayUrl laws haddress']
  refine ⟨?_, keyOf_ne_nil laws haddress, keyOf_inj laws haddress haddress'⟩
  constructor
  · intro hagree
    exact ⟨hlower haddress hagree.spelling.2, hlower haddress' hagree.spelling'.2⟩
  · rintro ⟨hhost, hhost'⟩
    have hkey := lookupTargetOf_uncText laws haddress
    have hkey' := lookupTargetOf_uncText laws haddress'
    rw [if_pos hhost] at hkey
    rw [if_pos hhost'] at hkey'
    constructor
    · rw [lookupTargetOf_displayUrl laws haddress, hkey]
      exact ⟨rfl, keyOf_ne_nil laws haddress⟩
    · rw [lookupTargetOf_displayUrl laws haddress', hkey']
      exact ⟨rfl, keyOf_ne_nil laws haddress'⟩
    · rw [hkey, hkey']
      exact keyOf_inj laws haddress haddress'

end Keys

section Samples

theorem isEscaped_ascii {c : Char} (h : isEscaped c = true) : c.toNat < 128 := by
  have hlist : escapedChars.all (fun c => decide (c.toNat < 128)) = true := by decide
  rw [isEscaped, Bool.or_eq_true, Bool.or_eq_true, decide_eq_true_eq, beq_iff_eq,
    List.contains_eq_mem, decide_eq_true_eq] at h
  rcases h with (h | h) | h
  · omega
  · omega
  · exact of_decide_eq_true (List.all_eq_true.mp hlist c h)

theorem decode_encodeChar (c : Char) (rest : QString) :
    PercentEscape.decode (encodeChar c ++ rest) = (PercentEscape.decode rest).map (c :: ·) := by
  rw [encodeChar]
  split_ifs with hescaped
  · exact PercentEscape.decode_escaped (isEscaped_ascii hescaped)
  · apply PercentEscape.decode_cons
    rintro rfl
    exact hescaped (by decide)

/-- A printed path has none of the characters that a strict reading stops at. -/
theorem notMem_encode {c : Char} (hc : c = '?' ∨ c = '#' ∨ c = ' ') (s : QString) :
    c ∉ s.flatMap encodeChar := by
  have hplain : (List.range 128).all (fun n =>
      (PercentEscape.escaped (Char.ofNat n)).all fun d =>
        !(['?', '#', ' '].contains d)) = true := by
    decide +kernel
  intro hmem
  obtain ⟨d, -, hd⟩ := List.mem_flatMap.mp hmem
  rw [encodeChar] at hd
  split_ifs at hd with hescaped
  · have hall := List.all_eq_true.mp hplain d.toNat (List.mem_range.mpr (isEscaped_ascii hescaped))
    rw [Char.ofNat_toNat] at hall
    have hcheck := List.all_eq_true.mp hall c hd
    rcases hc with rfl | rfl | rfl
    · exact nomatch hcheck
    · exact nomatch hcheck
    · exact nomatch hcheck
  · obtain rfl := List.mem_singleton.mp hd
    rcases hc with rfl | rfl | rfl
    · exact hescaped (by decide)
    · exact hescaped (by decide)
    · exact hescaped (by decide)

theorem addressQt_laws : LookupUrls addressQt where
  reads := addressQt_reads
  slash := by decide
  target := by
    intro host share hhost _ _
    have hstart : addressUrl .tolerant (qs "smb:///") = smbUrl [] ['/'] := by decide +kernel
    have hall : host.all isHostChar = true := List.all_eq_true.mpr hhost.2
    rw [addressQt]
    dsimp only
    rw [hstart, hall]
    rfl
  reparses := by
    intro host share hhost hlower _ _
    have hslash : ('/' :: share).flatMap encodeChar = '/' :: share.flatMap encodeChar := rfl
    have hurl := @addressUrl_eq .strict host (share.flatMap encodeChar) hhost
    rw [PercentEscape.decode_flatMap decode_encodeChar, if_neg, hlower] at hurl
    · rw [addressQt]
      dsimp only [smbUrl]
      rw [if_pos rfl, hslash]
      exact hurl
    · simp only [notMem_encode (Or.inl rfl), notMem_encode (Or.inr (Or.inl rfl)),
        notMem_encode (Or.inr (Or.inr rfl)), and_false, or_self, not_false_eq_true]
  empty := by decide

/-- A `//` address whose host is written in upper case has no key, although its
displayed form has. -/
theorem lookupTargetOf_upper_case :
    lookupTargetOf addressQt (qs "//NAS.local/DATA") = [] ∧
      lookupTargetOf addressQt (displayUrl (qs "//NAS.local/DATA")) = qs "smb://nas.local/DATA" ∧
      ¬ KeysAgree addressQt (qs "//NAS.local/DATA") (qs "//nas.local/DATA") (qs "NAS.local")
        (qs "DATA") (qs "nas.local") (qs "DATA") := by
  have hempty : lookupTargetOf addressQt (qs "//NAS.local/DATA") = [] := by decide +kernel
  refine ⟨hempty, by decide +kernel, ?_⟩
  exact fun hagree => hagree.spelling.2 hempty

theorem lookupTargetOf_agrees_sample :
    KeysAgree addressQt (qs "//nas.local/Media Library/Films") (qs "//nas.local/Media Library")
      (qs "nas.local") (qs "Media Library/Films") (qs "nas.local") (qs "Media Library") :=
  have hfolder : validateUnc (qs "//nas.local/Media Library/Films/") =
      .ok (qs "//nas.local/Media Library/Films") := by decide +kernel
  have hshare : validateUnc (qs "//nas.local/Media Library") =
      .ok (qs "//nas.local/Media Library") := by decide +kernel
  (lookupTargetOf_agrees addressQt_laws hfolder (by decide +kernel) hshare
    (by decide +kernel)).1.mpr ⟨by decide +kernel, by decide +kernel⟩

end Samples

end NasMount.Session.ShareAddress
