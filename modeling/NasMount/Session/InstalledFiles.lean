import NasMount.Foundation.Indexed
import NasMount.Session.InstallManifest

/-!
# What an accepted manifest lists

The last component of an allowed path tells which component of the program it is,
so the listed paths fall apart by that name. The counts then leave one path for
every component.
-/
namespace NasMount.Session

open NasMount.Foundation NasMount.Core QString Pattern

section Names

variable {w u name : QString}

/-- The last component of a path. -/
def baseName (path : QString) : QString := (split '/' path).getLast?.getD []

theorem baseName_append (u : QString) (h : '/' ∉ name) : baseName (u ++ '/' :: name) = name := by
  rw [baseName, split_append, split_of_notMem h]
  simp

/-- The patterns of everything that may be listed, with the last component of
their paths. -/
def families : List (Pattern × QString) :=
  [(text (qs "/usr/bin/nasmount-dialog"), qs "nasmount-dialog"),
    (text (qs "/usr/bin/nasmount-cleanup"), qs "nasmount-cleanup"),
    (text (qs "/usr/bin/nasmount-uninstall"), qs "nasmount-uninstall"),
    (text (qs "/usr/bin/nasmount"), qs "nasmount"),
    (seq (text (qs "/usr/")) helperPattern, qs "nasmount-helper"),
    (seq (text (qs "/usr/")) (seq libexecPattern (text (qs "/nasmount-boot"))), qs "nasmount-boot"),
    (seq (text (qs "/usr/")) (seq libexecPattern (text (qs "/nasmount-package-guard"))),
      qs "nasmount-package-guard"),
    (seq (text (qs "/usr/")) pluginPattern, qs "kcm_nasmount.so"),
    (text (qs "/usr/lib/systemd/system/nasmount-boot.service"), qs "nasmount-boot.service"),
    (text (qs "/usr/share/applications/kcm_nasmount.desktop"), qs "kcm_nasmount.desktop"),
    (text (qs "/usr/share/applications/nasmount-manager.desktop"), qs "nasmount-manager.desktop"),
    (text (qs "/usr/share/polkit-1/actions/io.github.pakru.nasmount.policy"),
      qs "io.github.pakru.nasmount.policy"),
    (text (qs "/usr/share/dbus-1/system.d/io.github.pakru.nasmount.conf"),
      qs "io.github.pakru.nasmount.conf"),
    (text (qs "/usr/share/dbus-1/system-services/io.github.pakru.nasmount.service"),
      qs "io.github.pakru.nasmount.service"),
    (text (qs "/usr/share/kio/servicemenus/nasmount.desktop"), qs "nasmount.desktop"),
    (text (qs "/usr/share/nasmount/cleanup-manifest.txt"), qs "cleanup-manifest.txt"),
    (text (qs "/usr/share/nasmount/package-family"), qs "package-family"),
    (seq (text (qs "/usr/share/"))
      (seq (oneOf [text (qs "doc"), text (qs "licenses")]) (text (qs "/nasmount/LICENSE"))),
      qs "LICENSE"),
    (catalog, qs "kcm_nasmount.mo"), (text presetPath, qs "90-nasmount.preset"),
    (text changelogPath, qs "changelog.Debian.gz"), (text copyrightPath, qs "copyright")]

theorem families_patterns : families.map Prod.fst =
    requiredPatterns ++ [catalog, text presetPath, text changelogPath, text copyrightPath] := rfl

/-- The last components, as they are written. -/
def names : List String :=
  ["nasmount-dialog", "nasmount-cleanup", "nasmount-uninstall", "nasmount", "nasmount-helper",
    "nasmount-boot", "nasmount-package-guard", "kcm_nasmount.so", "nasmount-boot.service",
    "kcm_nasmount.desktop", "nasmount-manager.desktop", "io.github.pakru.nasmount.policy",
    "io.github.pakru.nasmount.conf", "io.github.pakru.nasmount.service", "nasmount.desktop",
    "cleanup-manifest.txt", "package-family", "LICENSE", "kcm_nasmount.mo", "90-nasmount.preset",
    "changelog.Debian.gz", "copyright"]

/-- The components before the last one, where a path ends in fixed text. -/
def directories : List (List String) :=
  [["usr", "bin"], ["usr", "bin"], ["usr", "bin"], ["usr", "bin"], [], [], [],
    ["qt6", "plugins", "plasma", "kcms", "systemsettings"], ["usr", "lib", "systemd", "system"],
    ["usr", "share", "applications"], ["usr", "share", "applications"],
    ["usr", "share", "polkit-1", "actions"], ["usr", "share", "dbus-1", "system.d"],
    ["usr", "share", "dbus-1", "system-services"], ["usr", "share", "kio", "servicemenus"],
    ["usr", "share", "nasmount"], ["usr", "share", "nasmount"], ["nasmount"], ["LC_MESSAGES"],
    ["usr", "lib", "systemd", "system-preset"], ["usr", "share", "doc", "nasmount"],
    ["usr", "share", "doc", "nasmount"]]

/-- Every component after a slash. -/
def spell : List String → String
  | [] => ""
  | segment :: segments => "/" ++ segment ++ spell segments

theorem families_names_nodup : (families.map Prod.snd).Nodup := by
  have hfamilies : families.map Prod.snd = names.map qs := by
    simp only [families, names, List.map_cons, List.map_nil]
  have hnames : names.Nodup := by simp [names]
  rw [hfamilies]
  exact hnames.map fun _ _ h => String.toList_injective h

theorem qs_spell (segments : List String) :
    qs (spell segments) = segments.flatMap fun segment => '/' :: qs segment := by
  induction segments with
  | nil => rfl
  | cons segment segments ih =>
    rw [spell, ← qs_append, ← qs_append, ih, List.flatMap_cons]
    rfl

/-- How the fixed text at the end of a family's paths is spelled. -/
theorem endText_of_family {family : Pattern × QString} (hfamily : family ∈ families) :
    ∃ directory ∈ directories, ∃ name ∈ names, family.2 = qs name ∧
      family.1.endText = Option.some (qs (spell (directory ++ [name]))) := by
  have hends : families.map (fun family => (family.1.endText, family.2)) =
      (directories.zip names).map
        fun (directory, name) => (Option.some (qs (spell (directory ++ [name]))), qs name) := by
    simp only [families, directories, names, List.map_cons, List.map_nil, List.zip_cons_cons,
      List.zip_nil_right, List.cons_append, List.nil_append, spell]
    rfl
  have hmem := List.mem_map_of_mem (f := fun family => (family.1.endText, family.2)) hfamily
  rw [hends] at hmem
  obtain ⟨⟨directory, name⟩, hzip, hend⟩ := List.mem_map.mp hmem
  obtain ⟨htext, hname⟩ := Prod.mk.inj hend
  obtain ⟨hdirectory, hlast⟩ := List.of_mem_zip hzip
  exact ⟨directory, hdirectory, name, hlast, hname.symm, htext.symm⟩

/-- A component of its own: not empty, not `.` or `..`, and without a slash. -/
def Ordinary (part : QString) : Prop :=
  part ≠ [] ∧ part ≠ qs "." ∧ part ≠ qs ".." ∧ '/' ∉ part

/-- The components that are written out in the allowed paths. -/
def segments : List String :=
  ["libexec", "kf6", "kauth", "lib64", "doc", "licenses", "locale"] ++
    directories.flatten.dedup ++ names

theorem ordinary_segments : ∀ segment ∈ segments, Ordinary (qs segment) := by
  have hall : segments.all (fun segment =>
      (qs segment).all (fun c => c != '/') && segment != "" && segment != "." &&
        segment != "..") = true := by
    decide +kernel
  intro segment hsegment
  have hcheck := List.all_eq_true.mp hall segment hsegment
  simp only [Bool.and_eq_true, bne_iff_ne] at hcheck
  obtain ⟨⟨⟨hslash, hempty⟩, hdot⟩, hup⟩ := hcheck
  refine ⟨?_, ?_, ?_, ?_⟩
  · exact fun h => hempty (String.toList_injective h)
  · exact fun h => hdot (String.toList_injective h)
  · exact fun h => hup (String.toList_injective h)
  · intro hmem
    exact bne_iff_ne.mp (List.all_eq_true.mp hslash _ hmem) rfl

theorem ordinary_names : ∀ name ∈ names, Ordinary (qs name) := by
  intro name hname
  exact ordinary_segments name (List.mem_append_right _ hname)

/-- Every path of a family has the family's last component. -/
theorem baseName_of_family {family : Pattern × QString} (hfamily : family ∈ families)
    (h : family.1.Matches w) : baseName w = family.2 := by
  obtain ⟨directory, -, name, hname, hlast, hend⟩ := endText_of_family hfamily
  obtain ⟨u, rfl⟩ := suffix_of_endText hend h
  have hspell : u ++ qs (spell (directory ++ [name])) =
      (u ++ directory.flatMap fun segment => '/' :: qs segment) ++ '/' :: qs name := by
    rw [qs_spell, List.flatMap_append, List.flatMap_singleton, List.append_assoc]
  rw [hspell, baseName_append _ (ordinary_names name hname).2.2.2, hlast]

/-- The families in the order in which the allowed paths are spelled. -/
def familyOrder : List ℕ :=
  [0, 1, 2, 3, 4, 5, 6, 7, 8, 19, 9, 10, 11, 12, 13, 14, 18, 15, 16, 17, 20, 21]

theorem alternatives_allowed : allowed.alternatives =
    (familyOrder.filterMap (families[·]?)).flatMap fun family => family.1.alternatives := by
  simp only [familyOrder, families, List.filterMap_cons, List.filterMap_nil,
    List.getElem?_cons_zero, List.getElem?_cons_succ, List.flatMap_cons, List.flatMap_nil]
  simp only [allowed, catalog, oneOf, opt, alternatives, join, List.foldr_cons,
    List.foldr_nil, List.map_cons, List.map_nil, List.flatMap_cons, List.flatMap_nil,
    List.flatMap_append, List.nil_append, List.cons_append, List.append_nil,
    List.append_assoc (α := Pattern), qs_append, String.reduceAppend]
  rfl

/-- Every allowed path belongs to a family. -/
theorem exists_family (h : allowed.Matches w) : ∃ family ∈ families, family.1.Matches w := by
  obtain ⟨a, ha, hmatch⟩ := matches_alternatives.mp h
  rw [alternatives_allowed] at ha
  obtain ⟨family, hfamily, ha⟩ := List.mem_flatMap.mp ha
  obtain ⟨i, -, hfamily⟩ := List.mem_filterMap.mp hfamily
  exact ⟨family, List.mem_of_getElem? hfamily, matches_alternatives.mpr ⟨a, ha, hmatch⟩⟩

/-- An allowed path is of a family exactly if its last component says so. -/
theorem matches_family_iff {family : Pattern × QString} (hfamily : family ∈ families)
    (h : allowed.Matches w) : family.1.Matches w ↔ baseName w = family.2 := by
  constructor
  · exact baseName_of_family hfamily
  · intro hname
    obtain ⟨other, hother, hmatch⟩ := exists_family h
    have hsame : other = family :=
      List.inj_on_of_nodup_map families_names_nodup hother hfamily
        ((baseName_of_family hother hmatch).symm.trans hname)
    exact hsame ▸ hmatch

end Names

section Paths

variable {S : List QString} {arch path : QString}

/-- No component is `.` or `..`, and cleaning the path changes nothing. -/
def Straight (path : QString) : Prop :=
  (∀ part ∈ components path, part ≠ qs "." ∧ part ≠ qs "..") ∧ cleanPath path = path

theorem cleanSegments_ordinary (h : ∀ part ∈ S, Ordinary part) : CleanSegments S := by
  constructor
  · intro part hpart
    obtain ⟨hempty, hdot, -, hslash⟩ := h part hpart
    exact ⟨hempty, hdot, hslash⟩
  · apply List.pairwise_of_forall_mem_list
    intro a _ b hb hup
    exact absurd hup (h b hb).2.2.1

theorem straight_absolutePath (h : ∀ part ∈ S, Ordinary part) (hne : S ≠ []) :
    Straight (absolutePath S) := by
  have hclean := cleanSegments_ordinary h
  constructor
  · rw [components_absolutePath hclean]
    exact fun part hpart => ⟨(h part hpart).2.1, (h part hpart).2.2.1⟩
  · exact cleanPath_absolutePath hclean hne

/-- Written-out components give a straight path. -/
theorem straight_spell {written : List String} (hwritten : ∀ segment ∈ written, segment ∈ segments)
    (hne : written ≠ []) : Straight (qs (spell written)) := by
  have hpath : qs (spell written) = absolutePath (written.map qs) := by
    rw [qs_spell, absolutePath_eq_flatMap (by simpa using hne), List.flatMap_map]
  rw [hpath]
  apply straight_absolutePath
  · intro part hpart
    obtain ⟨segment, hsegment, rfl⟩ := List.mem_map.mp hpart
    exact ordinary_segments segment (hwritten segment hsegment)
  · simpa using hne

theorem mem_segments_of_directory {directory : List String} (h : directory ∈ directories)
    {segment : String} (hsegment : segment ∈ directory) : segment ∈ segments := by
  apply List.mem_append_left
  apply List.mem_append_right
  exact List.mem_dedup.mpr (List.mem_flatten.mpr ⟨directory, h, hsegment⟩)

/-- A path that is fixed is straight. -/
theorem straight_text {family : Pattern × QString} (hfamily : family ∈ families)
    (htext : family.1 = text path) : Straight path := by
  obtain ⟨directory, hdirectory, name, hname, -, hend⟩ := endText_of_family hfamily
  rw [htext] at hend
  obtain rfl := Option.some.inj hend
  apply straight_spell
  · intro segment hsegment
    rcases List.mem_append.mp hsegment with hsegment | hsegment
    · exact mem_segments_of_directory hdirectory hsegment
    · rw [List.mem_singleton.mp hsegment]
      exact List.mem_append_right _ hname
  · simp

/-- The language in the path of a catalog has no character to traverse with. -/
theorem ordinary_language (h : languagePattern.Matches path) : Ordinary path := by
  have hlower : ∀ c, isLower c = true → c ≠ '/' ∧ c ≠ '.' := by
    intro c hc
    constructor
    · exact fun h => absurd (h ▸ hc) (by decide)
    · exact fun h => absurd (h ▸ hc) (by decide)
  have hupper : ∀ c, isUpper c = true → c ≠ '/' ∧ c ≠ '.' := by
    intro c hc
    constructor
    · exact fun h => absurd (h ▸ hc) (by decide)
    · exact fun h => absurd (h ▸ hc) (by decide)
  obtain ⟨language, suffix, rfl, ⟨hlanguage, hlength, -⟩, region, variant, rfl, hregion,
    hvariant⟩ := h
  have hchars : ∀ c ∈ language ++ (region ++ variant), c ≠ '/' ∧ c ≠ '.' := by
    intro c hc
    rcases List.mem_append.mp hc with hc | hc
    · exact hlower c (hlanguage c hc)
    · rcases List.mem_append.mp hc with hc | hc
      · rcases hregion with hregion | rfl
        · obtain ⟨letters, rfl, hletters, -⟩ := matches_text_seq.mp hregion
          rcases List.mem_cons.mp hc with rfl | hc
          · exact ⟨by decide, by decide⟩
          · exact hupper c (hletters c hc)
        · exact absurd hc List.not_mem_nil
      · rcases hvariant with hvariant | rfl
        · obtain ⟨letters, rfl, hletters⟩ := matches_text_seq.mp hvariant
          rcases List.mem_cons.mp hc with rfl | hc
          · exact ⟨by decide, by decide⟩
          · exact hlower c ((matches_some.mp hletters).2 c hc)
        · exact absurd hc List.not_mem_nil
  refine ⟨?_, ?_, ?_, fun hmem => (hchars _ hmem).1 rfl⟩
  · intro hnil
    rw [(List.append_eq_nil_iff.mp hnil).1] at hlength
    exact absurd hlength (by decide)
  · intro hdot
    exact (hchars '.' (by rw [hdot]; decide)).2 rfl
  · intro hup
    exact (hchars '.' (by rw [hup]; decide)).2 rfl

/-- The components that have a place of their own for each architecture, as they
stand below its directory. -/
def archComponents : List (List String) :=
  [["libexec", "kf6", "kauth", "nasmount-helper"], ["libexec", "nasmount-boot"],
    ["libexec", "nasmount-package-guard"],
    ["qt6", "plugins", "plasma", "kcms", "systemsettings", "kcm_nasmount.so"]]

/-- The path of a component below the directory of an architecture. -/
def NamesArch (arch path : QString) : Prop :=
  arch ≠ [] ∧ '/' ∉ arch ∧
    ∃ below ∈ archComponents, path = qs "/usr/lib/" ++ arch ++ qs (spell below)

theorem mem_segments_of_archComponent {below : List String} (h : below ∈ archComponents) :
    ∀ segment ∈ below, segment ∈ segments := by
  have hall : archComponents.all (fun below => below.all fun segment => segment ∈ segments) := by
    decide +kernel
  intro segment hsegment
  exact of_decide_eq_true (List.all_eq_true.mp (List.all_eq_true.mp hall below h) segment hsegment)

/-- Only the architecture may be out of the ordinary. -/
theorem NamesArch.path_eq (h : NamesArch arch path) : ∃ below ∈ archComponents,
    path = absolutePath (qs "usr" :: qs "lib" :: arch :: below.map qs) ∧
      ∀ part ∈ qs "usr" :: qs "lib" :: arch :: below.map qs, part = arch ∨ Ordinary part := by
  obtain ⟨-, -, below, hbelow, rfl⟩ := h
  refine ⟨below, hbelow, ?_, ?_⟩
  · rw [absolutePath_eq_flatMap (by simp), qs_spell]
    simp only [List.flatMap_cons, List.flatMap_map, List.append_assoc]
    rfl
  · have hfixed : ["usr", "lib"].all (fun segment => segment ∈ segments) := by decide +kernel
    have hwritten : ∀ segment ∈ ["usr", "lib"] ++ below, Ordinary (qs segment) := by
      intro segment hsegment
      rcases List.mem_append.mp hsegment with hsegment | hsegment
      · exact ordinary_segments _ (of_decide_eq_true (List.all_eq_true.mp hfixed _ hsegment))
      · exact ordinary_segments _ (mem_segments_of_archComponent hbelow _ hsegment)
    intro part hpart
    simp only [List.mem_cons, List.mem_map] at hpart
    rcases hpart with rfl | rfl | rfl | ⟨segment, hsegment, rfl⟩
    · exact Or.inr (hwritten "usr" (by simp))
    · exact Or.inr (hwritten "lib" (by simp))
    · exact Or.inl rfl
    · exact Or.inr (hwritten segment (List.mem_append_right _ hsegment))

theorem NamesArch.components (h : NamesArch arch path) : ∃ below ∈ archComponents,
    components path = qs "usr" :: qs "lib" :: arch :: below.map qs := by
  obtain ⟨below, hbelow, hpath, hordinary⟩ := h.path_eq
  have hplain : ∀ part ∈ qs "usr" :: qs "lib" :: arch :: below.map qs, part ≠ [] ∧ '/' ∉ part := by
    intro part hpart
    rcases hordinary part hpart with rfl | hpart
    · exact ⟨h.1, h.2.1⟩
    · exact ⟨hpart.1, hpart.2.2.2⟩
  refine ⟨below, hbelow, ?_⟩
  rw [hpath, Core.components, splitSkipEmpty, absolutePath, split, if_pos rfl,
    split_intercalate (fun part hpart => (hplain part hpart).2) (by simp)]
  exact List.filter_eq_self.mpr fun part hpart => decide_eq_true (hplain part hpart).1

/-- An architecture's path is straight unless the architecture is called `.` or
`..`. -/
theorem NamesArch.straight_iff (h : NamesArch arch path) :
    Straight path ↔ arch ≠ qs "." ∧ arch ≠ qs ".." := by
  constructor
  · intro hstraight
    obtain ⟨below, -, hcomponents⟩ := h.components
    apply hstraight.1
    rw [hcomponents]
    simp
  · rintro ⟨hdot, hup⟩
    obtain ⟨below, -, hpath, hordinary⟩ := h.path_eq
    rw [hpath]
    apply straight_absolutePath _ (by simp)
    intro part hpart
    rcases hordinary part hpart with rfl | hpart
    · exact ⟨h.1, hdot, hup, h.2.1⟩
    · exact hpart

/-- One written-out path. -/
def fixedPath (written : List String) : Pattern :=
  text (qs (spell written))

/-- The paths of a component below the directories of all architectures. -/
def archPath (below : List String) : Pattern :=
  seq (text (qs "/usr/lib/")) (seq (Pattern.some notSlash) (text (qs (spell below))))

/-- The components with several places: fixed ones, and those below the directory of
an architecture. -/
def places : List (Pattern × List (List String ⊕ List String)) :=
  [(seq (text (qs "/usr/")) helperPattern,
      [.inr ["libexec", "kf6", "kauth", "nasmount-helper"],
        .inl ["usr", "lib", "kf6", "kauth", "libexec", "nasmount-helper"],
        .inl ["usr", "libexec", "kf6", "kauth", "nasmount-helper"]]),
    (seq (text (qs "/usr/")) (seq libexecPattern (text (qs "/nasmount-boot"))),
      [.inr ["libexec", "nasmount-boot"], .inl ["usr", "lib64", "libexec", "nasmount-boot"],
        .inl ["usr", "libexec", "nasmount-boot"]]),
    (seq (text (qs "/usr/")) (seq libexecPattern (text (qs "/nasmount-package-guard"))),
      [.inr ["libexec", "nasmount-package-guard"],
        .inl ["usr", "lib64", "libexec", "nasmount-package-guard"],
        .inl ["usr", "libexec", "nasmount-package-guard"]]),
    (seq (text (qs "/usr/")) pluginPattern,
      [.inr ["qt6", "plugins", "plasma", "kcms", "systemsettings", "kcm_nasmount.so"],
        .inl ["usr", "lib64", "qt6", "plugins", "plasma", "kcms", "systemsettings",
          "kcm_nasmount.so"]]),
    (seq (text (qs "/usr/share/"))
      (seq (oneOf [text (qs "doc"), text (qs "licenses")]) (text (qs "/nasmount/LICENSE"))),
      [.inl ["usr", "share", "doc", "nasmount", "LICENSE"],
        .inl ["usr", "share", "licenses", "nasmount", "LICENSE"]])]

theorem alternatives_places : places.map (fun place => place.1.alternatives) =
    places.map fun place => place.2.map (Sum.elim fixedPath archPath) := by
  simp only [places, helperPattern, libexecPattern, pluginPattern, oneOf, Pattern.some,
    alternatives, join, fixedPath, archPath, spell, Sum.elim_inl, Sum.elim_inr, List.foldr_cons,
    List.foldr_nil, List.map_cons, List.map_nil, List.flatMap_cons, List.flatMap_nil,
    List.cons_append, List.nil_append, List.append_nil, qs_append, String.reduceAppend]

theorem text_or_wildcard : ∀ family ∈ families,
    (∃ s, family.1 = text s) ∨ family.1 ∈ places.map Prod.fst ∨ family.1 = catalog := by
  simp only [families, List.forall_mem_cons]
  simp only [places, List.map_cons, List.map_nil, List.mem_cons, true_or, or_true,
    Pattern.text.injEq, exists_eq', List.not_mem_nil, IsEmpty.forall_iff, implies_true, and_self]

/-- A component with several places is on a straight path, or below an architecture. -/
theorem straight_or_arch {place : Pattern × List (List String ⊕ List String)}
    (hplace : place ∈ places) (h : place.1.Matches path) :
    Straight path ∨ ∃ arch, NamesArch arch path := by
  have hspelled : places.all (fun place => place.2.all (Sum.elim
      (fun written => !written.isEmpty && written.all (· ∈ segments))
      (fun below => below ∈ archComponents))) = true := by decide +kernel
  obtain ⟨a, ha, hmatch⟩ := matches_alternatives.mp h
  rw [List.map_inj_left.mp alternatives_places place hplace] at ha
  obtain ⟨spot, hspot, rfl⟩ := List.mem_map.mp ha
  have hspot := List.all_eq_true.mp (List.all_eq_true.mp hspelled place hplace) spot hspot
  cases spot with
  | inl written =>
    left
    obtain rfl : path = _ := hmatch
    rw [Sum.elim_inl, Bool.and_eq_true, Bool.not_eq_true', List.isEmpty_eq_false_iff] at hspot
    exact straight_spell (fun segment hsegment =>
      of_decide_eq_true (List.all_eq_true.mp hspot.2 segment hsegment)) hspot.1
  | inr below =>
    right
    obtain ⟨v, rfl, hv⟩ := matches_text_seq.mp hmatch
    obtain ⟨arch, rfl, harch⟩ := matches_seq_text.mp hv
    obtain ⟨hne, hchars⟩ := matches_some.mp harch
    refine ⟨arch, hne, ?_, below, of_decide_eq_true hspot, ?_⟩
    · exact fun hmem => of_decide_eq_true (hchars _ hmem) rfl
    · rw [List.append_assoc]

/-- A catalog is on a straight path. -/
theorem straight_catalog (h : catalog.Matches path) : Straight path := by
  obtain ⟨v, hpath, hv⟩ := matches_text_seq.mp h
  obtain ⟨x, rfl, hx⟩ := matches_text_seq.mp hv
  obtain ⟨language, rfl, hlanguage⟩ := matches_seq_text.mp hx
  have hfixed : ∀ segment ∈ ["usr", "share", "locale"] ++ ["LC_MESSAGES", "kcm_nasmount.mo"],
      segment ∈ segments := by
    decide +kernel
  have hsegments : path = absolutePath (["usr", "share", "locale"].map qs ++
      language :: ["LC_MESSAGES", "kcm_nasmount.mo"].map qs) := by
    rw [absolutePath_eq_flatMap (by simp), List.flatMap_append, List.flatMap_cons,
      List.flatMap_map, List.flatMap_map, ← qs_spell, ← qs_spell, hpath, ← List.append_assoc,
      qs_append]
    rfl
  rw [hsegments]
  apply straight_absolutePath _ (by simp)
  intro part hpart
  rcases List.mem_append.mp hpart with hpart | hpart
  · obtain ⟨segment, hsegment, rfl⟩ := List.mem_map.mp hpart
    exact ordinary_segments segment (hfixed segment (List.mem_append_left _ hsegment))
  · rcases List.mem_cons.mp hpart with rfl | hpart
    · exact ordinary_language hlanguage
    · obtain ⟨segment, hsegment, rfl⟩ := List.mem_map.mp hpart
      exact ordinary_segments segment (hfixed segment (List.mem_append_right _ hsegment))

/-- A path of a family is straight, or it is that of an architecture. -/
theorem straight_or_namesArch {family : Pattern × QString} (hfamily : family ∈ families)
    (h : family.1.Matches path) : Straight path ∨ ∃ arch, NamesArch arch path := by
  rcases text_or_wildcard family hfamily with ⟨s, htext⟩ | hplaces | hcatalog
  · rw [htext] at h
    obtain rfl := h
    exact Or.inl (straight_text hfamily htext)
  · obtain ⟨place, hplace, hfamily⟩ := List.mem_map.mp hplaces
    exact straight_or_arch hplace (hfamily ▸ h)
  · exact Or.inl (straight_catalog (hcatalog ▸ h))

end Paths

section Counts

variable {targets : List QString} {p : Pattern} {ps : List Pattern} {path : QString}

/-- The listed paths fall apart by pattern. -/
theorem perm_families (h : ∀ path ∈ targets, allowed.Matches path) :
    targets.Perm ((families.map Prod.fst).flatMap fun p => targets.filter p.accepts) := by
  have hcover : ∀ path ∈ targets, baseName path ∈ families.map Prod.snd := by
    intro path hpath
    obtain ⟨family, hfamily, hmatch⟩ := exists_family (h path hpath)
    rw [baseName_of_family hfamily hmatch]
    exact List.mem_map_of_mem hfamily
  apply (perm_flatMap_filter families_names_nodup hcover).trans
  rw [List.flatMap_map, List.flatMap_map]
  apply List.Perm.flatMap_left
  intro family hfamily
  apply List.Perm.of_eq
  apply List.filter_congr
  intro path hpath
  rw [Bool.eq_iff_iff, accepts_iff, decide_eq_true_eq]
  exact (matches_family_iff hfamily (h path hpath)).symm

/-- A path that is counted once is the only one. -/
theorem eq_of_matchCount (h : matchCount targets p = 1) {other : QString} (hpath : path ∈ targets)
    (hmatch : p.Matches path) (hother : other ∈ targets) (hother' : p.Matches other) :
    other = path := by
  rw [matchCount, List.countP_eq_length_filter, List.length_eq_one_iff] at h
  obtain ⟨only, honly⟩ := h
  have hsame : ∀ {q : QString}, q ∈ targets → p.Matches q → q = only := by
    intro q hq hqmatch
    have hmem : q ∈ targets.filter p.accepts := List.mem_filter.mpr ⟨hq, accepts_iff.mpr hqmatch⟩
    rw [honly] at hmem
    exact List.mem_singleton.mp hmem
  exact (hsame hother hother').trans (hsame hpath hmatch).symm

/-- Components counted once each are listed once each. -/
theorem exists_components (h : ∀ p ∈ ps, matchCount targets p = 1) :
    List.Forall₂ Pattern.Matches ps (ps.flatMap fun p => targets.filter p.accepts) := by
  induction ps with
  | nil => exact List.Forall₂.nil
  | cons p ps ih =>
    have hone : (targets.filter p.accepts).length = 1 := by
      rw [← List.countP_eq_length_filter]
      exact h p List.mem_cons_self
    obtain ⟨path, hpath⟩ := List.length_eq_one_iff.mp hone
    have hmatch : path ∈ targets.filter p.accepts := by
      rw [hpath]
      exact List.mem_singleton_self path
    rw [List.flatMap_cons, hpath]
    apply List.Forall₂.cons
    · exact accepts_iff.mp (List.mem_filter.mp hmatch).2
    · exact ih fun q hq => h q (List.mem_cons_of_mem _ hq)

/-- A fixed path is listed once or not at all. -/
theorem filter_text (h : targets.Nodup) :
    targets.filter (text path).accepts = if path ∈ targets then [path] else [] := by
  have hsame : targets.filter (text path).accepts = targets.filter (· == path) := by
    apply List.filter_congr
    intro other _
    rw [Bool.eq_iff_iff, accepts_iff, matches_text, beq_iff_eq]
  rw [hsame, List.filter_beq]
  split_ifs with hmem
  · rw [List.count_eq_one_of_mem h hmem]
    rfl
  · rw [List.count_eq_zero_of_not_mem hmem]
    rfl

end Counts

section Lines

variable {fromUtf8 : List UInt8 → QString} {targets targets' : List QString} {raw : List UInt8}
  {lines : List (List UInt8)}

/-- The paths of some lines: the texts that are left after trimming. -/
def pathsOf (fromUtf8 : List UInt8 → QString) (lines : List (List UInt8)) : List QString :=
  (lines.map fun raw => trimmed (fromUtf8 raw)).filter fun path => path ≠ []

/-- The paths that a file lists. -/
def listedPaths (fromUtf8 : List UInt8 → QString) (content : List UInt8) : List QString :=
  pathsOf fromUtf8 (readLines content)

theorem readTarget_eq_ok (h : readTarget fromUtf8 targets raw = .ok targets') :
    trimmed (fromUtf8 raw) = [] ∧ targets' = targets ∨
      trimmed (fromUtf8 raw) ≠ [] ∧ allowed.Matches (trimmed (fromUtf8 raw)) ∧
        trimmed (fromUtf8 raw) ∉ targets ∧ targets' = targets ++ [trimmed (fromUtf8 raw)] := by
  unfold readTarget at h
  dsimp only at h
  split_ifs at h with hlong hempty hallowed hdup
  · exact Or.inl ⟨hempty, (Except.ok.inj h).symm⟩
  · rw [Bool.not_eq_true', Bool.not_eq_false, accepts_iff] at hallowed
    exact Or.inr ⟨hempty, hallowed, hdup, (Except.ok.inj h).symm⟩

/-- The loop keeps every listed path, and stops at one that is not allowed or
already there. -/
theorem foldlM_readTarget (hnodup : targets.Nodup)
    (h : lines.foldlM (readTarget fromUtf8) targets = .ok targets') :
    targets' = targets ++ pathsOf fromUtf8 lines ∧ targets'.Nodup ∧
      ∀ path ∈ pathsOf fromUtf8 lines, allowed.Matches path := by
  induction lines generalizing targets with
  | nil =>
    obtain rfl := Except.ok.inj h
    exact ⟨by simp [pathsOf], hnodup, by simp [pathsOf]⟩
  | cons raw lines ih =>
    rw [List.foldlM_cons] at h
    obtain ⟨next, hnext, hrest⟩ := bind_eq_ok.mp h
    rcases readTarget_eq_ok hnext with ⟨hempty, rfl⟩ | ⟨hne, hallowed, hnew, rfl⟩
    · have hpaths : pathsOf fromUtf8 (raw :: lines) = pathsOf fromUtf8 lines := by
        simp [pathsOf, hempty]
      rw [hpaths]
      exact ih hnodup hrest
    · have hpaths : pathsOf fromUtf8 (raw :: lines) =
          trimmed (fromUtf8 raw) :: pathsOf fromUtf8 lines := by
        simp [pathsOf, hne]
      have hnodup' : (targets ++ [trimmed (fromUtf8 raw)]).Nodup := by
        rw [List.nodup_append_comm, List.singleton_append, List.nodup_cons]
        exact ⟨hnew, hnodup⟩
      obtain ⟨hall, hunique, hmatch⟩ := ih hnodup' hrest
      rw [hpaths]
      refine ⟨by rw [hall, List.append_assoc, List.singleton_append], hunique, ?_⟩
      intro path hpath
      rcases List.mem_cons.mp hpath with rfl | hpath
      · exact hallowed
      · exact hmatch path hpath

/-- What a validated file says. -/
structure Validated (targets : List QString) : Prop where
  nodup : targets.Nodup
  allowed : ∀ path ∈ targets, allowed.Matches path
  documents : changelogPath ∈ targets ↔ copyrightPath ∈ targets
  once : ∀ p ∈ requiredPatterns, matchCount targets p = 1
  layout : completeDebLayout targets ≠ completeRpmLayout targets

theorem validated_of_ok {manifestPath : QString} {content : List UInt8}
    (h : validateInstallManifest fromUtf8 manifestPath (Option.some content) = .ok targets) :
    targets = listedPaths fromUtf8 content ∧ Validated targets := by
  unfold validateInstallManifest at h
  obtain ⟨_, _, h⟩ := bind_eq_ok.mp h
  obtain ⟨read, hread, h⟩ := bind_eq_ok.mp h
  obtain ⟨_, hcomplete, h⟩ := bind_eq_ok.mp h
  obtain ⟨_, hlayout, h⟩ := bind_eq_ok.mp h
  obtain rfl := pure_eq_ok.mp h
  obtain ⟨hlisted, hnodup, hallowed⟩ := foldlM_readTarget List.nodup_nil hread
  rw [List.nil_append] at hlisted
  obtain ⟨_, hcounts, honce⟩ := bind_eq_ok.mp hcomplete
  rw [require_eq_ok] at hcounts honce
  rw [checkLayout, require_eq_ok] at hlayout
  refine ⟨hlisted, hnodup, hlisted ▸ hallowed, ?_, ?_, ?_⟩
  · exact decide_eq_decide.mp (of_decide_eq_true hcounts).1
  · intro p hp
    exact of_decide_eq_true (List.all_eq_true.mp honce p hp)
  · intro hsame
    rw [hsame] at hlayout
    simp at hlayout

end Lines

section Installation

variable {fromUtf8 : List UInt8 → QString} {targets : List QString} {content : List UInt8}
  {manifestPath : QString}

/-- The components with a place of their own on each distribution: the component,
its Debian form and its path in an RPM package. -/
def placed : List (Pattern × Pattern × QString) :=
  [(seq (text (qs "/usr/")) helperPattern, debHelper,
      qs "/usr/libexec/kf6/kauth/nasmount-helper"),
    (seq (text (qs "/usr/")) (seq libexecPattern (text (qs "/nasmount-boot"))), debBoot,
      qs "/usr/lib64/libexec/nasmount-boot"),
    (seq (text (qs "/usr/")) (seq libexecPattern (text (qs "/nasmount-package-guard"))), debGuard,
      qs "/usr/lib64/libexec/nasmount-package-guard"),
    (seq (text (qs "/usr/")) pluginPattern, debPlugin,
      qs "/usr/lib64/qt6/plugins/plasma/kcms/systemsettings/kcm_nasmount.so")]

def DebianLayout (targets : List QString) : Prop :=
  ∀ place ∈ placed, ∀ path ∈ targets, place.1.Matches path → place.2.1.Matches path

def RpmLayout (targets : List QString) : Prop :=
  ∀ place ∈ placed, ∀ path ∈ targets, place.1.Matches path → path = place.2.2

/-- One complete installation in one layout, for one architecture. -/
structure CompleteInstallation (targets : List QString) : Prop where
  files : ∃ required catalogs preset documents : List QString,
    targets.Perm (required ++ catalogs ++ preset ++ documents) ∧
      List.Forall₂ Pattern.Matches requiredPatterns required ∧
      (catalogs.Nodup ∧ ∀ path ∈ catalogs, catalog.Matches path) ∧
      (preset = [] ∨ preset = [presetPath]) ∧
      (documents = [] ∨ documents = [changelogPath, copyrightPath])
  layout : DebianLayout targets ∨ RpmLayout targets
  oneArch : ∀ path ∈ targets, ∀ other ∈ targets, ∀ arch otherArch,
    NamesArch arch path → NamesArch otherArch other → otherArch = arch
  straight : ∀ path ∈ targets, Straight path

/-- The wildcard of every listed path that has one stands for the same text, which
is not `.` or `..`. -/
def SameWildcard (paths : List QString) : Prop :=
  ∀ path ∈ paths, ∀ arch, NamesArch arch path → (arch ≠ qs "." ∧ arch ≠ qs "..") ∧
    ∀ other ∈ paths, ∀ otherArch, NamesArch otherArch other → otherArch = arch

theorem Validated.files (h : Validated targets) :
    ∃ required catalogs preset documents : List QString,
      targets.Perm (required ++ catalogs ++ preset ++ documents) ∧
        List.Forall₂ Pattern.Matches requiredPatterns required ∧
        (catalogs.Nodup ∧ ∀ path ∈ catalogs, catalog.Matches path) ∧
        (preset = [] ∨ preset = [presetPath]) ∧
        (documents = [] ∨ documents = [changelogPath, copyrightPath]) := by
  refine ⟨requiredPatterns.flatMap fun p => targets.filter p.accepts,
    targets.filter catalog.accepts, targets.filter (text presetPath).accepts,
    targets.filter (text changelogPath).accepts ++ targets.filter (text copyrightPath).accepts,
    ?_, exists_components h.once, ⟨h.nodup.filter _, ?_⟩, ?_, ?_⟩
  · have hperm := perm_families h.allowed
    rw [families_patterns] at hperm
    simpa [List.flatMap_append] using hperm
  · intro path hpath
    exact accepts_iff.mp (List.mem_filter.mp hpath).2
  · rw [filter_text h.nodup]
    split_ifs
    · exact Or.inr rfl
    · exact Or.inl rfl
  · rw [filter_text h.nodup, filter_text h.nodup]
    by_cases hdocuments : changelogPath ∈ targets
    · rw [if_pos hdocuments, if_pos (h.documents.mp hdocuments)]
      exact Or.inr rfl
    · rw [if_neg hdocuments, if_neg fun hmem => hdocuments (h.documents.mpr hmem)]
      exact Or.inl rfl

/-- A component of its own place is required, and its Debian form says by its last
component that it is that component. -/
theorem family_of_placed {place : Pattern × Pattern × QString} (hplace : place ∈ placed) :
    place.1 ∈ requiredPatterns ∧ ∃ family ∈ families, family.1 = place.1 ∧
      ∃ front, place.2.1.endText = Option.some (front ++ '/' :: family.2) := by
  have hget : ∀ (i : Fin 22) (front : QString), (families.get i).1 = place.1 →
      place.2.1.endText = Option.some (front ++ '/' :: (families.get i).2) →
      ∃ family ∈ families, family.1 = place.1 ∧
        ∃ front, place.2.1.endText = Option.some (front ++ '/' :: family.2) :=
    fun i front hi hend => ⟨_, List.get_mem families i, hi, front, hend⟩
  simp only [placed, List.mem_cons, List.not_mem_nil, or_false] at hplace
  rcases hplace with rfl | rfl | rfl | rfl
  · exact ⟨by simp [requiredPatterns], hget 4 [] rfl rfl⟩
  · exact ⟨by simp [requiredPatterns], hget 5 (qs "/libexec") rfl rfl⟩
  · exact ⟨by simp [requiredPatterns], hget 6 (qs "/libexec") rfl rfl⟩
  · exact ⟨by simp [requiredPatterns], hget 7 [] rfl rfl⟩

/-- The one path of a component is the one in the Debian form. -/
theorem Validated.debian_form (h : Validated targets) {place : Pattern × Pattern × QString}
    (hplace : place ∈ placed) (hcontains : containsPattern targets place.2.1 = true)
    {path : QString} (hpath : path ∈ targets) (hmatch : place.1.Matches path) :
    place.2.1.Matches path := by
  obtain ⟨hrequired, family, hfamily, hsame, front, hend⟩ := family_of_placed hplace
  obtain ⟨found, hfound, hform⟩ := List.any_eq_true.mp hcontains
  rw [accepts_iff] at hform
  have hname : baseName found = family.2 := by
    obtain ⟨-, -, name, hname, hlast, -⟩ := endText_of_family hfamily
    obtain ⟨u, rfl⟩ := suffix_of_endText hend hform
    rw [← List.append_assoc, hlast]
    exact baseName_append _ (ordinary_names name hname).2.2.2
  have hcomponent : place.1.Matches found :=
    hsame ▸ (matches_family_iff hfamily (h.allowed found hfound)).mpr hname
  have heq : found = path := eq_of_matchCount (h.once _ hrequired) hpath hmatch hfound hcomponent
  exact heq ▸ hform

theorem Validated.oneLayout (h : Validated targets) : DebianLayout targets ∨ RpmLayout targets := by
  by_cases hdeb : completeDebLayout targets = true
  · simp only [completeDebLayout, Bool.and_eq_true] at hdeb
    obtain ⟨⟨⟨hhelper, hboot⟩, hguard⟩, hplugin⟩ := hdeb
    have hcontains : ∀ place ∈ placed, containsPattern targets place.2.1 = true := by
      simp only [placed, List.forall_mem_cons, hhelper, hboot, hguard, hplugin, true_and]
      exact fun place hplace => nomatch hplace
    exact Or.inl fun place hplace path hpath hmatch =>
      h.debian_form hplace (hcontains place hplace) hpath hmatch
  · have hrpm : completeRpmLayout targets = true := by
      have hne := h.layout
      rw [Bool.not_eq_true] at hdeb
      rw [hdeb] at hne
      exact Bool.eq_true_of_not_eq_false hne.symm
    simp only [completeRpmLayout, Bool.and_eq_true, decide_eq_true_eq] at hrpm
    obtain ⟨⟨⟨hhelper, hboot⟩, hguard⟩, hplugin⟩ := hrpm
    have hlisted : ∀ place ∈ placed, place.2.2 ∈ targets := by
      simp only [placed, List.forall_mem_cons, hhelper, hboot, hguard, hplugin, true_and]
      exact fun place hplace => nomatch hplace
    have hforms : placed.all (fun place => place.1.accepts place.2.2) = true := by decide +kernel
    apply Or.inr
    intro place hplace path hpath hmatch
    have hform := accepts_iff.mp (List.all_eq_true.mp hforms place hplace)
    exact (eq_of_matchCount (h.once _ (family_of_placed hplace).1) hpath hmatch
      (hlisted place hplace) hform).symm

/-- An accepted manifest lists one complete installation exactly if its wildcards
agree. -/
theorem validateInstallManifest_complete
    (h : validateInstallManifest fromUtf8 manifestPath (Option.some content) = .ok targets) :
    CompleteInstallation targets ↔ SameWildcard (listedPaths fromUtf8 content) := by
  obtain ⟨hlisted, hvalid⟩ := validated_of_ok h
  rw [← hlisted]
  constructor
  · intro hcomplete path hpath arch harch
    constructor
    · exact harch.straight_iff.mp (hcomplete.straight path hpath)
    · intro other hother otherArch hotherArch
      exact hcomplete.oneArch path hpath other hother arch otherArch harch hotherArch
  · intro hsame
    constructor
    · exact hvalid.files
    · exact hvalid.oneLayout
    · intro path hpath other hother arch otherArch harch hotherArch
      exact (hsame path hpath arch harch).2 other hother otherArch hotherArch
    · intro path hpath
      obtain ⟨family, hfamily, hmatch⟩ := exists_family (hvalid.allowed path hpath)
      rcases straight_or_namesArch hfamily hmatch with hstraight | ⟨arch, harch⟩
      · exact hstraight
      · exact harch.straight_iff.mpr (hsame path hpath arch harch).1

end Installation

section Samples

/-- UTF-8 where every character is one byte. -/
def asciiText (bytes : List UInt8) : QString := bytes.map fun byte => Char.ofNat byte.toNat

def manifestFile (lines : List String) : List UInt8 :=
  lines.flatMap fun line => line.toByteArray.data.toList ++ [10]

/-- A manifest in the Debian layout, with the text for each wildcard. -/
def debianManifest (helper boot guard plugin : String) : List String :=
  ["/usr/bin/nasmount-dialog", "/usr/bin/nasmount-cleanup", "/usr/bin/nasmount-uninstall",
    "/usr/bin/nasmount", "/usr/lib/" ++ helper ++ "/libexec/kf6/kauth/nasmount-helper",
    "/usr/lib/" ++ boot ++ "/libexec/nasmount-boot",
    "/usr/lib/" ++ guard ++ "/libexec/nasmount-package-guard",
    "/usr/lib/" ++ plugin ++ "/qt6/plugins/plasma/kcms/systemsettings/kcm_nasmount.so",
    "/usr/lib/systemd/system/nasmount-boot.service", "/usr/share/applications/kcm_nasmount.desktop",
    "/usr/share/applications/nasmount-manager.desktop",
    "/usr/share/polkit-1/actions/io.github.pakru.nasmount.policy",
    "/usr/share/dbus-1/system.d/io.github.pakru.nasmount.conf",
    "/usr/share/dbus-1/system-services/io.github.pakru.nasmount.service",
    "/usr/share/kio/servicemenus/nasmount.desktop", "/usr/share/nasmount/cleanup-manifest.txt",
    "/usr/share/nasmount/package-family", "/usr/share/doc/nasmount/LICENSE"]

/-- A manifest whose helper is spelled through the parent directory. -/
def traversing : List UInt8 :=
  manifestFile (debianManifest ".." "x86_64-linux-gnu" "x86_64-linux-gnu" "x86_64-linux-gnu")

/-- The manifest of an installation. -/
def ordinary : List UInt8 :=
  manifestFile (debianManifest "x86_64-linux-gnu" "x86_64-linux-gnu" "x86_64-linux-gnu"
    "x86_64-linux-gnu")

/-- The wildcard of a path is the given text, if it has one. -/
def wildcardIs (arch path : QString) : Bool :=
  match components path with
  | _ :: _ :: found :: below => below ∉ archComponents.map (List.map qs) || found = arch
  | _ => true

theorem wildcardIs_of_namesArch {arch found path : QString} (h : NamesArch found path)
    (hcheck : wildcardIs arch path = true) : found = arch := by
  obtain ⟨below, hbelow, hcomponents⟩ := h.components
  rw [wildcardIs, hcomponents, Bool.or_eq_true, decide_eq_true_eq, decide_eq_true_eq] at hcheck
  exact hcheck.resolve_left fun hnot => hnot (List.mem_map_of_mem hbelow)

theorem samples_accepted :
    ((validateInstallManifest asciiText (qs "install_manifest.txt")
        (Option.some traversing)).toOption.any (fun targets =>
      qs "/usr/lib/../libexec/kf6/kauth/nasmount-helper" ∈ targets &&
        qs "/usr/lib/x86_64-linux-gnu/libexec/nasmount-boot" ∈ targets) &&
      (validateInstallManifest asciiText (qs "install_manifest.txt")
        (Option.some ordinary)).toOption.any (List.all · (wildcardIs (qs "x86_64-linux-gnu")))) =
      true := by
  decide +kernel

/-- The wildcards let through a path that leads out of its directory, and different
architectures. -/
theorem validateInstallManifest_traverses : ∃ targets,
    validateInstallManifest asciiText (qs "install_manifest.txt") (Option.some traversing) =
        .ok targets ∧
      (∃ path ∈ targets, ¬ Straight path) ∧
      (∃ path ∈ targets, ∃ other ∈ targets, ∃ arch otherArch, NamesArch arch path ∧
        NamesArch otherArch other ∧ otherArch ≠ arch) ∧
      ¬ CompleteInstallation targets := by
  obtain ⟨hsample, -⟩ := Bool.and_eq_true_iff.mp samples_accepted
  obtain ⟨targets, hok, hlisted⟩ := (Option.any_eq_true _ _).mp hsample
  rw [Bool.and_eq_true, decide_eq_true_eq, decide_eq_true_eq] at hlisted
  have hhelper : NamesArch (qs "..") (qs "/usr/lib/../libexec/kf6/kauth/nasmount-helper") := by
    refine ⟨by decide, by decide, _, List.mem_cons_self, ?_⟩
    rw [qs_append, qs_append]
    rfl
  have hboot : NamesArch (qs "x86_64-linux-gnu")
      (qs "/usr/lib/x86_64-linux-gnu/libexec/nasmount-boot") := by
    refine ⟨by decide, by decide, _, List.mem_cons_of_mem _ List.mem_cons_self, ?_⟩
    rw [qs_append, qs_append]
    rfl
  have hdifferent : qs "x86_64-linux-gnu" ≠ qs ".." := by decide +kernel
  have htraverses : ¬ Straight (qs "/usr/lib/../libexec/kf6/kauth/nasmount-helper") :=
    fun h => (hhelper.straight_iff.mp h).2 rfl
  refine ⟨targets, toOption_eq_some.mp hok, ⟨_, hlisted.1, htraverses⟩,
    ⟨_, hlisted.1, _, hlisted.2, _, _, hhelper, hboot, by decide⟩, ?_⟩
  exact fun hcomplete => htraverses (hcomplete.straight _ hlisted.1)

theorem validateInstallManifest_complete_sample : ∃ targets,
    validateInstallManifest asciiText (qs "install_manifest.txt") (Option.some ordinary) =
        .ok targets ∧ CompleteInstallation targets := by
  obtain ⟨-, hsample⟩ := Bool.and_eq_true_iff.mp samples_accepted
  obtain ⟨targets, hok, hwildcards⟩ := (Option.any_eq_true _ _).mp hsample
  have haccepted := toOption_eq_some.mp hok
  refine ⟨targets, haccepted, (validateInstallManifest_complete haccepted).mpr ?_⟩
  rw [← (validated_of_ok haccepted).1]
  have hsame : ∀ path ∈ targets, ∀ arch, NamesArch arch path → arch = qs "x86_64-linux-gnu" :=
    fun path hpath arch harch =>
      wildcardIs_of_namesArch harch (List.all_eq_true.mp hwildcards path hpath)
  intro path hpath arch harch
  rw [hsame path hpath arch harch]
  exact ⟨⟨by decide, by decide⟩, hsame⟩

end Samples

end NasMount.Session
