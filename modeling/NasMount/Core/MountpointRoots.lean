import NasMount.Core.UnitSpec

/-!
# Containment below the allowed roots

A clean absolute path is determined by its components, and lies strictly below
another when it has at least one ordinary component after those of the other.
The validator instead compares texts, root by root, and stops at the first root
it can say something about. The two views are compared here for every path and
every home directory.
-/
namespace NasMount.Core

open NasMount.Foundation QString

section Components

variable {S R T : List QString} {path root home : QString}

/-- The absolute path with the given components. -/
def absolutePath (segments : List QString) : QString := '/' :: ['/'].intercalate segments

/-- The components of a path. -/
def components (path : QString) : List QString := splitSkipEmpty '/' path

theorem splitSkipEmpty_of_ne_nil {s : QString} (h : ∀ part ∈ split '/' s, part ≠ []) :
    splitSkipEmpty '/' s = split '/' s := by
  rw [splitSkipEmpty, List.filter_eq_self]
  intro part hpart
  exact decide_eq_true (h part hpart)

theorem CleanSegments.slash (h : CleanSegments S) : ∀ part ∈ S, '/' ∉ part :=
  fun part hpart => (h.ordinary part hpart).2.2

theorem components_absolutePath (h : CleanSegments S) : components (absolutePath S) = S := by
  have hskip : components (absolutePath S) = splitSkipEmpty '/' (['/'].intercalate S) := by
    simp [components, absolutePath, splitSkipEmpty, split]
  rw [hskip]
  by_cases hne : S = []
  · rw [hne]
    rfl
  · have hsplit : split '/' (['/'].intercalate S) = S := split_intercalate h.slash hne
    rw [splitSkipEmpty_of_ne_nil, hsplit]
    rw [hsplit]
    exact fun part hpart => (h.ordinary part hpart).1

/-- Every component is written after a slash. -/
theorem absolutePath_eq_flatMap (hne : S ≠ []) :
    absolutePath S = S.flatMap fun part => '/' :: part := by
  induction S with
  | nil => exact absurd rfl hne
  | cons part rest ih =>
    cases rest with
    | nil => simp [absolutePath]
    | cons next rest =>
      rw [List.flatMap_cons, ← ih (by simp)]
      simp [absolutePath, List.intercalate_cons_cons]

theorem cleanPath_absolutePath (h : CleanSegments S) (hne : S ≠ []) :
    cleanPath (absolutePath S) = absolutePath S := by
  have hfixed : cleanSegments [] S = S := cleanSegments_fixed S [] h
  have hsplit : cleanSegments [] (split '/' (absolutePath S)) = S := by
    rw [absolutePath, split, if_pos rfl, split_intercalate h.slash hne]
    exact hfixed
  rw [cleanPath, if_neg (by simp [absolutePath]), hsplit,
    if_pos (by simp [absolutePath, startsWith, stripPrefix?])]
  rfl

theorem absolutePath_inj (hS : CleanSegments S) (hR : CleanSegments R) :
    absolutePath S = absolutePath R ↔ S = R := by
  constructor
  · intro h
    rw [← components_absolutePath hS, h, components_absolutePath hR]
  · exact fun h => h ▸ rfl

theorem absolutePath_append (hR : R ≠ []) (hT : T ≠ []) :
    absolutePath (R ++ T) = absolutePath R ++ '/' :: ['/'].intercalate T := by
  induction R with
  | nil => exact absurd rfl hR
  | cons part rest ih =>
    cases rest with
    | nil =>
      obtain ⟨next, more, rfl⟩ := List.exists_cons_of_ne_nil hT
      simp [absolutePath, List.intercalate_cons_cons]
    | cons next rest =>
      have hrest : absolutePath (next :: rest ++ T) =
          absolutePath (next :: rest) ++ '/' :: ['/'].intercalate T := ih (by simp)
      simp only [absolutePath, List.cons_append, List.intercalate_cons_cons, List.cons.injEq,
        true_and, List.append_assoc] at hrest ⊢
      rw [hrest]

/-- What stands after a clean root and a slash in a clean path is the joined rest
of the components. -/
theorem stripPrefix?_absolutePath (hS : CleanSegments S) (hR : CleanSegments R) (hne : R ≠ [])
    {below : QString} :
    stripPrefix? (absolutePath R ++ ['/']) (absolutePath S) = some below ↔
      ∃ T, T ≠ [] ∧ S = R ++ T ∧ below = ['/'].intercalate T := by
  rw [stripPrefix?_eq_some]
  constructor
  · intro h
    have hsplit : split '/' (['/'].intercalate S) =
        split '/' (['/'].intercalate R ++ '/' :: below) := by
      have htail : ['/'].intercalate S = ['/'].intercalate R ++ '/' :: below := by
        simpa [absolutePath] using h
      rw [htail]
    have hSne : S ≠ [] := by
      intro hnil
      rw [hnil, absolutePath, absolutePath] at h
      have hlength := congrArg List.length h
      simp at hlength
    rw [split_append, split_intercalate hS.slash hSne, split_intercalate hR.slash hne] at hsplit
    refine ⟨split '/' below, split_ne_nil _ _, hsplit, ?_⟩
    have happend := absolutePath_append (R := R) (T := split '/' below) hne (split_ne_nil _ _)
    rw [← hsplit, h] at happend
    simpa using happend
  · rintro ⟨T, hT, rfl, rfl⟩
    rw [absolutePath_append hne hT]
    simp

/-- An absolute path is cleaned to the path with the kept components. -/
theorem cleanPath_absolute (h : path.head? = some '/') :
    ∃ S, CleanSegments S ∧ cleanPath path = absolutePath S := by
  obtain ⟨rest, rfl⟩ : ∃ rest, path = '/' :: rest := by
    cases path with
    | nil => exact nomatch h
    | cons c rest => exact ⟨rest, by rw [Option.some.inj h]⟩
  refine ⟨cleanSegments [] (split '/' ('/' :: rest)), ?_, ?_⟩
  · exact cleanSegments_clean _ [] ⟨by simp, by simp⟩ fun part hpart => notMem_of_mem_split hpart
  · rw [cleanPath, if_neg (by simp), if_pos (by simp [startsWith, stripPrefix?])]
    rfl

/-- A relative path stays relative, and does not become empty. -/
theorem cleanPath_relative (h : path.head? ≠ some '/') (hempty : path ≠ []) :
    ∃ c rest, c ≠ '/' ∧ cleanPath path = c :: rest := by
  obtain ⟨d, ds, rfl⟩ := List.exists_cons_of_ne_nil hempty
  have hd : ¬ '/' = d := fun hd => h (hd ▸ rfl)
  have hrelative : startsWith (d :: ds) ['/'] = false := by
    simp [startsWith, stripPrefix?, hd]
  have hclean : CleanSegments (cleanSegments [] (split '/' (d :: ds))) :=
    cleanSegments_clean _ [] ⟨by simp, by simp⟩ fun part hpart => notMem_of_mem_split hpart
  rw [cleanPath, if_neg hempty, hrelative, if_neg (by simp)]
  split_ifs with hnone
  · exact ⟨'.', [], by decide, rfl⟩
  · obtain ⟨first, rest, hsegments⟩ := List.exists_cons_of_ne_nil hnone
    rw [hsegments] at hclean ⊢
    obtain ⟨hne, -, hfirst⟩ := hclean.ordinary first List.mem_cons_self
    obtain ⟨c, cs, rfl⟩ := List.exists_cons_of_ne_nil hne
    have hc : c ≠ '/' := fun h => hfirst (h ▸ List.mem_cons_self)
    cases rest with
    | nil => exact ⟨c, cs, hc, List.intercalate_singleton⟩
    | cons next rest =>
      rw [List.intercalate_cons_cons]
      exact ⟨c, _, hc, rfl⟩

/-- `S` is reached from `R` through at least one component, none of them `..`. -/
def Descends (S R : List QString) : Prop := ∃ T, T ≠ [] ∧ qs ".." ∉ T ∧ S = R ++ T

/-- The path is reached from the root through at least one ordinary component. -/
def StrictlyBelow (path root : QString) : Prop :=
  path.head? = some '/' ∧ root.head? = some '/' ∧ Descends (components path) (components root)

theorem strictlyBelow_absolutePath (hS : CleanSegments S) (hR : CleanSegments R) :
    StrictlyBelow (absolutePath S) (absolutePath R) ↔ Descends S R := by
  rw [StrictlyBelow, components_absolutePath hS, components_absolutePath hR]
  simp [absolutePath]

/-- Below a root whose first component is ordinary no `..` is left. -/
theorem descends_of_prefix (hS : CleanSegments S) (hR : ∃ part ∈ R, part ≠ qs "..")
    (hroot : R <+: S) (hne : S ≠ R) : Descends S R := by
  obtain ⟨T, rfl⟩ := hroot
  obtain ⟨part, hpart, hordinary⟩ := hR
  refine ⟨T, ?_, ?_, rfl⟩
  · intro hnil
    apply hne
    rw [hnil, List.append_nil]
  · intro hup
    have hpairs := (List.pairwise_append.mp hS.upwards).2.2
    exact hordinary (hpairs part hpart _ hup rfl)

end Components

section Roots

variable {S R T : List QString} {root home rawPath homeDir : QString} {plan : MountpointPlan}

theorem planBelow_self (clean : QString) :
    planBelow clean clean = some (.error (qs "refusing to mount directly onto " ++ clean)) :=
  if_pos rfl

theorem splitSkipEmpty_intercalate (h : CleanSegments (R ++ T)) (hT : T ≠ []) :
    splitSkipEmpty '/' (['/'].intercalate T) = T := by
  have hslash : ∀ part ∈ T, '/' ∉ part :=
    fun part hpart => h.slash part (List.mem_append_right _ hpart)
  have hsplit : split '/' (['/'].intercalate T) = T := split_intercalate hslash hT
  rw [splitSkipEmpty_of_ne_nil, hsplit]
  rw [hsplit]
  exact fun part hpart => (h.ordinary part (List.mem_append_right _ hpart)).1

/-- What one turn of the loop says about a root with at least one component. -/
theorem planBelow_eq_ok (hS : CleanSegments S) (hR : CleanSegments R) (hne : R ≠ []) :
    planBelow (absolutePath S) (absolutePath R) = some (.ok plan) ↔
      ∃ T, T ≠ [] ∧ qs ".." ∉ T ∧ S = R ++ T ∧
        plan = { path := absolutePath S, root := absolutePath R, suffix := T } := by
  constructor
  · intro h
    obtain ⟨below, hclean, rfl, hsuffix, hdots⟩ := planBelow_ok h
    have hbelow : stripPrefix? (absolutePath R ++ ['/']) (absolutePath S) = some below := by
      rw [stripPrefix?_eq_some, hclean]
      simp
    obtain ⟨T, hT, rfl, rfl⟩ := (stripPrefix?_absolutePath hS hR hne).mp hbelow
    rw [splitSkipEmpty_intercalate hS hT] at hdots ⊢
    exact ⟨T, hT, hdots, rfl, rfl⟩
  · rintro ⟨T, hT, hdots, rfl, rfl⟩
    have hbelow := (stripPrefix?_absolutePath hS hR hne).mpr ⟨T, hT, rfl, rfl⟩
    have hself : absolutePath (R ++ T) ≠ absolutePath R := by
      rw [Ne, absolutePath_inj hS hR]
      simpa using hT
    rw [planBelow, if_neg hself, hbelow]
    dsimp only
    rw [splitSkipEmpty_intercalate hS hT, if_neg hT, if_neg hdots]

/-- A root that the path neither is nor lies below is passed over. -/
theorem planBelow_eq_none (hS : CleanSegments S) (hR : CleanSegments R) (hne : R ≠ [])
    (h : ¬ R <+: S) : planBelow (absolutePath S) (absolutePath R) = none := by
  have hself : absolutePath S ≠ absolutePath R := by
    rw [Ne, absolutePath_inj hS hR]
    exact fun hSR => h (hSR ▸ List.prefix_refl _)
  have hbelow : stripPrefix? (absolutePath R ++ ['/']) (absolutePath S) = none := by
    rw [Option.eq_none_iff_forall_ne_some]
    intro below hsome
    obtain ⟨T, -, rfl, -⟩ := (stripPrefix?_absolutePath hS hR hne).mp hsome
    exact h (List.prefix_append _ _)
  rw [planBelow, if_neg hself, hbelow]

/-- The root directory is a prefix of no clean path in the sense of the loop:
its text already ends in the slash that the loop adds. -/
theorem planBelow_rootDirectory (hS : CleanSegments S) (hne : S ≠ []) :
    planBelow (absolutePath S) (absolutePath []) = none := by
  have hself : absolutePath S ≠ absolutePath [] := by
    rw [Ne, absolutePath_inj hS ⟨by simp, by simp⟩]
    exact hne
  obtain ⟨first, rest, rfl⟩ := List.exists_cons_of_ne_nil hne
  obtain ⟨hfirst, -, hslash⟩ := hS.ordinary first List.mem_cons_self
  obtain ⟨c, cs, rfl⟩ := List.exists_cons_of_ne_nil hfirst
  have hc : ¬ '/' = c := fun h => hslash (h ▸ List.mem_cons_self)
  have hbelow : stripPrefix? (absolutePath [] ++ ['/']) (absolutePath ((c :: cs) :: rest)) =
      none := by
    cases rest <;> simp [absolutePath, List.intercalate_cons_cons, stripPrefix?, hc]
  rw [planBelow, if_neg hself, hbelow]

/-- A relative root is never met. -/
theorem planBelow_relative (hroot : root.head? ≠ some '/') (hne : root ≠ []) :
    planBelow (absolutePath S) root = none := by
  obtain ⟨c, rest, rfl⟩ := List.exists_cons_of_ne_nil hne
  have hc : ¬ c = '/' := by simpa using hroot
  have hself : absolutePath S ≠ c :: rest := by
    intro h
    exact hc (List.cons.inj h).1.symm
  rw [planBelow, if_neg hself]
  simp [absolutePath, stripPrefix?, hc]

theorem findSome?_cons_eq_some {α β : Type} {f : α → Option β} {a : α} {l : List α} {b : β} :
    (a :: l).findSome? f = some b ↔ f a = some b ∨ f a = none ∧ l.findSome? f = some b := by
  rw [List.findSome?_cons]
  cases f a <;> simp

theorem cleanSegments_singleton {part : QString} (hne : part ≠ []) (hdot : part ≠ qs ".")
    (hslash : '/' ∉ part) : CleanSegments [part] :=
  ⟨by simpa using ⟨hne, hdot, hslash⟩, by simp⟩

theorem cleanSegments_mnt : CleanSegments [qs "mnt"] :=
  cleanSegments_singleton (by decide) (by decide) (by decide)

theorem cleanSegments_media : CleanSegments [qs "media"] :=
  cleanSegments_singleton (by decide) (by decide) (by decide)

/-- The home is a root of its own where its clean path is absolute and not the
root directory. -/
theorem planBelow_home (hS : CleanSegments S) :
    (if homeDir = [] then [] else [cleanPath homeDir]).findSome? (planBelow (absolutePath S)) =
        some (.ok plan) ↔
      ∃ H, H ≠ [] ∧ CleanSegments H ∧ cleanPath homeDir = absolutePath H ∧
        planBelow (absolutePath S) (absolutePath H) = some (.ok plan) := by
  have hnotAbsolute : (cleanPath homeDir).head? ≠ some '/' →
      ¬ ∃ H, H ≠ [] ∧ CleanSegments H ∧ cleanPath homeDir = absolutePath H ∧
        planBelow (absolutePath S) (absolutePath H) = some (.ok plan) := by
    rintro hhead ⟨H, -, -, hhome, -⟩
    exact hhead (hhome ▸ rfl)
  by_cases hempty : homeDir = []
  · rw [if_pos hempty]
    simpa using hnotAbsolute (by rw [hempty]; decide)
  rw [if_neg hempty, findSome?_cons_eq_some]
  by_cases hhead : homeDir.head? = some '/'
  · obtain ⟨H, hH, hhome⟩ := cleanPath_absolute hhead
    rw [hhome]
    constructor
    · intro h
      have hok : planBelow (absolutePath S) (absolutePath H) = some (.ok plan) := by
        simpa using h
      refine ⟨H, ?_, hH, rfl, hok⟩
      rintro rfl
      by_cases hnone : S = []
      · rw [hnone, planBelow_self] at hok
        simp at hok
      · rw [planBelow_rootDirectory hS hnone] at hok
        exact nomatch hok
    · rintro ⟨H', -, hH', heq, hok⟩
      rw [(absolutePath_inj hH hH').mp heq]
      exact Or.inl hok
  · obtain ⟨c, rest, hc, hclean⟩ := cleanPath_relative hhead hempty
    have hrelative : (cleanPath homeDir).head? ≠ some '/' := by
      rw [hclean]
      simpa using hc
    rw [planBelow_relative hrelative (by simp [hclean])]
    simpa using hnotAbsolute hrelative

/-- The loop decides at the first static root the path has something to do
with; the home counts only where there is none. -/
theorem validateMountpoint_eq_ok (hcontrol : hasControlChars rawPath = false)
    (hslash : startsWith rawPath ['/'] = true) (hbackslash : endsWithChar rawPath '\\' = false)
    (htrim : rawPath = trimmed rawPath) (hS : CleanSegments S)
    (hclean : cleanPath rawPath = absolutePath S) :
    validateMountpoint rawPath homeDir = .ok plan ↔
      ∃ R T, T ≠ [] ∧ qs ".." ∉ T ∧ S = R ++ T ∧
        plan = { path := absolutePath S, root := absolutePath R, suffix := T } ∧
        (R = [qs "mnt"] ∨ R = [qs "media"] ∨
          R ≠ [] ∧ CleanSegments R ∧ cleanPath homeDir = absolutePath R ∧
            ¬ [qs "mnt"] <+: S ∧ ¬ [qs "media"] <+: S) := by
  have hmnt : qs "/mnt" = absolutePath [qs "mnt"] := rfl
  have hmedia : qs "/media" = absolutePath [qs "media"] := rfl
  have hloop : validateMountpoint rawPath homeDir = .ok plan ↔
      (staticAllowedRoots ++ if homeDir = [] then [] else [cleanPath homeDir]).findSome?
        (planBelow (absolutePath S)) = some (.ok plan) := by
    rw [validateMountpoint, if_neg (by simp [hcontrol]), if_neg (by simp [hslash]),
      if_neg (by simp [hbackslash]), if_neg (not_not.mpr htrim), hclean]
    dsimp only
    split
    · rename_i verdict hverdict
      rw [hverdict, Option.some.injEq]
    · rename_i hnone
      simp [hnone]
  rw [hloop, staticAllowedRoots, List.cons_append, List.cons_append, List.nil_append,
    findSome?_cons_eq_some, findSome?_cons_eq_some, planBelow_home hS, hmnt, hmedia]
  -- A turn of the loop that says nothing is one whose root is no prefix.
  have hnone : ∀ part : QString, CleanSegments [part] → part ≠ qs ".." →
      (planBelow (absolutePath S) (absolutePath [part]) = none ↔ ¬ [part] <+: S) := by
    intro part hpart hup
    constructor
    · intro hplan hroot
      by_cases hself : S = [part]
      · rw [hself, planBelow_self] at hplan
        exact nomatch hplan
      · obtain ⟨T, hT, hdots, hsplit⟩ :=
          descends_of_prefix hS ⟨part, List.mem_cons_self, hup⟩ hroot hself
        have hok := (planBelow_eq_ok hS hpart (by simp)).mpr ⟨T, hT, hdots, hsplit, rfl⟩
        rw [hplan] at hok
        exact nomatch hok
    · exact planBelow_eq_none hS hpart (by simp)
  rw [hnone _ cleanSegments_mnt (by decide), hnone _ cleanSegments_media (by decide),
    planBelow_eq_ok hS cleanSegments_mnt (by simp),
    planBelow_eq_ok hS cleanSegments_media (by simp)]
  constructor
  · rintro (⟨T, hT, hdots, hsplit, hplan⟩ |
      ⟨hm, ⟨T, hT, hdots, hsplit, hplan⟩ | ⟨hd, H, hne, hH, hhome, hok⟩⟩)
    · exact ⟨_, T, hT, hdots, hsplit, hplan, Or.inl rfl⟩
    · exact ⟨_, T, hT, hdots, hsplit, hplan, Or.inr (Or.inl rfl)⟩
    · obtain ⟨T, hT, hdots, hsplit, hplan⟩ := (planBelow_eq_ok hS hH hne).mp hok
      exact ⟨H, T, hT, hdots, hsplit, hplan, Or.inr (Or.inr ⟨hne, hH, hhome, hm, hd⟩)⟩
  · rintro ⟨R, T, hT, hdots, hsplit, hplan, rfl | rfl | ⟨hne, hR, hhome, hm, hd⟩⟩
    · exact Or.inl ⟨T, hT, hdots, hsplit, hplan⟩
    · have hm : ¬ [qs "mnt"] <+: S := by
        rw [hsplit]
        rintro ⟨rest, hrest⟩
        exact absurd (List.cons.inj hrest).1 (by decide)
      exact Or.inr ⟨hm, Or.inl ⟨T, hT, hdots, hsplit, hplan⟩⟩
    · have hok := (planBelow_eq_ok hS hR hne).mpr ⟨T, hT, hdots, hsplit, hplan⟩
      exact Or.inr ⟨hm, Or.inr ⟨hd, R, hne, hR, hhome, hok⟩⟩

end Roots

section Containment

variable {S R T : List QString} {rawPath homeDir : QString} {plan : MountpointPlan}

/-- The roots a mount point may lie below: the two fixed ones and the home. -/
def allowedRoots (homeDir : QString) : List QString := staticAllowedRoots ++ [cleanPath homeDir]

/-- The plan splits the path at an allowed root. -/
structure MountpointPlan.Spells (plan : MountpointPlan) (clean homeDir : QString) : Prop where
  path : plan.path = clean
  root : plan.root ∈ allowedRoots homeDir
  suffix_ne : plan.suffix ≠ []
  ordinary : ∀ part ∈ plan.suffix, part ≠ [] ∧ part ≠ qs "." ∧ part ≠ qs ".." ∧ '/' ∉ part
  joined : plan.root ++ '/' :: ['/'].intercalate plan.suffix = plan.path

/-- Accepted are the paths strictly below an allowed root that are none of the
roots, and an accepted path is split at one of them. -/
def ExactlyContained (rawPath homeDir : QString) : Prop :=
  ((∃ plan, validateMountpoint rawPath homeDir = .ok plan) ↔
    (∃ root ∈ allowedRoots homeDir, StrictlyBelow (cleanPath rawPath) root) ∧
      cleanPath rawPath ∉ allowedRoots homeDir) ∧
  ∀ plan, validateMountpoint rawPath homeDir = .ok plan → plan.Spells (cleanPath rawPath) homeDir

/-- The home decides nothing that the loop gets wrong: the path is not a home
that itself lies below a static root, and the home is not the root directory
for a path that only it contains. -/
structure RootsApart (clean home : QString) : Prop where
  homeItself : clean = home →
    ∀ root ∈ staticAllowedRoots, ¬ StrictlyBelow clean root
  rootDirectory : home = qs "/" → StrictlyBelow clean home →
    ∃ root ∈ staticAllowedRoots, clean = root ∨ StrictlyBelow clean root

/-- An accepted plan spells the clean path. -/
theorem validateMountpoint_spells (hcontrol : hasControlChars rawPath = false)
    (hslash : startsWith rawPath ['/'] = true) (hbackslash : endsWithChar rawPath '\\' = false)
    (htrim : rawPath = trimmed rawPath) (hS : CleanSegments S)
    (hclean : cleanPath rawPath = absolutePath S)
    (h : validateMountpoint rawPath homeDir = .ok plan) : plan.Spells (absolutePath S) homeDir := by
  obtain ⟨R, T, hT, hdots, rfl, rfl, hroot⟩ :=
    (validateMountpoint_eq_ok hcontrol hslash hbackslash htrim hS hclean).mp h
  have hallowed : absolutePath R ∈ allowedRoots homeDir := by
    rw [allowedRoots, staticAllowedRoots]
    rcases hroot with rfl | rfl | ⟨-, -, hhome, -⟩
    · exact List.mem_append_left _ List.mem_cons_self
    · exact List.mem_append_left _ (List.mem_cons_of_mem _ List.mem_cons_self)
    · simp [hhome]
  have hR : R ≠ [] := by
    rcases hroot with rfl | rfl | ⟨hne, -⟩
    · simp
    · simp
    · exact hne
  constructor
  · rfl
  · exact hallowed
  · exact hT
  · intro part hpart
    obtain ⟨hne, hdot, hslash⟩ := hS.ordinary part (List.mem_append_right _ hpart)
    exact ⟨hne, hdot, fun hup => hdots (hup ▸ hpart), hslash⟩
  · exact (absolutePath_append hR hT).symm

theorem Descends.ne (h : Descends S R) : S ≠ R := by
  obtain ⟨T, hT, -, rfl⟩ := h
  simpa using hT

/-- A path with something above it besides the root directory has two components. -/
theorem Descends.ne_singleton {part : QString} (h : Descends S R) (hR : R ≠ []) : S ≠ [part] := by
  obtain ⟨T, hT, -, rfl⟩ := h
  intro hself
  have hlength := congrArg List.length hself
  have hRlength := List.length_pos_of_ne_nil hR
  have hTlength := List.length_pos_of_ne_nil hT
  simp only [List.length_append, List.length_singleton] at hlength
  omega

/-- Acceptance, in terms of components. -/
theorem validateMountpoint_accepts (hcontrol : hasControlChars rawPath = false)
    (hslash : startsWith rawPath ['/'] = true) (hbackslash : endsWithChar rawPath '\\' = false)
    (htrim : rawPath = trimmed rawPath) (hS : CleanSegments S)
    (hclean : cleanPath rawPath = absolutePath S) :
    (∃ plan, validateMountpoint rawPath homeDir = .ok plan) ↔
      Descends S [qs "mnt"] ∨ Descends S [qs "media"] ∨
        ∃ H, H ≠ [] ∧ CleanSegments H ∧ cleanPath homeDir = absolutePath H ∧ Descends S H := by
  simp only [validateMountpoint_eq_ok hcontrol hslash hbackslash htrim hS hclean]
  constructor
  · rintro ⟨plan, R, T, hT, hdots, hsplit, -, rfl | rfl | ⟨hne, hR, hhome, -⟩⟩
    · exact Or.inl ⟨T, hT, hdots, hsplit⟩
    · exact Or.inr (Or.inl ⟨T, hT, hdots, hsplit⟩)
    · exact Or.inr (Or.inr ⟨R, hne, hR, hhome, T, hT, hdots, hsplit⟩)
  · -- A path below the home that has to do with a static root lies below that one.
    have hstatic : ∀ part : QString, CleanSegments [part] → part ≠ qs ".." → [part] <+: S →
        (∃ H, H ≠ [] ∧ Descends S H) → Descends S [part] := by
      rintro part hpart hup hroot ⟨H, hne, hbelow⟩
      exact descends_of_prefix hS ⟨part, List.mem_cons_self, hup⟩ hroot (hbelow.ne_singleton hne)
    have hmnt : Descends S [qs "mnt"] → ∃ plan R T, T ≠ [] ∧ qs ".." ∉ T ∧ S = R ++ T ∧
        plan = MountpointPlan.mk (absolutePath S) (absolutePath R) T ∧
        (R = [qs "mnt"] ∨ R = [qs "media"] ∨ R ≠ [] ∧ CleanSegments R ∧
          cleanPath homeDir = absolutePath R ∧ ¬ [qs "mnt"] <+: S ∧ ¬ [qs "media"] <+: S) := by
      rintro ⟨T, hT, hdots, hsplit⟩
      exact ⟨_, _, T, hT, hdots, hsplit, rfl, Or.inl rfl⟩
    have hmedia : Descends S [qs "media"] → ∃ plan R T, T ≠ [] ∧ qs ".." ∉ T ∧ S = R ++ T ∧
        plan = MountpointPlan.mk (absolutePath S) (absolutePath R) T ∧
        (R = [qs "mnt"] ∨ R = [qs "media"] ∨ R ≠ [] ∧ CleanSegments R ∧
          cleanPath homeDir = absolutePath R ∧ ¬ [qs "mnt"] <+: S ∧ ¬ [qs "media"] <+: S) := by
      rintro ⟨T, hT, hdots, hsplit⟩
      exact ⟨_, _, T, hT, hdots, hsplit, rfl, Or.inr (Or.inl rfl)⟩
    rintro (hm | hd | ⟨H, hne, hH, hhome, T, hT, hdots, hsplit⟩)
    · exact hmnt hm
    · exact hmedia hd
    · have hhome' : ∃ H, H ≠ [] ∧ Descends S H := ⟨H, hne, T, hT, hdots, hsplit⟩
      by_cases hpm : [qs "mnt"] <+: S
      · exact hmnt (hstatic _ cleanSegments_mnt (by decide) hpm hhome')
      by_cases hpd : [qs "media"] <+: S
      · exact hmedia (hstatic _ cleanSegments_media (by decide) hpd hhome')
      · exact ⟨_, H, T, hT, hdots, hsplit, rfl, Or.inr (Or.inr ⟨hne, hH, hhome, hpm, hpd⟩)⟩

/-- The two static roots, in terms of components. -/
theorem staticRoot_iff (hS : CleanSegments S) {part : QString} (hpart : CleanSegments [part]) :
    (absolutePath S = '/' :: part ↔ S = [part]) ∧
      (StrictlyBelow (absolutePath S) ('/' :: part) ↔ Descends S [part]) := by
  have hroot : '/' :: part = absolutePath [part] := by rw [absolutePath, List.intercalate_singleton]
  rw [hroot]
  exact ⟨absolutePath_inj hS hpart, strictlyBelow_absolutePath hS hpart⟩

/-- The conditions on the static roots, in terms of components. -/
theorem rootsApart_iff (hS : CleanSegments S) {home : QString} :
    RootsApart (absolutePath S) home ↔
      (absolutePath S = home → ¬ Descends S [qs "mnt"] ∧ ¬ Descends S [qs "media"]) ∧
      (home = qs "/" → StrictlyBelow (absolutePath S) home →
        (S = [qs "mnt"] ∨ Descends S [qs "mnt"]) ∨ S = [qs "media"] ∨ Descends S [qs "media"]) := by
  obtain ⟨hmntSelf, hmntBelow⟩ := staticRoot_iff hS cleanSegments_mnt
  obtain ⟨hmediaSelf, hmediaBelow⟩ := staticRoot_iff hS cleanSegments_media
  rw [← hmntSelf, ← hmntBelow, ← hmediaSelf, ← hmediaBelow]
  constructor
  · intro h
    constructor
    · intro hself
      have hroots := h.homeItself hself
      exact ⟨hroots _ List.mem_cons_self, hroots _ (List.mem_cons_of_mem _ List.mem_cons_self)⟩
    · intro hroot hbelow
      obtain ⟨root, hmem, hcase⟩ := h.rootDirectory hroot hbelow
      rcases List.mem_cons.mp hmem with rfl | hmem
      · exact Or.inl hcase
      · obtain rfl := List.mem_singleton.mp hmem
        exact Or.inr hcase
  · rintro ⟨hself, hroot⟩
    constructor
    · intro heq root hmem
      rcases List.mem_cons.mp hmem with rfl | hmem
      · exact (hself heq).1
      · obtain rfl := List.mem_singleton.mp hmem
        exact (hself heq).2
    · intro heq hbelow
      rcases hroot heq hbelow with hcase | hcase
      · exact ⟨_, List.mem_cons_self, hcase⟩
      · exact ⟨_, List.mem_cons_of_mem _ List.mem_cons_self, hcase⟩

/-- Authorization is exact containment unless the home is the mount point and
lies below a static root, or the home is the root directory and alone contains
the mount point. -/
theorem validateMountpoint_contains (hcontrol : hasControlChars rawPath = false)
    (hslash : startsWith rawPath ['/'] = true) (hbackslash : endsWithChar rawPath '\\' = false)
    (htrim : rawPath = trimmed rawPath) :
    ExactlyContained rawPath homeDir ↔ RootsApart (cleanPath rawPath) (cleanPath homeDir) := by
  have habsolute : rawPath.head? = some '/' := by
    obtain ⟨rest, hrest⟩ := Option.isSome_iff_exists.mp hslash
    rw [stripPrefix?_eq_some.mp hrest]
    rfl
  obtain ⟨S, hS, hclean⟩ := cleanPath_absolute habsolute
  have hspells : ∀ plan, validateMountpoint rawPath homeDir = .ok plan →
      plan.Spells (cleanPath rawPath) homeDir := by
    intro plan hplan
    rw [hclean]
    exact validateMountpoint_spells hcontrol hslash hbackslash htrim hS hclean hplan
  obtain ⟨hmntSelf, hmntBelow⟩ := staticRoot_iff hS cleanSegments_mnt
  obtain ⟨hmediaSelf, hmediaBelow⟩ := staticRoot_iff hS cleanSegments_media
  have hmntNe : Descends S [qs "mnt"] → S ≠ [qs "mnt"] ∧ S ≠ [qs "media"] :=
    fun h => ⟨h.ne, h.ne_singleton (by simp)⟩
  have hmediaNe : Descends S [qs "media"] → S ≠ [qs "mnt"] ∧ S ≠ [qs "media"] :=
    fun h => ⟨h.ne_singleton (by simp), h.ne⟩
  have hhomeRoot : (∃ root ∈ allowedRoots homeDir, StrictlyBelow (absolutePath S) root) ↔
      Descends S [qs "mnt"] ∨ Descends S [qs "media"] ∨
        StrictlyBelow (absolutePath S) (cleanPath homeDir) := by
    rw [← hmntBelow, ← hmediaBelow]
    simp only [allowedRoots, staticAllowedRoots, List.cons_append, List.nil_append, List.mem_cons,
      List.not_mem_nil, or_false, exists_eq_or_imp, exists_eq_left]
    rfl
  have hhomeSelf : absolutePath S ∉ allowedRoots homeDir ↔
      S ≠ [qs "mnt"] ∧ S ≠ [qs "media"] ∧ absolutePath S ≠ cleanPath homeDir := by
    rw [Ne, ← hmntSelf, Ne, ← hmediaSelf]
    simp only [allowedRoots, staticAllowedRoots, List.cons_append, List.nil_append, List.mem_cons,
      List.not_mem_nil, or_false, not_or]
    rfl
  rw [ExactlyContained, validateMountpoint_accepts hcontrol hslash hbackslash htrim hS hclean,
    and_iff_left hspells, hclean, hhomeRoot, hhomeSelf, rootsApart_iff hS]
  by_cases hhead : homeDir.head? = some '/'
  · obtain ⟨H, hH, hhome⟩ := cleanPath_absolute hhead
    have hunique : (∃ H', H' ≠ [] ∧ CleanSegments H' ∧ absolutePath H = absolutePath H' ∧
        Descends S H') ↔ H ≠ [] ∧ Descends S H := by
      constructor
      · rintro ⟨H', hne, hH', heq, h⟩
        obtain rfl := (absolutePath_inj hH hH').mp heq
        exact ⟨hne, h⟩
      · rintro ⟨hne, h⟩
        exact ⟨H, hne, hH, rfl, h⟩
    have hrootDirectory : absolutePath H = qs "/" ↔ H = [] :=
      absolutePath_inj hH (R := []) ⟨by simp, by simp⟩
    rw [hhome, hunique, strictlyBelow_absolutePath hS hH, hrootDirectory]
    simp only [ne_eq, absolutePath_inj hS hH]
    constructor
    · intro hiff
      constructor
      · intro hself
        constructor
        · exact fun hm => (hiff.mp (Or.inl hm)).2.2.2 hself
        · exact fun hd => (hiff.mp (Or.inr (Or.inl hd))).2.2.2 hself
      · intro hroot hbelow
        by_contra hnot
        simp only [not_or] at hnot
        obtain ⟨⟨hm, hmBelow⟩, hd, hdBelow⟩ := hnot
        rcases hiff.mpr ⟨Or.inr (Or.inr hbelow), hm, hd, hbelow.ne⟩ with h | h | h
        · exact hmBelow h
        · exact hdBelow h
        · exact h.1 hroot
    · rintro ⟨hself, hroot⟩
      constructor
      · rintro (hm | hd | ⟨hne, hbelow⟩)
        · exact ⟨Or.inl hm, (hmntNe hm).1, (hmntNe hm).2, fun h => (hself h).1 hm⟩
        · exact ⟨Or.inr (Or.inl hd), (hmediaNe hd).1, (hmediaNe hd).2, fun h => (hself h).2 hd⟩
        · exact ⟨Or.inr (Or.inr hbelow), hbelow.ne_singleton hne, hbelow.ne_singleton hne,
            hbelow.ne⟩
      · rintro ⟨hm | hd | hbelow, hnotMnt, hnotMedia, -⟩
        · exact Or.inl hm
        · exact Or.inr (Or.inl hd)
        · by_cases hH : H = []
          · rcases hroot hH hbelow with (h | h) | h | h
            · exact absurd h hnotMnt
            · exact Or.inl h
            · exact absurd h hnotMedia
            · exact Or.inr (Or.inl h)
          · exact Or.inr (Or.inr ⟨hH, hbelow⟩)
  · have hrelative : (cleanPath homeDir).head? ≠ some '/' := by
      by_cases hempty : homeDir = []
      · rw [hempty]
        decide
      · obtain ⟨c, rest, hc, hcleanHome⟩ := cleanPath_relative hhead hempty
        rw [hcleanHome]
        simpa using hc
    have hbelow : ¬ StrictlyBelow (absolutePath S) (cleanPath homeDir) :=
      fun h => hrelative h.2.1
    have hself : absolutePath S ≠ cleanPath homeDir := by
      intro h
      rw [← h] at hrelative
      exact hrelative rfl
    have hnone : ¬ ∃ H, H ≠ [] ∧ CleanSegments H ∧ cleanPath homeDir = absolutePath H ∧
        Descends S H := by
      rintro ⟨H, -, -, hhome, -⟩
      rw [hhome] at hrelative
      exact hrelative rfl
    simp only [hbelow, hself, hnone, or_false, ne_eq, not_false_eq_true, and_true, false_imp_iff,
      imp_true_iff, iff_true]
    constructor
    · intro h
      rcases h with h | h
      · exact ⟨Or.inl h, hmntNe h⟩
      · exact ⟨Or.inr h, hmediaNe h⟩
    · exact fun h => h.1

/-- A home below `/mnt` may itself be mounted over; with the root directory as
home nothing outside the static roots is accepted. -/
theorem validateMountpoint_overlap :
    ¬ ExactlyContained (qs "/mnt/user") (qs "/mnt/user") ∧
      ¬ ExactlyContained (qs "/srv/nas") (qs "/") ∧
      validateMountpoint (qs "/mnt/user") (qs "/mnt/user") =
        .ok { path := qs "/mnt/user", root := qs "/mnt", suffix := [qs "user"] } := by
  have haccepted : validateMountpoint (qs "/mnt/user") (qs "/mnt/user") =
      .ok { path := qs "/mnt/user", root := qs "/mnt", suffix := [qs "user"] } := by
    decide +kernel
  have hrefused : validateMountpoint (qs "/srv/nas") (qs "/") =
      .error (qs "mount point must be below one of: /mnt, /media, /") := by
    decide +kernel
  constructor
  · intro h
    have hroots : cleanPath (qs "/mnt/user") ∈ allowedRoots (qs "/mnt/user") := by decide +kernel
    exact (h.1.mp ⟨_, haccepted⟩).2 hroots
  constructor
  · intro h
    have hbelow : StrictlyBelow (cleanPath (qs "/srv/nas")) (qs "/") :=
      ⟨by decide +kernel, by decide, [qs "srv", qs "nas"], by simp, by decide, by decide +kernel⟩
    have hroots : cleanPath (qs "/srv/nas") ∉ allowedRoots (qs "/") := by decide +kernel
    have hroot : qs "/" ∈ allowedRoots (qs "/") := by decide +kernel
    obtain ⟨plan, hplan⟩ := h.1.mpr ⟨⟨_, hroot, hbelow⟩, hroots⟩
    exact nomatch hrefused.symm.trans hplan
  · exact haccepted

/-- An ordinary home and a path below `/mnt`. -/
theorem validateMountpoint_contains_sample :
    ExactlyContained (qs "/mnt//nas/./a") (qs "/home/user/") := by
  apply (validateMountpoint_contains (by decide) (by decide) (by decide) (by decide)).mpr
  constructor
  · intro h
    exact absurd h (by decide +kernel)
  · intro h
    exact absurd h (by decide +kernel)

end Containment

end NasMount.Core
