import NasMount.Core.DirectoryTree
import NasMount.Foundation.Runs
import NasMount.Root.UnitChanges

/-!
# Mount points inside mount points

The machine over many calls: its unit files, its directories as a lookup by name
finds them, and the directories that lie under an active trigger. A definition
inside another one is kept out by the walk alone, which stops at an active
trigger and at a directory that is not empty.
-/
namespace NasMount.Root

open NasMount.Foundation NasMount.Core QString

/-- The names on the way to a path. -/
def pathComponents (path : QString) : List QString := splitSkipEmpty '/' path

def ProperAncestor (above below : List QString) : Prop := above <+: below ∧ above ≠ below

instance (above below : List QString) : Decidable (ProperAncestor above below) :=
  inferInstanceAs (Decidable (_ ∧ _))

/-- The `Where=` paths of the managed definitions. -/
def wherePaths (w : World) : List (List QString) :=
  (scanManagedHalves w none).map fun half => pathComponents half.whereValue

/-- A `definesystem` call, and the machine it meets. -/
structure DefineCall where
  caller : Caller
  args : Args
  draws : ℕ → UInt64 × UInt64
  schedule : DefineCallSite → Outcome
  /-- Where opening the authorized root leads, links followed. -/
  landing : List QString
  sys : Sys

structure UndefineCall where
  caller : Caller
  path : QString
  schedule : RemoveSite → Outcome
  sys : Sys

/-- The input of a call that comes as far as its walk. -/
def DefineCall.walks (host : Host) (call : DefineCall) (w : World) : Option DefineInput :=
  if call.schedule .lock = .ok then
    match readRequest host call.caller call.args with
    | .error _ => none
    | .ok input =>
      if (definedProblem input.mountPlan
          (inspectDefinition w input.unitName call.caller.uid input.mountPoint)).isNone then
        some input
      else none
  else none

inductive Event
  | define (call : DefineCall)
  | undefine (call : UndefineCall)
  /-- The trigger of a definition becomes active: at the end of an Add, in the
  arming pass of a boot, or later. Its mount, or that of the share behind it, is
  what a lookup finds from then on. -/
  | arm (path : List QString) (shown : Folder)
  /-- The trigger becomes inactive: by a stop, or by itself. -/
  | rest (path : List QString)
  | reboot

structure Machine where
  world : World
  /-- The directory tree as lookups find it. -/
  tree : Folder
  /-- The directories under the active triggers. -/
  covered : AList fun _ : List QString => Folder

namespace Machine

variable (host : Host) (m : Machine)

/-- Where a definition or a trigger is. -/
def held : List (List QString) := wherePaths m.world ++ m.covered.keys

def define (call : DefineCall) : Machine :=
  let w := { m.world with sys := call.sys }
  let root := m.tree.descend call.landing
  { m with
    world := ((doDefine host call.draws call.caller call.args fun _ => root).run call.schedule w).2
    tree :=
      match call.walks host w with
      | none => m.tree
      | some input =>
        match (openMountpointNoFollow input.mountPlan call.caller.uid call.caller.gid root).2 with
        | none => m.tree
        | some root => m.tree.replaceAt call.landing root }

/-- The stop inside the removal is an event of its own. -/
def undefine (call : UndefineCall) : Machine :=
  { m with
    world := ((doUndefine host call.caller call.path).run call.schedule
      { m.world with sys := call.sys }).2 }

/-- A mount of its own appears over a directory that is there. -/
def armable (path : List QString) (shown : Folder) : Bool :=
  path ≠ [] && path ∈ wherePaths m.world && (m.tree.descend path).isSome &&
    (m.tree.descend path.dropLast).any fun parent => crossesMount shown.stat parent.stat

def arm (path : List QString) (shown : Folder) : Machine :=
  if m.armable path shown then
    { m with
      tree := m.tree.replaceAt path shown
      covered :=
        if path ∈ m.covered.keys then m.covered
        else
          match m.tree.descend path with
          | some under => m.covered.insert path under
          | none => m.covered }
  else m

def rest (path : List QString) : Machine :=
  match m.covered.lookup path with
  | some under =>
    { m with tree := m.tree.replaceAt path under, covered := m.covered.erase path }
  | none => m

/-- Every trigger is gone, and `/run` is empty. -/
def reboot : Machine :=
  let m := m.covered.keys.foldl Machine.rest m
  { m with world := { m.world with automountIds := none, runtime := none } }

def step : Event → Machine
  | .define call => m.define host call
  | .undefine call => m.undefine host call
  | .arm path shown => m.arm path shown
  | .rest path => m.rest path
  | .reboot => m.reboot

def run (events : List Event) : Machine := events.foldl (fun m event => m.step host event) m

/-- The condition on a step: a definition or trigger above the path of an Add lies
below the call's authorized root and is active, and opening that root follows no
link. -/
def Clear : Event → Prop
  | .define call => ∀ input, readRequest host call.caller call.args = .ok input →
      call.landing = pathComponents input.mountPlan.root ∧
        ∀ path ∈ m.held, ProperAncestor path (pathComponents input.mountPoint) →
          ProperAncestor call.landing path ∧ path ∈ m.covered.keys
  | _ => True

/-- No two places are one inside the other, each has its directory, and an active
trigger is a mount of its own. -/
structure Sound : Prop where
  placed : ∀ path ∈ m.held, ∃ d, m.tree.descend path = some d
  crossing : ∀ path ∈ m.covered.keys, m.tree.CrossesAt path
  apart : ∀ path ∈ m.held, ∀ below ∈ m.held, ¬ProperAncestor path below

end Machine

section Files

variable {host : Host} {w w' : World} {input : DefineInput} {call : DefineCall}

theorem mem_wherePaths {path : List QString} :
    path ∈ wherePaths w ↔ ∃ key half, scanHalf w none key = some half ∧
      pathComponents half.whereValue = path := by
  rw [wherePaths, List.mem_map]
  constructor
  · rintro ⟨half, hmem, rfl⟩
    obtain ⟨key, -, hscan⟩ := List.mem_filterMap.mp hmem
    exact ⟨key, half, hscan, rfl⟩
  · rintro ⟨key, half, hscan, rfl⟩
    obtain ⟨content, hprobe⟩ := probe_of_scanHalf hscan
    exact ⟨half, List.mem_filterMap.mpr ⟨key, mem_unitFiles_of_probe hprobe, hscan⟩, rfl⟩

/-- A file that a definition writes names the definition's own mount point. -/
theorem whereValue_of_writes {key : UnitKey} {node : FileNode} (hnode : w.unit? key = some node)
    (hwrites : input.Writes key node) {half : ScannedHalf}
    (hscan : scanHalf w none key = some half) :
    half.whereValue = input.mountPoint := by
  obtain ⟨shareId, contents, hcontents, hfile⟩ := hwrites
  simp only [DefineInput.contents, bind_eq_ok, pure_eq_ok] at hcontents
  obtain ⟨mountContent, hmount, automountContent, hautomount, rfl⟩ := hcontents
  have hprobe : ∀ content, node = rootFile .unitFile content →
      probeUnitFile w key = .ok content := by
    rintro content rfl
    simp [probeUnitFile, hnode]
  rcases hfile with ⟨rfl, hcontent⟩ | ⟨rfl, hcontent⟩
  · obtain ⟨what, whereValue, options, hwhat, hwhere, hoptions, hlines⟩ :=
      buildMountUnitContent_ok hmount
    have hgenerated : scanHalf w none input.unitName.mount =
        some { whereValue := input.mountPoint, .. } :=
      scanHalf_mountLines (cleanLine_mountLines hwhat hwhere hoptions) hwhat hwhere
        (hlines ▸ hprobe _ hcontent) rfl
    exact congrArg ScannedHalf.whereValue (Option.some.inj (hscan.symm.trans hgenerated))
  · obtain ⟨whereValue, hwhere, hlines⟩ := buildAutomountUnitContent_ok hautomount
    have hgenerated : scanHalf w none input.unitName.automount =
        some { whereValue := input.mountPoint, .. } :=
      scanHalf_automountLines (cleanLine_automountLines hwhere) hwhere
        (hlines ▸ hprobe _ hcontent) rfl
    exact congrArg ScannedHalf.whereValue (Option.some.inj (hscan.symm.trans hgenerated))

theorem wherePaths_of_unitsFrom {allowed : UnitKey → FileNode → Prop} (h : UnitsFrom allowed w w')
    {path : List QString} (hpath : path ∈ wherePaths w') :
    path ∈ wherePaths w ∨ ∃ key node half, w'.unit? key = some node ∧ allowed key node ∧
      scanHalf w' none key = some half ∧ pathComponents half.whereValue = path := by
  obtain ⟨key, half, hscan, hwhere⟩ := mem_wherePaths.mp hpath
  obtain ⟨node, hnode⟩ : ∃ node, w'.unit? key = some node := by
    cases hnode : w'.unit? key with
    | none => exact nomatch (scanHalf_missing hnode).symm.trans hscan
    | some node => exact ⟨node, rfl⟩
  rcases h key node hnode with hold | hallowed
  · refine Or.inl (mem_wherePaths.mpr ⟨key, half, ?_, hwhere⟩)
    rwa [scanHalf_congr (hnode.trans hold.symm)] at hscan
  · exact Or.inr ⟨key, node, half, hnode, hallowed, hscan, hwhere⟩

/-- A call whose walk did not go through changes no unit file; another one may
have written its own two. -/
theorem doDefine_units (call : DefineCall) (root : Option Folder) (w : World) :
    UnitsFrom (fun key node => ∃ input, call.walks host w = some input ∧
        (∃ opened, (openMountpointNoFollow input.mountPlan call.caller.uid call.caller.gid root).1 =
          .ok opened) ∧ input.Writes key node) w
      ((doDefine host call.draws call.caller call.args fun _ => root).run call.schedule w).2 := by
  apply Prog.wp_state
  have hsame := UnitsFrom.refl (fun key node => ∃ input, call.walks host w = some input ∧
    (∃ opened, (openMountpointNoFollow input.mountPlan call.caller.uid call.caller.gid root).1 =
      .ok opened) ∧ input.Writes key node) w
  unfold doDefine
  rw [Prog.wp_bind, Prog.wp_act]
  cases hlock : call.schedule .lock with
  | killed => exact hsame
  | failed applied => cases applied <;> exact hsame
  | ok =>
    dsimp only
    rw [Prog.wp_bind, Prog.wp_ofExcept]
    refine ⟨fun input hrequest => ?_, fun _ _ => hsame⟩
    rw [Prog.wp_bind, Prog.wp_look]
    cases hproblem : definedProblem input.mountPlan
        (inspectDefinition w input.unitName call.caller.uid input.mountPoint) with
    | some problem => exact hsame
    | none =>
      have hwalks : call.walks host w = some input := by
        simp [DefineCall.walks, hlock, hrequest, hproblem]
      dsimp only
      split
      · exact hsame
      · rename_i opened hopened
        rw [defineOrFail, Prog.wp_bind, Prog.wp_attempt, Prog.wp_mapSites]
        have hwrites : ∀ v, UnitsFrom input.Writes w v → UnitsFrom (fun key node =>
            ∃ input, call.walks host w = some input ∧ (∃ opened, (openMountpointNoFollow
              input.mountPlan call.caller.uid call.caller.gid root).1 = .ok opened) ∧
              input.Writes key node) w v :=
          fun v hv key node hnode => (hv key node hnode).imp_right
            fun hallowed => ⟨input, hwalks, ⟨opened, hopened⟩, hallowed⟩
        exact Prog.wp_mono _ (keeps_define _ _ (UnitsFrom.refl _ w)) (fun _ v hv => hwrites v hv)
          (fun _ v hv => hwrites v hv) hwrites

theorem walks_eq_some (h : call.walks host w = some input) :
    readRequest host call.caller call.args = .ok input := by
  unfold DefineCall.walks at h
  split_ifs at h
  split at h
  · exact nomatch h
  · rename_i hrequest
    split_ifs at h
    obtain rfl := Option.some.inj h
    exact hrequest

/-- The mount point of a plan lies below its root, by the names of its suffix. -/
theorem pathComponents_of_readRequest (h : readRequest host call.caller call.args = .ok input) :
    pathComponents input.mountPoint =
        pathComponents input.mountPlan.root ++ input.mountPlan.suffix ∧
      input.mountPlan.suffix ≠ [] := by
  obtain ⟨hpath, -, root, hplan⟩ := prepare_eq_ok (readRequest_eq_ok h).1
  obtain ⟨below, hclean, hleads, hne, -⟩ := planBelow_ok hplan
  rw [← input.samePath, hleads, hclean]
  exact ⟨splitSkipEmpty_append '/' root below, hne⟩

end Files

namespace Machine

section Steps

variable {host : Host} {m : Machine}

theorem mem_held {path : List QString} :
    path ∈ m.held ↔ path ∈ wherePaths m.world ∨ path ∈ m.covered := List.mem_append

/-- Nothing held is at or below a held path but the path itself. -/
theorem Sound.beside (h : m.Sound) {path other : List QString} (hpath : path ∈ m.held)
    (hother : other ∈ m.held) (hne : other ≠ path) : ¬path <+: other :=
  fun hleads => h.apart path hpath other hother ⟨hleads, Ne.symm hne⟩

/-- Another directory at a held path leaves the others in place. -/
theorem Sound.descend_replaceAt (h : m.Sound) {path other : List QString} {new : Folder}
    (hpath : path ∈ m.held) (hother : other ∈ m.held) :
    ∃ d, (m.tree.replaceAt path new).descend other = some d := by
  obtain ⟨d, hd⟩ := h.placed other hother
  by_cases hsame : other = path
  · subst hsame
    exact ⟨new, Folder.descend_replaceAt_self hd⟩
  · obtain ⟨d', hd', -⟩ := Folder.descend_replaceAt new (h.beside hpath hother hsame) hd
    exact ⟨d', hd'⟩

theorem Sound.rest (h : m.Sound) (path : List QString) : (m.rest path).Sound := by
  unfold Machine.rest
  cases hlookup : m.covered.lookup path with
  | none => exact h
  | some under =>
    have hcovered : path ∈ m.covered := AList.lookup_isSome.mp (by rw [hlookup]; rfl)
    have hpath : path ∈ m.held := mem_held.mpr (Or.inr hcovered)
    have hheld : ∀ other, other ∈ wherePaths m.world ++ (m.covered.erase path).keys →
        other ∈ m.held := by
      intro other hother
      refine mem_held.mpr ((List.mem_append.mp hother).imp_right fun hkey => ?_)
      exact (AList.mem_erase.mp hkey).2
    constructor
    · intro other hother
      exact h.descend_replaceAt hpath (hheld other hother)
    · intro other hother
      obtain ⟨hne, hother⟩ := AList.mem_erase.mp hother
      exact (h.crossing other hother).replaceAt (h.beside hpath (mem_held.mpr (Or.inr hother)) hne)
    · intro above habove below hbelow
      exact h.apart above (hheld above habove) below (hheld below hbelow)

theorem Sound.restAll (h : m.Sound) (paths : List (List QString)) :
    (paths.foldl Machine.rest m).Sound :=
  Runs.run_keeps_always (fun _ path h => h.rest path) h paths

/-- The world matters by the paths of its definitions. -/
theorem Sound.congr (h : m.Sound) {w : World}
    (hpaths : ∀ path ∈ wherePaths w, path ∈ wherePaths m.world) :
    Sound { m with world := w } := by
  have hheld : ∀ path, path ∈ wherePaths w ++ m.covered.keys → path ∈ m.held := by
    intro path hpath
    exact mem_held.mpr ((List.mem_append.mp hpath).imp_left (hpaths path))
  constructor
  · exact fun path hpath => h.placed path (hheld path hpath)
  · exact h.crossing
  · exact fun above habove below hbelow =>
      h.apart above (hheld above habove) below (hheld below hbelow)

theorem Sound.reboot (h : m.Sound) : m.reboot.Sound := by
  apply (h.restAll m.covered.keys).congr
  intro path hpath
  obtain ⟨key, half, hscan, hwhere⟩ := mem_wherePaths.mp hpath
  exact mem_wherePaths.mpr ⟨key, half, hscan, hwhere⟩

theorem Sound.undefine (h : m.Sound) (call : UndefineCall) : (m.undefine host call).Sound := by
  apply h.congr
  intro path hpath
  have hthinned := (keeps_doUndefine host call.caller call.path).run_state call.schedule
    (Thinned.refl { m.world with sys := call.sys })
  rcases wherePaths_of_unitsFrom hthinned.unitsFrom hpath with hold | ⟨_, _, _, -, hnone, -⟩
  · exact hold
  · exact hnone.elim

theorem Sound.arm (h : m.Sound) (path : List QString) (shown : Folder) :
    (m.arm path shown).Sound := by
  unfold Machine.arm
  by_cases harmable : m.armable path shown = true
  swap
  · rwa [if_neg harmable]
  rw [if_pos harmable]
  simp only [armable, Bool.and_eq_true, ne_eq, decide_eq_true_eq, Option.any_eq_true] at harmable
  obtain ⟨⟨⟨hne, hmanaged⟩, hthere⟩, parent, hparent, hcrosses⟩ := harmable
  obtain ⟨under, hunder⟩ := Option.isSome_iff_exists.mp hthere
  have hpath : path ∈ m.held := mem_held.mpr (Or.inl hmanaged)
  have hkeys : ∀ other, other ∈ (if path ∈ m.covered.keys then m.covered
      else match m.tree.descend path with
        | some under => m.covered.insert path under
        | none => m.covered) → other = path ∨ other ∈ m.covered := by
    intro other hother
    split_ifs at hother with hcovered
    · exact Or.inr hother
    · rw [hunder] at hother
      by_cases hsame : other = path
      · exact Or.inl hsame
      · have hlookup := AList.lookup_isSome.mpr hother
        rw [AList.lookup_insert_ne hsame] at hlookup
        exact Or.inr (AList.lookup_isSome.mp hlookup)
  have hheld : ∀ other,
      other ∈ wherePaths m.world ++ AList.keys (if path ∈ m.covered.keys then m.covered
      else match m.tree.descend path with
        | some under => m.covered.insert path under
        | none => m.covered) → other ∈ m.held := by
    intro other hother
    rcases List.mem_append.mp hother with hwhere | hkey
    · exact mem_held.mpr (Or.inl hwhere)
    · rcases hkeys other hkey with rfl | hcovered
      · exact hpath
      · exact mem_held.mpr (Or.inr hcovered)
  constructor
  · exact fun other hother => h.descend_replaceAt hpath (hheld other hother)
  · intro other hother
    by_cases hsame : other = path
    · subst hsame
      have hbeside : ¬other <+: other.dropLast := by
        intro hleads
        have hlength := hleads.length_le
        have hpos := List.length_pos_iff.mpr hne
        rw [List.length_dropLast] at hlength
        omega
      obtain ⟨parent', hparent', hstat⟩ := Folder.descend_replaceAt shown hbeside hparent
      exact ⟨parent', shown, hparent',
        Folder.descend_replaceAt_self hunder, by rw [hstat, hcrosses]⟩
    · have hcovered := (hkeys other hother).resolve_left hsame
      exact (h.crossing other hcovered).replaceAt
        (h.beside hpath (mem_held.mpr (Or.inr hcovered)) hsame)
  · exact fun above habove below hbelow =>
      h.apart above (hheld above habove) below (hheld below hbelow)

/-- What the walk of a call leaves of the tree. -/
theorem define_persists (m : Machine) (call : DefineCall) :
    m.tree.Persists (m.define host call).tree := by
  unfold Machine.define
  dsimp only
  cases call.walks host { m.world with sys := call.sys } with
  | none => exact Folder.Persists.refl _
  | some input =>
    dsimp only
    unfold openMountpointNoFollow
    cases hroot : m.tree.descend call.landing with
    | none =>
      split_ifs <;> exact Folder.Persists.refl _
    | some root =>
      split_ifs
      · exact Folder.persists_replaceAt hroot (Folder.Persists.refl root)
      · exact Folder.persists_replaceAt hroot (persists_walkNoFollow _ _ _ _ root)

/-- A walk that goes through from a literal root: the mount point is a directory
afterwards, crossed no mount below the root, and held nothing. -/
theorem walk_of_define {call : DefineCall} {input : DefineInput} {opened : Folder}
    (hwalks : call.walks host { m.world with sys := call.sys } = some input)
    (hopened : (openMountpointNoFollow input.mountPlan call.caller.uid call.caller.gid
      (m.tree.descend call.landing)).1 = .ok opened)
    (hlanding : call.landing = pathComponents input.mountPlan.root) :
    (∃ d, (m.define host call).tree.descend (pathComponents input.mountPoint) = some d) ∧
      (∀ path, ProperAncestor call.landing path → path <+: pathComponents input.mountPoint →
        ¬m.tree.CrossesAt path) ∧
      ∀ path, ProperAncestor (pathComponents input.mountPoint) path →
        m.tree.descend path = none := by
  obtain ⟨hpath, hsuffix⟩ := pathComponents_of_readRequest (walks_eq_some hwalks)
  rw [← hlanding] at hpath
  have hnonempty : input.mountPlan.suffix.isEmpty = false := by simpa using hsuffix
  simp only [openMountpointNoFollow, hnonempty, Bool.false_eq_true, if_false] at hopened
  cases hroot : m.tree.descend call.landing with
  | none => simp [hroot] at hopened
  | some root =>
    simp only [hroot] at hopened
    refine ⟨?_, ?_, ?_⟩
    · obtain ⟨d, hd⟩ := descend_walk hopened
      refine ⟨d, ?_⟩
      simp only [Machine.define, hwalks, hroot, openMountpointNoFollow, hnonempty,
        Bool.false_eq_true, if_false]
      rw [hpath, Folder.descend_append, Folder.descend_replaceAt_self hroot]
      exact hd
    · rintro path ⟨⟨names, rfl⟩, hne⟩ hleads hcrosses
      rw [hpath, List.prefix_append_right_inj] at hleads
      have hnames : names ≠ [] := by
        rintro rfl
        exact hne (List.append_nil _).symm
      obtain ⟨parent, child, hparent, hchild, hcross⟩ := hcrosses
      rw [List.dropLast_append_of_ne_nil hnames, Folder.descend_append, hroot] at hparent
      rw [Folder.descend_append, hroot] at hchild
      exact not_crosses_of_walk hopened hleads ⟨parent, child, hparent, hchild, hcross⟩
    · rintro path ⟨⟨names, rfl⟩, hne⟩
      cases names with
      | nil => exact absurd (List.append_nil _).symm hne
      | cons name names =>
        rw [hpath, List.append_assoc, Folder.descend_append, hroot]
        exact descend_below_walk hopened name names

theorem Sound.define (h : m.Sound) {call : DefineCall} (hclear : m.Clear host (.define call)) :
    (m.define host call).Sound := by
  have hpersists : m.tree.Persists (m.define host call).tree := define_persists m call
  have hpaths : ∀ path ∈ wherePaths (m.define host call).world, path ∈ wherePaths m.world ∨
      ∃ input, call.walks host { m.world with sys := call.sys } = some input ∧
        (∃ opened, (openMountpointNoFollow input.mountPlan call.caller.uid call.caller.gid
          (m.tree.descend call.landing)).1 = .ok opened) ∧
        path = pathComponents input.mountPoint := by
    intro path hpath
    rcases wherePaths_of_unitsFrom (doDefine_units call _ _) hpath with
      hold | ⟨key, node, half, hnode, ⟨input, hwalks, hopened, hwrites⟩, hscan, rfl⟩
    · exact Or.inl hold
    · exact Or.inr ⟨input, hwalks, hopened,
        congrArg pathComponents (whereValue_of_writes hnode hwrites hscan)⟩
  have hheld : ∀ path ∈ (m.define host call).held, path ∈ m.held ∨
      ∃ input, call.walks host { m.world with sys := call.sys } = some input ∧
        (∃ opened, (openMountpointNoFollow input.mountPlan call.caller.uid call.caller.gid
          (m.tree.descend call.landing)).1 = .ok opened) ∧
        path = pathComponents input.mountPoint := by
    intro path hpath
    rcases mem_held.mp hpath with hwhere | hcovered
    · exact (hpaths path hwhere).imp_left fun hold => mem_held.mpr (Or.inl hold)
    · exact Or.inl (mem_held.mpr (Or.inr hcovered))
  constructor
  · intro path hpath
    rcases hheld path hpath with hold | ⟨input, hwalks, ⟨opened, hopened⟩, rfl⟩
    · obtain ⟨d, hd⟩ := h.placed path hold
      obtain ⟨d', hd', -⟩ := hpersists path d hd
      exact ⟨d', hd'⟩
    · exact (walk_of_define hwalks hopened (hclear input (walks_eq_some hwalks)).1).1
  · intro path hpath
    exact (h.crossing path hpath).persists hpersists
  · intro above habove below hbelow hancestor
    rcases hheld above habove with hold | ⟨input, hwalks, ⟨opened, hopened⟩, rfl⟩
    · rcases hheld below hbelow with hold' | ⟨input, hwalks, ⟨opened, hopened⟩, rfl⟩
      · exact h.apart above hold below hold' hancestor
      -- The walk would have met the trigger above the new mount point.
      · obtain ⟨hlanding, hclear⟩ := hclear input (walks_eq_some hwalks)
        obtain ⟨hinside, hactive⟩ := hclear above hold hancestor
        exact (walk_of_define hwalks hopened hlanding).2.1 above hinside hancestor.1
          (h.crossing above hactive)
    · obtain ⟨hlanding, -⟩ := hclear input (walks_eq_some hwalks)
      rcases hheld below hbelow with hold' | ⟨input', hwalks', -, rfl⟩
      -- The new mount point would not have been empty.
      · obtain ⟨d, hd⟩ := h.placed below hold'
        have hnone := (walk_of_define hwalks hopened hlanding).2.2 below hancestor
        exact nomatch hnone.symm.trans hd
      · obtain rfl := Option.some.inj (hwalks.symm.trans hwalks')
        exact hancestor.2 rfl

theorem Sound.step (h : m.Sound) (event : Event) (hclear : m.Clear host event) :
    (m.step host event).Sound := by
  cases event with
  | define call => exact h.define hclear
  | undefine call => exact h.undefine call
  | arm path shown => exact h.arm path shown
  | rest path => exact h.rest path
  | reboot => exact h.reboot

/-- A machine on which nothing was ever defined. -/
theorem sound_of_unused (hnone : wherePaths m.world = []) (hbare : m.covered.keys = []) :
    m.Sound := by
  have hheld : m.held = [] := by rw [held, hnone, hbare, List.append_nil]
  constructor
  · intro path hpath
    rw [hheld] at hpath
    exact absurd hpath List.not_mem_nil
  · intro path hpath
    rw [hbare] at hpath
    exact absurd hpath List.not_mem_nil
  · intro above habove
    rw [hheld] at habove
    exact absurd habove List.not_mem_nil

end Steps

/-- No managed mount point is ever inside another one, in a run in which every
definition above the path of an Add is active at that moment. -/
theorem managed_never_nested (host : Host) (start : Machine) (hnone : wherePaths start.world = [])
    (hbare : start.covered.keys = []) (events : List Event)
    (hclear : Runs.Throughout (fun m event => m.step host event) (fun m event => m.Clear host event)
      start events) :
    ∀ before, before <+: events → ∀ above ∈ wherePaths (start.run host before).world,
      ∀ below ∈ wherePaths (start.run host before).world, ¬ProperAncestor above below := by
  rintro before ⟨after, rfl⟩ above habove below hbelow
  have hbefore := (Runs.throughout_append.mp hclear).1
  have hsound : (start.run host before).Sound :=
    Runs.run_keeps (fun m event h hclear => h.step event hclear)
      (sound_of_unused hnone hbare) hbefore
  exact hsound.apart above (mem_held.mpr (Or.inl habove)) below (mem_held.mpr (Or.inl hbelow))

/-- An Add of a guest share by the sample caller that meets no failure. -/
def sampleAdd (path : QString) (draw : UInt64) : DefineCall where
  caller := sampleCaller
  args := [(qs "path", path), (qs "unc", qs "//nas/data")]
  draws _ := (0, draw)
  schedule := Prog.allOk
  landing := [qs "mnt"]
  sys := World.blank.sys

/-- An empty `/mnt`, and nothing defined. -/
def sampleStart : Machine where
  world := World.blank
  tree := { stat := homeStat 1000, entries := [(qs "mnt", .directory (homeStat 1000) [])] }
  covered := ∅

def sampleTrigger : Folder where
  stat := { homeStat 1000 with mountId := 77, device := 50, automountTrigger := true }
  entries := []

theorem sampleAdd_clear {m : Machine} {path : QString} {draw : UInt64}
    (hread : (readRequest sampleHost sampleCaller (sampleAdd path draw).args).map
      (fun input => (input.mountPlan.root, input.mountPoint)) = .ok (qs "/mnt", path))
    (hheld : ∀ above ∈ m.held, ¬ProperAncestor above (pathComponents path)) :
    m.Clear sampleHost (.define (sampleAdd path draw)) := by
  intro input hrequest
  have hrequest : readRequest sampleHost sampleCaller (sampleAdd path draw).args = .ok input :=
    hrequest
  rw [hrequest] at hread
  obtain ⟨hroot, hpoint⟩ := Prod.mk.inj (Except.ok.inj hread)
  rw [hroot, hpoint]
  have hlanding : [qs "mnt"] = pathComponents (qs "/mnt") := by decide
  exact ⟨hlanding, fun above habove hancestor => absurd hancestor (hheld above habove)⟩

/-- Two shares side by side, the first one active. -/
def sideBySide : List Event :=
  [.define (sampleAdd (qs "/mnt/a") 1), .arm [qs "mnt", qs "a"] sampleTrigger,
    .define (sampleAdd (qs "/mnt/b") 2)]

/-- A boot between the two leaves the first share unarmed, and the second is inside it. -/
def insideUnarmed : List Event :=
  [.define (sampleAdd (qs "/mnt/a") 1), .arm [qs "mnt", qs "a"] sampleTrigger, .reboot,
    .define (sampleAdd (qs "/mnt/a/b") 2)]

theorem managed_never_nested_sample :
    wherePaths (sampleStart.run sampleHost sideBySide).world ≠ [] ∧
      ∀ above ∈ wherePaths (sampleStart.run sampleHost sideBySide).world,
        ∀ below ∈ wherePaths (sampleStart.run sampleHost sideBySide).world,
          ¬ProperAncestor above below := by
  refine ⟨by decide +kernel, ?_⟩
  refine managed_never_nested sampleHost sampleStart rfl rfl sideBySide ⟨?_, trivial, ?_, trivial⟩
    sideBySide List.prefix_rfl
  · exact sampleAdd_clear (by decide +kernel) (by decide +kernel)
  · exact sampleAdd_clear (by decide +kernel) (by decide +kernel)

/-- Nothing keeps the helper from defining a share inside an unarmed one. -/
theorem managed_nested_unarmed :
    wherePaths sampleStart.world = [] ∧ sampleStart.covered.keys = [] ∧
      ∃ above ∈ wherePaths (sampleStart.run sampleHost insideUnarmed).world,
        ∃ below ∈ wherePaths (sampleStart.run sampleHost insideUnarmed).world,
          ProperAncestor above below := by
  refine ⟨rfl, rfl, [qs "mnt", qs "a"], ?_, [qs "mnt", qs "a", qs "b"], ?_, ?_⟩ <;> decide +kernel

end Machine

end NasMount.Root
