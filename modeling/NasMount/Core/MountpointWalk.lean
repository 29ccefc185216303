import NasMount.Core.UnitSpec

/-!
# The three walks to a mount point

The interactive walk creates what is missing below the authorized root, the
boot walk opens only what is there, and the preview looks without opening. All
three run on one static directory tree, whose entries are what a lookup by name
without following links finds. A component of an authorized plan is an ordinary
name: the path was cleaned and split at its slashes.
-/
namespace NasMount.Core

open NasMount.Foundation QString

/-- What `fstat` and `statx` report of a directory. A mount id of 0 is one the
kernel does not report. -/
structure DirStat where
  uid : UInt32
  gid : UInt32
  mode : ℕ
  mountId : UInt64
  device : UInt64
  automountTrigger : Bool
  deriving DecidableEq

inductive Node where
  | symlink
  | file
  | directory (stat : DirStat) (entries : List (QString × Node))

/-- An open directory. -/
structure Folder where
  stat : DirStat
  entries : List (QString × Node)

namespace Folder

def node (d : Folder) : Node := .directory d.stat d.entries

def lookup (d : Folder) (name : QString) : Option Node := d.entries.lookup name

/-- Replace the entry called `name`, or add one. -/
def setEntry (name : QString) (node : Node) : List (QString × Node) → List (QString × Node)
  | [] => [(name, node)]
  | entry :: rest =>
    if entry.1 = name then (name, node) :: rest else entry :: setEntry name node rest

def put (d : Folder) (name : QString) (node : Node) : Folder :=
  { d with entries := setEntry name node d.entries }

/-- `mkdirat(…, 0700)` by root: whether it created, and the parent afterwards.
The new directory lives on its parent's mount. -/
def mkdirat (d : Folder) (name : QString) : Bool × Folder :=
  match d.lookup name with
  | some _ => (false, d)
  | none =>
    (true, d.put name (.directory
      { uid := 0, gid := 0, mode := 0o700, mountId := d.stat.mountId, device := d.stat.device,
        automountTrigger := false } []))

/-- `openat` with `O_DIRECTORY | O_NOFOLLOW`. -/
def openat (d : Folder) (name : QString) : Option Folder :=
  match d.lookup name with
  | some (.directory stat entries) => some ⟨stat, entries⟩
  | _ => none

def fchown (d : Folder) (uid gid : UInt32) : Folder :=
  { d with stat := { d.stat with uid := uid, gid := gid } }

def fchmod (d : Folder) (mode : ℕ) : Folder := { d with stat := { d.stat with mode := mode } }

/-- Work through the descriptor of the entry `name`: the result, and this
directory with whatever that entry has become. -/
def within {α : Type} (d : Folder) (name : QString) (child : Folder)
    (work : Folder → α × Folder) : α × Folder :=
  ((work child).1, d.put name (work child).2.node)

variable {d child : Folder} {name : QString} {node : Node}

theorem lookup_setEntry (name : QString) (node : Node) (entries : List (QString × Node)) :
    (setEntry name node entries).lookup name = some node := by
  induction entries with
  | nil => simp [setEntry]
  | cons entry rest ih =>
    unfold setEntry
    split_ifs with h
    · simp
    · rw [List.lookup_cons, beq_eq_false_iff_ne.mpr (Ne.symm h)]
      exact ih

theorem setEntry_self {entries : List (QString × Node)} (h : entries.lookup name = some node) :
    setEntry name node entries = entries := by
  induction entries with
  | nil => simp at h
  | cons entry rest ih =>
    rw [List.lookup_cons] at h
    unfold setEntry
    split_ifs with hname
    · subst hname
      obtain rfl : entry.2 = node := by simpa using h
      rfl
    · rw [beq_eq_false_iff_ne.mpr (Ne.symm hname)] at h
      rw [ih h]

theorem setEntry_setEntry (name : QString) (node node' : Node) (entries : List (QString × Node)) :
    setEntry name node' (setEntry name node entries) = setEntry name node' entries := by
  induction entries with
  | nil => simp [setEntry]
  | cons entry rest ih =>
    rw [setEntry]
    split_ifs with h
    · simp [setEntry, h]
    · simp [setEntry, h, ih]

@[simp] theorem put_stat : (d.put name node).stat = d.stat := rfl

@[simp] theorem lookup_put : (d.put name node).lookup name = some node :=
  lookup_setEntry name node d.entries

@[simp] theorem put_put {node' : Node} : (d.put name node).put name node' = d.put name node' := by
  simp only [put, setEntry_setEntry]

@[simp] theorem within_put {α : Type} {work : Folder → α × Folder} :
    (d.put name node).within name child work = d.within name child work := by
  simp only [within, put_put]

theorem put_self (h : d.lookup name = some node) : d.put name node = d := by
  simp only [put, setEntry_self h]

@[simp] theorem openat_put : (d.put name child.node).openat name = some child := by
  simp [openat, node]

theorem openat_eq_some : d.openat name = some child ↔ d.lookup name = some child.node := by
  unfold openat node
  split
  · rename_i stat entries hlookup
    rw [hlookup]
    cases child
    simp
  · rename_i hlookup
    simp only [reduceCtorEq, false_iff]
    exact hlookup _ _

@[simp] theorem fchown_uid (uid gid : UInt32) : (d.fchown uid gid).stat.uid = uid := rfl

@[simp] theorem fchown_gid (uid gid : UInt32) : (d.fchown uid gid).stat.gid = gid := rfl

@[simp] theorem fchown_entries (uid gid : UInt32) : (d.fchown uid gid).entries = d.entries := rfl

theorem mkdirat_of_some (h : d.lookup name = some node) : d.mkdirat name = (false, d) := by
  simp only [mkdirat, h]

theorem mkdirat_of_none (h : d.lookup name = none) :
    ∃ fresh : Folder, d.mkdirat name = (true, d.put name fresh.node) ∧ fresh.entries = [] ∧
      fresh.stat.mountId = d.stat.mountId ∧ fresh.stat.device = d.stat.device := by
  simp only [mkdirat, h]
  exact ⟨⟨_, []⟩, rfl, rfl, rfl, rfl⟩

/-- The directory that the components of a path lead to. -/
def descend : List QString → Folder → Option Folder
  | [], d => some d
  | name :: rest, d => (d.openat name).bind (descend rest)

end Folder

/-- Mount ids where the kernel reports both, device numbers otherwise. -/
def crossesMount (child parent : DirStat) : Bool :=
  if child.mountId ≠ 0 ∧ parent.mountId ≠ 0 then child.mountId != parent.mountId
  else child.device != parent.device

/-- What the interactive walk checks of an open component. -/
def interactiveCheck (plan : MountpointPlan) (uid : UInt32) (component : QString)
    (isLast created : Bool) (parent : DirStat) (child : Folder) : Except QString Unit :=
  if !created ∧ child.stat.uid ≠ uid then
    .error (qs "Path '" ++ plan.path ++ qs "' is owned by uid=" ++ number child.stat.uid.toNat ++
      qs " mismatched with current user uid=" ++ number uid.toNat ++
      qs ". Change owner of this dir.")
  else if isLast then
    if crossesMount child.stat parent then .error (plan.path ++ qs " is already a mount point")
    else if child.entries.isEmpty then .ok ()
    else .error (plan.path ++ qs " is not empty - refusing to shadow existing data")
  else if crossesMount child.stat parent then
    .error (plan.path ++ qs " crosses a mount point at " ++ component)
  else .ok ()

def refusingToTraverse (plan : MountpointPlan) (component : QString) : QString :=
  qs "refusing to traverse " ++ component ++ qs " in " ++ plan.path ++
    qs ": not a directory, or it is a symlink"

/-- The loop of the interactive walk over the remaining components: the opened
mount point or the refusal, and the parent directory afterwards. -/
def walkNoFollow (plan : MountpointPlan) (uid gid : UInt32) :
    List QString → Folder → Except QString Folder × Folder
  | [], parent => (.error (qs "internal error walking mount point"), parent)
  | component :: rest, parent =>
    let (created, parent) := parent.mkdirat component
    match parent.openat component with
    | none => (.error (refusingToTraverse plan component), parent)
    | some opened =>
      let child := if created then opened.fchown uid gid else opened
      match interactiveCheck plan uid component rest.isEmpty created parent.stat child with
      | .error e => (.error e, parent.put component child.node)
      | .ok () =>
        parent.within component child fun child =>
          if rest.isEmpty then
            let claimed := (child.fchown uid gid).fchmod 0o700
            (.ok claimed, claimed)
          else walkNoFollow plan uid gid rest child

/-- The walk of Add. `tree` is what opening the authorized root finds, links
followed; `none` when it cannot be opened as a directory. -/
def openMountpointNoFollow (plan : MountpointPlan) (uid gid : UInt32) (tree : Option Folder) :
    Except QString Folder × Option Folder :=
  if plan.suffix.isEmpty then
    (.error (qs "no mount point components below " ++ plan.root), tree)
  else
    match tree with
    | none => (.error (qs "cannot open " ++ plan.root), tree)
    | some root =>
      let (opened, root) := walkNoFollow plan uid gid plan.suffix root
      (opened, some root)

/-- What the boot walk checks of an open component. -/
def bootCheck (plan : MountpointPlan) (uid gid : UInt32) (component : QString) (isLast : Bool)
    (parent : DirStat) (child : Folder) : Except QString Unit :=
  -- The group too: nothing here could correct one that drifted.
  if child.stat.uid ≠ uid ∨ child.stat.gid ≠ gid then
    .error (plan.path ++ qs " is owned by uid " ++ number child.stat.uid.toNat ++ qs " gid " ++
      number child.stat.gid.toNat ++ qs ", not the recorded owner " ++ number uid.toNat ++
      ':' :: number gid.toNat)
  else if isLast then
    if crossesMount child.stat parent then .error (plan.path ++ qs " is already a mount point")
    else if child.entries.isEmpty then .ok ()
    else .error (plan.path ++ qs " is not empty - refusing to arm onto existing data")
  else if crossesMount child.stat parent then
    .error (plan.path ++ qs " crosses a mount point at " ++ component)
  else .ok ()

def walkNoCreate (plan : MountpointPlan) (uid gid : UInt32) :
    List QString → Folder → Except QString Folder
  | [], _ => .error (qs "internal error walking mount point")
  | component :: rest, parent =>
    match parent.openat component with
    | none =>
      .error (if (parent.lookup component).isNone then plan.path ++ qs " does not exist"
        else refusingToTraverse plan component)
    | some child =>
      match bootCheck plan uid gid component rest.isEmpty parent.stat child with
      | .error e => .error e
      | .ok () => if rest.isEmpty then .ok child else walkNoCreate plan uid gid rest child

/-- The walk of boot. It only reads. -/
def openMountpointNoCreate (plan : MountpointPlan) (uid gid : UInt32) (tree : Option Folder) :
    Except QString Folder :=
  if plan.suffix.isEmpty then .error (qs "no mount point components below " ++ plan.root)
  else
    match tree with
    | none => .error (qs "cannot open " ++ plan.root)
    | some root => walkNoCreate plan uid gid plan.suffix root

/-- The loop of the preview below the root, which compares every component with
the root itself. -/
def previewBelow (root : DirStat) (uid : UInt32) :
    QString → List QString → Folder → QString × Folder
  | _, [], dir => ([], dir)
  | walked, component :: rest, dir =>
    let walked := cleanPath (walked ++ '/' :: component)
    match dir.lookup component with
    -- Everything from here on is created by the helper.
    | none => ([], dir)
    | some .symlink => (walked ++ qs " is a symbolic link; choose the folder it points to", dir)
    | some .file => (walked ++ qs " is a file, not a folder", dir)
    | some (.directory stat entries) =>
      if stat.automountTrigger || crossesMount stat root then
        (if rest.isEmpty then qs "Something is already mounted on " ++ walked
          else walked ++ qs " is on another filesystem or mount; choose a folder that is " ++
            qs "not inside it", dir)
      else if stat.uid ≠ uid then (walked ++ qs " belongs to another user", dir)
      else
        dir.within component ⟨stat, entries⟩ fun child =>
          if rest.isEmpty then
            (if child.entries.isEmpty then []
              else walked ++ qs " is not empty; choose an empty folder, so the mount does not " ++
                qs "hide its files", child)
          else previewBelow root uid walked rest child

/-- The form's look at a mount point: the problem, empty when there is none, and
the tree afterwards. -/
def previewMountpointProblem (plan : MountpointPlan) (uid : UInt32) (tree : Option Folder) :
    QString × Option Folder :=
  if plan.suffix.isEmpty then ([], tree)
  else
    match tree with
    | none => ([], tree)
    | some root =>
      if root.stat.automountTrigger then ([], tree)
      else
        let (problem, root) := previewBelow root.stat uid plan.root plan.suffix root
        (problem, some root)

/-! ## Preview and interactive walk -/

/-- A tree nobody changes: every directory has a mount id, and a trigger below
the root is a mount of its own. -/
structure StaticTree (root : Folder) : Prop where
  reported : ∀ path d, root.descend path = some d → d.stat.mountId ≠ 0
  triggers : ∀ path d name child, root.descend path = some d → d.openat name = some child →
    child.stat.automountTrigger → child.stat.mountId ≠ d.stat.mountId

section
variable {plan : MountpointPlan} {uid gid : UInt32} {component : QString}
  {rest suffix : List QString} {parent child : Folder} {node : Node}

theorem StaticTree.openat (h : StaticTree parent) (hopen : parent.openat component = some child) :
    StaticTree child where
  reported path d hd := h.reported (component :: path) d (by simp [Folder.descend, hopen, hd])
  triggers path d name below hd :=
    h.triggers (component :: path) d name below (by simp [Folder.descend, hopen, hd])

theorem StaticTree.intro (hid : parent.stat.mountId ≠ 0)
    (hbelow : ∀ name child, parent.openat name = some child → StaticTree child ∧
      (child.stat.automountTrigger → child.stat.mountId ≠ parent.stat.mountId)) :
    StaticTree parent where
  reported path d hd := by
    cases path with
    | nil => exact Option.some.inj hd ▸ hid
    | cons name rest =>
      obtain ⟨child, hopen, hd⟩ := Option.bind_eq_some_iff.mp hd
      exact (hbelow name child hopen).1.reported rest d hd
  triggers path d name below hd := by
    cases path with
    | nil => exact Option.some.inj hd ▸ fun hopen => (hbelow name below hopen).2
    | cons first rest =>
      obtain ⟨child, hopen, hd⟩ := Option.bind_eq_some_iff.mp hd
      exact (hbelow first child hopen).1.triggers rest d name below hd

theorem crossesMount_self {stat : DirStat} (hmount : child.stat.mountId = stat.mountId)
    (hdevice : child.stat.device = stat.device) : crossesMount child.stat stat = false := by
  simp [crossesMount, hmount, hdevice]

theorem crossesMount_reported {stat stat' : DirStat} (h : stat.mountId ≠ 0)
    (h' : stat'.mountId ≠ 0) : crossesMount stat stat' = (stat.mountId != stat'.mountId) := by
  simp [crossesMount, h, h']

theorem interactiveCheck_fresh {isLast : Bool} (hempty : child.entries = [])
    (hmount : child.stat.mountId = parent.stat.mountId)
    (hdevice : child.stat.device = parent.stat.device) :
    interactiveCheck plan uid component isLast true parent.stat child = .ok () := by
  simp [interactiveCheck, crossesMount_self hmount hdevice, hempty]

/-- The walk at a component that is already a directory. -/
theorem walkNoFollow_existing (hopen : parent.openat component = some child) :
    walkNoFollow plan uid gid (component :: rest) parent =
      match interactiveCheck plan uid component rest.isEmpty false parent.stat child with
      | .error e => (.error e, parent.put component child.node)
      | .ok () =>
        parent.within component child fun child =>
          if rest.isEmpty then
            (.ok ((child.fchown uid gid).fchmod 0o700), (child.fchown uid gid).fchmod 0o700)
          else walkNoFollow plan uid gid rest child := by
  have hlookup := Folder.openat_eq_some.mp hopen
  simp only [walkNoFollow, Folder.mkdirat_of_some hlookup, hopen, Bool.false_eq_true, if_false]

/-- The walk at a component that is missing: the created directory passes. -/
theorem walkNoFollow_missing (plan : MountpointPlan) (uid gid : UInt32) (rest : List QString)
    (hlookup : parent.lookup component = none) :
    ∃ fresh : Folder, fresh.entries = [] ∧ fresh.stat.uid = uid ∧ fresh.stat.gid = gid ∧
      fresh.stat.mountId = parent.stat.mountId ∧ fresh.stat.device = parent.stat.device ∧
      walkNoFollow plan uid gid (component :: rest) parent =
        parent.within component fresh fun child =>
          if rest.isEmpty then
            (.ok ((child.fchown uid gid).fchmod 0o700), (child.fchown uid gid).fchmod 0o700)
          else walkNoFollow plan uid gid rest child := by
  obtain ⟨made, hmade, hempty, hmount, hdevice⟩ := Folder.mkdirat_of_none hlookup
  refine ⟨made.fchown uid gid, hempty, rfl, rfl, hmount, hdevice, ?_⟩
  have hcheck : interactiveCheck plan uid component rest.isEmpty true parent.stat
      (made.fchown uid gid) = .ok () := interactiveCheck_fresh hempty hmount hdevice
  simp only [walkNoFollow, hmade, Folder.openat_put, Folder.put_stat, if_true, hcheck,
    Folder.within_put]

/-- Once a component is missing, nothing stands in the way of the rest. -/
theorem walkNoFollow_creates (rest : List QString) :
    ∀ {component : QString} {parent : Folder}, parent.lookup component = none →
      ∃ opened, (walkNoFollow plan uid gid (component :: rest) parent).1 = .ok opened := by
  induction rest with
  | nil =>
    intro component parent hlookup
    obtain ⟨fresh, -, -, -, -, -, hwalk⟩ := walkNoFollow_missing plan uid gid [] hlookup
    exact ⟨_, by rw [hwalk]; rfl⟩
  | cons next rest ih =>
    intro component parent hlookup
    obtain ⟨fresh, hempty, -, -, -, -, hwalk⟩ :=
      walkNoFollow_missing plan uid gid (next :: rest) hlookup
    have hnext : fresh.lookup next = none := by simp [Folder.lookup, hempty]
    obtain ⟨opened, hopened⟩ := ih hnext
    exact ⟨opened, by rw [hwalk]; exact hopened⟩

/-- The conditions under which an existing component lets the walk go on. -/
def Passable (uid : UInt32) (isLast : Bool) (parent : DirStat) (child : Folder) : Prop :=
  child.stat.uid = uid ∧ crossesMount child.stat parent = false ∧
    (isLast = true → child.entries = [])

theorem interactiveCheck_ok_iff (plan : MountpointPlan) (component : QString) {isLast : Bool}
    {stat : DirStat} :
    interactiveCheck plan uid component isLast false stat child = .ok () ↔
      Passable uid isLast stat child := by
  unfold interactiveCheck Passable
  split_ifs with howner hlast hcross hempty hcross <;> simp_all

theorem walkNoFollow_existing_ok_iff (hopen : parent.openat component = some child) :
    (∃ opened, (walkNoFollow plan uid gid (component :: rest) parent).1 = .ok opened) ↔
      Passable uid rest.isEmpty parent.stat child ∧
        (rest = [] ∨ ∃ opened, (walkNoFollow plan uid gid rest child).1 = .ok opened) := by
  rw [walkNoFollow_existing hopen, ← interactiveCheck_ok_iff plan component]
  cases hcheck : interactiveCheck plan uid component rest.isEmpty false parent.stat child with
  | error e => simp
  | ok _ => cases rest <;> simp [Folder.within]

theorem walkNoFollow_refuses (hlookup : parent.lookup component = some node)
    (hopen : parent.openat component = none) :
    (walkNoFollow plan uid gid (component :: rest) parent).1 =
      .error (refusingToTraverse plan component) := by
  simp only [walkNoFollow, Folder.mkdirat_of_some hlookup, hopen]

theorem previewBelow_existing {root : DirStat} {walked : QString}
    (hopen : parent.openat component = some child) :
    (previewBelow root uid walked (component :: rest) parent).1 = [] ↔
      (child.stat.automountTrigger = false ∧ Passable uid rest.isEmpty root child) ∧
        (rest = [] ∨
          (previewBelow root uid (cleanPath (walked ++ '/' :: component)) rest child).1 = []) := by
  have hlookup := Folder.openat_eq_some.mp hopen
  simp only [previewBelow, hlookup, Folder.node]
  by_cases hcross : child.stat.automountTrigger || crossesMount child.stat root
  · rw [if_pos hcross]
    have hfails : Passable uid rest.isEmpty root child → child.stat.automountTrigger ≠ false :=
      fun h htrigger => by simp [htrigger, h.2.1] at hcross
    refine iff_of_false ?_ fun h => hfails h.1.2 h.1.1
    split_ifs <;> simp
  · have ⟨htrigger, hsame⟩ : child.stat.automountTrigger = false ∧
        crossesMount child.stat root = false := by simpa using hcross
    rw [if_neg hcross]
    by_cases howner : child.stat.uid = uid
    · rw [if_neg (not_not.mpr howner)]
      cases rest with
      | nil => simp [Folder.within, Passable, htrigger, hsame, howner]
      | cons next rest =>
        simp only [Folder.within, Passable, htrigger, hsame, howner, List.isEmpty_cons,
          Bool.false_eq_true, if_false, true_and, false_imp_iff, and_true, reduceCtorEq, false_or]
    · rw [if_pos howner]
      exact iff_of_false (by simp) fun h => howner h.1.2.1

/-- Below directories on the root's own mount the two walks agree. -/
theorem previewBelow_walk {root : DirStat} (hroot : root.mountId ≠ 0) (suffix : List QString) :
    ∀ {walked : QString} {parent : Folder}, StaticTree parent →
      parent.stat.mountId = root.mountId → suffix ≠ [] →
      ((previewBelow root uid walked suffix parent).1 = [] ↔
        ∃ opened, (walkNoFollow plan uid gid suffix parent).1 = .ok opened) := by
  induction suffix with
  | nil => intro _ _ _ _ h; exact absurd rfl h
  | cons component rest ih =>
    intro walked parent hstatic hmount _
    cases hopen : parent.openat component with
    | none =>
      cases hlookup : parent.lookup component with
      | none =>
        have hpreview : (previewBelow root uid walked (component :: rest) parent).1 = [] := by
          simp only [previewBelow, hlookup]
        exact iff_of_true hpreview (walkNoFollow_creates rest hlookup)
      | some node =>
        rw [walkNoFollow_refuses hlookup hopen]
        refine iff_of_false ?_ (by simp)
        cases node with
        | symlink => simp [previewBelow, hlookup]
        | file => simp [previewBelow, hlookup]
        | directory stat entries => simp [Folder.openat, hlookup] at hopen
    | some child =>
      have hids : child.stat.mountId ≠ 0 := (hstatic.openat hopen).reported [] child rfl
      -- The two walks measure the component against the same mount id.
      have hcross : crossesMount child.stat root = crossesMount child.stat parent.stat := by
        rw [crossesMount_reported hids hroot, crossesMount_reported hids (hmount ▸ hroot), hmount]
      have hpass : Passable uid rest.isEmpty root child ↔
          Passable uid rest.isEmpty parent.stat child := by
        simp only [Passable, hcross]
      rw [previewBelow_existing hopen, walkNoFollow_existing_ok_iff hopen, hpass]
      have htrigger : Passable uid rest.isEmpty parent.stat child →
          child.stat.automountTrigger = false := by
        rintro ⟨-, hsame, -⟩
        by_contra htrigger
        refine hstatic.triggers [] parent component child rfl hopen (by simpa using htrigger) ?_
        simpa [crossesMount_reported hids (hmount ▸ hroot)] using hsame
      rw [and_iff_right_of_imp htrigger]
      refine and_congr_right fun hok => or_congr_right' fun hrest => ?_
      have hsame : child.stat.mountId = root.mountId := by
        have := hok.2.1
        rw [crossesMount_reported hids (hmount ▸ hroot)] at this
        rw [← hmount]
        simpa using this
      exact ih (hstatic.openat hopen) hsame hrest

/-- The preview hands every directory back as it found it. -/
theorem previewBelow_unchanged {root : DirStat} (suffix : List QString) :
    ∀ (walked : QString) (dir : Folder), (previewBelow root uid walked suffix dir).2 = dir := by
  induction suffix with
  | nil => exact fun _ _ => rfl
  | cons component rest ih =>
    intro walked dir
    rw [previewBelow]
    split
    · rfl
    · rfl
    · rfl
    · rename_i stat entries hlookup
      split_ifs
      · rfl
      · rfl
      · rfl
      · exact Folder.put_self hlookup
      · simp only [Folder.within, ih]
        exact Folder.put_self hlookup

/-! ## Interactive walk and boot walk -/

/-- Every existing component above the last is of the group `gid`. -/
def GroupKept (gid : UInt32) : List QString → Folder → Prop
  | component :: next :: rest, parent =>
    ∀ child, parent.openat component = some child →
      child.stat.gid = gid ∧ GroupKept gid (next :: rest) child
  | _, _ => True

theorem groupKept_of_empty (suffix : List QString) (h : parent.entries = []) :
    GroupKept gid suffix parent := by
  match suffix with
  | [] => trivial
  | [_] => trivial
  | component :: next :: rest =>
    intro child hopen
    simp [Folder.openat, Folder.lookup, h] at hopen

theorem bootCheck_ok_iff (plan : MountpointPlan) (component : QString) {isLast : Bool}
    {stat : DirStat} :
    bootCheck plan uid gid component isLast stat child = .ok () ↔
      child.stat.gid = gid ∧ Passable uid isLast stat child := by
  unfold bootCheck Passable
  split_ifs with howner hlast hcross hempty hcross <;> simp_all
  tauto

theorem walkNoCreate_ok_iff (hopen : parent.openat component = some child) :
    (∃ opened, walkNoCreate plan uid gid (component :: rest) parent = .ok opened) ↔
      (child.stat.gid = gid ∧ Passable uid rest.isEmpty parent.stat child) ∧
        (rest = [] ∨ ∃ opened, walkNoCreate plan uid gid rest child = .ok opened) := by
  rw [← bootCheck_ok_iff plan component, walkNoCreate]
  simp only [hopen]
  cases hcheck : bootCheck plan uid gid component rest.isEmpty parent.stat child with
  | error e => simp
  | ok _ => cases rest <;> simp

theorem walkNoFollow_stat (plan : MountpointPlan) (uid gid : UInt32) (suffix : List QString)
    (parent : Folder) :
    (walkNoFollow plan uid gid suffix parent).2.stat = parent.stat := by
  cases suffix with
  | nil => rfl
  | cons component rest =>
    cases hlookup : parent.lookup component with
    | none =>
      obtain ⟨fresh, -, -, -, -, -, hwalk⟩ := walkNoFollow_missing plan uid gid rest hlookup
      rw [hwalk]
      rfl
    | some node =>
      simp only [walkNoFollow, Folder.mkdirat_of_some hlookup]
      split
      · rfl
      · split <;> rfl

/-- What a successful walk found or made at its first component, and left there. -/
theorem walkNoFollow_ok {opened : Folder}
    (h : (walkNoFollow plan uid gid (component :: rest) parent).1 = .ok opened) :
    ∃ child, Passable uid rest.isEmpty parent.stat child ∧
      (parent.openat component = some child ∨
        parent.openat component = none ∧ child.entries = [] ∧ child.stat.gid = gid) ∧
      (walkNoFollow plan uid gid (component :: rest) parent).2 =
        parent.put component (if rest.isEmpty then (child.fchown uid gid).fchmod 0o700
          else (walkNoFollow plan uid gid rest child).2).node ∧
      (rest = [] ∨ (walkNoFollow plan uid gid rest child).1 = .ok opened) := by
  cases hlookup : parent.lookup component with
  | none =>
    obtain ⟨fresh, hempty, huid, hgid, hmount, hdevice, hwalk⟩ :=
      walkNoFollow_missing plan uid gid rest hlookup
    have hopen : parent.openat component = none := by simp [Folder.openat, hlookup]
    rw [hwalk] at h ⊢
    refine ⟨fresh, ⟨huid, crossesMount_self hmount hdevice, fun _ => hempty⟩,
      .inr ⟨hopen, hempty, hgid⟩, ?_⟩
    cases rest with
    | nil => exact ⟨rfl, .inl rfl⟩
    | cons next rest => exact ⟨rfl, .inr h⟩
  | some node =>
    cases hopen : parent.openat component with
    | none => simp [walkNoFollow_refuses hlookup hopen] at h
    | some child =>
      have hpass := ((walkNoFollow_existing_ok_iff hopen).mp ⟨opened, h⟩).1
      have hcheck := (interactiveCheck_ok_iff plan component).mpr hpass
      rw [walkNoFollow_existing hopen, hcheck] at h ⊢
      refine ⟨child, hpass, .inl rfl, ?_⟩
      cases rest with
      | nil => exact ⟨rfl, .inl rfl⟩
      | cons next rest => exact ⟨rfl, .inr h⟩

/-- After a successful interactive walk, the boot walk lacks the group alone. -/
theorem walkNoCreate_after (suffix : List QString) :
    ∀ {parent opened : Folder}, (walkNoFollow plan uid gid suffix parent).1 = .ok opened →
      ((∃ again, walkNoCreate plan uid gid suffix (walkNoFollow plan uid gid suffix parent).2 =
          .ok again) ↔ GroupKept gid suffix parent) := by
  induction suffix with
  | nil => intro parent opened h; simp [walkNoFollow] at h
  | cons component rest ih =>
    intro parent opened h
    obtain ⟨child, hpass, hfound, hleft, hrest⟩ := walkNoFollow_ok h
    rw [hleft, walkNoCreate_ok_iff Folder.openat_put]
    cases rest with
    | nil =>
      refine iff_of_true ⟨⟨rfl, rfl, ?_, fun _ => hpass.2.2 rfl⟩, .inl rfl⟩ trivial
      exact hpass.2.1
    | cons next rest =>
      have hwalk := hrest.resolve_left (by simp)
      have hstat := walkNoFollow_stat plan uid gid (next :: rest) child
      have hkept : GroupKept gid (component :: next :: rest) parent ↔
          child.stat.gid = gid ∧ GroupKept gid (next :: rest) child := by
        rcases hfound with hopen | ⟨hopen, hempty, hgid⟩
        · simp [GroupKept, hopen]
        · simp [GroupKept, hopen, hgid, groupKept_of_empty _ hempty]
      have hpass' : Passable uid false parent.stat
          (walkNoFollow plan uid gid (next :: rest) child).2 := by
        simpa [Passable, hstat] using hpass
      rw [hkept, ← ih hwalk]
      simpa [hstat] using fun _ _ _ => hpass'

def homeStat (gid : UInt32) : DirStat where
  uid := 1000
  gid := gid
  mode := 0o755
  mountId := 30
  device := 2049
  automountTrigger := false

/-- A home directory with one folder `nas` in it, of group `gid`. -/
def homeTree (gid : UInt32) : Folder where
  stat := homeStat 1000
  entries := [(qs "nas", .directory (homeStat gid) [])]

def nasPlan : MountpointPlan where
  path := qs "/home/user/nas/music"
  root := qs "/home/user"
  suffix := [qs "nas", qs "music"]

theorem homeTree_static (gid : UInt32) : StaticTree (homeTree gid) := by
  have hempty : StaticTree ⟨homeStat gid, []⟩ :=
    .intro (by simp [homeStat]) fun _ _ hopen => by simp [Folder.openat, Folder.lookup] at hopen
  refine .intro (by simp [homeTree, homeStat]) fun name child hopen => ?_
  have hchild := Folder.openat_eq_some.mp hopen
  obtain ⟨-, hnode⟩ : name = qs "nas" ∧ .directory (homeStat gid) [] = child.node := by
    simp only [Folder.lookup, homeTree, List.lookup_cons] at hchild
    split at hchild
    · rename_i hname
      exact ⟨by simpa using hname, Option.some.inj hchild⟩
    · simp at hchild
  obtain rfl : child = ⟨homeStat gid, []⟩ := by
    cases child
    simpa [Folder.node, eq_comm] using hnode
  exact ⟨hempty, fun htrigger => by simp [homeStat] at htrigger⟩

/-- The form's look agrees with the interactive walk and changes nothing. -/
theorem preview_agrees (plan : MountpointPlan) (uid gid : UInt32) (root : Folder)
    (hplan : plan.suffix ≠ []) (hstatic : StaticTree root)
    (hroot : root.stat.automountTrigger = false) :
    ((previewMountpointProblem plan uid (some root)).1 = [] ↔
        ∃ opened, (openMountpointNoFollow plan uid gid (some root)).1 = .ok opened) ∧
      (previewMountpointProblem plan uid (some root)).2 = some root := by
  have hsuffix : plan.suffix.isEmpty = false := by simpa using hplan
  simp only [previewMountpointProblem, openMountpointNoFollow, hsuffix, hroot,
    Bool.false_eq_true, if_false]
  exact ⟨previewBelow_walk (hstatic.reported [] root rfl) plan.suffix hstatic rfl hplan,
    congrArg some (previewBelow_unchanged plan.suffix plan.root root)⟩

theorem preview_agrees_sample :
    (previewMountpointProblem nasPlan 1000 (some (homeTree 100))).1 = [] ∧
      ∃ opened, (openMountpointNoFollow nasPlan 1000 1000 (some (homeTree 100))).1 =
        .ok opened := by
  have h := preview_agrees nasPlan 1000 1000 (homeTree 100) (by decide) (homeTree_static 100) rfl
  have hproblem : (previewMountpointProblem nasPlan 1000 (some (homeTree 100))).1 = [] := rfl
  exact ⟨hproblem, h.1.mp hproblem⟩

/-- A mount point that Add opened is opened again at boot exactly when every
component above it that was already there has the owner's group. -/
theorem boot_walk_after_add (plan : MountpointPlan) (uid gid : UInt32)
    (tree : Option Folder) (opened : Folder)
    (h : (openMountpointNoFollow plan uid gid tree).1 = .ok opened) :
    (∃ again, openMountpointNoCreate plan uid gid (openMountpointNoFollow plan uid gid tree).2 =
        .ok again) ↔
      ∀ root, tree = some root → GroupKept gid plan.suffix root := by
  unfold openMountpointNoFollow openMountpointNoCreate at *
  split_ifs at h ⊢ with hsuffix
  cases tree with
  | none => simp at h
  | some root => simpa using walkNoCreate_after plan.suffix h

theorem boot_walk_after_add_sample :
    (∃ opened, (openMountpointNoFollow nasPlan 1000 1000 (some (homeTree 1000))).1 = .ok opened) ∧
      ∃ again, openMountpointNoCreate nasPlan 1000 1000
        (openMountpointNoFollow nasPlan 1000 1000 (some (homeTree 1000))).2 = .ok again := by
  refine ⟨⟨_, rfl⟩, (boot_walk_after_add nasPlan 1000 1000 (some (homeTree 1000)) _ rfl).mpr ?_⟩
  rintro root ⟨⟩ child hopen
  have hnas : (homeTree 1000).openat (qs "nas") = some ⟨homeStat 1000, []⟩ := rfl
  obtain rfl := Option.some.inj (hopen.symm.trans hnas)
  exact ⟨rfl, trivial⟩

/-- Add goes through a folder of another group, and boot refuses it. -/
theorem boot_walk_refuses_group :
    (∃ opened, (openMountpointNoFollow nasPlan 1000 1000 (some (homeTree 100))).1 = .ok opened) ∧
      openMountpointNoCreate nasPlan 1000 1000
          (openMountpointNoFollow nasPlan 1000 1000 (some (homeTree 100))).2 =
        .error (qs "/home/user/nas/music is owned by uid 1000 gid 100, not the recorded owner " ++
          qs "1000:1000") :=
  ⟨⟨_, rfl⟩, rfl⟩

end

end NasMount.Core
