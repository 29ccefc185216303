import Mathlib.Data.List.AList
import NasMount.Core.UnitSpec

/-!
# What is on disk and in the kernel

The root-owned files the program reads and writes, and what it can observe of
systemd and the kernel. systemd itself is a parameter: `Host` holds the effect
of its commands on those observations, with the documented behaviour the
program relies on.
-/
namespace NasMount.Core

open NasMount.Foundation QString

/-- A single path component that directory listings do not hide. -/
def isUnitName (text : QString) : Bool :=
  text ≠ [] && !startsWith text ['.'] && !text.contains '/'

/-- An escaped unit name, without the unit suffix. -/
structure UnitName where
  text : QString
  component : isUnitName text = true
  deriving DecidableEq

theorem UnitName.ext_text {a b : UnitName} (h : a.text = b.text) : a = b := by
  cases a
  cases b
  simpa using h

/-- The two files of a definition. -/
inductive Half
  | mount
  | automount
  deriving DecidableEq, Repr

def Half.suffix : Half → QString
  | .mount => qs ".mount"
  | .automount => qs ".automount"

/-- One file below `/etc/systemd/system` that a `*.mount`/`*.automount` listing
shows. A hidden file is no unit for systemd either. -/
structure UnitKey where
  base : UnitName
  half : Half
  deriving DecidableEq

def UnitName.mount (base : UnitName) : UnitKey := ⟨base, .mount⟩

def UnitName.automount (base : UnitName) : UnitKey := ⟨base, .automount⟩

theorem UnitKey.eq_mount_or_automount (key : UnitKey) :
    key = key.base.mount ∨ key = key.base.automount := by
  obtain ⟨base, half⟩ := key
  cases half
  · exact Or.inl rfl
  · exact Or.inr rfl

def UnitKey.fileName (key : UnitKey) : QString := key.base.text ++ key.half.suffix

inductive FileKind
  | regular
  /-- A symbolic link to a readable regular file. -/
  | symlink
  | directory
  /-- A device or a dangling link. -/
  | other
  deriving DecidableEq, Repr

/-- The listing of files shows the entry. -/
def FileKind.isFile : FileKind → Bool
  | .regular | .symlink => true
  | .directory | .other => false

/-- A directory entry. The content is what reading through the name gives. -/
structure FileNode where
  kind : FileKind
  uid : UInt32
  mode : ℕ
  content : QString
  deriving DecidableEq

/-- Owned by root and not writable for group or others. -/
def FileNode.rootSafe (node : FileNode) : Bool :=
  node.kind = .regular && node.uid = 0 && node.mode &&& 0o022 = 0

inductive ArtifactKind
  | directory
  | publicDirectory
  | unitFile
  | sensitiveFile
  | publicRecord
  deriving DecidableEq, Repr

def modeFor : ArtifactKind → ℕ
  | .directory => 0o700
  | .publicDirectory => 0o755
  | .unitFile => 0o644
  | .sensitiveFile => 0o600
  | .publicRecord => 0o644

/-- `verifyDescriptor` for a regular file of root. -/
def FileNode.verified (node : FileNode) (kind : ArtifactKind) : Bool :=
  node.kind = .regular && node.uid = 0 && node.mode = modeFor kind

/-- A root-owned file as the program writes it. -/
def rootFile (kind : ArtifactKind) (content : QString) : FileNode where
  kind := .regular
  uid := 0
  mode := modeFor kind
  content := content

@[simp] theorem rootFile_content (kind : ArtifactKind) (content : QString) :
    (rootFile kind content).content = content := rfl

@[simp] theorem rootFile_kind (kind : ArtifactKind) (content : QString) :
    (rootFile kind content).kind = .regular := rfl

@[simp] theorem rootFile_verified (kind : ArtifactKind) (content : QString) :
    (rootFile kind content).verified kind = true := by
  simp [rootFile, FileNode.verified]

@[simp] theorem rootFile_rootSafe_unit (content : QString) :
    (rootFile .unitFile content).rootSafe = true := by
  simp [rootFile, FileNode.rootSafe, modeFor]

abbrev Files := AList fun _ : QString => FileNode

abbrev Units := AList fun _ : UnitKey => FileNode

/-- One of the private roots. -/
structure Directory where
  isDirectory : Bool := true
  uid : UInt32 := 0
  mode : ℕ
  files : Files := ∅

/-- `openVerifiedDir` accepts the entry. -/
def Directory.verified (dir : Directory) (kind : ArtifactKind) : Bool :=
  dir.isDirectory && dir.uid = 0 && dir.mode = modeFor kind

/-- One line of `/proc/self/mountinfo`. -/
structure MountEntry where
  mountId : ℤ
  parentId : ℤ
  mountPoint : QString
  filesystemType : QString
  mountSource : QString
  deriving DecidableEq

/-- What the program can observe of systemd and the kernel: the `ActiveState`
replies, the mount table, and the unique mount id `statx` reports for a path.
A failing command or read answers `none`, an unknown id is zero. -/
structure Sys where
  activeState : UnitKey → Option QString
  mounts : Option (List MountEntry)
  mountId : QString → UInt64

/-- systemd: the escaping of a path and the effect of its commands. -/
structure Host where
  escape : QString → Option UnitName
  start : UnitKey → Sys → Sys
  stop : UnitKey → Sys → Sys
  /-- `systemctl start` succeeds only once the unit is active. -/
  start_active : ∀ key sys, (start key sys).activeState key = some (qs "active")
  /-- `systemctl stop` succeeds only once the unit is inactive. -/
  stop_inactive : ∀ key sys, (stop key sys).activeState key = some (qs "inactive") ∨
    (stop key sys).activeState key = some (qs "failed")

/-- A path of plain components, as `systemd-escape -p` prints it. -/
def escapePlain (path : QString) : Option UnitName :=
  let text := (path.drop 1).map fun c => if c = '/' then '-' else c
  if h : isUnitName text = true ∧ (path.drop 1).all (fun c => c.isAlphanum || c = '/') then
    some ⟨text, h.1⟩
  else none

/-- The path of plain components that a unit name stands for. -/
def unescapePlain (base : UnitName) : QString :=
  '/' :: base.text.map fun c => if c = '-' then '/' else c

theorem isUnitName_nas : isUnitName (qs "mnt-nas") = true := by decide

/-- A systemd whose units start and stop at once, for paths of plain components. -/
def sampleHost : Host where
  escape := escapePlain
  start key sys :=
    { activeState := Function.update sys.activeState key (some (qs "active"))
      mounts := sys.mounts.map fun entries =>
        entries ++ [{ mountId := 40, parentId := 1, mountPoint := unescapePlain key.base
                      filesystemType := qs "autofs", mountSource := qs "systemd-1" }]
      mountId := Function.update sys.mountId (unescapePlain key.base) 7 }
  stop key sys :=
    { activeState := Function.update sys.activeState key (some (qs "inactive"))
      mounts := sys.mounts.map fun entries =>
        entries.filter fun entry => entry.mountPoint ≠ unescapePlain key.base
      mountId := Function.update sys.mountId (unescapePlain key.base) 0 }
  start_active _ _ := by simp
  stop_inactive _ _ := by simp

/-- The machine, as far as the program's root side touches it. -/
structure World where
  /-- The unit files in `/etc/systemd/system`. -/
  units : Units
  /-- Whether a drop-in directory `<file>.d` exists. -/
  dropIns : UnitKey → Bool
  /-- The unit files as the last `daemon-reload` read them. -/
  loaded : Units
  /-- `/etc/nasmount`. -/
  credentials : Option Directory
  /-- `/run/nasmount-ids`. -/
  automountIds : Option Directory
  /-- `/run/nasmount`. -/
  runtime : Option Directory
  sys : Sys

/-- A machine on which nothing is defined. -/
def World.blank : World where
  units := ∅
  dropIns _ := false
  loaded := ∅
  credentials := none
  automountIds := none
  runtime := none
  sys :=
    { activeState := fun _ => some (qs "inactive")
      mounts := some []
      mountId := fun _ => 0 }

theorem mem_keys_of_lookup {α β : Type} [DecidableEq α] {files : AList fun _ : α => β} {key : α}
    {node : β} (h : files.lookup key = some node) : key ∈ files.keys := by
  rw [← AList.mem_keys, ← AList.lookup_isSome]
  exact Option.isSome_iff_exists.mpr ⟨node, h⟩

namespace World

variable (w : World)

def unit? (key : UnitKey) : Option FileNode := w.units.lookup key

def putUnit (key : UnitKey) (content : QString) : World :=
  { w with units := w.units.insert key (rootFile .unitFile content) }

def dropUnit (key : UnitKey) : World := { w with units := w.units.erase key }

/-- The daemon reads the unit files again. -/
def reload : World := { w with loaded := w.units }

@[simp] theorem unit?_putUnit_self (key : UnitKey) (content : QString) :
    (w.putUnit key content).unit? key = some (rootFile .unitFile content) :=
  AList.lookup_insert _

theorem unit?_putUnit_ne {key other : UnitKey} (h : other ≠ key) (content : QString) :
    (w.putUnit key content).unit? other = w.unit? other :=
  AList.lookup_insert_ne h

@[simp] theorem unit?_dropUnit_self (key : UnitKey) : (w.dropUnit key).unit? key = none :=
  AList.lookup_erase _ _

theorem unit?_dropUnit_ne {key other : UnitKey} (h : other ≠ key) :
    (w.dropUnit key).unit? other = w.unit? other :=
  AList.lookup_erase_ne h

theorem unit?_dropUnit (key other : UnitKey) :
    (w.dropUnit key).unit? other = if other = key then none else w.unit? other := by
  split_ifs with h
  · rw [h, unit?_dropUnit_self]
  · exact unit?_dropUnit_ne w h

end World

/-- The directories that hold only the program's own files. -/
inductive PrivateRoot
  | credentials
  | automountIds
  | runtime
  deriving DecidableEq, Repr

namespace PrivateRoot

def parent : PrivateRoot → QString
  | .credentials => qs "/etc"
  | .automountIds | .runtime => qs "/run"

def name : PrivateRoot → QString
  | .credentials | .runtime => qs "nasmount"
  | .automountIds => qs "nasmount-ids"

def kind : PrivateRoot → ArtifactKind
  | .credentials | .runtime => .directory
  | .automountIds => .publicDirectory

def entryKind : PrivateRoot → ArtifactKind
  | .credentials | .runtime => .sensitiveFile
  | .automountIds => .publicRecord

end PrivateRoot

namespace World

variable (w : World) (root : PrivateRoot)

def root? : Option Directory :=
  match root with
  | .credentials => w.credentials
  | .automountIds => w.automountIds
  | .runtime => w.runtime

def setRoot (dir : Option Directory) : World :=
  match root with
  | .credentials => { w with credentials := dir }
  | .automountIds => { w with automountIds := dir }
  | .runtime => { w with runtime := dir }

/-- Create the directory if it does not exist. -/
def ensureRoot : World :=
  match w.root? root with
  | some _ => w
  | none => w.setRoot root (some { mode := modeFor root.kind })

def file? (name : QString) : Option FileNode := (w.root? root).bind fun dir => dir.files.lookup name

/-- Change the files of a private root, if it exists. -/
def updateFiles (f : Files → Files) : World :=
  match w.root? root with
  | some dir => w.setRoot root (some { dir with files := f dir.files })
  | none => w

def putFile (name : QString) (content : QString) : World :=
  w.updateFiles root fun files => files.insert name (rootFile root.entryKind content)

def dropFile (name : QString) : World := w.updateFiles root fun files => files.erase name

@[simp] theorem root?_setRoot_self (dir : Option Directory) :
    (w.setRoot root dir).root? root = dir := by
  cases root <;> rfl

theorem root?_setRoot_ne {other : PrivateRoot} (h : other ≠ root) (dir : Option Directory) :
    (w.setRoot root dir).root? other = w.root? other := by
  cases root <;> cases other <;> first | rfl | exact absurd rfl h

section Frame

variable (dir : Option Directory) (f : Files → Files) (name content : QString)

@[simp] theorem units_setRoot : (w.setRoot root dir).units = w.units := by cases root <;> rfl

@[simp] theorem dropIns_setRoot : (w.setRoot root dir).dropIns = w.dropIns := by cases root <;> rfl

@[simp] theorem loaded_setRoot : (w.setRoot root dir).loaded = w.loaded := by cases root <;> rfl

@[simp] theorem sys_setRoot : (w.setRoot root dir).sys = w.sys := by cases root <;> rfl

@[simp] theorem units_ensureRoot : (w.ensureRoot root).units = w.units := by
  unfold ensureRoot
  split <;> simp

@[simp] theorem dropIns_ensureRoot : (w.ensureRoot root).dropIns = w.dropIns := by
  unfold ensureRoot
  split <;> simp

@[simp] theorem loaded_ensureRoot : (w.ensureRoot root).loaded = w.loaded := by
  unfold ensureRoot
  split <;> simp

@[simp] theorem sys_ensureRoot : (w.ensureRoot root).sys = w.sys := by
  unfold ensureRoot
  split <;> simp

@[simp] theorem units_updateFiles : (w.updateFiles root f).units = w.units := by
  unfold updateFiles
  split <;> simp

@[simp] theorem dropIns_updateFiles : (w.updateFiles root f).dropIns = w.dropIns := by
  unfold updateFiles
  split <;> simp

@[simp] theorem loaded_updateFiles : (w.updateFiles root f).loaded = w.loaded := by
  unfold updateFiles
  split <;> simp

@[simp] theorem sys_updateFiles : (w.updateFiles root f).sys = w.sys := by
  unfold updateFiles
  split <;> simp

@[simp] theorem units_putFile : (w.putFile root name content).units = w.units :=
  units_updateFiles _ _ _

@[simp] theorem dropIns_putFile : (w.putFile root name content).dropIns = w.dropIns :=
  dropIns_updateFiles _ _ _

@[simp] theorem sys_putFile : (w.putFile root name content).sys = w.sys := sys_updateFiles _ _ _

@[simp] theorem units_dropFile : (w.dropFile root name).units = w.units := units_updateFiles _ _ _

@[simp] theorem unit?_ensureRoot (key : UnitKey) : (w.ensureRoot root).unit? key = w.unit? key := by
  rw [unit?, units_ensureRoot, unit?]

@[simp] theorem unit?_dropFile (key : UnitKey) :
    (w.dropFile root name).unit? key = w.unit? key := by
  rw [unit?, units_dropFile, unit?]

@[simp] theorem unit?_putFile (key : UnitKey) :
    (w.putFile root name content).unit? key = w.unit? key := by
  rw [unit?, units_putFile, unit?]

@[simp] theorem unit?_reload (key : UnitKey) : w.reload.unit? key = w.unit? key := rfl

@[simp] theorem file?_reload (name : QString) : w.reload.file? root name = w.file? root name := by
  cases root <;> rfl

@[simp] theorem file?_dropUnit (key : UnitKey) (name : QString) :
    (w.dropUnit key).file? root name = w.file? root name := rfl

@[simp] theorem file?_putUnit (key : UnitKey) (text name : QString) :
    (w.putUnit key text).file? root name = w.file? root name := rfl

@[simp] theorem dropIns_dropFile : (w.dropFile root name).dropIns = w.dropIns :=
  dropIns_updateFiles _ _ _

@[simp] theorem sys_dropFile : (w.dropFile root name).sys = w.sys := sys_updateFiles _ _ _

end Frame

theorem root?_ensureRoot_self : ∃ dir, (w.ensureRoot root).root? root = some dir := by
  unfold ensureRoot
  split
  · rename_i dir h
    exact ⟨dir, h⟩
  · exact ⟨_, root?_setRoot_self _ _ _⟩

@[simp] theorem file?_ensureRoot (other : PrivateRoot) (name : QString) :
    (w.ensureRoot root).file? other name = w.file? other name := by
  unfold ensureRoot
  split
  · rfl
  · rename_i hnone
    by_cases h : other = root
    · subst h
      simp [file?, hnone]
    · simp [file?, root?_setRoot_ne w root h]

theorem file?_updateFiles_ne {other : PrivateRoot} (h : other ≠ root) (f : Files → Files)
    (name : QString) : (w.updateFiles root f).file? other name = w.file? other name := by
  unfold updateFiles
  split
  · simp [file?, root?_setRoot_ne w root h]
  · rfl

theorem file?_updateFiles_self (f : Files → Files) (name : QString) :
    (w.updateFiles root f).file? root name =
      (w.root? root).bind fun dir => (f dir.files).lookup name := by
  unfold updateFiles
  split
  · rename_i dir hdir
    simp [file?, hdir]
  · rename_i hnone
    simp [file?, hnone]

@[simp] theorem file?_dropFile_self (name : QString) :
    (w.dropFile root name).file? root name = none := by
  rw [dropFile, file?_updateFiles_self]
  cases w.root? root <;> simp

theorem file?_dropFile_ne {other : PrivateRoot} {name name' : QString}
    (h : other ≠ root ∨ name' ≠ name) :
    (w.dropFile root name).file? other name' = w.file? other name' := by
  by_cases hroot : other = root
  · subst hroot
    have hname := h.resolve_left fun hne => hne rfl
    rw [dropFile, file?_updateFiles_self, file?]
    simp [AList.lookup_erase_ne hname]
  · exact file?_updateFiles_ne w root hroot _ _

theorem file?_putFile_self {dir : Directory} (hdir : w.root? root = some dir)
    (name content : QString) :
    (w.putFile root name content).file? root name = some (rootFile root.entryKind content) := by
  rw [putFile, file?_updateFiles_self, hdir]
  simp

theorem file?_putFile_ne {other : PrivateRoot} {name name' : QString}
    (h : other ≠ root ∨ name' ≠ name) (content : QString) :
    (w.putFile root name content).file? other name' = w.file? other name' := by
  by_cases hroot : other = root
  · subst hroot
    have hname := h.resolve_left fun hne => hne rfl
    rw [putFile, file?_updateFiles_self, file?]
    simp [AList.lookup_insert_ne hname]
  · exact file?_updateFiles_ne w root hroot _ _

end World

end NasMount.Core
