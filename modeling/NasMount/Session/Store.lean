import NasMount.Core.UnitValue
import Mathlib.Data.List.AList

/-!
# The local share records

One configuration group per share, written under a generation check. A string
entry is read back as it was written, and an absent one as the reader's default.
-/
namespace NasMount.Session

open NasMount.Foundation NasMount.Core QString

/-- A configuration group: its text entries, and the one number. -/
structure KConfigGroup where
  entries : AList fun _ : QString => QString := ∅
  generation : Option UInt64 := none

namespace KConfigGroup

def readEntry (g : KConfigGroup) (key default : QString) : QString :=
  (g.entries.lookup key).getD default

def writeEntry (g : KConfigGroup) (key value : QString) : KConfigGroup :=
  { g with entries := g.entries.insert key value }

variable {g : KConfigGroup} {key key' value default : QString}

@[simp] theorem readEntry_writeEntry_self :
    (g.writeEntry key value).readEntry key default = value := by
  simp [readEntry, writeEntry]

theorem readEntry_writeEntry_ne (h : key' ≠ key) :
    (g.writeEntry key value).readEntry key' default = g.readEntry key' default := by
  simp [readEntry, writeEntry, AList.lookup_insert_ne h]

end KConfigGroup

/-- The groups below `Shares`, by share id. -/
abbrev Config := AList fun _ : QString => KConfigGroup

namespace Store

structure Share where
  id : QString
  unc : QString := []
  mountPoint : QString := []
  username : QString := []
  domain : QString := []
  /-- Convenience only: the marker decides. -/
  access : QString := []
  deriving DecidableEq

structure Snapshot where
  share : Share
  generation : UInt64 := 0
  present : Bool := false
  /-- A group without an address or a mount point. -/
  corrupt : Bool := false
  deriving DecidableEq

def defaultAccess : QString := qs "readwrite"

def readShareFields (g : KConfigGroup) (id : QString) : Share where
  id := id
  mountPoint := g.readEntry (qs "MountPoint") []
  unc := g.readEntry (qs "Unc") []
  username := g.readEntry (qs "Username") []
  domain := g.readEntry (qs "Domain") []
  -- A record without the key is older than the access mode.
  access := g.readEntry (qs "Access") defaultAccess

/-- An empty access text never reaches the file. -/
def storedAccess (access : QString) : QString := if access = [] then defaultAccess else access

def writeShareFields (g : KConfigGroup) (share : Share) : KConfigGroup :=
  ((((g.writeEntry (qs "MountPoint") share.mountPoint).writeEntry (qs "Unc") share.unc).writeEntry
    (qs "Username") share.username).writeEntry (qs "Domain") share.domain).writeEntry (qs "Access")
      (storedAccess share.access)

def snapshotById (config : Config) (id : QString) : Snapshot :=
  match config.lookup id with
  | none => { share := { id := [] } }
  | some g =>
    let share := readShareFields g id
    { share := share, generation := g.generation.getD 0, present := true
      corrupt := share.unc = [] || share.mountPoint = [] }

inductive CommitResult
  | ok
  | generationConflict
  | syncFailed
  deriving DecidableEq, Repr

/-- Checked write of one record. `synced` is the answer of `KConfig::sync`, which
alone reaches the disk. -/
def commitShare (synced : Bool) (share : Share) (expectedGeneration : UInt64) (config : Config) :
    CommitResult × Config :=
  let current := snapshotById config share.id
  if current.present ≠ decide (expectedGeneration ≠ 0) ∨
      current.present ∧ current.generation ≠ expectedGeneration then
    (.generationConflict, config)
  else if synced then
    let g := writeShareFields ((config.lookup share.id).getD {}) share
    (.ok, config.insert share.id { g with generation := some (expectedGeneration + 1) })
  else (.syncFailed, config)

/-- Remove one record; the removal has reached the disk. -/
def removeShare (id : QString) (config : Config) : Config := config.erase id

section Rules

variable {g : KConfigGroup} {share : Share} {config config' : Config} {expected : UInt64}
  {synced : Bool}

/-- What a group says after a write, wherever it came from. -/
theorem readShareFields_writeShareFields (share : Share) (id : QString) :
    readShareFields (writeShareFields g share) id =
      { share with id := id, access := storedAccess share.access } := by
  simp [readShareFields, writeShareFields, KConfigGroup.readEntry_writeEntry_ne, qs]

/-- A committed record is read back as it was, with its access made explicit. -/
theorem snapshotById_commitShare (h : commitShare synced share expected config = (.ok, config')) :
    snapshotById config' share.id =
      { share := { share with access := storedAccess share.access }, generation := expected + 1
        present := true, corrupt := share.unc = [] || share.mountPoint = [] } := by
  unfold commitShare at h
  dsimp only at h
  split_ifs at h
  · exact nomatch h
  · obtain ⟨-, rfl⟩ := Prod.mk.inj h
    simp only [snapshotById, AList.lookup_insert]
    change Snapshot.mk (readShareFields (writeShareFields _ share) share.id) _ _ _ = _
    rw [readShareFields_writeShareFields]
    rfl
  · exact nomatch h

/-- A commit and a removal leave the other records as they are. -/
theorem snapshotById_commitShare_ne {id : QString}
    (h : commitShare synced share expected config = (.ok, config')) (hne : id ≠ share.id) :
    snapshotById config' id = snapshotById config id := by
  unfold commitShare at h
  dsimp only at h
  split_ifs at h
  · exact nomatch h
  · obtain ⟨-, rfl⟩ := Prod.mk.inj h
    simp only [snapshotById, AList.lookup_insert_ne hne]
  · exact nomatch h

theorem snapshotById_removeShare_ne {id other : QString} (hne : other ≠ id) :
    snapshotById (removeShare id config) other = snapshotById config other := by
  simp only [snapshotById, removeShare, AList.lookup_erase_ne hne]

theorem snapshotById_removeShare_self (id : QString) (config : Config) :
    (snapshotById (removeShare id config) id).present = false := by
  simp only [snapshotById, removeShare, AList.lookup_erase]

/-- A synced commit fails by a conflict alone. -/
theorem commitShare_synced (h : (commitShare true share expected config).1 ≠ .generationConflict) :
    commitShare true share expected config = (.ok, (commitShare true share expected config).2) := by
  unfold commitShare at h ⊢
  dsimp only at h ⊢
  rw [if_pos rfl] at h ⊢
  split_ifs at h ⊢
  · exact absurd rfl h
  · rfl

end Rules

end Store

end NasMount.Session
