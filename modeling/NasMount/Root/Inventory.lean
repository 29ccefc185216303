import NasMount.Root.AddedShares

/-!
# The inventory of a user's credentials

The one fact about a share that its owner cannot see is whether the private file is
in order. The helper reads it for every share of the caller that can be trusted and
needs one, and a file that cannot be read leaves the other shares' records alone.
-/
namespace NasMount.Root

open NasMount.Foundation NasMount.Core QString

inductive InventorySite
  | lock
  | healthy (base : UnitName) (site : DirSite)
  deriving DecidableEq

namespace Inventory

structure ShareRecord where
  id : QString
  credentialApplicable : Bool := false
  credentialHealthy : Bool := false
  deriving DecidableEq

/-- The id whose credential is looked up. An id that cannot be trusted has nothing
to look up, and a guest share has no credential. -/
def lookedUp (unit : OwnedUnit) : Option ShareId :=
  match unit.id with
  | none => none
  | some id =>
    if unit.state = .tampered then none
    else if unit.authentication ≠ .credentials then none
    else some id

def buildFor : List OwnedUnit → List ShareRecord →
    Prog InventorySite World QString (List ShareRecord)
  | [], records => pure records
  | unit :: rest, records =>
    match lookedUp unit with
    | none => buildFor rest records
    | some id => do
      let read ← (Prog.mapSites (.healthy unit.unitName) (CredentialStore.healthy id)).attempt
      buildFor rest (records ++
        [{ id := id.text, credentialApplicable := true, credentialHealthy := read.isOk }])

end Inventory

structure InventoryReply where
  message : QString
  shares : List Inventory.ShareRecord

/-- `NasMountHelper::inventory` for the authenticated caller. No argument is read. -/
def inventory (uid : UInt32) : Prog InventorySite World QString InventoryReply := do
  Prog.act .lock (qs "cannot acquire the helper lock") fun w => w
  let units ← Prog.look fun w => enumerateOwnedUnits w uid
  let records ← Inventory.buildFor units []
  return { message := number records.length ++ qs " share(s)", shares := records }

section Records

variable {o : InventorySite → Outcome} {w s : World} {unit other : OwnedUnit} {id : ShareId}
  {uid : UInt32} {host : Host}

theorem unitNames_nodup (halves : List ScannedHalf) :
    ((pairScannedHalves halves).map (·.unitName)).Nodup := by
  rw [map_unitName_pairScannedHalves]
  exact baseNames_nodup _

/-- Sound entries of one enumeration at two names have different ids. -/
theorem ids_apart {onlyUid : Option UInt32}
    (hunit : unit ∈ pairScannedHalves (scanManagedHalves w onlyUid))
    (hother : other ∈ pairScannedHalves (scanManagedHalves w onlyUid))
    (hsound : unit.state ≠ .tampered) (hsound' : other.state ≠ .tampered)
    (hname : unit.unitName ≠ other.unitName) : unit.id ≠ other.id := by
  obtain ⟨-, hcollides⟩ := entry_of_untampered hother hsound'
  obtain ⟨hentry, -⟩ := entry_of_untampered hunit hsound
  exact (apart_of_not_collides hcollides hentry hsound hname).1

end Records

section Runs

variable (host : Host) (w : World) (hnone : ∀ key, ¬Managed w key) (hown : OwnArtifacts w)
  (before : List HelperCall) (draws : ℕ → UInt64 × UInt64) (caller : Caller) (args : Args)
  (trees : QString → Option Folder) (o : DefineCallSite → Outcome) (input : DefineInput)
  (reply : DefineReply) (w₁ : World) (hrequest : readRequest host caller args = .ok input)
  (hadd : (doDefine host draws caller args trees).run o (before.foldl (HelperCall.run host) w) =
    (.returned reply, w₁))
  (calls : List HelperCall) (hspares : ∀ call ∈ calls, call.Spares caller.uid input.mountPoint)

include hnone hown hrequest hadd hspares

end Runs

section Sample

end Sample

end NasMount.Root
