import NasMount.Core.Enumeration

/-!
# Pairing and collisions over any scanned halves

One entry for each base name, in an order that does not depend on the scan. The
second pass flags an entry for a collision with an entry that is itself sound:
a pair that disagrees has no id and no mount point left to collide with, and an
entry that is demoted keeps its own mount point and `What=`.
-/
namespace NasMount.Core

open NasMount.Foundation QString

/-- The halves the groups keep. -/
def lastHalves (halves : List ScannedHalf) : List ScannedHalf :=
  (baseNames halves).flatMap fun base =>
    (lastHalf halves base.mount).toList ++ (lastHalf halves base.automount).toList

/-- The halves of the base name agree on the marker and on `Where=`. -/
def AgreesAt (halves : List ScannedHalf) (base : UnitName) : Prop :=
  ∀ half ∈ halves, ∀ half' ∈ halves, half.key.base = base → half'.key.base = base →
    half.marker = half'.marker ∧ half.whereValue = half'.whereValue

/-- Some half of the one base name claims the id or the `Where=` of some half of
the other. -/
def Shares (halves : List ScannedHalf) (base other : UnitName) : Prop :=
  ∃ half ∈ halves, ∃ half' ∈ halves, half.key.base = base ∧ half'.key.base = other ∧
    (half.marker.id = half'.marker.id ∨ half.whereValue = half'.whereValue)

/-- The entry of the base name is tampered. -/
def TamperedAt (halves : List ScannedHalf) (base : UnitName) : Prop :=
  ∃ unit ∈ pairScannedHalves halves, unit.unitName = base ∧ unit.state = .tampered

/-- Every field that comes from a marker or a unit is at its default. -/
def OwnedUnit.Blank (unit : OwnedUnit) : Prop :=
  unit.mountPoint = [] ∧ unit.id = none ∧ unit.ownerUid = 0 ∧ unit.ownerGid = 0 ∧
    unit.authentication = .credentials ∧ unit.access = .readWrite ∧ unit.what = []

/-- The entry has exactly the fields of its halves. -/
structure OwnedUnit.Says (unit : OwnedUnit) (halves : List ScannedHalf) : Prop where
  present : ∃ half ∈ halves, half.key.base = unit.unitName
  fields : ∀ half ∈ halves, half.key.base = unit.unitName →
    unit.mountPoint = half.whereValue ∧ unit.id = some half.marker.id ∧
      unit.ownerUid = half.marker.ownerUid ∧ unit.ownerGid = half.marker.ownerGid ∧
      unit.authentication = half.marker.authentication ∧ unit.access = half.marker.access
  what : ∀ half ∈ halves, half.key = unit.unitName.mount → unit.what = half.what
  noWhat : (∀ half ∈ halves, half.key ≠ unit.unitName.mount) → unit.what = []

section Halves

variable {halves halves' : List ScannedHalf} {half : ScannedHalf} {key : UnitKey}
  {base other : UnitName}

theorem Shares.symm (h : Shares halves base other) : Shares halves other base := by
  obtain ⟨half, hhalf, half', hhalf', hbase, hother, hclaim⟩ := h
  exact ⟨half', hhalf', half, hhalf, hother, hbase, hclaim.imp Eq.symm Eq.symm⟩

theorem mem_of_lastHalf (h : lastHalf halves key = some half) : half ∈ halves ∧ half.key = key := by
  have hmem := List.mem_of_getLast? h
  rw [List.mem_filter, decide_eq_true_eq] at hmem
  exact hmem

theorem mem_baseNames_iff : base ∈ baseNames halves ↔ ∃ half ∈ halves, half.key.base = base := by
  rw [baseNames, List.mem_insertionSort, List.mem_dedup, List.mem_map]

theorem baseNames_nodup (halves : List ScannedHalf) : (baseNames halves).Nodup :=
  (List.perm_insertionSort _ _).nodup_iff.mpr (List.nodup_dedup _)

theorem mem_lastHalves : half ∈ lastHalves halves ↔ lastHalf halves half.key = some half := by
  rw [lastHalves, List.mem_flatMap]
  constructor
  · rintro ⟨base, -, hmem⟩
    rw [List.mem_append, Option.mem_toList, Option.mem_toList] at hmem
    rcases hmem with hlast | hlast
    · rwa [(mem_of_lastHalf hlast).2]
    · rwa [(mem_of_lastHalf hlast).2]
  · intro hlast
    refine ⟨half.key.base, mem_baseNames_iff.mpr ⟨half, (mem_of_lastHalf hlast).1, rfl⟩, ?_⟩
    rw [List.mem_append, Option.mem_toList, Option.mem_toList]
    rcases half.key.eq_mount_or_automount with hkey | hkey
    · exact Or.inl (by rwa [← hkey])
    · exact Or.inr (by rwa [← hkey])

/-- A group is never empty. -/
theorem exists_lastHalf (h : base ∈ baseNames halves) :
    ∃ half ∈ lastHalves halves, half.key.base = base := by
  obtain ⟨half, hmem, rfl⟩ := mem_baseNames_iff.mp h
  have hfiltered : half ∈ halves.filter fun other => other.key = half.key :=
    List.mem_filter.mpr ⟨hmem, by simp⟩
  obtain ⟨last, hlast⟩ := Option.isSome_iff_exists.mp
    (List.getLast?_isSome.mpr (List.ne_nil_of_mem hfiltered))
  have hkey := (mem_of_lastHalf hlast).2
  exact ⟨last, mem_lastHalves.mpr (by rw [hkey]; exact hlast), congrArg UnitKey.base hkey⟩

/-- The map sorts the names, so their order is no trace of the scan. -/
theorem baseNames_perm (hperm : halves.Perm halves') : baseNames halves' = baseNames halves := by
  have htrans : ∀ a b c : UnitName, a.text ≤ b.text → b.text ≤ c.text → a.text ≤ c.text :=
    fun _ _ _ hab hbc => le_trans hab hbc
  have htotal : ∀ a b : UnitName, a.text ≤ b.text ∨ b.text ≤ a.text :=
    fun a b => le_total a.text b.text
  have : IsTrans UnitName fun a b => a.text ≤ b.text := ⟨htrans⟩
  have : Std.Total fun a b : UnitName => a.text ≤ b.text := ⟨htotal⟩
  have hsame : (baseNames halves').Perm (baseNames halves) :=
    (List.perm_insertionSort _ _).trans
      (((hperm.map fun half => half.key.base).dedup.symm).trans
        (List.perm_insertionSort _ _).symm)
  apply hsame.eq_of_pairwise
  · intro a b _ _ hab hba
    exact UnitName.ext_text (le_antisymm hab hba)
  · exact List.pairwise_insertionSort (fun a b : UnitName => a.text ≤ b.text) _
  · exact List.pairwise_insertionSort (fun a b : UnitName => a.text ≤ b.text) _

section Distinct

variable (hdistinct : (halves.map ScannedHalf.key).Nodup)

include hdistinct

/-- With one half for each file name, the last one is the one. -/
theorem lastHalf_of_mem (h : half ∈ halves) : lastHalf halves half.key = some half := by
  obtain ⟨before, after, rfl⟩ := List.append_of_mem h
  rw [List.map_append, List.map_cons, List.nodup_append, List.nodup_cons] at hdistinct
  obtain ⟨-, ⟨hafter, -⟩, hbefore⟩ := hdistinct
  have hnoBefore : before.filter (fun other => other.key = half.key) = [] := by
    rw [List.filter_eq_nil_iff]
    intro other hother
    rw [decide_eq_true_eq]
    exact hbefore _ (List.mem_map_of_mem hother) _ List.mem_cons_self
  have hnoAfter : after.filter (fun other => other.key = half.key) = [] := by
    rw [List.filter_eq_nil_iff]
    intro other hother
    rw [decide_eq_true_eq]
    exact fun hkey => hafter (hkey ▸ List.mem_map_of_mem hother)
  rw [lastHalf, List.filter_append, hnoBefore, List.filter_cons_of_pos (by simp), hnoAfter]
  rfl

theorem mem_lastHalves_iff : half ∈ lastHalves halves ↔ half ∈ halves :=
  mem_lastHalves.trans ⟨fun h => (mem_of_lastHalf h).1, lastHalf_of_mem hdistinct⟩

theorem lastHalf_perm (hperm : halves.Perm halves') (key : UnitKey) :
    lastHalf halves' key = lastHalf halves key := by
  have hdistinct' : (halves'.map ScannedHalf.key).Nodup :=
    (hperm.map ScannedHalf.key).nodup_iff.mp hdistinct
  cases hlast : lastHalf halves key with
  | some half =>
    obtain ⟨hmem, rfl⟩ := mem_of_lastHalf hlast
    exact lastHalf_of_mem hdistinct' (hperm.mem_iff.mp hmem)
  | none =>
    cases hlast' : lastHalf halves' key with
    | none => rfl
    | some half =>
      obtain ⟨hmem, rfl⟩ := mem_of_lastHalf hlast'
      exact nomatch hlast.symm.trans (lastHalf_of_mem hdistinct (hperm.mem_iff.mpr hmem))

/-- The entries do not depend on the order of the scan. -/
theorem pairScannedHalves_perm (hperm : halves.Perm halves') :
    pairScannedHalves halves' = pairScannedHalves halves := by
  rw [pairScannedHalves, pairScannedHalves, baseNames_perm hperm]
  apply congrArg flagCollisions
  apply List.map_congr_left
  intro base _
  rw [lastHalf_perm hdistinct hperm, lastHalf_perm hdistinct hperm]

end Distinct

end Halves

section Groups

/-- The entry of one base name, before collisions are looked for. -/
def groupEntry (halves : List ScannedHalf) (base : UnitName) : OwnedUnit :=
  pairGroup base (lastHalf halves base.mount) (lastHalf halves base.automount)

variable {halves : List ScannedHalf} {half : ScannedHalf} {base other : UnitName}

@[simp] theorem groupEntry_unitName : (groupEntry halves base).unitName = base :=
  pairGroup_unitName (fun _ h => (mem_of_lastHalf h).2) fun _ h => (mem_of_lastHalf h).2

theorem mem_lastHalves_at :
    half ∈ lastHalves halves ∧ half.key.base = base ↔
      lastHalf halves base.mount = some half ∨ lastHalf halves base.automount = some half := by
  rw [mem_lastHalves]
  constructor
  · rintro ⟨hlast, rfl⟩
    rcases half.key.eq_mount_or_automount with hkey | hkey
    · exact Or.inl (by rwa [← hkey])
    · exact Or.inr (by rwa [← hkey])
  · rintro (hlast | hlast)
    · have hkey := (mem_of_lastHalf hlast).2
      exact ⟨by rwa [hkey], congrArg UnitKey.base hkey⟩
    · have hkey := (mem_of_lastHalf hlast).2
      exact ⟨by rwa [hkey], congrArg UnitKey.base hkey⟩

theorem agreesAt_lastHalves :
    AgreesAt (lastHalves halves) base ↔
      ∀ mountHalf automountHalf, lastHalf halves base.mount = some mountHalf →
        lastHalf halves base.automount = some automountHalf →
        mountHalf.marker = automountHalf.marker ∧
          mountHalf.whereValue = automountHalf.whereValue := by
  constructor
  · intro hagrees mountHalf automountHalf hmount hautomount
    obtain ⟨hmem, hbase⟩ := mem_lastHalves_at.mpr (Or.inl hmount)
    obtain ⟨hmem', hbase'⟩ := mem_lastHalves_at.mpr (Or.inr hautomount)
    exact hagrees _ hmem _ hmem' hbase hbase'
  · intro hagrees half hmem half' hmem' hbase hbase'
    rcases mem_lastHalves_at.mp ⟨hmem, hbase⟩ with hlast | hlast <;>
      rcases mem_lastHalves_at.mp ⟨hmem', hbase'⟩ with hlast' | hlast'
    · obtain rfl := Option.some.inj (hlast.symm.trans hlast')
      exact ⟨rfl, rfl⟩
    · exact hagrees _ _ hlast hlast'
    · exact (hagrees _ _ hlast' hlast).imp Eq.symm Eq.symm
    · obtain rfl := Option.some.inj (hlast.symm.trans hlast')
      exact ⟨rfl, rfl⟩

theorem mem_baseNames_of_halves (h : half ∈ lastHalves halves) : half.key.base ∈ baseNames halves :=
  mem_baseNames_iff.mpr ⟨half, (mem_of_lastHalf (mem_lastHalves.mp h)).1, rfl⟩

/-- The first pass flags exactly the disagreeing pairs. -/
theorem groupEntry_tampered :
    (groupEntry halves base).state = .tampered ↔ ¬ AgreesAt (lastHalves halves) base := by
  rw [agreesAt_lastHalves, groupEntry]
  cases hmount : lastHalf halves base.mount with
  | none =>
    cases lastHalf halves base.automount with
    | none => simp [pairGroup]
    | some half => simp [pairGroup, onlyHalf]
  | some mountHalf =>
    cases hautomount : lastHalf halves base.automount with
    | none => simp [pairGroup, onlyHalf]
    | some automountHalf =>
      rw [pairGroup_both]
      by_cases hsame : mountHalf.marker = automountHalf.marker ∧
          mountHalf.whereValue = automountHalf.whereValue
      · rw [if_neg (by rw [not_or, not_not, not_not]; exact hsame)]
        simp [hsame]
      · rw [if_pos (by rwa [ne_eq, ne_eq, ← not_and_or])]
        simpa using hsame

/-- Disagreement leaves nothing but the name. -/
theorem pairGroup_blank {mountHalf automountHalf : Option ScannedHalf}
    (h : (pairGroup base mountHalf automountHalf).state = .tampered) :
    (pairGroup base mountHalf automountHalf).Blank := by
  cases mountHalf with
  | none =>
    cases automountHalf with
    | none => exact nomatch h
    | some half => exact nomatch h
  | some mountHalf =>
    cases automountHalf with
    | none => exact nomatch h
    | some automountHalf =>
      rw [pairGroup_both] at h ⊢
      split_ifs at h ⊢
      exact ⟨rfl, rfl, rfl, rfl, rfl, rfl, rfl⟩

/-- An entry the first pass does not flag has the fields of its halves. -/
theorem groupEntry_says (hbase : base ∈ baseNames halves)
    (hagrees : AgreesAt (lastHalves halves) base) :
    (groupEntry halves base).Says (lastHalves halves) := by
  obtain ⟨present, hpresent, hpresentBase⟩ := exists_lastHalf hbase
  have hfields : ∀ half ∈ lastHalves halves, half.key.base = base →
      (groupEntry halves base).mountPoint = half.whereValue ∧
        (groupEntry halves base).marker = some half.marker := by
    intro half hmem hhalf
    rw [agreesAt_lastHalves] at hagrees
    unfold groupEntry
    rcases mem_lastHalves_at.mp ⟨hmem, hhalf⟩ with hmount | hautomount
    · rw [hmount]
      cases hautomount : lastHalf halves base.automount with
      | none => exact ⟨rfl, rfl⟩
      | some automountHalf =>
        obtain ⟨hmarker, hwhere⟩ := hagrees _ _ hmount hautomount
        rw [pairGroup_both, if_neg (by simp [hmarker, hwhere])]
        exact ⟨rfl, rfl⟩
    · rw [hautomount]
      cases hmount : lastHalf halves base.mount with
      | none => exact ⟨rfl, rfl⟩
      | some mountHalf =>
        obtain ⟨hmarker, hwhere⟩ := hagrees _ _ hmount hautomount
        rw [pairGroup_both, if_neg (by simp [hmarker, hwhere])]
        exact ⟨hwhere, congrArg some hmarker⟩
  have hwhat : ∀ half ∈ lastHalves halves, half.key = base.mount →
      (groupEntry halves base).what = half.what := by
    intro half hmem hkey
    have hmount : lastHalf halves base.mount = some half := hkey ▸ mem_lastHalves.mp hmem
    rw [agreesAt_lastHalves] at hagrees
    rw [groupEntry, hmount]
    cases hautomount : lastHalf halves base.automount with
    | none =>
      rw [pairGroup, onlyHalf, hkey]
      rfl
    | some automountHalf =>
      obtain ⟨hmarker, hwhere⟩ := hagrees _ _ hmount hautomount
      rw [pairGroup_both, if_neg (by simp [hmarker, hwhere])]
  have hnoWhat : (∀ half ∈ lastHalves halves, half.key ≠ base.mount) →
      (groupEntry halves base).what = [] := by
    intro hno
    have hnone : lastHalf halves base.mount = none := by
      rw [Option.eq_none_iff_forall_ne_some]
      intro half hmount
      obtain ⟨hmem, -⟩ := mem_lastHalves_at.mpr (Or.inl hmount)
      exact hno half hmem (mem_of_lastHalf hmount).2
    rw [groupEntry, hnone]
    cases hautomount : lastHalf halves base.automount with
    | none => rfl
    | some half =>
      rw [pairGroup, onlyHalf, (mem_of_lastHalf hautomount).2]
      rfl
  constructor
  · exact ⟨present, hpresent, by rwa [groupEntry_unitName]⟩
  · intro half hmem hhalf
    rw [groupEntry_unitName] at hhalf
    obtain ⟨hwhere, hmarker⟩ := hfields half hmem hhalf
    simp [OwnedUnit.id, OwnedUnit.ownerUid, OwnedUnit.ownerGid, OwnedUnit.authentication,
      OwnedUnit.access, hwhere, hmarker]
  · rwa [groupEntry_unitName]
  · rwa [groupEntry_unitName]

end Groups

section Collisions

variable {halves : List ScannedHalf} {base other : UnitName} {unit : OwnedUnit}

/-- What the second pass makes of an entry that collides. -/
def OwnedUnit.demoted (unit : OwnedUnit) : OwnedUnit :=
  { unit with
    state := .tampered
    detail := qs "collides with another definition on id or mount point"
    marker := none }

theorem pairScannedHalves_eq_flag :
    pairScannedHalves halves = flagCollisions ((baseNames halves).map (groupEntry halves)) := rfl

theorem mem_pairScannedHalves :
    unit ∈ pairScannedHalves halves ↔ ∃ base ∈ baseNames halves,
      if (groupEntry halves base).state ≠ .tampered ∧
          collides ((baseNames halves).map (groupEntry halves)) (groupEntry halves base) = true then
        unit = (groupEntry halves base).demoted
      else unit = groupEntry halves base := by
  rw [pairScannedHalves_eq_flag, flagCollisions, List.mem_map]
  constructor
  · rintro ⟨entry, hentry, rfl⟩
    obtain ⟨base, hbase, rfl⟩ := List.mem_map.mp hentry
    refine ⟨base, hbase, ?_⟩
    simp only [Bool.and_eq_true, decide_eq_true_eq]
    split_ifs <;> rfl
  · rintro ⟨base, hbase, hunit⟩
    refine ⟨groupEntry halves base, List.mem_map_of_mem hbase, ?_⟩
    simp only [Bool.and_eq_true, decide_eq_true_eq]
    split_ifs at hunit ⊢ <;> exact hunit.symm

/-- Between two agreeing names, the entries share what the halves share. -/
theorem shares_iff_entries (hbase : base ∈ baseNames halves) (hother : other ∈ baseNames halves)
    (hagrees : AgreesAt (lastHalves halves) base) (hagrees' : AgreesAt (lastHalves halves) other) :
    Shares (lastHalves halves) base other ↔
      (groupEntry halves other).id = (groupEntry halves base).id ∨
        (groupEntry halves other).mountPoint = (groupEntry halves base).mountPoint := by
  have hentry := groupEntry_says hbase hagrees
  have hentry' := groupEntry_says hother hagrees'
  constructor
  · rintro ⟨half, hmem, half', hmem', hhalf, hhalf', hclaim⟩
    obtain ⟨hwhere, hid, -⟩ := hentry.fields half hmem (by rwa [groupEntry_unitName])
    obtain ⟨hwhere', hid', -⟩ := hentry'.fields half' hmem' (by rwa [groupEntry_unitName])
    rw [hwhere, hwhere', hid, hid']
    exact hclaim.imp (fun h => congrArg some h.symm) Eq.symm
  · intro hclaim
    obtain ⟨half, hmem, hhalf⟩ := hentry.present
    obtain ⟨half', hmem', hhalf'⟩ := hentry'.present
    obtain ⟨hwhere, hid, -⟩ := hentry.fields half hmem hhalf
    obtain ⟨hwhere', hid', -⟩ := hentry'.fields half' hmem' hhalf'
    rw [groupEntry_unitName] at hhalf hhalf'
    rw [hwhere, hwhere', hid, hid'] at hclaim
    exact ⟨half, hmem, half', hmem', hhalf, hhalf',
      hclaim.imp (fun h => (Option.some.inj h).symm) Eq.symm⟩

theorem mem_baseNames_of_shares (h : Shares (lastHalves halves) base other) :
    base ∈ baseNames halves ∧ other ∈ baseNames halves := by
  obtain ⟨half, hmem, half', hmem', rfl, rfl, -⟩ := h
  exact ⟨mem_baseNames_of_halves hmem, mem_baseNames_of_halves hmem'⟩

/-- An agreeing name collides with the agreeing names it shares a claim with,
and with no disagreeing one. -/
theorem collides_iff (hbase : base ∈ baseNames halves)
    (hagrees : AgreesAt (lastHalves halves) base) :
    collides ((baseNames halves).map (groupEntry halves)) (groupEntry halves base) = true ↔
      ∃ other, base ≠ other ∧ AgreesAt (lastHalves halves) other ∧
        Shares (lastHalves halves) base other := by
  rw [collides, List.any_eq_true]
  constructor
  · rintro ⟨entry, hentry, hcollides⟩
    obtain ⟨other, hother, rfl⟩ := List.mem_map.mp hentry
    simp only [groupEntry_unitName, Bool.and_eq_true, Bool.or_eq_true, decide_eq_true_eq]
      at hcollides
    obtain ⟨⟨hname, hstate⟩, hclaim⟩ := hcollides
    rw [ne_eq, groupEntry_tampered, not_not] at hstate
    exact ⟨other, hname.symm, hstate, (shares_iff_entries hbase hother hagrees hstate).mpr hclaim⟩
  · rintro ⟨other, hname, hagrees', hshares⟩
    have hother := (mem_baseNames_of_shares hshares).2
    refine ⟨groupEntry halves other, List.mem_map_of_mem hother, ?_⟩
    simp only [groupEntry_unitName, Bool.and_eq_true, Bool.or_eq_true, decide_eq_true_eq]
    refine ⟨⟨hname.symm, ?_⟩, (shares_iff_entries hbase hother hagrees hagrees').mp hshares⟩
    rwa [ne_eq, groupEntry_tampered, not_not]

/-- Every name has its one entry, flagged or not. -/
theorem mem_pairScannedHalves_iff :
    unit ∈ pairScannedHalves halves ↔ ∃ base ∈ baseNames halves,
      (¬ AgreesAt (lastHalves halves) base ∧ unit = groupEntry halves base) ∨
      (AgreesAt (lastHalves halves) base ∧
        ((∃ other, base ≠ other ∧ AgreesAt (lastHalves halves) other ∧
            Shares (lastHalves halves) base other) ∧ unit = (groupEntry halves base).demoted ∨
          (¬ ∃ other, base ≠ other ∧ AgreesAt (lastHalves halves) other ∧
            Shares (lastHalves halves) base other) ∧ unit = groupEntry halves base)) := by
  rw [mem_pairScannedHalves]
  apply exists_congr
  intro base
  apply and_congr_right
  intro hbase
  by_cases hagrees : AgreesAt (lastHalves halves) base
  · have hstate : (groupEntry halves base).state ≠ .tampered := by
      rwa [ne_eq, groupEntry_tampered, not_not]
    rw [← collides_iff hbase hagrees]
    split_ifs with hcollides
    · simp [hagrees, hcollides.2]
    · rw [not_and] at hcollides
      simp [hagrees, hcollides hstate]
  · have hstate : (groupEntry halves base).state = .tampered := groupEntry_tampered.mpr hagrees
    rw [if_neg (fun h => h.1 hstate)]
    simp [hagrees]

theorem map_unitName_pairScannedHalves :
    (pairScannedHalves halves).map (·.unitName) = baseNames halves := by
  rw [pairScannedHalves_eq_flag, flagCollisions, List.map_map, List.map_map]
  refine (List.map_congr_left fun base _ => ?_).trans (List.map_id _)
  rw [Function.comp_apply, Function.comp_apply, id]
  split_ifs
  · exact groupEntry_unitName
  · exact groupEntry_unitName

/-- A name is flagged for its own disagreement or for a claim it shares with
another name that agrees. -/
theorem tamperedAt_iff (hbase : base ∈ baseNames halves) :
    TamperedAt halves base ↔ ¬ AgreesAt (lastHalves halves) base ∨
      ∃ other, base ≠ other ∧ AgreesAt (lastHalves halves) other ∧
        Shares (lastHalves halves) base other := by
  constructor
  · rintro ⟨unit, hunit, rfl, hstate⟩
    obtain ⟨base, -, hcase⟩ := mem_pairScannedHalves_iff.mp hunit
    rcases hcase with ⟨hno, rfl⟩ | ⟨hagrees, ⟨hother, rfl⟩ | ⟨-, rfl⟩⟩
    · rw [groupEntry_unitName]
      exact Or.inl hno
    · rw [show (groupEntry halves base).demoted.unitName = base from groupEntry_unitName]
      exact Or.inr hother
    · exact absurd hagrees (groupEntry_tampered.mp hstate)
  · intro h
    by_cases hagrees : AgreesAt (lastHalves halves) base
    · have hother := h.resolve_left (not_not.mpr hagrees)
      refine ⟨(groupEntry halves base).demoted, ?_, groupEntry_unitName, rfl⟩
      exact mem_pairScannedHalves_iff.mpr ⟨base, hbase, Or.inr ⟨hagrees, Or.inl ⟨hother, rfl⟩⟩⟩
    · refine ⟨groupEntry halves base, ?_, groupEntry_unitName, groupEntry_tampered.mpr hagrees⟩
      exact mem_pairScannedHalves_iff.mpr ⟨base, hbase, Or.inl ⟨hagrees, rfl⟩⟩

theorem tamperedAt_of_shares
    (hsound : ∀ base other, base ≠ other → Shares (lastHalves halves) base other →
      AgreesAt (lastHalves halves) base → ¬ AgreesAt (lastHalves halves) other →
      ∃ third, base ≠ third ∧ AgreesAt (lastHalves halves) third ∧
        Shares (lastHalves halves) base third)
    (hname : base ≠ other) (hshares : Shares (lastHalves halves) base other) :
    TamperedAt halves base := by
  rw [tamperedAt_iff (mem_baseNames_of_shares hshares).1]
  by_cases hagrees : AgreesAt (lastHalves halves) base
  · by_cases hagrees' : AgreesAt (lastHalves halves) other
    · exact Or.inr ⟨other, hname, hagrees', hshares⟩
    · exact Or.inr (hsound base other hname hshares hagrees hagrees')
  · exact Or.inl hagrees

end Collisions

section Samples

def sampleName : UnitName := ⟨qs "mnt-a", by decide⟩

theorem isUnitName_other : isUnitName (qs "mnt-b") = true := by decide

def otherName : UnitName := ⟨qs "mnt-b", isUnitName_other⟩

def sampleHalf : ScannedHalf where
  key := sampleName.mount
  marker := sampleMarker
  whereValue := qs "/mnt/a"
  what := qs "//nas/share"

/-- A half of another name with the id of `sampleHalf`. -/
def copiedHalf : ScannedHalf where
  key := otherName.mount
  marker := sampleMarker
  whereValue := qs "/mnt/b"
  what := qs "//nas/share"

/-- A half that disagrees with `copiedHalf` about the owner. -/
def disagreeingHalf : ScannedHalf where
  key := otherName.automount
  marker := { sampleMarker with ownerUid := 1001 }
  whereValue := qs "/mnt/b"
  what := []

instance (halves : List ScannedHalf) (base other : UnitName) :
    Decidable (Shares halves base other) :=
  inferInstanceAs (Decidable (∃ half ∈ halves, ∃ half' ∈ halves, half.key.base = base ∧
    half'.key.base = other ∧
      (half.marker.id = half'.marker.id ∨ half.whereValue = half'.whereValue)))

instance (halves : List ScannedHalf) (base : UnitName) : Decidable (TamperedAt halves base) :=
  inferInstanceAs (Decidable (∃ unit ∈ pairScannedHalves halves,
    unit.unitName = base ∧ unit.state = .tampered))

end Samples

section Results

/-- One entry for each name whatever the order of the scan. A name that agrees
is flagged for every name it shares a claim with only where no claim is shared
with a disagreeing pair alone. -/
theorem pairing_flags_collisions (halves : List ScannedHalf)
    (hdistinct : (halves.map ScannedHalf.key).Nodup) :
    ((pairScannedHalves halves).map (·.unitName)).Nodup ∧
    (∀ base, base ∈ (pairScannedHalves halves).map (·.unitName) ↔
      ∃ half ∈ halves, half.key.base = base) ∧
    (∀ halves', halves.Perm halves' → pairScannedHalves halves' = pairScannedHalves halves) ∧
    ((∀ base other, base ≠ other → Shares halves base other →
        TamperedAt halves base ∧ TamperedAt halves other) ↔
      ∀ base other, base ≠ other → Shares halves base other → AgreesAt halves base →
        ¬ AgreesAt halves other →
        ∃ third, base ≠ third ∧ AgreesAt halves third ∧ Shares halves base third) := by
  have hagrees : ∀ base, AgreesAt (lastHalves halves) base ↔ AgreesAt halves base := by
    intro base
    simp only [AgreesAt, mem_lastHalves_iff hdistinct]
  have hshares : ∀ base other,
      Shares (lastHalves halves) base other ↔ Shares halves base other := by
    intro base other
    simp only [Shares, mem_lastHalves_iff hdistinct]
  rw [map_unitName_pairScannedHalves]
  refine ⟨baseNames_nodup halves, fun base => mem_baseNames_iff,
    fun _ => pairScannedHalves_perm hdistinct, ?_⟩
  simp only [← hagrees, ← hshares]
  constructor
  · intro hflags base other hname hclaim hbase _
    have hflagged := (hflags base other hname hclaim).1
    rw [tamperedAt_iff (mem_baseNames_of_shares hclaim).1] at hflagged
    exact hflagged.resolve_left (not_not.mpr hbase)
  · intro hsound base other hname hclaim
    exact ⟨tamperedAt_of_shares hsound hname hclaim,
      tamperedAt_of_shares hsound hname.symm hclaim.symm⟩

theorem pairing_flags_collisions_sample :
    pairScannedHalves [copiedHalf, sampleHalf] = pairScannedHalves [sampleHalf, copiedHalf] :=
  (pairing_flags_collisions [sampleHalf, copiedHalf] (by decide)).2.2.1 _ (List.Perm.swap ..)

/-- A sound entry beside a disagreeing pair that claims its id. -/
theorem disagreeing_collision_missed :
    ([sampleHalf, copiedHalf, disagreeingHalf].map ScannedHalf.key).Nodup ∧
      sampleName ≠ otherName ∧
      Shares [sampleHalf, copiedHalf, disagreeingHalf] sampleName otherName ∧
      ¬ TamperedAt [sampleHalf, copiedHalf, disagreeingHalf] sampleName := by
  decide +kernel

/-- What an entry shows: the fields of its halves, or none at all. A demoted
entry keeps `Where=` and `What=`, so it shows none only if both are empty. -/
theorem pairing_exposes (halves : List ScannedHalf) :
    (∀ unit ∈ pairScannedHalves halves, unit.state ≠ .tampered → unit.Says (lastHalves halves)) ∧
    ((∀ unit ∈ pairScannedHalves halves, unit.state = .tampered → unit.Blank) ↔
      ∀ base other, base ≠ other → AgreesAt (lastHalves halves) base →
        AgreesAt (lastHalves halves) other → Shares (lastHalves halves) base other →
        ∀ half ∈ lastHalves halves, half.key.base = base →
          half.whereValue = [] ∧ (half.key = base.mount → half.what = [])) := by
  refine ⟨?_, ?_, ?_⟩
  · intro unit hunit hstate
    obtain ⟨base, hbase, hcase⟩ := mem_pairScannedHalves_iff.mp hunit
    rcases hcase with ⟨hno, rfl⟩ | ⟨hagrees, ⟨-, rfl⟩ | ⟨-, rfl⟩⟩
    · exact absurd (groupEntry_tampered.mpr hno) hstate
    · exact absurd rfl hstate
    · exact groupEntry_says hbase hagrees
  · intro hblank base other hname hagrees hagrees' hshares half hmem hhalf
    have hbase := (mem_baseNames_of_shares hshares).1
    have hdemoted : (groupEntry halves base).demoted ∈ pairScannedHalves halves :=
      mem_pairScannedHalves_iff.mpr
        ⟨base, hbase, Or.inr ⟨hagrees, Or.inl ⟨⟨other, hname, hagrees', hshares⟩, rfl⟩⟩⟩
    obtain ⟨hwhere, -, -, -, -, -, hwhat⟩ := hblank _ hdemoted rfl
    have hentry := groupEntry_says hbase hagrees
    constructor
    · exact (hentry.fields half hmem (by rwa [groupEntry_unitName])).1.symm.trans hwhere
    · intro hkey
      exact (hentry.what half hmem (by rwa [groupEntry_unitName])).symm.trans hwhat
  · intro hempty unit hunit hstate
    obtain ⟨base, hbase, hcase⟩ := mem_pairScannedHalves_iff.mp hunit
    rcases hcase with ⟨hno, rfl⟩ | ⟨hagrees, ⟨hother, rfl⟩ | ⟨-, rfl⟩⟩
    · exact pairGroup_blank (groupEntry_tampered.mpr hno)
    · obtain ⟨other, hname, hagrees', hshares⟩ := hother
      have hfields := hempty base other hname hagrees hagrees' hshares
      have hentry := groupEntry_says hbase hagrees
      have hwhere : (groupEntry halves base).mountPoint = [] := by
        obtain ⟨half, hmem, hhalf⟩ := hentry.present
        rw [(hentry.fields half hmem hhalf).1]
        rw [groupEntry_unitName] at hhalf
        exact (hfields half hmem hhalf).1
      have hwhat : (groupEntry halves base).what = [] := by
        by_cases hmount : ∃ half ∈ lastHalves halves, half.key = base.mount
        · obtain ⟨half, hmem, hkey⟩ := hmount
          rw [hentry.what half hmem (by rwa [groupEntry_unitName])]
          exact (hfields half hmem (congrArg UnitKey.base hkey)).2 hkey
        · apply hentry.noWhat
          intro half hmem hkey
          exact hmount ⟨half, hmem, by rwa [groupEntry_unitName] at hkey⟩
      exact ⟨hwhere, rfl, rfl, rfl, rfl, rfl, hwhat⟩
    · exact absurd hagrees (groupEntry_tampered.mp hstate)

/-- Both entries are demoted for their common id and still name their share. -/
theorem demoted_keeps_what :
    ∃ unit ∈ pairScannedHalves [sampleHalf, copiedHalf], unit.state = .tampered ∧
      unit.mountPoint = qs "/mnt/a" ∧ unit.what = qs "//nas/share" ∧ ¬ unit.Blank := by
  have hcompute : ∃ unit ∈ pairScannedHalves [sampleHalf, copiedHalf], unit.state = .tampered ∧
      unit.mountPoint = qs "/mnt/a" ∧ unit.what = qs "//nas/share" := by decide +kernel
  obtain ⟨unit, hmem, hstate, hwhere, hwhat⟩ := hcompute
  refine ⟨unit, hmem, hstate, hwhere, hwhat, ?_⟩
  rintro ⟨hnone, -⟩
  exact absurd (hwhere.symm.trans hnone) (by decide)

end Results

end NasMount.Core
