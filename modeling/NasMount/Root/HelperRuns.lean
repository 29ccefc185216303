import NasMount.Foundation.Runs
import NasMount.Root.BootPass
import NasMount.Root.RemovalScope

/-!
# Runs of the root side

The calls of all users and the passes of all boots, each ended in any way. From
a machine without definitions no run leads to a definition that disagrees with
itself or collides with another one, and no user's calls reach what belongs to
another user.
-/
namespace NasMount.Root

open NasMount.Foundation NasMount.Core QString

/-- A call of a user, a pass of a boot, or what happens in between. -/
inductive HelperCall
  | define (draws : ℕ → UInt64 × UInt64) (caller : Caller) (args : Args)
      (trees : QString → Option Folder) (schedule : DefineCallSite → Outcome)
  | undefine (caller : Caller) (path : QString) (schedule : RemoveSite → Outcome)
  | purge (uid : UInt32) (schedule : PurgeSite → Outcome)
  | arm (homeOf : UInt32 → Option QString) (schedule : BootSite → Outcome)
  | reboot (sys : Sys)
  | runtime (sys : Sys)

namespace HelperCall

/-- The authenticated user behind the call. -/
def user : HelperCall → Option UInt32
  | define _ caller .. => some caller.uid
  | undefine caller .. => some caller.uid
  | purge uid _ => some uid
  | arm .. | reboot _ | runtime _ => none

/-- However the call ends, by a return, a failure or a kill. -/
def run (host : Host) (w : World) : HelperCall → World
  | define draws caller args trees schedule =>
    ((doDefine host draws caller args trees).run schedule w).2
  | undefine caller path schedule => ((doUndefine host caller path).run schedule w).2
  | purge uid schedule => ((Root.purge host uid).run schedule w).2
  | arm homeOf schedule => ((bootPass host homeOf).run schedule w).2
  | reboot sys => afterBoot w sys
  | runtime sys => { w with sys := sys }

end HelperCall

/-- No definition and no credential changed. -/
structure Still (w w' : World) : Prop where
  units : w'.units = w.units
  dropIns : w'.dropIns = w.dropIns
  credential : ∀ name, w'.file? .credentials name = w.file? .credentials name
  own : OwnArtifacts w → OwnArtifacts w'

/-- Only the files of one removal may be gone. -/
structure Withdraws (input : RemovalInput) (w w' : World) : Prop
    extends Thinned w w', Elsewhere input w w'

section Changes

variable {host : Host} {w w' : World} {uid : UInt32}

theorem Still.refl (w : World) : Still w w := ⟨rfl, rfl, fun _ => rfl, id⟩

theorem Quiet.still (h : Quiet w w') : Still w w' :=
  ⟨h.units, h.dropIns, h.files _, ((Thinned.refl w).quiet h).own⟩

theorem OwnArtifacts.afterBoot (h : OwnArtifacts w) (sys : Sys) :
    OwnArtifacts (afterBoot w sys) := by
  intro root
  cases root with
  | credentials => exact h .credentials
  | automountIds => exact ⟨nofun, nofun⟩
  | runtime => exact ⟨nofun, nofun⟩

/-- What one call can do: nothing to the definitions, a definition under a fresh id,
a removal of an own definition, or a purge in which every definition is the user's. -/
theorem HelperCall.run_cases (host : Host) (w : World) (call : HelperCall) :
    Still w (call.run host w) ∨
      (∃ caller args input shareId, call.user = some caller.uid ∧
        Defines host caller args input shareId w ∧ DefineEffect input shareId w (call.run host w)) ∨
      (∃ caller path schedule base marker what, call = .undefine caller path schedule ∧
        OwnedHalves w base caller.uid (cleanPath path) marker ∧
        Withdraws
          { shareId := marker.id, mountPoint := cleanPath path, unitName := base, what := what }
          w (call.run host w)) ∨
      ∃ uid schedule, call = .purge uid schedule ∧
        (∀ unit ∈ enumerateManagedUnits w, unit.state ≠ .tampered ∧ unit.ownerUid = uid) ∧
        Thinned w (call.run host w) := by
  cases call with
  | define draws caller args trees schedule =>
    rcases doDefine_effect host draws caller args trees schedule w with hquiet | heffect
    · exact Or.inl hquiet.still
    · obtain ⟨input, shareId, hdefines, -, heffect⟩ := heffect
      exact Or.inr (Or.inl ⟨caller, args, input, shareId, rfl, hdefines, heffect⟩)
  | undefine caller path schedule =>
    cases hprepare : prepare host caller path with
    | error e =>
      left
      have hrun : ((doUndefine host caller path).run schedule w).2 = w := by
        simp only [doUndefine, hprepare, Prog.ofExcept, Prog.run, bind, Prog.raise]
      rw [HelperCall.run, hrun]
      exact Still.refl w
    | ok target =>
      obtain ⟨plan, base⟩ := target
      cases hinput : removalInput base plan.path
        (inspectDefinition w base caller.uid plan.path) with
      | none =>
        left
        rw [HelperCall.run, doUndefine_refused hprepare hinput]
        exact Still.refl w
      | some input =>
        obtain ⟨marker, hhalves, rfl⟩ := ownedHalves_of_removalInput hinput
        have hpath : plan.path = cleanPath path := (prepare_eq_ok hprepare).1
        refine Or.inr (Or.inr (Or.inl ⟨caller, path, schedule, base, marker,
          (sideAt w caller.uid plan.path base.mount).what, rfl, hpath ▸ hhalves, ?_⟩))
        rw [HelperCall.run, doUndefine_remove hprepare hinput, ← hpath]
        exact ⟨(keeps_remove _).run_state schedule (Thinned.refl w),
          keeps_elsewhere.run_state schedule ⟨fun _ _ => rfl, fun _ _ => rfl⟩⟩
  | purge uid schedule =>
    cases htargets : purgeTargets host w uid with
    | error e =>
      left
      rw [HelperCall.run, purge_refused htargets]
      exact Still.refl w
    | ok targets =>
      exact Or.inr (Or.inr (Or.inr ⟨uid, schedule, rfl, (purgeTargets_eq_ok.1 htargets).1,
        keeps_purge.run_state schedule (Thinned.refl w)⟩))
  | arm homeOf schedule =>
    have hchange := Prog.wp_state (wp_bootPass_change host homeOf w schedule)
    refine Or.inl ⟨hchange.units, hchange.dropIns, fun name => ?_, hchange.own⟩
    exact hchange.files .credentials name fun hroot => absurd hroot credentials_ne_automountIds
  | reboot sys =>
    exact Or.inl ⟨rfl, rfl, fun _ => rfl, fun hown => hown.afterBoot sys⟩
  | runtime sys =>
    exact Or.inl ⟨rfl, rfl, fun _ => rfl, ((Thinned.refl w).sys sys).own⟩

end Changes

section Scan

variable {w w' : World} {onlyUid : Option UInt32} {key : UnitKey} {half : ScannedHalf}
  {input : DefineInput} {shareId : ShareId} {uid : UInt32}

theorem mem_scanManagedHalves :
    half ∈ scanManagedHalves w onlyUid ↔ scanHalf w onlyUid half.key = some half := by
  rw [scanManagedHalves, List.mem_filterMap]
  constructor
  · rintro ⟨key, -, hscan⟩
    rwa [scanHalf_key hscan]
  · intro hscan
    obtain ⟨content, hprobe⟩ := probe_of_scanHalf hscan
    exact ⟨half.key, mem_unitFiles_of_probe hprobe, hscan⟩

/-- The scan for one owner shows that owner's halves of the whole scan. -/
theorem scanHalf_owner :
    scanHalf w (some uid) key = some half ↔
      scanHalf w none key = some half ∧ half.marker.ownerUid = uid := by
  simp only [scanHalf_eq_some, Option.any_some, Option.any_none, ne_eq, decide_eq_false_iff_not,
    not_not, true_and]
  constructor
  · rintro ⟨content, whereRaw, hprobe, hmarker, howner, hrest⟩
    exact ⟨⟨content, whereRaw, hprobe, hmarker, hrest⟩, howner.symm⟩
  · rintro ⟨⟨content, whereRaw, hprobe, hmarker, hrest⟩, howner⟩
    exact ⟨content, whereRaw, hprobe, hmarker, howner.symm, hrest⟩

theorem scanHalf_whole (h : scanHalf w onlyUid key = some half) :
    scanHalf w none key = some half := by
  cases onlyUid with
  | none => exact h
  | some uid => exact (scanHalf_owner.1 h).1

theorem probe_rootFile {content : QString}
    (hnode : w.unit? key = some (rootFile .unitFile content)) :
    probeUnitFile w key = .ok content := by
  rw [probeUnitFile, hnode]
  simp

/-- The share address that the halves of a definition carry. -/
def DefineInput.whatOf (input : DefineInput) : Half → QString
  | .mount => input.unc
  | .automount => []

/-- The scan reads back what a definition generates. -/
theorem scanHalf_builds {half : Half} {content : QString}
    (hbuilds : input.Builds shareId half content)
    (hprobe : probeUnitFile w ⟨input.unitName, half⟩ = .ok content) :
    ∃ scanned, scanHalf w none ⟨input.unitName, half⟩ = some scanned ∧
      scanned.marker = input.marker shareId ∧ scanned.whereValue = input.mountPoint ∧
      scanned.what = input.whatOf half := by
  obtain ⟨contents, hcontents, hcontent⟩ := hbuilds
  simp only [DefineInput.contents, bind_eq_ok, pure_eq_ok] at hcontents
  obtain ⟨mountContent, hmount, automountContent, hautomount, rfl⟩ := hcontents
  cases half with
  | mount =>
    obtain rfl : content = mountContent := hcontent
    obtain ⟨what, whereValue, options, hwhat, hwhere, hoptions, hlines⟩ :=
      buildMountUnitContent_ok hmount
    exact ⟨_, scanHalf_mountLines (cleanLine_mountLines hwhat hwhere hoptions) hwhat hwhere
      (hlines ▸ hprobe) rfl, rfl, rfl, rfl⟩
  | automount =>
    obtain rfl : content = automountContent := hcontent
    obtain ⟨whereValue, hwhere, hlines⟩ := buildAutomountUnitContent_ok hautomount
    exact ⟨_, scanHalf_automountLines (cleanLine_automountLines hwhere) hwhere
      (hlines ▸ hprobe) rfl, rfl, rfl, rfl⟩

/-- The strict inspection reads back the same. -/
theorem sideAt_builds {raw : QString} (hunc : validateUnc raw = .ok input.unc) {half : Half}
    {content : QString} (hbuilds : input.Builds shareId half content)
    (hprobe : probeUnitFile w ⟨input.unitName, half⟩ = .ok content) :
    sideAt w input.ownerUid input.mountPoint ⟨input.unitName, half⟩ =
      .valid (input.marker shareId) (input.whatOf half) := by
  obtain ⟨contents, hcontents, hcontent⟩ := hbuilds
  simp only [DefineInput.contents, bind_eq_ok, pure_eq_ok] at hcontents
  obtain ⟨mountContent, hmount, automountContent, hautomount, rfl⟩ := hcontents
  cases half with
  | mount =>
    obtain rfl : content = mountContent := hcontent
    have hside : evaluateMountSide (probeUnitFile w input.unitName.mount) input.ownerUid
        input.mountPoint = .valid (input.marker shareId) input.unc :=
      evaluateSide_eq_valid.2 ⟨content, hprobe, parseMarker_buildMountUnitContent hmount, rfl,
        validateMountUnitBody_buildMountUnitContent hunc hmount⟩
    exact hside
  | automount =>
    obtain rfl : content = automountContent := hcontent
    have hside : evaluateAutomountSide (probeUnitFile w input.unitName.automount) input.ownerUid
        input.mountPoint = .valid (input.marker shareId) [] := by
      apply evaluateSide_eq_valid.2
      refine ⟨content, hprobe, parseMarker_buildAutomountUnitContent hautomount, rfl, ?_⟩
      rw [validateAutomountUnitBody_buildAutomountUnitContent hautomount]
      rfl
    exact hside

/-- A scanned half is a carrier of its id. -/
theorem carries_of_scanHalf (h : scanHalf w none key = some half) :
    key ∈ unitFiles w ∧ carries w half.marker.id key = true := by
  obtain ⟨content, whereRaw, hprobe, hmarker, -⟩ := scanHalf_eq_some.1 h
  have hlisted := mem_unitFiles_of_probe hprobe
  refine ⟨hlisted, ?_⟩
  obtain ⟨-, hfile⟩ := List.mem_filter.1 hlisted
  unfold probeUnitFile at hprobe
  cases hnode : w.unit? key with
  | none => simp [hnode] at hprobe
  | some node =>
    rw [hnode] at hprobe hfile
    dsimp only at hprobe
    split_ifs at hprobe
    obtain rfl := FileProbe.ok.inj hprobe
    rw [Option.any_some] at hfile
    simp [carries, hnode, hfile, hmarker]

end Scan

/-- Every marked file belongs to a definition that its owner may act on, under the
unit name of its mount point, and no two definitions share an id or a path. -/
structure Orderly (host : Host) (w : World) : Prop where
  sound : ∀ key, Managed w key → ∃ half, scanHalf w none key = some half ∧
    host.escape half.whereValue = some key.base ∧
    OwnedHalves w key.base half.marker.ownerUid half.whereValue half.marker
  agree : ∀ key key' half half', scanHalf w none key = some half →
    scanHalf w none key' = some half' →
    key.base = key'.base → half.marker = half'.marker ∧ half.whereValue = half'.whereValue
  apart : ∀ key key' half half', scanHalf w none key = some half →
    scanHalf w none key' = some half' →
    key.base ≠ key'.base → half.marker.id ≠ half'.marker.id
  /-- The address of the scan is the one that the strict inspection finds. -/
  what : ∀ key half, scanHalf w none key = some half →
    half.what = (sideAt w half.marker.ownerUid half.whereValue key).what

section Order

variable {host : Host} {w w' : World} {key key' : UnitKey} {half half' : ScannedHalf}
  {caller : Caller} {args : Args} {input : DefineInput} {shareId : ShareId}
  {onlyUid : Option UInt32}

theorem orderly_of_unmanaged (hnone : ∀ key, ¬Managed w key) : Orderly host w :=
  ⟨fun key h => absurd h (hnone key), fun key _ _ _ h => absurd (managed_of_scanHalf h) (hnone key),
    fun key _ _ _ h => absurd (managed_of_scanHalf h) (hnone key),
    fun key _ h => absurd (managed_of_scanHalf h) (hnone key)⟩

theorem Orderly.scanned (h : Orderly host w) (hscan : scanHalf w none key = some half) :
    host.escape half.whereValue = some key.base ∧
      OwnedHalves w key.base half.marker.ownerUid half.whereValue half.marker := by
  obtain ⟨found, hfound, hsound⟩ := h.sound key (managed_of_scanHalf hscan)
  rw [hscan, Option.some.injEq] at hfound
  subst hfound
  exact hsound

/-- Definitions at two unit names are at two mount points. -/
theorem Orderly.where_apart (h : Orderly host w) (hscan : scanHalf w none key = some half)
    (hscan' : scanHalf w none key' = some half') (hbase : key.base ≠ key'.base) :
    half.whereValue ≠ half'.whereValue := by
  intro hwhere
  have hescape := (h.scanned hscan).1
  rw [hwhere, (h.scanned hscan').1, Option.some.injEq] at hescape
  exact hbase hescape.symm

theorem Thinned.scanHalf (h : Thinned w w') (hscan : scanHalf w' onlyUid key = some half) :
    w'.unit? key = w.unit? key ∧ scanHalf w onlyUid key = some half := by
  rcases h.units key with hnone | hsame
  · rw [scanHalf_missing hnone] at hscan
    exact nomatch hscan
  · exact ⟨hsame, by rwa [scanHalf_congr hsame] at hscan⟩

theorem Orderly.thinned (h : Orderly host w) (hthin : Thinned w w') : Orderly host w' where
  sound := by
    rintro key ⟨hlisted, node, hnode, hmarker⟩
    have hsame : w'.unit? key = w.unit? key :=
      (hthin.units key).resolve_left (by rw [hnode]; exact nofun)
    obtain ⟨half, hscan, hescape, hhalves⟩ :=
      h.sound key (managed_of_unit? ⟨hlisted, node, hnode, hmarker⟩ hsame)
    refine ⟨half, (scanHalf_congr hsame).trans hscan, hescape, ?_⟩
    exact hhalves.of_fewer hthin.dropIns (fun _ => hthin.units _)
      ⟨key.half, by rw [hnode]; exact nofun⟩
  agree _ _ _ _ hscan hscan' := h.agree _ _ _ _ (hthin.scanHalf hscan).2 (hthin.scanHalf hscan').2
  apart _ _ _ _ hscan hscan' := h.apart _ _ _ _ (hthin.scanHalf hscan).2 (hthin.scanHalf hscan').2
  what key half hscan := by
    obtain ⟨hsame, hold⟩ := hthin.scanHalf hscan
    rw [h.what key half hold, sideAt_congr hsame]

theorem Still.thinned (h : Still w w') : Thinned w w' where
  units key := Or.inr (by rw [World.unit?, World.unit?, h.units])
  dropIns := h.dropIns
  own := h.own

/-- The path of a request is the one that gives its unit name. -/
theorem escape_of_readRequest (h : readRequest host caller args = .ok input) :
    host.escape input.mountPoint = some input.unitName := by
  rw [← input.samePath]
  exact (prepare_eq_ok (readRequest_eq_ok h).1).2.1

/-- What the scan shows after a definition: what it showed before, elsewhere, and
the generated halves. -/
theorem DefineEffect.scanHalf (h : DefineEffect input shareId w w')
    (hscan : scanHalf w' none key = some half) :
    key.base ≠ input.unitName ∧ scanHalf w none key = some half ∨
      key.base = input.unitName ∧ half.marker = input.marker shareId ∧
        half.whereValue = input.mountPoint ∧ half.what = input.whatOf key.half := by
  by_cases hbase : key.base = input.unitName
  · right
    obtain ⟨base, side⟩ := key
    obtain rfl : base = input.unitName := hbase
    cases hnode : w'.unit? ⟨input.unitName, side⟩ with
    | none =>
      rw [scanHalf_missing hnode] at hscan
      exact nomatch hscan
    | some node =>
      obtain ⟨content, hbuilds, rfl⟩ := h.halves side node hnode
      obtain ⟨scanned, hscanned, hmarker, hwhere, hwhat⟩ :=
        scanHalf_builds hbuilds (probe_rootFile hnode)
      rw [hscan, Option.some.injEq] at hscanned
      subst hscanned
      exact ⟨rfl, hmarker, hwhere, hwhat⟩
  · left
    rw [scanHalf_congr (h.elsewhere key hbase)] at hscan
    exact ⟨hbase, hscan⟩

/-- The halves a definition left are those of an owned definition. -/
theorem DefineEffect.ownedHalves (h : DefineEffect input shareId w w')
    (hdefines : Defines host caller args input shareId w)
    (hpresent : ∃ half, w'.unit? ⟨input.unitName, half⟩ ≠ none) :
    OwnedHalves w' input.unitName input.ownerUid input.mountPoint (input.marker shareId) := by
  have hunc := (readRequest_eq_ok hdefines.request).2.1
  refine ⟨fun half => by rw [h.dropIns]; exact hdefines.noDropIn half, fun half => ?_, hpresent⟩
  cases hnode : w'.unit? ⟨input.unitName, half⟩ with
  | none => exact Or.inl rfl
  | some node =>
    right
    obtain ⟨content, hbuilds, rfl⟩ := h.halves half node hnode
    exact ⟨_, sideAt_builds hunc hbuilds (probe_rootFile hnode)⟩

theorem Orderly.define (h : Orderly host w) (hdefines : Defines host caller args input shareId w)
    (heffect : DefineEffect input shareId w w') : Orderly host w' where
  sound := by
    rintro key ⟨hlisted, node, hnode, hmarker⟩
    by_cases hbase : key.base = input.unitName
    · obtain ⟨base, side⟩ := key
      obtain rfl : base = input.unitName := hbase
      obtain ⟨content, hbuilds, rfl⟩ := heffect.halves side node hnode
      obtain ⟨scanned, hscan, hsame, hwhere, -⟩ := scanHalf_builds hbuilds (probe_rootFile hnode)
      refine ⟨scanned, hscan, ?_, ?_⟩
      · rw [hwhere]
        exact escape_of_readRequest hdefines.request
      · rw [hsame, hwhere]
        exact heffect.ownedHalves hdefines ⟨side, by rw [hnode]; exact nofun⟩
    · have hsame := heffect.elsewhere key hbase
      obtain ⟨half, hscan, hescape, hhalves⟩ :=
        h.sound key (managed_of_unit? ⟨hlisted, node, hnode, hmarker⟩ hsame)
      refine ⟨half, (scanHalf_congr hsame).trans hscan, hescape, ?_⟩
      exact hhalves.of_fewer heffect.dropIns
        (fun side => Or.inr (heffect.elsewhere ⟨key.base, side⟩ hbase))
        ⟨key.half, by rw [hnode]; exact nofun⟩
  agree := by
    intro key key' half half' hscan hscan' hbase
    rcases heffect.scanHalf hscan with ⟨hne, hold⟩ | ⟨heq, hmarker, hwhere, -⟩ <;>
      rcases heffect.scanHalf hscan' with ⟨hne', hold'⟩ | ⟨heq', hmarker', hwhere', -⟩
    · exact h.agree _ _ _ _ hold hold' hbase
    · exact absurd (hbase.trans heq') hne
    · exact absurd (hbase.symm.trans heq) hne'
    · exact ⟨hmarker.trans hmarker'.symm, hwhere.trans hwhere'.symm⟩
  apart := by
    have hfresh : ∀ key half, Core.scanHalf w none key = some half → half.marker.id ≠ shareId := by
      rintro key half hold rfl
      obtain ⟨hlisted, hcarries⟩ := carries_of_scanHalf hold
      exact nomatch hcarries.symm.trans (hdefines.fresh.markers key hlisted)
    intro key key' half half' hscan hscan' hbase
    rcases heffect.scanHalf hscan with ⟨-, hold⟩ | ⟨heq, hmarker, -⟩ <;>
      rcases heffect.scanHalf hscan' with ⟨-, hold'⟩ | ⟨heq', hmarker', -⟩
    · exact h.apart _ _ _ _ hold hold' hbase
    · rw [hmarker']
      exact hfresh _ _ hold
    · rw [hmarker]
      exact (hfresh _ _ hold').symm
    · exact absurd (heq.trans heq'.symm) hbase
  what := by
    rintro ⟨base, side⟩ half hscan
    by_cases hbase : base = input.unitName
    · subst hbase
      cases hnode : w'.unit? ⟨input.unitName, side⟩ with
      | none =>
        rw [scanHalf_missing hnode] at hscan
        exact nomatch hscan
      | some node =>
        obtain ⟨content, hbuilds, rfl⟩ := heffect.halves side node hnode
        have hprobe := probe_rootFile hnode
        obtain ⟨scanned, hscanned, hmarker, hwhere, hwhat⟩ := scanHalf_builds hbuilds hprobe
        rw [hscan, Option.some.injEq] at hscanned
        subst hscanned
        have hside := sideAt_builds (readRequest_eq_ok hdefines.request).2.1 hbuilds hprobe
        rw [hwhat, hmarker, hwhere, DefineInput.marker, hside]
        rfl
    · have hsame := heffect.elsewhere ⟨base, side⟩ hbase
      rw [scanHalf_congr hsame] at hscan
      rw [h.what _ half hscan, sideAt_congr hsame]

/-- Every call keeps the definitions in order. -/
theorem Orderly.run (h : Orderly host w) (call : HelperCall) : Orderly host (call.run host w) := by
  obtain hstill | ⟨caller, args, input, shareId, -, hdefines, heffect⟩ |
    ⟨caller, path, schedule, base, marker, what, -, -, hwithdraws⟩ | ⟨uid, schedule, -, -, hthin⟩ :=
    call.run_cases host w
  · exact h.thinned hstill.thinned
  · exact h.define hdefines heffect
  · exact h.thinned hwithdraws.toThinned
  · exact h.thinned hthin

theorem Orderly.runs (h : Orderly host w) (calls : List HelperCall) :
    Orderly host (calls.foldl (HelperCall.run host) w) :=
  Runs.run_keeps_always (fun _ call hs => hs.run call) h calls

/-- No call puts anything else into the private roots. -/
theorem OwnArtifacts.run (h : OwnArtifacts w) (call : HelperCall) :
    OwnArtifacts (call.run host w) := by
  obtain hstill | ⟨caller, args, input, shareId, -, -, heffect⟩ |
    ⟨caller, path, schedule, base, marker, what, -, -, hwithdraws⟩ | ⟨uid, schedule, -, -, hthin⟩ :=
    call.run_cases host w
  · exact hstill.own h
  · exact heffect.own h
  · exact hwithdraws.own h
  · exact hthin.own h

theorem OwnArtifacts.runs (h : OwnArtifacts w) (calls : List HelperCall) :
    OwnArtifacts (calls.foldl (HelperCall.run host) w) :=
  Runs.run_keeps_always (fun _ call hs => hs.run call) h calls

/-- No entry of an enumeration is damaged or collides. -/
theorem Orderly.untampered (h : Orderly host w) {unit : OwnedUnit}
    (hunit : unit ∈ pairScannedHalves (scanManagedHalves w onlyUid)) : unit.state ≠ .tampered := by
  have hscan : ∀ half ∈ lastHalves (scanManagedHalves w onlyUid),
      scanHalf w none half.key = some half :=
    fun half hhalf =>
      scanHalf_whole (mem_scanManagedHalves.1 (mem_of_lastHalf (mem_lastHalves.1 hhalf)).1)
  have hbase : unit.unitName ∈ baseNames (scanManagedHalves w onlyUid) := by
    rw [← map_unitName_pairScannedHalves]
    exact List.mem_map_of_mem hunit
  intro hstate
  rcases (tamperedAt_iff hbase).1 ⟨unit, hunit, rfl, hstate⟩ with
    hdisagree | ⟨other, hne, -, hshares⟩
  · apply hdisagree
    intro half hhalf half' hhalf' hname hname'
    exact h.agree _ _ _ _ (hscan half hhalf) (hscan half' hhalf') (hname.trans hname'.symm)
  · obtain ⟨half, hhalf, half', hhalf', hname, hname', hclaim⟩ := hshares
    have hapart : half.key.base ≠ half'.key.base := by rwa [hname, hname']
    rcases hclaim with hid | hwhere
    · exact h.apart _ _ _ _ (hscan half hhalf) (hscan half' hhalf') hapart hid
    · exact h.where_apart (hscan half hhalf) (hscan half' hhalf') hapart hwhere

/-- An entry is what one of its halves says. -/
theorem Orderly.half_of_entry (h : Orderly host w) {unit : OwnedUnit}
    (hunit : unit ∈ pairScannedHalves (scanManagedHalves w onlyUid)) :
    ∃ key half, scanHalf w onlyUid key = some half ∧ key.base = unit.unitName ∧
      unit.marker = some half.marker ∧ unit.mountPoint = half.whereValue := by
  have hstate := h.untampered hunit
  obtain ⟨base, side, hsome, rfl⟩ := mem_entries.1 (entry_of_untampered hunit hstate).1
  obtain ⟨half, hscan⟩ := Option.isSome_iff_exists.1 hsome
  obtain ⟨hmarker, hwhere⟩ := entryAt_of_half hscan hstate
  exact ⟨⟨base, side⟩, half, hscan, (entryAt_unitName base).symm, hmarker, hwhere⟩

/-- The address of an entry is that of its mount half. -/
theorem Orderly.what_of_entry (h : Orderly host w) {unit : OwnedUnit}
    (hunit : unit ∈ pairScannedHalves (scanManagedHalves w onlyUid)) :
    (∃ half, scanHalf w onlyUid unit.unitName.mount = some half ∧ unit.what = half.what) ∨
      scanHalf w onlyUid unit.unitName.mount = none ∧ unit.what = [] := by
  have hstate := h.untampered hunit
  obtain ⟨base, side, hsome, rfl⟩ := mem_entries.1 (entry_of_untampered hunit hstate).1
  rw [entryAt_unitName]
  unfold entryAt at hstate ⊢
  cases hmount : scanHalf w onlyUid base.mount with
  | some half =>
    rw [hmount] at hstate
    refine Or.inl ⟨half, rfl, ?_⟩
    cases hautomount : scanHalf w onlyUid base.automount with
    | some other =>
      rw [hautomount, pairGroup_both] at hstate
      rw [pairGroup_both]
      split_ifs at hstate ⊢
      · exact absurd rfl hstate
      · rfl
    | none =>
      have hkey : half.key.half = .mount := congrArg UnitKey.half (scanHalf_key hmount)
      rw [pairGroup, onlyHalf, hkey]
  | none =>
    refine Or.inr ⟨rfl, ?_⟩
    cases hautomount : scanHalf w onlyUid base.automount with
    | some half =>
      have hkey : half.key.half = .automount := congrArg UnitKey.half (scanHalf_key hautomount)
      rw [pairGroup, onlyHalf, hkey]
    | none => rfl

end Order

/-- Nothing of the user's changed: the same halves, in the same files, with the same
credentials. -/
structure Untouched (uid : UInt32) (w w' : World) : Prop where
  scan : ∀ key, scanHalf w' (some uid) key = scanHalf w (some uid) key
  files : ∀ key half, scanHalf w (some uid) key = some half → w'.unit? key = w.unit? key
  credential : ∀ key half, scanHalf w (some uid) key = some half →
    w'.file? .credentials (CredentialStore.fileNameFor half.marker.id) =
      w.file? .credentials (CredentialStore.fileNameFor half.marker.id)
  dropIns : w'.dropIns = w.dropIns

section Isolation

variable {host : Host} {w w' w'' : World} {uid user : UInt32} {key : UnitKey} {half : ScannedHalf}
  {base : UnitName} {mountPoint : QString} {marker : Marker} {input : DefineInput}
  {shareId : ShareId} {caller : Caller} {args : Args}

theorem Untouched.refl (uid : UInt32) (w : World) : Untouched uid w w :=
  ⟨fun _ => rfl, fun _ _ _ => rfl, fun _ _ _ => rfl, rfl⟩

theorem Untouched.trans (h : Untouched uid w w') (h' : Untouched uid w' w'') :
    Untouched uid w w'' where
  scan key := (h'.scan key).trans (h.scan key)
  files key half hscan :=
    (h'.files key half ((h.scan key).trans hscan)).trans (h.files key half hscan)
  credential key half hscan :=
    (h'.credential key half ((h.scan key).trans hscan)).trans (h.credential key half hscan)
  dropIns := h'.dropIns.trans h.dropIns

theorem Still.untouched (h : Still w w') (uid : UInt32) : Untouched uid w w' := by
  have hunit : ∀ key, w'.unit? key = w.unit? key := by
    intro key
    rw [World.unit?, World.unit?, h.units]
  exact ⟨fun key => scanHalf_congr (hunit key), fun key _ _ => hunit key,
    fun _ _ _ => h.credential _, h.dropIns⟩

/-- Another user's definition is under a name at which the user has nothing, and
under a fresh id. -/
theorem DefineEffect.untouched (h : DefineEffect input shareId w w')
    (hdefines : Defines host caller args input shareId w) (hother : caller.uid ≠ uid) :
    Untouched uid w w' := by
  have helse : ∀ key half, Core.scanHalf w (some uid) key = some half →
      key.base ≠ input.unitName := by
    rintro ⟨base, side⟩ half hscan rfl
    rw [scanHalf_missing (hdefines.missing side)] at hscan
    exact nomatch hscan
  constructor
  · intro key
    by_cases hbase : key.base = input.unitName
    · have hbefore : Core.scanHalf w (some uid) key = none := by
        cases hscan : Core.scanHalf w (some uid) key with
        | none => rfl
        | some half => exact absurd hbase (helse key half hscan)
      rw [hbefore]
      cases hscan : Core.scanHalf w' (some uid) key with
      | none => rfl
      | some half =>
        obtain ⟨hwhole, howner⟩ := scanHalf_owner.1 hscan
        rcases h.scanHalf hwhole with ⟨hne, -⟩ | ⟨-, hmarker, -⟩
        · exact absurd hbase hne
        · rw [hmarker] at howner
          exact absurd ((readRequest_eq_ok hdefines.request).2.2.2.1.symm.trans howner) hother
    · exact scanHalf_congr (h.elsewhere key hbase)
  · exact fun key half hscan => h.elsewhere key (helse key half hscan)
  · intro key half hscan
    apply h.credential
    intro hname
    obtain ⟨hlisted, hcarries⟩ := carries_of_scanHalf (scanHalf_whole hscan)
    rw [CredentialStore.fileNameFor_injective hname] at hcarries
    exact nomatch hcarries.symm.trans (hdefines.fresh.markers key hlisted)
  · exact h.dropIns

/-- Another user's removal is of that user's own definition. -/
theorem Withdraws.untouched {what : QString}
    (h : Withdraws
      { shareId := marker.id, mountPoint := mountPoint, unitName := base, what := what } w w')
    (horderly : Orderly host w) (hhalves : OwnedHalves w base user mountPoint marker)
    (hother : user ≠ uid) : Untouched uid w w' := by
  have helse : ∀ key half, scanHalf w (some uid) key = some half → key.base ≠ base := by
    rintro key half hscan rfl
    obtain ⟨hwhole, howner⟩ := scanHalf_owner.1 hscan
    have hsame := ownedHalves_marker_unique (horderly.scanned hwhole).2 hhalves
    rw [hsame, hhalves.ownerUid] at howner
    exact hother howner
  constructor
  · intro key
    by_cases hbase : key.base = base
    · cases hscan' : scanHalf w' (some uid) key with
      | none =>
        cases hscan : scanHalf w (some uid) key with
        | none => rfl
        | some half => exact absurd hbase (helse key half hscan)
      | some half => exact absurd hbase (helse key half (h.toThinned.scanHalf hscan').2)
    · exact scanHalf_congr (h.unit? key hbase)
  · exact fun key half hscan => h.unit? key (helse key half hscan)
  · intro key half hscan
    apply h.credential
    intro hname
    obtain ⟨side, hpresent⟩ := hhalves.present
    obtain ⟨found, hvalid⟩ := (hhalves.valid side).resolve_left hpresent
    obtain ⟨removed, hremoved, hmarker⟩ := scanHalf_of_valid hvalid
    apply horderly.apart key ⟨base, side⟩ half removed (scanHalf_whole hscan) hremoved
      (helse key half hscan)
    rw [hmarker]
    exact CredentialStore.fileNameFor_injective hname
  · exact h.dropIns

/-- A purge by another user starts only where the user has no definition. -/
theorem untouched_of_purge (hthin : Thinned w w')
    (hall : ∀ unit ∈ enumerateManagedUnits w, unit.state ≠ .tampered ∧ unit.ownerUid = user)
    (hother : user ≠ uid) : Untouched uid w w' := by
  have hnone : ∀ key, scanHalf w (some uid) key = none := by
    intro key
    cases hscan : scanHalf w (some uid) key with
    | none => rfl
    | some half =>
      obtain ⟨hwhole, howner⟩ := scanHalf_owner.1 hscan
      obtain ⟨hunit, -, -⟩ := entries_untampered (fun unit hunit => (hall unit hunit).1)
        (entryAt_mem hwhole)
      obtain ⟨hstate, hentry⟩ := hall _ hunit
      obtain ⟨hmarker, -⟩ := entryAt_of_half hwhole hstate
      rw [OwnedUnit.ownerUid, hmarker, Option.map_some, Option.getD_some, howner] at hentry
      exact absurd hentry.symm hother
  have hunscanned : ∀ key half, scanHalf w (some uid) key ≠ some half := by
    intro key half hscan
    exact Option.some_ne_none half (hscan.symm.trans (hnone key))
  constructor
  · intro key
    rw [hnone key]
    cases hscan : scanHalf w' (some uid) key with
    | none => rfl
    | some half => exact absurd (hthin.scanHalf hscan).2 (hunscanned key half)
  · exact fun key half hscan => absurd hscan (hunscanned key half)
  · exact fun key half hscan => absurd hscan (hunscanned key half)
  · exact hthin.dropIns

/-- A call that is not the user's leaves everything of the user's as it is. -/
theorem Orderly.untouched (h : Orderly host w) {call : HelperCall} (hother : call.user ≠ some uid) :
    Untouched uid w (call.run host w) := by
  obtain hstill | ⟨caller, args, input, shareId, huser, hdefines, heffect⟩ |
    ⟨caller, path, schedule, base, marker, what, rfl, hhalves, hwithdraws⟩ |
    ⟨user, schedule, rfl, hall, hthin⟩ := call.run_cases host w
  · exact hstill.untouched uid
  · exact heffect.untouched hdefines fun heq => hother (huser.trans (congrArg some heq))
  · exact hwithdraws.untouched h hhalves fun heq => hother (congrArg some heq)
  · exact untouched_of_purge hthin hall fun heq => hother (congrArg some heq)

end Isolation

section Runs

variable (host : Host) (w : World) (hnone : ∀ key, ¬Managed w key)

include hnone

/-- After any run from a machine without definitions, every definition that the
enumeration lists for a user is one that the user can remove, under the listed id,
and no other user's definition claims its id or its mount point. -/
theorem runs_listed_removable (calls : List HelperCall) (uid : UInt32) :
    let w' := calls.foldl (HelperCall.run host) w
    ∀ unit ∈ enumerateOwnedUnits w' uid,
      host.escape unit.mountPoint = some unit.unitName ∧
        (∃ input, removalInput unit.unitName unit.mountPoint
            (inspectDefinition w' unit.unitName uid unit.mountPoint) = some input ∧
          unit.id = some input.shareId) ∧
        ∀ other ∈ enumerateManagedUnits w', other.unitName ≠ unit.unitName →
          other.id ≠ unit.id ∧ other.mountPoint ≠ unit.mountPoint := by
  intro w' unit hunit
  have horderly : Orderly host w' := (orderly_of_unmanaged hnone).runs calls
  obtain ⟨key, half, hscan, hbase, hmarker, hwhere⟩ := horderly.half_of_entry hunit
  obtain ⟨hwhole, howner⟩ := scanHalf_owner.1 hscan
  obtain ⟨hescape, hhalves⟩ := horderly.scanned hwhole
  rw [hbase] at hescape hhalves
  rw [howner, ← hwhere] at hhalves
  have hid : unit.id = some half.marker.id := by rw [OwnedUnit.id, hmarker, Option.map_some]
  refine ⟨by rw [hwhere]; exact hescape, ⟨_, removalInput_of_ownedHalves hhalves, hid⟩, ?_⟩
  intro other hmem hname
  obtain ⟨key', half', hscan', hbase', hmarker', hwhere'⟩ := horderly.half_of_entry hmem
  have hapart : key'.base ≠ key.base := by rwa [hbase, hbase']
  constructor
  · rw [hid, OwnedUnit.id, hmarker', Option.map_some]
    intro heq
    exact horderly.apart _ _ _ _ hscan' hwhole hapart (Option.some.inj heq)
  · rw [hwhere, hwhere']
    exact horderly.where_apart hscan' hwhole hapart

/-- After any such run the gate of the purge opens exactly to a user who owns every
definition. -/
theorem runs_purge_opens (calls : List HelperCall) (uid : UInt32) :
    let w' := calls.foldl (HelperCall.run host) w
    (∃ targets, purgeTargets host w' uid = .ok targets) ↔
      ∀ unit ∈ enumerateManagedUnits w', unit.ownerUid = uid := by
  intro w'
  have horderly : Orderly host w' := (orderly_of_unmanaged hnone).runs calls
  constructor
  · rintro ⟨targets, htargets⟩ unit hunit
    exact ((purgeTargets_eq_ok.1 htargets).1 unit hunit).2
  · intro howners
    have hpurgeable : Purgeable host w' uid := by
      refine ⟨fun key hmanaged => ?_, horderly.agree, fun key key' half half' hscan hscan' hbase =>
        ⟨horderly.apart _ _ _ _ hscan hscan' hbase, horderly.where_apart hscan hscan' hbase⟩⟩
      obtain ⟨half, hscan, hescape, hhalves⟩ := horderly.sound key hmanaged
      obtain ⟨hunit, hstate, -⟩ :=
        entries_untampered (fun _ => horderly.untampered) (entryAt_mem hscan)
      have howner := howners _ hunit
      rw [OwnedUnit.ownerUid, (entryAt_of_half hscan hstate).1, Option.map_some, Option.getD_some]
        at howner
      rw [howner] at hhalves
      exact ⟨half, hscan, hescape, hhalves⟩
    exact hpurgeable.targets

end Runs

section Sample

theorem unmanaged_blank (key : UnitKey) : ¬Managed World.blank key := by
  rintro ⟨-, node, hnode, -⟩
  exact nomatch hnode

theorem ownArtifacts_blank : OwnArtifacts World.blank := by
  intro root
  cases root <;> exact ⟨nofun, nofun⟩

/-- Another user, with a directory of the name below the allowed root. -/
def otherCaller : Caller where
  uid := 1001
  gid := 1001
  home := qs "/home/bob"

/-- An Add of a guest share in an empty `/mnt` of the caller's. -/
def addCall (caller : Caller) (path : QString) (draw : UInt64)
    (schedule : DefineCallSite → Outcome) :
    HelperCall :=
  .define (fun _ => (0, draw)) caller [(qs "path", path), (qs "unc", qs "//nas/data")]
    (fun _ => some { stat := homeStat caller.gid, entries := [] }) schedule

/-- The other user's Add is killed after its first file. -/
def cutAdd : HelperCall :=
  addCall otherCaller (qs "/mnt/b") 2 fun site =>
    if site = .define (.write .automount) then .killed else .ok

theorem runs_listed_removable_sample :
    let w' := [addCall sampleCaller (qs "/mnt/a") 1 Prog.allOk, cutAdd].foldl
      (HelperCall.run sampleHost) World.blank
    (enumerateOwnedUnits w' 1001).map (·.mountPoint) = [qs "/mnt/b"] ∧
      ∀ unit ∈ enumerateOwnedUnits w' 1001, ∃ input, removalInput unit.unitName unit.mountPoint
        (inspectDefinition w' unit.unitName 1001 unit.mountPoint) = some input ∧
          unit.id = some input.shareId := by
  refine ⟨by decide +kernel, fun unit hunit => ?_⟩
  exact (runs_listed_removable sampleHost World.blank unmanaged_blank
    [addCall sampleCaller (qs "/mnt/a") 1 Prog.allOk, cutAdd] 1001 unit hunit).2.1

theorem runs_purge_opens_sample :
    ¬∃ targets,
      purgeTargets sampleHost ([addCall sampleCaller (qs "/mnt/a") 1 Prog.allOk, cutAdd].foldl
      (HelperCall.run sampleHost) World.blank) 1000 = .ok targets := by
  intro htargets
  have howners := (runs_purge_opens sampleHost World.blank unmanaged_blank
    [addCall sampleCaller (qs "/mnt/a") 1 Prog.allOk, cutAdd] 1000).1 htargets
  have hother :
    (enumerateManagedUnits ([addCall sampleCaller (qs "/mnt/a") 1 Prog.allOk, cutAdd].foldl
      (HelperCall.run sampleHost) World.blank)).any (·.ownerUid ≠ 1000) = true := by
    decide +kernel
  obtain ⟨unit, hunit, hne⟩ := List.any_eq_true.1 hother
  rw [decide_eq_true_eq] at hne
  exact hne (howners unit hunit)

end Sample

end NasMount.Root
