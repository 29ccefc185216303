import NasMount.Core.UnitEncoding
import NasMount.Root.HelperRuns

/-!
# Added shares

An Add that returned has left a generated pair and the credential of its request.
Only a removal of that mount point or a purge by the owner takes them away, and
every boot arms the share again from these files alone.
-/
namespace NasMount.Root

open NasMount.Foundation NasMount.Core QString

/-- The private file of the share holds what the request carried. A guest share has
none. -/
def Stored (input : DefineInput) (shareId : ShareId) (w : World) : Prop :=
  w.file? .credentials (CredentialStore.fileNameFor shareId) =
    match input.authentication with
    | .credentials => some (rootFile .sensitiveFile
        (CredentialStore.credentialContent input.username input.domain input.password))
    | .guest => none

/-- The generated pair stands, without drop-ins, beside its credential. -/
structure Lasting (input : DefineInput) (shareId : ShareId) (w : World) : Prop where
  generates : Generates input shareId w
  stored : Stored input shareId w

section Define

variable {host : Host} {draws : ℕ → UInt64 × UInt64} {caller : Caller} {args : Args}
  {input : DefineInput} {shareId : ShareId} {w w' : World}

theorem Stored.congr (h : Stored input shareId w)
    (hfile : w'.file? .credentials (CredentialStore.fileNameFor shareId) =
      w.file? .credentials (CredentialStore.fileNameFor shareId)) : Stored input shareId w' :=
  hfile.trans h

theorem wp_establishCredential_stored {o : DefineSite → Outcome} {Q : PUnit → World → Prop}
    (done : ∀ w', Stored input shareId w' → Q ⟨⟩ w') :
    Prog.wp o (establishCredential input shareId) Q (fun _ _ => True) (fun _ => True) w := by
  unfold establishCredential
  cases hauth : input.authentication with
  | credentials =>
    dsimp only
    rw [wp_orCleanup, Prog.wp_mapSites]
    apply wp_credentialWrite
    · rintro s - ⟨dir, hdir, -⟩
      apply done
      rw [Stored, World.file?_putFile_self _ _ hdir, hauth]
      rfl
    · exact fun _ _ _ => wp_failCleanly_trivial
    · exact fun _ _ _ _ => wp_failCleanly_trivial
    · exact fun _ _ => trivial
  | guest =>
    dsimp only
    rw [Prog.wp_bind, Prog.wp_attempt, Prog.wp_mapSites]
    apply wp_credentialAssertAbsent
    · intro s _ _ habsent
      apply done
      rw [Stored, habsent, hauth]
    · exact fun _ _ _ => wp_failCleanly_trivial
    · exact fun _ _ => trivial

theorem wp_armDefinition_stored {o : DefineSite → Outcome} (h : Stored input shareId w) :
    Prog.wp o (armDefinition host input shareId) (fun out => Stored input out.shareId)
      (fun _ _ => True) (fun _ => True) w := by
  unfold armDefinition
  rw [Prog.wp_bind, wp_plainly, Prog.wp_mapSites]
  apply wp_armShare
  · intro result s hchange _
    have hstored : Stored input shareId s :=
      h.congr (hchange.files _ _ (Or.inl credentials_ne_automountIds))
    cases result with
    | armed => exact hstored
    | alreadyArmed => exact hstored
    | needsAttention error safe =>
      cases safe with
      | false => trivial
      | true => exact wp_failCleanly_trivial
  · exact fun _ _ => trivial

theorem wp_defineAs_stored {o : DefineSite → Outcome} :
    Prog.wp o (defineAs host input shareId) (fun out => Stored input out.shareId) (fun _ _ => True)
      (fun _ => True) w := by
  unfold defineAs
  rw [Prog.wp_bind, wp_plainly]
  refine Prog.wp_act_intro ?_ trivial trivial trivial
  rw [Prog.wp_bind]
  refine Prog.wp_ask_answer trivial fun mountExists _ => ?_
  rw [Prog.wp_bind]
  refine Prog.wp_ask_answer trivial fun automountExists _ => ?_
  split_ifs
  · trivial
  rw [Prog.wp_bind, wp_plainly, Prog.wp_ofExcept]
  refine ⟨fun contents _ => ?_, fun _ _ => trivial⟩
  rw [Prog.wp_bind, wp_orCleanup]
  refine Prog.wp_act_intro ?_ wp_failCleanly_trivial wp_failCleanly_trivial trivial
  rw [Prog.wp_bind, wp_orCleanup]
  refine Prog.wp_act_intro ?_ wp_failCleanly_trivial wp_failCleanly_trivial trivial
  rw [Prog.wp_bind]
  apply wp_establishCredential_stored
  intro s hstored
  rw [Prog.wp_bind, wp_orCleanup]
  refine Prog.wp_act_intro ?_ wp_failCleanly_trivial wp_failCleanly_trivial trivial
  apply wp_armDefinition_stored
  exact hstored.congr (World.file?_reload _ _ _)

theorem wp_doDefine_stored {trees : QString → Option Folder} {o : DefineCallSite → Outcome}
    (hrequest : readRequest host caller args = .ok input) :
    Prog.wp o (doDefine host draws caller args trees) (fun reply => Stored input reply.id)
      (fun _ _ => True) (fun _ => True) w := by
  unfold doDefine
  rw [Prog.wp_bind]
  refine Prog.wp_act_intro ?_ trivial trivial trivial
  rw [Prog.wp_bind, Prog.wp_ofExcept, hrequest]
  refine ⟨fun _ heq => ?_, fun _ _ => trivial⟩
  obtain rfl := Except.ok.inj heq
  rw [Prog.wp_bind, Prog.wp_look]
  cases definedProblem input.mountPlan
    (inspectDefinition w input.unitName caller.uid input.mountPoint) with
  | some problem => trivial
  | none =>
    dsimp only
    split
    · trivial
    rw [defineOrFail, Prog.wp_bind, Prog.wp_attempt, Prog.wp_mapSites, define, Prog.wp_bind,
      wp_plainly]
    apply wp_generateUniqueShareId
    · intro id s _ _ _
      exact Prog.wp_mono _ wp_defineAs_stored (fun _ _ h => h) (fun _ _ _ => trivial)
        fun _ _ => trivial
    · exact fun _ _ _ => trivial
    · exact fun _ _ => trivial

/-- What a call that returned has left. -/
theorem lasting_of_returned {trees : QString → Option Folder} {o : DefineCallSite → Outcome}
    {reply : DefineReply} (hrequest : readRequest host caller args = .ok input)
    (hrun : (doDefine host draws caller args trees).run o w = (.returned reply, w')) :
    Lasting input reply.id w' where
  generates := (Prog.wp_of_run hrun).1 (wp_doDefine_generates hrequest)
  stored := (Prog.wp_of_run hrun).1 (wp_doDefine_stored hrequest)

end Define

/-- Calls after which a share of the user at the mount point is still there. -/
def HelperCall.Spares (uid : UInt32) (mountPoint : QString) : HelperCall → Prop
  | .undefine caller path _ => caller.uid = uid → cleanPath path ≠ mountPoint
  | .purge user _ => user ≠ uid
  | _ => True

section Lasting

variable {host : Host} {caller : Caller} {args : Args} {input other : DefineInput}
  {shareId fresh : ShareId} {w w' : World} {base : UnitName} {uid : UInt32}

/-- A file that is valid for a mount point is valid for no other one. -/
theorem sideAt_mountPoint_unique {uid uid' : UInt32} {mp mp' what what' : QString} {key : UnitKey}
    {marker marker' : Marker} (h : sideAt w uid mp key = .valid marker what)
    (h' : sideAt w uid' mp' key = .valid marker' what') : mp = mp' := by
  unfold sideAt at h h'
  cases hhalf : key.half with
  | mount =>
    rw [hhalf] at h h'
    obtain ⟨content, hprobe, -, -, hbody⟩ := evaluateSide_eq_valid.1 h
    obtain ⟨content', hprobe', -, -, hbody'⟩ := evaluateSide_eq_valid.1 h'
    rw [hprobe, FileProbe.ok.injEq] at hprobe'
    subst hprobe'
    obtain ⟨-, values, hvalues, -, -, -, hwhere, -⟩ := validateMountUnitBody_eq_ok.1 hbody
    obtain ⟨-, values', hvalues', -, -, -, hwhere', -⟩ := validateMountUnitBody_eq_ok.1 hbody'
    rw [hvalues, Except.ok.injEq] at hvalues'
    rw [← hwhere, hvalues', hwhere']
  | automount =>
    rw [hhalf] at h h'
    obtain ⟨content, hprobe, -, -, hbody⟩ := evaluateSide_eq_valid.1 h
    obtain ⟨content', hprobe', -, -, hbody'⟩ := evaluateSide_eq_valid.1 h'
    rw [hprobe, FileProbe.ok.injEq] at hprobe'
    subst hprobe'
    cases hcheck : validateAutomountUnitBody content marker mp with
    | error e => simp [hcheck, Except.map] at hbody
    | ok checked =>
      cases hcheck' : validateAutomountUnitBody content marker' mp' with
      | error e => simp [hcheck', Except.map] at hbody'
      | ok checked' =>
        obtain ⟨-, values, -, hvalues, -, -, -, hwhere, -⟩ :=
          validateAutomountUnitBody_eq_ok.1 hcheck
        obtain ⟨-, values', -, hvalues', -, -, -, hwhere', -⟩ :=
          validateAutomountUnitBody_eq_ok.1 hcheck'
        rw [hvalues, Except.ok.injEq] at hvalues'
        subst hvalues'
        have hdoubled :=
          (encodeUnitValue_eq_ok.1 hwhere).2.symm.trans (encodeUnitValue_eq_ok.1 hwhere').2
        rw [← undouble_double '%' mp, hdoubled, undouble_double]

theorem ownedHalves_mountPoint_unique {uid uid' : UInt32} {mp mp' : QString}
    {marker marker' : Marker}
    (h : OwnedHalves w base uid mp marker) (h' : OwnedHalves w base uid' mp' marker') :
    mp = mp' := by
  obtain ⟨half, hpresent⟩ := h.present
  obtain ⟨what, hvalid⟩ := (h.valid half).resolve_left hpresent
  obtain ⟨what', hvalid'⟩ := (h'.valid half).resolve_left hpresent
  exact sideAt_mountPoint_unique hvalid hvalid'

theorem Generates.probe (h : Generates input shareId w) (half : Half) :
    ∃ content, input.Builds shareId half content ∧
      probeUnitFile w ⟨input.unitName, half⟩ = .ok content := by
  obtain ⟨contents, hcontents, hfiles⟩ := h
  cases half with
  | mount => exact ⟨contents.1, ⟨contents, hcontents, rfl⟩, hfiles.mount⟩
  | automount => exact ⟨contents.2, ⟨contents, hcontents, rfl⟩, hfiles.automount⟩

theorem Lasting.present (h : Lasting input shareId w) (half : Half) :
    w.unit? ⟨input.unitName, half⟩ ≠ none := by
  obtain ⟨content, -, hprobe⟩ := h.generates.probe half
  intro hnone
  rw [probeUnitFile_eq_missing.2 hnone] at hprobe
  exact nomatch hprobe

theorem Lasting.scanned (h : Lasting input shareId w) (half : Half) :
    ∃ scanned, scanHalf w none ⟨input.unitName, half⟩ = some scanned ∧
      scanned.marker = input.marker shareId ∧ scanned.whereValue = input.mountPoint := by
  obtain ⟨content, hbuilds, hprobe⟩ := h.generates.probe half
  obtain ⟨scanned, hscan, hmarker, hwhere, -⟩ := scanHalf_builds hbuilds hprobe
  exact ⟨scanned, hscan, hmarker, hwhere⟩

/-- Only the two files of the pair, their drop-ins and the private file matter. -/
theorem Lasting.congr (h : Lasting input shareId w)
    (hunits : ∀ half, w'.unit? ⟨input.unitName, half⟩ = w.unit? ⟨input.unitName, half⟩)
    (hdropIns : w'.dropIns = w.dropIns)
    (hfile : w'.file? .credentials (CredentialStore.fileNameFor shareId) =
      w.file? .credentials (CredentialStore.fileNameFor shareId)) : Lasting input shareId w' := by
  obtain ⟨⟨contents, hcontents, hfiles⟩, hstored⟩ := h
  have hprobe : ∀ half, probeUnitFile w' ⟨input.unitName, half⟩ =
      probeUnitFile w ⟨input.unitName, half⟩ := by
    intro half
    rw [probeUnitFile, probeUnitFile, hunits]
  refine ⟨⟨contents, hcontents, ?_, ?_, ?_⟩, hstored.congr hfile⟩
  · exact (hprobe .mount).trans hfiles.mount
  · exact (hprobe .automount).trans hfiles.automount
  · intro half
    rw [hdropIns]
    exact hfiles.noDropIn half

theorem Lasting.ownedHalves (h : Lasting input shareId w) {raw : QString}
    (hunc : validateUnc raw = .ok input.unc) :
    OwnedHalves w input.unitName input.ownerUid input.mountPoint (input.marker shareId) := by
  have hinspect := h.generates.inspect hunc
  have howned : (inspectDefinition w input.unitName input.ownerUid input.mountPoint).state.owned =
      true := by
    rw [hinspect]
    rfl
  obtain ⟨marker, hmarker, hhalves⟩ := inspectDefinition_marker howned
  rw [hinspect, Option.some.injEq] at hmarker
  exact hmarker ▸ hhalves

/-- No call that spares the share changes what there is of it. -/
theorem Lasting.run (h : Lasting input shareId w) (horderly : Orderly host w) {raw : QString}
    (hunc : validateUnc raw = .ok input.unc) {call : HelperCall}
    (hspares : call.Spares input.ownerUid input.mountPoint) :
    Lasting input shareId (call.run host w) := by
  obtain ⟨scanned, hscan, hmarker, hwhere⟩ := h.scanned .mount
  obtain hstill | ⟨caller, args, other, fresh, -, hdefines, heffect⟩ |
    ⟨caller, path, schedule, base, marker, what, rfl, hhalves, hwithdraws⟩ |
    ⟨user, schedule, rfl, hall, -⟩ := call.run_cases host w
  · apply h.congr
    · intro half
      rw [World.unit?, World.unit?, hstill.units]
    · exact hstill.dropIns
    · exact hstill.credential _
  · -- The name of a new definition was free, and so was its id.
    have hname : input.unitName ≠ other.unitName := by
      intro heq
      exact h.present .mount (heq ▸ hdefines.missing .mount)
    have hid : shareId ≠ fresh := by
      rintro rfl
      obtain ⟨hlisted, hcarries⟩ := carries_of_scanHalf hscan
      rw [hmarker] at hcarries
      exact Bool.false_ne_true ((hdefines.fresh.markers _ hlisted).symm.trans hcarries)
    apply h.congr
    · exact fun half => heffect.elsewhere ⟨input.unitName, half⟩ hname
    · exact heffect.dropIns
    · exact heffect.credential _ fun heq => hid (CredentialStore.fileNameFor_injective heq)
  · have hown := h.ownedHalves hunc
    have hname : input.unitName ≠ base := by
      rintro rfl
      have hsame := ownedHalves_marker_unique hown hhalves
      apply hspares
      · rw [← hhalves.ownerUid, ← hsame]
        exact hown.ownerUid
      · exact ownedHalves_mountPoint_unique hhalves hown
    have hid : shareId ≠ marker.id := by
      obtain ⟨side, hpresent⟩ := hhalves.present
      obtain ⟨found, hvalid⟩ := (hhalves.valid side).resolve_left hpresent
      obtain ⟨removed, hremoved, hsame⟩ := scanHalf_of_valid hvalid
      have hapart := horderly.apart _ ⟨base, side⟩ _ _ hscan hremoved hname
      rw [hmarker, hsame] at hapart
      exact hapart
    apply h.congr
    · exact fun half => hwithdraws.unit? ⟨input.unitName, half⟩ hname
    · exact hwithdraws.dropIns
    · exact hwithdraws.credential _ fun heq => hid (CredentialStore.fileNameFor_injective heq)
  · -- The owner of the purge owns every definition, this one too.
    exfalso
    apply hspares
    obtain ⟨hunit, -, -⟩ :=
      entries_untampered (fun unit hunit => (hall unit hunit).1) (entryAt_mem hscan)
    obtain ⟨hstate, howner⟩ := hall _ hunit
    rw [OwnedUnit.ownerUid, (entryAt_of_half hscan hstate).1, Option.map_some, Option.getD_some,
      hmarker] at howner
    exact howner.symm

theorem wp_doDefine_missing {draws : ℕ → UInt64 × UInt64} {trees : QString → Option Folder}
    {o : DefineCallSite → Outcome} (hrequest : readRequest host caller args = .ok input) :
    Prog.wp o (doDefine host draws caller args trees)
      (fun _ _ => ∀ half, w.unit? ⟨input.unitName, half⟩ = none) (fun _ _ => True)
        (fun _ => True) w := by
  unfold doDefine
  rw [Prog.wp_bind]
  refine Prog.wp_act_intro ?_ trivial trivial trivial
  rw [Prog.wp_bind, Prog.wp_ofExcept, hrequest]
  refine ⟨fun _ heq => ?_, fun _ _ => trivial⟩
  obtain rfl := Except.ok.inj heq
  rw [Prog.wp_bind, Prog.wp_look]
  cases hproblem : definedProblem input.mountPlan
      (inspectDefinition w input.unitName caller.uid input.mountPoint) with
  | some problem => trivial
  | none =>
    dsimp only
    split
    · trivial
    · exact Prog.wp_mono _ (Prog.wp_trivial _) (fun _ _ _ => missing_of_definedProblem hproblem)
        (fun _ _ _ => trivial) fun _ _ => trivial

/-- A call that returns has read a request, and has defined its share under the id of
the reply, which it drew. -/
theorem defines_of_returned {draws : ℕ → UInt64 × UInt64} {trees : QString → Option Folder}
    {o : DefineCallSite → Outcome} {reply : DefineReply}
    (hrun : (doDefine host draws caller args trees).run o w = (.returned reply, w')) :
    ∃ input, Defines host caller args input reply.id w ∧ (∃ n, reply.id = candidateId (draws n)) ∧
      DefineEffect input reply.id w w' := by
  have hread : Prog.wp o (doDefine host draws caller args trees)
      (fun _ _ => ∃ input, readRequest host caller args = .ok input) (fun _ _ => True)
        (fun _ => True) w := by
    unfold doDefine
    rw [Prog.wp_bind]
    refine Prog.wp_act_intro ?_ trivial trivial trivial
    rw [Prog.wp_bind, Prog.wp_ofExcept]
    refine ⟨fun input hinput => ?_, fun _ _ => trivial⟩
    exact Prog.wp_mono _ (Prog.wp_trivial _) (fun _ _ _ => ⟨input, hinput⟩) (fun _ _ _ => trivial)
      fun _ _ => trivial
  obtain ⟨input, hrequest⟩ := (Prog.wp_of_run hrun).1 hread
  have hlasting := lasting_of_returned hrequest hrun
  have heffect := doDefine_effect host draws caller args trees o w
  rw [hrun] at heffect
  obtain hquiet | ⟨other, shareId, hdefines, hdrawn, heffect⟩ := heffect
  · have hmissing := (Prog.wp_of_run hrun).1 (wp_doDefine_missing hrequest)
    exact absurd ((hquiet.unit? _).trans (hmissing .mount)) (hlasting.present .mount)
  · obtain rfl : input = other := Except.ok.inj (hrequest.symm.trans hdefines.request)
    obtain ⟨scanned, hscan, hmarker, -⟩ := hlasting.scanned .mount
    obtain ⟨hne, -⟩ | ⟨-, hmarker', -⟩ := heffect.scanHalf hscan
    · exact absurd rfl hne
    · have hid : reply.id = shareId := congrArg Marker.id (hmarker.symm.trans hmarker')
      rw [hid]
      exact ⟨input, hdefines, hdrawn, heffect⟩

/-- The owner's enumeration lists the pair. -/
theorem Lasting.entry (h : Lasting input shareId w) (horderly : Orderly host w)
    (onlyUid : Option UInt32) (hown : ∀ uid ∈ onlyUid, uid = input.ownerUid) :
    ∃ unit ∈ pairScannedHalves (scanManagedHalves w onlyUid), unit.unitName = input.unitName ∧
      unit.state = .pair ∧ unit.mountPoint = input.mountPoint ∧
        unit.marker = some (input.marker shareId) := by
  have hscanned : ∀ half, ∃ scanned, scanHalf w onlyUid ⟨input.unitName, half⟩ = some scanned ∧
      scanned.marker = input.marker shareId ∧ scanned.whereValue = input.mountPoint := by
    intro half
    obtain ⟨scanned, hscan, hmarker, hwhere⟩ := h.scanned half
    refine ⟨scanned, ?_, hmarker, hwhere⟩
    cases onlyUid with
    | none => exact hscan
    | some uid =>
      apply scanHalf_owner.2
      refine ⟨hscan, ?_⟩
      rw [hmarker, hown uid rfl]
      rfl
  obtain ⟨mountHalf, hmount, hmarker, hwhere⟩ := hscanned .mount
  obtain ⟨automountHalf, hautomount, hmarker', hwhere'⟩ := hscanned .automount
  obtain ⟨hunit, hstate, -⟩ :=
    entries_untampered (fun _ => horderly.untampered) (entryAt_mem hmount)
  obtain ⟨hsame, hplace⟩ := entryAt_of_half hmount hstate
  refine ⟨_, hunit, entryAt_unitName _, ?_, hplace.trans hwhere,
    hsame.trans (congrArg some hmarker)⟩
  have hpair : ¬(mountHalf.marker ≠ automountHalf.marker ∨
      mountHalf.whereValue ≠ automountHalf.whereValue) := by
    rw [hmarker, hmarker', hwhere, hwhere']
    simp
  unfold entryAt
  have hmount' : scanHalf w onlyUid input.unitName.mount = some mountHalf := hmount
  have hautomount' : scanHalf w onlyUid input.unitName.automount = some automountHalf := hautomount
  rw [hmount', hautomount', pairGroup_both, if_neg hpair]

end Lasting

section Boot

variable {host : Host} {homeOf : UInt32 → Option QString} {caller : Caller} {args : Args}
  {input : DefineInput} {shareId : ShareId} {w : World}

/-- A path that passes, and that a unit file can carry, passes again as its plan
spells it. -/
theorem validateMountpoint_plan {raw home : QString} {plan : MountpointPlan}
    (h : validateMountpoint raw home = .ok plan) (hvalue : EncodableValue plan.path) :
    validateMountpoint plan.path home = .ok plan := by
  have hraw : hasControlChars raw = false ∧ startsWith raw ['/'] = true ∧
      endsWithChar raw '\\' = false ∧ raw = trimmed raw := by
    unfold validateMountpoint at h
    split_ifs at h with hcontrol hslash hbackslash htrim
    all_goals exact ⟨by simpa using hcontrol, by simpa using hslash, by simpa using hbackslash,
      not_not.1 htrim⟩
  obtain ⟨hcontrol, hslash, hbackslash, htrim⟩ := hraw
  obtain ⟨hslash', -⟩ := cleanPath_control hslash hcontrol
  have hpath := plan_path h
  rw [hpath] at hvalue ⊢
  rw [validateMountpoint, if_neg (by simp [hcontrol]), if_neg (by simp [hslash]),
    if_neg (by simp [hbackslash]), if_neg (not_not.2 htrim)] at h
  rw [validateMountpoint, if_neg (by simp [hvalue.control]), if_neg (by simp [hslash']),
    if_neg (by simp [hvalue.backslash]), if_neg (not_not.2 hvalue.trimmed), cleanPath_idem]
  exact h

/-- The boot pass rebuilds, from the files and the account, the request that the Add
armed the share with. -/
theorem Lasting.bootRequest (h : Lasting input shareId w)
    (hrequest : readRequest host caller args = .ok input)
    (hhome : homeOf caller.uid = some caller.home)
    {unit : OwnedUnit} (hname : unit.unitName = input.unitName)
    (hplace : unit.mountPoint = input.mountPoint) :
    bootRequest host homeOf w unit (input.marker shareId) = .ok (input.armRequest shareId) := by
  obtain ⟨hprepare, hunc, -, howner, -⟩ := readRequest_eq_ok hrequest
  simp only [prepare, bind_eq_ok] at hprepare
  obtain ⟨plan, hplan, hbase⟩ := hprepare
  split at hbase
  case h_2 => cases hbase
  rename_i base hescape
  obtain ⟨rfl, rfl⟩ := Prod.mk.inj (Except.ok.inj hbase)
  have hvalue : EncodableValue input.mountPoint := by
    obtain ⟨contents, hcontents, -⟩ := h.generates
    simp only [DefineInput.contents, bind_eq_ok, pure_eq_ok] at hcontents
    obtain ⟨mountContent, hmount, -⟩ := hcontents
    exact (buildMountUnitContent_isOk.1 ⟨mountContent, hmount⟩).2
  have hinspect := h.generates.inspect hunc
  apply bootRequest_eq_ok.2
  refine ⟨caller.home, input.mountPlan, ?_, ?_, ?_, ?_, ?_⟩
  · rw [← hhome, ← howner]
    rfl
  · rw [hplace, ← input.samePath]
    exact validateMountpoint_plan hplan (input.samePath ▸ hvalue)
  · rw [hescape, hname]
  · rw [hname, input.samePath]
    exact congrArg DefinitionCheck.state hinspect
  · rw [hname, input.samePath]
    have hwhat := congrArg DefinitionCheck.what hinspect
    exact congrArg (fun what => ArmShareRequest.mk _ _ _ _ what) hwhat.symm

end Boot

section Runs

variable (host : Host) (w : World) (hnone : ∀ key, ¬Managed w key) (hown : OwnArtifacts w)
  (before : List HelperCall) (draws : ℕ → UInt64 × UInt64) (caller : Caller) (args : Args)
  (trees : QString → Option Folder) (o : DefineCallSite → Outcome) (input : DefineInput)
  (reply : DefineReply) (w₁ : World) (hrequest : readRequest host caller args = .ok input)
  (hadd : (doDefine host draws caller args trees).run o (before.foldl (HelperCall.run host) w) =
    (.returned reply, w₁))
  (calls : List HelperCall) (hspares : ∀ call ∈ calls, call.Spares caller.uid input.mountPoint)

include hnone hrequest hadd hspares

include hown

end Runs

section Sample

end Sample

end NasMount.Root
