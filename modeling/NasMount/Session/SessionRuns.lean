import NasMount.Core.MarkerGrammar
import NasMount.Root.AddedShares
import NasMount.Session.Cleanup
import NasMount.Session.DeleteShare
import NasMount.Session.ListedRemovals

/-!
# Runs of a user's session

A user's calls change the machine through the helper and the local records beside
it, and each half of a call can be cut off. No run leaves a record that says
something else than the definition of its id.
-/
namespace NasMount.Session

open NasMount.Foundation NasMount.Core NasMount.Root QString

inductive RecordSite
  | userLock
  | sync
  deriving DecidableEq

/-- `MountActions::removeOrphanedRecord`: without a definition there is nothing for the
helper to act on. -/
def removeOrphanedRecord (id : QString) : Prog RecordSite (World × Config) QString PUnit := do
  Prog.act .userLock (qs "cannot acquire the user lock") fun s => s
  Prog.act .sync (qs "could not confirm local-record cleanup - retry") fun s =>
    (s.1, Store.removeShare id s.2)

/-- One helper outcome, for display. -/
def describeOutcome (outcome : HelperOutcome) (detail successMessage : QString) : QString :=
  match outcome with
  | .confirmedSuccess => successMessage
  | .confirmedFailure => detail
  | .unknown =>
    qs "could not confirm the result (" ++
      (if detail = [] then qs "connection to the helper was lost" else detail) ++
      qs ") - refresh before retrying"

inductive OrphanSite
  | userLock
  | authorize
  | helper (site : RemoveSite)
  | reply
  deriving DecidableEq

/-- `MountActions::removeOrphanByPath`. The definition is inspected before the helper is
asked. -/
def removeOrphanByPath (host : Host) (caller : Caller) (mountPoint : QString) :
    Prog OrphanSite World QString PUnit := do
  Prog.act .userLock (qs "cannot acquire the user lock") fun w => w
  match host.escape mountPoint with
  | none => Prog.raise (qs "systemd-escape failed: ")
  | some base =>
    let check ← Prog.look fun w => inspectDefinition w base caller.uid mountPoint
    if check.state.owned then
      Prog.act .authorize (describeOutcome .confirmedFailure (qs "the operation failed") [])
        fun w => w
      Prog.mapSites .helper (doUndefine host caller mountPoint)
      Prog.act .reply (describeOutcome .unknown (qs "the operation failed") []) fun w => w
    else Prog.raise (qs "no owned definition exists at " ++ mountPoint)

/-- The comparison of a record with one half of a definition. -/
def halfDriftInput (half : ScannedHalf) (share : Store.Share) : StoreDefinitionDriftInput where
  storeUnc := share.unc
  storeMountPoint := share.mountPoint
  storeSaysGuest := share.username = []
  storeAccess := share.access
  definitionWhat := half.what
  definitionMountPoint := half.whereValue
  definitionAuthentication := half.marker.authentication
  definitionAccess := half.marker.access

/-- The record of the definition's id, if there is one, is usable and says the same. -/
def Confirms (config : Config) (half : ScannedHalf) : Prop :=
  (Store.snapshotById config half.marker.id.text).present = true →
    (Store.snapshotById config half.marker.id.text).corrupt = false ∧
      storeDefinitionDrift
        (halfDriftInput half (Store.snapshotById config half.marker.id.text).share) = false

/-- The user may name the mount points of all definitions of their own, and no record
contradicts one. -/
structure Concordant (host : Host) (caller : Caller) (w : World) (config : Config) : Prop where
  named : ∀ key half, scanHalf w (some caller.uid) key = some half →
    ∃ plan, prepare host caller half.whereValue = .ok (plan, key.base) ∧ plan.path = half.whereValue
  confirmed : ∀ key half, scanHalf w (some caller.uid) key = some half → Confirms config half

section Steps

variable {qt : Qt} {host : Host} {caller : Caller} {w w' : World} {config config' : Config}
  {id : QString}
  {draws : ℕ → UInt64 × UInt64} {trees : QString → Option Folder} {input : AddInput}
  {request : DefineInput} {shareId : ShareId} {args : Args} {unc mountPoint : QString}

/-- Less on the machine, and fewer records. -/
theorem Concordant.fewer (h : Concordant host caller w config)
    (hscan : ∀ key half, scanHalf w' (some caller.uid) key = some half →
      scanHalf w (some caller.uid) key = some half)
    (hrecords : ∀ id, (Store.snapshotById config' id).present = true →
      Store.snapshotById config' id = Store.snapshotById config id) :
    Concordant host caller w' config' where
  named key half hhalf := h.named key half (hscan key half hhalf)
  confirmed key half hhalf := by
    intro hpresent
    have hsame := hrecords half.marker.id.text hpresent
    rw [hsame] at hpresent ⊢
    exact h.confirmed key half (hscan key half hhalf) hpresent

theorem Concordant.thinned (h : Concordant host caller w config) (hthin : Thinned w w') :
    Concordant host caller w' config :=
  h.fewer (fun _ _ hhalf => (hthin.scanHalf hhalf).2) fun _ _ => rfl

theorem Concordant.untouched (h : Concordant host caller w config)
    (hsame : Untouched caller.uid w w') :
    Concordant host caller w' config :=
  h.fewer (fun key _ hhalf => (hsame.scan key).symm.trans hhalf) fun _ _ => rfl

theorem Concordant.removeShare (h : Concordant host caller w config) (id : QString) :
    Concordant host caller w (Store.removeShare id config) := by
  apply h.fewer fun _ _ hhalf => hhalf
  intro other hpresent
  by_cases hid : other = id
  · rw [hid, Store.snapshotById_removeShare_self] at hpresent
    exact nomatch hpresent
  · exact Store.snapshotById_removeShare_ne hid

theorem Concordant.noRecords (h : Concordant host caller w config) :
    Concordant host caller w ∅ := by
  apply h.fewer fun _ _ hhalf => hhalf
  intro id hpresent
  simp [Store.snapshotById] at hpresent

/-- A new definition beside a record that says the same, or beside none. -/
theorem Concordant.define (h : Concordant host caller w config)
    (hdefines : Defines host caller args request shareId w)
    (heffect : DefineEffect request shareId w w')
    (hnamed : prepare host caller request.mountPoint = .ok (request.mountPlan, request.unitName))
    (hold : ∀ id, id ≠ shareId.text → Store.snapshotById config' id = Store.snapshotById config id)
    (hnew : ∀ key half, half.marker = request.marker shareId →
      half.whereValue = request.mountPoint →
      half.what = request.whatOf key →
        Confirms config' half) : Concordant host caller w' config' where
  named key half hhalf := by
    obtain ⟨hwhole, howner⟩ := scanHalf_owner.1 hhalf
    obtain ⟨-, hbefore⟩ | ⟨hbase, -, hwhere, -⟩ := heffect.scanHalf hwhole
    · exact h.named key half (scanHalf_owner.2 ⟨hbefore, howner⟩)
    · refine ⟨request.mountPlan, ?_, ?_⟩
      · rw [hwhere, hbase]
        exact hnamed
      · rw [hwhere]
        exact request.samePath
  confirmed key half hhalf := by
    obtain ⟨hwhole, howner⟩ := scanHalf_owner.1 hhalf
    obtain ⟨-, hbefore⟩ | ⟨-, hmarker, hwhere, hwhat⟩ := heffect.scanHalf hwhole
    · have hid : half.marker.id ≠ shareId := by
        rintro rfl
        obtain ⟨hlisted, hcarries⟩ := carries_of_scanHalf hbefore
        exact nomatch hcarries.symm.trans (hdefines.fresh.markers key hlisted)
      have hsame := hold half.marker.id.text fun htext => hid (ShareId.ext_text htext)
      have hconfirms := h.confirmed key half (scanHalf_owner.2 ⟨hbefore, howner⟩)
      unfold Confirms at hconfirms ⊢
      rwa [hsame]
    · exact hnew key.half half hmarker hwhere hwhat

theorem confirms_of_commit {half : ScannedHalf} {side : Half}
    (hrequest : readRequest host caller (input.args unc mountPoint) = .ok request)
    (hunc : validateUnc unc = .ok unc) (hclean : cleanPath mountPoint = mountPoint)
    (hcommit : Store.commitShare true (input.record unc mountPoint shareId) 0 config =
      (.ok, config'))
    (hmarker : half.marker = request.marker shareId) (hwhere : half.whereValue = request.mountPoint)
    (hwhat : half.what = request.whatOf side) : Confirms config' half := by
  obtain ⟨hprepare, hunc', haccess, -, husername⟩ := readRequest_eq_ok hrequest
  change prepare host caller mountPoint = .ok (request.mountPlan, request.unitName) at hprepare
  change request.username = input.username at husername
  have hunc' : unc = request.unc := Except.ok.inj (hunc.symm.trans hunc')
  obtain ⟨hpath, -, root, hroot⟩ := prepare_eq_ok hprepare
  have hmount : mountPoint = request.mountPoint := by
    rw [← request.samePath, hpath, hclean]
  have hplace : mountPoint ≠ [] := by
    obtain ⟨below, hbelow, -⟩ := planBelow_ok hroot
    rw [← hclean, hbelow]
    simp
  have haddress : unc ≠ [] := by
    rintro rfl
    exact absurd hunc (by decide)
  have hword : input.access = accessModeToString request.access := by
    have hvalue : (input.args unc mountPoint).value (qs "access") = input.access := rfl
    have hcontains : (input.args unc mountPoint).contains (qs "access") = true := rfl
    rw [readAccess, hvalue, if_pos hcontains] at haccess
    cases hmode : accessModeFromString input.access with
    | none => simp [hmode] at haccess
    | some access =>
      rw [hmode, Except.ok.injEq] at haccess
      exact haccess ▸ accessModeFromString_eq_some hmode
  have hread := Store.snapshotById_commitShare hcommit
  change Store.snapshotById config' shareId.text = _ at hread
  have hid : half.marker.id = shareId := congrArg Marker.id hmarker
  unfold Confirms
  rw [hid, hread]
  refine fun _ => ⟨by simp [AddInput.record, haddress, hplace],
    storeDefinitionDrift_eq_false.2 ⟨?_, ?_, ?_, ?_⟩⟩
  · exact hmount.trans hwhere.symm
  · have hguest : half.marker.authentication = request.authentication :=
      congrArg Marker.authentication hmarker
    rw [halfDriftInput, hguest, authentication_eq_guest, husername]
    exact decide_eq_true_iff
  · change half.what = [] ∨ validateUnc unc = .ok half.what
    rw [hwhat]
    cases side with
    | mount => exact Or.inr (hunc.trans (congrArg Except.ok hunc'))
    | automount => exact Or.inl rfl
  · have haccess' : half.marker.access = request.access := congrArg Marker.access hmarker
    have hstored : Store.storedAccess (input.record unc mountPoint shareId).access =
        accessModeToString request.access := by
      rw [AddInput.record, hword, if_neg (accessModeToString_ne_nil _)]
      exact if_neg (accessModeToString_ne_nil _)
    rw [halfDriftInput, haccess']
    exact hstored

/-- However an Add ends, it has defined nothing, or it has defined the share under an id
that it drew, and committed the record of that id or none. -/
def AddEffect (host : Host) (draws : ℕ → UInt64 × UInt64) (caller : Caller) (input : AddInput)
    (w : World) (config : Config) (s : World × Config) : Prop :=
  Quiet w s.1 ∧ s.2 = config ∨
    ∃ unc request shareId, validateUnc unc = .ok unc ∧
      Defines host caller (input.args unc (canonicalMountPoint input.rawMountPoint caller.home))
        request shareId w ∧
      (∃ n, shareId = candidateId (draws n)) ∧ DefineEffect request shareId w s.1 ∧
      (s.2 = config ∨
        Store.commitShare true
          (input.record unc (canonicalMountPoint input.rawMountPoint caller.home) shareId) 0
            config = (.ok, s.2))

theorem addShare_effect (qt : Qt) (host : Host) (draws : ℕ → UInt64 × UInt64) (caller : Caller)
    (trees : QString → Option Folder) (input : AddInput) (o : AddSite → Outcome) (w : World)
    (config : Config) :
    AddEffect host draws caller input w config
      ((addShare qt host draws caller trees input).run o (w, config)).2 := by
  have hnothing : AddEffect host draws caller input w config (w, config) :=
    Or.inl ⟨Quiet.refl w, rfl⟩
  apply Prog.wp_state (P := AddEffect host draws caller input w config)
  unfold addShare
  rw [Prog.wp_bind, Prog.wp_ofExcept]
  refine ⟨fun unc haddress => ?_, fun _ _ => hnothing⟩
  have hunc := validateUnc_of_resolveShareInput haddress
  rw [Prog.wp_bind, Prog.wp_ofExcept]
  refine ⟨fun _ _ => ?_, fun _ _ => hnothing⟩
  rw [Prog.wp_bind]
  refine Prog.wp_act_intro ?_ hnothing hnothing hnothing
  rw [Prog.wp_bind]
  refine Prog.wp_act_intro ?_ hnothing hnothing hnothing
  rw [Prog.wp_bind, Prog.wp_onFst, Prog.wp_mapSites]
  have hunfinished : ∀ v, ((doDefine host draws caller
        (input.args unc (canonicalMountPoint input.rawMountPoint caller.home)) trees).run
          (fun site => o (.helper site)) w).2 = v →
            AddEffect host draws caller input w config (v, config) := by
    rintro v rfl
    obtain hquiet | ⟨request, shareId, hdefines, hdrawn, heffect⟩ :=
      doDefine_effect host draws caller
      (input.args unc (canonicalMountPoint input.rawMountPoint caller.home)) trees
      (fun site => o (.helper site)) w
    · exact Or.inl ⟨hquiet, rfl⟩
    · exact Or.inr ⟨unc, request, shareId, hunc, hdefines, hdrawn, heffect, Or.inl rfl⟩
  apply Prog.wp_mono _ (Prog.wp_run _)
  · intro reply v hrun
    obtain ⟨request, hdefines, hdrawn, heffect⟩ := defines_of_returned hrun
    have hdefined : ∀ config', (config' = config ∨ Store.commitShare true (input.record unc
        (canonicalMountPoint input.rawMountPoint caller.home) reply.id) 0 config = (.ok, config')) →
        AddEffect host draws caller input w config (v, config') :=
      fun config' hrecord => Or.inr ⟨unc, request, reply.id, hunc, hdefines, hdrawn, heffect,
        hrecord⟩
    have hkept := hdefined config (Or.inl rfl)
    rw [Prog.wp_bind]
    refine Prog.wp_act_intro ?_ hkept hkept hkept
    rw [Prog.wp_bind, commitNew, Prog.wp_bind, Prog.wp_look]
    split_ifs with hconflict
    · exact hkept
    · have hcommitted := hdefined _ (Or.inr (Store.commitShare_synced hconflict))
      exact Prog.wp_act_intro hcommitted hkept hcommitted hkept
  · exact fun e v hrun => hunfinished v (congrArg Prod.snd hrun)
  · exact fun v hrun => hunfinished v (congrArg Prod.snd hrun)

/-- The helper's removal leaves less on the machine, however it ends. -/
theorem wp_doUndefine_thinned {path : QString} {o : RemoveSite → Outcome} :
    Prog.wp o (doUndefine host caller path) (fun _ => Thinned w) (fun _ => Thinned w)
      (Thinned w) w := by
  have hrefl := Thinned.refl w
  unfold doUndefine
  rw [Prog.wp_bind, Prog.wp_ofExcept]
  refine ⟨fun target _ => ?_, fun _ _ => hrefl⟩
  rw [Prog.wp_bind, Prog.wp_look]
  cases removalInput target.2 target.1.path
    (inspectDefinition w target.2 caller.uid target.1.path) with
  | none => exact hrefl
  | some removal => exact keeps_remove removal o w hrefl

/-- A removal from the list takes away from the machine, and at most one record. -/
def RemovalEffect (id : QString) (w : World) (config : Config) (s : World × Config) : Prop :=
  Thinned w s.1 ∧ (s.2 = config ∨ s.2 = Store.removeShare id config)

theorem deleteShare_effect (host : Host) (caller : Caller) (id : QString) (o : DeleteSite → Outcome)
    (w : World) (config : Config) :
    RemovalEffect id w config ((deleteShare host caller id).run o (w, config)).2 := by
  have hnothing : RemovalEffect id w config (w, config) := ⟨Thinned.refl w, Or.inl rfl⟩
  apply Prog.wp_state (P := RemovalEffect id w config)
  unfold deleteShare
  rw [Prog.wp_bind]
  refine Prog.wp_act_intro ?_ hnothing hnothing hnothing
  rw [Prog.wp_bind, Prog.wp_look]
  dsimp only
  split_ifs
  · exact hnothing
  rw [Prog.wp_bind]
  refine Prog.wp_act_intro ?_ hnothing hnothing hnothing
  rw [Prog.wp_bind, Prog.wp_attempt, Prog.wp_onFst, Prog.wp_mapSites]
  apply Prog.wp_mono _ wp_doUndefine_thinned
  · intro _ v hthin
    have hkept : RemovalEffect id w config (v, config) := ⟨hthin, Or.inl rfl⟩
    have hremoved : RemovalEffect id w config (v, Store.removeShare id config) :=
      ⟨hthin, Or.inr rfl⟩
    dsimp only
    rw [Prog.wp_bind]
    refine Prog.wp_act_intro ?_ hkept hkept hkept
    exact Prog.wp_act_intro hremoved hkept hremoved hkept
  · exact fun _ v hthin => ⟨hthin, Or.inl rfl⟩
  · exact fun v hthin => ⟨hthin, Or.inl rfl⟩

theorem removeOrphanedRecord_effect (id : QString) (o : RecordSite → Outcome) (w : World)
    (config : Config) :
    RemovalEffect id w config ((removeOrphanedRecord id).run o (w, config)).2 := by
  have hkept : RemovalEffect id w config (w, config) := ⟨Thinned.refl w, Or.inl rfl⟩
  have hremoved : RemovalEffect id w config (w, Store.removeShare id config) :=
    ⟨Thinned.refl w, Or.inr rfl⟩
  apply Prog.wp_state (P := RemovalEffect id w config)
  unfold removeOrphanedRecord
  rw [Prog.wp_bind]
  refine Prog.wp_act_intro ?_ hkept hkept hkept
  exact Prog.wp_act_intro hremoved hkept hremoved hkept

theorem removeOrphanByPath_effect (host : Host) (caller : Caller) (mountPoint : QString)
    (o : OrphanSite → Outcome) (w : World) :
    Thinned w ((removeOrphanByPath host caller mountPoint).run o w).2 := by
  have hrefl := Thinned.refl w
  apply Prog.wp_state (P := Thinned w)
  unfold removeOrphanByPath
  rw [Prog.wp_bind]
  refine Prog.wp_act_intro ?_ hrefl hrefl hrefl
  cases host.escape mountPoint with
  | none => exact hrefl
  | some base =>
    dsimp only
    rw [Prog.wp_bind, Prog.wp_look]
    split_ifs
    · rw [Prog.wp_bind]
      refine Prog.wp_act_intro ?_ hrefl hrefl hrefl
      rw [Prog.wp_bind, Prog.wp_mapSites]
      apply Prog.wp_mono _ wp_doUndefine_thinned
      · exact fun _ v hthin => Prog.wp_act_intro hthin hthin hthin hthin
      · exact fun _ _ hthin => hthin
      · exact fun _ hthin => hthin
    · exact hrefl

end Steps

/-- A call of the user's session, or what anyone else does to the machine. -/
inductive SessionCall
  | add (draws : ℕ → UInt64 × UInt64) (trees : QString → Option Folder) (input : AddInput)
      (schedule : AddSite → Outcome)
  | delete (id : QString) (schedule : DeleteSite → Outcome)
  | removeRecord (id : QString) (schedule : RecordSite → Outcome)
  | removeOrphan (mountPoint : QString) (schedule : OrphanSite → Outcome)
  | cleanup (fromUtf8 : List UInt8 → QString) (files : QString → Option (List UInt8))
      (arguments : CleanupArguments) (delivery : Delivery) (schedule : CleanupSite → Outcome)
  | helper (call : HelperCall)

namespace SessionCall

/-- However the call ends, in the client or in the helper. -/
def run (qt : Qt) (host : Host) (caller : Caller) (s : World × Config) :
    SessionCall → World × Config
  | add draws trees input schedule => ((addShare qt host draws caller trees input).run schedule s).2
  | delete id schedule => ((deleteShare host caller id).run schedule s).2
  | removeRecord id schedule => ((removeOrphanedRecord id).run schedule s).2
  | removeOrphan mountPoint schedule =>
    (((removeOrphanByPath host caller mountPoint).run schedule s.1).2, s.2)
  | cleanup fromUtf8 files arguments delivery schedule =>
    ((Session.cleanup host caller.uid fromUtf8 files arguments delivery).run schedule s).2
  | helper call => (call.run host s.1, s.2)

/-- No Add draws the id of a record that exists, and the user's definitions are made by
the session alone. -/
def Regular (caller : Caller) (s : World × Config) : SessionCall → Prop
  | add draws .. => ∀ n, (Store.snapshotById s.2 (candidateId (draws n)).text).present = false
  | helper (.define _ other ..) => other.uid ≠ caller.uid
  | _ => True

end SessionCall

/-- The definitions are in order, and so is what the records say about them. -/
structure Settled (host : Host) (caller : Caller) (s : World × Config) : Prop where
  orderly : Orderly host s.1
  concordant : Concordant host caller s.1 s.2

section Runs

variable {qt : Qt} {host : Host} {caller : Caller} {s s' : World × Config} {w : World}
  {config : Config} {id : QString} {unit : OwnedUnit}

theorem Settled.removal (h : Settled host caller s) (heffect : RemovalEffect id s.1 s.2 s') :
    Settled host caller s' := by
  obtain ⟨hthin, hrecords⟩ := heffect
  refine ⟨h.orderly.thinned hthin, ?_⟩
  have hconcordant : Concordant host caller s'.1 s.2 := h.concordant.thinned hthin
  rcases hrecords with hsame | hremoved
  · rw [hsame]
    exact hconcordant
  · rw [hremoved]
    exact hconcordant.removeShare id

theorem Settled.add {draws : ℕ → UInt64 × UInt64} {input : AddInput} (h : Settled host caller s)
    (hfresh : ∀ n, (Store.snapshotById s.2 (candidateId (draws n)).text).present = false)
    (heffect : AddEffect host draws caller input s.1 s.2 s') : Settled host caller s' := by
  obtain ⟨hquiet, hsame⟩ | ⟨unc, request, shareId, hunc, hdefines, ⟨n, hdrawn⟩, heffect, hrecord⟩ :=
    heffect
  · have hnothing : RemovalEffect [] s.1 s.2 s' := ⟨hquiet.still.thinned, Or.inl hsame⟩
    exact h.removal hnothing
  · refine ⟨h.orderly.define hdefines heffect, ?_⟩
    have hclean : cleanPath (canonicalMountPoint input.rawMountPoint caller.home) =
        canonicalMountPoint input.rawMountPoint caller.home := cleanPath_idem _
    have hprepare := (readRequest_eq_ok hdefines.request).1
    change prepare host caller (canonicalMountPoint input.rawMountPoint caller.home) = _ at hprepare
    have hplace : canonicalMountPoint input.rawMountPoint caller.home = request.mountPoint := by
      rw [← request.samePath, (prepare_eq_ok hprepare).1, hclean]
    rw [hplace] at hprepare
    apply h.concordant.define hdefines heffect hprepare
    · intro id hid
      rcases hrecord with hsame | hcommit
      · rw [hsame]
      · exact Store.snapshotById_commitShare_ne hcommit hid
    · intro side half hmarker hwhere hwhat
      rcases hrecord with hsame | hcommit
      · -- Without a record of the new id there is nothing to contradict it.
        have hid : half.marker.id = shareId := congrArg Marker.id hmarker
        intro hpresent
        rw [hid, hsame, hdrawn, hfresh n] at hpresent
        exact nomatch hpresent
      · exact confirms_of_commit hdefines.request hunc hclean hcommit hmarker hwhere hwhat

theorem Concordant.helper (h : Concordant host caller w config) (horderly : Orderly host w)
    {call : HelperCall} (hregular : SessionCall.Regular caller (w, config) (.helper call)) :
    Concordant host caller (call.run host w) config := by
  cases call with
  | define draws other args trees schedule =>
    exact h.untouched (horderly.untouched fun heq => hregular (Option.some.inj heq))
  | undefine other path schedule => exact h.thinned (Prog.wp_state wp_doUndefine_thinned)
  | purge user schedule => exact h.thinned (keeps_purge.run_state schedule (Thinned.refl w))
  | arm homeOf schedule => exact h.untouched (horderly.untouched nofun)
  | reboot sys => exact h.untouched (horderly.untouched nofun)
  | runtime sys => exact h.untouched (horderly.untouched nofun)

/-- Every call keeps the definitions and the records in agreement. -/
theorem Settled.run (h : Settled host caller s) {call : SessionCall}
    (hregular : call.Regular caller s) :
    Settled host caller (call.run qt host caller s) := by
  cases call with
  | add draws trees input schedule =>
    exact h.add hregular (addShare_effect qt host draws caller trees input schedule s.1 s.2)
  | delete id schedule => exact h.removal (deleteShare_effect host caller id schedule s.1 s.2)
  | removeRecord id schedule => exact h.removal (removeOrphanedRecord_effect id schedule s.1 s.2)
  | removeOrphan mountPoint schedule =>
    have hthin := removeOrphanByPath_effect host caller mountPoint schedule s.1
    exact ⟨h.orderly.thinned hthin, h.concordant.thinned hthin⟩
  | cleanup fromUtf8 files arguments delivery schedule =>
    have horder : InOrder s.1 s.2 (SessionCall.run qt host caller s
        (.cleanup fromUtf8 files arguments delivery schedule)) := inOrder_cleanup
    refine ⟨h.orderly.thinned horder.thinned, ?_⟩
    rcases horder.recordsLast with hsame | ⟨-, hempty⟩
    · rw [hsame]
      exact h.concordant.thinned horder.thinned
    · rw [hempty]
      exact (h.concordant.thinned horder.thinned).noRecords
  | helper call => exact ⟨h.orderly.run call, h.concordant.helper h.orderly hregular⟩

/-- No call puts anything else into the private roots. -/
theorem ownArtifacts_run (h : OwnArtifacts s.1) (call : SessionCall) :
    OwnArtifacts (call.run qt host caller s).1 := by
  cases call with
  | add draws trees input schedule =>
    obtain ⟨hquiet, -⟩ | ⟨unc, request, shareId, -, -, -, heffect, -⟩ :=
      addShare_effect qt host draws caller trees input schedule s.1 s.2
    · exact hquiet.still.own h
    · exact heffect.own h
  | delete id schedule => exact (deleteShare_effect host caller id schedule s.1 s.2).1.own h
  | removeRecord id schedule => exact (removeOrphanedRecord_effect id schedule s.1 s.2).1.own h
  | removeOrphan mountPoint schedule =>
    exact (removeOrphanByPath_effect host caller mountPoint schedule s.1).own h
  | cleanup fromUtf8 files arguments delivery schedule =>
    have horder : InOrder s.1 s.2 (SessionCall.run qt host caller s
        (.cleanup fromUtf8 files arguments delivery schedule)) := inOrder_cleanup
    exact horder.thinned.own h
  | helper call => exact h.run call

/-- A record that agrees with the halves of a definition does not contradict it. -/
theorem contradicted_of_confirms {half : ScannedHalf} (h : Confirms config half)
    (hmarker : unit.marker = some half.marker) (hwhere : unit.mountPoint = half.whereValue)
    (hwhat : unit.what = half.what ∨ unit.what = []) : contradicted config unit = false := by
  have hid : unit.id = some half.marker.id := by rw [OwnedUnit.id, hmarker, Option.map_some]
  rw [contradicted, hid, Option.any_some]
  dsimp only
  cases hpresent : (Store.snapshotById config half.marker.id.text).present with
  | false => rfl
  | true =>
    obtain ⟨hcorrupt, hdrift⟩ := h hpresent
    obtain ⟨hplace, hguest, haddress, haccess⟩ := storeDefinitionDrift_eq_false.1 hdrift
    rw [hcorrupt, Bool.true_and, Bool.false_or, storeDefinitionDrift_eq_false]
    refine ⟨hplace.trans hwhere.symm, ?_, ?_, ?_⟩
    · change _ ↔ unit.authentication = .guest
      rw [OwnedUnit.authentication, hmarker, Option.map_some, Option.getD_some]
      exact hguest
    · rcases hwhat with hsame | hnone
      · change unit.what = [] ∨ _ = Except.ok unit.what
        rw [hsame]
        exact haddress
      · exact Or.inl hnone
    · change _ = accessModeToString unit.access
      rw [OwnedUnit.access, hmarker, Option.map_some, Option.getD_some]
      exact haccess

/-- What the records and the session say about an entry of the enumeration. -/
theorem Settled.entry (h : Settled host caller s)
    (hunit : unit ∈ enumerateOwnedUnits s.1 caller.uid) :
    contradicted s.2 unit = false ∧
      ∃ plan, prepare host caller unit.mountPoint = .ok (plan, unit.unitName) ∧
        plan.path = unit.mountPoint := by
  obtain ⟨key, half, hscan, hbase, hmarker, hwhere⟩ := h.orderly.half_of_entry hunit
  constructor
  · rcases h.orderly.what_of_entry hunit with ⟨mountHalf, hmount, hwhat⟩ | ⟨-, hwhat⟩
    · obtain ⟨hsame, hplace⟩ := h.orderly.agree _ _ _ _ (scanHalf_owner.1 hmount).1
        (scanHalf_owner.1 hscan).1 hbase.symm
      apply contradicted_of_confirms (h.concordant.confirmed _ _ hmount)
      · rw [hmarker, hsame]
      · rw [hwhere, hplace]
      · exact Or.inl hwhat
    · exact contradicted_of_confirms (h.concordant.confirmed _ _ hscan) hmarker hwhere
        (Or.inr hwhat)
  · obtain ⟨plan, hprepare, hpath⟩ := h.concordant.named _ _ hscan
    rw [hwhere, ← hbase]
    exact ⟨plan, hprepare, hpath⟩

/-- Every run from a machine without definitions, and from no records, leads to a
settled state. -/
theorem settled_runs (hnone : ∀ key, ¬Managed w key) {calls : List SessionCall}
    (hregular : Runs.Throughout (SessionCall.run qt host caller)
      (SessionCall.Regular caller) (w, ∅) calls) :
    Settled host caller (calls.foldl (SessionCall.run qt host caller) (w, ∅)) := by
  apply Runs.run_keeps (I := Settled host caller) (fun _ _ h hcall => h.run hcall) _ hregular
  have hscan : ∀ key half, scanHalf w (some caller.uid) key ≠ some half := fun key half hscan =>
    hnone key (managed_of_scanHalf (scanHalf_whole hscan))
  exact ⟨orderly_of_unmanaged hnone, fun key half h => absurd h (hscan key half),
    fun key half h => absurd h (hscan key half)⟩

end Runs

/-- After any run of a user's session, with calls cut off anywhere and other users and
boots in between, the list shows every definition of the user under its record, if
it has one, as undamaged and without drift, and offers to remove it exactly when the
gate of the stop lets it. -/
theorem session_list_agrees (qt : Qt) (host : Host) (caller : Caller) (w : World)
    (hnone : ∀ key, ¬Managed w key) (calls : List SessionCall)
    (hregular : Runs.Throughout (SessionCall.run qt host caller)
      (SessionCall.Regular caller) (w, ∅) calls) :
    let s := calls.foldl (SessionCall.run qt host caller) (w, ∅)
    ∀ reads inventory, ∀ unit ∈ enumerateOwnedUnits s.1 caller.uid, unit.state.owned = true ∧
      ∃ row ∈ computeRefresh host caller.uid s.1 reads s.2 inventory,
        row.id = unitId unit ∧ row.mountPoint = unit.mountPoint ∧ row.storeCorrupt = false ∧
          row.drift = false ∧ row.hasStoreRecord = recorded s.2 unit ∧
          (row.removal.ofDefinition = true ↔ passesUnder s.1 reads unit = true) := by
  intro s reads inventory unit hunit
  have hsettled : Settled host caller s := settled_runs hnone hregular
  obtain ⟨hagrees, -⟩ := hsettled.entry hunit
  obtain ⟨key, half, hscan, hbase, hmarker, hwhere⟩ := hsettled.orderly.half_of_entry hunit
  have hid : unit.id = some half.marker.id := by rw [OwnedUnit.id, hmarker, Option.map_some]
  have howned := owned_of_id hunit hid
  have hrow : OfUnit s.1 reads s.2 unit (reportedRow inventory (recordedRow s.1 reads s.2 unit)) :=
    ofUnit_reportedRow hunit
  obtain ⟨hcorrupt, hdrift⟩ := Bool.or_eq_false_iff.1 (hrow.flags.trans hagrees)
  refine ⟨howned, (reportedRow inventory (recordedRow s.1 reads s.2 unit)).finished, ?_,
    hrow.same.id, hrow.same.mountPoint, hcorrupt, hdrift, hrow.hasStoreRecord, ?_⟩
  · rw [refresh_rows]
    apply List.mem_map_of_mem
    apply List.mem_append_left
    apply List.mem_map_of_mem
    exact List.mem_append_left _ (List.mem_map_of_mem hunit)
  · have hfiles : (reportedRow inventory (recordedRow s.1 reads s.2 unit)).hasUnitFiles = true :=
      hrow.same.hasUnitFiles
    rw [finished_ofDefinition, hrow.canRemove, hfiles, howned, hagrees]
    simp

section Sample

/-- An Add, and a removal of its record that is cut off. -/
def sampleSession : List SessionCall :=
  [.add (fun n => (0, n.toUInt64)) sampleTrees (sampleAdd (qs "readonly")) Prog.allOk,
    .removeRecord (candidateId (0, 7)).text fun _ => .killed]

theorem sampleSession_regular :
    Runs.Throughout (SessionCall.run ShareAddress.sampleQt sampleHost sampleCaller)
      (SessionCall.Regular sampleCaller) (World.blank, ∅) sampleSession := by
  refine ⟨fun n => ?_, trivial, trivial⟩
  simp [Store.snapshotById]

theorem sampleSession_listed :
    (enumerateOwnedUnits (sampleSession.foldl
      (SessionCall.run ShareAddress.sampleQt sampleHost sampleCaller) (World.blank, ∅)).1 1000).map
        OwnedUnit.mountPoint = [qs "/home/ann/nas"] := by
  decide +kernel

theorem session_list_agrees_sample :
    let s := sampleSession.foldl (SessionCall.run ShareAddress.sampleQt sampleHost sampleCaller)
      (World.blank, ∅)
    ∀ reads inventory, ∃ row ∈ computeRefresh sampleHost 1000 s.1 reads s.2 inventory,
      row.mountPoint = qs "/home/ann/nas" ∧ row.storeCorrupt = false ∧ row.drift = false := by
  intro s reads inventory
  obtain ⟨unit, hunits, hmount⟩ := List.map_eq_singleton_iff.1 sampleSession_listed
  have hunit : unit ∈ enumerateOwnedUnits s.1 1000 := by
    rw [hunits]
    exact List.mem_singleton_self unit
  obtain ⟨-, row, hrow, -, hplace, hcorrupt, hdrift, -⟩ := session_list_agrees ShareAddress.sampleQt
    sampleHost sampleCaller World.blank unmanaged_blank sampleSession
    sampleSession_regular reads inventory unit hunit
  exact ⟨row, hrow, hplace.trans hmount, hcorrupt, hdrift⟩

end Sample
end NasMount.Session
