import NasMount.Core.Runtime

/-!
# Checked root file operations

The durable file primitives, the credential store, the instance-id records and
the systemd commands, as programs that can fail or be killed at each of their
primitives. Error texts are the program's own, without the part the operating
system supplies.
-/
namespace NasMount.Root

open NasMount.Foundation NasMount.Core QString

/-- The primitives of an operation inside one private root. -/
inductive DirSite
  | openRoot
  | openDir
  | entry
  deriving DecidableEq

/-- `openSystemRoot`: it fails, or leaves everything as it is. -/
def openSystemRoot {ι : Type} (site : ι) (path : QString) : Prog ι World QString PUnit :=
  Prog.act site (qs "cannot open " ++ path ++ qs ": ") id

/-- Why `verifyDescriptor` refuses a directory. -/
def directoryError (dir : Directory) (kind : ArtifactKind) : QString :=
  if !dir.isDirectory then qs "not a directory"
  else if dir.uid ≠ 0 then qs "owned by uid " ++ number dir.uid.toNat ++ qs ", expected 0"
  else qs "mode is " ++ octal dir.mode ++ qs ", expected " ++ octal (modeFor kind)

/-- Why `verifyDescriptor` refuses a regular file. -/
def fileError (node : FileNode) (kind : ArtifactKind) : QString :=
  if node.kind ≠ .regular then qs "not a regular file"
  else if node.uid ≠ 0 then qs "owned by uid " ++ number node.uid.toNat ++ qs ", expected 0"
  else qs "mode is " ++ octal node.mode ++ qs ", expected " ++ octal (modeFor kind)

/-- Open a private root, creating it as needed: `openSystemRoot` of its parent
and `createAndVerifyDir`. -/
def openPrivateRoot (root : PrivateRoot) : Prog DirSite World QString PUnit := do
  openSystemRoot .openRoot root.parent
  Prog.act .openDir (qs "cannot create " ++ root.name ++ qs ": ") fun w => w.ensureRoot root
  let dir ← Prog.look fun w => w.root? root
  match dir with
  | some dir =>
    if dir.verified root.kind then pure ⟨⟩
    else Prog.raise (root.name ++ qs ": " ++ directoryError dir root.kind)
  | none => Prog.raise (qs "cannot open just-created " ++ root.name)

/-- `durableReplace` of one entry. -/
def durableReplace (root : PrivateRoot) (name content : QString) :
    Prog DirSite World QString PUnit :=
  Prog.act .entry (qs "cannot install " ++ name ++ qs ": ") fun w => w.putFile root name content

/-- `durableUnlink` of one entry, which may be missing. -/
def durableUnlink (root : PrivateRoot) (name : QString) : Prog DirSite World QString PUnit :=
  Prog.act .entry (qs "cannot remove " ++ name ++ qs ": ") fun w => w.dropFile root name

namespace CredentialStore

def fileNameFor (id : ShareId) : QString := id.text ++ qs ".cred"

theorem fileNameFor_injective {a b : ShareId} (h : fileNameFor a = fileNameFor b) : a = b :=
  ShareId.ext_text (List.append_cancel_right h)

def maxCredentialFieldBytes : ℕ := 4096

def maxCredentialFileBytes : ℕ := 3 * maxCredentialFieldBytes + 256

def validateFields (username domain password : QString) : Except QString Unit :=
  if hasControlChars username || hasControlChars domain || hasControlChars password then
    .error (qs "credential fields contain control characters")
  else if utf8Size username > maxCredentialFieldBytes ||
      utf8Size domain > maxCredentialFieldBytes ||
      utf8Size password > maxCredentialFieldBytes then
    .error (qs "a credential field exceeds " ++ number maxCredentialFieldBytes ++ qs " bytes")
  else if username ≠ [] ∧ password = [] then
    .error (qs "a password is required when a username is given")
  else .ok ()

/-- The credential file: no line for an empty password or domain. -/
def credentialContent (username domain password : QString) : QString :=
  unlines <| [qs "username=" ++ username] ++
    (if password = [] then [] else [qs "password=" ++ password]) ++
    (if domain = [] then [] else [qs "domain=" ++ domain])

def validateSize (content : QString) : Except QString Unit :=
  if utf8Size content > maxCredentialFileBytes then
    .error (qs "credential file exceeds " ++ number maxCredentialFileBytes ++ qs " bytes")
  else .ok ()

def write (id : ShareId) (username domain password : QString) :
    Prog DirSite World QString PUnit := do
  Prog.ofExcept (validateFields username domain password)
  Prog.ofExcept (validateSize (credentialContent username domain password))
  openPrivateRoot .credentials
  durableReplace .credentials (fileNameFor id) (credentialContent username domain password)

def remove (id : ShareId) : Prog DirSite World QString PUnit := do
  openPrivateRoot .credentials
  durableUnlink .credentials (fileNameFor id)

/-- The credential exists as a private regular file of root. -/
def healthy (id : ShareId) : Prog DirSite World QString PUnit := do
  openPrivateRoot .credentials
  Prog.act .entry (qs "cannot open credential file: ") fun w => w
  let node ← Prog.look fun w => w.file? .credentials (fileNameFor id)
  match node with
  | none => Prog.raise (qs "credential file is missing")
  | some node =>
    if node.kind = .symlink then Prog.raise (qs "cannot open credential file: ")
    else if node.verified .sensitiveFile then pure ⟨⟩
    else Prog.raise (fileError node .sensitiveFile)

/-- No credential exists. The error is empty when one does. -/
def assertAbsent (id : ShareId) : Prog DirSite World QString PUnit := do
  openPrivateRoot .credentials
  Prog.act .entry [] fun w => w
  let node ← Prog.look fun w => w.file? .credentials (fileNameFor id)
  match node with
  | none => pure ⟨⟩
  | some _ => Prog.raise []

end CredentialStore

namespace RuntimeFiles

def writeAutomountId (base : UnitName) (id : UInt64) : Prog DirSite World QString PUnit := do
  openPrivateRoot .automountIds
  durableReplace .automountIds base.text (number id.toNat)

def removeAutomountId (base : UnitName) : Prog DirSite World QString PUnit := do
  openPrivateRoot .automountIds
  durableUnlink .automountIds base.text

end RuntimeFiles

namespace SystemdOps

variable {ι : Type}

def daemonReload (site : ι) : Prog ι World QString PUnit :=
  Prog.act site (qs "daemon-reload failed: ") World.reload

def start (host : Host) (site : ι) (key : UnitKey) : Prog ι World QString PUnit :=
  Prog.act site (qs "failed to start " ++ key.fileName ++ qs ": ")
    fun w => { w with sys := host.start key w.sys }

def stop (host : Host) (site : ι) (key : UnitKey) : Prog ι World QString PUnit :=
  Prog.act site (qs "failed to stop " ++ key.fileName ++ qs ": ")
    fun w => { w with sys := host.stop key w.sys }

end SystemdOps

section Units

variable {ι : Type}

def openUnitsDir (site : ι) : Prog ι World QString PUnit :=
  openSystemRoot site (qs "/etc/systemd/system")

def writeUnitFile (site : ι) (key : UnitKey) (content : QString) : Prog ι World QString PUnit :=
  Prog.act site (qs "cannot install " ++ key.fileName ++ qs ": ") fun w => w.putUnit key content

/-- Removing a unit file that is already gone succeeds. -/
def removeUnitFile (site : ι) (key : UnitKey) : Prog ι World QString PUnit :=
  Prog.act site (qs "cannot remove " ++ key.fileName ++ qs ": ") fun w => w.dropUnit key

/-- Both halves, the mount first; the automount only once the mount is gone. -/
def unlinkHalves (site : Half → ι) (base : UnitName) : Prog ι World QString PUnit := do
  removeUnitFile (site .mount) base.mount
  removeUnitFile (site .automount) base.automount

def maxUnitBytes : ℕ := 65536

/-- `readUnitFile` finds a file: exactly the mode of a unit, and not too large. -/
def unitFileReadable (w : World) (key : UnitKey) : Bool :=
  (w.unit? key).any fun node =>
    node.verified .unitFile && utf8Size node.content ≤ maxUnitBytes

end Units

section Rules

/-- The root exists and passes its check. -/
def Usable (root : PrivateRoot) (w : World) : Prop :=
  ∃ dir, w.root? root = some dir ∧ dir.verified root.kind = true

/-- Opening the root passes its check, be it after creating the root. -/
def Ready (root : PrivateRoot) (w : World) : Prop :=
  ∀ dir, w.root? root = some dir → dir.verified root.kind = true

/-- The credential is there, as a private regular file of root. -/
def HasCredential (id : ShareId) (w : World) : Prop :=
  ∃ node, w.file? .credentials (CredentialStore.fileNameFor id) = some node ∧
    node.verified .sensitiveFile = true

theorem ready_iff {root : PrivateRoot} {w : World} :
    Ready root w ↔ (w.root? root).all (·.verified root.kind) = true := by
  rw [Ready, Option.all_eq_true]

/-- Nothing changed, except that an empty private root may have been created. -/
structure Quiet (w w' : World) : Prop where
  units : w'.units = w.units
  dropIns : w'.dropIns = w.dropIns
  loaded : w'.loaded = w.loaded
  sys : w'.sys = w.sys
  files : ∀ root name, w'.file? root name = w.file? root name
  usable : ∀ root, Usable root w → Usable root w'
  ready : ∀ root, Ready root w → Ready root w'

theorem Quiet.refl (w : World) : Quiet w w :=
  ⟨rfl, rfl, rfl, rfl, fun _ _ => rfl, fun _ h => h, fun _ h => h⟩

theorem Quiet.trans {w w' w'' : World} (h : Quiet w w') (h' : Quiet w' w'') : Quiet w w'' where
  units := h'.units.trans h.units
  dropIns := h'.dropIns.trans h.dropIns
  loaded := h'.loaded.trans h.loaded
  sys := h'.sys.trans h.sys
  files root name := (h'.files root name).trans (h.files root name)
  usable root hu := h'.usable root (h.usable root hu)
  ready root hr := h'.ready root (h.ready root hr)

theorem Quiet.unit? {w w' : World} (h : Quiet w w') (key : UnitKey) :
    w'.unit? key = w.unit? key := by
  rw [World.unit?, World.unit?, h.units]

theorem verified_new (root : PrivateRoot) :
    ({ mode := modeFor root.kind } : Directory).verified root.kind = true := by
  simp [Directory.verified]

theorem root?_ensureRoot_cases (w : World) (root other : PrivateRoot) :
    (w.ensureRoot root).root? other = w.root? other ∨
      other = root ∧ w.root? root = none ∧
        (w.ensureRoot root).root? other = some { mode := modeFor root.kind } := by
  unfold World.ensureRoot
  split
  · exact Or.inl rfl
  · rename_i hnone
    by_cases h : other = root
    · subst h
      exact Or.inr ⟨rfl, hnone, World.root?_setRoot_self _ _ _⟩
    · exact Or.inl (World.root?_setRoot_ne _ _ h _)

theorem Usable.ready {root : PrivateRoot} {w : World} (h : Usable root w) : Ready root w := by
  obtain ⟨dir, hdir, hverified⟩ := h
  intro dir' hdir'
  rw [hdir, Option.some.injEq] at hdir'
  exact hdir' ▸ hverified

theorem quiet_ensureRoot (w : World) (root : PrivateRoot) : Quiet w (w.ensureRoot root) where
  units := World.units_ensureRoot _ _
  dropIns := World.dropIns_ensureRoot _ _
  loaded := World.loaded_ensureRoot _ _
  sys := World.sys_ensureRoot _ _
  files other name := World.file?_ensureRoot _ _ _ _
  usable other := by
    rintro ⟨dir, hdir, hverified⟩
    rcases root?_ensureRoot_cases w root other with h | ⟨rfl, hnone, -⟩
    · exact ⟨dir, h.trans hdir, hverified⟩
    · rw [hnone] at hdir
      cases hdir
  ready other hready dir hdir := by
    rcases root?_ensureRoot_cases w root other with h | ⟨rfl, -, h⟩
    · exact hready dir (h ▸ hdir)
    · rw [h, Option.some.injEq] at hdir
      exact hdir ▸ verified_new _

/-- Creating a missing root makes it usable. -/
theorem Ready.usable_ensureRoot {root : PrivateRoot} {w : World} (h : Ready root w) :
    Usable root (w.ensureRoot root) := by
  obtain ⟨dir, hdir⟩ := w.root?_ensureRoot_self root
  exact ⟨dir, hdir, (quiet_ensureRoot w root).ready root h dir hdir⟩

theorem root?_updateFiles (w : World) (root other : PrivateRoot) (f : Files → Files) :
    (w.updateFiles root f).root? other = w.root? other ∨
      ∃ dir, w.root? other = some dir ∧
        (w.updateFiles root f).root? other = some { dir with files := f dir.files } := by
  unfold World.updateFiles
  split
  · rename_i dir hdir
    by_cases h : other = root
    · subst h
      exact Or.inr ⟨dir, hdir, World.root?_setRoot_self _ _ _⟩
    · exact Or.inl (World.root?_setRoot_ne _ _ h _)
  · exact Or.inl rfl

/-- Changing entries does not change how a root was made. -/
theorem usable_updateFiles {w : World} {root other : PrivateRoot} {f : Files → Files}
    (h : Usable other w) : Usable other (w.updateFiles root f) := by
  obtain ⟨dir, hdir, hverified⟩ := h
  rcases root?_updateFiles w root other f with hsame | ⟨dir', hdir', hnew⟩
  · exact ⟨dir, hsame.trans hdir, hverified⟩
  · rw [hdir, Option.some.injEq] at hdir'
    exact ⟨_, hnew, hdir' ▸ hverified⟩

theorem ready_updateFiles {w : World} {root other : PrivateRoot} {f : Files → Files}
    (h : Ready other w) : Ready other (w.updateFiles root f) := by
  intro dir hdir
  rcases root?_updateFiles w root other f with hsame | ⟨dir', hdir', hnew⟩
  · exact h dir (hsame ▸ hdir)
  · rw [hnew, Option.some.injEq] at hdir
    exact hdir ▸ h dir' hdir'

variable {o : DirSite → Outcome} {Q : PUnit → World → Prop} {E : QString → World → Prop}
  {C : World → Prop} {w : World} {root : PrivateRoot}

theorem wp_openPrivateRoot (done : ∀ w', Quiet w w' → Usable root w' → Q ⟨⟩ w')
    (failed : ∀ e w', Quiet w w' → E e w') (dead : ∀ w', Quiet w w' → C w') :
    Prog.wp o (openPrivateRoot root) Q E C w := by
  have hsame := Quiet.refl w
  have hopen := quiet_ensureRoot w root
  unfold openPrivateRoot openSystemRoot
  rw [Prog.wp_bind]
  refine Prog.wp_act_intro ?_ (failed _ _ hsame) (failed _ _ hsame) (dead _ hsame)
  rw [Prog.wp_bind]
  refine Prog.wp_act_intro ?_ (failed _ _ hsame) (failed _ _ hopen) (dead _ hsame)
  rw [Prog.wp_bind, Prog.wp_look]
  obtain ⟨dir, hdir⟩ := w.root?_ensureRoot_self root
  simp only [id, hdir]
  split_ifs with hverified
  · exact done _ hopen ⟨dir, hdir, hverified⟩
  · exact failed _ _ hopen

/-- An operation that opens a private root and changes one entry of it. -/
theorem wp_openPrivateRoot_act {e : QString} {f : World → World}
    (done : ∀ w', Quiet w w' → Usable root w' → Q ⟨⟩ (f w'))
    (failed : ∀ e w', Quiet w w' → E e w')
    (late : ∀ e w', Quiet w w' → Usable root w' → E e (f w')) (dead : ∀ w', Quiet w w' → C w') :
    Prog.wp o (do openPrivateRoot root; Prog.act .entry e f) Q E C w := by
  rw [Prog.wp_bind]
  refine wp_openPrivateRoot (fun w' hquiet husable => ?_) failed dead
  exact Prog.wp_act_intro (done w' hquiet husable) (failed _ _ hquiet) (late _ _ hquiet husable)
    (dead _ hquiet)

/-- A ready root opens when every primitive succeeds. -/
theorem wp_openPrivateRoot_allOk (hready : Ready root w) :
    Prog.wp Prog.allOk (openPrivateRoot root) Q E C w ↔ Q ⟨⟩ (w.ensureRoot root) := by
  obtain ⟨dir, hdir, hverified⟩ := hready.usable_ensureRoot
  unfold openPrivateRoot openSystemRoot
  simp only [Prog.wp_bind, Prog.wp_act_allOk, Prog.wp_look, id, hdir, hverified, if_true,
    Prog.wp_pure]

theorem ready_of_ensureRoot {root : PrivateRoot} {dir : Directory}
    (hdir : (w.ensureRoot root).root? root = some dir) (hverified : dir.verified root.kind = true) :
    Ready root w := by
  intro dir' hdir'
  rcases root?_ensureRoot_cases w root root with hsame | ⟨-, hnone, -⟩
  · rw [← hsame, hdir, Option.some.injEq] at hdir'
    exact hdir' ▸ hverified
  · rw [hnone] at hdir'
    cases hdir'

/-- A root that does not pass its check is not opened. -/
theorem wp_openPrivateRoot_refused (hready : ¬Ready root w)
    (failed : ∀ e w', Quiet w w' → E e w') :
    Prog.wp Prog.allOk (openPrivateRoot root) Q E C w := by
  obtain ⟨dir, hdir⟩ := w.root?_ensureRoot_self root
  unfold openPrivateRoot openSystemRoot
  simp only [Prog.wp_bind, Prog.wp_act_allOk, Prog.wp_look, id, hdir]
  split_ifs with hverified
  · exact absurd (ready_of_ensureRoot hdir hverified) hready
  · exact failed _ _ (quiet_ensureRoot w root)

theorem wp_openPrivateRoot_act_allOk {e : QString} {f : World → World} (hready : Ready root w) :
    Prog.wp Prog.allOk (do openPrivateRoot root; Prog.act .entry e f) Q E C w ↔
      Q ⟨⟩ (f (w.ensureRoot root)) := by
  rw [Prog.wp_bind, wp_openPrivateRoot_allOk hready, Prog.wp_act_allOk]

/-- An operation whose effect takes place, be it reported or not. -/
theorem wp_openPrivateRoot_act_effective {o : DirSite → Outcome} {root : PrivateRoot} {e : QString}
    {f : World → World} {Q : PUnit → World → Prop} {E : QString → World → Prop} {C : World → Prop}
    (hready : Ready root w) (hopen : o .openRoot = .ok) (hdir : o .openDir = .ok)
    (hentry : (o .entry).effective = true) (done : Q ⟨⟩ (f (w.ensureRoot root)))
    (late : E e (f (w.ensureRoot root))) :
    Prog.wp o (do openPrivateRoot root; Prog.act .entry e f) Q E C w := by
  obtain ⟨dir, hlook, hverified⟩ := hready.usable_ensureRoot
  unfold openPrivateRoot openSystemRoot
  simp only [Prog.wp_bind, Prog.wp_act, Prog.wp_look, hopen, hdir, id, hlook, hverified, if_true,
    Prog.wp_pure]
  cases houtcome : o .entry with
  | ok => exact done
  | failed applied =>
    rw [houtcome] at hentry
    obtain rfl : applied = true := hentry
    exact late
  | killed =>
    rw [houtcome] at hentry
    cases hentry

/-- Every primitive of an operation on one entry succeeds. -/
def entrySucceeds (o : DirSite → Outcome) : Bool :=
  o .openRoot = .ok && o .openDir = .ok && o .entry = .ok

/-- An operation on one entry of a ready root, under a known schedule. -/
theorem wp_openPrivateRoot_act_ready {e : QString} {f : World → World} (hready : Ready root w)
    (done : entrySucceeds o = true → ∀ w', Quiet w w' → Usable root w' → Q ⟨⟩ (f w'))
    (failed : entrySucceeds o = false → ∀ e w', Quiet w w' → E e w')
    (late : entrySucceeds o = false → ∀ e w', Quiet w w' → Usable root w' → E e (f w'))
    (dead : entrySucceeds o = false → ∀ w', Quiet w w' → C w') :
    Prog.wp o (do openPrivateRoot root; Prog.act .entry e f) Q E C w := by
  have hsame := Quiet.refl w
  have hopen := quiet_ensureRoot w root
  have husable := hready.usable_ensureRoot
  have hfails : ∀ site, o site ≠ .ok → entrySucceeds o = false := by
    intro site hsite
    cases site <;> simp [entrySucceeds, hsite]
  unfold openPrivateRoot openSystemRoot
  simp only [Prog.wp_bind, Prog.wp_act, Prog.wp_look]
  cases hroot : o .openRoot with
  | killed => exact dead (hfails .openRoot (by simp [hroot])) _ hsame
  | failed applied =>
    cases applied <;> exact failed (hfails .openRoot (by simp [hroot])) _ _ hsame
  | ok =>
    cases hdir : o .openDir with
    | killed => exact dead (hfails .openDir (by simp [hdir])) _ hsame
    | failed applied =>
      cases applied
      · exact failed (hfails .openDir (by simp [hdir])) _ _ hsame
      · exact failed (hfails .openDir (by simp [hdir])) _ _ hopen
    | ok =>
      obtain ⟨dir, hlook, hverified⟩ := husable
      have husable : Usable root (w.ensureRoot root) := ⟨dir, hlook, hverified⟩
      simp only [id, hlook, hverified, if_true, Prog.wp_pure]
      cases hentry : o .entry with
      | killed => exact dead (hfails .entry (by simp [hentry])) _ hopen
      | failed applied =>
        cases applied
        · exact failed (hfails .entry (by simp [hentry])) _ _ hopen
        · exact late (hfails .entry (by simp [hentry])) _ _ hopen husable
      | ok => exact done (by simp [entrySucceeds, hroot, hdir, hentry]) _ hopen husable

/-- An invariant of operations on private roots. -/
theorem keeps_openPrivateRoot_act {I : World → Prop} {e : QString} {f : World → World}
    (hquiet : ∀ s s', Quiet s s' → I s → I s') (hf : ∀ s, I s → I (f s)) :
    Prog.Keeps I
      (do openPrivateRoot root; Prog.act .entry e f : Prog DirSite World QString PUnit) :=
  fun _ s hs => wp_openPrivateRoot_act (fun s' h _ => hf s' (hquiet s s' h hs))
    (fun _ s' h => hquiet s s' h hs) (fun _ s' h _ => hf s' (hquiet s s' h hs))
    fun s' h => hquiet s s' h hs

theorem wp_credentialWrite {id : ShareId} {username domain password : QString}
    (done : ∀ w', Quiet w w' → Usable .credentials w' →
      Q ⟨⟩ (w'.putFile .credentials (CredentialStore.fileNameFor id)
        (CredentialStore.credentialContent username domain password)))
    (failed : ∀ e w', Quiet w w' → E e w')
    (late : ∀ e w', Quiet w w' → Usable .credentials w' →
      E e (w'.putFile .credentials (CredentialStore.fileNameFor id)
        (CredentialStore.credentialContent username domain password)))
    (dead : ∀ w', Quiet w w' → C w') :
    Prog.wp o (CredentialStore.write id username domain password) Q E C w := by
  unfold CredentialStore.write
  rw [Prog.wp_bind, Prog.wp_ofExcept]
  refine ⟨fun _ _ => ?_, fun e _ => failed e w (Quiet.refl w)⟩
  rw [Prog.wp_bind, Prog.wp_ofExcept]
  refine ⟨fun _ _ => ?_, fun e _ => failed e w (Quiet.refl w)⟩
  exact wp_openPrivateRoot_act done failed late dead

/-- A look at one entry of a private root. -/
theorem wp_credentialHealthy {id : ShareId}
    (done : ∀ w', Quiet w w' → (w'.file? .credentials (CredentialStore.fileNameFor id)).isSome →
      Q ⟨⟩ w')
    (failed : ∀ e w', Quiet w w' → E e w') (dead : ∀ w', Quiet w w' → C w') :
    Prog.wp o (CredentialStore.healthy id) Q E C w := by
  unfold CredentialStore.healthy
  rw [Prog.wp_bind]
  refine wp_openPrivateRoot (fun w' hquiet _ => ?_) failed dead
  rw [Prog.wp_bind]
  refine Prog.wp_act_intro ?_ (failed _ _ hquiet) (failed _ _ hquiet) (dead _ hquiet)
  rw [Prog.wp_bind, Prog.wp_look]
  cases hnode : w'.file? .credentials (CredentialStore.fileNameFor id) with
  | none => exact failed _ _ hquiet
  | some node =>
    dsimp only
    split_ifs
    · exact failed _ _ hquiet
    · exact done _ hquiet (by rw [hnode]; rfl)
    · exact failed _ _ hquiet

/-- The check succeeds exactly when its primitives do, the directory is sound and
the credential is there. -/
theorem wp_credentialHealthy_exact {id : ShareId} :
    Prog.wp o (CredentialStore.healthy id)
      (fun _ t => t = w.ensureRoot .credentials ∧
        entrySucceeds o = true ∧ Ready .credentials w ∧ HasCredential id w)
      (fun _ t => (t = w ∨ t = w.ensureRoot .credentials) ∧
        ¬(entrySucceeds o = true ∧ Ready .credentials w ∧ HasCredential id w))
      (fun t => t = w ∨ t = w.ensureRoot .credentials) w := by
  have hfails : ∀ site, o site ≠ .ok →
      ¬(entrySucceeds o = true ∧ Ready .credentials w ∧ HasCredential id w) := by
    rintro site hsite ⟨hall, -⟩
    cases site <;> simp [entrySucceeds, hsite] at hall
  unfold CredentialStore.healthy openPrivateRoot openSystemRoot
  simp only [Prog.wp_bind, Prog.wp_act, Prog.wp_look]
  cases hroot : o .openRoot with
  | killed => exact Or.inl trivial
  | failed applied =>
    cases applied <;> exact ⟨Or.inl rfl, hfails .openRoot (by simp [hroot])⟩
  | ok =>
    cases hopen : o .openDir with
    | killed => exact Or.inl rfl
    | failed applied =>
      cases applied
      · exact ⟨Or.inl rfl, hfails .openDir (by simp [hopen])⟩
      · exact ⟨Or.inr rfl, hfails .openDir (by simp [hopen])⟩
    | ok =>
      obtain ⟨dir, hdir⟩ := w.root?_ensureRoot_self .credentials
      simp only [id_eq, hdir]
      split_ifs with hverified
      · have hready := ready_of_ensureRoot hdir hverified
        simp only [Prog.wp_pure]
        cases hentry : o .entry with
        | killed => exact Or.inr trivial
        | failed applied =>
          cases applied <;> exact ⟨Or.inr rfl, hfails .entry (by simp [hentry])⟩
        | ok =>
          have hall : entrySucceeds o = true := by simp [entrySucceeds, hroot, hopen, hentry]
          have hhas : HasCredential id w ↔
              ∃ node, w.file? .credentials (CredentialStore.fileNameFor id) = some node ∧
                node.verified .sensitiveFile = true := Iff.rfl
          dsimp only
          rw [World.file?_ensureRoot]
          cases hnode : w.file? .credentials (CredentialStore.fileNameFor id) with
          | none => exact ⟨Or.inr rfl, by simp [hhas, hnode]⟩
          | some node =>
            have hsound : HasCredential id w ↔ node.verified .sensitiveFile = true := by
              simp [hhas, hnode]
            dsimp only
            split_ifs with hlink hregular
            · refine ⟨Or.inr rfl, fun hbad => ?_⟩
              have hfile := hsound.1 hbad.2.2
              simp [FileNode.verified, hlink] at hfile
            · exact ⟨rfl, hall, hready, hsound.2 hregular⟩
            · exact ⟨Or.inr rfl, fun hbad => hregular (hsound.1 hbad.2.2)⟩
      · refine ⟨Or.inr rfl, fun hbad => hverified ?_⟩
        exact (quiet_ensureRoot w .credentials).ready .credentials hbad.2.1 dir hdir

theorem wp_credentialAssertAbsent {id : ShareId}
    (done : ∀ w', Quiet w w' → Usable .credentials w' →
      w'.file? .credentials (CredentialStore.fileNameFor id) = none → Q ⟨⟩ w')
    (failed : ∀ e w', Quiet w w' → E e w') (dead : ∀ w', Quiet w w' → C w') :
    Prog.wp o (CredentialStore.assertAbsent id) Q E C w := by
  unfold CredentialStore.assertAbsent
  rw [Prog.wp_bind]
  refine wp_openPrivateRoot (fun w' hquiet husable => ?_) failed dead
  rw [Prog.wp_bind]
  refine Prog.wp_act_intro ?_ (failed _ _ hquiet) (failed _ _ hquiet) (dead _ hquiet)
  rw [Prog.wp_bind, Prog.wp_look]
  cases hnode : w'.file? .credentials (CredentialStore.fileNameFor id) with
  | none => exact done _ hquiet husable hnode
  | some node => exact failed _ _ hquiet

end Rules

end NasMount.Root
