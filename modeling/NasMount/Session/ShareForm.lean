import NasMount.Foundation.Reactive
import NasMount.Session.ShareAddress

/-!
# The Add form and the login it imports

The form of the settings module, with the host that looks a login up for it. The
password carries where it came from, which the program itself does not keep: the
form has only its flags and a key to decide what may stay.
-/
namespace NasMount.Session

open NasMount.Foundation NasMount.Core QString ShareAddress

/-- The text of the Password field, and the Share text of the lookup that put it
there, if no one has edited it since. -/
structure Password where
  text : QString := []
  origin : Option QString := none
  deriving DecidableEq

/-- The fields of the form and what it remembers about them. -/
structure ShareForm where
  share : QString := []
  mountPoint : QString := []
  username : QString := []
  password : Password := {}
  domain : QString := []
  accessMode : AccessMode := .readWrite
  urlFilledUsername : QString := []
  credentialsSealed : Bool := false
  mountBrowseError : QString := []
  shareBrowseError : QString := []
  lookupShare : QString := []
  importedTarget : QString := []
  importedPassword : Bool := false
  importedIdentity : Bool := false

/-- What `submit` hands to `addShare`. -/
structure Submission where
  unc : QString
  mountPoint : QString
  username : QString
  domain : QString
  password : Password
  access : AccessMode
  deriving DecidableEq

namespace ShareForm

variable (qt : Qt) (f : ShareForm)

/-- An assignment to Username: a guest has neither password nor domain. -/
def setUsername (text : QString) : ShareForm :=
  if text = f.username then f
  else if text = [] then { f with username := [], password := {}, domain := [] }
  else { f with username := text }

def withdrawImportedCredential : ShareForm :=
  if f.importedTarget = [] ∨ lookupTargetOf qt f.share = f.importedTarget then f
  else
    let dropPassword := f.importedPassword
    let dropIdentity := f.importedIdentity && f.importedPassword
    let cleared :=
      { f with importedTarget := [], importedPassword := false, importedIdentity := false }
    let withoutPassword := if dropPassword then { cleared with password := {} } else cleared
    if dropIdentity then { withoutPassword.setUsername [] with domain := [] } else withoutPassword

/-- An assignment to Share: the handler of a changed text. -/
def setShare (text : QString) : ShareForm :=
  if text = f.share then f else { f with share := text }.withdrawImportedCredential qt

def fillUsernameFromAddress (user : QString) : ShareForm :=
  if user ≠ [] ∧ (f.username = [] ∨ f.username = f.urlFilledUsername) then
    { f.setUsername user with urlFilledUsername := user }
  else f

/-- The handler of an edited Share text. -/
def shareEdited (text : QString) : ShareForm :=
  { f with shareBrowseError := [] }.fillUsernameFromAddress (userInShareInput qt text)

/-- The user types a Share text. Either handler may come first. -/
def editShare (text : QString) (editedFirst : Bool) : ShareForm :=
  if editedFirst then
    ({ f with share := text }.shareEdited qt text).withdrawImportedCredential qt
  else ({ f with share := text }.withdrawImportedCredential qt).shareEdited qt text

def editMountPoint (text : QString) : ShareForm :=
  { f with mountPoint := text, mountBrowseError := [] }

def editUsername (text : QString) : ShareForm :=
  { f.setUsername text with credentialsSealed := true, importedIdentity := false }

def editPassword (text : QString) : ShareForm :=
  { f with password := { text := text }, credentialsSealed := true, importedPassword := false }

def editDomain (text : QString) : ShareForm :=
  { f with domain := text, credentialsSealed := true, importedIdentity := false }

/-- The folder dialog of the mount point; an empty path is no local folder. -/
def applyBrowsedMountPoint (path : QString) : ShareForm :=
  if path = [] then { f with mountBrowseError := qs "Choose a local folder" }
  else { f with mountPoint := path, mountBrowseError := [] }

/-- Applies the whole suggestion or nothing of it. `origin` is the Share text of
the lookup that found it. -/
def applyCredentialSuggestion (username domain password origin : QString) : ShareForm :=
  if f.credentialsSealed ∨ username = [] ∨ f.lookupShare = [] ∨ f.share ≠ f.lookupShare then f
  else
    { f.setUsername username with
      domain := domain, password := { text := password, origin := some origin }
      importedTarget := lookupTargetOf qt f.share, importedPassword := true,
      importedIdentity := true }

/-- The form is pristine again; Share is assigned before anything is forgotten. -/
def reset : ShareForm :=
  let withShare := f.setShare qt smbPrefix
  { withShare with
    urlFilledUsername := [], mountBrowseError := [], shareBrowseError := [], lookupShare := []
    importedTarget := [], importedPassword := false, importedIdentity := false, mountPoint := []
    username := [], domain := [], password := {}, accessMode := .readWrite
    credentialsSealed := false }

def submission : Submission where
  unc := f.share
  mountPoint := f.mountPoint
  username := f.username
  domain := f.domain
  password := f.password
  access := f.accessMode

end ShareForm

/-- The lookup a host is running: what it was asked, and about which target. -/
structure HostLookup where
  shareInput : QString
  target : Url
  username : QString
  deriving DecidableEq

/-- `startCredentialLookup`: the previous lookup is gone in any case. -/
def startCredentialLookup (qt : Qt) (shareInput urlUser : QString) : Option HostLookup :=
  match resolveShareInput qt shareInput urlUser with
  | .error _ => none
  | .ok unc =>
    let target := authLookupTarget qt unc
    if target.valid then some { shareInput := shareInput, target := target, username := urlUser }
    else none

/-- The Add dialog: its form, and the lookup of its host. -/
structure AddDialog where
  form : ShareForm := {}
  lookup : Option HostLookup := none

/-- A folder picked in a dialog; a host name holds no `@` and no slash. -/
structure PickedUrl where
  url : Url
  plain_host : ∀ c ∈ url.host, c ≠ '@' ∧ c ≠ '/'

inductive FormEvent
  | editShare (text : QString) (editedFirst : Bool)
  | editMountPoint (text : QString)
  | editUsername (text : QString)
  | editPassword (text : QString)
  | editDomain (text : QString)
  | chooseAccess (mode : AccessMode)
  | browseShare (picked : PickedUrl)
  | browseMountPoint (path : QString)
  /-- The running lookup finds a login. -/
  | suggestion (username domain password : QString)
  | cancelLookup
  | reset
  | submit

namespace AddDialog

variable (qt : Qt) (d : AddDialog)

/-- Asks the host for a login for the Share as it stands. -/
def requestCredentialLookup (user : QString) : AddDialog :=
  if d.form.credentialsSealed ∨ shareInputProblem qt d.form.share d.form.username ≠ [] then d
  else
    { form := { d.form with lookupShare := d.form.share }
      lookup := startCredentialLookup qt d.form.share user }

def applyBrowsedShare (picked : Url) : AddDialog :=
  match browsedShareInput qt picked with
  | .error e => { d with form := { d.form with shareBrowseError := e } }
  | .ok browsed =>
    let form := ({ d.form with shareBrowseError := [] }.setShare qt browsed.input)
    { d with form := form.fillUsernameFromAddress browsed.user }.requestCredentialLookup qt
      browsed.user

def react : FormEvent → AddDialog × List Submission
  | .editShare text editedFirst => ({ d with form := d.form.editShare qt text editedFirst }, [])
  | .editMountPoint text => ({ d with form := d.form.editMountPoint text }, [])
  | .editUsername text => ({ d with form := d.form.editUsername text }, [])
  | .editPassword text => ({ d with form := d.form.editPassword text }, [])
  | .editDomain text => ({ d with form := d.form.editDomain text }, [])
  | .chooseAccess mode => ({ d with form := { d.form with accessMode := mode } }, [])
  | .browseShare picked => (d.applyBrowsedShare qt picked.url, [])
  | .browseMountPoint path => ({ d with form := d.form.applyBrowsedMountPoint path }, [])
  | .suggestion username domain password =>
    match d.lookup with
    | none => (d, [])
    | some lookup =>
      ({ d with form :=
          d.form.applyCredentialSuggestion qt username domain password lookup.shareInput }, [])
  | .cancelLookup => ({ d with lookup := none }, [])
  | .reset => ({ d with form := d.form.reset qt }, [])
  -- Sealed before the snapshot.
  | .submit =>
    ({ d with form := { d.form with credentialsSealed := true } }, [d.form.submission])

end AddDialog

/-- What the form relies on in Qt. -/
structure UrlLaws (qt : Qt) : Prop where
  /-- The user of a URL stands before an `@`, ahead of the first slash. -/
  user_at : ∀ mode text, (qt.parseUrl mode (smbPrefix ++ text)).userName ≠ [] →
    '@' ∈ text.takeWhile (· ≠ '/')
  encoded_ne_nil : ∀ url, url.valid = true → qt.encoded url ≠ []

section Browsed

variable {qt : Qt}

/-- Nothing the display form adds is an `@` or a slash. -/
theorem mem_displayChar {c d : Char} (h : d ∈ displayChar c) (hd : d = '@' ∨ d = '/') : d = c := by
  unfold displayChar at h
  split_ifs at h with h1 h2 h3
  · rcases hd with rfl | rfl <;> exact absurd h (by decide)
  · rcases hd with rfl | rfl <;> exact absurd h (by decide)
  · rcases hd with rfl | rfl <;> exact absurd h (by decide)
  · exact List.mem_singleton.mp h

/-- The host part of a displayed address holds no `@`. -/
theorem at_notMem_authority {host tail : QString} (hhost : ∀ c ∈ host, c ≠ '@' ∧ c ≠ '/')
    (htail : tail = [] ∨ ∃ path, tail = '/' :: path) :
    '@' ∉ ((host ++ tail).flatMap displayChar).takeWhile (· ≠ '/') := by
  have hplain : ∀ c ∈ host.flatMap displayChar, c ≠ '@' ∧ c ≠ '/' := by
    intro c hc
    obtain ⟨d, hd, hcd⟩ := List.mem_flatMap.mp hc
    constructor
    · rintro rfl
      exact (hhost d hd).1 (mem_displayChar hcd (Or.inl rfl)).symm
    · rintro rfl
      exact (hhost d hd).2 (mem_displayChar hcd (Or.inr rfl)).symm
  have hall : ∀ c ∈ host.flatMap displayChar, decide (c ≠ '/') = true := fun c hc =>
    decide_eq_true (hplain c hc).2
  intro hmem
  rw [List.flatMap_append, List.takeWhile_append_of_pos hall] at hmem
  rcases List.mem_append.mp hmem with hmem | hmem
  · exact (hplain _ hmem).1 rfl
  · rcases htail with rfl | ⟨path, rfl⟩
    · simp at hmem
    · simp [displayChar] at hmem

/-- What a pick puts into the field: the prefix and an address without a user. -/
theorem browsedShareInput_ok {picked : PickedUrl} {browsed : BrowsedShare}
    (h : browsedShareInput qt picked.url = .ok browsed) :
    ∃ text, browsed.input = smbPrefix ++ text ∧ '@' ∉ text.takeWhile (· ≠ '/') := by
  simp only [browsedShareInput, bind_eq_ok, require_eq_ok, exists_const, pure_eq_ok] at h
  obtain ⟨-, -, -, -, -, rfl⟩ := h
  dsimp only
  split_ifs
  · refine ⟨_, rfl, ?_⟩
    have hhost : '@' ∉ ((picked.url.host ++ []).flatMap displayChar).takeWhile (· ≠ '/') :=
      at_notMem_authority picked.plain_host (Or.inl rfl)
    rwa [List.append_nil] at hhost
  · refine ⟨_, ?_,
      at_notMem_authority picked.plain_host (Or.inr ⟨stripSlashes picked.url.path, rfl⟩)⟩
    rw [List.append_assoc, List.append_assoc]
    rfl

theorem readUrl_ok {raw : QString} {url : Url} (h : readUrl qt raw = .ok url) :
    ∃ mode, url = qt.parseUrl mode raw := by
  unfold readUrl at h
  dsimp only at h
  split_ifs at h
  · exact ⟨.strict, (Except.ok.inj h).symm⟩
  · exact ⟨.tolerant, (Except.ok.inj h).symm⟩

/-- An address without an `@` in front names no user. -/
theorem readShareInput_user (laws : UrlLaws qt) {text candidate user : QString}
    (hat : '@' ∉ text.takeWhile (· ≠ '/'))
    (h : readShareInput qt (smbPrefix ++ text) = .ok (candidate, user)) : user = [] := by
  have hmarked : hasSmbPrefix qt (smbPrefix ++ text) = true := by
    rw [hasSmbPrefix, List.take_left]
    exact decide_eq_true rfl
  rw [readShareInput, if_pos hmarked] at h
  simp only [parseSmbUrl, bind_eq_ok, require_eq_ok, exists_const, pure_eq_ok, Prod.mk.injEq] at h
  obtain ⟨url, hread, -, -, -, -, -, -, -, rfl⟩ := h
  obtain ⟨mode, rfl⟩ := readUrl_ok hread
  by_contra hne
  exact hat (laws.user_at mode text hne)

/-- The share of a lookup that was started after a pick has a key. -/
theorem lookupTargetOf_browsed (laws : UrlLaws qt) {picked : PickedUrl} {browsed : BrowsedShare}
    (hbrowsed : browsedShareInput qt picked.url = .ok browsed) {user : QString}
    {lookup : HostLookup} (hstart : startCredentialLookup qt browsed.input user = some lookup) :
    lookup.shareInput = browsed.input ∧ lookupTargetOf qt browsed.input ≠ [] := by
  obtain ⟨text, hinput, hat⟩ := browsedShareInput_ok hbrowsed
  unfold startCredentialLookup at hstart
  cases hresolve : resolveShareInput qt browsed.input user with
  | error e => simp [hresolve] at hstart
  | ok unc =>
    simp only [hresolve] at hstart
    split_ifs at hstart with hvalid
    obtain rfl := Option.some.inj hstart
    refine ⟨rfl, ?_⟩
    have hanyone : resolveShareInput qt browsed.input [] = .ok unc := by
      simp only [resolveShareInput, bind_eq_ok, Prod.exists] at hresolve ⊢
      obtain ⟨candidate, urlUser, hread, hrest⟩ := hresolve
      refine ⟨candidate, urlUser, hread, ?_⟩
      obtain rfl := readShareInput_user laws hat (hinput ▸ hread)
      exact hrest
    rw [lookupTargetOf, hanyone]
    dsimp only
    rw [if_pos hvalid]
    exact laws.encoded_ne_nil _ hvalid

end Browsed

section Binding

variable {qt : Qt} {f g : ShareForm} {d : AddDialog}

/-- An imported password is marked with the key of the share it was found for. -/
def ShareForm.Marked (qt : Qt) (f : ShareForm) : Prop :=
  ∀ origin, f.password.origin = some origin →
    f.importedPassword = true ∧ f.importedTarget ≠ [] ∧ f.importedTarget = lookupTargetOf qt origin

/-- And that is the share the form still names. -/
def ShareForm.Bound (qt : Qt) (f : ShareForm) : Prop :=
  f.Marked qt ∧ (f.password.origin ≠ none → lookupTargetOf qt f.share = f.importedTarget)

theorem ShareForm.bound_of_none (h : f.password.origin = none) : f.Bound qt :=
  ⟨fun _ horigin => absurd (h.symm.trans horigin) nofun, fun hne => absurd h hne⟩

/-- Nothing the binding is about changed, except that the password may be gone. -/
structure ShareForm.Same (f g : ShareForm) : Prop where
  share : g.share = f.share
  asked : g.lookupShare = f.lookupShare
  target : g.importedTarget = f.importedTarget
  imported : g.importedPassword = f.importedPassword
  password : g.password.origin = none ∨ g.password = f.password

theorem ShareForm.Marked.of_same (h : f.Marked qt) (hsame : f.Same g) : g.Marked qt := by
  intro origin horigin
  rcases hsame.password with hnone | hpassword
  · exact absurd (hnone.symm.trans horigin) nofun
  · rw [hsame.target, hsame.imported]
    exact h origin (hpassword ▸ horigin)

theorem ShareForm.Bound.of_same (h : f.Bound qt) (hsame : f.Same g) : g.Bound qt := by
  rcases hsame.password with hnone | hpassword
  · exact ShareForm.bound_of_none hnone
  · refine ⟨h.1.of_same hsame, ?_⟩
    rw [hpassword, hsame.share, hsame.target]
    exact h.2

theorem ShareForm.same_setUsername (f : ShareForm) (text : QString) :
    f.Same (f.setUsername text) := by
  unfold ShareForm.setUsername
  split_ifs
  · exact ⟨rfl, rfl, rfl, rfl, Or.inr rfl⟩
  · exact ⟨rfl, rfl, rfl, rfl, Or.inl rfl⟩
  · exact ⟨rfl, rfl, rfl, rfl, Or.inr rfl⟩

theorem ShareForm.same_fillUsername (f : ShareForm) (user : QString) :
    f.Same (f.fillUsernameFromAddress user) := by
  unfold ShareForm.fillUsernameFromAddress
  split_ifs
  · obtain ⟨hshare, hasked, htarget, himported, hpassword⟩ := f.same_setUsername user
    exact ⟨hshare, hasked, htarget, himported, hpassword⟩
  · exact ⟨rfl, rfl, rfl, rfl, Or.inr rfl⟩

/-- The withdrawal restores the binding after the share has moved. -/
theorem ShareForm.Marked.withdraw (h : f.Marked qt) :
    (f.withdrawImportedCredential qt).Bound qt ∧
      (f.withdrawImportedCredential qt).share = f.share ∧
      (f.withdrawImportedCredential qt).lookupShare = f.lookupShare := by
  unfold ShareForm.withdrawImportedCredential
  split_ifs with hstays
  · refine ⟨⟨h, fun hne => ?_⟩, rfl, rfl⟩
    obtain ⟨origin, horigin⟩ := Option.ne_none_iff_exists'.mp hne
    exact hstays.resolve_left (h origin horigin).2.1
  · dsimp only
    generalize hdropped : (if f.importedPassword = true then
        { f with importedTarget := [], importedPassword := false, importedIdentity := false
                 password := {} }
      else { f with importedTarget := [], importedPassword := false, importedIdentity := false }) =
        dropped
    obtain ⟨hnone, hshare, hasked⟩ : dropped.password.origin = none ∧ dropped.share = f.share ∧
        dropped.lookupShare = f.lookupShare := by
      subst hdropped
      split_ifs with himported
      · exact ⟨rfl, rfl, rfl⟩
      · refine ⟨?_, rfl, rfl⟩
        by_contra hne
        obtain ⟨origin, horigin⟩ := Option.ne_none_iff_exists'.mp hne
        exact himported (h origin horigin).1
    split_ifs
    · obtain ⟨hshare', hasked', -, -, hpassword⟩ := dropped.same_setUsername []
      refine ⟨ShareForm.bound_of_none ?_, hshare'.trans hshare, hasked'.trans hasked⟩
      exact hpassword.elim id fun heq => (congrArg Password.origin heq).trans hnone
    · exact ⟨ShareForm.bound_of_none hnone, hshare, hasked⟩

theorem ShareForm.Bound.setShare (h : f.Bound qt) (text : QString) :
    (f.setShare qt text).Bound qt ∧ (f.setShare qt text).share = text ∧
      (f.setShare qt text).lookupShare = f.lookupShare := by
  unfold ShareForm.setShare
  split_ifs with hsame
  · exact ⟨h, hsame.symm, rfl⟩
  · exact ShareForm.Marked.withdraw (f := { f with share := text }) h.1

theorem ShareForm.Bound.editShare (h : f.Bound qt) (text : QString) (editedFirst : Bool) :
    (f.editShare qt text editedFirst).Bound qt ∧
      (f.editShare qt text editedFirst).lookupShare = f.lookupShare := by
  have hmarked : ShareForm.Marked qt { f with share := text } := h.1
  have hedited : ∀ g : ShareForm, g.Same (g.shareEdited qt text) := by
    intro g
    obtain ⟨hshare, hasked, htarget, himported, hpassword⟩ :=
      ShareForm.same_fillUsername { g with shareBrowseError := [] } (userInShareInput qt text)
    exact ⟨hshare, hasked, htarget, himported, hpassword⟩
  unfold ShareForm.editShare
  split_ifs
  · have hsame := hedited { f with share := text }
    obtain ⟨hbound, -, hasked⟩ := (hmarked.of_same hsame).withdraw
    exact ⟨hbound, hasked.trans hsame.asked⟩
  · obtain ⟨hbound, -, hasked⟩ := hmarked.withdraw
    have hsame := hedited (ShareForm.withdrawImportedCredential qt { f with share := text })
    exact ⟨hbound.of_same hsame, hsame.asked.trans hasked⟩

/-- The binding holds, and a running lookup is the one the form asked for. -/
structure AddDialog.Sound (qt : Qt) (d : AddDialog) : Prop where
  bound : d.form.Bound qt
  asked : ∀ lookup, d.lookup = some lookup → lookupTargetOf qt lookup.shareInput ≠ [] ∧
    (d.form.lookupShare = [] ∨ d.form.lookupShare = lookup.shareInput)

theorem AddDialog.Sound.of_form (h : d.Sound qt) (hbound : g.Bound qt)
    (hasked : g.lookupShare = [] ∨ g.lookupShare = d.form.lookupShare) :
    AddDialog.Sound qt { d with form := g } where
  bound := hbound
  asked lookup hlookup := by
    obtain ⟨htarget, hold⟩ := h.asked lookup hlookup
    refine ⟨htarget, hasked.elim Or.inl fun heq => ?_⟩
    rw [heq]
    exact hold

theorem AddDialog.Sound.applySuggestion (h : d.Sound qt) {lookup : HostLookup}
    (hlookup : d.lookup = some lookup) (username domain password : QString) :
    (d.form.applyCredentialSuggestion qt username domain password lookup.shareInput).Bound qt ∧
      (d.form.applyCredentialSuggestion qt username domain password lookup.shareInput).lookupShare =
        d.form.lookupShare := by
  unfold ShareForm.applyCredentialSuggestion
  split_ifs with hrefused
  · exact ⟨h.bound, rfl⟩
  · simp only [not_or, not_not] at hrefused
    obtain ⟨-, -, hlookupShare, hcurrent⟩ := hrefused
    obtain ⟨htarget, hasked⟩ := h.asked lookup hlookup
    have hshare : d.form.share = lookup.shareInput :=
      hcurrent.trans (hasked.resolve_left hlookupShare)
    have hsame := d.form.same_setUsername username
    refine ⟨⟨?_, fun _ => ?_⟩, hsame.asked⟩
    · rintro origin horigin
      obtain rfl := Option.some.inj horigin
      exact ⟨rfl, hshare ▸ htarget, congrArg (lookupTargetOf qt) hshare⟩
    · exact congrArg (lookupTargetOf qt) hsame.share

theorem AddDialog.Sound.applyBrowsedShare (laws : UrlLaws qt) (h : d.Sound qt)
    (picked : PickedUrl) :
    (d.applyBrowsedShare qt picked.url).Sound qt := by
  unfold AddDialog.applyBrowsedShare
  cases hbrowsed : browsedShareInput qt picked.url with
  | error e => exact h.of_form ⟨h.bound.1, h.bound.2⟩ (Or.inr rfl)
  | ok browsed =>
    dsimp only
    have hclear : ShareForm.Bound qt { d.form with shareBrowseError := [] } :=
      ⟨h.bound.1, h.bound.2⟩
    obtain ⟨hbound, hshare, hasked⟩ := hclear.setShare browsed.input
    have hfill := ShareForm.same_fillUsername
      (ShareForm.setShare qt { d.form with shareBrowseError := [] } browsed.input) browsed.user
    unfold AddDialog.requestCredentialLookup
    split_ifs
    · exact h.of_form (hbound.of_same hfill) (Or.inr (hfill.asked.trans hasked))
    · refine ⟨⟨(hbound.of_same hfill).1, (hbound.of_same hfill).2⟩, fun lookup hlookup => ?_⟩
      have hinput := hfill.share.trans hshare
      dsimp only at hlookup ⊢
      rw [hinput] at hlookup ⊢
      obtain ⟨hsame, htarget⟩ := lookupTargetOf_browsed laws hbrowsed hlookup
      exact ⟨hsame ▸ htarget, Or.inr hsame.symm⟩

theorem AddDialog.Sound.react (laws : UrlLaws qt) (h : d.Sound qt) (event : FormEvent) :
    (d.react qt event).1.Sound qt ∧ ∀ submission ∈ (d.react qt event).2,
      ∀ origin, submission.password.origin = some origin →
        lookupTargetOf qt submission.unc = lookupTargetOf qt origin := by
  cases event with
  | editShare text editedFirst =>
    obtain ⟨hbound, hasked⟩ := h.bound.editShare text editedFirst
    exact ⟨h.of_form hbound (Or.inr hasked), nofun⟩
  | editMountPoint text => exact ⟨h.of_form ⟨h.bound.1, h.bound.2⟩ (Or.inr rfl), nofun⟩
  | editUsername text =>
    have hsame := d.form.same_setUsername text
    have hbound := h.bound.of_same hsame
    exact ⟨h.of_form ⟨hbound.1, hbound.2⟩ (Or.inr hsame.asked), nofun⟩
  | editPassword text => exact ⟨h.of_form (ShareForm.bound_of_none rfl) (Or.inr rfl), nofun⟩
  | editDomain text => exact ⟨h.of_form ⟨h.bound.1, h.bound.2⟩ (Or.inr rfl), nofun⟩
  | chooseAccess mode => exact ⟨h.of_form ⟨h.bound.1, h.bound.2⟩ (Or.inr rfl), nofun⟩
  | browseShare picked => exact ⟨h.applyBrowsedShare laws picked, nofun⟩
  | browseMountPoint path =>
    refine ⟨h.of_form ?_ (Or.inr ?_), nofun⟩
    · unfold ShareForm.applyBrowsedMountPoint
      split_ifs <;> exact ⟨h.bound.1, h.bound.2⟩
    · unfold ShareForm.applyBrowsedMountPoint
      split_ifs <;> rfl
  | suggestion username domain password =>
    unfold AddDialog.react
    cases hlookup : d.lookup with
    | none => exact ⟨h, nofun⟩
    | some lookup =>
      obtain ⟨hbound, hasked⟩ := h.applySuggestion hlookup username domain password
      have hsound := h.of_form hbound (Or.inr hasked)
      rw [hlookup] at hsound
      exact ⟨hsound, nofun⟩
  | cancelLookup => exact ⟨⟨h.bound, nofun⟩, nofun⟩
  | reset => exact ⟨h.of_form (ShareForm.bound_of_none rfl) (Or.inl rfl), nofun⟩
  | submit =>
    refine ⟨h.of_form ⟨h.bound.1, h.bound.2⟩ (Or.inr rfl), fun submission hmem origin horigin => ?_⟩
    obtain rfl := List.mem_singleton.mp hmem
    have hsome : d.form.password.origin = some origin := horigin
    rw [← (h.bound.1 origin hsome).2.2]
    exact h.bound.2 (by rw [hsome]; exact nofun)

/-- A sound dialog whose submissions so far took each imported password to its own share. -/
def AddDialog.KeptSubmissions (qt : Qt) (d : AddDialog) (log : List Submission) : Prop :=
  d.Sound qt ∧ ∀ submission ∈ log, ∀ origin, submission.password.origin = some origin →
    lookupTargetOf qt submission.unc = lookupTargetOf qt origin

/-- An imported password is submitted only to the share it was found for. -/
theorem imported_password_stays (qt : Qt) (laws : UrlLaws qt) (events : List FormEvent) :
    ∀ submission ∈ (Reactive.run (AddDialog.react qt) {} events).2,
      ∀ origin, submission.password.origin = some origin →
        lookupTargetOf qt submission.unc = lookupTargetOf qt origin := by
  have hinit : AddDialog.Sound qt {} := ⟨ShareForm.bound_of_none rfl, nofun⟩
  have hturn : ∀ d log event, AddDialog.KeptSubmissions qt d log →
      AddDialog.KeptSubmissions qt (AddDialog.react qt d event).1
        (log ++ (AddDialog.react qt d event).2) := by
    intro d log event h
    obtain ⟨hsound, hsubmitted⟩ := h.1.react laws event
    refine ⟨hsound, fun submission hmem => ?_⟩
    exact (List.mem_append.mp hmem).elim (h.2 submission) (hsubmitted submission)
  have hstart : AddDialog.KeptSubmissions qt {} [] := ⟨hinit, nofun⟩
  exact (Reactive.run_keeps hturn hstart events).2

theorem urlLaws_sampleQt : UrlLaws sampleQt where
  user_at mode text := by
    have hparse : (sampleQt.parseUrl mode (smbPrefix ++ text)).userName =
        if (text.takeWhile (· ≠ '/')).contains '@' then
          (text.takeWhile (· ≠ '/')).takeWhile (· ≠ '@')
        else [] := by
      simp only [sampleQt, plainUrl, stripPrefix?_append]
    rw [hparse]
    intro hne
    by_contra hat
    rw [if_neg (by simpa using hat)] at hne
    exact hne rfl
  encoded_ne_nil url _ := by simp [sampleQt, smbPrefix]

def samplePick : PickedUrl where
  url := plainUrl (qs "smb://nas/data")
  plain_host := by
    have hplain : (plainUrl (qs "smb://nas/data")).host.all
        (fun c => decide (c ≠ '@' ∧ c ≠ '/')) = true := by decide
    exact fun c hc => of_decide_eq_true (List.all_eq_true.mp hplain c hc)

/-- A subfolder of the picked share still gets the imported login. -/
theorem imported_password_stays_sample :
    lookupTargetOf sampleQt (qs "smb://nas/data/2024") =
      lookupTargetOf sampleQt (qs "smb://nas/data") := by
  have hrun : (Reactive.run (AddDialog.react sampleQt) {}
      [.browseShare samplePick, .suggestion (qs "ann") [] (qs "secret"),
        .editShare (qs "smb://nas/data/2024") true, .submit]).2 =
      [{ unc := qs "smb://nas/data/2024", mountPoint := [], username := qs "ann", domain := []
         password := { text := qs "secret", origin := some (qs "smb://nas/data") }
         access := .readWrite }] := by decide +kernel
  exact imported_password_stays sampleQt urlLaws_sampleQt _ _
    (hrun ▸ List.mem_singleton_self _) _ rfl

end Binding

end NasMount.Session
