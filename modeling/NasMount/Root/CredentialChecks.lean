import NasMount.Root.DefineCall

/-!
# The two checks of the credential fields

The helper checks the fields before anything is changed, `CredentialStore.write`
once more after the units are in place. The second check knows one rule the first
does not: a user name needs a password.
-/
namespace NasMount.Root

open NasMount.Foundation NasMount.Core QString

section Size

variable {username domain password : QString}

theorem utf8Size_unlines_cons (line : QString) (lines : List QString) :
    utf8Size (unlines (line :: lines)) = utf8Size line + 1 + utf8Size (unlines lines) := by
  have hnewline : utf8Size ['\n'] = 1 := by decide
  rw [unlines_cons, ← List.singleton_append, utf8Size_append, utf8Size_append, hnewline]
  omega

/-- What the early check leaves of the fields. -/
theorem validateCredentialFields_eq_ok :
    validateCredentialFields username domain password = .ok () ↔
      (hasControlChars username || hasControlChars domain || hasControlChars password) = false ∧
        utf8Size username ≤ CredentialStore.maxCredentialFieldBytes ∧
        utf8Size domain ≤ CredentialStore.maxCredentialFieldBytes ∧
        utf8Size password ≤ CredentialStore.maxCredentialFieldBytes := by
  unfold validateCredentialFields
  constructor
  · intro h
    split_ifs at h with hcontrol hsize
    simp only [Bool.or_eq_true, decide_eq_true_eq, not_or, not_lt] at hsize
    exact ⟨Bool.eq_false_iff.mpr hcontrol, hsize.1.1, hsize.1.2, hsize.2⟩
  · rintro ⟨hcontrol, huser, hdomain, hpassword⟩
    rw [hcontrol, if_neg Bool.false_ne_true, if_neg]
    simp only [Bool.or_eq_true, decide_eq_true_eq, not_or, not_lt]
    exact ⟨⟨huser, hdomain⟩, hpassword⟩

/-- Three fields of the largest size, with their keys, still fit the file. -/
theorem validateSize_credentialContent
    (h : validateCredentialFields username domain password = .ok ()) :
    CredentialStore.validateSize (CredentialStore.credentialContent username domain password) =
      .ok () := by
  obtain ⟨-, huser, hdomain, hpassword⟩ := validateCredentialFields_eq_ok.mp h
  have hkeys : utf8Size (qs "username=") = 9 ∧ utf8Size (qs "password=") = 9 ∧
      utf8Size (qs "domain=") = 7 := by decide
  have hnil : utf8Size (unlines []) = 0 := rfl
  have hsize : utf8Size (CredentialStore.credentialContent username domain password) ≤
      utf8Size username + utf8Size domain + utf8Size password + 28 := by
    unfold CredentialStore.credentialContent
    split_ifs <;>
      simp only [List.append_nil, List.cons_append, List.nil_append,
        utf8Size_unlines_cons, utf8Size_append, hkeys, hnil] <;>
      omega
  unfold CredentialStore.maxCredentialFieldBytes at huser hdomain hpassword
  rw [CredentialStore.validateSize, if_neg]
  unfold CredentialStore.maxCredentialFileBytes CredentialStore.maxCredentialFieldBytes
  omega

/-- Fields the early check accepts fail the late one by a missing password alone. -/
theorem validateFields_of_early (h : validateCredentialFields username domain password = .ok ()) :
    CredentialStore.validateFields username domain password =
      if username ≠ [] ∧ password = [] then
        .error (qs "a password is required when a username is given")
      else .ok () := by
  obtain ⟨hcontrol, huser, hdomain, hpassword⟩ := validateCredentialFields_eq_ok.mp h
  rw [CredentialStore.validateFields, hcontrol, if_neg Bool.false_ne_true, if_neg]
  simp only [Bool.or_eq_true, decide_eq_true_eq, not_or, not_lt]
  exact ⟨⟨huser, hdomain⟩, hpassword⟩

end Size

section Write

variable {username domain password : QString}

/-- The primitives of the credential step, without the checks before them. -/
def storeCredential (id : ShareId) (username domain password : QString) :
    Prog DirSite World QString PUnit := do
  openPrivateRoot .credentials
  durableReplace .credentials (CredentialStore.fileNameFor id)
    (CredentialStore.credentialContent username domain password)

theorem write_eq_store (id : ShareId)
    (h : validateCredentialFields username domain password = .ok ())
    (hpassword : username = [] ∨ password ≠ []) :
    CredentialStore.write id username domain password =
      storeCredential id username domain password := by
  have hno : ¬ (username ≠ [] ∧ password = []) := by
    rintro ⟨huser, hnone⟩
    exact hpassword.elim huser fun hsome => hsome hnone
  have hfields : CredentialStore.validateFields username domain password = .ok () := by
    rw [validateFields_of_early h, if_neg hno]
  rw [CredentialStore.write, hfields, validateSize_credentialContent h]
  rfl

/-- Without a password the write refuses before its first primitive. -/
theorem write_refused (id : ShareId)
    (h : validateCredentialFields username domain password = .ok ()) (huser : username ≠ [])
    (hpassword : password = []) :
    CredentialStore.write id username domain password =
      Prog.raise (qs "a password is required when a username is given") := by
  rw [CredentialStore.write, validateFields_of_early h, if_pos ⟨huser, hpassword⟩]
  rfl

end Write

section Calls

variable {host : Host} {draws : ℕ → UInt64 × UInt64} {caller : Caller} {args : Args}
  {input : DefineInput} {shareId : ShareId} {w : World}

theorem validateCredentialFields_of_readRequest (h : readRequest host caller args = .ok input) :
    validateCredentialFields input.username input.domain input.password = .ok () ∧
      guestFieldsConsistent input.username input.domain input.password = true := by
  simp only [readRequest, bind_eq_ok, pure_eq_ok, require_eq_ok] at h
  obtain ⟨target, -, unc, -, access, -, _, hfields, _, hguest, rfl⟩ := h
  exact ⟨hfields, hguest⟩

theorem wp_establishCredential_refused {o : DefineSite → Outcome}
    (h : validateCredentialFields input.username input.domain input.password = .ok ())
    (huser : input.username ≠ []) (hpassword : input.password = []) :
    Prog.wp o (establishCredential input shareId) (fun _ _ => False) (fun _ _ => True)
      (fun _ => True) w := by
  have hauth : input.authentication = .credentials := if_neg huser
  unfold establishCredential
  rw [hauth]
  dsimp only
  rw [wp_orCleanup, Prog.wp_mapSites, write_refused shareId h huser hpassword]
  exact wp_failCleanly_trivial

/-- A definition with a user name and no password never goes through, although
both of its units are in place before it is refused. -/
theorem wp_doDefine_refused {trees : QString → Option Folder} {o : DefineCallSite → Outcome}
    (hrequest : readRequest host caller args = .ok input) (huser : input.username ≠ [])
    (hpassword : input.password = []) :
    Prog.wp o (doDefine host draws caller args trees) (fun _ _ => False) (fun _ _ => True)
      (fun _ => True) w := by
  have hfields := (validateCredentialFields_of_readRequest hrequest).1
  have hdefineAs : ∀ (o : DefineSite → Outcome) (id : ShareId) (w : World),
      Prog.wp o (defineAs host input id) (fun _ _ => False) (fun _ _ => True)
        (fun _ => True) w := by
    intro o id w
    unfold defineAs
    rw [Prog.wp_bind, wp_plainly]
    refine Prog.wp_act_intro ?_ trivial trivial trivial
    rw [Prog.wp_bind]
    refine Prog.wp_ask_answer trivial fun mountExists _ => ?_
    rw [Prog.wp_bind]
    refine Prog.wp_ask_answer trivial fun automountExists _ => ?_
    split_ifs
    · trivial
    rw [Prog.wp_bind, wp_plainly, Prog.wp_ofExcept]
    refine ⟨fun contents _ => ?_, fun _ _ => trivial⟩
    rw [Prog.wp_bind, wp_orCleanup]
    refine Prog.wp_act_intro ?_ wp_failCleanly_trivial wp_failCleanly_trivial trivial
    rw [Prog.wp_bind, wp_orCleanup]
    refine Prog.wp_act_intro ?_ wp_failCleanly_trivial wp_failCleanly_trivial trivial
    rw [Prog.wp_bind]
    exact Prog.wp_mono _ (wp_establishCredential_refused hfields huser hpassword)
      (fun _ _ h => h.elim) (fun _ _ h => h) fun _ h => h
  unfold doDefine
  rw [Prog.wp_bind]
  refine Prog.wp_act_intro ?_ trivial trivial trivial
  rw [Prog.wp_bind, Prog.wp_ofExcept, hrequest]
  refine ⟨fun _ heq => ?_, fun _ _ => trivial⟩
  obtain rfl := Except.ok.inj heq
  rw [Prog.wp_bind, Prog.wp_look]
  split
  · trivial
  · split
    · trivial
    · rw [defineOrFail, Prog.wp_bind, Prog.wp_attempt, Prog.wp_mapSites, define, Prog.wp_bind,
        wp_plainly]
      refine Prog.wp_mono _ (Prog.wp_trivial _) (fun id w1 _ => ?_) (fun _ _ _ => trivial)
        fun _ _ => trivial
      exact Prog.wp_mono _ (hdefineAs _ id w1) (fun _ _ h => h.elim) (fun _ _ _ => trivial)
        fun _ _ => trivial

/-- The two checks agree on the fields of an authenticated share exactly if a
user name comes with a password. In that case every run of the call stores the
credential without a further check; in the other no run completes. -/
theorem credential_checks_agree_iff (username domain password : QString)
    (hfields : validateCredentialFields username domain password = .ok ()) :
    ((username ≠ [] → CredentialStore.validateFields username domain password = .ok () ∧
        CredentialStore.validateSize (CredentialStore.credentialContent username domain password) =
          .ok ()) ↔
      username = [] ∨ password ≠ []) ∧
    (username = [] ∨ password ≠ [] → ∀ id, CredentialStore.write id username domain password =
      storeCredential id username domain password) ∧
    ((username ≠ [] ∧ password = []) → ∀ host draws caller args input trees o w,
      readRequest host caller args = .ok input → input.username = username →
      input.password = password → ∀ reply w',
      (doDefine host draws caller args trees).run o w ≠ (.returned reply, w')) := by
  refine ⟨?_, fun h id => write_eq_store id hfields h, ?_⟩
  · rw [validateFields_of_early hfields]
    constructor
    · intro h
      by_cases huser : username = []
      · exact Or.inl huser
      · refine Or.inr fun hnone => ?_
        rw [if_pos ⟨huser, hnone⟩] at h
        exact nomatch (h huser).1
    · rintro h huser
      rw [if_neg fun hno => h.elim hno.1 fun hsome => hsome hno.2]
      exact ⟨rfl, validateSize_credentialContent hfields⟩
  · rintro ⟨huser, hnone⟩ host draws caller args input trees o w hrequest rfl hpassword
      reply w' hrun
    exact ((Prog.wp_iff _).mp (wp_doDefine_refused hrequest huser (hpassword.trans hnone))).1
      _ _ hrun

theorem credential_checks_agree_sample :
    CredentialStore.validateFields (qs "ann") [] (qs "secret") = .ok () :=
  (((credential_checks_agree_iff (qs "ann") [] (qs "secret") (by decide +kernel)).1.mpr
    (Or.inr (by decide))) (by decide)).1

/-- The arguments of an Add with a user name and no password. -/
def namedWithoutPassword : Args :=
  [(qs "path", qs "/home/ann/nas"), (qs "unc", qs "//nas/data"), (qs "username", qs "ann")]

/-- The plan of the call. -/
def namedPlan : MountpointPlan where
  path := qs "/home/ann/nas"
  root := qs "/home/ann"
  suffix := [qs "nas"]

/-- The request passes the early checks, its walk creates the mount point, and
every primitive succeeds; then the credential step refuses the fields. -/
theorem named_without_password_refused :
    validateCredentialFields (qs "ann") [] [] = .ok () ∧
      guestFieldsConsistent (qs "ann") [] [] = true ∧
      CredentialStore.validateFields (qs "ann") [] [] =
        .error (qs "a password is required when a username is given") ∧
      (((openMountpointNoFollow namedPlan 1000 1000 (some ⟨homeStat 1000, []⟩)).2.map
        Folder.entries).map (List.map Prod.fst)) = some [qs "nas"] ∧
      ((doDefine sampleHost (fun n => (0, n.toUInt64)) sampleCaller namedWithoutPassword
        (fun _ => some ⟨homeStat 1000, []⟩)).run Prog.allOk World.blank).1 =
        .raised (qs "a password is required when a username is given") := by
  decide +kernel

end Calls

end NasMount.Root
