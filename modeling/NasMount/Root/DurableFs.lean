import NasMount.Core.World
import NasMount.Foundation.Prog

/-!
# Durable replacement of a file

The system calls of one directory: every call has an outcome of its own, a write
takes as many bytes as it likes, and the names of temporary files are drawn. A
call that creates a file exclusively or renames one has no effect when it fails.
-/
namespace NasMount.Root.DurableFs

open NasMount.Foundation NasMount.Core QString

/-- A file as a directory entry leads to it. -/
structure Inode where
  kind : FileKind
  uid : UInt32
  gid : UInt32
  mode : ℕ
  content : List UInt8 := []
  /-- Content, owner and mode have reached the disk. -/
  synced : Bool := false
  deriving DecidableEq

abbrev Entries := AList fun _ : QString => Inode

/-- An open directory. -/
structure DirState where
  entries : Entries
  /-- The entries have reached the disk. -/
  synced : Bool

namespace DirState

variable {s : DirState} {name other : QString}

def modify (s : DirState) (name : QString) (f : Inode → Inode) : DirState :=
  match s.entries.lookup name with
  | some node => { s with entries := s.entries.insert name (f node) }
  | none => s

def create (s : DirState) (name : QString) (node : Inode) : DirState where
  entries := s.entries.insert name node
  synced := false

def unlink (s : DirState) (name : QString) : DirState where
  entries := s.entries.erase name
  synced := false

/-- The entry moves, over whatever stands under the new name. -/
def rename (s : DirState) (old new : QString) : DirState :=
  match s.entries.lookup old with
  | some node =>
    if old = new then s
    else { entries := (s.entries.erase old).insert new node, synced := false }
  | none => s

@[simp] theorem lookup_create_self {node : Inode} :
    (s.create name node).entries.lookup name = some node := by
  simp [create]

theorem lookup_create_ne {node : Inode} (h : other ≠ name) :
    (s.create name node).entries.lookup other = s.entries.lookup other := by
  simp [create, AList.lookup_insert_ne h]

theorem lookup_modify_self {f : Inode → Inode} {node : Inode}
    (h : s.entries.lookup name = some node) :
    (s.modify name f).entries.lookup name = some (f node) := by
  simp [modify, h]

theorem lookup_modify_ne {f : Inode → Inode} (h : other ≠ name) :
    (s.modify name f).entries.lookup other = s.entries.lookup other := by
  rw [modify]
  cases s.entries.lookup name with
  | none => rfl
  | some node => simp [AList.lookup_insert_ne h]

@[simp] theorem lookup_unlink_self : (s.unlink name).entries.lookup name = none := by
  simp [unlink]

theorem lookup_unlink_ne (h : other ≠ name) :
    (s.unlink name).entries.lookup other = s.entries.lookup other := by
  simp [unlink, AList.lookup_erase_ne h]

theorem lookup_rename {old new : QString} {node : Inode} (h : s.entries.lookup old = some node) :
    (s.rename old new).entries.lookup new = some node := by
  rw [rename, h]
  dsimp only
  split_ifs with hself
  · exact hself ▸ h
  · simp

theorem lookup_rename_other {old new : QString} {node : Inode}
    (h : s.entries.lookup old = some node) (hold : other ≠ old) (hnew : other ≠ new) :
    (s.rename old new).entries.lookup other = s.entries.lookup other := by
  rw [rename, h]
  dsimp only
  split_ifs
  · rfl
  · simp [AList.lookup_insert_ne hnew, AList.lookup_erase_ne hold]

theorem lookup_rename_old {old new : QString} {node : Inode}
    (h : s.entries.lookup old = some node) (hne : old ≠ new) :
    (s.rename old new).entries.lookup old = none := by
  rw [rename, h]
  dsimp only
  rw [if_neg hne]
  simp [AList.lookup_insert_ne hne]

end DirState

/-- Single path components only. -/
def isSingleComponent (name : QString) : Bool :=
  name ≠ [] && name ≠ qs "." && name ≠ qs ".." && '/' ∉ name

/-- The temporary name of one random draw: sixteen hexadecimal digits. -/
def tempName (draw : UInt64) : QString :=
  let digits := Nat.toDigits 16 draw.toNat
  qs ".nasmount-tmp-" ++ (List.replicate (16 - digits.length) '0' ++ digits)

/-- What the process gives a file it creates. -/
structure Process where
  uid : UInt32 := 0
  gid : UInt32 := 0
  umask : ℕ := 0o022

/-- The file that `openat` creates. -/
def Process.newFile (process : Process) (kind : ArtifactKind) : Inode where
  kind := .regular
  uid := process.uid
  gid := process.gid
  mode := modeFor kind &&& (0o7777 ^^^ process.umask)

/-- The complete new file of a kind. -/
def installed (content : List UInt8) (kind : ArtifactKind) : Inode where
  kind := .regular
  uid := 0
  gid := 0
  mode := modeFor kind
  content := content
  synced := true

inductive ReplaceSite
  | create (attempt : ℕ)
  | write (turn : ℕ)
  | chown
  | chmod
  | syncFile
  | unlink
  | rename
  | syncDir
  deriving DecidableEq

/-- `openat` with `O_CREAT | O_EXCL`; the answer is false where the name is
taken. -/
def openExclusive (process : Process) (kind : ArtifactKind) (name tmpName : QString) (attempt : ℕ) :
    Prog ReplaceSite DirState QString Bool := fun o s =>
  match o (.create attempt) with
  | .ok =>
    if (s.entries.lookup tmpName).isSome then (.returned false, s)
    else (.returned true, s.create tmpName (process.newFile kind))
  | .failed _ => (.raised (qs "cannot create temp file for " ++ name ++ qs ": "), s)
  | .killed => (.killed, s)

/-- The loop over the drawn names. -/
def allocate (process : Process) (draw : ℕ → UInt64) (kind : ArtifactKind) (name : QString) :
    ℕ → ℕ → Prog ReplaceSite DirState QString (Option QString)
  | 0, _ => pure none
  | left + 1, attempt => do
    let tmpName := tempName (draw attempt)
    if ← openExclusive process kind name tmpName attempt then pure (some tmpName)
    else allocate process draw kind name left (attempt + 1)

/-- The loop of the writes: a successful one takes at least one byte. The first
number bounds the turns by the bytes still to write. -/
def writeAll (chunk : ℕ → ℕ) (name tmpName : QString) :
    ℕ → ℕ → List UInt8 → Prog ReplaceSite DirState QString PUnit
  | _, _, [] => pure ⟨⟩
  | 0, _, _ :: _ => pure ⟨⟩
  | left + 1, turn, byte :: rest => do
    Prog.act (.write turn) (qs "write to temp file for " ++ name ++ qs " failed: ") fun s =>
      s.modify tmpName fun node =>
        { node with content := node.content ++ byte :: rest.take (chunk turn), synced := false }
    writeAll chunk name tmpName left (turn + 1) (rest.drop (chunk turn))

/-- Everything that happens to the temporary file before it is renamed. -/
def fillTemp (chunk : ℕ → ℕ) (name tmpName : QString) (content : List UInt8) (kind : ArtifactKind) :
    Prog ReplaceSite DirState QString PUnit := do
  writeAll chunk name tmpName content.length 0 content
  Prog.act .chown (qs "cannot secure temp file for " ++ name ++ qs ": ") fun s =>
    s.modify tmpName fun node => { node with uid := 0, gid := 0, synced := false }
  Prog.act .chmod (qs "cannot secure temp file for " ++ name ++ qs ": ") fun s =>
    s.modify tmpName fun node => { node with mode := modeFor kind, synced := false }
  Prog.act .syncFile (qs "cannot fsync temp file for " ++ name ++ qs ": ") fun s =>
    s.modify tmpName fun node => { node with synced := true }

/-- A directory is not replaced by a file. -/
def renameOver (name tmpName : QString) : Prog ReplaceSite DirState QString PUnit := fun o s =>
  let error := qs "cannot install " ++ name ++ qs ": "
  match o .rename with
  | .ok =>
    if (s.entries.lookup name).any fun node => node.kind = .directory then (.raised error, s)
    else (.returned ⟨⟩, s.rename tmpName name)
  | .failed _ => (.raised error, s)
  | .killed => (.killed, s)

/-- Unlink the temporary file, whatever comes of that, and report the failure. -/
def abandon (tmpName message : QString) : Prog ReplaceSite DirState QString PUnit := do
  let _ : Except QString PUnit ← (Prog.act .unlink [] fun s => s.unlink tmpName).attempt
  Prog.raise message

/-- Durable create-or-replace of one entry. -/
def durableReplace (process : Process) (draw : ℕ → UInt64) (chunk : ℕ → ℕ) (name : QString)
    (content : List UInt8) (kind : ArtifactKind) : Prog ReplaceSite DirState QString PUnit := do
  if !isSingleComponent name then Prog.raise (qs "invalid file component: " ++ name)
  else
    match ← allocate process draw kind name 8 0 with
    | none => Prog.raise (qs "cannot allocate a unique temp file name for " ++ name)
    | some tmpName =>
      match ← (fillTemp chunk name tmpName content kind).attempt with
      | .error message => abandon tmpName message
      | .ok _ =>
        match ← (renameOver name tmpName).attempt with
        | .error message => abandon tmpName message
        | .ok _ =>
          Prog.act .syncDir (qs "cannot fsync directory after installing " ++ name ++ qs ": ")
            fun s => { s with synced := true }

section Success

variable (o : ReplaceSite → Outcome) (draw : ℕ → UInt64) (chunk : ℕ → ℕ)

/-- The temporary name that is found, where every call up to it succeeds. -/
def allocated (s : DirState) : ℕ → ℕ → Option QString
  | 0, _ => none
  | left + 1, attempt =>
    if o (.create attempt) = .ok then
      if (s.entries.lookup (tempName (draw attempt))).isSome then allocated s left (attempt + 1)
      else some (tempName (draw attempt))
    else none

/-- Every write that the loop makes succeeds. -/
def WritesSucceed : ℕ → ℕ → List UInt8 → Prop
  | _, _, [] => True
  | 0, _, _ :: _ => True
  | left + 1, turn, _ :: rest =>
    o (.write turn) = .ok ∧ WritesSucceed left (turn + 1) (rest.drop (chunk turn))

/-- Every step before the rename of the temporary file succeeds. -/
structure FillSucceeds (content : List UInt8) : Prop where
  writes : WritesSucceed o chunk content.length 0 content
  chown : o .chown = .ok
  chmod : o .chmod = .ok
  syncFile : o .syncFile = .ok

/-- Every step up to the rename succeeds. -/
structure InstallSucceeds (name : QString) (content : List UInt8) (s : DirState) : Prop where
  single : isSingleComponent name = true
  created : (allocated o draw s 8 0).isSome = true
  filled : FillSucceeds o chunk content
  rename : o .rename = .ok
  target : ∀ node, s.entries.lookup name = some node → node.kind ≠ .directory

end Success

/-- Every entry but one is as it was. -/
def SameBut (name : QString) (s s' : DirState) : Prop :=
  ∀ other, other ≠ name → s'.entries.lookup other = s.entries.lookup other

section Rules

variable {o : ReplaceSite → Outcome} {draw : ℕ → UInt64} {chunk : ℕ → ℕ} {process : Process}
  {name tmpName : QString} {content : List UInt8} {kind : ArtifactKind} {s s' s'' : DirState}
  {node : Inode}

theorem sameBut_refl (name : QString) (s : DirState) : SameBut name s s := fun _ _ => rfl

theorem SameBut.trans (h : SameBut name s s') (h' : SameBut name s' s'') : SameBut name s s'' :=
  fun other hother => (h' other hother).trans (h other hother)

theorem sameBut_modify (name : QString) (s : DirState) (f : Inode → Inode) :
    SameBut name s (s.modify name f) := fun _ hother => DirState.lookup_modify_ne hother

theorem sameBut_create (name : QString) (s : DirState) (node : Inode) :
    SameBut name s (s.create name node) := fun _ hother => DirState.lookup_create_ne hother

theorem wp_allocate (left attempt : ℕ) :
    Prog.wp o (allocate process draw kind name left attempt)
      (fun found t => found = allocated o draw s left attempt ∧
        match found with
        | none => t = s
        | some tmpName =>
          t = s.create tmpName (process.newFile kind) ∧ s.entries.lookup tmpName = none)
      (fun _ t => allocated o draw s left attempt = none ∧ t = s) (fun t => t = s) s := by
  induction left generalizing attempt with
  | zero => exact ⟨rfl, rfl⟩
  | succ left ih =>
    rw [allocate, Prog.wp_bind, allocated]
    unfold Prog.wp openExclusive
    cases ho : o (.create attempt) with
    | ok =>
      dsimp only
      rw [if_pos rfl]
      cases hlookup : s.entries.lookup (tempName (draw attempt)) with
      | some node => exact ih (attempt + 1)
      | none => exact ⟨rfl, rfl, hlookup⟩
    | failed applied => exact ⟨by simp, rfl⟩
    | killed => rfl

/-- A change of the temporary file under one call's outcome. -/
theorem wp_modify {site : ReplaceSite} {error : QString} {f : Inode → Inode}
    {Q : PUnit → DirState → Prop} {E : QString → DirState → Prop} {C : DirState → Prop}
    (h : s.entries.lookup tmpName = some node)
    (done : o site = .ok → ∀ t, t.entries.lookup tmpName = some (f node) → SameBut tmpName s t →
      Q ⟨⟩ t)
    (failed : o site ≠ .ok → ∀ t, (t.entries.lookup tmpName).isSome = true → SameBut tmpName s t →
      E error t)
    (dead : C s) :
    Prog.wp o (Prog.act site error fun s => s.modify tmpName f) Q E C s := by
  have hmodified := DirState.lookup_modify_self (f := f) h
  have hsame := sameBut_modify tmpName s f
  rw [Prog.wp_act]
  cases hsite : o site with
  | ok => exact done hsite _ hmodified hsame
  | failed applied =>
    apply failed (by simp [hsite])
    · cases applied
      · simp [h]
      · simp [hmodified]
    · cases applied
      · exact sameBut_refl tmpName s
      · exact hsame
  | killed => exact dead

/-- The writes append what is left of the content, and fail only where one of
them does. -/
theorem wp_writeAll {left turn : ℕ} {rest : List UInt8} (hleft : rest.length ≤ left)
    (h : s.entries.lookup tmpName = some node) :
    Prog.wp o (writeAll chunk name tmpName left turn rest)
      (fun _ t => WritesSucceed o chunk left turn rest ∧ SameBut tmpName s t ∧
        ∃ synced, t.entries.lookup tmpName =
          some { node with content := node.content ++ rest, synced := synced })
      (fun _ t => ¬ WritesSucceed o chunk left turn rest ∧
        (t.entries.lookup tmpName).isSome = true ∧ SameBut tmpName s t)
      (fun t => SameBut tmpName s t) s := by
  induction left generalizing turn rest s node with
  | zero =>
    obtain rfl := List.length_eq_zero_iff.mp (Nat.le_zero.mp hleft)
    exact ⟨trivial, sameBut_refl _ _, node.synced, by simpa using h⟩
  | succ left ih =>
    cases rest with
    | nil => exact ⟨trivial, sameBut_refl _ _, node.synced, by simpa using h⟩
    | cons byte rest =>
      rw [writeAll, Prog.wp_bind]
      apply wp_modify h
      · intro hwrite t ht hsame
        have hdrop : (rest.drop (chunk turn)).length ≤ left := by
          rw [List.length_drop]
          rw [List.length_cons] at hleft
          omega
        apply Prog.wp_mono _ (ih hdrop ht)
        · rintro _ t' ⟨hrest, hsame', synced, ht'⟩
          refine ⟨⟨hwrite, hrest⟩, hsame.trans hsame', synced, ?_⟩
          rw [ht']
          simp
        · rintro e t' ⟨hrest, hsome, hsame'⟩
          exact ⟨fun hall => hrest hall.2, hsome, hsame.trans hsame'⟩
        · exact fun t' hsame' => hsame.trans hsame'
      · intro hwrite t hsome hsame
        exact ⟨fun hall => hwrite hall.1, hsome, hsame⟩
      · exact sameBut_refl _ _

/-- A filled temporary file is the complete new file. -/
theorem wp_fillTemp (h : s.entries.lookup tmpName = some (process.newFile kind)) :
    Prog.wp o (fillTemp chunk name tmpName content kind)
      (fun _ t => FillSucceeds o chunk content ∧ SameBut tmpName s t ∧
        t.entries.lookup tmpName = some (installed content kind))
      (fun _ t => ¬ FillSucceeds o chunk content ∧
        (t.entries.lookup tmpName).isSome = true ∧ SameBut tmpName s t)
      (fun t => SameBut tmpName s t) s := by
  rw [fillTemp, Prog.wp_bind]
  apply Prog.wp_mono _ (wp_writeAll le_rfl h)
  · rintro _ t ⟨hwrites, hsame, synced, ht⟩
    rw [Prog.wp_bind]
    apply wp_modify ht
    · intro hchown t₁ ht₁ hsame₁
      rw [Prog.wp_bind]
      apply wp_modify ht₁
      · intro hchmod t₂ ht₂ hsame₂
        apply wp_modify ht₂
        · intro hsync t₃ ht₃ hsame₃
          exact ⟨⟨hwrites, hchown, hchmod, hsync⟩,
            ((hsame.trans hsame₁).trans hsame₂).trans hsame₃, ht₃⟩
        · intro hsync t₃ hsome hsame₃
          exact ⟨fun hall => hsync hall.syncFile, hsome,
            ((hsame.trans hsame₁).trans hsame₂).trans hsame₃⟩
        · exact (hsame.trans hsame₁).trans hsame₂
      · intro hchmod t₂ hsome hsame₂
        exact ⟨fun hall => hchmod hall.chmod, hsome, (hsame.trans hsame₁).trans hsame₂⟩
      · exact hsame.trans hsame₁
    · intro hchown t₁ hsome hsame₁
      exact ⟨fun hall => hchown hall.chown, hsome, hsame.trans hsame₁⟩
    · exact hsame
  · rintro e t ⟨hwrites, hsome, hsame⟩
    exact ⟨fun hall => hwrites hall.writes, hsome, hsame⟩
  · exact fun t hsame => hsame

theorem wp_abandon {message : QString} {Q : PUnit → DirState → Prop} {E : QString → DirState → Prop}
    {C : DirState → Prop} (hunlink : o .unlink = .ok) (h : E message (s.unlink tmpName)) :
    Prog.wp o (abandon tmpName message) Q E C s := by
  rw [abandon, Prog.wp_bind, Prog.wp_attempt, Prog.wp_act, hunlink]
  exact h

/-- Giving up the temporary file restores the directory. -/
theorem lookup_abandoned {t : DirState} (hfree : s.entries.lookup tmpName = none)
    (hsame : SameBut tmpName s t) (other : QString) :
    (t.unlink tmpName).entries.lookup other = s.entries.lookup other := by
  by_cases hother : other = tmpName
  · rw [hother, DirState.lookup_unlink_self, hfree]
  · rw [DirState.lookup_unlink_ne hother, hsame other hother]

/-- Renaming the filled temporary file changes the one entry. -/
theorem lookup_renamed {t : DirState} (hfree : s.entries.lookup tmpName = none)
    (hsame : SameBut tmpName s t) (hnode : t.entries.lookup tmpName = some node) :
    (t.rename tmpName name).entries.lookup name = some node ∧
      SameBut name s (t.rename tmpName name) := by
  refine ⟨DirState.lookup_rename hnode, ?_⟩
  intro other hother
  by_cases htmp : other = tmpName
  · rw [htmp, DirState.lookup_rename_old hnode (htmp ▸ hother), hfree]
  · rw [DirState.lookup_rename_other hnode htmp hother, hsame other htmp]

/-- The state left by a kill: the entry is whole, and besides it at most the
temporary file has changed. -/
structure LeftByKill (found : Option QString) (name : QString) (node : Inode) (s t : DirState) :
    Prop where
  whole : found ≠ some name →
    t.entries.lookup name = s.entries.lookup name ∨ t.entries.lookup name = some node
  others : ∀ other, other ≠ name → found ≠ some other →
    t.entries.lookup other = s.entries.lookup other

theorem leftByKill_of_sameBut {t : DirState} (h : SameBut tmpName s t) :
    LeftByKill (some tmpName) name node s t := by
  constructor
  · intro hne
    exact Or.inl (h name fun heq => hne (heq ▸ rfl))
  · intro other _ hne
    exact h other fun heq => hne (heq ▸ rfl)

/-- A rename is refused where a directory has the name. -/
theorem wp_renameOver {Q : PUnit → DirState → Prop} {E : QString → DirState → Prop}
    {C : DirState → Prop}
    (done : o .rename = .ok → (∀ node, s.entries.lookup name = some node → node.kind ≠ .directory) →
      Q ⟨⟩ (s.rename tmpName name))
    (failed : ∀ error, E error s) (dead : C s) :
    Prog.wp o (renameOver name tmpName) Q E C s := by
  unfold Prog.wp renameOver
  cases hrename : o .rename with
  | ok =>
    dsimp only
    split_ifs with hdirectory
    · exact failed _
    · apply done hrename
      intro node hnode hkind
      simp [hnode, hkind] at hdirectory
  | failed applied => exact failed _
  | killed => exact dead

/-- Every way a replacement can end, when the clean-up succeeds. -/
theorem wp_durableReplace (hunlink : o .unlink = .ok) :
    Prog.wp o (durableReplace process draw chunk name content kind)
      (fun _ t => InstallSucceeds o draw chunk name content s ∧ SameBut name s t ∧
        t.entries.lookup name = some (installed content kind) ∧ t.synced = true)
      (fun _ t => SameBut name s t ∧
        (t.entries.lookup name = s.entries.lookup name ∨
          InstallSucceeds o draw chunk name content s ∧
            t.entries.lookup name = some (installed content kind)))
      (fun t => LeftByKill (allocated o draw s 8 0) name (installed content kind) s t) s := by
  unfold durableReplace
  by_cases hsingle : isSingleComponent name = true
  swap
  · rw [if_pos (by simpa using hsingle)]
    exact ⟨sameBut_refl _ _, Or.inl rfl⟩
  rw [if_neg (by simp [hsingle]), Prog.wp_bind]
  apply Prog.wp_mono _ (wp_allocate 8 0)
  · rintro found t ⟨hfound, ht⟩
    cases found with
    | none =>
      obtain rfl := ht
      exact ⟨sameBut_refl _ _, Or.inl rfl⟩
    | some tmpName =>
      obtain ⟨rfl, hfree⟩ := ht
      rw [← hfound]
      have hcreated : SameBut tmpName s (s.create tmpName (process.newFile kind)) :=
        sameBut_create _ _ _
      have hgivenUp : ∀ u, SameBut tmpName s u → SameBut name s (u.unlink tmpName) ∧
          (u.unlink tmpName).entries.lookup name = s.entries.lookup name := by
        intro u hsame
        exact ⟨fun other _ => lookup_abandoned hfree hsame other, lookup_abandoned hfree hsame name⟩
      dsimp only
      rw [Prog.wp_bind, Prog.wp_attempt]
      apply Prog.wp_mono _ (wp_fillTemp DirState.lookup_create_self)
      · rintro _ u ⟨hfilled, hsame, hnode⟩
        have hsame' := hcreated.trans hsame
        obtain ⟨hname, hothers⟩ : (u.rename tmpName name).entries.lookup name =
            some (installed content kind) ∧ SameBut name s (u.rename tmpName name) :=
          lookup_renamed hfree hsame' hnode
        dsimp only
        rw [Prog.wp_bind, Prog.wp_attempt]
        apply wp_renameOver
        · intro hrename htarget
          have hall : InstallSucceeds o draw chunk name content s := by
            refine ⟨hsingle, by simp [← hfound], hfilled, hrename, fun node hold => ?_⟩
            by_cases htmp : name = tmpName
            · rw [htmp, hfree] at hold
              exact nomatch hold
            · exact htarget node ((hsame' name htmp).trans hold)
          refine Prog.wp_act_intro ⟨hall, hothers, hname, rfl⟩ ⟨hothers, Or.inr ⟨hall, hname⟩⟩
            ⟨hothers, Or.inr ⟨hall, hname⟩⟩ ?_
          exact ⟨fun _ => Or.inr hname, fun other hother _ => hothers other hother⟩
        · intro message
          obtain ⟨hothers, hname⟩ := hgivenUp u hsame'
          exact wp_abandon hunlink ⟨hothers, Or.inl hname⟩
        · exact leftByKill_of_sameBut hsame'
      · rintro message u ⟨-, -, hsame⟩
        obtain ⟨hothers, hname⟩ := hgivenUp u (hcreated.trans hsame)
        exact wp_abandon hunlink ⟨hothers, Or.inl hname⟩
      · exact fun u hsame => leftByKill_of_sameBut (hcreated.trans hsame)
  · rintro e t ⟨-, rfl⟩
    exact ⟨sameBut_refl _ _, Or.inl rfl⟩
  · rintro t rfl
    exact ⟨fun _ => Or.inl rfl, fun _ _ _ => rfl⟩

end Rules

section Atomicity

/-- Replacement is all or nothing: the entry holds its previous state or the
complete new file, and the previous one unless every step up to the rename
succeeded; nothing else changes, so no temporary file stays; a success means
that file and directory are synced. A kill leaves the entry whole and at most a
temporary file beside it. -/
theorem durableReplace_atomic (process : Process) (draw : ℕ → UInt64) (chunk : ℕ → ℕ)
    (name : QString)
    (content : List UInt8) (kind : ArtifactKind) (o : ReplaceSite → Outcome) (s : DirState)
    (hunlink : o .unlink = .ok) :
    let result := (durableReplace process draw chunk name content kind).run o s
    (result.1 ≠ .killed →
      (result.2.entries.lookup name = s.entries.lookup name ∨
        result.2.entries.lookup name = some (installed content kind)) ∧
      (¬ InstallSucceeds o draw chunk name content s →
        result.2.entries.lookup name = s.entries.lookup name) ∧
      ∀ other, other ≠ name → result.2.entries.lookup other = s.entries.lookup other) ∧
    (result.1 = .returned ⟨⟩ →
      result.2.entries.lookup name = some (installed content kind) ∧ result.2.synced = true) ∧
    (result.1 = .killed →
      LeftByKill (allocated o draw s 8 0) name (installed content kind) s result.2) := by
  intro result
  obtain ⟨hreturned, hraised, hkilled⟩ := (Prog.wp_iff _).mp
    (@wp_durableReplace o draw chunk process name content kind s hunlink)
  cases hrun : (durableReplace process draw chunk name content kind).run o s with
  | mk ending t =>
    have hresult : result = (ending, t) := hrun
    rw [hresult]
    cases ending with
    | returned done =>
      obtain ⟨hall, hothers, hname, hsynced⟩ := hreturned done t hrun
      exact ⟨fun _ => ⟨Or.inr hname, fun hnot => absurd hall hnot, hothers⟩,
        fun _ => ⟨hname, hsynced⟩, nofun⟩
    | raised error =>
      obtain ⟨hothers, hname⟩ := hraised error t hrun
      refine ⟨fun _ => ⟨?_, ?_, hothers⟩, nofun, nofun⟩
      · rcases hname with hname | ⟨-, hname⟩
        · exact Or.inl hname
        · exact Or.inr hname
      · intro hnot
        rcases hname with hname | ⟨hall, -⟩
        · exact hname
        · exact absurd hall hnot
    | killed => exact ⟨fun halive => absurd rfl halive, nofun, fun _ => hkilled t hrun⟩

/-- A directory that holds an older file and a stray temporary one. -/
def sampleDir : DirState where
  entries :=
    ((∅ : Entries).insert (qs "x.cred")
        { installed [1, 2] .sensitiveFile with content := [1] }).insert (tempName 7)
      { kind := .regular, uid := 0, gid := 0, mode := 0o600 }
  synced := true

/-- The first name drawn is taken, and the file is written in two goes. -/
theorem durableReplace_atomic_sample :
    let result := (durableReplace {} (fun attempt => if attempt = 0 then 7 else 8) (fun _ => 1)
      (qs "x.cred") [1, 2, 3] .sensitiveFile).run Prog.allOk sampleDir
    result.1 = .returned ⟨⟩ ∧
      result.2.entries.lookup (qs "x.cred") = some (installed [1, 2, 3] .sensitiveFile) := by
  intro result
  have hreturned : result.1 = .returned ⟨⟩ := by decide +kernel
  have hatomic :=
    durableReplace_atomic {} (fun attempt => if attempt = 0 then 7 else 8) (fun _ => 1)
    (qs "x.cred") [1, 2, 3] .sensitiveFile Prog.allOk sampleDir rfl
  exact ⟨hreturned, (hatomic.2.1 hreturned).1⟩

end Atomicity

end NasMount.Root.DurableFs
