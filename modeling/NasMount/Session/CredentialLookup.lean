import NasMount.Session.ShareAddress

/-!
# Which stored credential may be offered

The reply of the lookup child is decoded by a closed schema, and accepted only
if it does not contradict the request. The JSON reader itself is a parameter.
-/
namespace NasMount.Session

open NasMount.Foundation NasMount.Core QString ShareAddress

inductive JsonValue
  | null
  | bool (value : Bool)
  /-- A double; its value where that is a whole number. -/
  | number (whole : Option ℤ)
  | string (text : QString)
  | array
  | object
  deriving DecidableEq

abbrev JsonObject := List (QString × JsonValue)

abbrev Bytes := List UInt8

/-- `QJsonDocument`: reading a document that is an object, and writing one. -/
structure Json where
  fromJson : Bytes → Except QString JsonObject
  toJson : JsonObject → Bytes

namespace CredentialLookup

def protocolVersion : ℤ := 1

def maxMessageBytes : ℕ := 64 * 1024

/-- UnitSpec::MaxCredentialFieldBytes. -/
def maxFieldBytes : ℕ := 4096

structure Request where
  target : Url
  username : QString
  windowId : UInt64 := 0
  userTime : UInt64 := 0
  deriving DecidableEq

inductive ReplyOutcome
  | candidate
  | miss
  | error
  deriving DecidableEq, Repr

structure Reply where
  outcome : ReplyOutcome
  resultUrl : Url
  username : QString
  domain : QString
  password : QString
  message : QString := []
  deriving DecidableEq

structure Candidate where
  username : QString
  domain : QString
  password : QString
  deriving DecidableEq

/-- An absent or null field is empty. -/
def takeString (object : JsonObject) (key : QString) : Except QString QString :=
  match object.lookup key with
  | none | some .null => .ok []
  | some (.string text) => .ok text
  | some _ => .error (qs "field '" ++ key ++ qs "' is not a string")

/-- Size ceiling, JSON object, matching version, no unknown key. -/
def openEnvelope (json : Json) (raw : Bytes) (allowed : List QString) :
    Except QString JsonObject := do
  require (raw ≠ []) (qs "empty message")
  require (raw.length ≤ maxMessageBytes) (qs "message exceeds 65536 bytes")
  let object ← (json.fromJson raw).mapError fun e => qs "not a JSON object: " ++ e
  require (object.lookup (qs "protocol") = some (.number (some protocolVersion)))
    (qs "unsupported protocol version")
  object.forM fun field =>
    require (allowed.contains field.1) (qs "unknown field '" ++ field.1 ++ qs "'")
  return object

def replyKeys : List QString :=
  [qs "protocol", qs "outcome", qs "resultUrl", qs "username", qs "domain", qs "password",
    qs "message"]

def outcomeOf (text : QString) : Except QString ReplyOutcome :=
  if text = qs "candidate" then .ok .candidate
  else if text = qs "miss" then .ok .miss
  else if text = qs "error" then .ok .error
  else .error (qs "unknown outcome")

def decodeReply (qt : Qt) (json : Json) (raw : Bytes) : Except QString Reply := do
  let object ← openEnvelope json raw replyKeys
  let outcomeText ← takeString object (qs "outcome")
  let resultUrl ← takeString object (qs "resultUrl")
  let username ← takeString object (qs "username")
  let domain ← takeString object (qs "domain")
  let password ← takeString object (qs "password")
  let message ← takeString object (qs "message")
  let outcome ← outcomeOf outcomeText
  return { outcome := outcome, resultUrl := qt.parseUrl .strict resultUrl, username := username
           domain := domain, password := password, message := message }

def outcomeText : ReplyOutcome → QString
  | .candidate => qs "candidate"
  | .miss => qs "miss"
  | .error => qs "error"

/-- `static_cast<double>` of a whole number: to 53 bits, and to the even neighbour
from halfway. -/
def toDouble (n : ℕ) : ℕ :=
  if n < 2 ^ 53 then n
  else
    let unit := 2 ^ (Nat.log2 n - 52)
    let above := if unit < 2 * (n % unit) ∨ unit = 2 * (n % unit) ∧ n / unit % 2 = 1 then 1 else 0
    (n / unit + above) * unit

/-- Empty if the text would be too large. -/
def serialise (json : Json) (object : JsonObject) : Bytes :=
  let encoded := json.toJson object
  if encoded.length > maxMessageBytes then [] else encoded

def requestObject (qt : Qt) (request : Request) : JsonObject :=
  [(qs "protocol", .number (some protocolVersion)),
    (qs "target", .string (qt.encoded request.target)), (qs "username", .string request.username),
    (qs "windowId", .number (some (toDouble request.windowId.toNat))),
    (qs "userTime", .number (some (toDouble request.userTime.toNat)))]

def encodeRequest (qt : Qt) (json : Json) (request : Request) : Bytes :=
  serialise json (requestObject qt request)

def replyObject (qt : Qt) (reply : Reply) : JsonObject :=
  [(qs "protocol", .number (some protocolVersion)),
    (qs "outcome", .string (outcomeText reply.outcome)),
    (qs "resultUrl", .string (qt.encoded reply.resultUrl)), (qs "username", .string reply.username),
    (qs "domain", .string reply.domain), (qs "password", .string reply.password),
    (qs "message", .string reply.message)]

def encodeReply (qt : Qt) (json : Json) (reply : Reply) : Bytes :=
  serialise json (replyObject qt reply)

/-- The checks a typed credential passes. -/
def fieldAcceptable (value : QString) : Bool :=
  !hasControlChars value && utf8Size value ≤ maxFieldBytes

/-- The components of the decoded path. -/
def pathParts (url : Url) : List QString := splitSkipEmpty '/' url.path

/-- The share component of a lookup target; empty unless it is the whole path. -/
def shareOf (url : Url) : QString :=
  match pathParts url with
  | [share] => share
  | _ => []

/-- An absent or null field is zero. -/
def takeUnsigned (object : JsonObject) (key : QString) : Except QString UInt64 :=
  match object.lookup key with
  | none | some .null => .ok 0
  | some (.number (some n)) =>
    if 0 ≤ n ∧ n < 2 ^ 53 then .ok (UInt64.ofNat n.toNat)
    else .error (qs "field '" ++ key ++ qs "' is not a whole number in range")
  | some (.number none) => .error (qs "field '" ++ key ++ qs "' is not a whole number in range")
  | some _ => .error (qs "field '" ++ key ++ qs "' is not a number")

def requestKeys : List QString :=
  [qs "protocol", qs "target", qs "username", qs "windowId", qs "userTime"]

/-- The child looks at the target's shape again. -/
def isShareTarget (url : Url) : Bool :=
  url.valid && url.scheme = qs "smb" && url.host ≠ [] && !url.hasQuery && !url.hasFragment &&
    url.userInfo = [] && url.port.isNone && shareOf url ≠ []

def decodeRequest (qt : Qt) (json : Json) (raw : Bytes) : Except QString Request := do
  let object ← openEnvelope json raw requestKeys
  let target ← takeString object (qs "target")
  let username ← takeString object (qs "username")
  let windowId ← takeUnsigned object (qs "windowId")
  let userTime ← takeUnsigned object (qs "userTime")
  let url := qt.parseUrl .strict target
  require (isShareTarget url) (qs "target is not an smb://host/share URL")
  require (fieldAcceptable username) (qs "requested username is not a valid credential field")
  return { target := url, username := username, windowId := windowId, userTime := userTime }

/-- The answer must not contradict the question. -/
def sameLocation (qt : Qt) (answered requested : Url) : Bool :=
  !(answered.valid && !answered.empty) ||
    qt.sameFolded answered.scheme requested.scheme && qt.sameFolded answered.host requested.host &&
      (shareOf answered = [] || shareOf answered = shareOf requested)

/-- Every check that does not depend on the requested account; the result is the
account of the reply. -/
def checkReply (qt : Qt) (reply : Reply) (requestedTarget : Url) : Except QString Identity := do
  require (reply.outcome = .candidate) (qs "no stored credential for this share")
  require (sameLocation qt reply.resultUrl requestedTarget)
    (qs "the reply describes a different location")
  require (fieldAcceptable reply.username && fieldAcceptable reply.domain &&
    fieldAcceptable reply.password) (qs "the stored credential is not usable here")
  let found := splitDomainUser reply.username
  require (found.username ≠ []) (qs "no usable username in the stored credential")
  require (found.domain = [] || reply.domain = [] || qt.sameFolded found.domain reply.domain)
    (qs "the stored credential names two different domains")
  return found

/-- The account must be the one asked for, if one was. -/
def checkAccount (qt : Qt) (found : Identity) (requestedUsername : QString) : Except QString Unit :=
  if requestedUsername = [] then .ok ()
  else do
    let asked := splitDomainUser requestedUsername
    require (qt.sameFolded found.username asked.username)
      (qs "the stored credential is for a different account")
    require (asked.domain = [] || found.domain = [] || qt.sameFolded asked.domain found.domain)
      (qs "the stored credential is for a different domain")

/-- The acceptance policy. -/
def acceptCandidate (qt : Qt) (reply : Reply) (requestedTarget : Url)
    (requestedUsername : QString) :
    Except QString Candidate := do
  let found ← checkReply qt reply requestedTarget
  checkAccount qt found requestedUsername
  -- The realm served only the contradiction check; the domain comes from the name.
  return { username := found.username, domain := found.domain, password := reply.password }

section Accepted

def sampleTarget : Url := plainUrl (qs "smb://nas/data")

/-- A stored credential of the given name. -/
def sampleReply (resultUrl username : QString) : Reply where
  outcome := .candidate
  resultUrl := plainUrl resultUrl
  username := username
  domain := []
  password := qs "secret"

variable {qt : Qt} {reply : Reply} {target : Url} {requested : QString}

theorem checkReply_eq_ok {found : Identity} :
    checkReply qt reply target = .ok found ↔
      reply.outcome = .candidate ∧ sameLocation qt reply.resultUrl target = true ∧
      (fieldAcceptable reply.username && fieldAcceptable reply.domain &&
        fieldAcceptable reply.password) = true ∧
      (splitDomainUser reply.username).username ≠ [] ∧
      ((splitDomainUser reply.username).domain = [] ∨ reply.domain = [] ∨
        qt.sameFolded (splitDomainUser reply.username).domain reply.domain = true) ∧
      splitDomainUser reply.username = found := by
  simp only [checkReply, bind_eq_ok, require_eq_ok, pure_eq_ok, exists_const, decide_eq_true_eq,
    Bool.or_eq_true, or_assoc]

theorem acceptCandidate_eq_ok {candidate : Candidate} :
    acceptCandidate qt reply target requested = .ok candidate ↔
      ∃ found, checkReply qt reply target = .ok found ∧ checkAccount qt found requested = .ok () ∧
        { username := found.username, domain := found.domain, password := reply.password } =
          candidate := by
  simp only [acceptCandidate, bind_eq_ok, pure_eq_ok, Unique.exists_iff, PUnit.default_eq_unit]

/-- The requested-account check is the form's own comparison of two accounts. -/
theorem checkAccount_eq_ok (hrequested : requested ≠ []) :
    checkAccount qt (splitDomainUser reply.username) requested = .ok () ↔
      sameIdentity qt requested reply.username = true := by
  simp only [checkAccount, if_neg hrequested, bind_eq_ok, require_eq_ok, exists_const, sameIdentity,
    Bool.and_eq_true, Bool.or_eq_true, decide_eq_true_eq, or_assoc,
    sameFolded_comm (a := (splitDomainUser reply.username).username)]

/-- The form compares the requested account with the bare name it was given. -/
theorem sameIdentity_username {found : Identity}
    (h : qt.sameFolded (splitDomainUser requested).username found.username = true) :
    sameIdentity qt requested found.username = true ↔
      (splitDomainUser found.username).domain = [] := by
  rcases splitDomainUser_cases found.username with hwhole | ⟨hdomain, hshorter⟩
  · simp only [sameIdentity, hwhole, h, decide_true, Bool.or_true, Bool.true_or, Bool.and_self]
  · refine iff_of_false (fun hsame => ?_) hdomain
    rw [sameIdentity, Bool.and_eq_true] at hsame
    have hlength := (length_of_sameFolded h).symm.trans (length_of_sameFolded hsame.1)
    omega

/-- An accepted credential is for the requested account, by the form's own
comparison of its full name; of its bare name exactly when that is not split
again. Conversely, no such account is refused. -/
theorem accepted_sameIdentity_iff (qt : Qt) (reply : Reply) (target : Url) {requested : QString}
    (hrequested : requested ≠ []) :
    ((∀ candidate, acceptCandidate qt reply target requested = .ok candidate →
        sameIdentity qt requested reply.username = true ∧
          sameIdentity qt requested candidate.username = true) ∧
      ((∃ found, checkReply qt reply target = .ok found) →
        sameIdentity qt requested reply.username = true →
        ∃ candidate, acceptCandidate qt reply target requested = .ok candidate)) ↔
    ∀ found, checkReply qt reply target = .ok found →
      sameIdentity qt requested reply.username = true →
      (splitDomainUser found.username).domain = [] := by
  have hfound : ∀ {found}, checkReply qt reply target = .ok found →
      splitDomainUser reply.username = found := fun h => (checkReply_eq_ok.mp h).2.2.2.2.2
  have haccept : ∀ {found}, checkReply qt reply target = .ok found →
      sameIdentity qt requested reply.username = true →
      acceptCandidate qt reply target requested = .ok
        { username := found.username, domain := found.domain, password := reply.password } := by
    intro found hcheck hsame
    refine acceptCandidate_eq_ok.mpr ⟨found, hcheck, ?_, rfl⟩
    rw [← hfound hcheck]
    exact (checkAccount_eq_ok hrequested).mpr hsame
  have hbare : ∀ {found}, splitDomainUser reply.username = found →
      sameIdentity qt requested reply.username = true →
      (sameIdentity qt requested found.username = true ↔
        (splitDomainUser found.username).domain = []) := by
    rintro found rfl hsame
    rw [sameIdentity, Bool.and_eq_true] at hsame
    exact sameIdentity_username hsame.1
  constructor
  · rintro ⟨hsound, -⟩ found hcheck hsame
    exact (hbare (hfound hcheck) hsame).mp (hsound _ (haccept hcheck hsame)).2
  · refine fun hwhole => ⟨fun candidate hok => ?_, fun ⟨found, hcheck⟩ hsame =>
      ⟨_, haccept hcheck hsame⟩⟩
    obtain ⟨found, hcheck, haccount, rfl⟩ := acceptCandidate_eq_ok.mp hok
    rw [← hfound hcheck] at haccount
    have hsame := (checkAccount_eq_ok hrequested).mp haccount
    exact ⟨hsame, (hbare (hfound hcheck) hsame).mpr (hwhole found hcheck hsame)⟩

theorem accepted_sameIdentity_sample :
    sameIdentity sampleQt (qs "WORK\\Ann") (qs "work/ann") = true ∧
      sameIdentity sampleQt (qs "WORK\\Ann") (qs "ann") = true := by
  have hrequested : qs "WORK\\Ann" ≠ [] := by decide
  have h := (accepted_sameIdentity_iff sampleQt (sampleReply (qs "smb://nas/data") (qs "work/ann"))
    sampleTarget hrequested).mpr
  refine (h fun found hcheck _ => ?_).1
    { username := qs "ann", domain := qs "work", password := qs "secret" } (by decide +kernel)
  rw [← (checkReply_eq_ok.mp hcheck).2.2.2.2.2]
  decide +kernel

/-- A bare name that holds a separator itself is split a second time. -/
theorem accepted_sameIdentity_twice :
    acceptCandidate sampleQt (sampleReply (qs "smb://nas/data") (qs "A\\B\\c")) sampleTarget
        (qs "A\\B\\c") =
      .ok { username := qs "B\\c", domain := qs "A", password := qs "secret" } ∧
      sameIdentity sampleQt (qs "A\\B\\c") (qs "B\\c") = false := by
  decide +kernel

/-- The reply names a share below which its path goes on, and not the requested one. -/
def ForeignSubfolder (answered : Url) (share : QString) : Prop :=
  answered.valid = true ∧ answered.empty = false ∧
    ∃ first second rest, pathParts answered = first :: second :: rest ∧ first ≠ share

/-- Every check of the policy but the one of the share. -/
def OtherChecks (qt : Qt) (reply : Reply) (target : Url) (requested : QString) : Prop :=
  reply.outcome = .candidate ∧ qt.sameFolded reply.resultUrl.scheme target.scheme = true ∧
    qt.sameFolded reply.resultUrl.host target.host = true ∧
    (fieldAcceptable reply.username && fieldAcceptable reply.domain &&
      fieldAcceptable reply.password) = true ∧
    (splitDomainUser reply.username).username ≠ [] ∧
    ((splitDomainUser reply.username).domain = [] ∨ reply.domain = [] ∨
      qt.sameFolded (splitDomainUser reply.username).domain reply.domain = true) ∧
    checkAccount qt (splitDomainUser reply.username) requested = .ok ()

theorem acceptCandidate_isOk :
    (∃ candidate, acceptCandidate qt reply target requested = .ok candidate) ↔
      reply.outcome = .candidate ∧ sameLocation qt reply.resultUrl target = true ∧
      (fieldAcceptable reply.username && fieldAcceptable reply.domain &&
        fieldAcceptable reply.password) = true ∧
      (splitDomainUser reply.username).username ≠ [] ∧
      ((splitDomainUser reply.username).domain = [] ∨ reply.domain = [] ∨
        qt.sameFolded (splitDomainUser reply.username).domain reply.domain = true) ∧
      checkAccount qt (splitDomainUser reply.username) requested = .ok () := by
  constructor
  · rintro ⟨candidate, hok⟩
    obtain ⟨found, hcheck, haccount, -⟩ := acceptCandidate_eq_ok.mp hok
    obtain ⟨houtcome, hlocation, hfields, hname, hdomain, rfl⟩ := checkReply_eq_ok.mp hcheck
    exact ⟨houtcome, hlocation, hfields, hname, hdomain, haccount⟩
  · rintro ⟨houtcome, hlocation, hfields, hname, hdomain, haccount⟩
    exact ⟨_, acceptCandidate_eq_ok.mpr ⟨_, checkReply_eq_ok.mpr
      ⟨houtcome, hlocation, hfields, hname, hdomain, rfl⟩, haccount, rfl⟩⟩

theorem sameLocation_eq_true {answered : Url} (hvalid : answered.valid = true)
    (hempty : answered.empty = false) :
    sameLocation qt answered target = true ↔
      qt.sameFolded answered.scheme target.scheme = true ∧
        qt.sameFolded answered.host target.host = true ∧
        (shareOf answered = [] ∨ shareOf answered = shareOf target) := by
  simp only [sameLocation, hvalid, hempty, Bool.not_false, Bool.and_self, Bool.not_true,
    Bool.false_or, Bool.and_eq_true, Bool.or_eq_true, decide_eq_true_eq, and_assoc]

/-- An accepted credential is from the requested location, unless its path goes on
below another share and no other check refuses it. -/
theorem accepted_location_iff (qt : Qt) (reply : Reply) (target : Url) (requested : QString)
    {share : QString} (htarget : pathParts target = [share]) :
    (∀ candidate, acceptCandidate qt reply target requested = .ok candidate →
      reply.resultUrl.valid = true → reply.resultUrl.empty = false →
      qt.sameFolded reply.resultUrl.scheme target.scheme = true ∧
        qt.sameFolded reply.resultUrl.host target.host = true ∧
        ∀ first rest, pathParts reply.resultUrl = first :: rest → first = share) ↔
    ¬(ForeignSubfolder reply.resultUrl share ∧ OtherChecks qt reply target requested) := by
  constructor
  · rintro hlocated ⟨⟨hvalid, hempty, first, second, rest, hparts, hne⟩,
      houtcome, hscheme, hhost, hfields, hname, hdomain, haccount⟩
    have hshare : shareOf reply.resultUrl = [] := by rw [shareOf, hparts]
    obtain ⟨candidate, hok⟩ := acceptCandidate_isOk.mpr
      ⟨houtcome, (sameLocation_eq_true hvalid hempty).mpr ⟨hscheme, hhost, Or.inl hshare⟩, hfields,
        hname, hdomain, haccount⟩
    exact hne ((hlocated candidate hok hvalid hempty).2.2 first _ hparts)
  · intro hother candidate hok hvalid hempty
    obtain ⟨houtcome, hlocation, hfields, hname, hdomain, haccount⟩ :=
      acceptCandidate_isOk.mp ⟨candidate, hok⟩
    obtain ⟨hscheme, hhost, hshare⟩ := (sameLocation_eq_true hvalid hempty).mp hlocation
    refine ⟨hscheme, hhost, fun first rest hparts => ?_⟩
    cases rest with
    | nil =>
      have hfirst : shareOf reply.resultUrl = first := by rw [shareOf, hparts]
      have hrequested : shareOf target = share := by rw [shareOf, htarget]
      rw [hfirst, hrequested] at hshare
      refine hshare.resolve_left ?_
      have hmem : first ∈ pathParts reply.resultUrl := hparts ▸ List.mem_singleton_self first
      exact of_decide_eq_true (List.mem_filter.mp hmem).2
    | cons second rest =>
      by_contra hne
      exact hother ⟨⟨hvalid, hempty, first, second, rest, hparts, hne⟩,
        houtcome, hscheme, hhost, hfields, hname, hdomain, haccount⟩

/-- An entry of the whole server answers for a share on it. -/
theorem accepted_location_sample :
    sampleQt.sameFolded (plainUrl (qs "smb://NAS/")).host sampleTarget.host = true ∧
      pathParts (plainUrl (qs "smb://NAS/")) = [] := by
  have htarget : pathParts sampleTarget = [qs "data"] := by decide +kernel
  have h :=
    (accepted_location_iff sampleQt (sampleReply (qs "smb://NAS/") (qs "ann")) sampleTarget []
    htarget).mpr
  have hparts : pathParts (plainUrl (qs "smb://NAS/")) = [] := by decide +kernel
  refine ⟨(h ?_ { username := qs "ann", domain := [], password := qs "secret" } (by decide +kernel)
    (by decide +kernel) (by decide +kernel)).2.1, hparts⟩
  rintro ⟨⟨-, -, first, second, rest, hlong, -⟩, -⟩
  exact nomatch hparts.symm.trans hlong

/-- A credential of a folder in another share is accepted. -/
theorem accepted_location_other :
    acceptCandidate sampleQt (sampleReply (qs "smb://nas/backup/2024") (qs "ann")) sampleTarget [] =
        .ok { username := qs "ann", domain := [], password := qs "secret" } ∧
      pathParts sampleTarget = [qs "data"] ∧
      pathParts (plainUrl (qs "smb://nas/backup/2024")) = [qs "backup", qs "2024"] := by
  decide +kernel

end Accepted

end CredentialLookup

end NasMount.Session
