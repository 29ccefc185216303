import NasMount.Core.UnitSpec

/-!
# The spelling of a share

The `smb://` form people see and the `//host/share` form everything else uses.
What Qt decides (the parts of a URL, the folding of letter case) is a parameter;
every rule on top of it is the program's own.
-/
namespace NasMount.Session

open NasMount.Foundation NasMount.Core QString

/-- The accessors of a `QUrl`; path and user name are fully decoded. -/
structure Url where
  valid : Bool
  empty : Bool := false
  scheme : QString
  host : QString
  path : QString
  userName : QString := []
  /-- `userInfo(QUrl::FullyEncoded)`. -/
  userInfo : QString := []
  hasQuery : Bool := false
  hasFragment : Bool := false
  port : Option ℕ := none
  /-- The cause `errorString()` names, before the repeated source. -/
  errorCause : QString := []
  deriving DecidableEq

/-- The default-constructed `QUrl`. -/
def Url.none : Url where
  valid := false
  empty := true
  scheme := []
  host := []
  path := []

inductive ParsingMode
  | tolerant
  | strict
  deriving DecidableEq, Repr

/-- What the program takes from Qt. -/
structure Qt where
  /-- The folding of `Qt::CaseInsensitive`, character by character. -/
  foldCase : Char → Char
  parseUrl : ParsingMode → QString → Url
  setHost : Url → QString → Url
  setPath : Url → QString → Url
  /-- `toString(QUrl::FullyEncoded)`. -/
  encoded : Url → QString

/-- `QString::compare` with `Qt::CaseInsensitive` finds no difference. -/
def Qt.sameFolded (qt : Qt) (a b : QString) : Bool := a.map qt.foldCase = b.map qt.foldCase

namespace ShareAddress

def smbPrefix : QString := qs "smb://"

def hasSmbPrefix (qt : Qt) (input : QString) : Bool :=
  qt.sameFolded (input.take smbPrefix.length) smbPrefix

def isHexDigit (c : Char) : Bool :=
  isDigit c || ('A' ≤ c && c ≤ 'F') || ('a' ≤ c && c ≤ 'f')

/-- `%(?![0-9A-Fa-f]{2})` matches somewhere. -/
def hasBadEscape : QString → Bool
  | [] => false
  | c :: rest =>
    c = '%' && !(rest.length ≥ 2 && (rest.take 2).all isHexDigit) || hasBadEscape rest

/-- The loops that remove slashes at both ends. -/
def stripSlashes (path : QString) : QString := chopTrailing '/' (path.dropWhile (· = '/'))

/-- The URL a text stands for: strict where possible, else tolerant. -/
def readUrl (qt : Qt) (raw : QString) : Except QString Url :=
  let strict := qt.parseUrl .strict raw
  if strict.valid then .ok strict
  else if hasBadEscape raw then .error (qs "This URL contains a malformed % escape: " ++ raw)
  else
    let url := qt.parseUrl .tolerant raw
    if url.valid then .ok url else .error (qs "Not a valid address: " ++ url.errorCause)

/-- The UNC a `smb://` URL names, and its user. -/
def parseSmbUrl (qt : Qt) (raw : QString) : Except QString (QString × QString) := do
  let url ← readUrl qt raw
  require (url.scheme = qs "smb") (qs "Not an smb:// URL: " ++ raw)
  require (!(url.hasQuery || url.hasFragment || url.userInfo.contains ':' || url.port.isSome))
    (qs "This URL has parts that are not supported here (port, password, query or fragment): " ++
      raw)
  require (url.host ≠ []) (qs "No host in URL: " ++ raw)
  require (!url.host.contains ':') (qs "IPv6 hosts are not supported yet: " ++ url.host)
  let path := stripSlashes url.path
  require (path ≠ [])
    (qs "This points at a server, not a share - add the share name after the server " ++
      qs "(smb://server/share).")
  require (!(hasControlChars url.host || hasControlChars path || hasControlChars url.userName))
    (qs "The URL contains control characters.")
  return (qs "//" ++ url.host ++ qs "/" ++ path, url.userName)

/-- A username split into its domain and bare-name halves. -/
structure Identity where
  domain : QString
  username : QString
  deriving DecidableEq

def isSeparator (c : Char) : Bool := c = '/' || c = '\\'

/-- Splits `DOMAIN\user` or `DOMAIN/user`: the first separator wins, and one at
position 0 does not split. -/
def splitDomainUser (combined : QString) : Identity :=
  match combined.findIdx? isSeparator with
  | none | some 0 => { domain := [], username := combined }
  | some position =>
    { domain := combined.take position, username := combined.drop (position + 1) }

/-- Whether two usernames name the same account. -/
def sameIdentity (qt : Qt) (a b : QString) : Bool :=
  let left := splitDomainUser a
  let right := splitDomainUser b
  qt.sameFolded left.username right.username &&
    (left.domain = [] || right.domain = [] || qt.sameFolded left.domain right.domain)

/-- The three characters that would not read back as themselves are encoded. -/
def displayChar (c : Char) : QString :=
  if c = '%' then qs "%25" else if c = '#' then qs "%23" else if c = '?' then qs "%3F" else [c]

def displayUrl (unc : QString) : QString :=
  match stripPrefix? (qs "//") unc with
  | none => unc
  | some rest => smbPrefix ++ rest.flatMap displayChar

/-- The check of a user the address names against the Username field. -/
def checkUrlUser (qt : Qt) (urlUser username : QString) : Except QString Unit :=
  if urlUser = [] then .ok ()
  else if username = [] then
    .error
      (qs "the smb:// address names a user - enter it in Username, or remove it from the address")
  else
    require (sameIdentity qt urlUser username)
      (qs "the smb:// address names a different user than the Username field")

/-- The UNC form of the input, and the user it names. -/
def readShareInput (qt : Qt) (input : QString) : Except QString (QString × QString) :=
  if hasSmbPrefix qt input then parseSmbUrl qt input
  else if startsWith input (qs "//") then .ok (input, [])
  else .error (qs "not a share address (expected smb://host/share)")

/-- The input of the Share field, in either spelling, as a normalised UNC. -/
def resolveShareInput (qt : Qt) (input username : QString) : Except QString QString := do
  let (candidate, urlUser) ← readShareInput qt input
  require (!hasControlChars candidate) (qs "the share address contains control characters")
  require (!candidate.contains ',') (qs "the share address may not contain a comma")
  let normalised ← (validateUnc candidate).mapError fun _ =>
    qs "not a valid share address (expected smb://host/share[/subdir], with no '..' component)"
  checkUrlUser qt urlUser username
  return normalised

def userInShareInput (qt : Qt) (input : QString) : QString :=
  if hasSmbPrefix qt input then
    match parseSmbUrl qt input with
    | .ok (_, user) => user
    | .error _ => []
  else []

/-- The refusal of `resolveShareInput`, worded for display. -/
def shareInputProblem (qt : Qt) (input username : QString) : QString :=
  let rest :=
    if hasSmbPrefix qt input then input.drop smbPrefix.length
    else (stripPrefix? (qs "//") input).getD input
  if rest = [] then qs "Enter the share address, for example smb://nas/Media"
  else
    match resolveShareInput qt input username with
    | .ok _ => []
    | .error [] => []
    | .error (c :: cs) => c.toUpper :: cs

/-- What a folder picked in the Share browser puts into the form. -/
structure BrowsedShare where
  input : QString
  user : QString
  deriving DecidableEq

def browsedShareInput (qt : Qt) (picked : Url) : Except QString BrowsedShare := do
  require (qt.sameFolded picked.scheme (qs "smb"))
    (qs "Choose a folder on a network share (smb://)")
  require (!(picked.hasQuery || picked.hasFragment || picked.userInfo.contains ':' ||
    picked.port.isSome))
    (qs "This address has parts that are not supported here (port, password, query or fragment)")
  require (picked.host ≠ []) (qs "Choose a share on a server, not the network root")
  require (!picked.host.contains ':') (qs "IPv6 hosts are not supported yet")
  let path := stripSlashes picked.path
  require (!(hasControlChars picked.host || hasControlChars path ||
    hasControlChars picked.userName))
    (qs "The address contains control characters")
  let unc := if path = [] then qs "//" ++ picked.host else qs "//" ++ picked.host ++ qs "/" ++ path
  return { input := displayUrl unc, user := picked.userName }

/-- The part of a UNC between two slashes: `section('/', i, i)`. -/
def uncSection (rest : QString) (i : ℕ) : QString := (split '/' rest).getD i []

/-- The lookup target of a share: the server and the first path component. -/
def authLookupTarget (qt : Qt) (unc : QString) : Url :=
  let rest := unc.dropWhile (· = '/')
  let host := uncSection rest 0
  let share := uncSection rest 1
  if host = [] ∨ share = [] then .none
  else
    let url := qt.setPath (qt.setHost (qt.parseUrl .tolerant (qs "smb:///")) host) ('/' :: share)
    if url.valid = false ∨ url.host ≠ host then .none else url

/-- `MountActions::lookupTargetOf`: which share the text names, if any. -/
def lookupTargetOf (qt : Qt) (shareInput : QString) : QString :=
  match resolveShareInput qt shareInput [] with
  | .error _ => []
  | .ok unc =>
    let target := authLookupTarget qt unc
    if target.valid then qt.encoded target else []

section Identity

variable {qt : Qt} {a b c : QString}

theorem sameFolded_comm : qt.sameFolded a b = qt.sameFolded b a := by
  simp only [Qt.sameFolded, eq_comm]

theorem length_of_sameFolded (h : qt.sameFolded a b = true) : a.length = b.length := by
  simpa using congrArg List.length (of_decide_eq_true h)

/-- A name that is not split is left as it is; else its bare name is shorter. -/
theorem splitDomainUser_cases (s : QString) :
    splitDomainUser s = { domain := [], username := s } ∨
      (splitDomainUser s).domain ≠ [] ∧ (splitDomainUser s).username.length < s.length := by
  unfold splitDomainUser
  cases hfind : s.findIdx? isSeparator with
  | none => exact Or.inl rfl
  | some position =>
    cases position with
    | zero => exact Or.inl rfl
    | succ position =>
      have hbound : position + 1 < s.length := by
        obtain ⟨h, -⟩ := List.findIdx?_eq_some_iff_getElem.mp hfind
        exact h
      right
      change s.take (position + 1) ≠ [] ∧ (s.drop (position + 1 + 1)).length < s.length
      constructor
      · rw [ne_eq, List.take_eq_nil_iff]
        rintro (h | rfl)
        · exact absurd h (Nat.succ_ne_zero _)
        · exact absurd hbound (Nat.not_lt_zero _)
      · rw [List.length_drop]
        omega

end Identity

/-- The parts of a URL without escapes, a port, a query or a fragment. -/
def plainUrl (text : QString) : Url :=
  match stripPrefix? smbPrefix text with
  | none => .none
  | some rest =>
    let authority := rest.takeWhile (· ≠ '/')
    let user := if authority.contains '@' then authority.takeWhile (· ≠ '@') else []
    { valid := true, scheme := qs "smb"
      host := ((authority.drop user.length).dropWhile (· = '@')).map Char.toLower
      path := rest.dropWhile (· ≠ '/'), userName := user, userInfo := user }

/-- Qt on URLs and names of plain ASCII characters. -/
def sampleQt : Qt where
  foldCase := Char.toLower
  parseUrl _ text := plainUrl text
  setHost url host := { url with host := host }
  setPath url path := { url with path := path }
  encoded url :=
    smbPrefix ++ (if url.userName = [] then [] else url.userName ++ ['@']) ++ url.host ++ url.path

end ShareAddress

end NasMount.Session
