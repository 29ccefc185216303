import NasMount.Core.MountpointRoots
import NasMount.Foundation.Checks
import NasMount.Foundation.Pattern

/-!
# The install manifest

The list of installed files decides what an uninstall deletes. Every line has to
match an allowlist, every component of the program has to be listed exactly once,
and the components with a place of their own on each distribution have to agree
on one layout.
-/
namespace NasMount.Session

open NasMount.Foundation NasMount.Core QString Pattern

section Patterns

def notSlash (c : Char) : Bool := c ≠ '/'

def isLower (c : Char) : Bool := 'a' ≤ c && c ≤ 'z'

def isUpper (c : Char) : Bool := 'A' ≤ c && c ≤ 'Z'

/-- `(?:lib/[^/]+/libexec/kf6/kauth|lib/kf6/kauth/libexec|libexec/kf6/kauth)/nasmount-helper` -/
def helperPattern : Pattern :=
  seq
    (oneOf [seq (text (qs "lib/")) (seq (Pattern.some notSlash) (text (qs "/libexec/kf6/kauth"))),
      text (qs "lib/kf6/kauth/libexec"), text (qs "libexec/kf6/kauth")])
    (text (qs "/nasmount-helper"))

/-- `(?:lib/[^/]+/libexec|lib64/libexec|libexec)` -/
def libexecPattern : Pattern :=
  oneOf [seq (text (qs "lib/")) (seq (Pattern.some notSlash) (text (qs "/libexec"))),
    text (qs "lib64/libexec"), text (qs "libexec")]

/-- `(?:lib/[^/]+|lib64)/qt6/plugins/plasma/kcms/systemsettings/kcm_nasmount\.so` -/
def pluginPattern : Pattern :=
  seq (oneOf [seq (text (qs "lib/")) (Pattern.some notSlash), text (qs "lib64")])
    (text (qs "/qt6/plugins/plasma/kcms/systemsettings/kcm_nasmount.so"))

/-- `[a-z]{2,3}(?:_[A-Z]{2})?(?:@[a-z]+)?` -/
def languagePattern : Pattern :=
  seq (run isLower 2 (Option.some 3))
    (seq (opt (seq (text (qs "_")) (run isUpper 2 (Option.some 2))))
      (opt (seq (text (qs "@")) (Pattern.some isLower))))

/-- `share/locale/[a-z]{2,3}(?:_[A-Z]{2})?(?:@[a-z]+)?/LC_MESSAGES/kcm_nasmount\.mo` -/
def catalogPattern : Pattern :=
  seq (text (qs "share/locale/")) (seq languagePattern (text (qs "/LC_MESSAGES/kcm_nasmount.mo")))

def presetPath : QString := qs "/usr/lib/systemd/system-preset/90-nasmount.preset"

def changelogPath : QString := qs "/usr/share/doc/nasmount/changelog.Debian.gz"

def copyrightPath : QString := qs "/usr/share/doc/nasmount/copyright"

/-- The paths that may be listed. -/
def allowed : Pattern :=
  seq (text (qs "/usr/")) <| oneOf
    [seq (text (qs "bin/nasmount"))
        (opt (seq (text (qs "-"))
          (oneOf [text (qs "dialog"), text (qs "cleanup"), text (qs "uninstall")]))),
      helperPattern,
      seq libexecPattern
        (seq (text (qs "/nasmount-")) (oneOf [text (qs "boot"), text (qs "package-guard")])),
      pluginPattern,
      text (qs "lib/systemd/system/nasmount-boot.service"),
      text (qs "lib/systemd/system-preset/90-nasmount.preset"),
      seq (text (qs "share/applications/"))
        (seq (oneOf [text (qs "kcm_nasmount"),
          text (qs "nasmount-manager")]) (text (qs ".desktop"))),
      text (qs "share/polkit-1/actions/io.github.pakru.nasmount.policy"),
      text (qs "share/dbus-1/system.d/io.github.pakru.nasmount.conf"),
      text (qs "share/dbus-1/system-services/io.github.pakru.nasmount.service"),
      text (qs "share/kio/servicemenus/nasmount.desktop"),
      catalogPattern,
      seq (text (qs "share/nasmount/"))
        (oneOf [text (qs "cleanup-manifest.txt"), text (qs "package-family")]),
      seq (text (qs "share/"))
        (seq (oneOf [text (qs "doc"), text (qs "licenses")]) (text (qs "/nasmount/LICENSE"))),
      seq (text (qs "share/doc/nasmount/"))
        (oneOf [text (qs "changelog.Debian.gz"), text (qs "copyright")])]

/-- The components, each of which has to be listed exactly once. -/
def requiredPatterns : List Pattern :=
  [text (qs "/usr/bin/nasmount-dialog"), text (qs "/usr/bin/nasmount-cleanup"),
    text (qs "/usr/bin/nasmount-uninstall"), text (qs "/usr/bin/nasmount"),
    seq (text (qs "/usr/")) helperPattern,
    seq (text (qs "/usr/")) (seq libexecPattern (text (qs "/nasmount-boot"))),
    seq (text (qs "/usr/")) (seq libexecPattern (text (qs "/nasmount-package-guard"))),
    seq (text (qs "/usr/")) pluginPattern,
    text (qs "/usr/lib/systemd/system/nasmount-boot.service"),
    text (qs "/usr/share/applications/kcm_nasmount.desktop"),
    text (qs "/usr/share/applications/nasmount-manager.desktop"),
    text (qs "/usr/share/polkit-1/actions/io.github.pakru.nasmount.policy"),
    text (qs "/usr/share/dbus-1/system.d/io.github.pakru.nasmount.conf"),
    text (qs "/usr/share/dbus-1/system-services/io.github.pakru.nasmount.service"),
    text (qs "/usr/share/kio/servicemenus/nasmount.desktop"),
    text (qs "/usr/share/nasmount/cleanup-manifest.txt"),
    text (qs "/usr/share/nasmount/package-family"),
    seq (text (qs "/usr/share/"))
      (seq (oneOf [text (qs "doc"), text (qs "licenses")]) (text (qs "/nasmount/LICENSE")))]

def catalog : Pattern := seq (text (qs "/usr/")) catalogPattern

/-- `^/usr/lib/(?:[^/]+/libexec/kf6/kauth|kf6/kauth/libexec)/nasmount-helper$` -/
def debHelper : Pattern :=
  seq (text (qs "/usr/lib/"))
    (seq (oneOf [seq (Pattern.some notSlash) (text (qs "/libexec/kf6/kauth")),
      text (qs "kf6/kauth/libexec")]) (text (qs "/nasmount-helper")))

/-- `^/usr/lib/[^/]+/libexec/<name>$` -/
def debLibexec (name : QString) : Pattern :=
  seq (text (qs "/usr/lib/")) (seq (Pattern.some notSlash) (text (qs "/libexec/" ++ name)))

def debBoot : Pattern := debLibexec (qs "nasmount-boot")

def debGuard : Pattern := debLibexec (qs "nasmount-package-guard")

/-- `^/usr/lib/[^/]+/qt6/plugins/.+/kcm_nasmount\.so$` -/
def debPlugin : Pattern :=
  seq (text (qs "/usr/lib/"))
    (seq (Pattern.some notSlash)
      (seq (text (qs "/qt6/plugins/"))
        (seq (Pattern.some fun c => c ≠ '\n') (text (qs "/kcm_nasmount.so")))))

end Patterns

section Validation

/-- `QFile::readLine`, again and again: every line with its line break. -/
def readLines : List UInt8 → List (List UInt8)
  | [] => []
  | byte :: bytes =>
    if byte = 10 then [byte] :: readLines bytes
    else
      match readLines bytes with
      | [] => [[byte]]
      | line :: lines => (byte :: line) :: lines

/-- One turn of the loop over the lines. -/
def readTarget (fromUtf8 : List UInt8 → QString) (targets : List QString) (raw : List UInt8) :
    Except QString (List QString) :=
  if raw.length > 4096 then .error (qs "install manifest contains an overlong line")
  else
    let path := trimmed (fromUtf8 raw)
    if path = [] then .ok targets
    else if !allowed.accepts path then
      .error (qs "install manifest contains an unexpected path: " ++ path)
    else if path ∈ targets then
      .error (qs "install manifest contains a duplicate path: " ++ path)
    else .ok (targets ++ [path])

/-- The number of targets that match. -/
def matchCount (targets : List QString) (p : Pattern) : ℕ := targets.countP p.accepts

def containsPattern (targets : List QString) (p : Pattern) : Bool := targets.any p.accepts

/-- The counts: nothing missing, nothing twice, nothing left over. -/
def checkComplete (targets : List QString) : Except QString Unit := do
  let hasPreset := decide (presetPath ∈ targets)
  let hasDebianChangelog := decide (changelogPath ∈ targets)
  let hasDebianCopyright := decide (copyrightPath ∈ targets)
  require
    (hasDebianChangelog = hasDebianCopyright ∧
      targets.length = requiredPatterns.length + (if hasPreset then 1 else 0) +
        (if hasDebianChangelog then 2 else 0) + matchCount targets catalog)
    (qs "install manifest is incomplete")
  require (requiredPatterns.all fun p => matchCount targets p = 1)
    (qs "install manifest is missing or duplicates an installed component")

def completeDebLayout (targets : List QString) : Bool :=
  containsPattern targets debHelper && containsPattern targets debBoot &&
    containsPattern targets debGuard && containsPattern targets debPlugin

def completeRpmLayout (targets : List QString) : Bool :=
  decide (qs "/usr/libexec/kf6/kauth/nasmount-helper" ∈ targets) &&
    decide (qs "/usr/lib64/libexec/nasmount-boot" ∈ targets) &&
    decide (qs "/usr/lib64/libexec/nasmount-package-guard" ∈ targets) &&
    decide (qs "/usr/lib64/qt6/plugins/plasma/kcms/systemsettings/kcm_nasmount.so" ∈ targets)

/-- One distribution's layout, and only that one. -/
def checkLayout (targets : List QString) : Except QString Unit :=
  let hasPreset := decide (presetPath ∈ targets)
  let hasDebianChangelog := decide (changelogPath ∈ targets)
  let hasFedoraLicense := decide (qs "/usr/share/licenses/nasmount/LICENSE" ∈ targets)
  require
    (!(completeDebLayout targets == completeRpmLayout targets ||
      (hasPreset && (!completeRpmLayout targets || !hasFedoraLicense)) ||
      (hasDebianChangelog && !completeDebLayout targets)))
    (qs "install manifest mixes or incompletely describes distribution layouts")

/-- Validate a manifest file, which `none` says cannot be opened; the result is
the exact paths. -/
def validateInstallManifest (fromUtf8 : List UInt8 → QString) (manifestPath : QString)
    (file : Option (List UInt8)) : Except QString (List QString) := do
  match file with
  | Option.none => throw (qs "cannot read install manifest " ++ manifestPath)
  | Option.some content =>
    require (content.length ≤ 64 * 1024) (qs "install manifest is unexpectedly large")
    let targets ← (readLines content).foldlM (readTarget fromUtf8) []
    checkComplete targets
    checkLayout targets
    return targets

end Validation

end NasMount.Session
