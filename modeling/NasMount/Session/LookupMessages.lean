import NasMount.Session.CredentialLookup
import NasMount.Session.LookupKey

/-!
# What a lookup message carries

Both messages are JSON objects under one size ceiling, read back by a closed set of
keys. A request is lost only to the ceiling, and so is a reply; a credential that the
form would take is never lost.
-/
namespace NasMount.Session.CredentialLookup

open NasMount.Foundation NasMount.Core QString ShareAddress

section Json

variable {json : Json} {object read : JsonObject} {key : QString} {value : JsonValue}

/-- An object is written as some text, and read again with its fields in any order. -/
def ReadsBack (json : Json) (object : JsonObject) : Prop :=
  json.toJson object ≠ [] ∧ ∃ read, json.fromJson (json.toJson object) = .ok read ∧ read.Perm object

/-- The bytes a character takes in a written string: only the quote, the backslash and
control characters are escaped. -/
def escapedSize (c : Char) : ℕ :=
  if ['"', '\\', '\x08', '\x09', '\x0a', '\x0c', '\x0d'].contains c then 2
  else if c.toNat < 0x20 then 6
  else c.utf8Size

/-- The bytes of a written string between its quotes. -/
def textSize (text : QString) : ℕ := (text.map escapedSize).sum

def valueSize : JsonValue → ℕ
  | .string text => textSize text + 2
  | .number (some n) => (toString n).length
  | .number none | .null | .bool _ | .array | .object => 0

/-- Quotes, a colon and a comma or brace for every field, and the first brace. -/
def objectSize (object : JsonObject) : ℕ :=
  1 + (object.map fun field => textSize field.1 + 2 + 1 + valueSize field.2 + 1).sum

/-- The written object, of strings and whole numbers, has no blanks. -/
def WritesCompactly (json : Json) (object : JsonObject) : Prop :=
  (json.toJson object).length = objectSize object

theorem lookup_of_mem (hkeys : (object.map Prod.fst).Nodup) (hmem : (key, value) ∈ object) :
    object.lookup key = some value := by
  induction object with
  | nil => exact nomatch hmem
  | cons field object ih =>
    rw [List.map_cons, List.nodup_cons] at hkeys
    rcases List.mem_cons.mp hmem with rfl | hmem
    · exact List.lookup_cons_self
    · have hne : (key == field.1) = false := by
        rw [beq_eq_false_iff_ne]
        rintro rfl
        exact hkeys.1 (List.mem_map.mpr ⟨_, hmem, rfl⟩)
      rw [List.lookup_cons, hne]
      exact ih hkeys.2 hmem

/-- The fields of a message that was read again. -/
theorem openEnvelope_eq_ok {allowed : List QString} (hback : ReadsBack json object)
    (hkeys : (object.map Prod.fst).Nodup) (hallowed : ∀ field ∈ object, field.1 ∈ allowed)
    (hprotocol : (qs "protocol", JsonValue.number (some protocolVersion)) ∈ object)
    (hsize : (json.toJson object).length ≤ maxMessageBytes) :
    ∃ read, openEnvelope json (json.toJson object) allowed = .ok read ∧
      ∀ key value, (key, value) ∈ object → read.lookup key = some value := by
  obtain ⟨hne, read, hread, hperm⟩ := hback
  have hfields : ∀ key value, (key, value) ∈ object → read.lookup key = some value :=
    fun key value hmem =>
      lookup_of_mem ((hperm.map Prod.fst).nodup_iff.mpr hkeys) (hperm.mem_iff.mpr hmem)
  refine ⟨read, ?_, hfields⟩
  rw [openEnvelope]
  simp only [bind_eq_ok, require_eq_ok, exists_const, pure_eq_ok, mapError_eq_ok, forM_eq_ok,
    decide_eq_true_eq]
  refine ⟨hne, hsize, read, hread, hfields _ _ hprotocol, ?_, rfl⟩
  intro field hfield
  rw [List.contains_eq_mem, decide_eq_true_eq]
  exact hallowed field (hperm.mem_iff.mp hfield)

theorem takeString_eq_ok {text : QString} (h : read.lookup key = some (.string text)) :
    takeString read key = .ok text := by
  rw [takeString, h]

theorem takeUnsigned_eq_ok {n : UInt64} (hn : n.toNat < 2 ^ 53)
    (h : read.lookup key = some (.number (some (toDouble n.toNat)))) :
    takeUnsigned read key = .ok n := by
  have hexact : toDouble n.toNat = n.toNat := if_pos hn
  rw [takeUnsigned, h, hexact]
  dsimp only
  rw [if_pos ⟨Int.natCast_nonneg _, by exact_mod_cast hn⟩, Int.toNat_natCast, UInt64.ofNat_toNat]

/-- Text without control characters at most doubles. -/
theorem textSize_le {text : QString} (h : hasControlChars text = false) :
    textSize text ≤ 2 * utf8Size text := by
  induction text with
  | nil => exact Nat.zero_le _
  | cons c text ih =>
    rw [hasControlChars, List.any_cons, Bool.or_eq_false_iff] at h
    obtain ⟨hc, htext⟩ := h
    have hplain : ¬c.toNat < 0x20 := by
      intro hlow
      rw [decide_eq_true hlow] at hc
      exact absurd hc.symm Bool.false_ne_true
    have hchar : escapedSize c ≤ 2 * c.utf8Size := by
      have hpos := c.utf8Size_pos
      rw [escapedSize, if_neg hplain]
      split_ifs
      · omega
      · omega
    have hrest := ih htext
    simp only [textSize, utf8Size, List.map_cons, List.sum_cons] at hrest ⊢
    omega

theorem length_le_textSize (text : QString) : text.length ≤ textSize text := by
  induction text with
  | nil => exact Nat.zero_le _
  | cons c text ih =>
    have hpos : 1 ≤ escapedSize c := by
      have hsize := c.utf8Size_pos
      rw [escapedSize]
      split_ifs
      · omega
      · omega
      · omega
    simp only [textSize, List.map_cons, List.sum_cons, List.length_cons] at ih ⊢
    omega

theorem textSize_of_fieldAcceptable {value : QString} (h : fieldAcceptable value = true) :
    textSize value ≤ 2 * maxFieldBytes := by
  rw [fieldAcceptable, Bool.and_eq_true, Bool.not_eq_true', decide_eq_true_eq] at h
  have hsize := textSize_le h.1
  omega

theorem serialise_cases (json : Json) (object : JsonObject) :
    serialise json object = [] ∧ maxMessageBytes < (json.toJson object).length ∨
      serialise json object = json.toJson object ∧
        (json.toJson object).length ≤ maxMessageBytes := by
  rw [serialise]
  by_cases hlong : (json.toJson object).length > maxMessageBytes
  · rw [if_pos hlong]
    exact Or.inl ⟨rfl, hlong⟩
  · rw [if_neg hlong]
    exact Or.inr ⟨rfl, Nat.le_of_not_lt hlong⟩

end Json

section RoundTrips

variable {qt : Qt} {json : Json} {request : Request} {reply : Reply} {unc : QString}

/-- A URL that is printed fully encoded parses back strictly to itself. -/
def Reparses (qt : Qt) (url : Url) : Prop := qt.parseUrl .strict (qt.encoded url) = url

/-- The setters leave the rest of `smb:///` as it is. -/
def SetsTarget (qt : Qt) : Prop :=
  ∀ host share,
    let url := qt.setPath (qt.setHost (qt.parseUrl .tolerant (qs "smb:///")) host) ('/' :: share)
    url.valid = true → url.host = host → url = smbUrl host ('/' :: share)

theorem slash_notMem_uncSection (rest : QString) (i : ℕ) : '/' ∉ uncSection rest i := by
  rw [uncSection, List.getD_eq_getElem?_getD]
  cases hpart : (split '/' rest)[i]? with
  | none => exact List.not_mem_nil
  | some part => exact notMem_of_mem_split (List.mem_of_getElem? hpart)

theorem isShareTarget_smbUrl {host share : QString} (hhost : host ≠ []) (hshare : share ≠ [])
    (hslash : '/' ∉ share) : isShareTarget (smbUrl host ('/' :: share)) = true := by
  have hparts : pathParts (smbUrl host ('/' :: share)) = [share] := by
    have hsplit := splitSkipEmpty_append '/' [] share
    rw [List.nil_append] at hsplit
    rw [pathParts, smbUrl, hsplit, splitSkipEmpty, splitSkipEmpty, split_of_notMem hslash]
    simp [split, hshare]
  rw [isShareTarget, shareOf, hparts]
  simp [smbUrl, hhost, hshare]

/-- A lookup target has the shape the child asks for. -/
theorem isShareTarget_authLookupTarget (laws : SetsTarget qt)
    (hvalid : (authLookupTarget qt unc).valid = true) :
    isShareTarget (authLookupTarget qt unc) = true := by
  rw [authLookupTarget] at hvalid ⊢
  dsimp only at hvalid ⊢
  split_ifs at hvalid ⊢ with hmissing hrefused
  · exact absurd hvalid Bool.false_ne_true
  · exact absurd hvalid Bool.false_ne_true
  · obtain ⟨hhost, hshare⟩ := not_or.mp hmissing
    obtain ⟨-, hsame⟩ := not_or.mp hrefused
    rw [laws _ _ hvalid (of_not_not hsame)]
    exact isShareTarget_smbUrl hhost hshare (slash_notMem_uncSection _ 1)

/-- A request that is sent arrives. -/
theorem decodeRequest_encodeRequest (hback : ReadsBack json (requestObject qt request))
    (hurl : Reparses qt request.target) (htarget : isShareTarget request.target = true)
    (husername : fieldAcceptable request.username = true)
    (hwindow : request.windowId.toNat < 2 ^ 53)
    (htime : request.userTime.toNat < 2 ^ 53) :
    encodeRequest qt json request = [] ∧
        maxMessageBytes < (json.toJson (requestObject qt request)).length ∨
      decodeRequest qt json (encodeRequest qt json request) = .ok request := by
  have hkeys : ((requestObject qt request).map Prod.fst).Nodup := by
    change requestKeys.Nodup
    decide
  have hallowed : ∀ field ∈ requestObject qt request, field.1 ∈ requestKeys :=
    fun field hfield => List.mem_map_of_mem (f := Prod.fst) hfield
  rcases serialise_cases json (requestObject qt request) with hlong | ⟨hsame, hsize⟩
  · exact Or.inl hlong
  · right
    obtain ⟨read, hopen, hfields⟩ :=
      openEnvelope_eq_ok hback hkeys hallowed List.mem_cons_self hsize
    rw [encodeRequest, hsame, decodeRequest]
    simp only [bind_eq_ok, require_eq_ok, exists_const, pure_eq_ok]
    have htargetText := hfields (qs "target") (.string (qt.encoded request.target))
      (by simp [requestObject])
    have husernameText := hfields (qs "username") (.string request.username)
      (by simp [requestObject])
    have hwindowNumber := hfields (qs "windowId")
      (.number (some (toDouble request.windowId.toNat))) (by simp [requestObject])
    have htimeNumber := hfields (qs "userTime")
      (.number (some (toDouble request.userTime.toNat))) (by simp [requestObject])
    refine ⟨read, hopen, _, takeString_eq_ok htargetText, _, takeString_eq_ok husernameText, _,
      takeUnsigned_eq_ok hwindow hwindowNumber, _, takeUnsigned_eq_ok htime htimeNumber, ?_,
      husername, ?_⟩
    · rw [hurl]
      exact htarget
    · rw [hurl]

theorem outcomeOf_outcomeText (outcome : ReplyOutcome) :
    outcomeOf (outcomeText outcome) = .ok outcome := by
  cases outcome with
  | candidate => decide
  | miss => decide
  | error => decide

/-- A reply that is sent arrives. -/
theorem decodeReply_encodeReply (hback : ReadsBack json (replyObject qt reply))
    (hurl : Reparses qt reply.resultUrl) :
    encodeReply qt json reply = [] ∧ maxMessageBytes < (json.toJson (replyObject qt reply)).length ∨
      decodeReply qt json (encodeReply qt json reply) = .ok reply := by
  have hkeys : ((replyObject qt reply).map Prod.fst).Nodup := by
    change replyKeys.Nodup
    decide
  have hallowed : ∀ field ∈ replyObject qt reply, field.1 ∈ replyKeys :=
    fun field hfield => List.mem_map_of_mem (f := Prod.fst) hfield
  rcases serialise_cases json (replyObject qt reply) with hlong | ⟨hsame, hsize⟩
  · exact Or.inl hlong
  · right
    obtain ⟨read, hopen, hfields⟩ :=
      openEnvelope_eq_ok hback hkeys hallowed List.mem_cons_self hsize
    have hstring : ∀ key text, (key, JsonValue.string text) ∈ replyObject qt reply →
        takeString read key = .ok text :=
      fun key text hmem => takeString_eq_ok (hfields key _ hmem)
    rw [encodeReply, hsame, decodeReply]
    simp only [bind_eq_ok, pure_eq_ok]
    refine ⟨read, hopen, _, hstring (qs "outcome") _ (by simp [replyObject]), _,
      hstring (qs "resultUrl") (qt.encoded reply.resultUrl) (by simp [replyObject]), _,
      hstring (qs "username") reply.username (by simp [replyObject]), _,
      hstring (qs "domain") reply.domain (by simp [replyObject]), _,
      hstring (qs "password") reply.password (by simp [replyObject]), _,
      hstring (qs "message") reply.message (by simp [replyObject]), _,
      outcomeOf_outcomeText reply.outcome, ?_⟩
    rw [hurl]

/-- The fields of a credential and as much besides fit under the ceiling. -/
theorem objectSize_replyObject (husername : fieldAcceptable reply.username = true)
    (hdomain : fieldAcceptable reply.domain = true)
    (hpassword : fieldAcceptable reply.password = true)
    (hrest : textSize (qt.encoded reply.resultUrl) + textSize reply.message ≤ 8 * 1024) :
    objectSize (replyObject qt reply) ≤ maxMessageBytes := by
  have hname := textSize_of_fieldAcceptable husername
  have hrealm := textSize_of_fieldAcceptable hdomain
  have hsecret := textSize_of_fieldAcceptable hpassword
  have hkeys : (replyKeys.map textSize).sum = 53 := by decide
  have hversion : (toString protocolVersion).length = 1 := by decide
  have houtcome : textSize (outcomeText reply.outcome) ≤ 9 := by
    cases reply.outcome with
    | candidate => decide
    | miss => decide
    | error => decide
  simp only [replyKeys, List.map_cons, List.map_nil, List.sum_cons, List.sum_nil] at hkeys
  rw [objectSize, replyObject]
  simp only [List.map_cons, List.map_nil, List.sum_cons, List.sum_nil,
    valueSize]
  rw [maxFieldBytes] at hname hrealm hsecret
  rw [maxMessageBytes]
  omega

theorem encodeReply_ne_nil (hwrites : WritesCompactly json (replyObject qt reply))
    (hsize : objectSize (replyObject qt reply) ≤ maxMessageBytes) :
    encodeReply qt json reply ≠ [] := by
  rw [WritesCompactly] at hwrites
  rcases serialise_cases json (replyObject qt reply) with ⟨-, hlong⟩ | ⟨hsame, -⟩
  · omega
  · intro hempty
    have hsome : 1 ≤ objectSize (replyObject qt reply) := Nat.le_add_right 1 _
    rw [← hwrites, ← hsame, ← encodeReply, hempty] at hsome
    exact nomatch hsome

/-- A request as the form makes them, whose texts the two formats carry. -/
structure Sendable (qt : Qt) (json : Json) (request : Request) : Prop where
  target : ∃ unc, request.target = authLookupTarget qt unc
  reparses : Reparses qt request.target
  readsBack : ReadsBack json (requestObject qt request)
  username : fieldAcceptable request.username = true
  windowId : request.windowId.toNat < 2 ^ 53
  userTime : request.userTime.toNat < 2 ^ 53

/-- Nothing is lost but to the ceiling: a request for a lookup target arrives unless it
is too long, so does any reply, and a reply whose credential the form would take is
never too long. -/
theorem lookup_messages_arrive (laws : SetsTarget qt) :
    (∀ request, Sendable qt json request → request.target.valid = true →
      encodeRequest qt json request = [] ∧
          maxMessageBytes < (json.toJson (requestObject qt request)).length ∨
        decodeRequest qt json (encodeRequest qt json request) = .ok request) ∧
    (∀ reply, ReadsBack json (replyObject qt reply) → Reparses qt reply.resultUrl →
      encodeReply qt json reply = [] ∧
          maxMessageBytes < (json.toJson (replyObject qt reply)).length ∨
        decodeReply qt json (encodeReply qt json reply) = .ok reply) ∧
    (∀ reply, WritesCompactly json (replyObject qt reply) →
      fieldAcceptable reply.username = true → fieldAcceptable reply.domain = true →
      fieldAcceptable reply.password = true →
      textSize (qt.encoded reply.resultUrl) + textSize reply.message ≤ 8 * 1024 →
      encodeReply qt json reply ≠ []) := by
  refine ⟨?_, fun reply hback hurl => decodeReply_encodeReply hback hurl, ?_⟩
  · intro request h hvalid
    obtain ⟨unc, htarget⟩ := h.target
    have hshape : isShareTarget request.target = true := by
      rw [htarget] at hvalid ⊢
      exact isShareTarget_authLookupTarget laws hvalid
    exact decodeRequest_encodeRequest h.readsBack h.reparses hshape h.username h.windowId h.userTime
  · intro reply hwrites husername hdomain hpassword hrest
    exact encodeReply_ne_nil hwrites (objectSize_replyObject husername hdomain hpassword hrest)

end RoundTrips

section Samples

def escapeLetters : List (Char × Char) :=
  [('"', '"'), ('\\', '\\'), ('\x08', 'b'), ('\x09', 't'), ('\x0a', 'n'), ('\x0c', 'f'),
    ('\x0d', 'r')]

def hexDigits : QString := qs "0123456789abcdef"

def escapeChar (c : Char) : QString :=
  match escapeLetters.lookup c with
  | some letter => ['\\', letter]
  | none =>
    if c.toNat < 0x20 then
      qs "\\u00" ++ [hexDigits.getD (c.toNat / 16) '0', hexDigits.getD (c.toNat % 16) '0']
    else [c]

def writeString (text : QString) : QString := '"' :: (text.flatMap escapeChar ++ ['"'])

def writeValue : JsonValue → QString
  | .string text => writeString text
  | .number (some n) => (toString n).toList
  | .number none | .null | .bool _ | .array | .object => []

def writeField (field : QString × JsonValue) : QString :=
  writeString field.1 ++ ':' :: writeValue field.2

/-- The compact text of an object. -/
def writeObject (object : JsonObject) : QString :=
  '\x7b' :: ([','].intercalate (object.map writeField) ++ ['\x7d'])

/-- The compact writer, and a reader of one object. -/
def compactJson (object : JsonObject) : Json where
  toJson written := (writeObject written).flatMap String.utf8EncodeChar
  fromJson raw :=
    if raw = (writeObject object).flatMap String.utf8EncodeChar then .ok object
    else .error (qs "garbage")

theorem compactJson_readsBack (object : JsonObject) : ReadsBack (compactJson object) object := by
  constructor
  · intro hempty
    have hbrace : String.utf8EncodeChar '\x7b' = [] := (List.append_eq_nil_iff.mp hempty).1
    exact nomatch hbrace
  · exact ⟨object, if_pos rfl, List.Perm.refl object⟩

theorem length_flatMap_utf8EncodeChar (text : QString) :
    (text.flatMap String.utf8EncodeChar).length = utf8Size text := by
  rw [List.length_flatMap, utf8Size]
  exact congrArg List.sum (List.map_congr_left fun c _ => String.length_utf8EncodeChar c)

theorem utf8Size_escapeChar (c : Char) : utf8Size (escapeChar c) = escapedSize c := by
  have hletters : ∀ letter, escapeLetters.lookup c = some letter →
      utf8Size ['\\', letter] = 2 ∧ c ∈ escapeLetters.map Prod.fst := by
    intro letter hlookup
    have hmem : (c, letter) ∈ escapeLetters := by
      obtain ⟨before, after, hsplit, -⟩ := List.lookup_eq_some_iff.mp hlookup
      rw [hsplit]
      exact List.mem_append_right before List.mem_cons_self
    have hsizes : ∀ entry ∈ escapeLetters, utf8Size ['\\', entry.2] = 2 := by decide
    exact ⟨hsizes _ hmem, List.mem_map.mpr ⟨_, hmem, rfl⟩⟩
  have hcontrol : ∀ n < 0x20, utf8Size (qs "\\u00" ++
      [hexDigits.getD (n / 16) '0', hexDigits.getD (n % 16) '0']) = 6 := by decide +kernel
  rw [escapeChar, escapedSize]
  cases hlookup : escapeLetters.lookup c with
  | some letter =>
    obtain ⟨hsize, hmem⟩ := hletters letter hlookup
    have hcontains : (escapeLetters.map Prod.fst).contains c = true := by
      rwa [List.contains_eq_mem, decide_eq_true_eq]
    dsimp only
    rw [hsize]
    exact (if_pos hcontains).symm
  | none =>
    have hnone : ¬(escapeLetters.map Prod.fst).contains c = true := by
      rw [List.contains_eq_mem, decide_eq_true_eq, List.mem_map]
      rintro ⟨entry, hmem, rfl⟩
      have hne := List.lookup_eq_none_iff.mp hlookup entry hmem
      simp at hne
    dsimp only
    by_cases hlow : c.toNat < 0x20
    · rw [if_pos hlow, hcontrol _ hlow]
      exact ((if_neg hnone).trans (if_pos hlow)).symm
    · rw [if_neg hlow]
      exact ((if_neg hnone).trans (if_neg hlow)).symm

theorem utf8Size_writeString (text : QString) :
    utf8Size (writeString text) = textSize text + 2 := by
  have hchars : utf8Size (text.flatMap escapeChar) = textSize text := by
    induction text with
    | nil => rfl
    | cons c text ih =>
      rw [List.flatMap_cons, utf8Size_append, utf8Size_escapeChar, ih]
      rfl
  have hquote : utf8Size ['"'] = 1 := by decide
  rw [writeString, utf8Size_cons, utf8Size_append, hchars, hquote]
  exact Nat.add_comm _ _

/-- Every field with its comma, where one comma too many is counted. -/
theorem utf8Size_intercalate {parts : List QString} (hparts : parts ≠ []) :
    utf8Size ([','].intercalate parts) + 1 = (parts.map fun part => utf8Size part + 1).sum := by
  induction parts with
  | nil => exact absurd rfl hparts
  | cons part parts ih =>
    cases parts with
    | nil => simp [List.intercalate]
    | cons next parts =>
      have hrest := ih (List.cons_ne_nil next parts)
      have hcomma : utf8Size [','] = 1 := by decide
      rw [List.intercalate_cons_of_ne_nil (List.cons_ne_nil next parts), utf8Size_append,
        utf8Size_append, hcomma, List.map_cons, List.sum_cons]
      omega

theorem compactJson_writesCompactly {object written : JsonObject} (hwritten : written ≠ [])
    (hnumbers : ∀ field ∈ written, utf8Size (writeValue field.2) = valueSize field.2) :
    WritesCompactly (compactJson object) written := by
  have hfields : ∀ field ∈ written, utf8Size (writeField field) + 1 =
      textSize field.1 + 2 + 1 + valueSize field.2 + 1 := by
    intro field hfield
    have hcolon : Char.utf8Size ':' = 1 := by decide
    rw [writeField, utf8Size_append, utf8Size_cons, utf8Size_writeString, hcolon,
      hnumbers field hfield]
    omega
  have hparts := @utf8Size_intercalate (written.map writeField)
    (mt List.map_eq_nil_iff.mp hwritten)
  have hsums : (written.map writeField).map (fun part => utf8Size part + 1) =
      written.map fun field => textSize field.1 + 2 + 1 + valueSize field.2 + 1 := by
    rw [List.map_map]
    exact List.map_congr_left hfields
  rw [hsums] at hparts
  have hopen : Char.utf8Size '\x7b' = 1 := by decide
  have hclose : utf8Size ['\x7d'] = 1 := by decide
  rw [WritesCompactly, compactJson]
  dsimp only
  rw [length_flatMap_utf8EncodeChar, writeObject, utf8Size_cons, utf8Size_append, hopen, hclose,
    hparts, objectSize]

theorem addressQt_setsTarget : SetsTarget addressQt := by
  intro host share
  have hstart : addressUrl .tolerant (qs "smb:///") = smbUrl [] ['/'] := by decide +kernel
  rw [addressQt]
  dsimp only
  rw [hstart]
  intro hvalid hhost
  rw [smbUrl, smbUrl, Url.mk.injEq]
  exact ⟨hvalid, rfl, rfl, hhost, rfl, rfl, rfl, rfl, rfl, rfl, rfl⟩

/-- The request for a share of `//nas`. -/
def requestFor (share : QString) : Request where
  target := authLookupTarget addressQt (uncText (qs "nas") share)
  username := []

variable {share : QString}

theorem longShare_address {n : ℕ} (hn : n ≠ 0) : Address (qs "nas") (List.replicate n 'a') := by
  have hall : ∀ c ∈ List.replicate n 'a', c = 'a' := fun c hc => List.eq_of_mem_replicate hc
  have hchars : (qs "nas").all isHostChar = true := by decide
  constructor
  · constructor
    · decide
    · exact List.all_eq_true.mp hchars
    · exact mt (List.replicate_eq_nil_iff 'a').mp hn
    · intro hhead
      exact absurd (hall _ (List.mem_of_head? hhead)) (by decide)
    · have hslash : '/' ∉ List.replicate n 'a' := fun hmem =>
        absurd (hall _ hmem) (by decide)
      rw [split_of_notMem hslash, List.mem_singleton]
      intro hparent
      have hdot : '.' ∈ List.replicate n 'a' := hparent ▸ List.mem_cons_self
      exact absurd (hall _ hdot) (by decide)
  · rw [hasControlChars, List.any_eq_false]
    intro c hc
    rw [hall c hc]
    decide
  · intro hcomma
    exact absurd (hall _ hcomma) (by decide)
  · intro hlast
    exact absurd (hall _ (List.mem_of_getLast? hlast)) (by decide)

theorem requestFor_target (haddress : Address (qs "nas") share) (hslash : '/' ∉ share) :
    (requestFor share).target = smbUrl (qs "nas") ('/' :: share) := by
  have hfirst : firstComponent share = share := by
    rw [firstComponent, uncSection, split_of_notMem hslash]
    rfl
  have hlower : (qs "nas").map Char.toLower = qs "nas" := by decide
  rw [requestFor, authLookupTarget_uncText addressQt_laws haddress, if_pos hlower, hfirst]

theorem requestFor_reparses (haddress : Address (qs "nas") share) (hslash : '/' ∉ share) :
    Reparses addressQt (requestFor share).target := by
  rw [requestFor_target haddress hslash]
  exact addressQt_laws.reparses _ _ haddress.plainHost (by decide) haddress.path_ne hslash

theorem requestFor_writesCompactly (object : JsonObject) :
    WritesCompactly (compactJson object) (requestObject addressQt (requestFor share)) := by
  have hversion : utf8Size (writeValue (.number (some protocolVersion))) =
      valueSize (.number (some protocolVersion)) := by decide
  have hzero : utf8Size (writeValue (.number (some (toDouble (0 : UInt64).toNat)))) =
      valueSize (.number (some (toDouble (0 : UInt64).toNat))) := by decide
  apply compactJson_writesCompactly (List.cons_ne_nil _ _)
  simp only [List.forall_mem_cons]
  exact ⟨hversion, utf8Size_writeString _, utf8Size_writeString _, hzero, hzero,
    fun _ h => nomatch h⟩

theorem length_le_encoded (path : QString) :
    path.length ≤ (addressQt.encoded (smbUrl (qs "nas") path)).length := by
  have hchar : ∀ c, 1 ≤ (encodeChar c).length := by
    intro c
    rw [encodeChar]
    split_ifs
    · exact Nat.le_add_left 1 _
    · exact Nat.le_refl 1
  have hpath : path.length ≤ (path.flatMap encodeChar).length := by
    induction path with
    | nil => exact Nat.zero_le _
    | cons c path ih =>
      have hfirst := hchar c
      rw [List.flatMap_cons, List.length_append, List.length_cons]
      omega
  rw [addressQt, smbUrl]
  dsimp only
  rw [if_pos rfl, List.length_append, List.length_append]
  omega

/-- A share of which not even the name fits is not asked about. -/
theorem encodeRequest_requestFor (haddress : Address (qs "nas") share) (hslash : '/' ∉ share)
    (hlong : maxMessageBytes < share.length) :
    let object := requestObject addressQt (requestFor share)
    encodeRequest addressQt (compactJson object) (requestFor share) = [] := by
  have hprinted := length_le_encoded ('/' :: share)
  have htext := length_le_textSize (addressQt.encoded (requestFor share).target)
  rw [requestFor_target haddress hslash] at htext
  intro object
  apply if_pos
  rw [requestFor_writesCompactly, objectSize, requestObject, requestFor_target haddress hslash]
  simp only [List.map_cons, List.sum_cons, valueSize]
  rw [List.length_cons] at hprinted
  omega

theorem decodeRequest_nil (qt : Qt) (json : Json) (request : Request) :
    decodeRequest qt json [] ≠ .ok request := by
  intro hok
  rw [decodeRequest, openEnvelope] at hok
  simp [bind_eq_ok] at hok

theorem sendable_requestFor (hreparses : Reparses addressQt (requestFor share).target) :
    Sendable addressQt (compactJson (requestObject addressQt (requestFor share)))
      (requestFor share) where
  target := ⟨_, rfl⟩
  reparses := hreparses
  readsBack := compactJson_readsBack _
  username := (by decide : fieldAcceptable [] = true)
  windowId := (by decide : (0 : UInt64).toNat < 2 ^ 53)
  userTime := (by decide : (0 : UInt64).toNat < 2 ^ 53)

/-- Two requests that do not arrive: the name of the share is too long, or there is none. -/
theorem requestFor_lost :
    (let request := requestFor (List.replicate 70000 'a');
      let json := compactJson (requestObject addressQt request);
      Sendable addressQt json request ∧ WritesCompactly json (requestObject addressQt request) ∧
        request.target.valid = true ∧
        ∀ read, decodeRequest addressQt json (encodeRequest addressQt json request) ≠ .ok read) ∧
    (let request := requestFor [];
      let json := compactJson (requestObject addressQt request);
      Sendable addressQt json request ∧ WritesCompactly json (requestObject addressQt request) ∧
        ∀ read, decodeRequest addressQt json (encodeRequest addressQt json request) ≠
          .ok read) := by
  constructor
  · have haddress := @longShare_address 70000 (by decide)
    have hslash : '/' ∉ List.replicate 70000 'a' :=
      fun hmem => nomatch (List.eq_of_mem_replicate hmem : '/' = 'a')
    intro request json
    refine ⟨sendable_requestFor (requestFor_reparses haddress hslash),
      requestFor_writesCompactly _, ?_, ?_⟩
    · exact congrArg Url.valid (requestFor_target haddress hslash)
    · intro read
      rw [encodeRequest_requestFor haddress hslash (by rw [List.length_replicate]; decide)]
      exact decodeRequest_nil _ _ read
  · have hnone : (requestFor []).target = .none := by decide +kernel
    intro request json
    refine ⟨sendable_requestFor ?_, requestFor_writesCompactly _, ?_⟩
    · rw [hnone, Reparses]
      decide +kernel
    · intro read hok
      have hrefused : decodeRequest addressQt json (encodeRequest addressQt json request) =
          .error (qs "target is not an smb://host/share URL") := by decide +kernel
      rw [hrefused] at hok
      exact nomatch hok

def filmsRequest : Request where
  target := authLookupTarget addressQt (qs "//nas.example/Media Library/Films")
  username := qs "WORKGROUP\\alice"
  windowId := 123456
  userTime := 42

def storedReply : Reply where
  outcome := .candidate
  resultUrl := filmsRequest.target
  username := qs "alice"
  domain := qs "WORKGROUP"
  password := qs "p@ss w0rd"

theorem lookup_messages_arrive_sample :
    (let json := compactJson (requestObject addressQt filmsRequest);
      decodeRequest addressQt json (encodeRequest addressQt json filmsRequest) =
        .ok filmsRequest) ∧
    (let json := compactJson (replyObject addressQt storedReply);
      encodeReply addressQt json storedReply ≠ [] ∧
        decodeReply addressQt json (encodeReply addressQt json storedReply) = .ok storedReply) := by
  have hreparses : Reparses addressQt filmsRequest.target := by
    have hshare : authLookupTarget addressQt (qs "//nas.example/Media Library/Films") =
        smbUrl (qs "nas.example") (qs "/Media Library") := by decide +kernel
    rw [filmsRequest, hshare]
    exact addressQt_laws.reparses (qs "nas.example") (qs "Media Library")
      ⟨by decide, List.all_eq_true.mp (by decide)⟩ (by decide) (by decide) (by decide)
  constructor
  · intro json
    have hsendable : Sendable addressQt json filmsRequest :=
      { target := ⟨qs "//nas.example/Media Library/Films", rfl⟩
        reparses := hreparses
        readsBack := compactJson_readsBack _
        username := by decide +kernel
        windowId := by decide
        userTime := by decide }
    have harrives := (lookup_messages_arrive addressQt_setsTarget).1 filmsRequest hsendable
      (by decide +kernel)
    rcases harrives with ⟨hlost, -⟩ | hok
    · have hsent : encodeRequest addressQt json filmsRequest ≠ [] := by decide +kernel
      exact absurd hlost hsent
    · exact hok
  · intro json
    have hwrites : WritesCompactly json (replyObject addressQt storedReply) := by
      rw [WritesCompactly]
      decide +kernel
    have hsent := (lookup_messages_arrive addressQt_setsTarget).2.2 storedReply hwrites
      (by decide +kernel) (by decide +kernel) (by decide +kernel) (by decide +kernel)
    refine ⟨hsent, ?_⟩
    have harrives := (lookup_messages_arrive addressQt_setsTarget).2.1 storedReply
      (compactJson_readsBack _) hreparses
    exact harrives.resolve_left fun hlost => hsent hlost.1

end Samples

end NasMount.Session.CredentialLookup
