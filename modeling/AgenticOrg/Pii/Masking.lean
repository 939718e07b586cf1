import Mathlib.Data.List.Sort
import Mathlib.Data.List.Infix
import Mathlib.Logic.Function.Basic
import AgenticOrg.Lib.Splice
import AgenticOrg.Pii.Pseudonyms

namespace AgenticOrg.Pii

open JsonText OrderedDict Splices

section Tables

-- What the language knows of characters: `\w`, `str.isalnum`, `str.isdigit`, what `str.strip` takes off, `str.lower`.
structure Tables where
  isWord : CodePoint → Bool
  isAlnum : CodePoint → Bool
  isDigit : CodePoint → Bool
  isSpace : CodePoint → Bool
  lower : CodePoint → Text

variable (tables : Tables)

def Tables.strip (input : Text) : Text :=
  ((input.dropWhile tables.isSpace).reverse.dropWhile tables.isSpace).reverse

end Tables

section Structured

def KEY_ENTITIES : List (List String × String) :=
  [(["fullname", "firstname", "lastname", "givenname", "familyname", "surname", "middlename", "maidenname",
      "personname", "contactname", "applicantname", "customername", "employeename", "candidatename", "ownername",
      "directorname", "beneficialownername", "accountholdername", "cardholdername", "beneficiaryname", "patientname",
      "guardianname", "spousename", "nomineename"], "PERSON"),
    (["dob", "dateofbirth", "birthdate", "birthday"], "DATE_OF_BIRTH"),
    (["address", "streetaddress", "residentialaddress", "homeaddress", "postaladdress", "mailingaddress",
      "registeredaddress", "addressline1", "addressline2", "street", "postcode", "postalcode", "zip", "zipcode"],
      "ADDRESS"),
    (["email", "emailaddress"], "EMAIL_ADDRESS"),
    (["phone", "phonenumber", "mobile", "mobilenumber", "telephone"], "PHONE_NUMBER"),
    (["ssn", "socialsecuritynumber"], "US_SSN"), (["itin"], "US_ITIN"),
    (["ein", "employeridentificationnumber"], "US_EIN"), (["nino", "nationalinsurancenumber"], "UK_NINO"),
    (["companynumber", "companieshousenumber", "crn"], "UK_COMPANY_NUMBER"),
    (["vat", "vatnumber", "vatid"], "EU_VAT"), (["iban"], "IBAN_CODE"), (["aadhaar", "aadhaarnumber"], "AADHAAR"),
    (["pan", "pannumber"], "PAN"), (["gstin"], "GSTIN"), (["upi", "upiid", "vpa"], "UPI"),
    (["passport", "passportnumber"], "PASSPORT_NUMBER"), (["taxid", "tin", "taxidentificationnumber"], "TAX_ID"),
    (["accountnumber", "bankaccount", "bankaccountnumber"], "BANK_ACCOUNT")]

def ADDRESS_PARTS_KEPT : List String := ["country", "countrycode", "state", "region", "province", "county"]

def keyEntity (normalised : Text) : Option Text :=
  (KEY_ENTITIES.find? fun entry => entry.1.any (text · = normalised)).map fun entry => text entry.2

variable (tables : Tables)

def normaliseKey (key : Text) : Text :=
  (key.flatMap tables.lower).filter fun c => (97 ≤ c.val && c.val ≤ 122) || JsonText.isDigit c

def worthAPseudonym (value : Text) : Bool :=
  let stripped := tables.strip value
  2 ≤ stripped.length && stripped.any tables.isAlnum && !(stripped.all tables.isDigit && stripped.length < 6)

-- The entity of what stands under a key; all of an address is one, but for the parts that identify nobody.
def childEntity (entity : Option Text) (key : Text) : Option Text :=
  let normalised := normaliseKey tables key
  if entity = some (text "ADDRESS") then
    if ADDRESS_PARTS_KEPT.any (text · = normalised) then none else some (text "ADDRESS")
  else keyEntity normalised

mutual

def walk (entity : Option Text) : Json → List (Text × Text)
  | .obj entries => walkEntries entity entries
  | .arr items => walkItems entity items
  | .str value =>
      match entity with
      | none => []
      | some entity => if worthAPseudonym tables value then [(value, entity)] else []
  | _ => []

def walkItems (entity : Option Text) : List Json → List (Text × Text)
  | [] => []
  | item :: rest => walk entity item ++ walkItems entity rest

def walkEntries (entity : Option Text) : List (Text × Json) → List (Text × Text)
  | [] => []
  | (key, child) :: rest => walk (childEntity tables entity key) child ++ walkEntries entity rest

end

def structuredValues (value : Json) : List (Text × Text) := walk tables none value

def JSON_SCAN_LIMIT : ℕ := 2000000

def jsonDocument (input : Text) : Option Json :=
  let stripped := tables.strip input
  if (stripped.head? = some (code '\x7b') ∨ stripped.head? = some (code '[')) ∧ stripped.length ≤ JSON_SCAN_LIMIT then
    loads stripped
  else none

end Structured

section Tokens

inductive Piece where
  | char (c : CodePoint)
  | token (found : TokenMatch)

-- `_TOKEN_RE.finditer`, with what lies between the tokens.
def pieces : ℕ → Text → List Piece
  | _, [] => []
  | skip + 1, _ :: rest => pieces skip rest
  | 0, c :: rest =>
      match matchToken (c :: rest) with
      | some (found, _) => .token found :: pieces (found.text.length - 1) rest
      | none => .char c :: pieces 0 rest

def Piece.text : Piece → Text
  | .char c => [c]
  | .token found => found.text

def Piece.found? : Piece → Option TokenMatch
  | .char _ => none
  | .token found => some found

def findTokens (input : Text) : List TokenMatch := (pieces 0 input).filterMap Piece.found?

def tokenSpans : ℕ → List Piece → List (ℕ × ℕ)
  | _, [] => []
  | offset, .char _ :: rest => tokenSpans (offset + 1) rest
  | offset, .token found :: rest =>
      (offset, offset + found.text.length) :: tokenSpans (offset + found.text.length) rest

-- `_TOKEN_RE.sub`
def subTokens (replace : Text → Text) (input : Text) : Text :=
  (pieces 0 input).flatMap fun piece =>
    match piece with
    | .char c => [c]
    | .token found => replace found.text

end Tokens

section Applying

variable (tables : Tables)

-- Longest first; the order in which they came in decides between equals.
def PseudonymMap.knownValues (pmap : PseudonymMap) : List Text :=
  pmap.byValue.keys.insertionSort fun a b => b.length ≤ a.length

-- A known value as a whole word.
def knownValue (values : List Text) (previous : Option CodePoint) (input : Text) : Option Text :=
  if previous.any tables.isWord then none
  else values.find? fun value => value.isPrefixOf input && !(input.drop value.length).head?.any tables.isWord

-- `known_values_pattern().sub`: tokens stay, known values give way to theirs.
def maskKnown (pmap : PseudonymMap) : ℕ → Option CodePoint → Text → List (Segment CodePoint)
  | _, _, [] => []
  | skip + 1, _, c :: rest => maskKnown pmap skip (some c) rest
  | 0, previous, c :: rest =>
      match matchToken (c :: rest) with
      | some (found, _) => found.text.map .keep ++ maskKnown pmap (found.text.length - 1) (some c) rest
      | none =>
          match knownValue tables pmap.knownValues previous (c :: rest) with
          | some value =>
              .swap value ((pmap.byValue.get? value).getD []) :: maskKnown pmap (value.length - 1) (some c) rest
          | none => .keep c :: maskKnown pmap 0 (some c) rest

-- What a recogniser reports: `text == source[start:end]`, never empty.
structure IdentifierMatch (source : Text) where
  start : ℕ
  stop : ℕ
  entityType : Text
  nonempty : start < stop
  inside : stop ≤ source.length

def IdentifierMatch.text {source : Text} (found : IdentifierMatch source) : Text :=
  (source.drop found.start).take (found.stop - found.start)

abbrev Detector := (source : Text) → List (IdentifierMatch source)

variable {source : Text}

def longestFirst (a b : IdentifierMatch source) : Prop :=
  b.stop - b.start < a.stop - a.start ∨ (b.stop - b.start = a.stop - a.start ∧ a.start ≤ b.start)

instance (a b : IdentifierMatch source) : Decidable (longestFirst a b) :=
  inferInstanceAs (Decidable (_ ∨ _))

-- `bisect_right` on the starts of the matches kept so far, which are in order.
def keepMatch (kept : List (IdentifierMatch source)) (candidate : IdentifierMatch source) :
    List (IdentifierMatch source) :=
  let index := (kept.takeWhile (·.start ≤ candidate.start)).length
  if (kept.take index).getLast?.any (candidate.start < ·.stop) then kept
  else if (kept.drop index).head?.any (·.start < candidate.stop) then kept
  else kept.take index ++ candidate :: kept.drop index

def resolveOverlaps (found : List (IdentifierMatch source)) : List (IdentifierMatch source) :=
  (found.insertionSort longestFirst).foldl keepMatch []

def detect (detector : Detector) (source : Text) : List (IdentifierMatch source) :=
  resolveOverlaps ((detector source).filter fun found =>
    (tokenSpans 0 (pieces 0 source)).all fun span => found.stop ≤ span.1 || span.2 ≤ found.start)

def PseudonymMap.masked (pmap : PseudonymMap) (input : Text) : Text :=
  if pmap.byValue.size = 0 then input else targetOf (maskKnown tables pmap 0 none input)

def valueToken (pmap : Option PseudonymMap) (value : Text) : Option Text := pmap.bind (·.byValue.get? value)

def missingValues (pmap : Option PseudonymMap) (found : List (IdentifierMatch source)) : List (Text × Text) :=
  (found.filter fun finding => (valueToken pmap finding.text).isNone).map fun finding =>
    (finding.text, finding.entityType)

def editOf (pmap : Option PseudonymMap) (finding : IdentifierMatch source) : Edit CodePoint :=
  ⟨finding.start, finding.stop, (valueToken pmap finding.text).getD []⟩

-- `_apply`
def applyMap (detector : Detector) (pmap : Option PseudonymMap) (input : Text) : Text × List (Text × Text) :=
  let source := match pmap with
    | none => input
    | some pmap => pmap.masked tables input
  let found := detect detector source
  if missingValues pmap found = [] then (splice source 0 (found.map (editOf pmap)), [])
  else (source, missingValues pmap found)

end Applying

section Sessions

def MAX_PASSES : ℕ := 3

def MEMO_LIMIT : ℕ := 1024

-- Where a call of `_mask` stands between two awaits.
inductive Phase where
  | ready
  | running (captured : Option PseudonymMap) (remembered : List (Option Text))
  | adding (additions : List (Text × Text))

structure Job where
  texts : List Text
  pending : List (Text × Text)
  passes : ℕ
  phase : Phase

structure Session where
  map : Option PseudonymMap
  issued : List Text
  memo : Dict Text (ℕ × Text)
  jobs : ℕ → Option Job
  returned : List (Text × Text)

def newSession : Session := ⟨none, [], Dict.empty, fun _ => none, []⟩

variable (tables : Tables)

def mapSize (pmap : Option PseudonymMap) : ℕ := (pmap.map (·.byToken.size)).getD 0

-- The start of `_mask`: what stands under personal-data keys, in the values given and in the texts.
def pendingValues (pmap : Option PseudonymMap) (texts : List Text) (structured : List Json) : List (Text × Text) :=
  (structured.flatMap (structuredValues tables) ++
    texts.flatMap fun input => ((jsonDocument tables input).map (structuredValues tables)).getD []).filter
      fun addition => (valueToken pmap addition.1).isNone && (findTokens addition.1).isEmpty

def Session.start (session : Session) (job : ℕ) (texts : List Text) (structured : List Json) : Session :=
  { session with
    jobs := Function.update session.jobs job
      (some ⟨texts, pendingValues tables session.map texts structured, MAX_PASSES, .ready⟩) }

-- The texts that were masked against a map of this size; an empty text is left alone.
def Session.remembered (session : Session) (input : Text) : Option Text :=
  if input = [] then some []
  else
    match session.memo.get? input with
    | none => none
    | some (size, masked) => if size = mapSize session.map then some masked else none

def Session.capture (session : Session) (job : ℕ) : Session :=
  match session.jobs job with
  | some ⟨texts, pending, passes, .ready⟩ =>
      { session with
        jobs := Function.update session.jobs job
          (some ⟨texts, pending, passes, .running session.map (texts.map session.remembered)⟩) }
  | _ => session

-- One text's result and what the map lacks for it.
def passResult (detector : Detector) (captured : Option PseudonymMap) (entry : Text × Option Text) :
    Text × List (Text × Text) :=
  match entry.2 with
  | some masked => (masked, [])
  | none => applyMap tables detector captured entry.1

def remember (size : ℕ) (memo : Dict Text (ℕ × Text)) (input masked : Text) : Dict Text (ℕ × Text) :=
  (if MEMO_LIMIT ≤ memo.size then Dict.empty else memo).insert input (size, masked)

-- Only the texts that were worked on and lacked nothing are remembered.
def passMemo (detector : Detector) (captured : Option PseudonymMap) (memo : Dict Text (ℕ × Text))
    (entry : Text × Option Text) : Dict Text (ℕ × Text) :=
  match entry.2 with
  | some _ => memo
  | none =>
      if (applyMap tables detector captured entry.1).2 = [] then
        remember (mapSize captured) memo entry.1 (applyMap tables detector captured entry.1).1
      else memo

def containsOpen (input : Text) : Bool := decide (text "[[" <:+: input)

def tokensIn (pmap : PseudonymMap) (input : Text) : List Text :=
  ((findTokens input).map TokenMatch.text).filter pmap.byToken.contains

-- `_note_issued_texts`
def Session.noteIssued (session : Session) (texts : List Text) : List Text :=
  match session.map with
  | none => session.issued
  | some pmap => session.issued ++ (texts.filter containsOpen).flatMap (tokensIn pmap)

def Session.finish (session : Session) (job : ℕ) (detector : Detector) : Session :=
  match session.jobs job with
  | some ⟨texts, pending, passes, .running captured remembered⟩ =>
      let entries := texts.zip remembered
      let results := entries.map (passResult tables detector captured)
      let memo := entries.foldl (passMemo tables detector captured) session.memo
      let additions := pending ++ results.flatMap (·.2)
      if additions = [] then
        { session with
          memo
          issued := session.noteIssued (results.map (·.1))
          returned := entries.map (fun entry => (entry.1, (passResult tables detector captured entry).1)) ++
            session.returned
          jobs := Function.update session.jobs job none }
      else
        { session with
          memo
          jobs := Function.update session.jobs job (some ⟨texts, [], passes, .adding additions⟩) }
  | _ => session

-- `_add` has the new map; after the last pass the call gives up.
def Session.added (session : Session) (job : ℕ) (pmap : PseudonymMap) : Session :=
  match session.jobs job with
  | some ⟨texts, pending, passes, .adding _⟩ =>
      { session with
        map := some pmap
        jobs := Function.update session.jobs job
          (if passes ≤ 1 then none else some ⟨texts, pending, passes - 1, .ready⟩) }
  | _ => session

def Session.dropped (session : Session) (job : ℕ) : Session :=
  { session with jobs := Function.update session.jobs job none }

def Session.restoreText (session : Session) (input : Text) : Text :=
  match session.map with
  | none => input
  | some pmap =>
      if session.issued = [] ∨ containsOpen input = false then input
      else subTokens (fun token => if token ∈ session.issued then (pmap.byToken.get? token).getD [] else token) input

-- A case with all sessions that work on it.
structure World where
  record : Case
  sessions : ℕ → Session

def newWorld : World := ⟨emptyCase, fun _ => newSession⟩

inductive WorldStep where
  | load (session : ℕ)
  | start (session job : ℕ) (texts : List Text) (structured : List Json)
  | capture (session job : ℕ)
  | finish (session job : ℕ) (detector : Detector)
  | add (session job : ℕ) (tag : Tag)

def World.update (world : World) (session : ℕ) (change : Session → Session) : World :=
  { world with sessions := Function.update world.sessions session (change (world.sessions session)) }

def World.load (world : World) (session : ℕ) : World :=
  match world.record.stored.map fromJson with
  | none => world.update session fun state => { state with map := none }
  | some (.error _) => world
  | some (.ok pmap) =>
      { (world.update session fun state => { state with map := some pmap }) with record := world.record.load session }

def jobAdditions (job : Option Job) : Option (List (Text × Text)) :=
  match job with
  | some ⟨_, _, _, .adding additions⟩ => some additions
  | _ => none

def World.add (world : World) (session job : ℕ) (tag : Tag) : World :=
  match jobAdditions ((world.sessions session).jobs job) with
  | none => world
  | some additions =>
      match mapOrNew world.record.stored tag with
      | .error _ => world.update session fun state => state.dropped job
      | .ok pmap =>
          { (world.update session fun state => state.added job (pmap.addAll additions.eraseDups)) with
            record := world.record.add session tag additions }

def World.step (world : World) : WorldStep → World
  | .load session => world.load session
  | .start session job texts structured =>
      world.update session fun state => state.start tables job texts structured
  | .capture session job => world.update session fun state => state.capture job
  | .finish session job detector => world.update session fun state => state.finish tables job detector
  | .add session job tag => world.add session job tag

def World.run (world : World) (steps : List WorldStep) : World := steps.foldl (World.step tables) world

end Sessions

end AgenticOrg.Pii
