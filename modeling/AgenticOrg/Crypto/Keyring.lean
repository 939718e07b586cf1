import AgenticOrg.Crypto.Verify
import Mathlib.Data.List.TakeWhile

namespace AgenticOrg.Crypto

open JsonText

section Tokens

def isBase64 (c : CodePoint) : Bool :=
  let n := c.val
  (65 ≤ n && n ≤ 90) || (97 ≤ n && n ≤ 122) || (48 ≤ n && n ≤ 57) || c = code '-' || c = code '_' || c = code '+' ||
    c = code '/'

def isSurrogate (c : CodePoint) : Bool := isHighSurrogate c.val || isLowSurrogate c.val

-- What `str.encode` takes.
def encodable (t : Text) : Bool := t.all fun c => !isSurrogate c

-- What base64 decoding leaves out in front of a token.
def skipped (c : CodePoint) : Bool := !isBase64 c && !isSurrogate c

-- `Fernet.decrypt` reads a token as lenient base64, and nothing that it did not make is opened.
structure TokenFernet (Key Nonce : Type) extends Fernet Key Nonce where
  decrypt_skipped (key : Key) (c : CodePoint) (token : Text) (h : skipped c = true) :
    decrypt key (c :: token) = decrypt key token
  decrypt_spoiled (key other : Key) (nonce : Nonce) (plaintext front : Text) (h : ∃ c ∈ front, skipped c = false) :
    decrypt other (front ++ code '$' :: encrypt key nonce plaintext) = none

end Tokens

section Loading

def PUBLISHED_PLACEHOLDER_SECRETS : List String :=
  ["dev-only-vault-key", "dev-only-secret-key", "change-me-to-32-char-random-string",
    "agenticorg-dev-only-do-not-use-in-production", "ci-test-secret-key-minimum-16",
    "dev-secret-key-change-in-production-32chars"]

def DEVELOPMENT_VAULT_KEY : Text := text "dev-only-vault-key"

-- The variables of the process, and whether its runtime is local or a test.
structure Environ where
  vaultKeyring : Option Text
  vaultKey : Option Text
  secretKey : Option Text
  relaxed : Bool

-- `str.casefold`, and the key that a raw secret gives once it is encoded.
structure Derivation (Key : Type) where
  casefold : Text → Text
  derive : Text → Key

variable {Key : Type} (derivation : Derivation Key) (environ : Environ)

def refused (raw : Text) : Bool :=
  !environ.relaxed && PUBLISHED_PLACEHOLDER_SECRETS.any fun secret => text secret = derivation.casefold (strip raw)

def deriveFernetKey (raw : Text) : Option Key := if encodable raw then some (derivation.derive raw) else none

-- An entry of the specification, if it is one; a blank one is passed over.
def loadEntry (item : Text) : Option (Option (Entry Key)) :=
  let entry := strip item
  if entry = [] then some none
  else if code ':' ∉ entry then none
  else
    let kid := strip (entry.takeWhile (· ≠ code ':'))
    let raw := (entry.dropWhile (· ≠ code ':')).drop 1
    if h : kid = [] then none
    else if strip raw = [] then none
    else if refused derivation environ raw then none
    else (deriveFernetKey derivation raw).map fun key => some ⟨kid, key, h⟩

def loadEntries (spec : Text) : Option (Keyring Key) :=
  ((spec.splitOn (code ',')).mapM (loadEntry derivation environ)).bind fun entries =>
    match entries.filterMap id with
    | [] => none
    | active :: others => some ⟨active, others⟩

def legacyRing (raw : Text) : Option (Keyring Key) :=
  (deriveFernetKey derivation raw).map fun key => ⟨⟨text "legacy", key, by decide⟩, []⟩

def loadKeyring : Option (Keyring Key) :=
  let spec := strip (environ.vaultKeyring.getD [])
  if spec ≠ [] then loadEntries derivation environ spec
  else
    match [environ.vaultKey, environ.secretKey].findSome? fun raw => raw.filter fun raw => strip raw ≠ [] with
    | some raw => if refused derivation environ raw then none else legacyRing derivation raw
    | none => if environ.relaxed then legacyRing derivation DEVELOPMENT_VAULT_KEY else none

end Loading

section Credentials

variable {Key Nonce : Type} (fernet : TokenFernet Key Nonce) (derivation : Derivation Key)

-- `encrypt_credential` and `decrypt_credential` with the keyring that the process has now.
def encryptNow (environ : Environ) (nonce : Nonce) (plaintext : Text) : Option Text :=
  (loadKeyring derivation environ).bind fun ring =>
    if encodable plaintext then some (encryptCredential fernet.toFernet ring nonce plaintext) else none

def decryptNow (environ : Environ) (ciphertext : Text) : Option Text :=
  (loadKeyring derivation environ).bind fun ring => decryptCredential fernet.toFernet ring ciphertext

end Credentials

section Stamps

-- The id that a stamp is read back with, and whether the rest of the id leaves the token readable.
def stampId (kid : Text) : Text := kid.takeWhile (· ≠ code '$')

def stampRest (kid : Text) : Text := kid.dropWhile (· ≠ code '$')

def StampReadable (kid : Text) : Prop := stampId kid ≠ [] ∧ ∀ c ∈ stampRest kid, skipped c = true

-- The key comes up for a stamp: under the first entry of its id, or under another id.
def Reached {Key : Type} (ring : Keyring Key) (kid : Text) (key : Key) : Prop :=
  (∃ first, ring.entries.find? (fun entry => decide (entry.id = kid)) = some first ∧ first.key = key) ∨
    ∃ entry ∈ ring.entries, entry.id ≠ kid ∧ entry.key = key

theorem takeWhile_delimited (kid token : Text) :
    (kid ++ code '$' :: token).takeWhile (· ≠ code '$') = stampId kid := by
  induction kid with
  | nil => rfl
  | cons c rest ih =>
      rw [stampId, List.cons_append, List.takeWhile_cons, List.takeWhile_cons, ih]
      rfl

theorem dropWhile_delimited (kid token : Text) :
    (kid ++ code '$' :: token).dropWhile (· ≠ code '$') = stampRest kid ++ code '$' :: token := by
  induction kid with
  | nil => rfl
  | cons c rest ih =>
      rw [stampRest, List.cons_append, List.dropWhile_cons, List.dropWhile_cons, ih]
      split
      · rfl
      · rfl

-- What a stamp is read back as.
theorem prefixMatch_stamp (kid token : Text) :
    prefixMatch (STAMP ++ kid ++ code '$' :: token) =
      if stampId kid = [] then none else some (stampId kid, (stampRest kid ++ code '$' :: token).drop 1) := by
  have hpre : STAMP.isPrefixOf (STAMP ++ kid ++ code '$' :: token) = true := by
    rw [List.isPrefixOf_iff_prefix, List.append_assoc]
    exact List.prefix_append _ _
  have hdrop : (STAMP ++ kid ++ code '$' :: token).drop STAMP.length = kid ++ code '$' :: token := by
    rw [List.append_assoc, List.drop_left]
  rw [prefixMatch, if_pos hpre, hdrop, dropWhile_delimited]
  simp only [takeWhile_delimited]
  cases stampRest kid with
  | nil => rfl
  | cons c rest => rfl

end Stamps

section Opening

variable {Key Nonce : Type} (fernet : TokenFernet Key Nonce)

theorem decrypt_front (key : Key) (front token : Text) (h : ∀ c ∈ front, skipped c = true) :
    fernet.decrypt key (front ++ token) = fernet.decrypt key token := by
  induction front with
  | nil => rfl
  | cons c rest ih =>
      rw [List.cons_append, fernet.decrypt_skipped key c _ (h c List.mem_cons_self)]
      exact ih fun other ho => h other (List.mem_cons_of_mem _ ho)

variable (entry : Entry Key) (nonce : Nonce) (plaintext : Text)

-- The part of the ciphertext behind the stamp is opened as the token is.
theorem decrypt_payload (key : Key) (h : ∀ c ∈ stampRest entry.id, skipped c = true) :
    fernet.decrypt key ((stampRest entry.id ++ code '$' :: fernet.encrypt entry.key nonce plaintext).drop 1) =
      fernet.decrypt key (fernet.encrypt entry.key nonce plaintext) := by
  cases hrest : stampRest entry.id with
  | nil => rfl
  | cons c rest =>
      rw [List.cons_append, List.drop_one, List.tail_cons]
      rw [hrest] at h
      rw [decrypt_front fernet key rest _ fun other ho => h other (List.mem_cons_of_mem _ ho)]
      exact fernet.decrypt_skipped key _ _ (by decide)

theorem stampRest_head (kid : Text) (c : CodePoint) (rest : Text) (h : stampRest kid = c :: rest) : c = code '$' := by
  have hc := List.head?_dropWhile_not (· ≠ code '$') kid
  unfold stampRest at h
  rw [h] at hc
  simpa using hc

theorem decrypt_payload_spoiled (key : Key) (h : ¬ ∀ c ∈ stampRest entry.id, skipped c = true) :
    fernet.decrypt key ((stampRest entry.id ++ code '$' :: fernet.encrypt entry.key nonce plaintext).drop 1) = none := by
  push Not at h
  obtain ⟨c, hc, hskip⟩ := h
  cases hrest : stampRest entry.id with
  | nil =>
      rw [hrest] at hc
      exact absurd hc List.not_mem_nil
  | cons first rest =>
      rw [hrest] at hc
      rw [List.cons_append, List.drop_one, List.tail_cons]
      refine fernet.decrypt_spoiled entry.key key nonce plaintext rest ⟨c, ?_, Bool.eq_false_iff.mpr hskip⟩
      rcases List.mem_cons.mp hc with rfl | hc
      · rw [stampRest_head entry.id c rest hrest] at hskip
        exact absurd (by decide) hskip
      · exact hc

-- Without an id up to the first dollar sign the whole ciphertext is taken for a token.
theorem decrypt_unstamped (key : Key) :
    fernet.decrypt key (sealedUnder fernet.toFernet entry nonce plaintext) = none :=
  fernet.decrypt_spoiled entry.key key nonce plaintext (STAMP ++ entry.id)
    ⟨code 'a', List.mem_append_left _ (by decide), by decide⟩

theorem tryKeys_none (entries : List (Entry Key)) (token : Text)
    (h : ∀ found ∈ entries, fernet.decrypt found.key token = none) :
    tryKeys fernet.toFernet entries token = none := by
  rw [tryKeys, List.findSome?_eq_none_iff]
  exact h

theorem tryKeys_congr (entries : List (Entry Key)) (token token' : Text)
    (h : ∀ key, fernet.decrypt key token = fernet.decrypt key token') :
    tryKeys fernet.toFernet entries token = tryKeys fernet.toFernet entries token' := by
  unfold tryKeys
  simp only [h]

theorem tryKeys_eq_some_iff (entries : List (Entry Key)) :
    tryKeys fernet.toFernet entries (fernet.encrypt entry.key nonce plaintext) = some plaintext ↔
      ∃ found ∈ entries, found.key = entry.key := by
  constructor
  · intro h
    by_contra hnone
    push Not at hnone
    rw [tryKeys_foreign fernet.toFernet entry nonce plaintext entries hnone] at h
    cases h
  · exact tryKeys_encrypt fernet.toFernet entry nonce plaintext entries

theorem decrypt_first_iff (ring : Keyring Key) (kid : Text) :
    ((ring.entries.find? fun found => decide (found.id = kid)).bind fun found =>
      fernet.decrypt found.key (fernet.encrypt entry.key nonce plaintext)) = some plaintext ↔
      ∃ first, ring.entries.find? (fun found => decide (found.id = kid)) = some first ∧ first.key = entry.key := by
  rw [Option.bind_eq_some_iff]
  refine exists_congr fun first => and_congr_right fun _ => ?_
  constructor
  · intro h
    by_contra hne
    rw [fernet.decrypt_other _ _ _ _ hne] at h
    cases h
  · intro hkey
    rw [hkey, fernet.decrypt_encrypt]

theorem eq_plaintext_of_decrypt (key : Key) (opened : Text)
    (h : fernet.decrypt key (fernet.encrypt entry.key nonce plaintext) = some opened) : opened = plaintext := by
  by_cases hkey : key = entry.key
  · rw [hkey, fernet.decrypt_encrypt] at h
    exact (Option.some.inj h).symm
  · rw [fernet.decrypt_other _ _ _ _ hkey] at h
    cases h

theorem or_eq_some_iff (first others : Option Text) (h : ∀ opened, first = some opened → opened = plaintext) :
    first.or others = some plaintext ↔ first = some plaintext ∨ others = some plaintext := by
  cases first with
  | none => simp
  | some opened =>
      rw [h opened rfl]
      simp

theorem decryptCredential_readable (ring : Keyring Key) (hid : stampId entry.id ≠ [])
    (hrest : ∀ c ∈ stampRest entry.id, skipped c = true) :
    decryptCredential fernet.toFernet ring (sealedUnder fernet.toFernet entry nonce plaintext) = some plaintext ↔
      Reached ring (stampId entry.id) entry.key := by
  have hpayload := fun key => decrypt_payload fernet entry nonce plaintext key hrest
  have hothers := tryKeys_eq_some_iff fernet entry nonce plaintext
    (ring.entries.filter fun found => decide (found.id ≠ stampId entry.id))
  rw [decryptCredential, sealedUnder, prefixMatch_stamp, if_neg hid]
  simp only [hpayload, tryKeys_congr fernet _ _ _ hpayload]
  rw [or_eq_some_iff plaintext, decrypt_first_iff, hothers]
  · refine or_congr Iff.rfl (exists_congr fun found => ?_)
    rw [List.mem_filter, decide_eq_true_eq, and_assoc]
  · intro opened ho
    obtain ⟨found, _, hopened⟩ := Option.bind_eq_some_iff.mp ho
    exact eq_plaintext_of_decrypt fernet entry nonce plaintext found.key opened hopened

theorem decryptCredential_unreadable (ring : Keyring Key) (h : ¬ StampReadable entry.id) :
    decryptCredential fernet.toFernet ring (sealedUnder fernet.toFernet entry nonce plaintext) = none := by
  by_cases hid : stampId entry.id = []
  · have hwhole : prefixMatch (sealedUnder fernet.toFernet entry nonce plaintext) = none := by
      rw [sealedUnder, prefixMatch_stamp, if_pos hid]
    rw [decryptCredential, hwhole]
    exact tryKeys_none fernet _ _ fun found _ => decrypt_unstamped fernet entry nonce plaintext found.key
  · have hspoiled := fun key => decrypt_payload_spoiled fernet entry nonce plaintext key fun hrest => h ⟨hid, hrest⟩
    have hfirst : ((ring.entries.find? fun found => decide (found.id = stampId entry.id)).bind fun found =>
        fernet.decrypt found.key
          ((stampRest entry.id ++ code '$' :: fernet.encrypt entry.key nonce plaintext).drop 1)) = none := by
      simp only [hspoiled, Option.bind_fun_none]
    rw [decryptCredential, sealedUnder, prefixMatch_stamp, if_neg hid]
    simp only [hfirst, Option.none_or]
    exact tryKeys_none fernet _ _ fun found _ => hspoiled found.key

theorem decryptCredential_iff (ring : Keyring Key) :
    decryptCredential fernet.toFernet ring (sealedUnder fernet.toFernet entry nonce plaintext) = some plaintext ↔
      StampReadable entry.id ∧ Reached ring (stampId entry.id) entry.key := by
  by_cases h : StampReadable entry.id
  · rw [and_iff_right h]
    exact decryptCredential_readable fernet entry nonce plaintext ring h.1 h.2
  · rw [decryptCredential_unreadable fernet entry nonce plaintext ring h]
    exact iff_of_false (by simp) fun hread => h hread.1

end Opening

section Results

variable {Key Nonce : Type} (fernet : TokenFernet Key Nonce) (derivation : Derivation Key)

-- What one keyring sealed is opened by a keyring that holds the key exactly when the stamp reads back and leads to it.
theorem credential_kept_iff (environ later : Environ) (ring laterRing : Keyring Key)
    (hr : loadKeyring derivation environ = some ring) (hl : loadKeyring derivation later = some laterRing)
    (nonce : Nonce) (plaintext : Text) :
    (encryptNow fernet derivation environ nonce plaintext).bind (decryptNow fernet derivation later) = some plaintext ↔
      encodable plaintext = true ∧ StampReadable ring.active.id ∧
        Reached laterRing (stampId ring.active.id) ring.active.key := by
  unfold encryptNow decryptNow
  rw [hr, Option.bind_some]
  by_cases hp : encodable plaintext = true
  · rw [if_pos hp, Option.bind_some, hl, Option.bind_some, and_iff_right hp]
    exact decryptCredential_iff fernet ring.active nonce plaintext laterRing
  · rw [if_neg hp]
    exact iff_of_false (by simp) fun h => hp h.1

theorem stampRest_plain (kid : Text) (hd : code '$' ∉ kid) : stampRest kid = [] := by
  rw [stampRest, List.dropWhile_eq_nil_iff]
  intro c hc
  rw [decide_eq_true_eq]
  rintro rfl
  exact hd hc

theorem stampId_plain (kid : Text) (hd : code '$' ∉ kid) : stampId kid = kid := by
  have h := List.takeWhile_append_dropWhile (p := fun c => decide (c ≠ code '$')) (l := kid)
  have hrest := stampRest_plain kid hd
  unfold stampRest at hrest
  rw [hrest, List.append_nil] at h
  exact h

theorem stampReadable_plain (entry : Entry Key) (hd : code '$' ∉ entry.id) : StampReadable entry.id := by
  refine ⟨?_, ?_⟩
  · rw [stampId_plain entry.id hd]
    exact entry.named
  · rw [stampRest_plain entry.id hd]
    exact fun _ hc => absurd hc List.not_mem_nil

-- Where no entry has the id for another key, the key is reached wherever it stands.
theorem reached_of_unique (ring : Keyring Key) (kid : Text) (key : Key)
    (hids : ∀ found ∈ ring.entries, found.id = kid → found.key = key) (hkey : ∃ found ∈ ring.entries, found.key = key) :
    Reached ring kid key := by
  cases hfind : ring.entries.find? fun entry => decide (entry.id = kid) with
  | some first =>
      have hid : first.id = kid := by simpa using List.find?_some hfind
      exact .inl ⟨first, hfind, hids first (List.mem_of_find?_eq_some hfind) hid⟩
  | none =>
      obtain ⟨found, hmem, hk⟩ := hkey
      have hid : found.id ≠ kid := by simpa using List.find?_eq_none.mp hfind found hmem
      exact .inr ⟨found, hmem, hid, hk⟩

end Results

section Sample

def sampleLetter : Bool → CodePoint
  | true => code 'B'
  | false => code 'A'

def spelled (plaintext : Text) : Text :=
  plaintext.flatMap fun c => List.replicate c.val (code 'x') ++ [code 'y']

-- Reads back what `spelled` writes: every character as so many strokes.
def readSpelled (strokes : ℕ) : Text → Option Text
  | [] => if strokes = 0 then some [] else none
  | c :: rest =>
      if c = code 'x' then readSpelled (strokes + 1) rest
      else if c = code 'y' then
        if h : strokes < 0x110000 then (readSpelled 0 rest).map fun later => ⟨strokes, h⟩ :: later else none
      else none

def sampleEncrypt (key : Bool) (plaintext : Text) : Text := sampleLetter key :: spelled plaintext

def sampleDecrypt (key : Bool) (token : Text) : Option Text :=
  match token.filter fun c => !skipped c with
  | [] => none
  | c :: rest => if c = sampleLetter key then readSpelled 0 rest else none

theorem readSpelled_strokes (count strokes : ℕ) (rest : Text) :
    readSpelled strokes (List.replicate count (code 'x') ++ rest) = readSpelled (strokes + count) rest := by
  induction count generalizing strokes with
  | zero => rfl
  | succ count ih =>
      rw [List.replicate_succ, List.cons_append, readSpelled, if_pos rfl, ih, Nat.add_assoc, Nat.add_comm 1]

theorem readSpelled_spelled (plaintext : Text) : readSpelled 0 (spelled plaintext) = some plaintext := by
  induction plaintext with
  | nil => rfl
  | cons c rest ih =>
      have hspelled : spelled (c :: rest) = List.replicate c.val (code 'x') ++ code 'y' :: spelled rest := by
        rw [spelled, List.flatMap_cons, List.append_assoc]
        rfl
      rw [hspelled, readSpelled_strokes, Nat.zero_add, readSpelled, if_neg (by decide), if_pos rfl, dif_pos c.isLt, ih]
      rfl

theorem mem_of_readSpelled (token opened : Text) (strokes : ℕ) (h : readSpelled strokes token = some opened) :
    ∀ c ∈ token, c = code 'x' ∨ c = code 'y' := by
  induction token generalizing strokes opened with
  | nil => exact fun _ hc => absurd hc List.not_mem_nil
  | cons first rest ih =>
      rw [readSpelled] at h
      intro c hc
      split at h
      · rename_i hx
        rcases List.mem_cons.mp hc with rfl | hc
        · exact .inl hx
        · exact ih _ _ h c hc
      · split at h
        · rename_i hy
          rcases List.mem_cons.mp hc with rfl | hc
          · exact .inr hy
          · split at h
            · obtain ⟨later, hlater, _⟩ := Option.map_eq_some_iff.mp h
              exact ih _ _ hlater c hc
            · cases h
        · cases h

theorem mem_spelled (plaintext : Text) : ∀ c ∈ spelled plaintext, c = code 'x' ∨ c = code 'y' :=
  mem_of_readSpelled _ _ 0 (readSpelled_spelled plaintext)

theorem sampleEncrypt_filter (key : Bool) (plaintext : Text) :
    (sampleEncrypt key plaintext).filter (fun c => !skipped c) = sampleEncrypt key plaintext := by
  refine List.filter_eq_self.mpr ?_
  intro c hc
  rcases List.mem_cons.mp hc with rfl | hc
  · cases key <;> decide
  · rcases mem_spelled plaintext c hc with rfl | rfl <;> decide

-- Tokens of two keys, with their letters in front.
def sampleFernet : TokenFernet Bool Unit where
  encrypt key _ plaintext := sampleEncrypt key plaintext
  decrypt := sampleDecrypt
  decrypt_encrypt key _ plaintext := by
    rw [sampleDecrypt, sampleEncrypt_filter]
    exact (if_pos rfl).trans (readSpelled_spelled plaintext)
  decrypt_other key other _ plaintext h := by
    rw [sampleDecrypt, sampleEncrypt_filter]
    refine if_neg ?_
    cases key <;> cases other <;> first | exact absurd rfl h | decide
  decrypt_skipped key c token h := by
    rw [sampleDecrypt, sampleDecrypt, List.filter_cons_of_neg (by simp [h])]
  decrypt_spoiled key other _ plaintext front h := by
    have hfilter : (front ++ code '$' :: sampleEncrypt key plaintext).filter (fun c => !skipped c) =
        front.filter (fun c => !skipped c) ++ sampleEncrypt key plaintext := by
      rw [List.filter_append, List.filter_cons_of_neg (by decide), sampleEncrypt_filter]
    rw [sampleDecrypt, hfilter]
    obtain ⟨c, hc, hskip⟩ := h
    cases hfront : front.filter fun c => !skipped c with
    | nil => exact absurd (List.filter_eq_nil_iff.mp hfront c hc) (by simp [hskip])
    | cons first rest =>
        change (if first = sampleLetter other then readSpelled 0 (rest ++ sampleEncrypt key plaintext) else none) = none
        have hread : readSpelled 0 (rest ++ sampleEncrypt key plaintext) = none := by
          rw [Option.eq_none_iff_forall_ne_some]
          intro opened hopened
          have hletter := mem_of_readSpelled _ _ 0 hopened (sampleLetter key)
            (List.mem_append_right _ List.mem_cons_self)
          cases key <;> exact absurd hletter (by decide)
        rw [hread, ite_self]

def sampleDerivation : Derivation Bool := ⟨id, fun raw => raw = text "newer"⟩

def sampleEnviron (spec : String) : Environ := ⟨some (text spec), none, none, false⟩

end Sample

section Instances

deriving instance DecidableEq for Entry, Keyring

-- A key that moved behind a new one under another id.
theorem credential_kept_rotated :
    (encryptNow sampleFernet sampleDerivation (sampleEnviron "v1:older") () (text "s")).bind
        (decryptNow sampleFernet sampleDerivation (sampleEnviron "v2:newer, retired:older")) = some (text "s") :=
  (credential_kept_iff sampleFernet sampleDerivation (sampleEnviron "v1:older")
    (sampleEnviron "v2:newer, retired:older") ⟨⟨text "v1", false, by decide⟩, []⟩
    ⟨⟨text "v2", true, by decide⟩, [⟨text "retired", false, by decide⟩]⟩ (by decide +kernel) (by decide +kernel) ()
    (text "s")).mpr ⟨by decide, stampReadable_plain _ (by decide),
      reached_of_unique _ _ _ (by decide) (by decide)⟩

-- An id with a dollar sign in it loses what it sealed itself, and a repeated id loses the key of its second entry.
theorem credential_lost :
    (encryptNow sampleFernet sampleDerivation (sampleEnviron "v$1:older") () (text "s")).bind
        (decryptNow sampleFernet sampleDerivation (sampleEnviron "v$1:older")) = none ∧
      (encryptNow sampleFernet sampleDerivation (sampleEnviron "v1:older") () (text "s")).bind
        (decryptNow sampleFernet sampleDerivation (sampleEnviron "v1:newer,v1:older")) = none := by
  decide +kernel

end Instances

end AgenticOrg.Crypto
