import AgenticOrg.Lib.Json

namespace AgenticOrg.Crypto

open JsonText

section Keys

-- `cryptography.fernet`: what a key seals it opens again, and no other key opens it.
-- The nonce is the time and the initialisation vector of one call.
structure Fernet (Key Nonce : Type) where
  encrypt : Key → Nonce → Text → Text
  decrypt : Key → Text → Option Text
  decrypt_encrypt (key : Key) (nonce : Nonce) (plaintext : Text) :
    decrypt key (encrypt key nonce plaintext) = some plaintext
  decrypt_other (key other : Key) (nonce : Nonce) (plaintext : Text) (h : other ≠ key) :
    decrypt other (encrypt key nonce plaintext) = none

structure Entry (Key : Type) where
  id : Text
  key : Key
  named : id ≠ []

-- `_load_keyring`: the entry that encrypts, and those that only decrypt.
structure Keyring (Key : Type) where
  active : Entry Key
  others : List (Entry Key)

variable {Key : Type}

def Keyring.entries (ring : Keyring Key) : List (Entry Key) := ring.active :: ring.others

-- A rotation: the new entry encrypts from now on.
def Keyring.extend (ring : Keyring Key) (entry : Entry Key) : Keyring Key := ⟨entry, ring.entries⟩

-- A retirement of an entry that is not the active one.
def Keyring.without (ring : Keyring Key) (kid : Text) : Keyring Key :=
  ⟨ring.active, ring.others.filter (·.id ≠ kid)⟩

end Keys

section Stamps

def STAMP : Text := text "agko_v"

-- `_PREFIX_RE`: the id goes up to the first dollar sign.
def prefixMatch (ciphertext : Text) : Option (Text × Text) :=
  if STAMP.isPrefixOf ciphertext then
    match (ciphertext.drop STAMP.length).dropWhile (· ≠ code '$') with
    | [] => none
    | _ :: token =>
        let kid := (ciphertext.drop STAMP.length).takeWhile (· ≠ code '$')
        if kid = [] then none else some (kid, token)
  else none

theorem prefixMatch_stamped (kid token : Text) (hne : kid ≠ []) (hd : code '$' ∉ kid) :
    prefixMatch (STAMP ++ kid ++ code '$' :: token) = some (kid, token) := by
  have hall : ∀ c ∈ kid, decide (c ≠ code '$') = true := by
    intro c hc
    rw [decide_eq_true_eq]
    rintro rfl
    exact hd hc
  have hdrop : (STAMP ++ kid ++ code '$' :: token).drop STAMP.length = kid ++ code '$' :: token := by
    rw [List.append_assoc, List.drop_left]
  have hpre : STAMP.isPrefixOf (STAMP ++ kid ++ code '$' :: token) = true := by
    rw [List.isPrefixOf_iff_prefix, List.append_assoc]
    exact List.prefix_append _ _
  have hafter : (kid ++ code '$' :: token).dropWhile (fun c => decide (c ≠ code '$')) = code '$' :: token := by
    rw [List.dropWhile_append_of_pos hall, List.dropWhile_cons_of_neg (by simp)]
  have hbefore : (kid ++ code '$' :: token).takeWhile (fun c => decide (c ≠ code '$')) = kid := by
    rw [List.takeWhile_append_of_pos hall, List.takeWhile_cons_of_neg (by simp), List.append_nil]
  rw [prefixMatch, if_pos hpre, hdrop, hafter]
  simp only [hbefore]
  rw [if_neg hne]

end Stamps

section Vault

variable {Key Nonce : Type} (fernet : Fernet Key Nonce)

-- What one entry makes of a plaintext.
def sealedUnder (entry : Entry Key) (nonce : Nonce) (plaintext : Text) : Text :=
  STAMP ++ entry.id ++ code '$' :: fernet.encrypt entry.key nonce plaintext

def encryptCredential (ring : Keyring Key) (nonce : Nonce) (plaintext : Text) : Text :=
  sealedUnder fernet ring.active nonce plaintext

def tryKeys (entries : List (Entry Key)) (token : Text) : Option Text :=
  entries.findSome? fun entry => fernet.decrypt entry.key token

-- The stamp's own key first, then every other one.
def decryptCredential (ring : Keyring Key) (ciphertext : Text) : Option Text :=
  match prefixMatch ciphertext with
  | some (kid, token) =>
      ((ring.entries.find? (·.id = kid)).bind fun entry => fernet.decrypt entry.key token).or
        (tryKeys fernet (ring.entries.filter (·.id ≠ kid)) token)
  | none => tryKeys fernet ring.entries ciphertext

variable (entry : Entry Key) (nonce : Nonce) (plaintext : Text)

theorem prefixMatch_sealedUnder (hd : code '$' ∉ entry.id) :
    prefixMatch (sealedUnder fernet entry nonce plaintext) =
      some (entry.id, fernet.encrypt entry.key nonce plaintext) :=
  prefixMatch_stamped _ _ entry.named hd

-- Keys that reject a token leave it to the key that made it.
theorem tryKeys_encrypt (entries : List (Entry Key)) (h : ∃ found ∈ entries, found.key = entry.key) :
    tryKeys fernet entries (fernet.encrypt entry.key nonce plaintext) = some plaintext := by
  induction entries with
  | nil =>
      obtain ⟨_, hmem, _⟩ := h
      cases hmem
  | cons first rest ih =>
      rw [tryKeys, List.findSome?_cons]
      by_cases hk : first.key = entry.key
      · rw [hk, fernet.decrypt_encrypt]
      · rw [fernet.decrypt_other _ _ _ _ hk]
        refine ih ?_
        obtain ⟨found, hmem, hkey⟩ := h
        rcases List.mem_cons.mp hmem with rfl | hmem
        · exact absurd hkey hk
        · exact ⟨found, hmem, hkey⟩

theorem tryKeys_foreign (entries : List (Entry Key)) (h : ∀ found ∈ entries, found.key ≠ entry.key) :
    tryKeys fernet entries (fernet.encrypt entry.key nonce plaintext) = none := by
  rw [tryKeys, List.findSome?_eq_none_iff]
  intro found hmem
  exact fernet.decrypt_other _ _ _ _ (h found hmem)

-- What the active entry sealed is opened again, whatever else the ring holds.
theorem decryptCredential_encryptCredential (ring : Keyring Key) (hd : code '$' ∉ ring.active.id) :
    decryptCredential fernet ring (encryptCredential fernet ring nonce plaintext) = some plaintext := by
  rw [decryptCredential, encryptCredential, prefixMatch_sealedUnder fernet ring.active nonce plaintext hd]
  have hfind : ring.entries.find? (fun found => decide (found.id = ring.active.id)) = some ring.active := by
    rw [Keyring.entries, List.find?_cons_of_pos (by simp)]
  simp only [hfind, Option.bind_some, fernet.decrypt_encrypt, Option.some_or]

-- A ring that holds an entry's key opens what the entry sealed, its ids being distinct.
theorem decryptCredential_sealedUnder (ring : Keyring Key) (hd : code '$' ∉ entry.id)
    (hids : ∀ found ∈ ring.entries, found.id = entry.id → found.key = entry.key)
    (h : ∃ found ∈ ring.entries, found.key = entry.key) :
    decryptCredential fernet ring (sealedUnder fernet entry nonce plaintext) = some plaintext := by
  rw [decryptCredential, prefixMatch_sealedUnder fernet entry nonce plaintext hd]
  cases hfind : ring.entries.find? fun found => decide (found.id = entry.id) with
  | some found =>
      have hid : found.id = entry.id := by simpa using List.find?_some hfind
      have hkey := hids found (List.mem_of_find?_eq_some hfind) hid
      simp only [hfind, Option.bind_some, hkey, fernet.decrypt_encrypt, Option.some_or]
  | none =>
      have hall : ring.entries.filter (fun found => decide (found.id ≠ entry.id)) = ring.entries := by
        rw [List.find?_eq_none] at hfind
        refine List.filter_eq_self.mpr fun found hmem => ?_
        simpa using hfind found hmem
      simp only [hfind, Option.bind_none, Option.none_or, hall]
      exact tryKeys_encrypt fernet entry nonce plaintext _ h

-- A ring without the key opens nothing of it.
theorem decryptCredential_foreign (ring : Keyring Key) (hd : code '$' ∉ entry.id)
    (h : ∀ found ∈ ring.entries, found.key ≠ entry.key) :
    decryptCredential fernet ring (sealedUnder fernet entry nonce plaintext) = none := by
  rw [decryptCredential, prefixMatch_sealedUnder fernet entry nonce plaintext hd]
  have hown : ((ring.entries.find? fun found => decide (found.id = entry.id)).bind fun found =>
      fernet.decrypt found.key (fernet.encrypt entry.key nonce plaintext)) = none := by
    rw [Option.bind_eq_none_iff]
    intro found hfind
    exact fernet.decrypt_other _ _ _ _ (h found (List.mem_of_find?_eq_some hfind))
  simp only [hown, Option.none_or]
  exact tryKeys_foreign fernet entry nonce plaintext _ fun found hmem =>
    h found (List.mem_of_mem_filter hmem)

end Vault

end AgenticOrg.Crypto
