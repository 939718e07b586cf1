import Mathlib.Logic.Relation
import Mathlib.Logic.Function.Basic
import AgenticOrg.Crypto.Rewrap.Theorems

namespace AgenticOrg.Crypto

open JsonText Tables

section Interleavings

-- A row an application transaction has written and not committed. Until then the row is locked.
structure Held where
  txn : ℕ
  label : String
  id : ℕ
  raw : Raw
  plaintext : Text

def Held.key (held : Held) : String × ℕ := (held.label, held.id)

-- The committed rows, the secret the application committed last for each, and what is in flight.
structure State where
  table : Table Row
  said : String × ℕ → Option Text
  held : List Held
  phase : Phase

inductive Action (Nonce : Type) where
  | rewrap (nonce : Nonce)
  | fail
  | write (held : Held)
  | commit (txn : ℕ)
  | abort (txn : ℕ)

-- The rows a batch has read and still is to write.
def Phase.unwritten : Phase → List Row
  | .batch _ _ _ read _ _ _ => read
  | _ => []

-- A batch keeps the locks of the rows it has written until it commits.
def Phase.locks (phase : Phase) (key : String × ℕ) : Bool :=
  match phase with
  | .batch _ _ _ _ written _ _ => written.any fun row => (row.label, row.id) = key
  | _ => false

def Phase.exitCode? : Phase → Option ℕ
  | .done exitCode => some exitCode
  | _ => none

def State.locked (s : State) (key : String × ℕ) : Bool := s.held.any (·.key = key)

def State.settle (s : State) (held : Held) : State :=
  { s with
    table := storeValue s.table held.key held.raw
    said := Function.update s.said held.key (some held.plaintext) }

variable {Key Nonce : Type} (vault : Vault Key Nonce) (flags : Flags) (scopes : List TenantCompanyScope)

-- READ COMMITTED: a statement sees what is committed when it starts, and a write waits for the row's lock.
def step (s : State) (action : Action Nonce) : Option State :=
  match action with
  | .rewrap nonce =>
      (rewrapStep vault flags scopes s.table s.locked nonce s.phase).map fun next =>
        { s with phase := next.1, table := next.2 }
  | .fail => if s.phase.exitCode?.isSome then none else some { s with phase := .done 1 }
  | .write held =>
      if (s.table.find? held.key).isNone ∨ readValue vault held.label held.raw ≠ some held.plaintext then none
      else if s.held.any (fun other => other.key = held.key ∧ other.txn ≠ held.txn) ∨ s.phase.locks held.key then none
      else some { s with held := s.held.filter (fun other => other.key ≠ held.key) ++ [held] }
  | .commit txn =>
      let settled := (s.held.filter (·.txn = txn)).foldl State.settle s
      some { settled with held := s.held.filter (·.txn ≠ txn) }
  | .abort txn => some { s with held := s.held.filter (·.txn ≠ txn) }

def Step (s s' : State) : Prop := ∃ action, step vault flags scopes s action = some s'

def run (s : State) (actions : List (Action Nonce)) : Option State :=
  actions.foldlM (step vault flags scopes) s

-- A row holds the secret that was committed last for it.
def Current (said : String × ℕ → Option Text) (row : Row) : Prop :=
  ∀ plaintext, said (row.label, row.id) = some plaintext → readValue vault row.label row.raw = some plaintext

structure State.Starts (s : State) : Prop where
  phase : s.phase = startRun flags scopes
  held : s.held = []
  current : ∀ row ∈ s.table.rows, Current vault s.said row

-- No other secret is committed for a row between a batch's reading of the row and its writing.
def Undisturbed (s : State) : Action Nonce → Prop
  | .commit txn => ∀ held ∈ s.held, held.txn = txn → ∀ row ∈ s.phase.unwritten, (row.label, row.id) = held.key →
      s.said held.key = some held.plaintext
  | _ => True

def UndisturbedStep (s s' : State) : Prop :=
  ∃ action, step vault flags scopes s action = some s' ∧ Undisturbed s action

end Interleavings

section Invariant

variable {Key Nonce : Type} (vault : Vault Key Nonce) (flags : Flags) (scopes : List TenantCompanyScope)

structure State.Inv (s : State) : Prop where
  current : ∀ row ∈ s.table.rows, Current vault s.said row
  sound : s.phase.Sound vault flags scopes (Current vault s.said) s.table
  held : ∀ held ∈ s.held, readValue vault held.label held.raw = some held.plaintext
  exclusive : ∀ held ∈ s.held, s.phase.locks held.key = false

@[simp] theorem State.phase_settle (s : State) (held : Held) : (s.settle held).phase = s.phase := rfl

@[simp] theorem State.said_settle (s : State) (held : Held) :
    (s.settle held).said held.key = some held.plaintext := Function.update_self _ _ _

theorem State.said_settle_of_ne (s : State) (held : Held) (key : String × ℕ) (hk : key ≠ held.key) :
    (s.settle held).said key = s.said key := Function.update_of_ne hk _ _

theorem State.Starts.inv (s : State) (h : s.Starts vault flags scopes) : s.Inv vault flags scopes where
  current := h.current
  sound := by
    rw [h.phase]
    exact startRun_sound vault flags scopes _ _
  held := by
    rw [h.held]
    exact fun _ hm => absurd hm List.not_mem_nil
  exclusive := by
    rw [h.held]
    exact fun _ hm => absurd hm List.not_mem_nil

-- One write of a transaction that commits.
theorem State.Inv.settle (s : State) (h : s.Inv vault flags scopes) (held : Held)
    (hread : readValue vault held.label held.raw = some held.plaintext) (hlock : s.phase.locks held.key = false)
    (hquiet : ∀ row ∈ s.phase.unwritten, (row.label, row.id) = held.key → s.said held.key = some held.plaintext) :
    (s.settle held).Inv vault flags scopes := by
  have hother (row : Row) (hk : (row.label, row.id) ≠ held.key) (hrow : Current vault s.said row) :
      Current vault (s.settle held).said row := by
    intro plaintext hs
    rw [s.said_settle_of_ne held _ hk] at hs
    exact hrow plaintext hs
  have hsame (row : Row) (hs : s.said held.key = some held.plaintext) (hrow : Current vault s.said row) :
      Current vault (s.settle held).said row := by
    by_cases hk : (row.label, row.id) = held.key
    · intro plaintext hp
      rw [hk, s.said_settle] at hp
      refine hrow plaintext ?_
      rw [hk, hs, hp]
    · exact hother row hk hrow
  refine ⟨fun row hr => ?_, ⟨h.sound.planned, ?_⟩, h.held, h.exclusive⟩
  · obtain ⟨old, hold, hp, ⟨hk, rfl⟩ | ⟨hk, hraw⟩⟩ := mem_storeValue s.table _ _ row hr
    · exact hother row hk (h.current row hold)
    · have hkey : (row.label, row.id) = held.key := hk
      intro plaintext hs
      rw [hkey, s.said_settle] at hs
      have hlabel : row.label = held.label := congrArg Prod.fst hkey
      rw [hraw, hlabel, hread, hs]
  · have hcarries := h.sound.carries
    cases hphase : s.phase with
    | counting plan after pending =>
        rw [s.phase_settle, hphase]
        trivial
    | writing plan after =>
        rw [s.phase_settle, hphase]
        trivial
    | done exitCode =>
        rw [s.phase_settle, hphase]
        trivial
    | batch position plan after read written lastId exhausted =>
        rw [hphase] at hcarries hlock hquiet
        obtain ⟨hreads, hwrites⟩ := hcarries
        rw [s.phase_settle, hphase]
        refine ⟨fun row hr => ?_, fun row hr => ?_⟩
        · obtain ⟨⟨hholds, hplaced, hgood⟩, hpending⟩ := hreads row hr
          refine ⟨⟨hholds, placed_storeValue s.table _ _ row hplaced, ?_⟩, hpending⟩
          by_cases hk : (row.label, row.id) = held.key
          · exact hsame row (hquiet row hr hk) hgood
          · exact hother row hk hgood
        · obtain ⟨hholds, hplaced, hgood⟩ := hwrites row hr
          refine ⟨hholds, placed_storeValue s.table _ _ row hplaced, hother row (fun hk => ?_) hgood⟩
          -- the batch has the row's lock, so no transaction holds it
          have hlocked : written.any (fun other => decide ((other.label, other.id) = held.key)) = true :=
            List.any_eq_true.mpr ⟨row, hr, decide_eq_true hk⟩
          rw [Phase.locks, hlocked] at hlock
          cases hlock

theorem phase_settle_all (writes : List Held) (s : State) : (writes.foldl State.settle s).phase = s.phase := by
  induction writes generalizing s with
  | nil => rfl
  | cons first rest ih => rw [List.foldl_cons, ih, s.phase_settle]

theorem State.Inv.settle_all (writes : List Held) (s : State) (h : s.Inv vault flags scopes)
    (hread : ∀ held ∈ writes, readValue vault held.label held.raw = some held.plaintext)
    (hlock : ∀ held ∈ writes, s.phase.locks held.key = false)
    (hquiet : ∀ held ∈ writes, ∀ row ∈ s.phase.unwritten, (row.label, row.id) = held.key →
      s.said held.key = some held.plaintext) :
    (writes.foldl State.settle s).Inv vault flags scopes := by
  induction writes generalizing s with
  | nil => exact h
  | cons first rest ih =>
      obtain ⟨hread, hreads⟩ := List.forall_mem_cons.mp hread
      obtain ⟨hlock, hlocks⟩ := List.forall_mem_cons.mp hlock
      obtain ⟨hquiet, hquiets⟩ := List.forall_mem_cons.mp hquiet
      refine ih (s.settle first) (h.settle vault flags scopes s first hread hlock hquiet) hreads hlocks ?_
      intro held hheld row hr hk
      have hsaid := hquiets held hheld row hr hk
      by_cases hfirst : held.key = first.key
      · rw [hfirst, s.said_settle]
        rw [hfirst, hquiet row hr (hk.trans hfirst)] at hsaid
        exact hsaid
      · rw [s.said_settle_of_ne first _ hfirst]
        exact hsaid

theorem Phase.Between.locks (phase : Phase) (h : phase.Between) (key : String × ℕ) : phase.locks key = false := by
  cases phase with
  | batch => exact h.elim
  | counting => rfl
  | writing => rfl
  | done => rfl

-- A new lock of the batch is one that no transaction holds.
theorem RewrapMove.locks {table table' : Table Row} {locked : String × ℕ → Bool} {nonce : Nonce} {phase phase' : Phase}
    (hmove : RewrapMove vault flags scopes table locked nonce phase phase' table')
    (key : String × ℕ) (hfree : phase.locks key = false) (hkey : locked key = true) : phase'.locks key = false := by
  cases hmove with
  | between _ _ hbetween _ => exact hbetween.locks phase' key
  | fetch => rfl
  | skip => exact hfree
  | write position plan after lastId row new read written exhausted hnew hopen =>
      obtain ⟨_, _, _, _, _, _, rfl⟩ := of_rewrapRow vault nonce row new hnew
      have hne : (row.label, row.id) ≠ key := by
        rintro rfl
        exact hopen hkey
      rw [Phase.locks] at hfree ⊢
      rw [List.any_append, hfree, Bool.false_or, List.any_cons, List.any_nil, Bool.or_false]
      exact decide_eq_false hne
  | commit position plan after lastId written exhausted =>
      exact (advance_between position plan after lastId exhausted).1.locks _ key

theorem State.Inv.step (hd : code '$' ∉ vault.ring.active.id) (s s' : State) (action : Action Nonce)
    (h : s.Inv vault flags scopes) (hstep : step vault flags scopes s action = some s')
    (hquiet : Undisturbed s action) : s'.Inv vault flags scopes := by
  cases action with
  | rewrap nonce =>
      rw [Crypto.step, Option.map_eq_some_iff] at hstep
      obtain ⟨⟨phase', table'⟩, hnext, rfl⟩ := hstep
      have hrewrap : ∀ position ∈ runPlan flags scopes, ∀ row new, Carried (Current vault s.said) s.table position row →
          isPending vault flags row = .ok true → rewrapRow vault nonce row = .ok (some new) →
          Current vault s.said new := by
        intro position _ row new hcarried hpending hnew plaintext hs
        rw [readValue_rewrapRow vault flags hd nonce row new hpending hnew]
        obtain ⟨_, _, _, _, _, _, rfl⟩ := of_rewrapRow vault nonce row new hnew
        exact hcarried.good plaintext hs
      have hmove := rewrapStep_moves vault flags scopes s.table s.locked nonce s.phase phase' table' hnext
      obtain ⟨hcurrent, hsound⟩ := hmove.keeps vault flags scopes _ hrewrap h.current h.sound
      refine ⟨hcurrent, hsound, h.held, fun held hheld => ?_⟩
      refine hmove.locks vault flags scopes held.key (h.exclusive held hheld) ?_
      exact List.any_eq_true.mpr ⟨held, hheld, decide_eq_true rfl⟩
  | fail =>
      rw [Crypto.step] at hstep
      split at hstep
      · cases hstep
      · cases hstep
        exact ⟨h.current, done_sound vault flags scopes _ s.table 1, h.held, fun _ _ => rfl⟩
  | write held =>
      rw [Crypto.step] at hstep
      split at hstep
      · cases hstep
      · rename_i hvalid
        split at hstep
        · cases hstep
        · rename_i hopen
          push Not at hvalid hopen
          cases hstep
          refine ⟨h.current, h.sound, fun other ho => ?_, fun other ho => ?_⟩
          · rcases List.mem_append.mp ho with ho | ho
            · exact h.held other (List.mem_of_mem_filter ho)
            · rw [List.mem_singleton.mp ho]
              exact hvalid.2
          · rcases List.mem_append.mp ho with ho | ho
            · exact h.exclusive other (List.mem_of_mem_filter ho)
            · rw [List.mem_singleton.mp ho]
              exact Bool.eq_false_iff.mpr hopen.2
  | commit txn =>
      cases hstep
      have hmem (held : Held) (hheld : held ∈ s.held.filter (·.txn = txn)) : held ∈ s.held ∧ held.txn = txn := by
        simpa using hheld
      have hsettled := h.settle_all vault flags scopes (s.held.filter (·.txn = txn)) s
        (fun held hheld => h.held held (hmem held hheld).1) (fun held hheld => h.exclusive held (hmem held hheld).1)
        fun held hheld => hquiet held (hmem held hheld).1 (hmem held hheld).2
      have hphase : ((s.held.filter (·.txn = txn)).foldl State.settle s).phase = s.phase := phase_settle_all _ s
      refine ⟨hsettled.current, hsettled.sound, fun held hheld => ?_, fun held hheld => ?_⟩
      · exact h.held held (List.mem_of_mem_filter hheld)
      · dsimp only
        rw [hphase]
        exact h.exclusive held (List.mem_of_mem_filter hheld)
  | abort txn =>
      cases hstep
      exact ⟨h.current, h.sound, fun held hheld => h.held held (List.mem_of_mem_filter hheld),
        fun held hheld => h.exclusive held (List.mem_of_mem_filter hheld)⟩

end Invariant

section Results

variable {Key Nonce : Type} (vault : Vault Key Nonce) (flags : Flags) (scopes : List TenantCompanyScope)

-- As long as no other secret is committed between a batch's reading of a row and its writing,
-- every row holds the secret that was committed last for it, whatever the interleaving.
theorem rewrap_keeps_last (hd : code '$' ∉ vault.ring.active.id) (s s' : State)
    (hstart : s.Starts vault flags scopes)
    (hrun : Relation.ReflTransGen (UndisturbedStep vault flags scopes) s s') :
    ∀ row ∈ s'.table.rows, Current vault s'.said row := by
  have hinv : s'.Inv vault flags scopes := by
    induction hrun with
    | refl => exact hstart.inv vault flags scopes
    | tail _ hstep ih =>
        obtain ⟨action, hstep, hquiet⟩ := hstep
        exact ih.step vault flags scopes hd _ _ action hstep hquiet
  exact hinv.current

theorem steps_of_run (actions : List (Action Nonce)) (s s' : State)
    (h : run vault flags scopes s actions = some s') :
    Relation.ReflTransGen (Step vault flags scopes) s s' := by
  induction actions generalizing s with
  | nil =>
      cases h
      exact .refl
  | cons action rest ih =>
      rw [run, List.foldlM_cons] at h
      obtain ⟨next, hnext, hrest⟩ := Option.bind_eq_some_iff.mp h
      exact .head ⟨action, hnext⟩ (ih next hrest)

instance (s : State) (action : Action Nonce) : Decidable (Undisturbed s action) :=
  match action with
  | .rewrap _ | .fail | .write _ | .abort _ => .isTrue trivial
  | .commit _ => inferInstanceAs (Decidable (∀ held ∈ s.held, _ → ∀ row ∈ s.phase.unwritten, _ → _))

def undisturbed (s : State) : List (Action Nonce) → Bool
  | [] => true
  | action :: rest =>
      decide (Undisturbed s action) && (step vault flags scopes s action).all fun next => undisturbed next rest

theorem undisturbed_of_run (actions : List (Action Nonce)) (s s' : State)
    (hquiet : undisturbed vault flags scopes s actions = true) (h : run vault flags scopes s actions = some s') :
    Relation.ReflTransGen (UndisturbedStep vault flags scopes) s s' := by
  induction actions generalizing s with
  | nil =>
      cases h
      exact .refl
  | cons action rest ih =>
      rw [run, List.foldlM_cons] at h
      obtain ⟨next, hnext, hrest⟩ := Option.bind_eq_some_iff.mp h
      rw [undisturbed, hnext, Option.all_some, Bool.and_eq_true] at hquiet
      exact .head ⟨action, hnext, of_decide_eq_true hquiet.1⟩ (ih next hquiet.2 hrest)

end Results

section Example

-- A token is the key's letter and the plaintext behind it.
def letterFernet : Fernet CodePoint Unit where
  encrypt key _ plaintext := key :: plaintext
  decrypt
    | _, [] => none
    | key, c :: rest => if c = key then some rest else none
  decrypt_encrypt _ _ _ := if_pos rfl
  decrypt_other _ _ _ _ h := if_neg h.symm

def firstEntry : Entry CodePoint := ⟨text "v1", code 'A', by decide⟩

def secondEntry : Entry CodePoint := ⟨text "v2", code 'B', by decide⟩

def rotatedVault : Vault CodePoint Unit := ⟨letterFernet, ⟨secondEntry, [firstEntry]⟩, fun _ => none⟩

def CONNECTORS : String := "connector_configs.credentials_encrypted"

def connectorFlags : Flags := ⟨some CONNECTORS, none, 100, false⟩

def connectorValue (entry : Entry CodePoint) (plaintext : Text) : Raw :=
  wrapCiphertextForColumn CONNECTORS (sealedUnder letterFernet entry () plaintext)

def connectorState : State where
  table := ⟨[⟨CONNECTORS, 1, 1, none, connectorValue firstEntry (text "old")⟩], by decide⟩
  said key := if key = (CONNECTORS, 1) then some (text "old") else none
  held := []
  phase := startRun connectorFlags [⟨1, none⟩]

-- Whether the run is over, the writes in flight, and each row's last secret beside what it reads as.
structure Outcome where
  exitCode : Option ℕ
  inFlight : ℕ
  secrets : List (Option Text × Option Text)
  deriving DecidableEq

def State.outcome (s : State) : Outcome where
  exitCode := s.phase.exitCode?
  inFlight := s.held.length
  secrets := s.table.rows.map fun row => (s.said (row.label, row.id), readValue rotatedVault row.label row.raw)

theorem connectorState_starts : connectorState.Starts rotatedVault connectorFlags [⟨1, none⟩] where
  phase := rfl
  held := rfl
  current := by
    intro row hr plaintext hs
    have hrow := List.mem_singleton.mp hr
    subst hrow
    have hsaid : some (text "old") = some plaintext := hs
    rw [← hsaid]
    decide

def pagedFlags : Flags := ⟨some CONNECTORS, none, 1, false⟩

def pagedState : State where
  table := ⟨[⟨CONNECTORS, 1, 1, none, connectorValue firstEntry (text "old")⟩,
    ⟨CONNECTORS, 2, 1, none, connectorValue firstEntry (text "old")⟩], by decide⟩
  said key := if key = (CONNECTORS, 1) ∨ key = (CONNECTORS, 2) then some (text "old") else none
  held := []
  phase := startRun pagedFlags [⟨1, none⟩]

-- One row gets a new secret before its page is read, the other while the first one's batch is open.
def betweenBatches : List (Action Unit) :=
  [.rewrap (), .rewrap (), .write ⟨7, CONNECTORS, 1, connectorValue firstEntry (text "new"), text "new"⟩, .commit 7,
    .rewrap (), .write ⟨8, CONNECTORS, 2, connectorValue secondEntry (text "late"), text "late"⟩, .commit 8] ++
  List.replicate 7 (.rewrap ())

theorem pagedState_starts : pagedState.Starts rotatedVault pagedFlags [⟨1, none⟩] where
  phase := rfl
  held := rfl
  current := by
    have hold : ∀ row ∈ pagedState.table.rows, pagedState.said (row.label, row.id) = some (text "old") ∧
        readValue rotatedVault row.label row.raw = some (text "old") := by decide
    intro row hr plaintext hs
    rw [(hold row hr).2, ← (hold row hr).1, hs]

theorem rewrap_keeps_last_between : ∃ s' : State,
    s'.outcome = ⟨some 0, 0, [(some (text "new"), some (text "new")), (some (text "late"), some (text "late"))]⟩ ∧
    ∀ row ∈ s'.table.rows, Current rotatedVault s'.said row := by
  have hrun : (run rotatedVault pagedFlags [⟨1, none⟩] pagedState betweenBatches).map State.outcome =
      some ⟨some 0, 0, [(some (text "new"), some (text "new")), (some (text "late"), some (text "late"))]⟩ := by
    decide +kernel
  have hquiet : undisturbed rotatedVault pagedFlags [⟨1, none⟩] pagedState betweenBatches = true := by decide +kernel
  obtain ⟨s', hs', hfinal⟩ := Option.map_eq_some_iff.mp hrun
  exact ⟨s', hfinal, rewrap_keeps_last rotatedVault pagedFlags [⟨1, none⟩] (by decide) pagedState s' pagedState_starts
    (undisturbed_of_run _ _ _ _ _ _ hquiet hs')⟩

def disturbance : List (Action Unit) :=
  [.rewrap (), .rewrap (), .rewrap (),
    .write ⟨7, CONNECTORS, 1, connectorValue secondEntry (text "new"), text "new"⟩, .commit 7,
    .rewrap (), .rewrap (), .rewrap ()]

-- The row is read, a new secret is committed for it, and the batch puts the old one back.
theorem older_secret_back : connectorState.Starts rotatedVault connectorFlags [⟨1, none⟩] ∧ ∃ s' : State,
    Relation.ReflTransGen (Step rotatedVault connectorFlags [⟨1, none⟩]) connectorState s' ∧
    s'.outcome = ⟨some 0, 0, [(some (text "new"), some (text "old"))]⟩ := by
  have hrun : (run rotatedVault connectorFlags [⟨1, none⟩] connectorState disturbance).map
      State.outcome = some ⟨some 0, 0, [(some (text "new"), some (text "old"))]⟩ := by decide
  obtain ⟨s', hs', hfinal⟩ := Option.map_eq_some_iff.mp hrun
  exact ⟨connectorState_starts, s', steps_of_run _ _ _ _ _ _ hs', hfinal⟩

end Example

end AgenticOrg.Crypto
