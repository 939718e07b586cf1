import AgenticOrg.Lib.Delimited
import AgenticOrg.Spend.Reconcile
import AgenticOrg.Spend.Rollups
import Mathlib.Logic.Equiv.Nat

namespace AgenticOrg.Spend

open Delimited

section Definitions

def UUID_CHARS : List Char := "0123456789abcdef-".toList
def LABEL_CHARS : List Char := "abcdefghijklmnopqrstuvwxyz0123456789_.:-".toList
def CURRENCY_CHARS : List Char := "ABCDEFGHIJKLMNOPQRSTUVWXYZ".toList

def ENVIRONMENT_MAX : ℕ := 32

def environmentNow (names : Naming) (env : String) : String :=
  String.ofList ((names.lower (names.strip env)).toList.take ENVIRONMENT_MAX)

-- The units a record of each usage type may have.
def RECORD_UNITS : List (String × String) :=
  [("llm_tokens", "input_token"), ("llm_tokens", "output_token"), ("llm_tokens", "cached_input_token"),
    ("llm_tokens", "token"), ("embedding_tokens", "embedding_token"), ("ocr_pages", "ocr_page"),
    ("speech_minutes", "audio_minute"), ("tool_calls", "call"), ("storage", "gb_day"),
    ("gpu_hours", "gpu_node_hour")]

def ATTRIBUTION_PATHS : List String :=
  ["agent_mapping", "cost_centre_mapping", "cost_centre_code", "workflow_mapping", "application_mapping",
    "department_mapping", "department_code"]

def UNATTRIBUTED_REASONS : List String :=
  ["no_source", "no_mapping", "unknown_label", "inactive_node", "resolver_failed"]

def PRICE_SOURCES : List String :=
  ["contract", "list", "fallback_override", "fallback_list", "in_house", "none"]

def BILLING_ACCOUNTS : List String := ["tenant_key", "platform_key", "in_house"]

def isUuid (text : String) : Bool := text.length = 36 && text.toList.all UUID_CHARS.contains

def isLabel (text : String) : Bool := text ≠ "" && text.toList.all LABEL_CHARS.contains

def isCurrency (text : String) : Bool := text.length = 3 && text.toList.all CURRENCY_CHARS.contains

-- The dimensions of a stored record, trimmed: what its columns, checks and writers let through. The model is
-- any text, and so are the region and the environment, which are settings of the deployment.
structure Storable (dims : Dims) : Prop where
  ids : ∀ id ∈ [dims.orgNodeId, dims.businessUnitNodeId, dims.agentId, dims.rateCardId, dims.commitmentId],
    ∀ text ∈ id, isUuid text = true
  attributionPath : ∀ text ∈ dims.attributionPath, text ∈ ATTRIBUTION_PATHS
  unattributedReason : ∀ text ∈ dims.unattributedReason, text ∈ UNATTRIBUTED_REASONS
  productLine : ∀ text ∈ dims.productLine, isLabel text = true
  useCase : isLabel dims.useCase = true
  application : dims.application ∈ APPLICATIONS
  provider : isLabel dims.provider = true
  unit : (dims.usageType, dims.unit) ∈ RECORD_UNITS
  currency : ∀ text ∈ dims.currency, isCurrency text = true
  priceSource : dims.priceSource ∈ PRICE_SOURCES
  billingAccount : ∀ text ∈ dims.billingAccount, text ∈ BILLING_ACCOUNTS
  riskTier : ∀ text ∈ dims.riskTier, text ∈ RISK_TIERS

end Definitions

section Texts

-- The values before the model, those from the usage type to the billing account, and the last ones.
def Dims.frontTexts (isoformat : Date → String) (dims : Dims) : List String :=
  [isoformat dims.billingDate, dims.orgNodeId.getD "~", dims.businessUnitNodeId.getD "~",
    dims.attributionPath.getD "~", dims.unattributedReason.getD "~", dims.productLine.getD "~", dims.useCase,
    dims.application, dims.agentId.getD "~", dims.provider]

def Dims.middleTexts (dims : Dims) : List String :=
  [dims.usageType, dims.unit, dims.currency.getD "~", dims.rateCardId.getD "~", dims.priceSource,
    dims.commitmentId.getD "~", dims.billingAccount.getD "~"]

def Dims.labelTexts (dims : Dims) : List String := [dims.region.getD "~", dims.environment]

theorem texts_eq (isoformat : Date → String) (dims : Dims) :
    ((dims.texts isoformat).map fun text => text.getD "~") = dims.frontTexts isoformat ++
      (dims.model :: (dims.middleTexts ++ (dims.labelTexts ++ [dims.riskTier.getD "~"]))) := rfl

def Dims.middleParts (dims : Dims) : List (List Char) := dims.middleTexts.map String.toList

-- The region and the environment, cut where they contain the delimiter.
def Dims.labelParts (dims : Dims) : List (List Char) := dims.labelTexts.flatMap (parts '|')

-- A text that is neither cut nor taken for a missing value.
def Clear (text : String) : Prop := Plain '|' text ∧ text ≠ "~"

theorem clear_of_chars (allowed : List Char) (hbar : '|' ∉ allowed) (htilde : '~' ∉ allowed) (text : String)
    (h : text.toList.all allowed.contains = true) : Clear text := by
  have hchars : ∀ c ∈ text.toList, c ∈ allowed := fun c hc =>
    List.contains_iff_mem.mp (List.all_eq_true.mp h c hc)
  refine ⟨fun hin => hbar (hchars _ hin), ?_⟩
  rintro rfl
  exact htilde (hchars '~' (by decide))

theorem clear_uuid (text : String) (h : isUuid text = true) : Clear text :=
  clear_of_chars UUID_CHARS (by decide) (by decide) text (Bool.and_eq_true _ _ ▸ h).2

theorem clear_label (text : String) (h : isLabel text = true) : Clear text :=
  clear_of_chars LABEL_CHARS (by decide) (by decide) text (Bool.and_eq_true _ _ ▸ h).2

theorem clear_currency (text : String) (h : isCurrency text = true) : Clear text :=
  clear_of_chars CURRENCY_CHARS (by decide) (by decide) text (Bool.and_eq_true _ _ ▸ h).2

theorem clear_of_mem (vocabulary : List String)
    (hall : (vocabulary.all fun text => !text.toList.contains '|' && text ≠ "~") = true) (text : String)
    (h : text ∈ vocabulary) : Clear text := by
  have hmem := List.all_eq_true.mp hall text h
  exact (by simpa using hmem : '|' ∉ text.toList ∧ text ≠ "~")

theorem plain_getD (value : Option String) (h : ∀ text ∈ value, Clear text) : Plain '|' (value.getD "~") := by
  cases value with
  | none => exact (by decide : '|' ∉ "~".toList)
  | some text => exact (h text rfl).1

-- A missing value is told from every other.
theorem getD_inj (a b : Option String) (ha : ∀ text ∈ a, Clear text) (hb : ∀ text ∈ b, Clear text)
    (h : a.getD "~" = b.getD "~") : a = b := by
  cases a with
  | none =>
      cases b with
      | none => rfl
      | some text => exact absurd h.symm (hb text rfl).2
  | some text =>
      cases b with
      | none => exact absurd h (ha text rfl).2
      | some other => exact congrArg some h

end Texts

section Storable

variable (isoformat : Date → String) (hiso : ∀ day, Plain '|' (isoformat day)) (dims : Dims) (h : Storable dims)

include h

theorem Storable.clear_id (id : Option String)
    (hid : id ∈ [dims.orgNodeId, dims.businessUnitNodeId, dims.agentId, dims.rateCardId, dims.commitmentId]) :
    ∀ text ∈ id, Clear text := fun text ht => clear_uuid text (h.ids id hid text ht)

theorem Storable.usageType_mem : dims.usageType ∈ RECORD_UNITS.map (·.1) := List.mem_map_of_mem h.unit

theorem Storable.unit_mem : dims.unit ∈ RECORD_UNITS.map (·.2) := List.mem_map_of_mem h.unit

theorem Storable.clear_commitment : ∀ text ∈ dims.commitmentId, Clear text := h.clear_id dims _ (by simp)

theorem Storable.clear_rateCard : ∀ text ∈ dims.rateCardId, Clear text := h.clear_id dims _ (by simp)

theorem Storable.clear_account : ∀ text ∈ dims.billingAccount, Clear text := fun text ht =>
  clear_of_mem BILLING_ACCOUNTS (by decide) text (h.billingAccount text ht)

theorem Storable.clear_tier : ∀ text ∈ dims.riskTier, Clear text := fun text ht =>
  clear_of_mem RISK_TIERS (by decide) text (h.riskTier text ht)

theorem Storable.middle_plain : ∀ text ∈ dims.middleTexts, Plain '|' text := by
  intro text ht
  simp only [Dims.middleTexts, List.mem_cons, List.not_mem_nil, or_false] at ht
  rcases ht with rfl | rfl | rfl | rfl | rfl | rfl | rfl
  · exact (clear_of_mem _ (by decide) _ h.usageType_mem).1
  · exact (clear_of_mem _ (by decide) _ h.unit_mem).1
  · exact plain_getD _ fun text ht => clear_currency text (h.currency text ht)
  · exact plain_getD _ h.clear_rateCard
  · exact (clear_of_mem PRICE_SOURCES (by decide) _ h.priceSource).1
  · exact plain_getD _ h.clear_commitment
  · exact plain_getD _ h.clear_account

include hiso in
theorem Storable.front_plain : ∀ text ∈ dims.frontTexts isoformat, Plain '|' text := by
  intro text ht
  simp only [Dims.frontTexts, List.mem_cons, List.not_mem_nil, or_false] at ht
  rcases ht with rfl | rfl | rfl | rfl | rfl | rfl | rfl | rfl | rfl | rfl
  · exact hiso _
  · exact plain_getD _ (h.clear_id dims _ (by simp))
  · exact plain_getD _ (h.clear_id dims _ (by simp))
  · exact plain_getD _ fun text ht => clear_of_mem ATTRIBUTION_PATHS (by decide) text (h.attributionPath text ht)
  · exact plain_getD _ fun text ht =>
      clear_of_mem UNATTRIBUTED_REASONS (by decide) text (h.unattributedReason text ht)
  · exact plain_getD _ fun text ht => clear_label text (h.productLine text ht)
  · exact (clear_label _ h.useCase).1
  · exact (clear_of_mem APPLICATIONS (by decide) _ h.application).1
  · exact plain_getD _ (h.clear_id dims _ (by simp))
  · exact (clear_label _ h.provider).1

-- No other value reads like a usage type.
theorem Storable.usageType_apart (usageType : String) (hu : usageType ∈ RECORD_UNITS.map (·.1)) :
    usageType.toList ∉ dims.middleParts.tail := by
  have hapart : ∀ known ∈ RECORD_UNITS.map (·.1), known.length ≠ 3 ∧ known.length ≠ 36 ∧ known ≠ "~" ∧
      known ∉ RECORD_UNITS.map (·.2) ∧ known ∉ PRICE_SOURCES ∧ known ∉ BILLING_ACCOUNTS := by decide
  obtain ⟨hthree, hid, hmissing, hunit, hsource, haccount⟩ := hapart usageType hu
  have hvalue : ∀ value : Option String, (∀ text ∈ value, usageType ≠ text) → usageType ≠ value.getD "~" := by
    intro value hne
    cases value with
    | none => exact hmissing
    | some text => exact hne text rfl
  have huuid : ∀ id ∈ [dims.orgNodeId, dims.businessUnitNodeId, dims.agentId, dims.rateCardId, dims.commitmentId],
      usageType ≠ id.getD "~" := by
    intro id hmem
    refine hvalue id ?_
    rintro text ht rfl
    have hlength := h.ids id hmem usageType ht
    rw [isUuid, Bool.and_eq_true, decide_eq_true_eq] at hlength
    exact hid hlength.1
  intro hin
  simp only [Dims.middleParts, Dims.middleTexts, List.map_cons, List.map_nil, List.tail_cons, List.mem_cons,
    List.not_mem_nil, or_false, String.toList_inj] at hin
  rcases hin with hin | hin | hin | hin | hin | hin
  · exact hunit (hin ▸ h.unit_mem)
  · refine hvalue dims.currency ?_ hin
    rintro text ht rfl
    have hlength := h.currency usageType ht
    rw [isCurrency, Bool.and_eq_true, decide_eq_true_eq] at hlength
    exact hthree hlength.1
  · exact huuid _ (by simp) hin
  · exact hsource (hin ▸ h.priceSource)
  · exact huuid _ (by simp) hin
  · refine hvalue dims.billingAccount ?_ hin
    rintro text ht rfl
    exact haccount (h.billingAccount usageType ht)

include hiso in
theorem Storable.parts_dimsText : parts '|' (dimsText isoformat dims) =
    (dims.frontTexts isoformat).map String.toList ++ (parts '|' dims.model ++ (dims.middleParts ++
      (dims.labelParts ++ [(dims.riskTier.getD "~").toList]))) := by
  rw [dimsText, texts_eq, parts_intercalate '|' "|" rfl _ (by simp [Dims.frontTexts]), List.flatMap_append,
    flatMap_parts_of_plain '|' _ (h.front_plain isoformat hiso dims), List.flatMap_cons, List.flatMap_append,
    flatMap_parts_of_plain '|' _ (h.middle_plain dims), List.flatMap_append, List.flatMap_singleton,
    parts_of_plain '|' _ (plain_getD _ h.clear_tier)]
  rfl

end Storable

section Clashes

-- All but the values from the model to the billing account and the labels of the deployment.
def Dims.frame (dims : Dims) : Dims :=
  { dims with
    model := ""
    usageType := ""
    unit := ""
    currency := none
    rateCardId := none
    priceSource := ""
    commitmentId := none
    billingAccount := none
    region := none
    environment := "" }

def Dims.unlabelled (dims : Dims) : Dims := { dims with region := none, environment := "" }

-- The labels of one end in all that the other has from its usage type on, and the other's model goes on with what
-- comes before it.
def Spills (a b : Dims) : Prop :=
  a.frame = b.frame ∧ ∃ between, a.labelParts = between ++ (b.middleParts ++ b.labelParts) ∧
    parts '|' b.model = parts '|' a.model ++ (a.middleParts ++ between)

-- Records that differ in their labels only, which read the same.
def LabelsBlend (a b : Dims) : Prop := a.unlabelled = b.unlabelled ∧ a.labelParts = b.labelParts

variable (isoformat : Date → String) (hiso : ∀ day, Plain '|' (isoformat day)) (hday : Function.Injective isoformat)
variable (a b : Dims) (ha : Storable a) (hb : Storable b)

include ha hb

include hday in
theorem frame_of_texts (hfront : a.frontTexts isoformat = b.frontTexts isoformat)
    (htier : a.riskTier.getD "~" = b.riskTier.getD "~") : a.frame = b.frame := by
  simp only [Dims.frontTexts, List.cons.injEq, and_true] at hfront
  obtain ⟨hdate, hnode, hunit, hpath, hreason, hline, hcase, happlication, hagent, hprovider⟩ := hfront
  have hnode := getD_inj _ _ (ha.clear_id a _ (by simp)) (hb.clear_id b _ (by simp)) hnode
  have hunit := getD_inj _ _ (ha.clear_id a _ (by simp)) (hb.clear_id b _ (by simp)) hunit
  have hagent := getD_inj _ _ (ha.clear_id a _ (by simp)) (hb.clear_id b _ (by simp)) hagent
  have hpath := getD_inj _ _
    (fun text ht => clear_of_mem ATTRIBUTION_PATHS (by decide) text (ha.attributionPath text ht))
    (fun text ht => clear_of_mem ATTRIBUTION_PATHS (by decide) text (hb.attributionPath text ht)) hpath
  have hreason := getD_inj _ _
    (fun text ht => clear_of_mem UNATTRIBUTED_REASONS (by decide) text (ha.unattributedReason text ht))
    (fun text ht => clear_of_mem UNATTRIBUTED_REASONS (by decide) text (hb.unattributedReason text ht)) hreason
  have hline := getD_inj _ _ (fun text ht => clear_label text (ha.productLine text ht))
    (fun text ht => clear_label text (hb.productLine text ht)) hline
  have htier := getD_inj _ _ (ha.clear_tier a) (hb.clear_tier b) htier
  unfold Dims.frame
  rw [hday hdate, hnode, hunit, hpath, hreason, hline, hcase, happlication, hagent, hprovider, htier]

theorem unlabelled_of_texts (hframe : a.frame = b.frame) (hmodel : a.model = b.model)
    (hmiddle : a.middleTexts = b.middleTexts) : a.unlabelled = b.unlabelled := by
  simp only [Dims.middleTexts, List.cons.injEq, and_true] at hmiddle
  obtain ⟨husage, hunit, hcurrency, hcard, hsource, hcommitment, haccount⟩ := hmiddle
  have hcurrency := getD_inj _ _ (fun text ht => clear_currency text (ha.currency text ht))
    (fun text ht => clear_currency text (hb.currency text ht)) hcurrency
  have hcard := getD_inj _ _ (ha.clear_rateCard a) (hb.clear_rateCard b) hcard
  have hcommitment := getD_inj _ _ (ha.clear_commitment a) (hb.clear_commitment b) hcommitment
  have haccount := getD_inj _ _ (ha.clear_account a) (hb.clear_account b) haccount
  have hrefill : ∀ dims : Dims, dims.unlabelled = { dims.frame with
      model := dims.model, usageType := dims.usageType, unit := dims.unit, currency := dims.currency,
      rateCardId := dims.rateCardId, priceSource := dims.priceSource, commitmentId := dims.commitmentId,
      billingAccount := dims.billingAccount } := fun dims => rfl
  rw [hrefill, hrefill b, hframe, hmodel, husage, hunit, hcurrency, hcard, hsource, hcommitment, haccount]

omit ha hb in
theorem toList_map_inj (xs ys : List String) (h : xs.map String.toList = ys.map String.toList) : xs = ys :=
  List.map_injective_iff.mpr (fun _ _ => String.toList_injective) h

include hiso hday

-- Two texts are the same where the values are, or where the labels blend or spill over.
theorem dimsText_eq_iff : dimsText isoformat a = dimsText isoformat b ↔
    LabelsBlend a b ∨ Spills a b ∨ Spills b a := by
  have hparts : dimsText isoformat a = dimsText isoformat b ↔
      parts '|' (dimsText isoformat a) = parts '|' (dimsText isoformat b) := (parts_injective '|').eq_iff.symm
  rw [hparts, ha.parts_dimsText isoformat hiso a, hb.parts_dimsText isoformat hiso b]
  constructor
  · intro h
    obtain ⟨hfront, hrest⟩ := List.append_inj h rfl
    have hend : ∀ dims : Dims, parts '|' dims.model ++ (dims.middleParts ++
        (dims.labelParts ++ [(dims.riskTier.getD "~").toList])) =
        (parts '|' dims.model ++ (dims.middleParts ++ dims.labelParts)) ++ [(dims.riskTier.getD "~").toList] := by
      intro dims
      simp only [List.append_assoc]
    rw [hend, hend] at hrest
    obtain ⟨hrest, htier⟩ := List.append_inj' hrest rfl
    have hframe := frame_of_texts isoformat hday a b ha hb (toList_map_inj _ _ hfront)
      (String.toList_injective (List.singleton_inj.mp htier))
    have hlength : a.middleParts.length = b.middleParts.length := rfl
    have hne : a.middleParts ≠ [] := List.cons_ne_nil _ _
    have hapart : ∀ a b : Dims, Storable a → Storable b → ∀ x ∈ b.middleParts.head?, x ∉ a.middleParts.tail := by
      intro a b ha hb x hx
      rw [← Option.some.inj hx]
      exact ha.usageType_apart a b.usageType hb.usageType_mem
    rcases append_shift _ _ _ _ _ _ hlength (hapart a b ha hb) (hapart b a hb ha) hne hrest with
      ⟨hmodel, hmiddle, hlabels⟩ | ⟨between, hlabels, hmodel⟩ | ⟨between, hlabels, hmodel⟩
    · exact .inl ⟨unlabelled_of_texts a b ha hb hframe (parts_injective '|' hmodel) (toList_map_inj _ _ hmiddle),
        hlabels⟩
    · exact .inr (.inl ⟨hframe, between, hlabels, hmodel⟩)
    · exact .inr (.inr ⟨hframe.symm, between, hlabels, hmodel⟩)
  · have hframe : ∀ a b : Dims, a.frame = b.frame → (a.frontTexts isoformat).map String.toList =
        (b.frontTexts isoformat).map String.toList ∧ a.riskTier = b.riskTier := by
      intro a b h
      have hfront := congrArg (fun dims : Dims => (dims.frontTexts isoformat).map String.toList) h
      have htier := congrArg Dims.riskTier h
      exact ⟨hfront, htier⟩
    have hspill : ∀ a b : Dims, Spills a b → (a.frontTexts isoformat).map String.toList ++
        (parts '|' a.model ++ (a.middleParts ++ (a.labelParts ++ [(a.riskTier.getD "~").toList]))) =
        (b.frontTexts isoformat).map String.toList ++
        (parts '|' b.model ++ (b.middleParts ++ (b.labelParts ++ [(b.riskTier.getD "~").toList]))) := by
      rintro a b ⟨hsame, between, hlabels, hmodel⟩
      obtain ⟨hfront, htier⟩ := hframe a b hsame
      rw [hfront, htier, hlabels, hmodel]
      simp only [List.append_assoc]
    rintro (⟨hsame, hlabels⟩ | hspills | hspills)
    · have hfields := congrArg (fun dims : Dims => (dims.frontTexts isoformat, dims.model, dims.middleParts,
        dims.riskTier)) hsame
      have hview : ∀ dims : Dims, (dims.unlabelled.frontTexts isoformat, dims.unlabelled.model,
          dims.unlabelled.middleParts, dims.unlabelled.riskTier) =
          (dims.frontTexts isoformat, dims.model, dims.middleParts, dims.riskTier) := fun dims => rfl
      rw [hview, hview] at hfields
      simp only [Prod.mk.injEq] at hfields
      obtain ⟨hfront, hmodel, hmiddle, htier⟩ := hfields
      rw [hfront, hmodel, hmiddle, htier, hlabels]
    · exact hspill a b hspills
    · exact (hspill b a hspills).symm

-- Different values have different texts exactly where the labels neither blend nor spill over.
theorem dims_told_apart : (a ≠ b → dimsText isoformat a ≠ dimsText isoformat b) ↔
    (LabelsBlend a b → a = b) ∧ ¬Spills a b ∧ ¬Spills b a := by
  -- a text that spills is longer in its model
  have hspill : ∀ a b : Dims, Spills a b → a ≠ b := by
    rintro a b ⟨_, between, _, hmodel⟩ rfl
    have hlength := congrArg List.length hmodel
    have hmiddle : a.middleParts.length = 7 := rfl
    rw [List.length_append, List.length_append, hmiddle] at hlength
    omega
  rw [Ne, Ne, not_imp_not, dimsText_eq_iff isoformat hiso hday a b ha hb]
  constructor
  · intro h
    exact ⟨fun hblend => h (.inl hblend), fun hs => hspill a b hs (h (.inr (.inl hs))),
      fun hs => hspill b a hs (h (.inr (.inr hs))).symm⟩
  · rintro ⟨hblend, hab, hba⟩ (h | h | h)
    · exact hblend h
    · exact absurd h hab
    · exact absurd h hba

-- Labels without the delimiter, and a region that is not the mark of a missing one, never clash.
theorem dims_told_apart_plain (hregion : ∀ dims ∈ [a, b], ∀ text ∈ dims.region, Clear text)
    (henvironment : ∀ dims ∈ [a, b], Plain '|' dims.environment) (hne : a ≠ b) :
    dimsText isoformat a ≠ dimsText isoformat b := by
  have hlabels : ∀ dims ∈ [a, b], dims.labelParts = dims.labelTexts.map String.toList := by
    intro dims hmem
    refine flatMap_parts_of_plain '|' _ fun text ht => ?_
    simp only [Dims.labelTexts, List.mem_cons, List.not_mem_nil, or_false] at ht
    rcases ht with rfl | rfl
    · exact plain_getD _ (hregion dims hmem)
    · exact henvironment dims hmem
  have hspill : ∀ c ∈ [a, b], ∀ d ∈ [a, b], ¬Spills c d := by
    rintro c hc d hd ⟨_, between, hspilled, _⟩
    have hlength := congrArg List.length hspilled
    have hmiddle : d.middleParts.length = 7 := rfl
    rw [hlabels c hc, List.length_map, List.length_append, List.length_append, hmiddle] at hlength
    have htwo : c.labelTexts.length = 2 := rfl
    omega
  refine (dims_told_apart isoformat hiso hday a b ha hb).mpr ⟨?_, hspill a (by simp) b (by simp),
    hspill b (by simp) a (by simp)⟩ hne
  rintro ⟨hsame, hread⟩
  rw [hlabels a (by simp), hlabels b (by simp)] at hread
  have htexts := toList_map_inj _ _ hread
  simp only [Dims.labelTexts, List.cons.injEq, and_true] at htexts
  have hfound := getD_inj _ _ (hregion a (by simp)) (hregion b (by simp)) htexts.1
  have hrefill : ∀ dims : Dims, dims = { dims.unlabelled with region := dims.region, environment := dims.environment } :=
    fun dims => rfl
  rw [hrefill a, hrefill b, hsame, hfound, htexts.2]

end Clashes

section Sample

-- The text of one day, and for each other day a text of its own.
def sampleDay (day : Date) : String :=
  if day = 739798 then "2026-07-01" else String.ofList (List.replicate (Equiv.intEquivNat day) 'x')

theorem sampleDay_plain (day : Date) : Plain '|' (sampleDay day) := by
  unfold sampleDay Plain
  split_ifs
  · decide
  · rw [String.toList_ofList]
    intro hin
    have hsame := List.eq_of_mem_replicate hin
    revert hsame
    decide

theorem sampleDay_injective : Function.Injective sampleDay := by
  have hother : ∀ day : Date, "2026-07-01" ≠ String.ofList (List.replicate (Equiv.intEquivNat day) 'x') := by
    intro day h
    have hdash : '-' ∈ (String.ofList (List.replicate (Equiv.intEquivNat day) 'x')).toList := h ▸ by decide
    rw [String.toList_ofList] at hdash
    have hsame := List.eq_of_mem_replicate hdash
    revert hsame
    decide
  intro a b h
  unfold sampleDay at h
  split_ifs at h with ha hb hb
  · rw [ha, hb]
  · exact absurd h (hother b)
  · exact absurd h.symm (hother a)
  · exact Equiv.intEquivNat.injective (List.replicate_left_injective 'x' (String.ofList_injective h))

-- The texts of the sample are trimmed and in lower case, and the tenant has no alias.
def sampleNames : Naming := ⟨fun _ => none, id, id⟩

-- A call whose attribution could not be read, in a deployment of a strange name.
def strangeDims : Dims where
  billingDate := 739798
  orgNodeId := none
  businessUnitNodeId := none
  attributionPath := none
  unattributedReason := some "resolver_failed"
  productLine := none
  useCase := "unattributed"
  application := "agents"
  agentId := none
  provider := "openai"
  model := "m"
  usageType := "llm_tokens"
  unit := "token"
  currency := none
  rateCardId := none
  priceSource := "none"
  commitmentId := none
  billingAccount := none
  region := none
  environment := "llm_tokens|token|~|~|none|~|~|~|"
  riskTier := none

def spilledDims : Dims :=
  { strangeDims with model := "m|llm_tokens|token|~|~|none|~|~|~", environment := "" }

theorem sample_storable (model environment : String) :
    Storable { strangeDims with model := model, environment := environment } where
  ids := by
    intro id hid
    simp only [strangeDims, List.mem_cons, List.not_mem_nil, or_false, or_self] at hid
    rw [hid]
    exact nofun
  attributionPath := nofun
  unattributedReason := by
    intro text ht
    rw [← Option.some.inj ht]
    decide
  productLine := nofun
  useCase := (by decide : isLabel "unattributed" = true)
  application := (by decide : "agents" ∈ APPLICATIONS)
  provider := (by decide : isLabel "openai" = true)
  unit := (by decide : ("llm_tokens", "token") ∈ RECORD_UNITS)
  currency := nofun
  priceSource := (by decide : "none" ∈ PRICE_SOURCES)
  billingAccount := nofun
  riskTier := nofun

theorem dims_told_apart_sample : (strangeDims ≠ spilledDims →
    dimsText sampleDay strangeDims ≠ dimsText sampleDay spilledDims) ↔
      (LabelsBlend strangeDims spilledDims → strangeDims = spilledDims) ∧ ¬Spills strangeDims spilledDims ∧
        ¬Spills spilledDims strangeDims :=
  dims_told_apart sampleDay sampleDay_plain sampleDay_injective strangeDims spilledDims (sample_storable _ _)
    (sample_storable _ _)

-- Two calls of different models and environments with one text.
theorem dims_share_text :
    strangeDims.model = canonicalModel sampleNames "openai" "m" ∧
      spilledDims.model = canonicalModel sampleNames "openai" "m|llm_tokens|token|~|~|none|~|~|~" ∧
      strangeDims.environment = environmentNow sampleNames "llm_tokens|token|~|~|none|~|~|~|" ∧
      spilledDims.environment = environmentNow sampleNames "" ∧
      ¬∀ a b : Dims, Storable a → Storable b → a ≠ b → dimsText sampleDay a ≠ dimsText sampleDay b := by
  refine ⟨by decide, by decide, by decide, by decide, fun h => ?_⟩
  exact h strangeDims spilledDims (sample_storable _ _) (sample_storable _ _) (by decide) (by decide +kernel)

end Sample

end AgenticOrg.Spend
