import AgenticOrg.Commerce.Ucp.Evaluation.Rebuilt

namespace AgenticOrg.Commerce.Ucp

open Fallible
open AgenticOrg.Workflows (Json Scalar)

section Choosing

theorem idIn_text (ids : List String) (text : Option String) :
    idIn ids (optionalText text) = .ok (text.filter (ids.contains ·)) := by
  cases text with
  | none => rfl
  | some text =>
      show Except.ok (if text ∈ ids then some text else none) = _
      rw [Option.filter_some]
      simp only [List.contains_iff_mem]

theorem idIn_some (ids : List String) (value : Json) (id : String) (h : idIn ids value = .ok (some id)) : id ∈ ids := by
  unfold idIn at h
  split at h
  · split at h
    · cases h
      assumption
    · cases h
  · cases h
  · cases h

theorem selectDestination_text (path : String) (destinations : List Destination) (text : Option String) :
    ∃ messages, selectDestination path destinations (optionalText text) =
      .ok (text.filter ((destinations.map Destination.id).contains ·), messages) := by
  cases text with
  | none => exact ⟨[], rfl⟩
  | some text =>
      have hin := idIn_text (destinations.map Destination.id) (some text)
      unfold optionalText at hin ⊢
      unfold selectDestination Json.str
      unfold Json.str at hin
      dsimp only at hin ⊢
      rw [hin, ok_bind]
      exact ⟨_, rfl⟩

theorem selectDestination_mem (path : String) (destinations : List Destination) (id : String)
    (h : id ∈ destinations.map Destination.id) :
    selectDestination path destinations (.str id) = .ok (some id, []) := by
  show (idIn (destinations.map Destination.id) (.str id) >>= _) = _
  have hin : idIn (destinations.map Destination.id) (.str id) = .ok (some id) := by
    show Except.ok (if id ∈ destinations.map Destination.id then some id else none) = _
    rw [if_pos h]
  rw [hin, ok_bind]
  rfl

theorem selectOption_text (path : String) (options : List FulfillmentOption) (text : Option String) :
    ∃ messages, selectOption path options (optionalText text) =
      .ok (text.filter ((options.map FulfillmentOption.id).contains ·), messages) := by
  unfold selectOption
  rw [idIn_text, ok_bind]
  exact ⟨_, rfl⟩

theorem selectOption_mem (path : String) (options : List FulfillmentOption) (id : String)
    (h : id ∈ options.map FulfillmentOption.id) :
    selectOption path options (.str id) = .ok (some id, []) := by
  have hin : idIn (options.map FulfillmentOption.id) (.str id) = .ok (some id) := by
    show Except.ok (if id ∈ options.map FulfillmentOption.id then some id else none) = _
    rw [if_pos h]
  unfold selectOption
  rw [hin, ok_bind]
  rfl

-- Nothing is said against the selection only where one is made or there is nothing to choose from.
theorem selectOption_clean (path : String) (options : List FulfillmentOption) (value : Json)
    (option : Option String) (messages : List Message) (h : selectOption path options value = .ok (option, messages))
    (hclean : hasErrors messages = false) (hoptions : options ≠ []) :
    ∃ id, option = some id ∧ id ∈ options.map FulfillmentOption.id := by
  unfold selectOption at h
  obtain ⟨selected, hin, h⟩ := (bind_ok _ _ _).mp h
  obtain ⟨rfl, rfl⟩ := Prod.mk.inj ((pure_ok _ _).mp h)
  cases selected with
  | some id => exact ⟨id, rfl, idIn_some _ _ _ hin⟩
  | none =>
      have hempty : options.isEmpty = false := by
        cases options with
        | nil => exact absurd rfl hoptions
        | cons option rest => rfl
      rw [hempty] at hclean
      simp only [Option.isSome_none, Bool.or_self, Bool.false_eq_true, if_false] at hclean
      split at hclean <;> cases hclean

end Choosing

section Options

variable (py : Python)

theorem areaProblem_error (prefixes : List String) (destination : Destination) (path : String) (problem : Message)
    (h : areaProblem py prefixes destination path = some problem) : problem.kind = .error := by
  unfold areaProblem at h
  split at h
  · cases h
  · split at h
    · cases h
      rfl
    · split at h
      · cases h
      · cases h
        rfl

theorem noOptionMessage_error (rates : List DeliveryRate) (destination : Destination) (currency : Option String)
    (path : String) : (noOptionMessage py rates destination currency path).kind = .error := by
  unfold noOptionMessage
  split_ifs <;> rfl

theorem optionsAt_ne_nil (shop : Delivery) (type : MethodType) (destination : Destination)
    (currency : Option String) (subtotal : ℤ) (path : String)
    (h : hasErrors (optionsAt py shop type destination currency subtotal path).2 = false) :
    (optionsAt py shop type destination currency subtotal path).1 ≠ [] := by
  intro hnil
  unfold optionsAt at h hnil
  cases type with
  | pickup => cases hnil
  | shipping =>
      dsimp only at h hnil
      cases ha : areaProblem py shop.settings.postalCodePrefixes destination path with
      | some problem =>
          rw [ha] at h
          simp only [hasErrors, List.any_cons, areaProblem_error py _ _ _ _ ha, decide_true, Bool.true_or] at h
          cases h
      | none =>
          rw [ha] at h hnil
          dsimp only at h hnil
          rw [hnil] at h
          simp only [List.isEmpty_nil, if_true, hasErrors, List.any_cons, noOptionMessage_error, decide_true,
            Bool.true_or] at h
          cases h

end Options

section Settled

variable (py : Python) (shop : Delivery) (lineItemIds : List String) (currency : Option String) (subtotal : ℤ)

-- What a method is known to be that was built without an error.
structure Settled (index : ℕ) (method : Method) : Prop where
  id : method.id ≠ ""
  offered : method.type ∈ allowed shop
  within : ∀ id ∈ method.lineItemIds, id ∈ lineItemIds
  whole : method.lineItemIds = [] → lineItemIds = []
  pickup : method.type = .pickup → method.destinations = shop.pickupLocations.map pickupDestination
  place : ∃ id destination option, method.selectedDestinationId = some id ∧
    (method.destinations.find? fun destination => destination.id = id) = some destination ∧
    hasErrors (optionsAt py shop method.type destination currency subtotal (methodPath index)).2 = false ∧
    option ∈ (optionsAt py shop method.type destination currency subtotal (methodPath index)).1.map
      FulfillmentOption.id ∧
    method.groups = [⟨"fg_" ++ toString (index + 1), method.lineItemIds,
      (optionsAt py shop method.type destination currency subtotal (methodPath index)).1, some option⟩]

theorem nonEmpty_some (text other : String) (h : nonEmpty text = some other) : other ≠ "" := by
  unfold nonEmpty at h
  split at h
  · cases h
  · rename_i hne
    cases h
    exact hne

theorem methodId_ne (raw : Json) (prior : Option Method) (index : ℕ) : methodId py raw prior index ≠ "" := by
  unfold methodId
  cases hp : prior.bind fun method => nonEmpty method.id with
  | some id =>
      obtain ⟨method, _, hid⟩ := Option.bind_eq_some_iff.mp hp
      exact nonEmpty_some _ _ hid
  | none =>
      rw [Option.none_or]
      split_ifs with htruthy
      · exact py.str_truthy _ htruthy
      · intro h
        have hlength := congrArg String.toList h
        rw [Option.getD_none, String.toList_append] at hlength
        cases hlength

theorem methodLineItems_ok (raw : Json) (prior : Option Method) (ids : List String)
    (h : methodLineItems raw prior lineItemIds = .ok ids) :
    (∀ id ∈ ids, id ∈ lineItemIds) ∧ (ids = [] → lineItemIds = []) := by
  unfold methodLineItems at h
  dsimp only at h
  split at h
  · cases h
  · cases h
    split
    · exact ⟨fun _ hid => hid, fun hnil => hnil⟩
    · rename_i hkept
      refine ⟨fun id hid => ?_, fun hnil => absurd hnil hkept⟩
      exact of_decide_eq_true (List.mem_filter.mp hid).2

theorem buildGroup_clean (raw : Json) (prior : Option Method) (index : ℕ) (type : MethodType) (ids : List String)
    (destinations : List Destination) (selected : Option String) (group : Group) (messages : List Message)
    (h : buildGroup py shop raw prior index type ids destinations selected currency subtotal = .ok (group, messages))
    (hclean : hasErrors messages = false) :
    ∃ id destination option, selected = some id ∧
      (destinations.find? fun destination => destination.id = id) = some destination ∧
      hasErrors (optionsAt py shop type destination currency subtotal (methodPath index)).2 = false ∧
      option ∈ (optionsAt py shop type destination currency subtotal (methodPath index)).1.map FulfillmentOption.id ∧
      group = ⟨"fg_" ++ toString (index + 1), ids,
        (optionsAt py shop type destination currency subtotal (methodPath index)).1, some option⟩ := by
  unfold buildGroup at h
  cases hd : selected.bind fun id => destinations.find? fun destination => destination.id = id with
  | none =>
      rw [hd] at h
      cases h
      cases hclean
  | some destination =>
      rw [hd] at h
      obtain ⟨⟨option, said⟩, hselect, h⟩ := (bind_ok _ _ _).mp h
      obtain ⟨rfl, rfl⟩ := Prod.mk.inj ((pure_ok _ _).mp h)
      obtain ⟨hproblems, hsaid⟩ := (hasErrors_append_eq_false _ _).mp hclean
      have hoptions := optionsAt_ne_nil py shop type destination currency subtotal (methodPath index) hproblems
      obtain ⟨chosenId, rfl, hmem⟩ := selectOption_clean _ _ _ _ _ hselect hsaid hoptions
      obtain ⟨id, hid, hfind⟩ := Option.bind_eq_some_iff.mp hd
      exact ⟨id, destination, chosenId, hid, hfind, hproblems, hmem, rfl⟩

theorem buildMethod_settled (previous : List Method) (index : ℕ) (raw : Json) (method : Method)
    (messages : List Message)
    (h : buildMethod py shop previous lineItemIds currency subtotal index raw = .ok (method, messages))
    (hclean : hasErrors messages = false) : Settled py shop lineItemIds currency subtotal index method := by
  unfold buildMethod at h
  obtain ⟨_, _, h⟩ := (bind_ok _ _ _).mp h
  obtain ⟨type, _, h⟩ := (bind_ok _ _ _).mp h
  obtain ⟨ids, hids, h⟩ := (bind_ok _ _ _).mp h
  obtain ⟨destinations, hdestinations, h⟩ := (bind_ok _ _ _).mp h
  obtain ⟨⟨selected, unknown⟩, _, h⟩ := (bind_ok _ _ _).mp h
  obtain ⟨⟨group, problems⟩, hgroup, h⟩ := (bind_ok _ _ _).mp h
  obtain ⟨rfl, rfl⟩ := Prod.mk.inj ((pure_ok _ _).mp h)
  simp only [hasErrors_append_eq_false] at hclean
  obtain ⟨⟨hoffered, _⟩, hproblems⟩ := hclean
  obtain ⟨hwithin, hwhole⟩ := methodLineItems_ok lineItemIds raw _ ids hids
  obtain ⟨id, destination, option, hselected, hfind, hoptions, hmem, rfl⟩ :=
    buildGroup_clean py shop currency subtotal _ _ _ _ _ _ _ _ _ hgroup hproblems
  refine ⟨methodId_ne py raw _ index, ?_, hwithin, hwhole, fun hpickup => ?_,
    ⟨id, destination, option, hselected, hfind, hoptions, hmem, rfl⟩⟩
  · by_contra hnot
    rw [if_neg hnot] at hoffered
    cases hoffered
  · dsimp only at hpickup
    subst hpickup
    cases hdestinations
    rfl

theorem buildMethods_settled (previous : List Method) (raws : List Json) (index : ℕ) (methods : List Method)
    (messages : List Message)
    (h : buildMethods py shop previous lineItemIds currency subtotal index raws = .ok (methods, messages))
    (hclean : hasErrors messages = false) :
    ∀ entry ∈ methods.zipIdx index, Settled py shop lineItemIds currency subtotal entry.2 entry.1 := by
  induction raws generalizing index methods messages with
  | nil =>
      cases h
      intro entry hentry
      cases hentry
  | cons raw rest ih =>
      obtain ⟨⟨method, said⟩, hmethod, h⟩ := (bind_ok _ _ _).mp h
      obtain ⟨⟨others, saidOthers⟩, hothers, h⟩ := (bind_ok _ _ _).mp h
      obtain ⟨rfl, rfl⟩ := Prod.mk.inj ((pure_ok _ _).mp h)
      obtain ⟨hsaid, hrest⟩ := (hasErrors_append_eq_false _ _).mp hclean
      intro entry hentry
      rw [List.zipIdx_cons] at hentry
      rcases List.mem_cons.mp hentry with rfl | hentry
      · exact buildMethod_settled py shop lineItemIds currency subtotal previous index raw method said hmethod hsaid
      · exact ih (index + 1) others saidOthers hothers hrest entry hentry

end Settled

section Again

variable (py : Python) (shop : Delivery) (lineItemIds : List String) (currency : Option String) (subtotal : ℤ)

def Method.selectedOptionId (method : Method) : Option String := method.groups.head?.bind Group.selectedOptionId

-- What a method is rebuilt from: the choices of the first method with its id.
structure SameChoices (first method : Method) : Prop where
  destination : first.selectedDestinationId = method.selectedDestinationId
  option : first.selectedOptionId = method.selectedOptionId
  addresses : method.type = .shipping → first.destinations = method.destinations

theorem textsOf_map (texts : List String) : textsOf (.arr (texts.map .str)) = some texts := by
  unfold textsOf
  dsimp only
  induction texts with
  | nil => rfl
  | cons text rest ih =>
      rw [List.map_cons, List.mapM_cons, ih]
      rfl

theorem rebuildMethod_get (method : Method) :
    (rebuildMethod method).get "id" = .str method.id ∧ (rebuildMethod method).get "type" = .str method.type.name ∧
      (rebuildMethod method).get "line_item_ids" = .arr (method.lineItemIds.map .str) ∧
      (rebuildMethod method).get "destinations" = .null ∧ (rebuildMethod method).get "groups" = .null ∧
      (rebuildMethod method).get? "selected_destination_id" = none :=
  ⟨rfl, rfl, rfl, rfl, rfl, rfl⟩

theorem truthy_name (type : MethodType) : (Json.str type.name).truthy = true := by
  cases type <;> rfl

theorem ofName?_name (type : MethodType) : MethodType.ofName? type.name = some type := by
  cases type <;> rfl

theorem matchPrevious_rebuilt (previous : List Method) (method first : Method) (index : ℕ) (hid : method.id ≠ "")
    (hfirst : (previous.find? fun other => other.id = method.id) = some first) :
    matchPrevious previous (rebuildMethod method) index = some first := by
  obtain ⟨hget, _⟩ := rebuildMethod_get method
  unfold matchPrevious
  rw [hget, Json.str]
  dsimp only
  rw [if_neg hid, hfirst, Option.some_or]

theorem methodLineItems_rebuilt (method : Method) (prior : Option Method)
    (hwithin : ∀ id ∈ method.lineItemIds, id ∈ lineItemIds) (hwhole : method.lineItemIds = [] → lineItemIds = []) :
    methodLineItems (rebuildMethod method) prior lineItemIds = .ok method.lineItemIds := by
  obtain ⟨_, _, hget, _⟩ := rebuildMethod_get method
  have hkept : method.lineItemIds.filter (· ∈ lineItemIds) = method.lineItemIds :=
    List.filter_eq_self.mpr fun id hid => decide_eq_true (hwithin id hid)
  unfold methodLineItems
  rw [hget]
  dsimp only
  rw [textsOf_map]
  dsimp only
  rw [hkept]
  cases hids : method.lineItemIds with
  | nil => rw [hwhole hids]
  | cons id rest => rfl

-- The destinations a rebuilt method gets: the shop's, or those of the first method with its id.
def destinationsAgain (first method : Method) : List Destination :=
  match method.type with
  | .pickup => shop.pickupLocations.map pickupDestination
  | .shipping => first.destinations

theorem methodDestinations_rebuilt (first method : Method) :
    methodDestinations py shop (rebuildMethod method) (some first) method.type =
      .ok (destinationsAgain shop first method) := by
  obtain ⟨_, _, _, hget, _⟩ := rebuildMethod_get method
  unfold methodDestinations destinationsAgain
  cases method.type with
  | pickup => rfl
  | shipping =>
      dsimp only
      rw [hget]
      rfl

theorem wanted_rebuilt (first method : Method) :
    chosen (firstGroup ((rebuildMethod method).get "groups")) "selected_option_id"
      ((some first).bind (fun other => other.groups.head?) |>.bind Group.selectedOptionId) =
      optionalText first.selectedOptionId := by
  obtain ⟨_, _, _, _, hget, _⟩ := rebuildMethod_get method
  rw [hget]
  rfl

-- The group of a rebuilt method: it selects only the option its first method selects.
theorem buildGroup_rebuilt (first method : Method) (index : ℕ) (ids : List String)
    (destinations : List Destination) (selected : Option String) :
    ∃ group messages, buildGroup py shop (rebuildMethod method) (some first) index method.type ids destinations
        selected currency subtotal = .ok (group, messages) ∧
      ∀ option, group.selectedOptionId = some option → first.selectedOptionId = some option := by
  unfold buildGroup
  cases selected.bind fun id => destinations.find? fun destination => destination.id = id with
  | none => exact ⟨_, _, rfl, fun option h => by cases h⟩
  | some destination =>
      dsimp only
      rw [wanted_rebuilt]
      obtain ⟨messages, hselect⟩ := selectOption_text (methodPath index)
        (optionsAt py shop method.type destination currency subtotal (methodPath index)).1 first.selectedOptionId
      rw [hselect, ok_bind]
      exact ⟨_, _, rfl, fun option h => (Option.filter_eq_some_iff.mp h).1⟩

theorem buildMethod_rebuilt (previous : List Method) (first method : Method) (index : ℕ)
    (hsettled : Settled py shop lineItemIds currency subtotal index method)
    (hfirst : (previous.find? fun other => other.id = method.id) = some first) :
    buildMethod py shop previous lineItemIds currency subtotal index (rebuildMethod method) = do
      let (selected, unknown) ← selectDestination (methodPath index) (destinationsAgain shop first method)
        (optionalText first.selectedDestinationId)
      let (group, problems) ← buildGroup py shop (rebuildMethod method) (some first) index method.type
        method.lineItemIds (destinationsAgain shop first method) selected currency subtotal
      return (⟨method.id, method.type, method.lineItemIds, destinationsAgain shop first method, selected, [group]⟩,
        unknown ++ problems) := by
  obtain ⟨_, htype, _, _, _, hchosen⟩ := rebuildMethod_get method
  have hid : first.id = method.id := by simpa using List.find?_some hfirst
  have hmethodType : methodType py (rebuildMethod method) (some first) = some method.type := by
    unfold methodType
    rw [htype, if_pos (truthy_name method.type), py.str_text, ofName?_name]
  have hmethodId : methodId py (rebuildMethod method) (some first) index = method.id := by
    unfold methodId
    rw [Option.bind_some, hid, nonEmpty_of_ne _ hsettled.id, Option.some_or, Option.getD_some]
  have hdestination : chosen (rebuildMethod method) "selected_destination_id"
      ((some first).bind Method.selectedDestinationId) = optionalText first.selectedDestinationId := by
    unfold chosen
    rw [hchosen]
    rfl
  unfold buildMethod
  rw [matchPrevious_rebuilt previous method first index hsettled.id hfirst]
  simp only [hmethodType, hmethodId, hdestination, Option.elim_some, ok_bind, if_pos hsettled.offered,
    methodLineItems_rebuilt lineItemIds method (some first) hsettled.within hsettled.whole,
    methodDestinations_rebuilt, List.nil_append]
  rfl

theorem destinationsAgain_eq (first method : Method) (index : ℕ)
    (hsettled : Settled py shop lineItemIds currency subtotal index method) :
    destinationsAgain shop first method = method.destinations ↔
      (method.type = .shipping → first.destinations = method.destinations) := by
  unfold destinationsAgain
  cases htype : method.type with
  | pickup => exact ⟨fun _ h => (by cases h), fun _ => (hsettled.pickup htype).symm⟩
  | shipping => exact ⟨fun h _ => h, fun h => h rfl⟩

-- A method is built again as it is just when the first method with its id has its choices.
theorem buildMethod_again (previous : List Method) (first method : Method) (index : ℕ)
    (hsettled : Settled py shop lineItemIds currency subtotal index method)
    (hfirst : (previous.find? fun other => other.id = method.id) = some first) :
    ∃ again messages,
      buildMethod py shop previous lineItemIds currency subtotal index (rebuildMethod method) = .ok (again, messages) ∧
      (again = method ↔ SameChoices first method) ∧ (again = method → hasErrors messages = false) := by
  obtain ⟨id, destination, option, hselected, hfind, hproblems, hmem, hgroups⟩ := hsettled.place
  have hoption : method.selectedOptionId = some option := by
    unfold Method.selectedOptionId
    rw [hgroups]
    rfl
  have hdestinations := destinationsAgain_eq py shop lineItemIds currency subtotal first method index hsettled
  rw [buildMethod_rebuilt py shop lineItemIds currency subtotal previous first method index hsettled hfirst]
  by_cases hsame : SameChoices first method
  · -- the first method has the choices: everything is found again
    have hin : id ∈ method.destinations.map Destination.id := by
      refine List.mem_map.mpr ⟨destination, List.mem_of_find?_eq_some hfind, ?_⟩
      simpa using List.find?_some hfind
    have hgroup : buildGroup py shop (rebuildMethod method) (some first) index method.type method.lineItemIds
        method.destinations (some id) currency subtotal =
        .ok (⟨"fg_" ++ toString (index + 1), method.lineItemIds,
          (optionsAt py shop method.type destination currency subtotal (methodPath index)).1, some option⟩,
          (optionsAt py shop method.type destination currency subtotal (methodPath index)).2 ++ []) := by
      unfold buildGroup
      rw [Option.bind_some, hfind]
      dsimp only
      rw [wanted_rebuilt, hsame.option, hoption, optionalText, selectOption_mem _ _ _ hmem, ok_bind]
      rfl
    rw [hdestinations.mpr hsame.addresses, hsame.destination, hselected, optionalText,
      selectDestination_mem _ _ _ hin, ok_bind]
    dsimp only
    rw [hgroup, ok_bind]
    refine ⟨_, _, rfl, ⟨fun _ => hsame, fun _ => ?_⟩, fun _ => ?_⟩
    · rw [← hgroups, ← hselected]
    · rw [List.nil_append, List.append_nil]
      exact hproblems
  · obtain ⟨unknown, hunknown⟩ := selectDestination_text (methodPath index) (destinationsAgain shop first method)
      first.selectedDestinationId
    rw [hunknown, ok_bind]
    dsimp only
    obtain ⟨group, problems, hgroup, hkept⟩ := buildGroup_rebuilt py shop currency subtotal first method index
      method.lineItemIds (destinationsAgain shop first method)
      (first.selectedDestinationId.filter ((destinationsAgain shop first method).map Destination.id).contains)
    rw [hgroup, ok_bind]
    -- a method that is found again shows that the first one has its choices
    have hback : ∀ again : Method, again = ⟨method.id, method.type, method.lineItemIds,
        destinationsAgain shop first method,
        first.selectedDestinationId.filter ((destinationsAgain shop first method).map Destination.id).contains,
        [group]⟩ → again = method → SameChoices first method := by
      rintro again rfl heq
      have hplace := congrArg Method.selectedDestinationId heq
      have hgroup := congrArg Method.selectedOptionId heq
      refine ⟨?_, ?_, hdestinations.mp (congrArg Method.destinations heq)⟩
      · dsimp only at hplace
        rw [hselected] at hplace ⊢
        exact (Option.filter_eq_some_iff.mp hplace).1
      · rw [hoption] at hgroup ⊢
        exact hkept option hgroup
    exact ⟨_, _, rfl, ⟨fun heq => hback _ rfl heq, fun h => absurd h hsame⟩,
      fun heq => absurd (hback _ rfl heq) hsame⟩

-- So are all of them.
theorem buildMethods_again (previous methods : List Method) (index : ℕ)
    (hsettled : ∀ entry ∈ methods.zipIdx index, Settled py shop lineItemIds currency subtotal entry.2 entry.1)
    (hfirst : ∀ method ∈ methods, ∃ first, (previous.find? fun other => other.id = method.id) = some first) :
    ∃ again messages,
      buildMethods py shop previous lineItemIds currency subtotal index (methods.map rebuildMethod) =
        .ok (again, messages) ∧
      (again = methods ↔ ∀ method ∈ methods, ∀ first,
        (previous.find? fun other => other.id = method.id) = some first → SameChoices first method) ∧
      (again = methods → hasErrors messages = false) := by
  induction methods generalizing index with
  | nil => exact ⟨[], [], rfl, ⟨fun _ method hm => absurd hm List.not_mem_nil, fun _ => rfl⟩, fun _ => rfl⟩
  | cons method rest ih =>
      rw [List.zipIdx_cons] at hsettled
      obtain ⟨first, hf⟩ := hfirst method List.mem_cons_self
      obtain ⟨again, messages, hbuilt, hiff, hclean⟩ := buildMethod_again py shop lineItemIds currency subtotal
        previous first method index (hsettled _ List.mem_cons_self) hf
      obtain ⟨others, said, hrest, hiffRest, hcleanRest⟩ := ih (index + 1)
        (fun entry he => hsettled entry (List.mem_cons_of_mem _ he))
        (fun other ho => hfirst other (List.mem_cons_of_mem _ ho))
      refine ⟨again :: others, messages ++ said, ?_, ?_, fun heq => ?_⟩
      · rw [List.map_cons, buildMethods, hbuilt, ok_bind]
        dsimp only
        rw [hrest]
        rfl
      · rw [List.cons.injEq, hiff, hiffRest, List.forall_mem_cons]
        refine and_congr_left' ⟨fun h other ho => ?_, fun h => h first hf⟩
        rw [hf] at ho
        cases ho
        exact h
      · obtain ⟨hone, hothers⟩ := List.cons.inj heq
        exact (hasErrors_append_eq_false _ _).mpr ⟨hclean hone, hcleanRest hothers⟩

end Again

end AgenticOrg.Commerce.Ucp
