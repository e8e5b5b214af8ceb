import JsonRpcBridge.Config.Parse
import JsonRpcBridge.Discovery.Advertised
import JsonRpcBridge.Docs.AsyncRefs
import JsonRpcBridge.Docs.Publisher
import JsonRpcBridge.Docs.Surface

/-!
# When the documents lose nothing

Component keys put `_` for every byte they cannot hold, and a path separates a module from a method
by a slash that either may contain, so two names can meet; the entry stored last is then the only one
left.

* `surface_iff_apart`: the documents keep the whole surface exactly when no two names meet.
* `surface_kept_iff`: so it is for every configuration and every reachable set of views.
-/

namespace JsonRpcBridge.Docs

/-! ## OpenAPI: paths

A path is assigned once for each method, after the fixed ones. What the document has in the end
is the last assignment to each path. -/

namespace OpenApi

def postItem (e : MethodEntry) : Json := .obj [(str "post", moduleOperation e)]

def pathAssignments (ctx : DocContext) : List (Bytes × Json) :=
  (methodEntries ctx).map fun e => (modulePath e, postItem e)

def fixedAssignments : List (Bytes × Json) := [
  (str "/healthz", .obj [(str "get", getHealth)]),
  (str "/modules", .obj [(str "get", listModules)]),
  (str "/modules/\x7bmodule\x7d", .obj [(str "get", getModule)]),
  (str "/openapi.json", .obj [(str "get", getOpenApi)]),
  (str "/asyncapi.json", .obj [(str "get", getAsyncApi)]),
  (str "/rpc", .obj [(str "post", postRpc)])]

theorem fixedPaths_eq : fixedPaths = .obj (Json.assignAll fixedAssignments) := rfl

/-- A module's path has a second slash after `/modules/`. -/
theorem modulePath_not_fixed (e : MethodEntry) : modulePath e ∉ fixedAssignments.map Prod.fst := by
  intro h
  have hpath : modulePath e = str "/modules/" ++ (safe e.module.name ++ str "/" ++ safe e.method) := by
    simp only [modulePath, List.append_assoc]
  rw [hpath] at h
  have hcases : ∀ k ∈ fixedAssignments.map Prod.fst, k = str "/modules/\x7bmodule\x7d" ∨
      k.take 9 ≠ str "/modules/" := by decide
  rcases hcases _ h with heq | hne
  · have hrest := congrArg (List.drop 9) heq
    have hslash : (0x2F : UInt8) ∈ (str "/modules/\x7bmodule\x7d").drop 9 := by
      have hone : (0x2F : UInt8) ∈ str "/" := by decide
      rw [← hrest]
      show (0x2F : UInt8) ∈ safe e.module.name ++ str "/" ++ safe e.method
      exact List.mem_append_left _ (List.mem_append_right _ hone)
    exact absurd hslash (by decide)
  · exact hne rfl

/-- The paths of the document are what is left of the assignments. -/
theorem openApiPaths_eq (ctx : DocContext) :
    openApiPaths ctx = .obj (Json.assignAll (fixedAssignments ++ pathAssignments ctx)) := by
  -- the fold has assigned the entries of `done`, and those of `l` are to come
  have hfold : ∀ (l done : List MethodEntry),
      l.foldl (fun paths e => setOperation paths (modulePath e) "post" (moduleOperation e))
        (.obj (Json.assignAll (fixedAssignments ++ done.map fun e => (modulePath e, postItem e)))) =
      .obj (Json.assignAll (fixedAssignments ++ (done ++ l).map fun e => (modulePath e, postItem e))) := by
    intro l
    induction l with
    | nil => exact fun done => by rw [List.append_nil, List.foldl_nil]
    | cons e l ih =>
        intro done
        rw [List.foldl_cons, setOperation]
        -- what stands at the path, if anything, is the `post` of an earlier entry
        have hitem : (((Json.obj (Json.assignAll (fixedAssignments ++ done.map fun e =>
            (modulePath e, postItem e)))).find? (modulePath e)).getD .null).set (str "post")
              (moduleOperation e) = postItem e := by
          cases hfind : (Json.obj (Json.assignAll (fixedAssignments ++ done.map fun e =>
              (modulePath e, postItem e)))).find? (modulePath e) with
          | none => rfl
          | some item =>
              have hmem := Json.mem_of_mem_assignAll (List.mem_of_lookup hfind)
              rcases List.mem_append.mp hmem with hmem | hmem
              · exact absurd (List.mem_map_of_mem hmem) (modulePath_not_fixed e)
              · obtain ⟨e', -, he'⟩ := List.mem_map.mp hmem
                obtain rfl : postItem e' = item := congrArg Prod.snd he'
                rfl
        rw [hitem, Json.set_assignAll, List.append_assoc]
        have hdone : (done.map fun e => (modulePath e, postItem e)) ++ [(modulePath e, postItem e)] =
            (done ++ [e]).map fun e => (modulePath e, postItem e) := by
          rw [List.map_append, List.map_singleton]
        rw [hdone, ih (done ++ [e]), List.append_assoc, List.singleton_append]
  have hstart := hfold (methodEntries ctx) []
  rw [List.map_nil, List.append_nil] at hstart
  rw [openApiPaths, fixedPaths_eq, hstart]
  rfl

theorem target_moduleOperation (e : MethodEntry) :
    methodTarget? (moduleOperation e) = some (methodTarget e) := by
  unfold moduleOperation
  dsimp only
  refine target_set ?_ (by decide)
  have hop : (addText (Json.object [
      (str "operationId", .str (qualified (safe e.module.name) e.method)),
      (str "tags", .arr [.str (safe e.module.name)])]) (methodText e)).isObject = true :=
    isObject_addText rfl _
  split
  · exact Json.isObject_set (Json.isObject_set (Json.isObject_set hop))
  · exact Json.isObject_set (Json.isObject_ite (Json.isObject_set (Json.isObject_set hop))
      (Json.isObject_set hop))

/-- The fixed paths have no `post` of a module. -/
theorem filter_paths (ctx : DocContext) :
    (fixedAssignments ++ pathAssignments ctx).filter (fun a => (postTarget? a).isSome) =
      (methodEntries ctx).map fun e => (modulePath e, postItem e) := by
  have hfixed : fixedAssignments.filter (fun a => (postTarget? a).isSome) = [] := by decide
  have hpost : ∀ e, postTarget? (modulePath e, postItem e) = some (methodTarget e) :=
    target_moduleOperation
  rw [List.filter_append, hfixed, List.nil_append, pathAssignments, List.filter_eq_self]
  intro a ha
  obtain ⟨e, -, rfl⟩ := List.mem_map.mp ha
  rw [hpost]
  rfl

theorem openApiOperations_eq (ctx : DocContext) : openApiOperations (buildOpenApi ctx) =
    (Json.assignAll (fixedAssignments ++ pathAssignments ctx)).filterMap postTarget? := by
  have hfollow : (buildOpenApi ctx).follow [str "paths"] = some (openApiPaths ctx) := rfl
  unfold openApiOperations membersAt
  rw [hfollow, openApiPaths_eq]

/-- Paths of their own are all kept. -/
theorem perm_operations {ctx : DocContext} (h : ((methodEntries ctx).map modulePath).Nodup) :
    (openApiOperations (buildOpenApi ctx)).Perm ((methodEntries ctx).map methodTarget) := by
  rw [openApiOperations_eq]
  refine Json.perm_filterMap (filter_paths ctx) (fun e _ => target_moduleOperation e) h ?_
  intro e he b hb hkey
  rcases List.mem_append.mp hb with hb | hb
  · exact absurd (hkey ▸ List.mem_map_of_mem hb) (modulePath_not_fixed e)
  · obtain ⟨e', -, rfl⟩ := List.mem_map.mp hb
    have hpost : postTarget? (modulePath e', postItem e') = some (methodTarget e') :=
      target_moduleOperation e'
    rw [hpost]
    rfl

/-- If there are as many operations as entries, their paths are apart. -/
theorem nodup_paths {ctx : DocContext}
    (h : (openApiOperations (buildOpenApi ctx)).length = (methodEntries ctx).length) :
    ((methodEntries ctx).map modulePath).Nodup :=
  (Json.nodup_of_length (filter_paths ctx) (openApiOperations_eq ctx ▸ h)).1

end OpenApi

/-! ## AsyncAPI: component keys

The request, the subscribe and the event messages are told apart by the endings of their keys.
Before the ending stands the key of the method or of the event, made of the names by
`componentKey`, which replaces characters: here names that differ may meet. -/

namespace AsyncApi

variable {ctx : DocContext}

theorem asyncApiMessages_eq (suffix : String) (about : Json → Option (Bytes × Bytes)) (ctx : DocContext) :
    asyncApiMessages suffix about (buildAsyncApi ctx) =
      (Json.assignAll (messageAssignments ctx)).filterMap (messageTarget? suffix about) := by
  have hfollow : (buildAsyncApi ctx).follow [str "components", str "messages"] =
      some (asyncApiBuilder ctx).messages := rfl
  unfold asyncApiMessages membersAt
  rw [hfollow, messages_eq]

theorem asyncApiOperations_eq (ctx : DocContext) : asyncApiOperations (buildAsyncApi ctx) =
    (Json.assignAll (callAssignments ctx ++ otherAssignments ctx)).filterMap
      fun op => methodTarget? op.2 := by
  have hfollow : (buildAsyncApi ctx).follow [str "operations"] =
      some (asyncApiBuilder ctx).operations := rfl
  unfold asyncApiOperations membersAt
  rw [hfollow, operations_eq]

/-- A suffix keeps keys apart, and keys that meet. -/
theorem nodup_suffix {ε : Type} {E : List ε} {key : ε → Bytes} (suffix : Bytes) :
    (E.map fun e => key e ++ suffix).Nodup ↔ (E.map key).Nodup := by
  have hmap : (E.map fun e => key e ++ suffix) = (E.map key).map fun k => k ++ suffix := by
    rw [List.map_map]
    rfl
  rw [hmap, List.nodup_map_iff (List.append_left_injective suffix)]

/-- One request for each method. -/
theorem perm_requests (h : ((methodEntries ctx).map methodKey).Nodup) :
    (asyncApiMessages ".request" methodTarget? (buildAsyncApi ctx)).Perm
      ((methodEntries ctx).map methodTarget) := by
  rw [asyncApiMessages_eq]
  exact perm_messages (filter_request ctx) target_requestMessage ((nodup_suffix _).mpr h)

theorem nodup_methodKey (h : (asyncApiMessages ".request" methodTarget? (buildAsyncApi ctx)).length =
    (methodEntries ctx).length) : ((methodEntries ctx).map methodKey).Nodup :=
  (nodup_suffix _).mp (nodup_of_messages (filter_request ctx) target_requestMessage
    (asyncApiMessages_eq _ _ ctx ▸ h))

theorem perm_subscribes (h : ((eventEntries ctx).map eventBase).Nodup) :
    (asyncApiMessages ".subscribe" eventTarget? (buildAsyncApi ctx)).Perm
      ((eventEntries ctx).map eventTarget) := by
  rw [asyncApiMessages_eq]
  exact perm_messages (filter_subscribe ctx) target_subscribeMessage ((nodup_suffix _).mpr h)

theorem nodup_eventBase (h : (asyncApiMessages ".subscribe" eventTarget? (buildAsyncApi ctx)).length =
    (eventEntries ctx).length) : ((eventEntries ctx).map eventBase).Nodup :=
  (nodup_suffix _).mp (nodup_of_messages (filter_subscribe ctx) target_subscribeMessage
    (asyncApiMessages_eq _ _ ctx ▸ h))

theorem perm_notifications (h : ((eventEntries ctx).map eventBase).Nodup) :
    (asyncApiMessages ".event" eventTarget? (buildAsyncApi ctx)).Perm
      ((eventEntries ctx).map eventTarget) := by
  rw [asyncApiMessages_eq]
  exact perm_messages (filter_event ctx) target_eventMessage ((nodup_suffix _).mpr h)

/-! ### Operations

A call and a subscription are operations under keys of their own, but a method may have the key of an
event. No method has one of the operations of the bridge, since no module is named `rpc`. -/

/-- Only the operations of methods name a method. -/
theorem filter_operations (ctx : DocContext) :
    (callAssignments ctx ++ otherAssignments ctx).filter (fun a => (methodTarget? a.2).isSome) =
      (methodEntries ctx).map fun e => (methodKey e, methodOperation e) := by
  have hother : (otherAssignments ctx).filter (fun a => (methodTarget? a.2).isSome) = [] := by
    apply List.filter_eq_nil_iff.mpr
    intro a ha
    rw [target_otherAssignments ctx a ha]
    exact Bool.false_ne_true
  rw [List.filter_append, hother, List.append_nil, callAssignments, List.filter_eq_self]
  intro a ha
  obtain ⟨e, -, rfl⟩ := List.mem_map.mp ha
  rw [target_methodOperation]
  rfl

theorem key_otherAssignments {k : Bytes} (h : k ∈ (otherAssignments ctx).map Prod.fst) :
    (∃ e ∈ eventEntries ctx, k = subscribeKey e ∨ k = eventKey e) ∨
      k = kUnsubscribeMessage ∨ k = kTerminatedMessage := by
  obtain ⟨a, ha, rfl⟩ := List.mem_map.mp h
  rcases List.mem_append.mp ha with ha | ha
  · obtain ⟨e, he, ha⟩ := List.mem_flatMap.mp ha
    simp only [List.mem_cons, List.not_mem_nil, or_false] at ha
    rcases ha with rfl | rfl
    · exact Or.inl ⟨e, he, Or.inl rfl⟩
    · exact Or.inl ⟨e, he, Or.inr rfl⟩
  · simp only [List.mem_cons, List.not_mem_nil, or_false] at ha
    rcases ha with rfl | rfl
    · exact Or.inr (Or.inl rfl)
    · exact Or.inr (Or.inr rfl)

/-- The byte that a component key has for `c`. -/
def keyByte (c : UInt8) : UInt8 := if isKeyChar c then c else 0x5F

theorem keyByte_eq_of_ne {c d : UInt8} (h : keyByte c = d) (hd : d ≠ 0x5F) : c = d := by
  unfold keyByte at h
  split at h
  · exact h
  · exact absurd h.symm hd

/-- The key of a method: its module, a dot, its name, each with what is no key character replaced.
-/
theorem methodKey_eq (e : MethodEntry) (h : Utf8 e.module.name) :
    methodKey e = e.module.name.map keyByte ++ 0x2E :: (safe e.method).map keyByte := by
  have hname : methodName e = e.module.name ++ 0x2E :: safe e.method := by
    have hdot : str "." = [0x2E] := by decide
    rw [methodName, qualified, safe_of_utf8 h, safe_of_utf8 h, hdot, List.append_assoc,
      List.singleton_append]
  rw [methodKey, hname, componentKey, if_neg (by simp), List.map_append, List.map_cons]
  rfl

/-- No module is named `rpc`, so no method has the key of an operation of the bridge. -/
theorem methodKey_ne_rpc (hr : Reported ctx) {e : MethodEntry} (he : e ∈ methodEntries ctx)
    (rest : Bytes) : methodKey e ≠ str "rpc." ++ rest := by
  obtain ⟨m, hm, he⟩ := List.mem_flatMap.mp he
  obtain ⟨n, -, rfl⟩ := List.mem_map.mp he
  obtain ⟨hutf8, hdot, hrpc⟩ := hr.name m (List.mem_filter.mp hm).1
  rw [methodKey_eq _ hutf8]
  intro heq
  -- the module holds no dot, so the first dot of the key is the one after it
  have hno : ∀ c ∈ (methodEntry m n).module.name.map keyByte, (c != 0x2E) = true := by
    intro c hc
    obtain ⟨d, hd, rfl⟩ := List.mem_map.mp hc
    rw [bne_iff_ne]
    intro hkey
    exact hdot (keyByte_eq_of_ne hkey (by decide) ▸ hd)
  have htake := congrArg (List.takeWhile fun c : UInt8 => c != 0x2E) heq
  have hrest : (str "rpc." ++ rest).takeWhile (fun c : UInt8 => c != 0x2E) = str "rpc" := rfl
  rw [List.takeWhile_append_of_pos hno, List.takeWhile_cons_of_neg (by simp), List.append_nil,
    hrest] at htake
  apply hrpc
  -- the letters of `rpc` are no replacement, so they are those of the name
  have hsame : m.name.map keyByte = m.name := by
    refine (List.map_congr_left fun c hc => ?_).trans (List.map_id _)
    have hmem : keyByte c ∈ str "rpc" := htake ▸ List.mem_map_of_mem hc
    have hne : ∀ d ∈ str "rpc", d ≠ 0x5F := by decide
    exact (keyByte_eq_of_ne rfl (hne _ hmem)).symm
  exact hsame.symm.trans htake

/-- Keys apart from each other and from the events' are all kept. -/
theorem perm_calls (hr : Reported ctx) (h : ((methodEntries ctx).map methodKey).Nodup)
    (hevents : ∀ e ∈ methodEntries ctx, ∀ e' ∈ eventEntries ctx,
      methodKey e ≠ subscribeKey e' ∧ methodKey e ≠ eventKey e') :
    (asyncApiOperations (buildAsyncApi ctx)).Perm ((methodEntries ctx).map methodTarget) := by
  rw [asyncApiOperations_eq]
  refine Json.perm_filterMap (filter_operations ctx) (fun e _ => target_methodOperation e) h ?_
  intro e he b hb hkey
  rcases List.mem_append.mp hb with hb | hb
  · obtain ⟨e', -, rfl⟩ := List.mem_map.mp hb
    rw [target_methodOperation]
    rfl
  · rcases key_otherAssignments (List.mem_map_of_mem hb) with ⟨e', he', heq | heq⟩ | heq | heq
    · exact absurd (hkey.symm.trans heq) (hevents e he e' he').1
    · exact absurd (hkey.symm.trans heq) (hevents e he e' he').2
    · exact absurd (hkey.symm.trans heq) (methodKey_ne_rpc hr he (str "unsubscribe"))
    · exact absurd (hkey.symm.trans heq) (methodKey_ne_rpc hr he (str "subscription_terminated"))

/-- A call whose key an event has is overwritten. -/
theorem apart_of_calls (h : (asyncApiOperations (buildAsyncApi ctx)).length =
    (methodEntries ctx).length) : ∀ e ∈ methodEntries ctx, ∀ e' ∈ eventEntries ctx,
      methodKey e ≠ subscribeKey e' ∧ methodKey e ≠ eventKey e' := by
  intro e he e' he'
  obtain ⟨v, hmem, hsome⟩ := (Json.nodup_of_length (filter_operations ctx)
    (asyncApiOperations_eq ctx ▸ h)).2 e he
  have hkept : methodKey e ∉ (otherAssignments ctx).map Prod.fst := by
    intro hkey
    have hlater := Json.mem_of_later hmem hkey
    rw [target_otherAssignments ctx _ hlater] at hsome
    cases hsome
  have hkeys : ∀ k ∈ [subscribeKey e', eventKey e'], k ∈ (otherAssignments ctx).map Prod.fst := by
    intro k hk
    rw [otherAssignments, List.map_append, List.map_flatMap]
    exact List.mem_append_left _ (List.mem_flatMap.mpr ⟨e', he', by simpa using hk⟩)
  exact ⟨fun heq => hkept (heq ▸ hkeys _ (by simp)), fun heq => hkept (heq ▸ hkeys _ (by simp))⟩

end AsyncApi

/-! ## Records

A record becomes a component under its module and its name. The shared schemas have keys without
a dot, so they are not counted, and the number of record components is the number of different
keys. Where a contract declares a record twice the later one is kept, which loses nothing:
`recordPairs` is a set. -/

section Records

variable {ctx : DocContext} {B : List (Bytes × Json)} {modules : List ModuleDoc} {dialect : Dialect}

def recordAssignments (dialect : Dialect) (m : ModuleDoc) : List (Bytes × Json) :=
  ((arrayField m.interface (str "types")).getD []).flatMap fun t =>
    if (strField t (str "name")).isEmpty then []
    else [(recordComponentName m.name (strField t (str "name")),
      recordSchema t (TypeScope.of m.name m.interface) dialect)]

/-- Adding the records of the modules is assigning them one after the other. -/
theorem records_eq (modules : List ModuleDoc) (dialect : Dialect) (B : List (Bytes × Json)) :
    modules.foldl (fun schemas m => addRecordComponents schemas m.name m.interface dialect)
      (.obj (Json.assignAll B)) =
      .obj (Json.assignAll (B ++ modules.flatMap (recordAssignments dialect))) := by
  refine Json.foldl_assigns (g := id) ?_ modules rfl
  intro schemas m B hB
  refine Json.foldl_assigns (g := id) ?_ _ hB
  intro schemas t B hB
  dsimp only
  split
  · rw [List.append_nil]
    exact hB
  · obtain rfl : schemas = .obj (Json.assignAll B) := hB
    exact Json.set_assignAll B _ _

/-- They are assigned under the keys of the records in the scope. -/
theorem keys_recordAssignments (dialect : Dialect) (m : ModuleDoc) :
    (recordAssignments dialect m).map Prod.fst =
      (TypeScope.of m.name m.interface).records.map (recordComponentName m.name) := by
  have hlist : ∀ (types : List Json) (scope : TypeScope), (types.flatMap fun t =>
      if (strField t (str "name")).isEmpty then []
      else [(recordComponentName m.name (strField t (str "name")),
        recordSchema t scope dialect)]).map Prod.fst =
      ((types.map fun t => strField t (str "name")).filter fun name => !name.isEmpty).map
        (recordComponentName m.name) := by
    intro types scope
    induction types with
    | nil => rfl
    | cons t types ih =>
        rw [List.flatMap_cons, List.map_append, ih, List.map_cons]
        cases hname : (strField t (str "name")).isEmpty with
        | true =>
            rw [if_pos rfl, List.filter_cons_of_neg (by simp [hname])]
            rfl
        | false =>
            rw [if_neg Bool.false_ne_true, List.filter_cons_of_pos (by simp [hname])]
            rfl
  exact hlist _ _

theorem dot_mem_recordComponentName (module name : Bytes) :
    (recordComponentName module name).contains 0x2E = true := by
  have hdot : (0x2E : UInt8) ∈ module ++ str "." ++ name :=
    List.mem_append_left _ (List.mem_append_right _ (by decide))
  have hne : ¬(module ++ str "." ++ name).isEmpty = true := by
    intro hempty
    rw [List.isEmpty_iff.mp hempty] at hdot
    cases hdot
  rw [List.contains_iff_mem, recordComponentName, componentKey, if_neg hne]
  exact List.mem_map.mpr ⟨0x2E, hdot, by decide⟩

/-- As many record components as different keys, whatever else a document defines. -/
theorem length_records (hB : ∀ b ∈ B, b.1.contains 0x2E = false) (ctx : DocContext)
    (dialect : Dialect) :
    ((Json.assignAll (B ++ (ctx.modules.filter isTyped).flatMap (recordAssignments dialect))).filter
      fun kv => kv.1.contains 0x2E).length =
      ((recordPairs ctx).image fun p => recordComponentName p.1 p.2).card := by
  rw [Json.length_filter_assignAll _ fun k => k.contains 0x2E]
  congr 1
  ext k
  have hkeys : ((ctx.modules.filter isTyped).flatMap (recordAssignments dialect)).map Prod.fst =
      (ctx.modules.filter isTyped).flatMap fun m =>
        (TypeScope.of m.name m.interface).records.map (recordComponentName m.name) := by
    rw [List.map_flatMap]
    simp only [keys_recordAssignments]
  rw [List.mem_toFinset, List.mem_filter, List.map_append, List.mem_append, hkeys, Finset.mem_image]
  unfold recordPairs
  simp only [List.mem_toFinset, List.mem_flatMap, List.mem_map]
  constructor
  · rintro ⟨⟨b, hb, rfl⟩ | ⟨m, hm, r, hr, rfl⟩, hdot⟩
    · rw [hB b hb] at hdot
      cases hdot
    · exact ⟨(m.name, r), ⟨m, hm, r, hr, rfl⟩, rfl⟩
  · rintro ⟨p, ⟨m, hm, r, hr, rfl⟩, rfl⟩
    exact ⟨Or.inr ⟨m, hm, r, hr, rfl⟩, dot_mem_recordComponentName _ _⟩

/-! ### The three documents -/

def openRpcShared : List (Bytes × Json) :=
  [(str "Bytes", bytesSchema), (str "LogosResult", logosResultSchema),
    (str "ProviderRejection", providerRejectionSchema)]

def openApiShared : List (Bytes × Json) :=
  [(str "Bytes", bytesSchema), (str "LogosResult", logosResultSchema),
    (str "ProviderRejection", providerRejectionSchema), (str "JsonRpcId", jsonRpcIdSchema),
    (str "JsonRpcError", jsonRpcErrorSchema),
    (str "JsonRpcErrorResponse", jsonRpcErrorResponseSchema),
    (str "ErrorBody", OpenApi.errorBodySchema)]

def asyncApiShared : List (Bytes × Json) :=
  [(str "Bytes", bytesSchema), (str "LogosResult", logosResultSchema),
    (str "ProviderRejection", providerRejectionSchema), (str "JsonRpcError", jsonRpcErrorSchema),
    (str "JsonRpcId", jsonRpcIdSchema),
    (str "SubscriptionId", subscriptionIdSchema), (str "SubscriptionState", subscriptionStateSchema),
    (str "NoParams", noParamsSchema), (str "EventGeneration", eventGenerationSchema),
    (str "EventTimestamp", eventTimestampSchema)]

theorem openRpcSchemas_eq (ctx : DocContext) : openRpcSchemas ctx = .obj (Json.assignAll
    (openRpcShared ++ (ctx.modules.filter isTyped).flatMap (recordAssignments .draft07))) := by
  rw [← records_eq, ← Json.object_eq_assignAll (by decide)]
  rfl

theorem openApiSchemas_eq (ctx : DocContext) : openApiSchemas ctx = .obj (Json.assignAll
    (openApiShared ++ (ctx.modules.filter isTyped).flatMap (recordAssignments .draft2020_12))) := by
  rw [← records_eq, ← Json.object_eq_assignAll (by decide)]
  rfl

theorem asyncApiSchemas_eq (ctx : DocContext) : asyncApiSchemas ctx = .obj (Json.assignAll
    (asyncApiShared ++ (ctx.modules.filter isTyped).flatMap (recordAssignments .draft07))) := by
  rw [← records_eq, ← Json.object_eq_assignAll (by decide)]
  rfl

/-- Each document has a component for every key that some record has. -/
theorem length_recordComponents (ctx : DocContext) :
    ∀ doc ∈ [buildOpenRpc ctx, buildOpenApi ctx, buildAsyncApi ctx], (recordComponents doc).length =
      ((recordPairs ctx).image fun p => recordComponentName p.1 p.2).card := by
  have hrpc : (buildOpenRpc ctx).follow [str "components", str "schemas"] =
      some (openRpcSchemas ctx) := by
    rw [follow_cons OpenRpc.find?_components, follow_cons OpenRpc.find?_schemas]
    rfl
  have hapi : (buildOpenApi ctx).follow [str "components", str "schemas"] =
      some (openApiSchemas ctx) := by
    rw [follow_cons OpenApi.find?_components, follow_cons OpenApi.find?_schemas]
    rfl
  have hasync : (buildAsyncApi ctx).follow [str "components", str "schemas"] =
      some (asyncApiSchemas ctx) := by
    rw [follow_cons AsyncApi.find?_components, follow_cons AsyncApi.find?_schemas]
    rfl
  simp only [List.forall_mem_cons, List.not_mem_nil, false_imp_iff, implies_true, and_true]
  unfold recordComponents membersAt
  rw [hrpc, hapi, hasync, openRpcSchemas_eq, openApiSchemas_eq, asyncApiSchemas_eq]
  exact ⟨length_records (by decide) ctx _, length_records (by decide) ctx _,
    length_records (by decide) ctx _⟩

end Records

/-! ## The whole surface

Each half of `Surface` is read off the list of its document, and each half of `Apart` back from
the lengths. Where keys meet, the document has fewer targets than there are entries. -/

section Whole

variable {ctx : DocContext} {exposed : Bytes × Bytes → Prop} {l l' : List (Bytes × Bytes)}

theorem Exactly.perm (h : Exactly l exposed) (hperm : l'.Perm l) : Exactly l' exposed :=
  ⟨hperm.nodup_iff.mpr h.once, fun t => hperm.mem_iff.trans (h.mem t)⟩

theorem Exactly.length_eq (h : Exactly l exposed) (h' : Exactly l' exposed) : l.length = l'.length :=
  ((List.perm_ext_iff_of_nodup h.once h'.once).mpr fun t => (h.mem t).trans (h'.mem t).symm).length_eq

/-- The key is made of what the documents call the method. -/
theorem nodup_methodTarget (h : ((methodEntries ctx).map AsyncApi.methodKey).Nodup) :
    ((methodEntries ctx).map methodTarget).Nodup := by
  have hkey : (methodEntries ctx).map AsyncApi.methodKey = ((methodEntries ctx).map methodTarget).map
      fun t => componentKey (safe t.1 ++ str "." ++ t.2) := by
    rw [List.map_map]
    rfl
  exact (hkey ▸ h).of_map _

theorem nodup_eventTarget (h : ((eventEntries ctx).map AsyncApi.eventBase).Nodup) :
    ((eventEntries ctx).map eventTarget).Nodup := by
  have hkey : (eventEntries ctx).map AsyncApi.eventBase = ((eventEntries ctx).map eventTarget).map
      fun t => componentKey (safe t.1 ++ str "." ++ t.2) := by
    rw [List.map_map]
    rfl
  exact (hkey ▸ h).of_map _

/-- Nothing that is exposed gets lost. -/
theorem Apart.surface (hr : Reported ctx) (h : Apart ctx) : Surface ctx := by
  have hmethods : Exactly ((methodEntries ctx).map methodTarget) (ExposedMethod ctx) := by
    refine ⟨nodup_methodTarget h.methods, ?_⟩
    rw [map_methodTarget]
    exact (mem_targets_iff hr _).mpr fun m hm hpending n hn =>
      h.names m hm hpending n (List.mem_append_left _ hn)
  have hevents : Exactly ((eventEntries ctx).map eventTarget) (ExposedEvent ctx) := by
    refine ⟨nodup_eventTarget h.events, ?_⟩
    rw [map_eventTarget]
    exact (mem_targets_iff hr _).mpr fun m hm hpending n hn =>
      h.names m hm hpending n (List.mem_append_right _ hn)
  exact {
    methods := OpenRpc.openRpcMethods_eq ctx ▸ hmethods
    operations := hmethods.perm (OpenApi.perm_operations h.paths)
    requests := hmethods.perm (AsyncApi.perm_requests h.methods)
    calls := hmethods.perm (AsyncApi.perm_calls hr h.methods h.operations)
    events := OpenRpc.openRpcEvents_eq ctx ▸ hevents
    subscribes := hevents.perm (AsyncApi.perm_subscribes h.events)
    notifications := hevents.perm (AsyncApi.perm_notifications h.events)
    records := fun doc hdoc =>
      (length_recordComponents ctx doc hdoc).trans (Finset.card_image_iff.mpr h.records) }

/-- OpenRPC tells how many targets there are; a document that has as many has lost none. -/
theorem Surface.apart (hr : Reported ctx) (h : Surface ctx) : Apart ctx := by
  have hmethods : Exactly ((methodEntries ctx).map methodTarget) (ExposedMethod ctx) :=
    OpenRpc.openRpcMethods_eq ctx ▸ h.methods
  have hevents : Exactly ((eventEntries ctx).map eventTarget) (ExposedEvent ctx) :=
    OpenRpc.openRpcEvents_eq ctx ▸ h.events
  have hcount : ∀ {l}, Exactly l (ExposedMethod ctx) → l.length = (methodEntries ctx).length :=
    fun hl => (hl.length_eq hmethods).trans (List.length_map _)
  have hcount' : ∀ {l}, Exactly l (ExposedEvent ctx) → l.length = (eventEntries ctx).length :=
    fun hl => (hl.length_eq hevents).trans (List.length_map _)
  refine {
    names := ?_
    paths := OpenApi.nodup_paths (hcount h.operations)
    methods := AsyncApi.nodup_methodKey (hcount h.requests)
    events := AsyncApi.nodup_eventBase (hcount' h.subscribes)
    operations := AsyncApi.apart_of_calls (hcount h.calls)
    records := Finset.card_image_iff.mp ((length_recordComponents ctx _ (by simp)).symm.trans
      (h.records (buildOpenRpc ctx) (by simp))) }
  intro m hm hpending n hn
  rcases List.mem_append.mp hn with hn | hn
  · exact (mem_targets_iff hr _).mp (map_methodTarget ctx ▸ hmethods.mem) m hm hpending n hn
  · exact (mem_targets_iff hr _).mp (map_eventTarget ctx ▸ hevents.mem) m hm hpending n hn

/-- **The documents keep the whole surface exactly when no two names meet.** -/
theorem surface_iff_apart (hr : Reported ctx) : Surface ctx ↔ Apart ctx :=
  ⟨Surface.apart hr, Apart.surface hr⟩

end Whole

/-! ## Every configuration, every reachable set of views

What `Reported` asks for holds of every reachable set of views: the names are those of an
accepted configuration, which are UTF-8, have no dot and are not `rpc`. -/

section Reachable

open Discovery Interleaving

variable {lib : Nlohmann} {own text : Bytes} {cfg : BridgeConfig} {reader : ContractReader}
  {s : State Shared Section}

theorem hasOperations_toModuleDoc (view : ModuleView) :
    hasOperations (toModuleDoc view) = true ↔ (toModuleDoc view).status ≠ kStatusPending := by
  have hstatus : (toModuleDoc view).status = interfaceStatusName view.status := by
    unfold toModuleDoc
    split
    · rfl
    · split <;> rfl
  unfold hasOperations isTyped isNamesOnly
  rw [hstatus]
  cases view.status with
  | pending => simp [interfaceStatusName, kStatusPending, kStatusOk, kStatusUntyped, kStatusInvalid,
      str_inj]
  | untyped => simp [interfaceStatusName, kStatusPending, kStatusUntyped, str_inj]
  | invalid => simp [interfaceStatusName, kStatusPending, kStatusInvalid, str_inj]
  | ok =>
      cases (toModuleDoc view).interface.isObject with
      | true => simp [interfaceStatusName, kStatusPending, kStatusOk, str_inj]
      | false => simp [interfaceStatusName, kStatusPending, kStatusOk, str_inj]

theorem name_toModuleDoc (view : ModuleView) : (toModuleDoc view).name = view.module := by
  unfold toModuleDoc
  split
  · rfl
  · split <;> rfl

/-- The views of an accepted configuration are named as it names its modules. -/
theorem reported_docContext (hcfg : cfg.Accepted lib own)
    (h : Run (discovery cfg lib reader) Guard.any (start cfg) s) (bridgeVersion : Bytes) :
    Reported (docContext cfg bridgeVersion (s.shared.views cfg)) := by
  have hmodules : ∀ m ∈ (docContext cfg bridgeVersion (s.shared.views cfg)).modules,
      ∃ view, m = toModuleDoc view ∧ ∃ em ∈ cfg.modules, view.module = em.name := by
    intro m hm
    obtain ⟨view, hview, rfl⟩ := List.mem_map.mp hm
    obtain ⟨em, hem, hslot⟩ := List.mem_filterMap.mp hview
    obtain ⟨t, ht, rfl⟩ := Option.map_eq_some_iff.mp hslot
    exact ⟨_, rfl, em, hem, ((advertised_of_run h).stored em.name t ht).1⟩
  constructor
  · intro m hm
    obtain ⟨view, rfl, -⟩ := hmodules m hm
    exact hasOperations_toModuleDoc view
  · intro m hm
    obtain ⟨view, rfl, em, hem, hname⟩ := hmodules m hm
    rw [name_toModuleDoc, hname]
    exact ⟨(hcfg.clean em hem).1, dot_not_mem_of_checkModuleName (hcfg.checked em hem),
      ne_rpc_of_checkModuleName (hcfg.checked em hem)⟩

/-- For every accepted configuration and every reachable set of views, the documents describe the
exposed surface without loss exactly when its names are apart. -/
theorem surface_kept_iff (hcfg : parseBridgeConfig lib own text = .ok cfg)
    (h : Run (discovery cfg lib reader) Guard.any (start cfg) s) (bridgeVersion : Bytes) :
    Surface (docContext cfg bridgeVersion (s.shared.views cfg)) ↔
      Apart (docContext cfg bridgeVersion (s.shared.views cfg)) :=
  surface_iff_apart (reported_docContext (accepted_of_parse hcfg) h bridgeVersion)

/-- The first refresh of `m1`, whose live report names these methods. -/
def liveReport (names : List String) : List (Move CallOutcome Entry) :=
  [.run 0 {}, .run 0 {},
    .run 1 { value := .arr (names.map fun n => Json.object [(str "name", JsonRpcBridge.Docs.text n)]) },
    .run 2 {}, .run 2 {}, .run 2 {}]

theorem parse_twoModules :
    parseBridgeConfig sensorLib (str "json_rpc_bridge") twoModulesText = .ok twoModules := by rfl

/-- Two modules, one of them with an event and a record, are described without loss. -/
theorem surface_kept_iff_sensor : ∃ s,
    Run (discovery twoModules sensorLib sensorReader) Guard.any (start twoModules) s ∧
    (recordPairs (docContext twoModules (str "1.0") (s.shared.views twoModules))).card = 1 ∧
    Surface (docContext twoModules (str "1.0") (s.shared.views twoModules)) := by
  have hmoves : ((discovery twoModules sensorLib sensorReader).replay (start twoModules)
      sensorMoves).map (fun s =>
        ((recordPairs (docContext twoModules (str "1.0") (s.shared.views twoModules))).card,
          decide (Apart (docContext twoModules (str "1.0") (s.shared.views twoModules))))) =
      some (1, true) := by decide +kernel
  obtain ⟨s, hs, hend⟩ := Option.map_eq_some_iff.mp hmoves
  obtain ⟨hrecords, hapart⟩ := Prod.mk.inj hend
  have hrun := Run.replay .start hs
  exact ⟨s, hrun, hrecords,
    (surface_kept_iff parse_twoModules hrun (str "1.0")).mpr (of_decide_eq_true hapart)⟩

/-- `get/item` and `get_item` have one AsyncAPI key, and the first is lost. -/
theorem not_surface_kept : ∃ s, parseBridgeConfig minimalLib (str "json_rpc_bridge") minimalText =
      .ok minimalConfig ∧
    Run (discovery minimalConfig minimalLib .refusing) Guard.any (start minimalConfig) s ∧
    ¬Surface (docContext minimalConfig (str "1.0") (s.shared.views minimalConfig)) := by
  have hkeys : ((discovery minimalConfig minimalLib .refusing).replay (start minimalConfig)
      (liveReport ["get/item", "get_item"])).map (fun s => (methodEntries
        (docContext minimalConfig (str "1.0") (s.shared.views minimalConfig))).map
          AsyncApi.methodKey) = some [str "m1.get_item", str "m1.get_item"] := rfl
  obtain ⟨s, hs, hmeet⟩ := Option.map_eq_some_iff.mp hkeys
  have hrun := Run.replay .start hs
  refine ⟨s, parse_minimal, hrun, ?_⟩
  intro hsurface
  have hreported := reported_docContext (accepted_of_parse parse_minimal) hrun (str "1.0")
  have hapart := ((surface_iff_apart hreported).mp hsurface).methods
  rw [hmeet] at hapart
  exact absurd hapart (by decide)

end Reachable

end JsonRpcBridge.Docs
