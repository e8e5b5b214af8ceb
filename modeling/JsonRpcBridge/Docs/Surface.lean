import JsonRpcBridge.Docs.AsyncApi
import JsonRpcBridge.Docs.OpenApi
import JsonRpcBridge.Docs.OpenRpc
import JsonRpcBridge.Members
import JsonRpcBridge.Pointer
import Mathlib.Data.Finset.Card

/-!
# One surface in three documents

What each document says of the exposed methods and events is read back out of it as a list of
targets. OpenRPC lists its methods in an array; OpenAPI and AsyncAPI store theirs under keys and paths
made of the names, by assignment.

* `Surface`: every document has each exposed member once, and nothing else.
* `Apart`: no two members are stored under one key.
* `surface_iff_apart`: the first holds exactly when the second does.
-/

namespace JsonRpcBridge.Docs

/-! ## What is exposed

A target is a pair of names, a module and a member of it. What is exposed is a property of the
views alone and mentions no document. -/

/-- A member that a module which is not pending exposes, among those that `names` gives. -/
def Exposed (ctx : DocContext) (names : ModuleDoc → List Bytes) (t : Bytes × Bytes) : Prop :=
  ∃ m ∈ ctx.modules, m.status ≠ kStatusPending ∧ t.1 = m.name ∧ t.2 ∈ names m

def ExposedMethod (ctx : DocContext) : Bytes × Bytes → Prop := Exposed ctx ModuleDoc.exposedMethods

def ExposedEvent (ctx : DocContext) : Bytes × Bytes → Prop := Exposed ctx ModuleDoc.exposedEvents

/-- The records of the typed modules, each with its module. -/
def recordPairs (ctx : DocContext) : Finset (Bytes × Bytes) :=
  ((ctx.modules.filter isTyped).flatMap fun m =>
    (TypeScope.of m.name m.interface).records.map fun r => (m.name, r)).toFinset

/-! ## What a document says

The other way round: the functions below know nothing of the views and read targets out of a
finished document, the way a client would. A method is found by what the object under it names,
not by the key it is stored under; the keys only decide which messages count. -/

/-- The module and the member that an object names under two of its keys. -/
def target (module member : String) (obj : Json) : Option (Bytes × Bytes) :=
  match obj.find? (str module), obj.find? (str member) with
  | some (.str m), some (.str n) => some (m, n)
  | _, _ => none

def methodTarget? (obj : Json) : Option (Bytes × Bytes) :=
  target "x-logos-module" "x-logos-method" obj

def eventTarget? (obj : Json) : Option (Bytes × Bytes) :=
  target "x-logos-module" "x-logos-event" obj

/-- The array that a document has along a path, and no elements if there is none. -/
def elementsAt (doc : Json) (path : List Bytes) : List Json :=
  match doc.follow path with
  | some (.arr xs) => xs
  | _ => []

/-- The members of the object that a document has along a path. -/
def membersAt (doc : Json) (path : List Bytes) : List (Bytes × Json) :=
  match doc.follow path with
  | some (.obj ms) => ms
  | _ => []

def openRpcMethods (doc : Json) : List (Bytes × Bytes) :=
  (elementsAt doc [str "methods"]).filterMap methodTarget?

def openRpcEvents (doc : Json) : List (Bytes × Bytes) :=
  (elementsAt doc [str "x-logos-events"]).filterMap (target "module" "event")

/-- A module operation is the `post` of its path. -/
def postTarget? (path : Bytes × Json) : Option (Bytes × Bytes) :=
  (path.2.find? (str "post")).bind methodTarget?

def openApiOperations (doc : Json) : List (Bytes × Bytes) :=
  (membersAt doc [str "paths"]).filterMap postTarget?

/-- What a message is about, if its key ends so. -/
def messageTarget? (suffix : String) (about : Json → Option (Bytes × Bytes)) (message : Bytes × Json) :
    Option (Bytes × Bytes) :=
  if (str suffix).isSuffixOf message.1 then about message.2 else none

def asyncApiMessages (suffix : String) (about : Json → Option (Bytes × Bytes)) (doc : Json) :
    List (Bytes × Bytes) :=
  (membersAt doc [str "components", str "messages"]).filterMap (messageTarget? suffix about)

def asyncApiOperations (doc : Json) : List (Bytes × Bytes) :=
  (membersAt doc [str "operations"]).filterMap fun op => methodTarget? op.2

/-- The component schemas of records: `<module>.<record>`. -/
def recordComponents (doc : Json) : List (Bytes × Json) :=
  (membersAt doc [str "components", str "schemas"]).filter fun kv => kv.1.contains 0x2E

/-! ## The property, and the condition

`Surface` is about three finished documents, and `Apart` only about names. A name that is empty
or no UTF-8 cannot be written into a document; and of two members stored under one key only the
later one is left. The claim is that nothing else can go wrong. -/

/-- The targets are exactly those exposed, each once. -/
structure Exactly (targets : List (Bytes × Bytes)) (exposed : Bytes × Bytes → Prop) : Prop where
  once : targets.Nodup
  mem : ∀ t, t ∈ targets ↔ exposed t

/-- The three documents describe the exposed surface without losing any of it. -/
structure Surface (ctx : DocContext) : Prop where
  methods : Exactly (openRpcMethods (buildOpenRpc ctx)) (ExposedMethod ctx)
  operations : Exactly (openApiOperations (buildOpenApi ctx)) (ExposedMethod ctx)
  requests : Exactly (asyncApiMessages ".request" methodTarget? (buildAsyncApi ctx))
    (ExposedMethod ctx)
  calls : Exactly (asyncApiOperations (buildAsyncApi ctx)) (ExposedMethod ctx)
  events : Exactly (openRpcEvents (buildOpenRpc ctx)) (ExposedEvent ctx)
  subscribes : Exactly (asyncApiMessages ".subscribe" eventTarget? (buildAsyncApi ctx))
    (ExposedEvent ctx)
  notifications : Exactly (asyncApiMessages ".event" eventTarget? (buildAsyncApi ctx))
    (ExposedEvent ctx)
  records : ∀ doc ∈ [buildOpenRpc ctx, buildOpenApi ctx, buildAsyncApi ctx],
    (recordComponents doc).length = (recordPairs ctx).card

/-- Every exposed name can be written, and no two things are stored under one key or path. -/
structure Apart (ctx : DocContext) : Prop where
  names : ∀ m ∈ ctx.modules, m.status ≠ kStatusPending →
    ∀ n ∈ m.exposedMethods ++ m.exposedEvents, n ≠ [] ∧ Utf8 n
  paths : ((methodEntries ctx).map OpenApi.modulePath).Nodup
  methods : ((methodEntries ctx).map AsyncApi.methodKey).Nodup
  events : ((eventEntries ctx).map AsyncApi.eventBase).Nodup
  operations : ∀ e ∈ methodEntries ctx, ∀ e' ∈ eventEntries ctx,
    AsyncApi.methodKey e ≠ AsyncApi.subscribeKey e' ∧ AsyncApi.methodKey e ≠ AsyncApi.eventKey e'
  records : Set.InjOn (fun p : Bytes × Bytes => recordComponentName p.1 p.2) (recordPairs ctx)

instance (ctx : DocContext) : Decidable (Apart ctx) :=
  decidable_of_iff ((∀ m ∈ ctx.modules, m.status ≠ kStatusPending →
      ∀ n ∈ m.exposedMethods ++ m.exposedEvents, n ≠ [] ∧ Utf8 n) ∧
    ((methodEntries ctx).map OpenApi.modulePath).Nodup ∧
    ((methodEntries ctx).map AsyncApi.methodKey).Nodup ∧
    ((eventEntries ctx).map AsyncApi.eventBase).Nodup ∧
    (∀ e ∈ methodEntries ctx, ∀ e' ∈ eventEntries ctx,
      AsyncApi.methodKey e ≠ AsyncApi.subscribeKey e' ∧ AsyncApi.methodKey e ≠ AsyncApi.eventKey e') ∧
    ∀ p ∈ recordPairs ctx, ∀ q ∈ recordPairs ctx,
      recordComponentName p.1 p.2 = recordComponentName q.1 q.2 → p = q)
    ⟨fun ⟨hnames, hpaths, hmethods, hevents, hoperations, hrecords⟩ =>
      ⟨hnames, hpaths, hmethods, hevents, hoperations, fun _ hp _ hq => hrecords _ hp _ hq⟩,
    fun h => ⟨h.names, h.paths, h.methods, h.events, h.operations,
      fun _ hp _ hq => h.records hp hq⟩⟩

/-- What holds of the documents' input whatever the views are. -/
structure Reported (ctx : DocContext) : Prop where
  status : ∀ m ∈ ctx.modules, hasOperations m = true ↔ m.status ≠ kStatusPending
  name : ∀ m ∈ ctx.modules, Utf8 m.name ∧ 0x2E ∉ m.name ∧ m.name ≠ str "rpc"

/-! ## Names

The entries of the three builders name their targets in the same way, so both kinds are reduced
to one list of pairs (`targets`). It has exactly the exposed members if every exposed name
survives being sanitised: an empty name is dropped, and one that is no UTF-8 comes out as another
name. -/

section Names

variable {ctx : DocContext}

/-- A name that is UTF-8 is written as it is. -/
theorem safe_of_utf8 {s : Bytes} (h : Utf8 s) : safe s = s := if_pos (utf8Valid_iff.mpr h)

/-- The list has no name twice and lacks only the empty one. -/
theorem mem_distinctNames {names : List Bytes} {n : Bytes} :
    n ∈ distinctNames names ↔ n ∈ names ∧ n ≠ [] := by
  have hswap : distinctNames names =
      names.foldl (fun out m => if !m.isEmpty then addOnce out m else out) [] := by
    unfold distinctNames
    congr 1
    funext out m
    cases m <;> rfl
  rw [hswap, mem_foldl_addOnce]
  simp

/-- What the documents call a method, and an event. -/
def methodTarget (e : MethodEntry) : Bytes × Bytes := (safe e.module.name, safe e.method)

def eventTarget (e : EventEntry) : Bytes × Bytes := (safe e.module.name, safe e.event)

/-- The targets of the entries that modules with operations have for some of their names. -/
def targets (ctx : DocContext) (names : ModuleDoc → List Bytes) : List (Bytes × Bytes) :=
  (ctx.modules.filter hasOperations).flatMap fun m =>
    (distinctNames (names m)).map fun n => (safe m.name, safe n)

/-- The targets of the method entries are those of the exposed methods. -/
theorem map_methodTarget (ctx : DocContext) :
    (methodEntries ctx).map methodTarget = targets ctx ModuleDoc.exposedMethods := by
  unfold methodEntries targets
  rw [List.map_flatMap]
  simp only [List.map_map]
  rfl

theorem map_eventTarget (ctx : DocContext) :
    (eventEntries ctx).map eventTarget = targets ctx ModuleDoc.exposedEvents := by
  unfold eventEntries targets
  rw [List.map_flatMap]
  simp only [List.map_map]
  rfl

theorem mem_targets {names : ModuleDoc → List Bytes} {t : Bytes × Bytes} :
    t ∈ targets ctx names ↔ ∃ m ∈ ctx.modules, hasOperations m = true ∧
      ∃ n ∈ names m, n ≠ [] ∧ t = (safe m.name, safe n) := by
  unfold targets
  simp only [List.mem_flatMap, List.mem_filter, List.mem_map, mem_distinctNames, and_assoc, eq_comm]

/-- Every name can be written. -/
def Writable (ctx : DocContext) (names : ModuleDoc → List Bytes) : Prop :=
  ∀ m ∈ ctx.modules, m.status ≠ kStatusPending → ∀ n ∈ names m, n ≠ [] ∧ Utf8 n

/-- The targets are the exposed members exactly when every exposed name can be written. -/
theorem mem_targets_iff (hr : Reported ctx) (names : ModuleDoc → List Bytes) :
    (∀ t, t ∈ targets ctx names ↔ Exposed ctx names t) ↔ Writable ctx names := by
  constructor
  · intro h
    have hutf8 : ∀ m ∈ ctx.modules, m.status ≠ kStatusPending → ∀ n ∈ names m, Utf8 n := by
      intro m hm hpending n hn
      obtain ⟨m', -, -, n', -, -, heq⟩ := mem_targets.mp ((h (m.name, n)).mpr ⟨m, hm, hpending, rfl, hn⟩)
      have hn' : n = safe n' := congrArg Prod.snd heq
      exact hn' ▸ utf8_safe n'
    intro m hm hpending n hn
    refine ⟨?_, hutf8 m hm hpending n hn⟩
    -- the empty name is dropped, and no other name is written as the empty one
    rintro rfl
    obtain ⟨m', hm', hops, n', hn', hne, heq⟩ :=
      mem_targets.mp ((h (m.name, [])).mpr ⟨m, hm, hpending, rfl, hn⟩)
    have hsafe : [] = safe n' := congrArg Prod.snd heq
    rw [safe_of_utf8 (hutf8 m' hm' ((hr.status m' hm').mp hops) n' hn')] at hsafe
    exact hne hsafe.symm
  · intro hnames t
    rw [mem_targets]
    constructor
    · rintro ⟨m, hm, hops, n, hn, -, rfl⟩
      have hpending := (hr.status m hm).mp hops
      refine ⟨m, hm, hpending, safe_of_utf8 (hr.name m hm).1, ?_⟩
      rw [safe_of_utf8 (hnames m hm hpending n hn).2]
      exact hn
    · rintro ⟨m, hm, hpending, hmodule, hn⟩
      obtain ⟨hne, hutf8⟩ := hnames m hm hpending _ hn
      refine ⟨m, hm, (hr.status m hm).mpr hpending, t.2, hn, hne, ?_⟩
      exact Prod.ext (hmodule.trans (safe_of_utf8 (hr.name m hm).1).symm) (safe_of_utf8 hutf8).symm

end Names

/-! ## Reading an object

Setting members and reading them back. The titles, summaries and descriptions that are set in
between have other names, so that they do not get in the way. -/

section Reading

variable {j v obj : Json} {k k' m n : Bytes} {module member : String}

theorem find?_set_ne (h : k' ≠ k) : (j.set k v).find? k' = j.find? k' := by
  cases j with
  | obj ms => exact (OrderedMap.lookup_assign k k' v ms).trans (if_neg h)
  | null => exact (List.lookup_cons_if k k' v []).trans (if_neg h)
  | _ => rfl

theorem find?_set_self (h : j.isObject = true) : (j.set k v).find? k = some v :=
  (Json.find?_set h k k v).trans (if_pos rfl)

/-- A summary and a description leave the other members alone. -/
theorem find?_addText (hs : k ≠ str "summary") (hd : k ≠ str "description") (raw : Bytes) :
    (addText obj raw).find? k = obj.find? k := by
  have hsummary : (if (summary raw).isEmpty then obj
      else obj.set (str "summary") (.str (summary raw))).find? k = obj.find? k := by
    split
    · rfl
    · exact find?_set_ne hs
  unfold addText
  dsimp only
  split
  · exact (find?_set_ne hd).trans hsummary
  · exact hsummary

theorem isObject_addText (h : obj.isObject = true) (raw : Bytes) :
    (addText obj raw).isObject = true := by
  unfold addText
  exact Json.isObject_ite (Json.isObject_set (Json.isObject_ite h (Json.isObject_set h)))
    (Json.isObject_ite h (Json.isObject_set h))

theorem target_of_find (hm : obj.find? (str module) = some (.str m))
    (hn : obj.find? (str member) = some (.str n)) : target module member obj = some (m, n) := by
  unfold target
  rw [hm, hn]

theorem target_of_none (h : obj.find? (str member) = none) : target module member obj = none := by
  unfold target
  rw [h]
  cases obj.find? (str module) with
  | none => rfl
  | some x => cases x <;> rfl

/-- Naming the module and then the member makes the object's target. -/
theorem target_set (h : j.isObject = true) (hne : module ≠ member) :
    target module member ((j.set (str module) (.str m)).set (str member) (.str n)) = some (m, n) := by
  refine target_of_find ?_ (find?_set_self (Json.isObject_set h))
  rw [find?_set_ne (fun heq => hne (str_inj.mp heq)), find?_set_self h]

end Reading

/-! ## OpenRPC: an array

Nothing is stored under a key here, so nothing is lost: the targets read back are those of the
entries, one for one, and no condition on the names is needed. -/

namespace OpenRpc

variable {ctx : DocContext}

theorem isObject_methodBody {e : MethodEntry} {m : Json} (h : m.isObject = true) :
    (methodBody e m).1.isObject = true := by
  unfold methodBody
  split
  · exact Json.isObject_ite (Json.isObject_set (Json.isObject_set h)) (Json.isObject_set h)
  · exact Json.isObject_set (Json.isObject_set h)

theorem methodTarget?_moduleMethod (e : MethodEntry) :
    methodTarget? (moduleMethod e) = some (methodTarget e) := by
  have hname : (Json.object [(str "name", .str (qualified (safe e.module.name) e.method))]).isObject =
      true := rfl
  have hbody := isObject_methodBody (e := e) (Json.isObject_set (k := str "tags")
    (v := .arr [tag (safe e.module.name)]) (isObject_addText hname (methodText e)))
  exact target_set (Json.isObject_set (Json.isObject_set (Json.isObject_set hbody))) (by decide)

/-- The methods of the bridge name no module. -/
theorem openRpcMethods_eq (ctx : DocContext) :
    openRpcMethods (buildOpenRpc ctx) = (methodEntries ctx).map methodTarget := by
  have hbridge : bridgeMethods.filterMap methodTarget? = [] := by decide
  show (bridgeMethods ++ (methodEntries ctx).map moduleMethod).filterMap methodTarget? = _
  rw [List.filterMap_append, hbridge, List.nil_append, List.filterMap_map]
  have hall : (methodEntries ctx).filterMap (methodTarget? ∘ moduleMethod) =
      (methodEntries ctx).filterMap fun e => some (methodTarget e) :=
    List.filterMap_congr fun e _ => methodTarget?_moduleMethod e
  rw [hall, List.filterMap_eq_map']

theorem target_eventDescriptor (e : EventEntry) :
    target "module" "event" (eventDescriptor e) = some (eventTarget e) := by
  have hbase : ∀ k ∈ [str "module", str "event"], (eventDescriptor e).find? k =
      (Json.object [(str "name", .str (qualified (safe e.module.name) e.event)),
        (str "module", .str (safe e.module.name)), (str "event", .str (safe e.event)),
        (str "subscribe", text "rpc.subscribe"), (str "notification", text "rpc.event")]).find? k := by
    intro k hk
    have hne : ∀ s ∈ ["summary", "description", "params", "dataSchema", "x-logos-untyped"],
        k ≠ str s := by
      simp only [List.mem_cons, List.not_mem_nil, or_false] at hk
      rcases hk with rfl | rfl
      · simp [str_inj]
      · simp [str_inj]
    unfold eventDescriptor
    dsimp only
    split
    · rw [find?_set_ne (hne _ (by simp)), find?_set_ne (hne _ (by simp)),
        find?_addText (hne _ (by simp)) (hne _ (by simp))]
    · rw [find?_set_ne (hne _ (by simp)), find?_set_ne (hne _ (by simp)),
        find?_addText (hne _ (by simp)) (hne _ (by simp))]
  exact target_of_find ((hbase _ (by simp)).trans rfl) ((hbase _ (by simp)).trans rfl)

theorem openRpcEvents_eq (ctx : DocContext) :
    openRpcEvents (buildOpenRpc ctx) = (eventEntries ctx).map eventTarget := by
  show ((eventEntries ctx).map eventDescriptor).filterMap (target "module" "event") = _
  rw [List.filterMap_map]
  have hall : (eventEntries ctx).filterMap (target "module" "event" ∘ eventDescriptor) =
      (eventEntries ctx).filterMap fun e => some (eventTarget e) :=
    List.filterMap_congr fun e _ => target_eventDescriptor e
  rw [hall, List.filterMap_eq_map']

end OpenRpc

/-! ## AsyncAPI: messages and operations under keys

What is assigned under keys is seen as a list of assignments, of which the object keeps the last
for each key (`Json.assignAll`). Reading targets back of the object then amounts to this: among
the assignments that count for a given suffix, none is lost exactly when their keys are
different. The two directions are `perm_messages` and `nodup_of_messages`. -/

namespace AsyncApi

section Messages

variable {ε : Type} {suffix : String} {about : Json → Option (Bytes × Bytes)}
  {A : List (Bytes × Json)} {E : List ε} {key : ε → Bytes} {val : ε → Json} {T : ε → Bytes × Bytes}

/-- A key ends in one of two suffixes only if one of them ends in the other. -/
theorem isSuffixOf_append {a b : String} (h : (str a).isSuffixOf (str b) = false)
    (h' : (str b).isSuffixOf (str a) = false) (x : Bytes) :
    (str a).isSuffixOf (x ++ str b) = false := by
  rw [Bool.eq_false_iff, Ne, List.isSuffixOf_iff_suffix]
  intro hsuffix
  rcases List.suffix_or_suffix_of_suffix hsuffix (List.suffix_append x (str b)) with hab | hba
  · rw [List.isSuffixOf_iff_suffix.mpr hab] at h
    cases h
  · rw [List.isSuffixOf_iff_suffix.mpr hba] at h'
    cases h'

theorem isSuffixOf_append_self (a : String) (x : Bytes) : (str a).isSuffixOf (x ++ str a) = true :=
  List.isSuffixOf_iff_suffix.mpr (List.suffix_append x (str a))

/-- Where nothing of any part passes the filter, nothing of the whole does. -/
theorem filter_flatMap_nil {α β : Type} {W : α → List β} {p : β → Bool}
    (h : ∀ a, (W a).filter p = []) (l : List α) : (l.flatMap W).filter p = [] := by
  induction l with
  | nil => rfl
  | cons a l ih => rw [List.flatMap_cons, List.filter_append, h, ih, List.append_nil]

theorem filter_flatMap_single {α β : Type} {W : α → List β} {p : β → Bool} {x : α → β}
    (h : ∀ a, (W a).filter p = [x a]) (l : List α) : (l.flatMap W).filter p = l.map x := by
  induction l with
  | nil => rfl
  | cons a l ih => rw [List.flatMap_cons, List.filter_append, h, ih, List.map_cons, List.singleton_append]

/-- The messages that count are those with the suffix. -/
theorem filter_messageTarget (hA : A.filter (fun a => (str suffix).isSuffixOf a.1) =
    E.map fun e => (key e, val e)) (hT : ∀ e, about (val e) = some (T e)) :
    A.filter (fun a => (messageTarget? suffix about a).isSome) = E.map fun e => (key e, val e) := by
  have hboth : (fun a : Bytes × Json => (messageTarget? suffix about a).isSome) =
      fun a => (about a.2).isSome && (str suffix).isSuffixOf a.1 := by
    funext a
    unfold messageTarget?
    cases (str suffix).isSuffixOf a.1 with
    | false => simp
    | true => simp
  rw [hboth, ← List.filter_filter, hA, List.filter_eq_self]
  intro a ha
  obtain ⟨e, -, rfl⟩ := List.mem_map.mp ha
  rw [hT]
  rfl

theorem messageTarget_of_mem (hA : A.filter (fun a => (str suffix).isSuffixOf a.1) =
    E.map fun e => (key e, val e)) (hT : ∀ e, about (val e) = some (T e)) {e : ε} (he : e ∈ E) :
    (str suffix).isSuffixOf (key e) = true ∧
      messageTarget? suffix about (key e, val e) = some (T e) := by
  have hmem : (key e, val e) ∈ A.filter fun a => (str suffix).isSuffixOf a.1 :=
    hA ▸ List.mem_map_of_mem he
  have hsuffix := (List.mem_filter.mp hmem).2
  exact ⟨hsuffix, (if_pos hsuffix).trans (hT e)⟩

/-- Keys that are apart lose nothing. -/
theorem perm_messages (hA : A.filter (fun a => (str suffix).isSuffixOf a.1) =
    E.map fun e => (key e, val e)) (hT : ∀ e, about (val e) = some (T e))
    (hkeys : (E.map key).Nodup) :
    ((Json.assignAll A).filterMap (messageTarget? suffix about)).Perm (E.map T) := by
  have hfilter := filter_messageTarget hA hT
  refine Json.perm_filterMap hfilter (fun e he => (messageTarget_of_mem hA hT he).2) hkeys ?_
  intro e he b hb hkey
  have hsuffix : (str suffix).isSuffixOf b.1 = true := hkey ▸ (messageTarget_of_mem hA hT he).1
  have hmem : b ∈ E.map fun e => (key e, val e) := hA ▸ List.mem_filter.mpr ⟨hb, hsuffix⟩
  rw [← hfilter] at hmem
  exact (List.mem_filter.mp hmem).2

/-- If as much is left as there was, the keys are apart. -/
theorem nodup_of_messages (hA : A.filter (fun a => (str suffix).isSuffixOf a.1) =
    E.map fun e => (key e, val e)) (hT : ∀ e, about (val e) = some (T e))
    (hlength : ((Json.assignAll A).filterMap (messageTarget? suffix about)).length = E.length) :
    (E.map key).Nodup := (Json.nodup_of_length (filter_messageTarget hA hT) hlength).1

end Messages

/-! ### What the builder writes

The assignments of one method, of one event, and those that are no module's, in the order in
which the builder makes them. -/

/-- What the builder assigns for one method. -/
def methodAssignments (e : MethodEntry) : List (Bytes × Json) :=
  [(requestKey e, requestMessage e), (resultKey e, resultMessage e)]

def eventAssignments (e : EventEntry) : List (Bytes × Json) :=
  [(subscribeKey e, subscribeMessage e), (subscribedKey e, subscribedMessage e),
    (eventKey e, eventMessage e)]

def sharedAssignments : List (Bytes × Json) :=
  [(kErrorMessage, errorMessage), (kUnsubscribeMessage, unsubscribeMessage),
    (kUnsubscribedMessage, unsubscribedMessage), (kTerminatedMessage, terminatedMessage)]

/-- The messages, in the order in which the builder assigns them. -/
def messageAssignments (ctx : DocContext) : List (Bytes × Json) :=
  (methodEntries ctx).flatMap methodAssignments ++ (eventEntries ctx).flatMap eventAssignments ++
    sharedAssignments

def callAssignments (ctx : DocContext) : List (Bytes × Json) :=
  (methodEntries ctx).map fun e => (methodKey e, methodOperation e)

/-- The operations that are no method's. -/
def otherAssignments (ctx : DocContext) : List (Bytes × Json) :=
  ((eventEntries ctx).flatMap fun e =>
    [(subscribeKey e, subscribeOperation e), (eventKey e, eventOperation e)]) ++
    [(kUnsubscribeMessage, unsubscribeOperation), (kTerminatedMessage, terminatedOperation)]

variable {ctx : DocContext}

/-- The builder assigns these, and its messages are what is left of them. -/
theorem messages_eq (ctx : DocContext) :
    (asyncApiBuilder ctx).messages = .obj (Json.assignAll (messageAssignments ctx)) := by
  have hmethods := @Json.foldl_assigns _ _ Builder.addMethod Builder.messages
    methodAssignments (fun b e B hb => by
      show ((b.messages.set _ _).set _ _) = _
      rw [hb, Json.set_assignAll, Json.set_assignAll, List.append_assoc]
      rfl) (methodEntries ctx) {} [] rfl
  have hevents := @Json.foldl_assigns _ _ Builder.addEvent Builder.messages
    eventAssignments (fun b e B hb => by
      show (((b.messages.set _ _).set _ _).set _ _) = _
      rw [hb, Json.set_assignAll, Json.set_assignAll, Json.set_assignAll, List.append_assoc,
        List.append_assoc]
      rfl) (eventEntries ctx) _ _ hmethods
  show ((((_ : Json).set _ _).set _ _).set _ _).set _ _ = _
  rw [hevents, Json.set_assignAll, Json.set_assignAll, Json.set_assignAll, Json.set_assignAll]
  simp only [messageAssignments, sharedAssignments, List.append_assoc, List.nil_append,
    List.cons_append]

/-- The same for the operations. -/
theorem operations_eq (ctx : DocContext) : (asyncApiBuilder ctx).operations =
    .obj (Json.assignAll (callAssignments ctx ++ otherAssignments ctx)) := by
  have hmethods := @Json.foldl_assigns _ _ Builder.addMethod Builder.operations
    (fun e => [(methodKey e, methodOperation e)]) (fun b e B hb => by
      show (b.operations.set _ _) = _
      rw [hb, Json.set_assignAll]) (methodEntries ctx) {} [] rfl
  have hevents := @Json.foldl_assigns _ _ Builder.addEvent Builder.operations
    (fun e => [(subscribeKey e, subscribeOperation e), (eventKey e, eventOperation e)])
    (fun b e B hb => by
      show ((b.operations.set _ _).set _ _) = _
      rw [hb, Json.set_assignAll, Json.set_assignAll, List.append_assoc]
      rfl) (eventEntries ctx) _ _ hmethods
  have hcalls : callAssignments ctx =
      (methodEntries ctx).flatMap fun e => [(methodKey e, methodOperation e)] :=
    List.map_eq_flatMap
  show ((_ : Json).set _ _).set _ _ = _
  rw [hevents, Json.set_assignAll, Json.set_assignAll, hcalls]
  simp only [otherAssignments, List.append_assoc, List.nil_append, List.cons_append]

/-! ### Which messages count

The ending of its key says what a message is: a request, a subscription or an event. -/

theorem filter_request (ctx : DocContext) :
    (messageAssignments ctx).filter (fun a => (str ".request").isSuffixOf a.1) =
      (methodEntries ctx).map fun e => (requestKey e, requestMessage e) := by
  have hmethods : ∀ e, (methodAssignments e).filter (fun a => (str ".request").isSuffixOf a.1) =
      [(requestKey e, requestMessage e)] := by
    intro e
    have hrequest : (str ".request").isSuffixOf (requestKey e) = true := isSuffixOf_append_self _ _
    have hresult : (str ".request").isSuffixOf (resultKey e) = false :=
      isSuffixOf_append (by decide) (by decide) _
    simp only [methodAssignments, List.filter_cons, hrequest, hresult, List.filter_nil, if_true,
      Bool.false_eq_true, if_false]
  have hevents : ∀ e, (eventAssignments e).filter (fun a => (str ".request").isSuffixOf a.1) = [] := by
    intro e
    have hsubscribe : (str ".request").isSuffixOf (subscribeKey e) = false :=
      isSuffixOf_append (by decide) (by decide) _
    have hsubscribed : (str ".request").isSuffixOf (subscribedKey e) = false :=
      isSuffixOf_append (by decide) (by decide) _
    have hevent : (str ".request").isSuffixOf (eventKey e) = false :=
      isSuffixOf_append (by decide) (by decide) _
    simp only [eventAssignments, List.filter_cons, hsubscribe, hsubscribed, hevent, List.filter_nil,
      Bool.false_eq_true, if_false]
  have hshared : sharedAssignments.filter (fun a => (str ".request").isSuffixOf a.1) = [] := rfl
  unfold messageAssignments
  rw [List.filter_append, List.filter_append, filter_flatMap_single hmethods,
    filter_flatMap_nil hevents, hshared, List.append_nil, List.append_nil]

/-- The messages of methods end in neither suffix of the events'. -/
theorem filter_methodAssignments {suffix : String} (hs : suffix = ".subscribe" ∨ suffix = ".event")
    (e : MethodEntry) :
    (methodAssignments e).filter (fun a => (str suffix).isSuffixOf a.1) = [] := by
  have hkeys : (str suffix).isSuffixOf (requestKey e) = false ∧
      (str suffix).isSuffixOf (resultKey e) = false := by
    rcases hs with rfl | rfl
    · exact ⟨isSuffixOf_append (by decide) (by decide) _, isSuffixOf_append (by decide) (by decide) _⟩
    · exact ⟨isSuffixOf_append (by decide) (by decide) _, isSuffixOf_append (by decide) (by decide) _⟩
  simp only [methodAssignments, List.filter_cons, hkeys.1, hkeys.2, List.filter_nil,
    Bool.false_eq_true, if_false]

theorem filter_subscribe (ctx : DocContext) :
    (messageAssignments ctx).filter (fun a => (str ".subscribe").isSuffixOf a.1) =
      (eventEntries ctx).map fun e => (subscribeKey e, subscribeMessage e) := by
  have hevents : ∀ e, (eventAssignments e).filter (fun a => (str ".subscribe").isSuffixOf a.1) =
      [(subscribeKey e, subscribeMessage e)] := by
    intro e
    have hsubscribe : (str ".subscribe").isSuffixOf (subscribeKey e) = true :=
      isSuffixOf_append_self _ _
    have hsubscribed : (str ".subscribe").isSuffixOf (subscribedKey e) = false :=
      isSuffixOf_append (by decide) (by decide) _
    have hevent : (str ".subscribe").isSuffixOf (eventKey e) = false :=
      isSuffixOf_append (by decide) (by decide) _
    simp only [eventAssignments, List.filter_cons, hsubscribe, hsubscribed, hevent, List.filter_nil,
      if_true, Bool.false_eq_true, if_false]
  have hshared : sharedAssignments.filter (fun a => (str ".subscribe").isSuffixOf a.1) = [] := rfl
  unfold messageAssignments
  rw [List.filter_append, List.filter_append,
    filter_flatMap_nil (filter_methodAssignments (Or.inl rfl)), filter_flatMap_single hevents,
    hshared, List.nil_append, List.append_nil]

theorem filter_event (ctx : DocContext) :
    (messageAssignments ctx).filter (fun a => (str ".event").isSuffixOf a.1) =
      (eventEntries ctx).map fun e => (eventKey e, eventMessage e) := by
  have hevents : ∀ e, (eventAssignments e).filter (fun a => (str ".event").isSuffixOf a.1) =
      [(eventKey e, eventMessage e)] := by
    intro e
    have hsubscribe : (str ".event").isSuffixOf (subscribeKey e) = false :=
      isSuffixOf_append (by decide) (by decide) _
    have hsubscribed : (str ".event").isSuffixOf (subscribedKey e) = false :=
      isSuffixOf_append (by decide) (by decide) _
    have hevent : (str ".event").isSuffixOf (eventKey e) = true := isSuffixOf_append_self _ _
    simp only [eventAssignments, List.filter_cons, hsubscribe, hsubscribed, hevent, List.filter_nil,
      if_true, Bool.false_eq_true, if_false]
  have hshared : sharedAssignments.filter (fun a => (str ".event").isSuffixOf a.1) = [] := rfl
  unfold messageAssignments
  rw [List.filter_append, List.filter_append,
    filter_flatMap_nil (filter_methodAssignments (Or.inr rfl)), filter_flatMap_single hevents,
    hshared, List.nil_append, List.append_nil]

/-! ### What messages and operations are about

The module and the method or event are members of their own, which the texts and tags around them
leave alone. -/

section About

variable {obj : Json} {k : Bytes}

theorem find?_flag {key : String} (h : k ≠ str key) (on : Bool) :
    (flag obj key on).find? k = obj.find? k := by
  unfold flag
  split
  · exact find?_set_ne h
  · rfl

theorem methodTarget?_aboutMethod (h : obj.isObject = true) (e : MethodEntry) :
    methodTarget? (aboutMethod e obj) = some (methodTarget e) := by
  have habout : methodTarget? (about obj (safe e.module.name) "x-logos-method" (safe e.method)) =
      some (methodTarget e) := target_set h (by decide)
  have hsame : ∀ k ∈ [str "x-logos-module", str "x-logos-method"], (aboutMethod e obj).find? k =
      (about obj (safe e.module.name) "x-logos-method" (safe e.method)).find? k := by
    intro k hk
    have hne : ∀ s ∈ ["x-logos-derived", "x-logos-untyped"], k ≠ str s := by
      simp only [List.mem_cons, List.not_mem_nil, or_false] at hk
      rcases hk with rfl | rfl
      · simp [str_inj]
      · simp [str_inj]
    exact (find?_flag (hne _ (by simp)) _).trans (find?_flag (hne _ (by simp)) _)
  rw [← habout]
  unfold methodTarget? target
  rw [hsame _ (by simp), hsame _ (by simp)]

theorem find?_aboutEvent {e : EventEntry} (h : k ≠ str "x-logos-untyped") :
    (aboutEvent e obj).find? k =
      (about obj (safe e.module.name) "x-logos-event" (safe e.event)).find? k := find?_flag h _

theorem eventTarget?_aboutEvent (h : obj.isObject = true) (e : EventEntry) :
    eventTarget? (aboutEvent e obj) = some (eventTarget e) := by
  have habout : eventTarget? (about obj (safe e.module.name) "x-logos-event" (safe e.event)) =
      some (eventTarget e) := target_set h (by decide)
  rw [← habout]
  unfold eventTarget? target
  rw [find?_aboutEvent (by simp [str_inj]), find?_aboutEvent (by simp [str_inj])]

/-- What is about an event is about no method, unless it was before. -/
theorem methodTarget?_aboutEvent (h : obj.find? (str "x-logos-method") = none) (e : EventEntry) :
    methodTarget? (aboutEvent e obj) = none := by
  apply target_of_none
  rw [find?_aboutEvent (by simp [str_inj])]
  exact (find?_set_ne (by simp [str_inj])).trans ((find?_set_ne (by simp [str_inj])).trans h)

theorem isObject_message (key title raw : Bytes) (payload correlationId : Json) :
    (message key title raw payload correlationId).isObject = true :=
  Json.isObject_ite rfl (Json.isObject_set rfl)

theorem target_requestMessage (e : MethodEntry) :
    methodTarget? (requestMessage e) = some (methodTarget e) :=
  methodTarget?_aboutMethod (isObject_message _ _ _ _ _) e

theorem target_subscribeMessage (e : EventEntry) :
    eventTarget? (subscribeMessage e) = some (eventTarget e) :=
  eventTarget?_aboutEvent (isObject_message _ _ _ _ _) e

theorem target_eventMessage (e : EventEntry) :
    eventTarget? (eventMessage e) = some (eventTarget e) := by
  unfold eventMessage
  dsimp only
  apply eventTarget?_aboutEvent
  split
  · exact Json.isObject_set (isObject_message _ _ _ _ _)
  · exact isObject_message _ _ _ _ _

theorem target_methodOperation (e : MethodEntry) :
    methodTarget? (methodOperation e) = some (methodTarget e) :=
  methodTarget?_aboutMethod (isObject_addText (Json.isObject_set (Json.isObject_set rfl)) _) e

theorem target_subscribeOperation (e : EventEntry) : methodTarget? (subscribeOperation e) = none := by
  apply methodTarget?_aboutEvent
  rw [find?_set_ne (by simp [str_inj]), find?_set_ne (by simp [str_inj]), tagged,
    find?_set_ne (by simp [str_inj])]
  rfl

theorem target_eventOperation (e : EventEntry) : methodTarget? (eventOperation e) = none := by
  apply methodTarget?_aboutEvent
  rw [find?_addText (by simp [str_inj]) (by simp [str_inj]), find?_set_ne (by simp [str_inj]), tagged,
    find?_set_ne (by simp [str_inj])]
  rfl

/-- No other operation is about a method. -/
theorem target_otherAssignments (ctx : DocContext) :
    ∀ a ∈ otherAssignments ctx, methodTarget? a.2 = none := by
  intro a ha
  rcases List.mem_append.mp ha with ha | ha
  · obtain ⟨e, -, ha⟩ := List.mem_flatMap.mp ha
    simp only [List.mem_cons, List.not_mem_nil, or_false] at ha
    rcases ha with rfl | rfl
    · exact target_subscribeOperation e
    · exact target_eventOperation e
  · simp only [List.mem_cons, List.not_mem_nil, or_false] at ha
    rcases ha with rfl | rfl
    · rfl
    · rfl

end About

end AsyncApi

end JsonRpcBridge.Docs
