import JsonRpcBridge.Docs.Resolve

/-!
# References of the AsyncAPI document

The messages it refers to are those the builder collected, under keys that need no escaping.

`refs_resolve`: every reference of the three documents resolves in its own.
-/

namespace JsonRpcBridge.Docs

namespace AsyncApi

/-! ## The collected messages

A message is referred to by its key, as a piece of a JSON pointer. So two things are to be shown
of the object that holds the messages: that it has a member for every key the operations mention,
and that no key needs escaping. Both are invariants of the builder; a later message may replace
an earlier one, but it leaves its key in place. -/

/-- An object whose keys are component keys. -/
structure Keyed (messages : Json) : Prop where
  isObject : messages.isObject = true
  keys : ∀ k, messages.contains k = true → ∀ c ∈ k, isKeyChar c = true

theorem Keyed.set {messages v : Json} {k : Bytes} (h : Keyed messages)
    (hk : ∀ c ∈ k, isKeyChar c = true) : Keyed (messages.set k v) := by
  refine ⟨Json.isObject_set h.isObject, ?_⟩
  intro k' hk'
  rcases (contains_set h.isObject _ _).mp hk' with rfl | hk'
  · exact hk
  · exact h.keys k' hk'

theorem isKeyChar_append {a b : Bytes} (ha : ∀ c ∈ a, isKeyChar c = true)
    (hb : ∀ c ∈ b, isKeyChar c = true) : ∀ c ∈ a ++ b, isKeyChar c = true := by
  intro c hc
  rcases List.mem_append.mp hc with hc | hc
  · exact ha c hc
  · exact hb c hc

/-- The messages of a method, of an event, and of neither. -/
def methodMessages (e : MethodEntry) : List Bytes := [requestKey e, resultKey e]

def eventMessages (e : EventEntry) : List Bytes := [subscribeKey e, subscribedKey e, eventKey e]

def sharedMessages : List Bytes :=
  [kErrorMessage, kUnsubscribeMessage, kUnsubscribedMessage, kTerminatedMessage]

/-- `componentKey` and the fixed endings leave only characters that a pointer holds as they are. -/
theorem isKeyChar_methodMessages (e : MethodEntry) :
    ∀ k ∈ methodMessages e, ∀ c ∈ k, isKeyChar c = true := by
  have hkey : ∀ c ∈ methodKey e, isKeyChar c = true := isKeyChar_of_componentKey
  simp only [methodMessages, List.forall_mem_cons, List.not_mem_nil, false_imp_iff, implies_true,
    and_true]
  exact ⟨isKeyChar_append hkey (by decide), isKeyChar_append hkey (by decide)⟩

theorem isKeyChar_eventMessages (e : EventEntry) :
    ∀ k ∈ eventMessages e, ∀ c ∈ k, isKeyChar c = true := by
  have hkey : ∀ c ∈ eventBase e, isKeyChar c = true := isKeyChar_of_componentKey
  simp only [eventMessages, List.forall_mem_cons, List.not_mem_nil, false_imp_iff, implies_true,
    and_true]
  exact ⟨isKeyChar_append hkey (by decide), isKeyChar_append hkey (by decide),
    isKeyChar_append hkey (by decide)⟩

theorem isKeyChar_sharedMessages : ∀ k ∈ sharedMessages, ∀ c ∈ k, isKeyChar c = true := by decide

section Builder

variable {b : Builder} {k : Bytes} {ctx : DocContext}

/-- Adding a method adds its two keys, and takes none away. -/
theorem contains_addMethod (h : b.messages.isObject = true) (e : MethodEntry) (k : Bytes) :
    (b.addMethod e).messages.contains k = true ↔ k ∈ methodMessages e ∨ b.messages.contains k = true := by
  have hset := Json.isObject_set (v := requestMessage e) (k := requestKey e) h
  show ((b.messages.set _ _).set _ _).contains k = true ↔ _
  rw [contains_set hset, contains_set h]
  simp only [methodMessages, List.mem_cons, List.not_mem_nil, or_false]
  tauto

theorem contains_addEvent (h : b.messages.isObject = true) (e : EventEntry) (k : Bytes) :
    (b.addEvent e).messages.contains k = true ↔ k ∈ eventMessages e ∨ b.messages.contains k = true := by
  have hset := Json.isObject_set (v := subscribeMessage e) (k := subscribeKey e) h
  have hset' := Json.isObject_set (v := subscribedMessage e) (k := subscribedKey e) hset
  show (((b.messages.set _ _).set _ _).set _ _).contains k = true ↔ _
  rw [contains_set hset', contains_set hset, contains_set h]
  simp only [eventMessages, List.mem_cons, List.not_mem_nil, or_false]
  tauto

theorem contains_addShared (h : b.messages.isObject = true) (k : Bytes) :
    b.addShared.messages.contains k = true ↔ k ∈ sharedMessages ∨ b.messages.contains k = true := by
  have hset := Json.isObject_set (v := errorMessage) (k := kErrorMessage) h
  have hset' := Json.isObject_set (v := unsubscribeMessage) (k := kUnsubscribeMessage) hset
  have hset'' := Json.isObject_set (v := unsubscribedMessage) (k := kUnsubscribedMessage) hset'
  show ((((b.messages.set _ _).set _ _).set _ _).set _ _).contains k = true ↔ _
  rw [contains_set hset'', contains_set hset', contains_set hset, contains_set h]
  simp only [sharedMessages, List.mem_cons, List.not_mem_nil, or_false]
  tauto

theorem Keyed.addMethod (h : Keyed b.messages) (e : MethodEntry) : Keyed (b.addMethod e).messages := by
  have hkeys := isKeyChar_methodMessages e
  exact (h.set (hkeys _ (by simp [methodMessages]))).set (hkeys _ (by simp [methodMessages]))

theorem Keyed.addEvent (h : Keyed b.messages) (e : EventEntry) : Keyed (b.addEvent e).messages := by
  have hkeys := isKeyChar_eventMessages e
  exact ((h.set (hkeys _ (by simp [eventMessages]))).set (hkeys _ (by simp [eventMessages]))).set
    (hkeys _ (by simp [eventMessages]))

/-! ### All that is collected -/

/-- The builder before what is shared: every method, then every event. -/
def collected (ctx : DocContext) : Builder :=
  (eventEntries ctx).foldl Builder.addEvent ((methodEntries ctx).foldl Builder.addMethod {})

theorem keyed_methods (ctx : DocContext) :
    Keyed ((methodEntries ctx).foldl Builder.addMethod {}).messages :=
  List.foldlRecOn (motive := fun b : Builder => Keyed b.messages) _ _
    ⟨rfl, fun k hk => by cases hk⟩ fun _ hb e _ => hb.addMethod e

/-- Every key added by the folds is a component key. -/
theorem keyed_collected (ctx : DocContext) : Keyed (collected ctx).messages :=
  List.foldlRecOn (motive := fun b : Builder => Keyed b.messages) _ _ (keyed_methods ctx)
    fun _ hb e _ => hb.addEvent e

theorem keyed_asyncApiBuilder (ctx : DocContext) : Keyed (asyncApiBuilder ctx).messages := by
  have hcollected := keyed_collected ctx
  have hkeys := isKeyChar_sharedMessages
  exact (((hcollected.set (hkeys _ (by simp [sharedMessages]))).set
    (hkeys _ (by simp [sharedMessages]))).set (hkeys _ (by simp [sharedMessages]))).set
    (hkeys _ (by simp [sharedMessages]))

/-- What was added under a key is still there in the end. -/
theorem contains_collected (h : (∃ e ∈ methodEntries ctx, k ∈ methodMessages e) ∨
    ∃ e ∈ eventEntries ctx, k ∈ eventMessages e) : (collected ctx).messages.contains k = true := by
  have hmethods : (∃ e ∈ methodEntries ctx, k ∈ methodMessages e) →
      ((methodEntries ctx).foldl Builder.addMethod {}).messages.contains k = true := by
    rintro ⟨e, he, hk⟩
    refine foldl_has (I := fun b : Builder => Keyed b.messages)
      (P := fun b : Builder => b.messages.contains k = true) (fun _ e hb => hb.addMethod e)
      (fun b e hb hc => (contains_addMethod hb.isObject e k).mpr (Or.inr hc))
      ⟨rfl, fun k hk => by cases hk⟩ (Or.inr ⟨e, he, fun b hb => ?_⟩)
    exact (contains_addMethod hb.isObject e k).mpr (Or.inl hk)
  refine foldl_has (I := fun b : Builder => Keyed b.messages)
    (P := fun b : Builder => b.messages.contains k = true) (fun _ e hb => hb.addEvent e)
    (fun b e hb hc => (contains_addEvent hb.isObject e k).mpr (Or.inr hc)) (keyed_methods ctx) ?_
  rcases h with h | ⟨e, he, hk⟩
  · exact Or.inl (hmethods h)
  · exact Or.inr ⟨e, he, fun b hb => (contains_addEvent hb.isObject e k).mpr (Or.inl hk)⟩

/-- The keys of the finished builder: those that are shared, and those of each entry. -/
theorem contains_asyncApiBuilder (h : k ∈ sharedMessages ∨
    (∃ e ∈ methodEntries ctx, k ∈ methodMessages e) ∨ ∃ e ∈ eventEntries ctx, k ∈ eventMessages e) :
    (asyncApiBuilder ctx).messages.contains k = true :=
  (contains_addShared (keyed_collected ctx).isObject k).mpr (h.imp_right contains_collected)

/-- Every message is one of the channel. -/
theorem channelMessages_spec {messages : Json} (h : Keyed messages) :
    (channelMessages messages).isObject = true ∧
      ∀ k, messages.contains k = true → (channelMessages messages).contains k = true := by
  obtain ⟨ms, rfl⟩ := Json.eq_obj_of_isObject h.isObject
  have hobject : (channelMessages (.obj ms)).isObject = true :=
    List.foldlRecOn (motive := fun j : Json => j.isObject = true) ms _ rfl
      fun _ hj _ _ => Json.isObject_set hj
  refine ⟨hobject, ?_⟩
  intro k hk
  obtain ⟨v, hv⟩ := Option.isSome_iff_exists.mp hk
  have hmem : (k, v) ∈ ms := List.mem_of_lookup hv
  refine foldl_has (I := fun j : Json => j.isObject = true) (P := fun j : Json => j.contains k = true)
    (fun _ _ hj => Json.isObject_set hj)
    (fun j kv hj hc => (contains_set hj _ _).mpr (Or.inr hc)) rfl
    (Or.inr ⟨(k, v), hmem, fun j hj => (contains_set hj _ _).mpr (Or.inl rfl)⟩)

end Builder

/-! ## What the emitters refer to

The statement about one emitter is that its value refers only to what resolves. `ok` is the set
of references that do, and `Targets` says what has to be in it for a document with these
messages. `RefsIn` is about a value that may be a reference itself; `Bare` is about an object
that is still under construction, to which members are added. -/

/-- The references that resolve in a document with these messages. -/
structure Targets (ok : Bytes → Prop) (messages : Json) : Prop where
  schemas : ∀ name ∈ [str "JsonRpcId", str "JsonRpcError", str "SubscriptionId",
    str "SubscriptionState", str "NoParams", str "EventGeneration", str "EventTimestamp"],
    Defined ok name
  channel : ok kChannelRef
  correlations : ∀ name ∈ ["requestId", "subscriptionId"],
    ok (str "#/components/correlationIds/" ++ str name)
  ofChannel : ∀ k, messages.contains k = true → ok (kChannelRef ++ str "/messages/" ++ k)
  ofComponents : ∀ k, messages.contains k = true → ok (str "#/components/messages/" ++ k)

section Emitters

variable {ok : Bytes → Prop} {messages obj schema payload correlationId : Json} {k : Bytes}

/-- A reference to a message resolves if the message is there. -/
theorem refsIn_messageRef (ht : Targets ok messages) (h : messages.contains k = true) :
    (messageRef k).RefsIn ok := Json.refsIn_ref (ht.ofChannel k h)

theorem refsIn_byRequestId (ht : Targets ok messages) : byRequestId.RefsIn ok :=
  Json.refsIn_ref (ht.correlations "requestId" (by simp))

theorem refsIn_bySubscription (ht : Targets ok messages) : bySubscription.RefsIn ok :=
  Json.refsIn_ref (ht.correlations "subscriptionId" (by simp))

/-- The schemas that all three documents share. -/
theorem refsIn_shared (ht : Targets ok messages) : ∀ name ∈ [str "JsonRpcId", str "JsonRpcError",
    str "SubscriptionId", str "SubscriptionState", str "NoParams", str "EventGeneration",
    str "EventTimestamp"], (schemaRef name).RefsIn ok :=
  fun name hname => refsIn_schemaRef (ht.schemas name hname)

@[simp] theorem refsIn_constSchema (value : Bytes) : (constSchema value).RefsIn ok :=
  (Json.bare_object (by simp)).refs

/-! ### Payloads and messages -/

theorem refsIn_closedObject {properties required : Json} (hp : properties.RefsIn ok)
    (hr : required.RefsIn ok) : (closedObject properties required).RefsIn ok :=
  (Json.bare_object (by simp [hp, hr])).refs

theorem refsIn_requestPayload (ht : Targets ok messages) (method : Bytes) {params : Json}
    (h : params.RefsIn ok) (required : Bool) : (requestPayload method params required).RefsIn ok := by
  have hid := refsIn_shared ht (str "JsonRpcId") (by simp)
  exact refsIn_closedObject (Json.bare_object (by simp [hid, h])).refs (refsIn_texts _)

theorem refsIn_resultPayload (ht : Targets ok messages) (h : schema.RefsIn ok) :
    (resultPayload schema).RefsIn ok := by
  have hid := refsIn_shared ht (str "JsonRpcId") (by simp)
  exact refsIn_closedObject (Json.bare_object (by simp [hid, h])).refs (refsIn_texts _)

theorem refsIn_notificationPayload (method : Bytes) {params : Json} (h : params.RefsIn ok) :
    (notificationPayload method params).RefsIn ok :=
  refsIn_closedObject (Json.bare_object (by simp [h])).refs (refsIn_texts _)

/-- A message refers to what its payload and its correlation id refer to. -/
theorem bare_message (key title raw : Bytes) (hp : payload.RefsIn ok) (hc : correlationId.RefsIn ok) :
    (message key title raw payload correlationId).Bare ok := by
  have hbase : (Json.object [(str "name", .str key), (str "title", .str title),
      (str "payload", payload), (str "correlationId", correlationId)]).Bare ok :=
    Json.bare_object (by simp [hp, hc])
  unfold message
  dsimp only
  split
  · exact hbase
  · exact hbase.set (by simp) (Json.refsIn_str _)

theorem bare_tagged (h : obj.Bare ok) (module : Bytes) : (tagged obj module).Bare ok := by
  have htag : (Json.object [(str "name", .str module)]).RefsIn ok := (Json.bare_object (by simp)).refs
  exact h.set (by simp) (by simp [htag])

theorem bare_flag (h : obj.Bare ok) {key : String} (hk : key ≠ "$ref") (on : Bool) :
    (flag obj key on).Bare ok := Bare.setIf h (by simpa using hk) (Json.refsIn_bool _)

/-- Neither the tag nor the name of the member is a reference. -/
theorem bare_about (h : obj.Bare ok) (module : Bytes) {kind : String} (hk : kind ≠ "$ref")
    (member : Bytes) : (about obj module kind member).Bare ok :=
  (h.set (by simp) (Json.refsIn_str _)).set (by simpa using hk) (Json.refsIn_str _)

theorem bare_aboutMethod (h : obj.Bare ok) (e : MethodEntry) : (aboutMethod e obj).Bare ok :=
  bare_flag (bare_flag (bare_about h _ (by decide) _) (by decide) _) (by decide) _

theorem bare_aboutEvent (h : obj.Bare ok) (e : EventEntry) : (aboutEvent e obj).Bare ok :=
  bare_flag (bare_about h _ (by decide) _) (by decide) _

theorem bare_bridgeOwn (h : obj.Bare ok) : (bridgeOwn obj).Bare ok :=
  h.set (by simp) (Json.refsIn_bool _)

/-- The request and each of the replies has to be a message of the channel. -/
theorem bare_receiveWithReply (ht : Targets ok messages) {request : Bytes} {replies : List Bytes}
    (hrequest : messages.contains request = true)
    (hreplies : ∀ k ∈ replies, messages.contains k = true) :
    (receiveWithReply request replies).Bare ok := by
  have hchannel : (refTo kChannelRef).RefsIn ok := Json.refsIn_ref ht.channel
  have hmessage := refsIn_messageRef ht hrequest
  have hlist : (Json.arr (replies.map messageRef)).RefsIn ok := by
    apply Json.refsIn_arr_iff.mpr
    intro x hx
    obtain ⟨k, hk, rfl⟩ := List.mem_map.mp hx
    exact refsIn_messageRef ht (hreplies k hk)
  have hreply : (Json.object [(str "channel", refTo kChannelRef),
      (str "messages", .arr (replies.map messageRef))]).RefsIn ok := by
    refine (Json.bare_object ?_).refs
    simp only [List.forall_mem_cons, List.not_mem_nil, false_imp_iff, implies_true, and_true]
    exact ⟨⟨by simp, hchannel⟩, ⟨by simp, hlist⟩⟩
  exact Json.bare_object (by simp [hchannel, hmessage, hreply])

theorem bare_sendOnly (ht : Targets ok messages) {notification : Bytes}
    (h : messages.contains notification = true) : (sendOnly notification).Bare ok := by
  have hchannel : (refTo kChannelRef).RefsIn ok := Json.refsIn_ref ht.channel
  exact Json.bare_object (by simp [hchannel, refsIn_messageRef ht h])

/-! ## Methods and events

One lemma for each message and each operation of an entry. What they need beyond `Targets` is
that the named types of the entry are components of the document, and that a parameter of the
declaration has a name of its own. -/

/-- The object form needs the names of the parameters, the tuple only their types. -/
theorem refsIn_methodParams (ht : Targets ok messages) {e : MethodEntry} (hc : Components ok e.scope)
    (h : ∀ decl, e.decl = some decl → ParamsNamed decl) : (methodParams e).1.RefsIn ok := by
  unfold methodParams
  split
  · exact (Json.bare_object (by simp)).refs
  · rename_i decl hdecl
    split
    · exact refsIn_shared ht _ (by simp)
    · exact (Json.bare_object (by
        simp [(bare_paramsObject hc .draft07 (h decl hdecl)).refs,
          (bare_paramsTuple hc .draft07 decl).refs])).refs

theorem refsIn_methodResult {e : MethodEntry} (hc : Components ok e.scope) :
    (methodResult e).RefsIn ok := by
  unfold methodResult
  split
  · exact (Json.bare_object (by simp)).refs
  · exact refsIn_methodResultSchema hc .draft07 _

theorem bare_requestMessage (ht : Targets ok messages) {e : MethodEntry} (hc : Components ok e.scope)
    (h : ∀ decl, e.decl = some decl → ParamsNamed decl) : (requestMessage e).Bare ok :=
  bare_aboutMethod (bare_message _ _ _ (refsIn_requestPayload ht _ (refsIn_methodParams ht hc h) _)
    (refsIn_byRequestId ht)) e

theorem bare_resultMessage (ht : Targets ok messages) {e : MethodEntry} (hc : Components ok e.scope) :
    (resultMessage e).Bare ok :=
  bare_aboutMethod (bare_message _ _ _ (refsIn_resultPayload ht (refsIn_methodResult hc))
    (refsIn_byRequestId ht)) e

/-- An operation refers to the messages of its method and to the error reply. -/
theorem bare_methodOperation (ht : Targets ok messages) {e : MethodEntry}
    (h : ∀ k ∈ methodMessages e ++ sharedMessages, messages.contains k = true) :
    (methodOperation e).Bare ok := by
  have hop : (receiveWithReply (requestKey e) [resultKey e, kErrorMessage]).Bare ok := by
    refine bare_receiveWithReply ht (h _ (by simp [methodMessages])) ?_
    intro k hk
    apply h
    simp only [List.mem_cons, List.not_mem_nil, or_false] at hk
    rcases hk with rfl | rfl
    · simp [methodMessages]
    · simp [sharedMessages]
  exact bare_aboutMethod (bare_addText ((bare_tagged hop _).set (by simp) (Json.refsIn_str _)) _) e

theorem refsIn_eventData {e : EventEntry} (hc : Components ok e.scope) : (eventData e).RefsIn ok := by
  unfold eventData
  split
  · exact (bare_paramsTuple hc .draft07 _).refs
  · exact (Json.bare_object (by simp)).refs

theorem refsIn_eventParams (ht : Targets ok messages) {e : EventEntry} (hc : Components ok e.scope) :
    (eventParams e).RefsIn ok := by
  have hshared := refsIn_shared ht
  have hdata := refsIn_describe (refsIn_eventData hc) (str "The event's parameters, by position.")
  refine refsIn_closedObject (Json.bare_object ?_).refs (refsIn_texts _)
  simp only [List.forall_mem_cons, List.not_mem_nil, false_imp_iff, implies_true, and_true]
  exact ⟨⟨by simp, hshared _ (by simp)⟩, ⟨by simp, refsIn_constSchema _⟩,
    ⟨by simp, refsIn_constSchema _⟩, ⟨by simp, hdata⟩, ⟨by simp, hshared _ (by simp)⟩,
    ⟨by simp, hshared _ (by simp)⟩⟩

theorem bare_subscribeMessage (ht : Targets ok messages) (e : EventEntry) :
    (subscribeMessage e).Bare ok := by
  have hid := refsIn_shared ht (str "SubscriptionId") (by simp)
  have hparams : (subscribeParams e).RefsIn ok :=
    refsIn_closedObject (Json.bare_object (by simp [hid])).refs (refsIn_texts _)
  exact bare_aboutEvent (bare_message _ _ _ (refsIn_requestPayload ht _ hparams _)
    (refsIn_byRequestId ht)) e

theorem bare_subscribedMessage (ht : Targets ok messages) (e : EventEntry) :
    (subscribedMessage e).Bare ok := by
  have hid := refsIn_shared ht (str "SubscriptionId") (by simp)
  have hstate := refsIn_shared ht (str "SubscriptionState") (by simp)
  have hack : (subscribeAck e).RefsIn ok :=
    refsIn_closedObject (Json.bare_object (by simp [hid, hstate])).refs (refsIn_texts _)
  exact bare_aboutEvent (bare_message _ _ _ (refsIn_resultPayload ht hack) (refsIn_byRequestId ht)) e

theorem bare_eventMessage (ht : Targets ok messages) {e : EventEntry} (hc : Components ok e.scope) :
    (eventMessage e).Bare ok := by
  have hmessage := bare_message (eventKey e) (eventName e) (eventText e)
    (refsIn_notificationPayload (str "rpc.event") (refsIn_eventParams ht hc))
    (refsIn_bySubscription ht)
  unfold eventMessage
  dsimp only
  split
  · exact bare_aboutEvent (hmessage.set (by simp) (refsIn_namesJson _)) e
  · exact bare_aboutEvent hmessage e

/-- It refers to the subscribe request, its acknowledgement and the error reply. -/
theorem bare_subscribeOperation (ht : Targets ok messages) {e : EventEntry}
    (h : ∀ k ∈ eventMessages e ++ sharedMessages, messages.contains k = true) :
    (subscribeOperation e).Bare ok := by
  have hop : (receiveWithReply (subscribeKey e) [subscribedKey e, kErrorMessage]).Bare ok := by
    refine bare_receiveWithReply ht (h _ (by simp [eventMessages])) ?_
    intro k hk
    apply h
    simp only [List.mem_cons, List.not_mem_nil, or_false] at hk
    rcases hk with rfl | rfl
    · simp [eventMessages]
    · simp [sharedMessages]
  exact bare_aboutEvent (((bare_tagged hop _).set (by simp) (Json.refsIn_str _)).set (by simp)
    (Json.refsIn_str _)) e

theorem bare_eventOperation (ht : Targets ok messages) {e : EventEntry}
    (h : ∀ k ∈ eventMessages e, messages.contains k = true) : (eventOperation e).Bare ok := by
  have hop := bare_sendOnly ht (h (eventKey e) (by simp [eventMessages]))
  exact bare_aboutEvent (bare_addText ((bare_tagged hop _).set (by simp) (Json.refsIn_str _)) _) e

/-! ## What is no module's

The error message, unsubscribing and terminations: they are there once, and refer to shared
schemas alone. -/

theorem bare_errorMessage (ht : Targets ok messages) : errorMessage.Bare ok := by
  have hid := refsIn_shared ht (str "JsonRpcId") (by simp)
  have herror := refsIn_shared ht (str "JsonRpcError") (by simp)
  have hpayload : (closedObject (Json.object [(str "jsonrpc", constSchema (str "2.0")),
      (str "id", schemaRef (str "JsonRpcId")), (str "error", schemaRef (str "JsonRpcError"))])
      (texts ["jsonrpc", "id", "error"])).RefsIn ok :=
    refsIn_closedObject (Json.bare_object (by simp [hid, herror])).refs (refsIn_texts _)
  exact bare_bridgeOwn (bare_addText (bare_message _ _ _ hpayload (refsIn_byRequestId ht)) _)

theorem bare_unsubscribeMessage (ht : Targets ok messages) : unsubscribeMessage.Bare ok := by
  have hid := refsIn_shared ht (str "SubscriptionId") (by simp)
  have hparams : (closedObject (Json.object [(str "subscription", schemaRef (str "SubscriptionId"))])
      (texts ["subscription"])).RefsIn ok :=
    refsIn_closedObject (Json.bare_object (by simp [hid])).refs (refsIn_texts _)
  exact bare_bridgeOwn (bare_message _ _ _ (refsIn_requestPayload ht _ hparams _)
    (refsIn_byRequestId ht))

theorem bare_unsubscribedMessage (ht : Targets ok messages) : unsubscribedMessage.Bare ok := by
  have hid := refsIn_shared ht (str "SubscriptionId") (by simp)
  have hack : (closedObject (Json.object [(str "subscription", schemaRef (str "SubscriptionId")),
      (str "operation", constSchema (str "unsubscribe"))])
      (texts ["subscription", "operation"])).RefsIn ok :=
    refsIn_closedObject (Json.bare_object (by simp [hid])).refs (refsIn_texts _)
  exact bare_bridgeOwn (bare_message _ _ _ (refsIn_resultPayload ht hack) (refsIn_byRequestId ht))

theorem bare_terminatedMessage (ht : Targets ok messages) : terminatedMessage.Bare ok := by
  have hid := refsIn_shared ht (str "SubscriptionId") (by simp)
  refine bare_bridgeOwn (bare_message _ _ _ (refsIn_notificationPayload _ ?_) (refsIn_bySubscription ht))
  refine refsIn_closedObject (Json.bare_object ?_).refs (refsIn_texts _)
  simp only [List.forall_mem_cons, List.not_mem_nil, false_imp_iff, implies_true, and_true]
  exact ⟨⟨by simp, hid⟩, ⟨by simp, (bare_typeIs _).refs⟩, ⟨by simp, (bare_typeIs _).refs⟩,
    ⟨by simp, Json.refsIn_of_noRefs (by decide)⟩⟩

theorem bare_describedOperation (h : obj.Bare ok) (title summary description : Bytes) :
    (describedOperation obj title summary description).Bare ok :=
  bare_bridgeOwn (((h.set (by simp) (Json.refsIn_str _)).set (by simp) (Json.refsIn_str _)).set
    (by simp) (Json.refsIn_str _))

theorem bare_unsubscribeOperation (ht : Targets ok messages)
    (h : ∀ k ∈ sharedMessages, messages.contains k = true) : unsubscribeOperation.Bare ok := by
  refine bare_describedOperation (bare_receiveWithReply ht (h _ (by simp [sharedMessages])) ?_) _ _ _
  intro k hk
  apply h
  simp only [List.mem_cons, List.not_mem_nil, or_false] at hk
  rcases hk with rfl | rfl
  · simp [sharedMessages]
  · simp [sharedMessages]

theorem bare_terminatedOperation (ht : Targets ok messages)
    (h : ∀ k ∈ sharedMessages, messages.contains k = true) : terminatedOperation.Bare ok :=
  bare_describedOperation (bare_sendOnly ht (h _ (by simp [sharedMessages]))) _ _ _

end Emitters

/-! ## The builder

What is collected may refer to messages that are collected later. So the emitters are judged
against the messages of the finished builder, not against those there are at the time: `Targets`
is about that object throughout, and the folds below only carry along that all has been sound so
far. -/

/-- What is collected refers only to what resolves. -/
structure Builder.Sound (ok : Bytes → Prop) (b : Builder) : Prop where
  messages : b.messages.Bare ok
  operations : b.operations.Bare ok

section Sound

variable {ok : Bytes → Prop} {messages : Json} {b : Builder} {ctx : DocContext}

/-- A key is never `$ref`, whose first character is none of a key. -/
theorem ne_ref_of_isKeyChar {k : Bytes} (h : ∀ c ∈ k, isKeyChar c = true) : k ≠ kRef := by
  rintro rfl
  exact absurd (h 0x24 (by decide)) (by decide)

/-- What one method adds refers to its own messages, and to the shared ones. -/
theorem Builder.Sound.addMethod (hb : b.Sound ok) (ht : Targets ok messages) {e : MethodEntry}
    (hc : Components ok e.scope) (hp : ∀ decl, e.decl = some decl → ParamsNamed decl)
    (h : ∀ k ∈ methodMessages e ++ sharedMessages, messages.contains k = true) :
    (b.addMethod e).Sound ok := by
  have hkey : ∀ k ∈ methodMessages e, k ≠ kRef :=
    fun k hk => ne_ref_of_isKeyChar (isKeyChar_methodMessages e k hk)
  refine ⟨?_, ?_⟩
  · exact (hb.messages.set (hkey _ (by simp [methodMessages])) (bare_requestMessage ht hc hp).refs).set
      (hkey _ (by simp [methodMessages])) (bare_resultMessage ht hc).refs
  · exact hb.operations.set (ne_ref_of_isKeyChar isKeyChar_of_componentKey)
      (bare_methodOperation ht h).refs

theorem Builder.Sound.addEvent (hb : b.Sound ok) (ht : Targets ok messages) {e : EventEntry}
    (hc : Components ok e.scope)
    (h : ∀ k ∈ eventMessages e ++ sharedMessages, messages.contains k = true) :
    (b.addEvent e).Sound ok := by
  have hkey : ∀ k ∈ eventMessages e, k ≠ kRef :=
    fun k hk => ne_ref_of_isKeyChar (isKeyChar_eventMessages e k hk)
  have hsubscribe := hkey (subscribeKey e) (by simp [eventMessages])
  have hevent := hkey (eventKey e) (by simp [eventMessages])
  refine ⟨?_, ?_⟩
  · exact ((hb.messages.set hsubscribe (bare_subscribeMessage ht e).refs).set
      (hkey _ (by simp [eventMessages])) (bare_subscribedMessage ht e).refs).set hevent
      (bare_eventMessage ht hc).refs
  · exact (hb.operations.set hsubscribe (bare_subscribeOperation ht h).refs).set hevent
      (bare_eventOperation ht fun k hk => h k (List.mem_append_left _ hk)).refs

theorem Builder.Sound.addShared (hb : b.Sound ok) (ht : Targets ok messages)
    (h : ∀ k ∈ sharedMessages, messages.contains k = true) : b.addShared.Sound ok := by
  have hkey : ∀ k ∈ sharedMessages, k ≠ kRef := by decide
  refine ⟨?_, ?_⟩
  · exact (((hb.messages.set (hkey _ (by simp [sharedMessages])) (bare_errorMessage ht).refs).set
      (hkey _ (by simp [sharedMessages])) (bare_unsubscribeMessage ht).refs).set
      (hkey _ (by simp [sharedMessages])) (bare_unsubscribedMessage ht).refs).set
      (hkey _ (by simp [sharedMessages])) (bare_terminatedMessage ht).refs
  · exact (hb.operations.set (hkey _ (by simp [sharedMessages])) (bare_unsubscribeOperation ht h).refs).set
      (hkey _ (by simp [sharedMessages])) (bare_terminatedOperation ht h).refs

/-- Every method, then every event, then what is shared. -/
theorem sound_asyncApiBuilder (ht : Targets ok (asyncApiBuilder ctx).messages)
    (hc : ∀ m ∈ ctx.modules, Components ok (moduleScope m)) (h : ∀ m ∈ ctx.modules, Named m) :
    (asyncApiBuilder ctx).Sound ok := by
  have hempty : ({} : Builder).Sound ok := ⟨Json.bare_object (by simp), Json.bare_object (by simp)⟩
  have hshared : ∀ k ∈ sharedMessages, (asyncApiBuilder ctx).messages.contains k = true :=
    fun k hk => contains_asyncApiBuilder (Or.inl hk)
  refine Builder.Sound.addShared ?_ ht hshared
  refine List.foldlRecOn _ _ (List.foldlRecOn _ _ hempty fun b hb e he => ?_) fun b hb e he => ?_
  · obtain ⟨m, hm, hscope⟩ := scope_of_method he
    refine hb.addMethod ht (hscope ▸ hc m hm) (fun decl => paramsNamed_decl h he) ?_
    intro k hk
    rcases List.mem_append.mp hk with hk | hk
    · exact contains_asyncApiBuilder (Or.inr (Or.inl ⟨e, he, hk⟩))
    · exact hshared k hk
  · obtain ⟨m, hm, hscope⟩ := scope_of_event he
    refine hb.addEvent ht (hscope ▸ hc m hm) ?_
    intro k hk
    rcases List.mem_append.mp hk with hk | hk
    · exact contains_asyncApiBuilder (Or.inr (Or.inr ⟨e, he, hk⟩))
    · exact hshared k hk

/-- The channel refers to the messages under `components`, one by one. -/
theorem refsIn_channelMessages (hkeyed : Keyed messages) (ht : Targets ok messages) :
    (channelMessages messages).RefsIn ok := by
  obtain ⟨ms, rfl⟩ := Json.eq_obj_of_isObject hkeyed.isObject
  refine (List.foldlRecOn (motive := fun j : Json => j.Bare ok) ms _ (Json.bare_object (by simp))
    fun j hj kv hkv => ?_).refs
  have hcontains : Json.contains kv.1 (.obj ms) = true :=
    List.lookup_isSome_iff.mpr ⟨kv, hkv, by simp⟩
  exact hj.set (ne_ref_of_isKeyChar (hkeyed.keys _ hcontains))
    (Json.refsIn_ref (ht.ofComponents _ hcontains))

end Sound

/-! ## What resolves

In the document itself a reference is followed member by member. The chains of `find?` below are
the paths that the emitters use: to the schemas, to the correlation ids, and to the messages both
under `components` and in the channel. -/

section Document

variable {ctx : DocContext}

/-- The value of the member `components`. -/
def components (ctx : DocContext) : Json :=
  Json.object [(str "schemas", asyncApiSchemas ctx), (str "messages", (asyncApiBuilder ctx).messages),
    (str "correlationIds", correlationIds)]

theorem find?_components : (buildAsyncApi ctx).find? (str "components") = some (components ctx) := rfl

theorem find?_schemas : (components ctx).find? (str "schemas") = some (asyncApiSchemas ctx) := rfl

theorem find?_messages :
    (components ctx).find? (str "messages") = some (asyncApiBuilder ctx).messages := rfl

theorem find?_correlationIds :
    (components ctx).find? (str "correlationIds") = some correlationIds := rfl

theorem find?_channels : (buildAsyncApi ctx).find? (str "channels") =
    some (asyncApiChannels ctx (asyncApiBuilder ctx).messages) := rfl

theorem defined_shared {name : Bytes} (h : schemaComponents.contains (componentKey name) = true) :
    Defined (Resolves (buildAsyncApi ctx)) name :=
  defined_of_contains find?_components find?_schemas (contains_records rfl (Or.inl h))

/-- The schemas a typed module refers to are the shared ones and its own records, and both are
there. -/
theorem components_scope {m : ModuleDoc} (hm : m ∈ ctx.modules) :
    Components (Resolves (buildAsyncApi ctx)) (moduleScope m) := by
  refine components_moduleScope (defined_shared (by decide)) (defined_shared (by decide))
    (defined_shared (by decide)) ?_ hm
  intro m hm name hname
  exact defined_record find?_components find?_schemas
    (contains_records rfl (Or.inr ⟨m, hm, name, hname, rfl⟩))

/-- Everything that the emitters may refer to resolves in the document. -/
theorem targets (ctx : DocContext) :
    Targets (Resolves (buildAsyncApi ctx)) (asyncApiBuilder ctx).messages := by
  -- a message key is a component key, so it stands in the pointer unescaped
  have hkeyed := keyed_asyncApiBuilder ctx
  obtain ⟨channel, hchannel⟩ : ∃ channel,
      (asyncApiChannels ctx (asyncApiBuilder ctx).messages).find? kChannel = some channel ∧
        channel.find? (str "messages") =
          some (channelMessages (asyncApiBuilder ctx).messages) := ⟨_, rfl, rfl⟩
  refine ⟨?schemas, ?channel, ?correlations, ?ofChannel, ?ofComponents⟩
  case schemas =>
    have hnames : ∀ name ∈ [str "JsonRpcId", str "JsonRpcError", str "SubscriptionId",
        str "SubscriptionState", str "NoParams", str "EventGeneration", str "EventTimestamp"],
        schemaComponents.contains (componentKey name) = true := by decide
    exact fun name hname => defined_shared (hnames name hname)
  case channel =>
    have hspelling : kChannelRef = 0x23 :: 0x2F :: [0x2F].intercalate [str "channels", kChannel] := by
      decide
    have hfollow : (buildAsyncApi ctx).follow [str "channels", kChannel] = some channel := by
      rw [follow_cons find?_channels, follow_cons hchannel.1]
      rfl
    exact hspelling ▸ resolves_of_follow (by simp) (by decide) hfollow
  case correlations =>
    have hnames : ∀ name ∈ ["requestId", "subscriptionId"],
        correlationIds.contains (str name) = true ∧ ∀ c ∈ str name, plainByte c = true := by decide
    have hspelling : str "#/components/correlationIds/" =
        str "#/components/" ++ str "correlationIds" ++ str "/" := by decide
    intro name hname
    rw [hspelling]
    exact resolves_component find?_components find?_correlationIds (hnames name hname).1 (by decide)
      (hnames name hname).2
  case ofChannel =>
    intro k hk
    have hplain : ∀ c ∈ k, plainByte c = true :=
      fun c hc => plainByte_of_isKeyChar (hkeyed.keys k hk c hc)
    obtain ⟨target, htarget⟩ := exists_of_contains ((channelMessages_spec hkeyed).2 k hk)
    have hspelling : kChannelRef ++ str "/messages/" ++ k =
        0x23 :: 0x2F :: [0x2F].intercalate [str "channels", kChannel, str "messages", k] := by
      have hhead : kChannelRef ++ str "/messages/" = 0x23 :: 0x2F :: (str "channels" ++ [0x2F] ++
          (kChannel ++ [0x2F] ++ (str "messages" ++ [0x2F]))) := by decide
      rw [List.intercalate_cons_of_ne_nil (by simp), List.intercalate_cons_of_ne_nil (by simp),
        List.intercalate_cons_of_ne_nil (by simp), hhead]
      simp
    -- the four steps from the root of the document to the message
    have hfollow : (buildAsyncApi ctx).follow [str "channels", kChannel, str "messages", k] =
        some target := by
      rw [follow_cons find?_channels, follow_cons hchannel.1, follow_cons hchannel.2,
        follow_cons htarget]
      rfl
    rw [hspelling]
    refine resolves_of_follow (by simp) ?_ hfollow
    simp only [List.forall_mem_cons, List.not_mem_nil, false_imp_iff, implies_true, and_true]
    exact ⟨by decide, by decide, by decide, hplain⟩
  case ofComponents =>
    intro k hk
    have hspelling : str "#/components/messages/" =
        str "#/components/" ++ str "messages" ++ str "/" := by decide
    rw [hspelling]
    exact resolves_component find?_components find?_messages hk (by decide)
      fun c hc => plainByte_of_isKeyChar (hkeyed.keys k hk c hc)

end Document

theorem bare_schemaComponents {ok : Bytes → Prop} : schemaComponents.Bare ok := by
  refine Json.bare_object ?_
  simp only [List.forall_mem_cons, List.not_mem_nil, false_imp_iff, implies_true, and_true]
  exact ⟨⟨by simp, Json.refsIn_of_noRefs (by decide)⟩, ⟨by simp, Json.refsIn_of_noRefs (by decide)⟩,
    ⟨by simp, Json.refsIn_of_noRefs (by decide)⟩, ⟨by simp, Json.refsIn_of_noRefs (by decide)⟩, ⟨by simp, Json.refsIn_of_noRefs (by decide)⟩,
    ⟨by simp, Json.refsIn_of_noRefs (by decide)⟩, ⟨by simp, Json.refsIn_of_noRefs (by decide)⟩, ⟨by simp, Json.refsIn_of_noRefs (by decide)⟩,
    ⟨by simp, Json.refsIn_of_noRefs (by decide)⟩, ⟨by simp, Json.refsIn_of_noRefs (by decide)⟩⟩

theorem refsIn_closeCode {ok : Bytes → Prop} (code : Nat) (name : String) (description : Bytes) :
    (closeCode code name description).RefsIn ok := (Json.bare_object (by simp)).refs

theorem refsIn_asyncApiServers {ok : Bytes → Prop} (ctx : DocContext) :
    (asyncApiServers ctx).RefsIn ok := by
  have hserver : (Json.object [(str "host", .str (hostPort ctx)), (str "protocol", text "ws"),
      (str "description", text ("Loopback only. Text frames only; Host and Origin are checked on " ++
        "the upgrade."))]).RefsIn ok := by
    refine (Json.bare_object ?_).refs
    simp only [List.forall_mem_cons, List.not_mem_nil, false_imp_iff, implies_true, and_true]
    exact ⟨⟨by simp, Json.refsIn_str _⟩, ⟨by simp, refsIn_text _⟩, ⟨by simp, refsIn_text _⟩⟩
  refine (Json.bare_object ?_).refs
  simp only [List.forall_mem_cons, List.not_mem_nil, false_imp_iff, implies_true, and_true]
  exact ⟨by simp, hserver⟩

theorem refsIn_asyncApiChannels {ok : Bytes → Prop} (ctx : DocContext) {messages : Json}
    (h : (channelMessages messages).RefsIn ok) : (asyncApiChannels ctx messages).RefsIn ok := by
  have hprotocol : (Json.object [(str "type", text "string"), (str "const", .str (safe ctx.subprotocol)),
      (str "description", text "The subprotocol to offer.")]).RefsIn ok :=
    (Json.bare_object (by simp)).refs
  have hproperties : (Json.object [(str "Sec-WebSocket-Protocol", Json.object [
      (str "type", text "string"), (str "const", .str (safe ctx.subprotocol)),
      (str "description", text "The subprotocol to offer.")])]).RefsIn ok :=
    (Json.bare_object (by simp [hprotocol])).refs
  have hheaders : (asyncApiHeaders ctx).RefsIn ok := (Json.bare_object (by simp [hproperties])).refs
  have hws : (Json.object [(str "method", text "GET"), (str "headers", asyncApiHeaders ctx),
      (str "bindingVersion", text "0.1.0")]).RefsIn ok := (Json.bare_object (by simp [hheaders])).refs
  have hbindings : (Json.object [(str "ws", Json.object [(str "method", text "GET"),
      (str "headers", asyncApiHeaders ctx), (str "bindingVersion", text "0.1.0")])]).RefsIn ok :=
    (Json.bare_object (by simp [hws])).refs
  refine (Json.bare_object ?_).refs
  simp only [List.forall_mem_cons, List.not_mem_nil, false_imp_iff, implies_true, and_true]
  refine ⟨by decide, (Json.bare_object ?_).refs⟩
  simp only [List.forall_mem_cons, List.not_mem_nil, false_imp_iff, implies_true, and_true]
  exact ⟨⟨by simp, Json.refsIn_str _⟩, ⟨by simp, refsIn_text _⟩, ⟨by simp, refsIn_text _⟩,
    ⟨by simp, h⟩, ⟨by simp, hbindings⟩⟩

end AsyncApi

/-- **The AsyncAPI document.** -/
theorem refsResolve_buildAsyncApi {ctx : DocContext} (h : ∀ m ∈ ctx.modules, Named m) :
    RefsResolve (buildAsyncApi ctx) := by
  have ht := AsyncApi.targets ctx
  have hsound := AsyncApi.sound_asyncApiBuilder ht (fun m hm => AsyncApi.components_scope hm) h
  have hchannel := AsyncApi.refsIn_asyncApiChannels ctx
    (AsyncApi.refsIn_channelMessages (AsyncApi.keyed_asyncApiBuilder ctx) ht)
  have hinfo : (Json.object [(str "title", .str (safe ctx.title)),
      (str "version", .str (safe ctx.bridgeVersion)),
      (str "description", .str AsyncApi.kInfoDescription)]).RefsIn (Resolves (buildAsyncApi ctx)) :=
    (Json.bare_object (by simp)).refs
  have hschemas : (asyncApiSchemas ctx).Bare (Resolves (buildAsyncApi ctx)) := by
    refine bare_records (fun m hm => ?_) (fun m hm => (h m (List.mem_filter.mp hm).1).fields)
      AsyncApi.bare_schemaComponents
    have hscope := AsyncApi.components_scope (List.mem_filter.mp hm).1
    rwa [moduleScope, if_pos (List.mem_filter.mp hm).2] at hscope
  have hcorrelations : AsyncApi.correlationIds.noRefs = true := by decide
  have hcomponents : (AsyncApi.components ctx).RefsIn (Resolves (buildAsyncApi ctx)) :=
    (Json.bare_object (by
      simp [hschemas.refs, hsound.messages.refs, Json.refsIn_of_noRefs hcorrelations])).refs
  have hcodes : (closeCodes ctx.limits).RefsIn (Resolves (buildAsyncApi ctx)) := by
    apply Json.refsIn_arr_iff.mpr
    simp only [List.forall_mem_cons, List.not_mem_nil, false_imp_iff, implies_true, and_true]
    exact ⟨AsyncApi.refsIn_closeCode _ _ _, AsyncApi.refsIn_closeCode _ _ _,
      AsyncApi.refsIn_closeCode _ _ _, AsyncApi.refsIn_closeCode _ _ _⟩
  have hservers := @AsyncApi.refsIn_asyncApiServers (Resolves (buildAsyncApi ctx)) ctx
  have hoperations := hsound.operations.refs
  -- what resolves is fixed from here on; the document itself may be unfolded
  unfold RefsResolve
  generalize Resolves (buildAsyncApi ctx) = ok at *
  unfold buildAsyncApi
  refine (Json.bare_object ?_).refs
  simp only [List.forall_mem_cons, List.not_mem_nil, false_imp_iff, implies_true, and_true]
  exact ⟨⟨by simp, by simp⟩, ⟨by simp, hinfo⟩, ⟨by simp, refsIn_text _⟩, ⟨by simp, hservers⟩,
    ⟨by simp, hchannel⟩, ⟨by simp, hoperations⟩, ⟨by simp, hcomponents⟩, ⟨by simp, hcodes⟩,
    ⟨by simp, refsIn_xLogosModules ctx⟩⟩

/-! ## Every reference resolves

The three documents differ in where their components stand. Each has been followed from its root. -/

/-- In each document, every member `$ref` is alone in its object, a string `#/…`, and points to a
value of that document, whatever the modules are. -/
theorem refs_resolve (ctx : DocContext) (h : ∀ m ∈ ctx.modules, Named m) :
    RefsResolve (buildOpenRpc ctx) ∧ RefsResolve (buildOpenApi ctx) ∧
      RefsResolve (buildAsyncApi ctx) :=
  ⟨refsResolve_buildOpenRpc h, refsResolve_buildOpenApi h, refsResolve_buildAsyncApi h⟩

/-- A typed module with a record that a method takes and returns, and an event. -/
def chatDoc : ModuleDoc where
  name := str "chat"
  status := kStatusOk
  exposedMethods := [str "post"]
  exposedEvents := [str "posted"]
  interface :=
    let message := Json.object [(str "kind", text "named"), (str "name", text "Message")]
    let slot := Json.object [(str "name", text "message"), (str "type", message)]
    Json.object [
      (str "types", .arr [Json.object [(str "name", text "Message"), (str "fields", .arr [slot])]]),
      (str "methods", .arr [Json.object [(str "name", text "post"), (str "params", .arr [slot]),
        (str "returnType", message)]]),
      (str "events", .arr [Json.object [(str "name", text "posted"), (str "params", .arr [slot])]])]

theorem refs_resolve_chat : RefsResolve (buildAsyncApi ⟨str "1.0", str "Bridge", str "127.0.0.1", 8645,
    str "/ws", str "/rpc", str "jsonrpc-bridge.v1", {}, [chatDoc]⟩) := by
  refine (refs_resolve _ ?_).2.2
  intro m hm
  obtain rfl := List.mem_singleton.mp hm
  exact ⟨by unfold FieldsNamed; decide, by unfold ParamsNamed; decide⟩

end JsonRpcBridge.Docs
