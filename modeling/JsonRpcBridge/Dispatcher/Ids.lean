import JsonRpcBridge.Config.Parse
import JsonRpcBridge.Dispatcher.Outcomes

/-!
# The id of a response

`handleOne` answers a request that parsed under its own id, on every path and whatever its job is
told (`Answers.carries`). A request that did not parse is answered under `null`, and one way
not to parse comes after the id was read: params that are neither an object nor an array
(`carries_id_iff`).
-/

namespace JsonRpcBridge.Dispatcher

open Subscriptions

/-- Every response that the outcome leads to carries `id`. -/
def Outcome.Carries (id : Json) : Outcome → Prop
  | .fill response => response.find? (str "id") = some id
  | .submit job => ∀ a, (job.response a).find? (str "id") = some id

theorem find_id_makeError (id : Json) (e : MappedError) :
    (makeError id e).find? (str "id") = some id := rfl

theorem find_id_makeResult (id result : Json) :
    (makeResult id result).find? (str "id") = some id := rfl

theorem find_id_callResponse (id value : Json) (e : CallError) :
    (callResponse id value e).find? (str "id") = some id := by
  unfold callResponse
  split
  · exact find_id_makeError _ _
  · split
    · exact find_id_makeError _ _
    · exact find_id_makeResult _ _

/-- Every answer is under the id it is given. -/
theorem Answers.carries {cfg : BridgeConfig} {b : Bridge} {id params : Json}
    {call : Except JsonError (Except MappedError CallTarget)} {out : Outcome}
    (h : Answers cfg b id params call out) : out.Carries id := by
  cases h with
  | called t args timeoutMs => exact fun a => find_id_callResponse _ _ _
  | subscribing t sid =>
      intro a
      show (if a.added then _ else _ : Json).find? _ = _
      split
      · exact find_id_makeResult _ _
      · exact find_id_makeError _ _
  | discovering => exact fun a => find_id_makeResult _ _
  | _ => rfl

/-! ## When the id is lost

The id is read before the params, and an error about the params is still made with the id null. -/

/-- **Responses carry their request's id**, exactly when the id is null anyway or the params, if
there are any, are an object or an array. -/
theorem carries_id_iff (cfg : BridgeConfig) (lib : Nlohmann) (b : Bridge) (raw id : Json)
    (method : Bytes) (hversion : raw.find? (str "jsonrpc") = some (.str (str "2.0")))
    (hmethod : raw.find? (str "method") = some (.str method))
    (hid : raw.find? (str "id") = some id) (hkind : isRequestId id = true) :
    (∀ out b', handleOne cfg lib b raw = .ok (out, b') → out.Carries id) ↔
      (id = .null ∨
        ∀ p, raw.find? (str "params") = some p → p.isObject = true ∨ p.isArray = true) := by
  constructor
  · intro hcarries
    by_contra hnot
    obtain ⟨hnull, hbad⟩ := not_or.mp hnot
    simp only [not_forall, not_or, Bool.not_eq_true] at hbad
    obtain ⟨p, hp, hobject, harray⟩ := hbad
    -- params of another kind are an error of the parser, which is answered with id null
    have hrefused : parseRequest raw =
        .ok (.error (invalidParams (str "params must be an object or array"))) := by
      have hgood : (id.isString || id.isNumber || id.isNull) = true := hkind
      rw [parseRequest_eq hversion hmethod]
      dsimp only
      rw [hid, hp, Option.getD_some, Option.getD_some, hgood, hobject, harray, Bool.not_true,
        Bool.and_false]
      rfl
    have hanswer := hcarries _ _ (handleOne_of_refused hrefused)
    have heq : some Json.null = some id := hanswer
    exact hnull (Option.some.inj heq).symm
  · intro hcondition out b' h
    cases hparse : parseRequest raw with
    | error e =>
        rw [handleOne, hparse] at h
        cases h
    | ok parsed =>
        cases parsed with
        | error err =>
            -- with good params nothing is left for the parser to refuse
            rcases hcondition with rfl | hparams
            · rw [handleOne_of_refused hparse] at h
              cases h
              exact find_id_makeError _ _
            · have hgood := parseRequest_of_params hversion hmethod hparams
              rw [hid] at hgood
              dsimp only at hgood
              rw [if_pos hkind, hparse] at hgood
              cases hgood
        | ok req =>
            rcases answers_handleOne h with ⟨err, herr, -⟩ | ⟨req', hreq', hanswers⟩
            · rw [hparse] at herr
              cases herr
            · obtain ⟨hreq, -⟩ := parseRequest_parts hreq'
              rw [hid, Option.getD_some] at hreq
              exact hreq ▸ hanswers.carries

/-- `{"jsonrpc":"2.0","id":7,"method":"rpc.ping"}`. -/
def pingSeven : Json :=
  Json.object [(str "jsonrpc", .str (str "2.0")), (str "id", .uint 7), (str "method", .str kPing)]

theorem carries_id_pingSeven : ∃ out b',
    handleOne minimalConfig minimalLib Bridge.undiscovered pingSeven = .ok (out, b') ∧
      out.Carries (.uint 7) := by
  have hanswer : handleOne minimalConfig minimalLib Bridge.undiscovered pingSeven =
      .ok (.fill (makeResult (.uint 7) (.str (str "pong"))), Bridge.undiscovered) := rfl
  have hcarries := (carries_id_iff minimalConfig minimalLib Bridge.undiscovered pingSeven (.uint 7)
    kPing rfl rfl rfl rfl).mpr (Or.inr fun p hp => nomatch hp)
  exact ⟨_, _, hanswer, hcarries _ _ hanswer⟩

/-- `{"jsonrpc":"2.0","id":7,"method":"m1.x","params":null}`. -/
def nullParams : Json :=
  Json.object [(str "jsonrpc", .str (str "2.0")), (str "id", .uint 7),
    (str "method", .str (str "m1.x")), (str "params", .null)]

/-- It is answered under the id null. -/
theorem not_carries_id_nullParams :
    ¬∀ out b', handleOne minimalConfig minimalLib Bridge.undiscovered nullParams = .ok (out, b') →
      out.Carries (.uint 7) := by
  intro h
  have hanswer : handleOne minimalConfig minimalLib Bridge.undiscovered nullParams =
      .ok (.fill (makeError .null (invalidParams (str "params must be an object or array"))),
        Bridge.undiscovered) := rfl
  have heq : some Json.null = some (Json.uint 7) := h _ _ hanswer
  cases heq

end JsonRpcBridge.Dispatcher
