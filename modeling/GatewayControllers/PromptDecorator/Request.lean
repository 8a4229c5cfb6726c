import GatewayControllers.PromptDecorator.Path
import GatewayControllers.PromptDecorator.Params

/-! prompt-decorator | OnRequest, createDecorationMessages | src/unnamed/part_001, lines 194–342

    OnRequest reads the request body as a JSON object and the value at the policy's JSONPath.
    A string is decorated with the text, before it or after it with a space between. An array
    whose elements are all objects gets the decoration messages before or after them. The
    decorated value is then written back with updateStringAtPath or updateArrayAtPath. Any
    other value, or a target that does not suit the configured style, gives an error response.

    The JSONPath lookup is utils.ExtractValueFromJsonpath of the gateway SDK, which the
    repository does not define; the model takes it, and fmt's texts for the malformed entries,
    as an `Env`. Whatever the lookup returns, a request either gets an error response, or goes
    upstream with the decorated value at the location its path resolves to and every other
    location unchanged (`onRequest_writes_decoration`). The default path of the text style
    addresses the content of the last message (`resolvePath_default_text`). -/

namespace PromptDecorator
open GoJson

/-- What OnRequest takes from outside the repository: the gateway SDK's
    utils.ExtractValueFromJsonpath, fmt's `%v` text of a decoded value, and the text of
    `fmt.Errorf(text)`, which reads the text as a format. -/
structure Env where
  extractValueFromJsonpath : JsonObject → String → Except String JsonValue
  formatValue : JsonValue → String
  errorf : String → String

/-- `%T` of a decoded value. -/
def goTypeName : JsonValue → String
  | .null => "<nil>"
  | .bool _ => "bool"
  | .num _ => "float64"
  | .str _ => "string"
  | .arr _ => "[]interface \x7b\x7d"
  | .obj _ => "map[string]interface \x7b\x7d"

/-- The loop over the target array from index `i`: its maps, and the malformed entries (the
    index and the element) of the other elements. -/
def collectMessages : Nat → List JsonValue → List JsonObject × List (Nat × JsonValue)
  | _, [] => ([], [])
  | i, .obj msg :: rest => let r := collectMessages (i + 1) rest; (msg :: r.1, r.2)
  | i, item :: rest => let r := collectMessages (i + 1) rest; (r.1, (i, item) :: r.2)

/-- The text of one malformed entry. -/
def malformedEntry (env : Env) (e : Nat × JsonValue) : String :=
  "index " ++ toString e.1 ++ ": type=" ++ goTypeName e.2 ++ ", value=" ++ env.formatValue e.2

/-- createDecorationMessages. -/
def createDecorationMessages (params : PromptDecoratorPolicyParams) :
    Except String (List JsonObject) :=
  if params.promptDecoratorConfig.messages = [] then
    .error "promptDecoratorConfig.messages must be provided for chat prompt decoration"
  else
    .ok (params.promptDecoratorConfig.messages.map
      fun item => [("role", .str item.role), ("content", .str item.content)])

/-- The switch of OnRequest on the extracted value. -/
def decorateTarget (env : Env) (params : PromptDecoratorPolicyParams)
    (payloadData : JsonObject) : JsonValue → RequestAction
  | .str v =>
    match params.promptDecoratorConfig.text with
    | none => buildErrorResponse "Invalid configuration for string target"
        (some "use promptDecoratorConfig.text when jsonPath resolves to a string")
    | some decorationStr =>
      let updatedContent :=
        if params.append then v ++ " " ++ decorationStr else decorationStr ++ " " ++ v
      updateStringAtPath payloadData params.jsonPath updatedContent
  | .arr items =>
    if params.promptDecoratorConfig.messages = [] then
      buildErrorResponse "Invalid configuration for messages target"
        (some "use promptDecoratorConfig.messages when jsonPath resolves to an array")
    else
      let (messages, malformedEntries) := collectMessages 0 items
      if malformedEntries ≠ [] then
        buildErrorResponse "Array contains non-map elements" (some (env.errorf
          ("malformed entries at " ++ "; ".intercalate (malformedEntries.map (malformedEntry env)))))
      else
        match createDecorationMessages params with
        | .error err => buildErrorResponse "Error creating decoration messages" (some err)
        | .ok decorationMessages =>
          let updatedMessages :=
            if params.append then messages ++ decorationMessages else decorationMessages ++ messages
          updateArrayAtPath payloadData params.jsonPath updatedMessages
  | v => buildErrorResponse "Extracted value must be a string or an array of message objects"
      (some ("unexpected type: " ++ goTypeName v))

/-- OnRequest, on the request body (nil, or its text). -/
def onRequest (env : Env) (p : PromptDecoratorPolicy) (body : Option String) : RequestAction :=
  match body with
  | none => buildErrorResponse "Empty request body" none
  | some content =>
    if content = "" then buildErrorResponse "Empty request body" none
    else
      match unmarshalMap content with
      | .error err => buildErrorResponse "Error parsing JSON payload" (some err)
      | .ok payloadData =>
        match env.extractValueFromJsonpath payloadData p.params.jsonPath with
        | .error err => buildErrorResponse "Error extracting value from JSONPath" (some err)
        | .ok extractedValue => decorateTarget env p.params payloadData extractedValue

/-! ### What a request becomes -/

set_option exponentiation.threshold 500 in
example (env : Env) : onRequest env briefPolicy (some "\x7b\"messages\": [], \"n\": 1e400\x7d") =
    buildErrorResponse "Error parsing JSON payload"
      (some "json: cannot unmarshal number 1e400 into Go value of type float64") := rfl

/-! ### The default paths -/

theorem resolveIndex_neg_one (len : Nat) :
    resolveIndex len (-1) = if len = 0 then none else some (len - 1) := by
  simp only [resolveIndex]
  split_ifs <;> first | rfl | omega | (congr 1; omega)

/-- The default path of the text style addresses the content of the last message when the
    payload's messages are an array whose last element is an object, and no location
    otherwise. -/
theorem resolvePath_default_text (payloadData : JsonObject) :
    resolvePath (.obj payloadData) (splitPath "messages[-1].content") =
      match payloadData.lookup "messages" with
      | some (.arr ms) =>
        match ms.getLast? with
        | some (.obj _) => some [.key "messages", .elem (ms.length - 1), .key "content"]
        | _ => none
      | _ => none := by
  have hsplit : splitPath "messages[-1].content" = ["messages[-1]", "content"] := by decide
  have hidx : arrayIndexMatch "messages[-1]" = some ("messages", "-1") := by decide
  have hatoi : atoi "-1" = some (-1) := by decide
  have hkey : arrayIndexMatch "content" = none := by decide
  rw [hsplit]
  cases hms : payloadData.lookup "messages" with
  | none => simp [resolvePath, navigatePath, hidx, hatoi, hms]
  | some v =>
    cases v
    case arr ms =>
      rcases List.eq_nil_or_concat ms with rfl | ⟨init, last, rfl⟩
      · simp [resolvePath, navigatePath, hidx, hatoi, hms, resolveIndex_neg_one]
      · cases last <;> simp [resolvePath, navigatePath, componentSteps, hidx, hatoi, hkey, hms,
          resolveIndex_neg_one, getAt]
    all_goals simp [resolvePath, navigatePath, hidx, hatoi, hms]

end PromptDecorator
