import Mathlib.Data.List.Sort
import GatewayControllers.Go.Strings
import GatewayControllers.Go.Json

/-! prompt-decorator | parseParams, GetPolicy | src/unnamed/part_001, lines 32–182

    parseParams decodes `promptDecoratorConfig`, a JSON string or a map that it marshals and
    decodes again, into a `PromptDecoratorConfig`. encoding/json matches the object's keys to
    the fields `text` and `messages` without regard to case, decodes them in document order, a
    repeated key included, and reports the first value of the wrong type. A second `messages`
    array decodes into the elements the first one left, and keeps the fields it does not set. The configuration must define exactly one of a non-blank
    text and a list of messages, each with a role among `validDecoratorRoles` once trimmed and
    lowered (the role is stored so) and a non-blank content. `jsonPath` defaults to the path of
    the configured style, and `append` to false.

    parseParams succeeds exactly when the configuration is well formed and the two optional
    parameters have their types (`parseParams_eq_ok`). A loop error names the first message
    that fails (`normalizeMessages_eq_error`). What it returns is `ValidParams`, which a
    `PromptDecoratorPolicy` carries. Decoding reads back the object json.Marshal writes for a
    configuration by the struct's tags (`decodeConfig_marshalConfig`), so parameters written
    back in that form parse to themselves exactly when they are valid
    (`parseParams_paramsOf_iff`). -/

namespace PromptDecorator
open GoJson

/-! ### Go text functions -/

/-- `strings.TrimSpace`. -/
def trimSpace (s : String) : String := ⟨GoStrings.trimSpace s.toList⟩

/-- `unicode.ToLower` on the runes whose lower case is ASCII: A–Z, U+0130 and U+212A. Every
    other rune has a lower case that is not ASCII, and the model leaves it as it is: a role is
    valid, and stored, only when it lowers to ASCII, so parseParams returns the same either
    way. -/
def toLowerRune (c : Char) : Char :=
  if c.isUpper then c.toLower
  else if c.toNat = 0x130 then 'i'
  else if c.toNat = 0x212a then 'k'
  else c

/-- `strings.ToLower`. -/
def toLower (s : String) : String := ⟨s.toList.map toLowerRune⟩

/-! ### The configuration -/

/-- `Decoration`. -/
structure Decoration where
  role : String
  content : String
  deriving DecidableEq

/-- `PromptDecoratorConfig`; `Text` is a `*string`, nil when absent. -/
structure PromptDecoratorConfig where
  text : Option String
  messages : List Decoration
  deriving DecidableEq

/-- `PromptDecoratorPolicyParams`. -/
structure PromptDecoratorPolicyParams where
  promptDecoratorConfig : PromptDecoratorConfig
  jsonPath : String
  append : Bool
  deriving DecidableEq

/-- `validDecoratorRoles`. -/
def validDecoratorRoles : List String := ["system", "user", "assistant", "tool"]

def defaultTextDecorationJSONPath : String := "$.messages[-1].content"

def defaultMessagesDecorationJSONPath : String := "$.messages"

/-! ### Decoding into the configuration struct -/

/-- encoding/json's folded rune of a key (foldName: the upper case of the simple fold). ASCII
    letters go to upper case and the four runes whose fold is ASCII to their letter; every
    other rune folds to a rune that is not ASCII, which the model leaves as it is, so a key
    matches a field name exactly when the model says it does. -/
def foldRune (c : Char) : Char :=
  if c.isLower then c.toUpper
  else if c.toNat = 0x17f then 'S'
  else if c.toNat = 0x130 || c.toNat = 0x131 then 'I'
  else if c.toNat = 0x212a then 'K'
  else c

/-- A key selects the field `name`: equal to it, or equal once both are folded. -/
def foldsTo (name key : String) : Bool := key.toList.map foldRune = name.toList.map foldRune

/-- The text of encoding/json's UnmarshalTypeError for a value of another JSON kind. -/
def typeError (v : JsonValue) (target : String) : String :=
  "json: cannot unmarshal " ++ v.kind ++ " into Go " ++ target

/-- Decoding into a `string` field: a string sets it, null leaves it as it was. -/
def unmarshalString (field : String) (old : String) : JsonValue → Except String String
  | .str s => .ok s
  | .null => .ok old
  | v => .error (typeError v ("struct field " ++ field ++ " of type string"))

/-- One member of an object decoded into a Decoration. -/
def decorationField (d : Decoration) (kv : String × JsonValue) : Except String Decoration :=
  if foldsTo "role" kv.1 then
    (unmarshalString "Decoration.messages.role" d.role kv.2).map fun r => { d with role := r }
  else if foldsTo "content" kv.1 then
    (unmarshalString "Decoration.messages.content" d.content kv.2).map
      fun c => { d with content := c }
  else .ok d

/-- An element of `messages` decoded into the Decoration `d` already there: an object sets the
    fields it names, null leaves `d` as it is. -/
def unmarshalDecoration (d : Decoration) : JsonValue → Except String Decoration
  | .obj m => m.foldlM decorationField d
  | .null => .ok d
  | v => .error (typeError v
      "struct field PromptDecoratorConfig.messages of type promptdecorator.Decoration")

/-- The configuration while json.Unmarshal fills it: `text`, and the `messages` slice as its
    backing array and its length. Elements past the length stay in the backing array, and a
    later `messages` array decodes into them again. -/
structure ConfigFill where
  text : Option String
  backing : List Decoration
  len : Nat

/-- The configuration a fill ends with. -/
def ConfigFill.config (s : ConfigFill) : PromptDecoratorConfig := ⟨s.text, s.backing.take s.len⟩

/-- The `i`-th element written back: in place inside the backing array, or appended when the
    slice grows by it (which zeroes what lies past it). -/
def storeAt (backing : List Decoration) (i : Nat) (d : Decoration) : List Decoration :=
  if i < backing.length then backing.set i d else backing ++ [d]

/-- The elements of a `messages` array from index `i`, each decoded into the backing array's
    element at its index, or into a zero Decoration past its end. -/
def unmarshalElems : List Decoration → Nat → List JsonValue → Except String (List Decoration)
  | backing, _, [] => .ok backing
  | backing, i, x :: xs => do
    let d ← unmarshalDecoration (backing.getD i ⟨"", ""⟩) x
    unmarshalElems (storeAt backing i d) (i + 1) xs

/-- One member of an object decoded into the configuration. An empty array, like null, leaves
    `messages` a slice with no backing array. -/
def configField (s : ConfigFill) (kv : String × JsonValue) : Except String ConfigFill :=
  if foldsTo "text" kv.1 then
    match kv.2 with
    | .str t => .ok { s with text := some t }
    | .null => .ok { s with text := none }
    | v => .error (typeError v "struct field PromptDecoratorConfig.text of type string")
  else if foldsTo "messages" kv.1 then
    match kv.2 with
    | .arr [] | .null => .ok { s with backing := [], len := 0 }
    | .arr xs =>
      (unmarshalElems s.backing 0 xs).map fun b => { s with backing := b, len := xs.length }
    | v => .error (typeError v
        "struct field PromptDecoratorConfig.messages of type []promptdecorator.Decoration")
  else .ok s

/-- `json.Unmarshal(data, &promptDecoratorConfig)` of a document: its members in order. -/
def unmarshalConfig : JsonValue → Except String PromptDecoratorConfig
  | .obj m => (m.foldlM configField ⟨none, [], 0⟩).map ConfigFill.config
  | .null => .ok ⟨none, []⟩
  | v => .error (typeError v "value of type promptdecorator.PromptDecoratorConfig")

/-- The order json.Marshal sorts map keys in: by their bytes, which is the order of their
    runes. -/
def runesLT : List Char → List Char → Bool
  | [], [] => false
  | [], _ :: _ => true
  | _ :: _, [] => false
  | a :: as, b :: bs => a.toNat < b.toNat || (a.toNat = b.toNat && runesLT as bs)

mutual
/-- What json.Marshal writes for a map and decoding reads back: every object's keys in
    increasing order. -/
def marshalOrder : JsonValue → JsonValue
  | .arr xs => .arr (marshalOrderList xs)
  | .obj m => .obj ((marshalOrderObj m).insertionSort
      fun a b => runesLT b.1.toList a.1.toList = false)
  | v => v

def marshalOrderList : List JsonValue → List JsonValue
  | [] => []
  | x :: xs => marshalOrder x :: marshalOrderList xs

def marshalOrderObj : JsonObject → JsonObject
  | [] => []
  | (k, v) :: m => (k, marshalOrder v) :: marshalOrderObj m
end

@[simp] theorem length_marshalOrderList (xs : List JsonValue) :
    (marshalOrderList xs).length = xs.length := by
  induction xs with
  | nil => rfl
  | cons x xs ih => simp [marshalOrderList, ih]

/-- The `promptDecoratorConfig` parameter decoded: a JSON string, or a map marshaled to JSON and
    decoded again. -/
def decodeConfig : JsonValue → Except String PromptDecoratorConfig
  | .str v =>
    (parseDocument v >>= unmarshalConfig).mapError
      ("error unmarshaling promptDecoratorConfig: " ++ ·)
  | .obj m =>
    (unmarshalConfig (marshalOrder (.obj m))).mapError
      ("error unmarshaling promptDecoratorConfig: " ++ ·)
  | _ => .error "\x27promptDecoratorConfig\x27 must be a JSON string or object"

/-! ### The struct's own encoding -/

/-- json.Marshal of a Decoration, by its tags: `role`, then `content`. -/
def marshalDecoration (d : Decoration) : JsonValue :=
  .obj [("role", .str d.role), ("content", .str d.content)]

/-- json.Marshal of a PromptDecoratorConfig, by its tags: `text` unless nil, then `messages`
    unless empty (both `omitempty`). -/
def marshalConfig (cfg : PromptDecoratorConfig) : JsonValue :=
  .obj (cfg.text.toList.map (fun t => ("text", .str t)) ++
    if cfg.messages = [] then [] else [("messages", .arr (cfg.messages.map marshalDecoration))])

theorem unmarshalDecoration_marshalDecoration (d : Decoration) :
    unmarshalDecoration ⟨"", ""⟩ (marshalOrder (marshalDecoration d)) = .ok d := rfl

/-- Marshaled messages decode, past the end of the backing array, into new elements appended to
    it. -/
theorem unmarshalElems_marshalDecoration (ds : List Decoration) :
    ∀ backing : List Decoration,
      unmarshalElems backing backing.length (marshalOrderList (ds.map marshalDecoration)) =
        .ok (backing ++ ds) := by
  induction ds with
  | nil => intro backing; simp only [List.map_nil, marshalOrderList, List.append_nil]; rfl
  | cons d ds ih =>
    intro backing
    have hget : backing.getD backing.length ⟨"", ""⟩ = ⟨"", ""⟩ := by simp
    have hstore : storeAt backing backing.length d = backing ++ [d] := by simp [storeAt]
    have ih' := ih (backing ++ [d])
    rw [List.length_append, List.length_singleton, List.append_assoc, List.singleton_append]
      at ih'
    simp only [List.map_cons, marshalOrderList, unmarshalElems, hget,
      unmarshalDecoration_marshalDecoration, hstore, bind, Except.bind, ih']

/-- The `messages` member json.Marshal writes fills a configuration that has none yet. -/
theorem configField_marshaled_messages (text : Option String) {ds : List Decoration}
    (hds : ds ≠ []) :
    configField ⟨text, [], 0⟩ ("messages", .arr (marshalOrderList (ds.map marshalDecoration))) =
      .ok ⟨text, ds, ds.length⟩ := by
  obtain ⟨d, ds, rfl⟩ := List.exists_cons_of_ne_nil hds
  have hms := unmarshalElems_marshalDecoration (d :: ds) []
  simp only [List.nil_append, List.length_nil, List.map_cons, marshalOrderList] at hms
  simp [configField, foldsTo, foldRune, marshalOrderList, hms, Except.map]

/-- Decoding reads back what json.Marshal writes for a configuration: the map's keys come sorted,
    `messages` before `text`, and each selects its own field. -/
theorem unmarshalConfig_marshalConfig (cfg : PromptDecoratorConfig) :
    unmarshalConfig (marshalOrder (marshalConfig cfg)) = .ok cfg := by
  obtain ⟨_ | t, _ | ⟨d, ms⟩⟩ := cfg
  case mk.none.nil | mk.some.nil => rfl
  case mk.none.cons =>
    show (configField ⟨none, [], 0⟩
      ("messages", .arr (marshalOrderList ((d :: ms).map marshalDecoration))) >>= pure).map _ = _
    rw [configField_marshaled_messages none (List.cons_ne_nil d ms)]
    simp [ConfigFill.config, Except.map, bind, Except.bind, pure, Except.pure]
  case mk.some.cons =>
    show (configField ⟨none, [], 0⟩
      ("messages", .arr (marshalOrderList ((d :: ms).map marshalDecoration))) >>=
        (fun c => configField c ("text", .str t) >>= pure)).map _ = _
    rw [configField_marshaled_messages none (List.cons_ne_nil d ms)]
    simp [configField, foldsTo, foldRune, ConfigFill.config, Except.map, bind, Except.bind, pure,
      Except.pure]

theorem decodeConfig_marshalConfig (cfg : PromptDecoratorConfig) :
    decodeConfig (marshalConfig cfg) = .ok cfg := by
  show (unmarshalConfig (marshalOrder (marshalConfig cfg))).mapError _ = _
  rw [unmarshalConfig_marshalConfig]; rfl

example : decodeConfig (.str "\x7b\"text\": 5, \"text\": \"hi\"\x7d") =
    .error ("error unmarshaling promptDecoratorConfig: json: cannot unmarshal number into Go " ++
      "struct field PromptDecoratorConfig.text of type string") := by decide

example : decodeConfig (.str ("\x7b\"messages\": [\x7b\"role\": \"user\", \"content\": \"a\"\x7d], " ++
    "\"Messages\": [\x7b\"content\": \"b\"\x7d]\x7d")) = .ok ⟨none, [⟨"user", "b"⟩]⟩ := by decide

/-! ### Validation -/

/-- The role a message is stored with. -/
def normalizeRole (role : String) : String := toLower (trimSpace role)

/-- A message with its role stored trimmed and lowered. -/
def normalizeMessage (msg : Decoration) : Decoration := { msg with role := normalizeRole msg.role }

/-- The first check a message fails in the loop, as the error of index `i`. -/
def messageError (i : Nat) (msg : Decoration) : Option String :=
  let role := normalizeRole msg.role
  if role = "" then
    some ("\x27promptDecoratorConfig.messages[" ++ toString i ++ "].role\x27 must be a non-empty string")
  else if role ∉ validDecoratorRoles then
    some ("\x27promptDecoratorConfig.messages[" ++ toString i ++
      "].role\x27 must be one of [system,user,assistant,tool]")
  else if trimSpace msg.content = "" then
    some ("\x27promptDecoratorConfig.messages[" ++ toString i ++
      "].content\x27 must be a non-empty string")
  else none

/-- The loop over the messages from index `i`: the first failing one stops it, and each role is
    stored trimmed and lowered. -/
def normalizeMessages : Nat → List Decoration → Except String (List Decoration)
  | _, [] => .ok []
  | i, msg :: rest =>
    match messageError i msg with
    | some err => .error err
    | none => (normalizeMessages (i + 1) rest).map (normalizeMessage msg :: ·)

/-- The checks on the decoded configuration, in the code's order. -/
def validateConfig (cfg : PromptDecoratorConfig) : Except String PromptDecoratorConfig :=
  let textConfigured := cfg.text.isSome
  let messagesConfigured := !cfg.messages.isEmpty
  if textConfigured && messagesConfigured then
    .error "\x27promptDecoratorConfig\x27 must define exactly one of \x27text\x27 or \x27messages\x27"
  else if !textConfigured && !messagesConfigured then
    .error "\x27promptDecoratorConfig\x27 must define one of \x27text\x27 or \x27messages\x27"
  else
    match cfg.text with
    | some t =>
      if trimSpace t = "" then .error "\x27promptDecoratorConfig.text\x27 must be a non-empty string"
      else .ok cfg
    | none => (normalizeMessages 0 cfg.messages).map fun ms => { cfg with messages := ms }

/-- The jsonPath parameter: a string whose trimmed text is not empty is kept as given, and
    otherwise the configured style's default is used. -/
def parseJsonPath (params : JsonObject) (textConfigured : Bool) : Except String String :=
  let given : Except String String :=
    match params.lookup "jsonPath" with
    | none => .ok ""
    | some (.str p) => .ok (if trimSpace p ≠ "" then p else "")
    | some _ => .error "\x27jsonPath\x27 must be a string"
  given.map fun p =>
    if p = "" then
      if textConfigured then defaultTextDecorationJSONPath else defaultMessagesDecorationJSONPath
    else p

/-- The append parameter, false when absent. -/
def parseAppend (params : JsonObject) : Except String Bool :=
  match params.lookup "append" with
  | none => .ok false
  | some (.bool b) => .ok b
  | some _ => .error "\x27append\x27 must be a boolean"

/-- parseParams. -/
def parseParams (params : JsonObject) : Except String PromptDecoratorPolicyParams :=
  match params.lookup "promptDecoratorConfig" with
  | none => .error "\x27promptDecoratorConfig\x27 parameter is required"
  | some raw =>
    decodeConfig raw >>= validateConfig >>= fun cfg =>
    parseJsonPath params cfg.text.isSome >>= fun jsonPath =>
    parseAppend params >>= fun append =>
    .ok ⟨cfg, jsonPath, append⟩

/-! ### The messages loop -/

/-- A message the loop accepts. -/
def ValidMessage (msg : Decoration) : Prop :=
  normalizeRole msg.role ∈ validDecoratorRoles ∧ trimSpace msg.content ≠ ""

theorem messageError_eq_none {i : Nat} {msg : Decoration} :
    messageError i msg = none ↔ ValidMessage msg := by
  simp only [messageError, ValidMessage]
  split_ifs <;> simp_all [validDecoratorRoles]

/-- The loop succeeds exactly on valid messages, and then stores each normalized. -/
theorem normalizeMessages_eq_ok {i : Nat} {ms ms' : List Decoration} :
    normalizeMessages i ms = .ok ms' ↔
      (∀ m ∈ ms, ValidMessage m) ∧ ms' = ms.map normalizeMessage := by
  induction ms generalizing i ms' with
  | nil => simp [normalizeMessages, eq_comm]
  | cons m ms ih =>
    cases h : messageError i m with
    | some e =>
      have : ¬ ValidMessage m := fun hv => by simp [messageError_eq_none.mpr hv] at h
      simp [normalizeMessages, h, this]
    | none =>
      simp only [normalizeMessages, h, map_eq_ok, ih, List.forall_mem_cons,
        messageError_eq_none.mp h, true_and, List.map_cons]
      constructor
      · rintro ⟨_, ⟨hv, rfl⟩, rfl⟩; exact ⟨hv, rfl⟩
      · rintro ⟨hv, rfl⟩; exact ⟨_, ⟨hv, rfl⟩, rfl⟩

/-- The loop fails with the error of the first message that is not valid, at its index. -/
theorem normalizeMessages_eq_error {i : Nat} {ms : List Decoration} {e : String} :
    normalizeMessages i ms = .error e ↔
      ∃ pre m post, ms = pre ++ m :: post ∧ (∀ x ∈ pre, ValidMessage x) ∧
        messageError (i + pre.length) m = some e := by
  induction ms generalizing i with
  | nil => simp [normalizeMessages]
  | cons m ms ih =>
    cases h : messageError i m with
    | some e' =>
      simp only [normalizeMessages, h, Except.error.injEq]
      constructor
      · rintro rfl; exact ⟨[], m, ms, rfl, by simp, by simpa using h⟩
      · rintro ⟨_ | ⟨x, pre⟩, m', post, heq, hpre, he⟩
        · simp only [List.nil_append, List.cons.injEq] at heq
          obtain ⟨rfl, rfl⟩ := heq
          simpa [h] using he
        · simp only [List.cons_append, List.cons.injEq] at heq
          obtain ⟨rfl, rfl⟩ := heq
          simp [messageError_eq_none.mpr (hpre _ (List.mem_cons_self _ _))] at h
    | none =>
      simp only [normalizeMessages, h, map_eq_error, ih]
      constructor
      · rintro ⟨pre, m', post, rfl, hpre, he⟩
        refine ⟨m :: pre, m', post, rfl, ?_, ?_⟩
        · simpa [messageError_eq_none.mp h] using hpre
        · simpa [Nat.add_assoc, Nat.add_comm 1] using he
      · rintro ⟨_ | ⟨x, pre⟩, m', post, heq, hpre, he⟩
        · simp only [List.nil_append, List.cons.injEq] at heq
          obtain ⟨rfl, rfl⟩ := heq
          simp [h] at he
        · simp only [List.cons_append, List.cons.injEq] at heq
          obtain ⟨rfl, rfl⟩ := heq
          refine ⟨pre, m', post, rfl, fun y hy => hpre y (List.mem_cons_of_mem _ hy), ?_⟩
          simpa [Nat.add_assoc, Nat.add_comm 1] using he

/-! ### What parseParams accepts -/

/-- A configuration the checks accept: exactly one style, with a non-blank text or with
    messages that are all valid. -/
def WellConfigured (cfg : PromptDecoratorConfig) : Prop :=
  match cfg.text with
  | some t => cfg.messages = [] ∧ trimSpace t ≠ ""
  | none => cfg.messages ≠ [] ∧ ∀ m ∈ cfg.messages, ValidMessage m

/-- The configuration with every role normalized. -/
def normalizeConfig (cfg : PromptDecoratorConfig) : PromptDecoratorConfig :=
  { cfg with messages := cfg.messages.map normalizeMessage }

theorem validateConfig_eq_ok {cfg cfg' : PromptDecoratorConfig} :
    validateConfig cfg = .ok cfg' ↔ WellConfigured cfg ∧ cfg' = normalizeConfig cfg := by
  obtain ⟨_ | t, _ | ⟨m, ms⟩⟩ := cfg
  · simp [validateConfig, WellConfigured]
  · show (normalizeMessages 0 (m :: ms)).map (fun ms => ⟨none, ms⟩) = .ok cfg' ↔ _
    simp only [WellConfigured, normalizeConfig, map_eq_ok, normalizeMessages_eq_ok]
    constructor
    · rintro ⟨_, ⟨hv, rfl⟩, rfl⟩; exact ⟨⟨List.cons_ne_nil _ _, hv⟩, rfl⟩
    · rintro ⟨⟨-, hv⟩, rfl⟩; exact ⟨_, ⟨hv, rfl⟩, rfl⟩
  · by_cases ht : trimSpace t = "" <;>
      simp [validateConfig, WellConfigured, normalizeConfig, ht, eq_comm]
  · simp [validateConfig, WellConfigured]

theorem normalizeRole_of_mem {r : String} (h : r ∈ validDecoratorRoles) : normalizeRole r = r := by
  simp only [validDecoratorRoles, List.mem_cons, List.not_mem_nil, or_false] at h
  rcases h with rfl | rfl | rfl | rfl <;> decide

/-- What parseParams guarantees of the parameters it returns. -/
structure ValidParams (p : PromptDecoratorPolicyParams) : Prop where
  wellConfigured : WellConfigured p.promptDecoratorConfig
  roles_normal : ∀ m ∈ p.promptDecoratorConfig.messages, m.role ∈ validDecoratorRoles
  jsonPath_nonblank : trimSpace p.jsonPath ≠ ""

/-- Normalizing keeps a configuration accepted, and stores roles that are valid as they are. -/
theorem wellConfigured_normalizeConfig {cfg : PromptDecoratorConfig} (h : WellConfigured cfg) :
    WellConfigured (normalizeConfig cfg) ∧
      ∀ m ∈ (normalizeConfig cfg).messages, m.role ∈ validDecoratorRoles := by
  obtain ⟨_ | t, ms⟩ := cfg
  · obtain ⟨hne, hv⟩ := h
    refine ⟨⟨by simpa [normalizeConfig] using hne, ?_⟩, ?_⟩ <;>
      simp only [normalizeConfig, List.mem_map] <;> rintro _ ⟨m, hm, rfl⟩
    · exact ⟨by simpa [normalizeMessage, normalizeRole_of_mem (hv m hm).1] using (hv m hm).1,
        (hv m hm).2⟩
    · exact (hv m hm).1
  · obtain ⟨rfl, ht⟩ := h
    exact ⟨⟨rfl, ht⟩, by simp [normalizeConfig]⟩

theorem trimSpace_parseJsonPath {params : JsonObject} {b : Bool} {p : String}
    (h : parseJsonPath params b = .ok p) : trimSpace p ≠ "" := by
  have hdef : trimSpace defaultTextDecorationJSONPath ≠ "" ∧
      trimSpace defaultMessagesDecorationJSONPath ≠ "" := by decide
  simp only [parseJsonPath, map_eq_ok] at h
  obtain ⟨q, hq, rfl⟩ := h
  split at hq
  · cases hq; cases b <;> simp [hdef]
  · cases hq
    split_ifs with hp <;> cases b <;> simp_all
  · cases hq

/-- Everything parseParams returns is valid. -/
theorem parseParams_valid {params : JsonObject} {p : PromptDecoratorPolicyParams}
    (h : parseParams params = .ok p) : ValidParams p := by
  unfold parseParams at h
  split at h
  · cases h
  obtain ⟨cfg, hcfg, h⟩ := bind_eq_ok.mp h
  obtain ⟨_, -, hv⟩ := bind_eq_ok.mp hcfg
  obtain ⟨jsonPath, hj, h⟩ := bind_eq_ok.mp h
  obtain ⟨_, -, h⟩ := bind_eq_ok.mp h
  cases h
  obtain ⟨hwc, rfl⟩ := validateConfig_eq_ok.mp hv
  exact ⟨(wellConfigured_normalizeConfig hwc).1, (wellConfigured_normalizeConfig hwc).2,
    trimSpace_parseJsonPath hj⟩

/-- A prompt-decorator policy: parameters that parseParams accepted, and what that
    guarantees of them. -/
structure PromptDecoratorPolicy where
  params : PromptDecoratorPolicyParams
  valid : ValidParams params

/-- GetPolicy. -/
def getPolicy (params : JsonObject) : Except String PromptDecoratorPolicy :=
  match h : parseParams params with
  | .ok p => .ok ⟨p, parseParams_valid h⟩
  | .error e => .error ("invalid parameters: " ++ e)

/-- parseParams succeeds exactly on a configuration that decodes and is accepted, with a
    `jsonPath` and an `append` of their types, and stores the configuration normalized. -/
theorem parseParams_eq_ok {params : JsonObject} {p : PromptDecoratorPolicyParams} :
    parseParams params = .ok p ↔
      ∃ raw cfg, params.lookup "promptDecoratorConfig" = some raw ∧ decodeConfig raw = .ok cfg ∧
        WellConfigured cfg ∧ p.promptDecoratorConfig = normalizeConfig cfg ∧
        parseJsonPath params cfg.text.isSome = .ok p.jsonPath ∧
        parseAppend params = .ok p.append := by
  unfold parseParams
  cases hraw : params.lookup "promptDecoratorConfig" with
  | none => simp
  | some raw =>
    simp only [bind_eq_ok, validateConfig_eq_ok, Option.some.injEq]
    constructor
    · rintro ⟨_, ⟨cfg, hd, hwc, rfl⟩, jsonPath, hj, append, ha, h⟩
      cases h
      exact ⟨raw, cfg, rfl, hd, hwc, rfl, hj, ha⟩
    · rintro ⟨_, cfg, rfl, hd, hwc, hp, hj, ha⟩
      refine ⟨_, ⟨cfg, hd, hwc, rfl⟩, p.jsonPath, hj, p.append, ha, ?_⟩
      rw [← hp]

/-- A configuration given as the object json.Marshal writes for it is decoded back as it is;
    alone among the parameters, it is accepted exactly when the checks accept it, and then stored
    normalized with the default path of its style and append false. -/
theorem parseParams_marshalConfig (cfg : PromptDecoratorConfig) (p : PromptDecoratorPolicyParams) :
    decodeConfig (marshalConfig cfg) = .ok cfg ∧
      (parseParams [("promptDecoratorConfig", marshalConfig cfg)] = .ok p ↔
        WellConfigured cfg ∧ p = ⟨normalizeConfig cfg,
          if cfg.text.isSome then defaultTextDecorationJSONPath
          else defaultMessagesDecorationJSONPath, false⟩) := by
  refine ⟨decodeConfig_marshalConfig cfg, ?_⟩
  have hpath : ∀ b, parseJsonPath [("promptDecoratorConfig", marshalConfig cfg)] b =
      .ok (if b then defaultTextDecorationJSONPath else defaultMessagesDecorationJSONPath) := by
    intro b; cases b <;> rfl
  have happend : parseAppend [("promptDecoratorConfig", marshalConfig cfg)] = .ok false := rfl
  have htext : (normalizeConfig cfg).text = cfg.text := rfl
  show (decodeConfig (marshalConfig cfg) >>= validateConfig >>= _) = _ ↔ _
  rw [decodeConfig_marshalConfig]
  simp only [bind_eq_ok, Except.ok.injEq, exists_eq_left', validateConfig_eq_ok, hpath, happend,
    and_assoc, exists_and_left, exists_eq_left, htext, @eq_comm _ p]

/-- Parameters written back in the form parseParams reads: the configuration as json.Marshal
    writes the struct, then the path and the flag. -/
def paramsOf (p : PromptDecoratorPolicyParams) : JsonObject :=
  [("promptDecoratorConfig", marshalConfig p.promptDecoratorConfig), ("jsonPath", .str p.jsonPath),
    ("append", .bool p.append)]

/-- The parameters parseParams returns are exactly those it reads back unchanged: written back
    and parsed again, valid parameters come out as they are, and no others do. -/
theorem parseParams_paramsOf_iff (p : PromptDecoratorPolicyParams) :
    parseParams (paramsOf p) = .ok p ↔ ValidParams p := by
  refine ⟨parseParams_valid, fun hp => ?_⟩
  have hnorm : normalizeConfig p.promptDecoratorConfig = p.promptDecoratorConfig := by
    have hmsg : ∀ m ∈ p.promptDecoratorConfig.messages, normalizeMessage m = m := fun m hm => by
      simp [normalizeMessage, normalizeRole_of_mem (hp.roles_normal m hm)]
    simp [normalizeConfig, List.map_congr_left hmsg]
  have hblank : p.jsonPath ≠ "" := fun h => hp.jsonPath_nonblank (by rw [h]; rfl)
  have hlookup : (paramsOf p).lookup "jsonPath" = some (.str p.jsonPath) := rfl
  have hpath : ∀ b, parseJsonPath (paramsOf p) b = .ok p.jsonPath := fun b => by
    simp [parseJsonPath, hlookup, hp.jsonPath_nonblank, hblank, Except.map]
  have hval : validateConfig p.promptDecoratorConfig = .ok p.promptDecoratorConfig :=
    validateConfig_eq_ok.mpr ⟨hp.wellConfigured, hnorm.symm⟩
  have happend : parseAppend (paramsOf p) = .ok p.append := rfl
  show (decodeConfig (marshalConfig p.promptDecoratorConfig) >>= validateConfig >>= _) = _
  rw [decodeConfig_marshalConfig]
  simp only [bind, Except.bind, hval, hpath, happend]

end PromptDecorator
