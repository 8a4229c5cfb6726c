import GatewayControllers.Go.Json
import GatewayControllers.Go.Regexp
import GatewayControllers.PiiMasking.Placeholder

/-! pii-masking-regex | parseParams, parseBoolParam | src/unnamed/part_000, lines 73–200

    parseParams reads the policy's parameter map: the custom detectors of `customPIIEntities`
    (a JSON string unmarshaled into `[]map[string]interface{}`, which fails on a number out of
    float64's range or on nesting past encoding/json's limit, or a list of maps), each with a
    name of `^[A-Z_]+$` and a pattern that compiles; the built-in toggles `email`, `phone`, `ssn`;
    and the optional `jsonPath` and `redactPII`. Regular expressions come from package regexp
    (`RegexpEngine`). The detector map is kept in insertion order; its keys are unique, which is
    what the duplicate checks ensure.

    It fails exactly when the configuration is invalid in one of six ways
    (`parseParams_error_iff`), and then its detectors are the custom entries, then the enabled
    built-ins. A `customPIIEntities` string that decodes to JSON null is accepted as no custom
    entry, like an empty array (`parseParams_null_entities`). -/

namespace PIIMaskingRegex
open GoJson GoRegexp

/-- `params map[string]interface{}`. -/
abbrev Params := List (String × JsonValue)

/-- What parseParams takes from package regexp: `regexp.Compile` for the custom patterns, and
    the built-in detectors `regexp.MustCompile` builds from DefaultEmailRegex, DefaultPhoneRegex
    and DefaultSSNRegex. -/
structure RegexpEngine where
  compile : String → Except String Regexp
  defaultEmail : Regexp
  defaultPhone : Regexp
  defaultSSN : Regexp

/-- The parsed parameters, with the detector map in insertion order. -/
structure PIIMaskingRegexPolicyParams where
  piiEntities : List (String × Regexp)
  jsonPath : String
  redactPII : Bool

def defaultEmailEntityName : String := "EMAIL"
def defaultPhoneEntityName : String := "PHONE"
def defaultSSNEntityName : String := "SSN"

/-- `%q` of an entity name: its runes (all of `[A-Z_]`) between double quotes. -/
def quoteName (name : String) : String := "\"" ++ name ++ "\""

/-- `parseBoolParam(params, key)`. -/
def parseBoolParam (params : Params) (key : String) : Except String Bool :=
  match params.lookup key with
  | none => .ok false
  | some (.bool b) => .ok b
  | some _ => .error ("\x27" ++ key ++ "\x27 must be a boolean")

/-- The `[]interface{}` case: every item must be a map. -/
def collectEntityMaps : Nat → List JsonValue → Except String (List JsonObject)
  | _, [] => .ok []
  | idx, .obj m :: items => (collectEntityMaps (idx + 1) items).map (m :: ·)
  | idx, _ :: _ => .error ("\x27customPIIEntities[" ++ toString idx ++ "]\x27 must be an object")

/-- The type switch on `customPIIEntities`. -/
def parseEntitiesArray : JsonValue → Except String (List JsonObject)
  | .str v =>
    match unmarshalMapSlice v with
    | .ok a => .ok a
    | .error e => .error ("error unmarshaling PII entities: " ++ e)
  | .arr v => collectEntityMaps 0 v
  | _ => .error "\x27customPIIEntities\x27 must be an array or JSON string"

/-- `entityConfig[field].(string)`, required and non-empty. -/
def requiredString (entityConfig : JsonObject) (i : Nat) (field : String) : Except String String :=
  match entityConfig.lookup field with
  | some (.str s) => if s = "" then .error (requiredMessage i field) else .ok s
  | _ => .error (requiredMessage i field)
where
  requiredMessage (i : Nat) (field : String) : String :=
    "\x27customPIIEntities[" ++ toString i ++ "]." ++ field ++
      "\x27 is required and must be a non-empty string"

/-- One iteration of the validation loop: the map with the entry's detector added. -/
def addCustomEntity (re : RegexpEngine) (piiEntities : List (String × Regexp)) (i : Nat)
    (entityConfig : JsonObject) : Except String (List (String × Regexp)) :=
  match requiredString entityConfig i "piiEntity" with
  | .error e => .error e
  | .ok piiEntity =>
    if !isEntityName piiEntity.toList then
      .error ("\x27customPIIEntities[" ++ toString i ++ "].piiEntity\x27 must match ^[A-Z_]+$")
    else
      match requiredString entityConfig i "piiRegex" with
      | .error e => .error e
      | .ok piiRegex =>
        match re.compile piiRegex with
        | .error e =>
          .error ("\x27customPIIEntities[" ++ toString i ++ "].piiRegex\x27 is invalid: " ++ e)
        | .ok compiledPattern =>
          if (piiEntities.lookup piiEntity).isSome then
            .error ("duplicate piiEntity: " ++ quoteName piiEntity)
          else .ok (piiEntities ++ [(piiEntity, compiledPattern)])

/-- The validation loop over the entries, from index `i`. -/
def addCustomEntities (re : RegexpEngine) :
    Nat → List JsonObject → List (String × Regexp) → Except String (List (String × Regexp))
  | _, [], piiEntities => .ok piiEntities
  | i, entityConfig :: rest, piiEntities => do
    let piiEntities ← addCustomEntity re piiEntities i entityConfig
    addCustomEntities re (i + 1) rest piiEntities

/-- The block of one built-in toggle. -/
def addBuiltin (piiEntities : List (String × Regexp)) (enabled : Bool) (name : String)
    (pattern : Regexp) : Except String (List (String × Regexp)) :=
  if enabled then
    if (piiEntities.lookup name).isSome then .error ("duplicate piiEntity: " ++ quoteName name)
    else .ok (piiEntities ++ [(name, pattern)])
  else .ok piiEntities

/-- The `customPIIEntities` block of parseParams: the map of the custom detectors. -/
def parseCustomEntities (re : RegexpEngine) (params : Params) :
    Except String (List (String × Regexp)) :=
  match params.lookup "customPIIEntities" with
  | some piiEntitiesRaw => do
    let piiEntitiesArray ← parseEntitiesArray piiEntitiesRaw
    addCustomEntities re 0 piiEntitiesArray []
  | none => pure []

/-- The optional `jsonPath` block: `$.messages` unless a string is given. -/
def parseJsonPath (params : Params) : Except String String :=
  match params.lookup "jsonPath" with
  | none => .ok "$.messages"
  | some (.str jsonPath) => .ok jsonPath
  | some _ => .error "\x27jsonPath\x27 must be a string"

/-- The optional `redactPII` block. -/
def parseRedactPII (params : Params) : Except String Bool :=
  match params.lookup "redactPII" with
  | none => .ok false
  | some (.bool redactPII) => .ok redactPII
  | some _ => .error "\x27redactPII\x27 must be a boolean"

/-- `parseParams(params)`. -/
def parseParams (re : RegexpEngine) (params : Params) :
    Except String PIIMaskingRegexPolicyParams := do
  let piiEntities ← parseCustomEntities re params
  let enableEmail ← parseBoolParam params "email"
  let enablePhone ← parseBoolParam params "phone"
  let enableSSN ← parseBoolParam params "ssn"
  let piiEntities ← addBuiltin piiEntities enableEmail defaultEmailEntityName re.defaultEmail
  let piiEntities ← addBuiltin piiEntities enablePhone defaultPhoneEntityName re.defaultPhone
  let piiEntities ← addBuiltin piiEntities enableSSN defaultSSNEntityName re.defaultSSN
  if piiEntities.isEmpty then
    throw ("at least one PII detector must be configured using \x27customPIIEntities\x27 " ++
      "or one of \x27email\x27, \x27phone\x27, \x27ssn\x27")
  else do
    let jsonPath ← parseJsonPath params
    let redactPII ← parseRedactPII params
    pure ⟨piiEntities, jsonPath, redactPII⟩

/-! ### The configurations parseParams rejects -/

/-- The name a custom map gives. -/
def objName (m : JsonObject) : Option String :=
  match m.lookup "piiEntity" with
  | some (.str name) => some name
  | _ => none

/-- A custom map that defines a detector: its piiEntity is a string matching `^[A-Z_]+$` and its
    piiRegex a non-empty string that compiles. -/
def ValidObj (re : RegexpEngine) (m : JsonObject) : Prop :=
  ∃ name pattern p, m.lookup "piiEntity" = some (.str name) ∧ isEntityName name.toList = true ∧
    m.lookup "piiRegex" = some (.str pattern) ∧ pattern ≠ "" ∧ re.compile pattern = .ok p

/-- A custom entry that defines a detector. -/
def ValidEntry (re : RegexpEngine) : JsonValue → Prop
  | .obj m => ValidObj re m
  | _ => False

/-- The name a custom entry gives. -/
def entryName : JsonValue → Option String
  | .obj m => objName m
  | _ => none

/-- The custom entries, when `customPIIEntities` is absent (none), a string that decodes to a
    JSON array (its elements) or to null (none), or a list of maps. -/
def customEntries (params : Params) : Option (List JsonValue) :=
  match params.lookup "customPIIEntities" with
  | none => some []
  | some (.str v) =>
    match decode v with
    | .ok .null => some []
    | .ok (.arr xs) => some xs
    | _ => none
  | some (.arr xs) => if xs.all JsonValue.isObj then some xs else none
  | some _ => none

/-- The toggles, with the detector each enables. -/
def builtinToggles : List (String × String) :=
  [("email", defaultEmailEntityName), ("phone", defaultPhoneEntityName),
    ("ssn", defaultSSNEntityName)]

/-- The built-in detectors the toggles enable. -/
def enabledBuiltins (params : Params) : List String :=
  builtinToggles.filterMap fun t => if params.lookup t.1 = some (.bool true) then some t.2 else none

/-- A parameter of the wrong type: a toggle or redactPII that is not a boolean, or a jsonPath
    that is not a string. -/
def WrongType (params : Params) : Prop :=
  (∃ k ∈ ["email", "phone", "ssn", "redactPII"], ∃ v, params.lookup k = some v ∧ v.isBool = false) ∨
    ∃ v, params.lookup "jsonPath" = some v ∧ v.isStr = false

/-- The six ways a configuration is invalid: the shape of customPIIEntities; an entry without a
    valid name or pattern; two entries with one name; a parameter of the wrong type; an enabled
    built-in named as a custom entry; no detector at all. -/
def Invalid (re : RegexpEngine) (params : Params) : Prop :=
  customEntries params = none ∨
  (∃ e ∈ (customEntries params).getD [], ¬ ValidEntry re e) ∨
  ¬ (((customEntries params).getD []).filterMap entryName).Nodup ∨
  WrongType params ∨
  (∃ b ∈ enabledBuiltins params, b ∈ ((customEntries params).getD []).filterMap entryName) ∨
  ((customEntries params).getD [] = [] ∧ enabledBuiltins params = [])

/-! ### The stages of parseParams -/

theorem lookup_isSome_iff {α : Type} (l : List (String × α)) (k : String) :
    (l.lookup k).isSome = true ↔ k ∈ l.map Prod.fst := by
  simp only [List.lookup_isSome_iff, beq_iff_eq, List.mem_map, @eq_comm _ k]

theorem requiredString_ok {m : JsonObject} {i : Nat} {field s : String} :
    requiredString m i field = .ok s ↔ m.lookup field = some (.str s) ∧ s ≠ "" := by
  unfold requiredString
  split
  · rename_i s' hs'
    by_cases h : s' = ""
    · subst h; simp only [if_pos, reduceCtorEq, false_iff, hs', Option.some.injEq, JsonValue.str.injEq]
      rintro ⟨rfl, h⟩; exact h rfl
    · simp only [h, if_false, Except.ok.injEq, hs', Option.some.injEq, JsonValue.str.injEq]
      exact ⟨fun e => ⟨e, e ▸ h⟩, fun e => e.1⟩
  · rename_i hnot
    simp only [reduceCtorEq, false_iff, not_and]
    intro h; exact absurd h (hnot _)

theorem addCustomEntity_ok {re : RegexpEngine} {acc : List (String × Regexp)} {i : Nat}
    {m : JsonObject} {r : List (String × Regexp)} (h : addCustomEntity re acc i m = .ok r) :
    ValidObj re m ∧ ∃ name, objName m = some name ∧ name ∉ acc.map Prod.fst ∧
      r.map Prod.fst = acc.map Prod.fst ++ [name] := by
  unfold addCustomEntity at h
  split at h; · cases h
  rename_i name hname
  rw [requiredString_ok] at hname
  split at h; · cases h
  rename_i hvalid
  split at h; · cases h
  rename_i pattern hpat
  rw [requiredString_ok] at hpat
  split at h; · cases h
  rename_i p hp
  split at h; · cases h
  rename_i hfresh
  cases h
  exact ⟨⟨name, pattern, p, hname.1, by simpa using hvalid, hpat.1, hpat.2, hp⟩, name,
    by simp [objName, hname.1], fun hin => hfresh ((lookup_isSome_iff acc name).mpr hin),
    by simp⟩

theorem addCustomEntity_exists {re : RegexpEngine} {acc : List (String × Regexp)} {i : Nat}
    {m : JsonObject} (hv : ValidObj re m)
    (hfresh : ∀ name, objName m = some name → name ∉ acc.map Prod.fst) :
    ∃ r, addCustomEntity re acc i m = .ok r := by
  obtain ⟨name, pattern, p, hname, hent, hpat, hne, hp⟩ := hv
  have hn : name ≠ "" := by rintro rfl; simp [isEntityName] at hent
  have hfree : (acc.lookup name).isSome = false := by
    rw [← Bool.not_eq_true, lookup_isSome_iff]
    exact hfresh name (by simp [objName, hname])
  refine ⟨acc ++ [(name, p)], ?_⟩
  rw [addCustomEntity, (requiredString_ok).mpr ⟨hname, hn⟩]
  simp only [hent, Bool.not_true, Bool.false_eq_true, if_false, (requiredString_ok).mpr ⟨hpat, hne⟩,
    hp, hfree]

/-- The loop succeeds exactly on valid maps with fresh distinct names, and adds their names. -/
theorem addCustomEntities_ok {re : RegexpEngine} : ∀ {objs : List JsonObject} {i : Nat}
    {acc r : List (String × Regexp)}, (acc.map Prod.fst).Nodup →
      addCustomEntities re i objs acc = .ok r →
      (∀ m ∈ objs, ValidObj re m) ∧ (acc.map Prod.fst ++ objs.filterMap objName).Nodup ∧
        r.map Prod.fst = acc.map Prod.fst ++ objs.filterMap objName
  | [], _, _, _, hacc, h => by cases h; simpa using hacc
  | m :: objs, i, acc, r, hacc, h => by
    obtain ⟨acc', h1, h2⟩ := bind_eq_ok.mp h
    obtain ⟨hv, name, hname, hfresh, hkeys⟩ := addCustomEntity_ok h1
    have hacc' : (acc'.map Prod.fst).Nodup := by
      rw [hkeys]; exact List.nodup_append.mpr ⟨hacc, List.nodup_singleton _, List.disjoint_singleton.mpr hfresh⟩
    obtain ⟨hall, hnd, hr⟩ := addCustomEntities_ok hacc' h2
    rw [hkeys, List.append_assoc] at hnd hr
    simp only [List.filterMap_cons, hname]
    exact ⟨List.forall_mem_cons.mpr ⟨hv, hall⟩, hnd, hr⟩

theorem addCustomEntities_exists {re : RegexpEngine} : ∀ {objs : List JsonObject} (i : Nat)
    (acc : List (String × Regexp)), (∀ m ∈ objs, ValidObj re m) →
      (acc.map Prod.fst ++ objs.filterMap objName).Nodup →
      ∃ r, addCustomEntities re i objs acc = .ok r
  | [], _, acc, _, _ => ⟨acc, rfl⟩
  | m :: objs, i, acc, hv, hnd => by
    obtain ⟨name, pattern, p, hname, -⟩ := hv m (List.mem_cons_self _ _)
    have hm : objName m = some name := by simp [objName, hname]
    simp only [List.filterMap_cons, hm] at hnd
    obtain ⟨acc', h1⟩ := addCustomEntity_exists (i := i) (hv m (List.mem_cons_self _ _))
      fun n hn hin => by
        obtain rfl : n = name := Option.some.inj (hn.symm.trans hm)
        exact (List.nodup_append.mp hnd).2.2 hin (List.mem_cons_self _ _)
    obtain ⟨-, n', hn', -, hkeys⟩ := addCustomEntity_ok h1
    obtain rfl : n' = name := Option.some.inj (hn'.symm.trans hm)
    obtain ⟨r, hr⟩ := addCustomEntities_exists (i + 1) acc'
      (fun m' h' => hv m' (List.mem_cons_of_mem _ h'))
      (by rw [hkeys, List.append_assoc, List.singleton_append]; exact hnd)
    exact ⟨r, by rw [addCustomEntities, h1]; exact hr⟩
/-! ### The shape of customPIIEntities -/

theorem validEntry_iff {re : RegexpEngine} {x : JsonValue} {m : JsonObject} (h : MapElem x m) :
    ValidEntry re x ↔ ValidObj re m := by
  rcases h with rfl | ⟨rfl, rfl⟩
  · rfl
  · simp only [ValidEntry, ValidObj, List.lookup_nil, reduceCtorEq, false_and, exists_false]

theorem entryName_eq {x : JsonValue} {m : JsonObject} (h : MapElem x m) :
    entryName x = objName m := by
  rcases h with rfl | ⟨rfl, rfl⟩ <;> rfl

theorem forall_validEntry_iff {re : RegexpEngine} {xs : List JsonValue} {objs : List JsonObject}
    (h : List.Forall₂ MapElem xs objs) :
    (∀ x ∈ xs, ValidEntry re x) ↔ ∀ m ∈ objs, ValidObj re m := by
  induction h with
  | nil => simp
  | cons hxm _ ih => simp only [List.forall_mem_cons, validEntry_iff hxm, ih]

theorem filterMap_entryName {xs : List JsonValue} {objs : List JsonObject}
    (h : List.Forall₂ MapElem xs objs) : xs.filterMap entryName = objs.filterMap objName := by
  induction h with
  | nil => rfl
  | cons hxm _ ih => simp only [List.filterMap_cons, entryName_eq hxm, ih]

theorem exists_forall₂_mapElem : ∀ {xs : List JsonValue}, (∀ x ∈ xs, x.isObj = true) →
    ∃ objs, List.Forall₂ MapElem xs objs
  | [], _ => ⟨[], .nil⟩
  | x :: xs, h => by
    obtain ⟨objs, hf⟩ := exists_forall₂_mapElem fun y hy => h y (List.mem_cons_of_mem _ hy)
    have hx := h x (List.mem_cons_self _ _)
    cases x <;> simp only [JsonValue.isObj, Bool.false_eq_true] at hx
    exact ⟨_ :: objs, .cons (.inl rfl) hf⟩

theorem collectEntityMaps_ok : ∀ {idx : Nat} {xs : List JsonValue} {objs : List JsonObject},
    collectEntityMaps idx xs = .ok objs → xs.all JsonValue.isObj = true ∧ List.Forall₂ MapElem xs objs
  | _, [], objs, h => by cases h; exact ⟨rfl, .nil⟩
  | idx, x :: xs, objs, h => by
    cases x
    case obj m =>
      obtain ⟨ms, hrest, rfl⟩ := map_eq_ok.mp h
      obtain ⟨hall, hf⟩ := collectEntityMaps_ok hrest
      exact ⟨by simpa only [List.all_cons, JsonValue.isObj, Bool.true_and], .cons (.inl rfl) hf⟩
    all_goals cases h

theorem collectEntityMaps_exists : ∀ (idx : Nat) {xs : List JsonValue},
    xs.all JsonValue.isObj = true → ∃ objs, collectEntityMaps idx xs = .ok objs
  | _, [], _ => ⟨[], rfl⟩
  | idx, x :: xs, h => by
    simp only [List.all_cons, Bool.and_eq_true] at h
    obtain ⟨objs, hobjs⟩ := collectEntityMaps_exists (idx + 1) h.2
    cases x <;> first
      | exact absurd h.1 Bool.false_ne_true
      | exact ⟨_ :: objs, by rw [collectEntityMaps, hobjs]; rfl⟩

/-- The custom block succeeds on an accepted shape whose entries are valid and distinctly named,
    and its map's names are the entries' names. -/
theorem parseCustomEntities_ok {re : RegexpEngine} {params : Params}
    {acc : List (String × Regexp)} (h : parseCustomEntities re params = .ok acc) :
    ∃ xs, customEntries params = some xs ∧ (∀ x ∈ xs, ValidEntry re x) ∧
      (xs.filterMap entryName).Nodup ∧ acc.map Prod.fst = xs.filterMap entryName := by
  unfold parseCustomEntities at h
  split at h
  · rename_i raw hraw
    obtain ⟨objs, harr, hloop⟩ := bind_eq_ok.mp h
    obtain ⟨hv, hnd, hkeys⟩ := addCustomEntities_ok (by exact List.nodup_nil) hloop
    simp only [List.map_nil, List.nil_append] at hnd hkeys
    have transfer : ∀ xs, customEntries params = some xs → List.Forall₂ MapElem xs objs →
        ∃ xs, customEntries params = some xs ∧ (∀ x ∈ xs, ValidEntry re x) ∧
          (xs.filterMap entryName).Nodup ∧ acc.map Prod.fst = xs.filterMap entryName :=
      fun xs hxs hf => ⟨xs, hxs, (forall_validEntry_iff hf).mpr hv,
        (filterMap_entryName hf) ▸ hnd, (filterMap_entryName hf) ▸ hkeys⟩
    cases raw with
    | str v =>
      simp only [parseEntitiesArray] at harr
      split at harr
      · rename_i objs' hun
        cases harr
        rcases unmarshalMapSlice_eq_ok.mp hun with ⟨hdec, rfl⟩ | ⟨vs, hdec, hf⟩
        · exact transfer [] (by simp [customEntries, hraw, hdec]) .nil
        · exact transfer vs (by simp [customEntries, hraw, hdec]) hf
      · cases harr
    | arr ys =>
      obtain ⟨hall, hf⟩ := collectEntityMaps_ok harr
      exact transfer ys (by simp [customEntries, hraw, hall]) hf
    | null | bool _ | num _ | obj _ => cases harr
  · cases h
    exact ⟨[], by simp [customEntries, *], by simp, List.nodup_nil, rfl⟩

theorem parseCustomEntities_exists {re : RegexpEngine} {params : Params} {xs : List JsonValue}
    (hxs : customEntries params = some xs) (hv : ∀ x ∈ xs, ValidEntry re x)
    (hnd : (xs.filterMap entryName).Nodup) : ∃ acc, parseCustomEntities re params = .ok acc := by
  have loop : ∀ objs, List.Forall₂ MapElem xs objs →
      ∃ acc, addCustomEntities re 0 objs [] = .ok acc := fun objs hf =>
    addCustomEntities_exists 0 [] ((forall_validEntry_iff hf).mp hv)
      (by simpa [← filterMap_entryName hf] using hnd)
  unfold parseCustomEntities
  unfold customEntries at hxs
  split at hxs
  · rename_i hraw
    cases hxs
    simp only [hraw]; exact ⟨[], rfl⟩
  · rename_i v hraw
    simp only [hraw, parseEntitiesArray]
    split at hxs
    · rename_i hdec
      cases hxs
      rw [(unmarshalMapSlice_eq_ok.mpr (.inl ⟨hdec, rfl⟩) : unmarshalMapSlice v = .ok [])]
      exact ⟨[], rfl⟩
    · rename_i _ hdec
      cases hxs
      obtain ⟨objs, hf⟩ := exists_forall₂_mapElem fun x hx => by
        have := hv x hx; cases x <;> first | rfl | exact this.elim
      obtain ⟨acc, hacc⟩ := loop objs hf
      rw [unmarshalMapSlice_eq_ok.mpr (.inr ⟨_, hdec, hf⟩)]
      exact ⟨acc, hacc⟩
    · cases hxs
  · rename_i ys hraw
    split at hxs
    · rename_i hall
      cases hxs
      obtain ⟨objs, hobjs⟩ := collectEntityMaps_exists 0 hall
      obtain ⟨acc, hacc⟩ := loop objs (collectEntityMaps_ok hobjs).2
      exact ⟨acc, by simp only [hraw, parseEntitiesArray, hobjs]; exact hacc⟩
    · cases hxs
  · cases hxs

theorem parseBoolParam_ok {params : Params} {key : String} {b : Bool} :
    parseBoolParam params key = .ok b ↔
      (params.lookup key = none ∧ b = false) ∨ params.lookup key = some (.bool b) := by
  cases hv : params.lookup key with
  | none => simp [parseBoolParam, hv, eq_comm]
  | some v => cases v <;> simp [parseBoolParam, hv]

theorem parseBoolParam_exists {params : Params} {key : String}
    (h : ∀ v, params.lookup key = some v → v.isBool = true) :
    ∃ b, parseBoolParam params key = .ok b := by
  cases hv : params.lookup key with
  | none => exact ⟨false, by rw [parseBoolParam, hv]⟩
  | some v =>
    cases v <;> first | exact absurd (h _ hv) Bool.false_ne_true | exact ⟨_, by rw [parseBoolParam, hv]⟩

theorem addBuiltin_ok {acc r : List (String × Regexp)} {enabled : Bool} {name : String}
    {pattern : Regexp} :
    addBuiltin acc enabled name pattern = .ok r ↔
      (enabled = false ∧ r = acc) ∨
        (enabled = true ∧ name ∉ acc.map Prod.fst ∧ r = acc ++ [(name, pattern)]) := by
  cases enabled
  · simp only [addBuiltin, Bool.false_eq_true, if_false, Except.ok.injEq, true_and, false_and,
      or_false, @eq_comm _ r]
  · by_cases h : name ∈ acc.map Prod.fst
    · simp only [addBuiltin, if_true, (lookup_isSome_iff acc name).mpr h, reduceCtorEq, h,
        Bool.true_eq_false, false_and, not_true_eq_false, and_false, or_false]
    · have h' : (acc.lookup name).isSome = false := by
        rw [← Bool.not_eq_true, lookup_isSome_iff]; exact h
      simp only [addBuiltin, h', h, Bool.false_eq_true, Bool.true_eq_false, if_false, if_true,
        Except.ok.injEq, false_and, not_false_eq_true, true_and, false_or, @eq_comm _ r]

theorem addBuiltin_keys {acc r : List (String × Regexp)} {enabled : Bool} {name : String}
    {pattern : Regexp} (h : addBuiltin acc enabled name pattern = .ok r) :
    r.map Prod.fst = acc.map Prod.fst ++ (if enabled then [name] else []) ∧
      (enabled = true → name ∉ acc.map Prod.fst) := by
  rcases addBuiltin_ok.mp h with ⟨rfl, rfl⟩ | ⟨rfl, hn, rfl⟩
  · exact ⟨(List.append_nil _).symm, nofun⟩
  · exact ⟨List.map_append .., fun _ => hn⟩

theorem addBuiltin_exists {acc : List (String × Regexp)} {enabled : Bool} {name : String}
    (pattern : Regexp) (h : enabled = true → name ∉ acc.map Prod.fst) :
    ∃ r, addBuiltin acc enabled name pattern = .ok r := by
  cases enabled
  · exact ⟨acc, addBuiltin_ok.mpr (.inl ⟨rfl, rfl⟩)⟩
  · exact ⟨_, addBuiltin_ok.mpr (.inr ⟨rfl, h rfl, rfl⟩)⟩

theorem parseBoolParam_true {params : Params} {key : String} {b : Bool}
    (h : parseBoolParam params key = .ok b) : b = true ↔ params.lookup key = some (.bool true) := by
  rcases parseBoolParam_ok.mp h with ⟨hk, rfl⟩ | hk <;> simp [hk]

theorem enabledBuiltins_eq (params : Params) : enabledBuiltins params =
    (if params.lookup "email" = some (.bool true) then [defaultEmailEntityName] else []) ++
    (if params.lookup "phone" = some (.bool true) then [defaultPhoneEntityName] else []) ++
    (if params.lookup "ssn" = some (.bool true) then [defaultSSNEntityName] else []) := by
  unfold enabledBuiltins builtinToggles
  by_cases h1 : params.lookup "email" = some (.bool true) <;>
  by_cases h2 : params.lookup "phone" = some (.bool true) <;>
  by_cases h3 : params.lookup "ssn" = some (.bool true) <;>
  simp only [List.filterMap_cons, List.filterMap_nil, h1, h2, h3, if_true, if_false] <;> rfl

theorem parseJsonPath_ok {params : Params} {p : String} :
    parseJsonPath params = .ok p ↔
      (params.lookup "jsonPath" = none ∧ p = "$.messages") ∨ params.lookup "jsonPath" = some (.str p) := by
  cases hv : params.lookup "jsonPath" with
  | none => simp [parseJsonPath, hv, eq_comm]
  | some v => cases v <;> simp [parseJsonPath, hv]

theorem parseRedactPII_eq (params : Params) : parseRedactPII params = parseBoolParam params "redactPII" :=
  rfl

/-- The enabled built-ins, from the three toggles as parseBoolParam reads them. -/
theorem enabledBuiltins_of_parseBoolParam {params : Params} {e ph ss : Bool}
    (he : parseBoolParam params "email" = .ok e) (hph : parseBoolParam params "phone" = .ok ph)
    (hss : parseBoolParam params "ssn" = .ok ss) : enabledBuiltins params =
      (if e then [defaultEmailEntityName] else []) ++ (if ph then [defaultPhoneEntityName] else []) ++
        (if ss then [defaultSSNEntityName] else []) := by
  simp only [enabledBuiltins_eq, ← parseBoolParam_true he, ← parseBoolParam_true hph,
    ← parseBoolParam_true hss]

/-- The three built-in blocks add the enabled names, in the order of the code. -/
theorem addBuiltins_keys {acc a1 a2 a3 : List (String × Regexp)} {e ph ss : Bool}
    {pe pp ps : Regexp} (h1 : addBuiltin acc e defaultEmailEntityName pe = .ok a1)
    (h2 : addBuiltin a1 ph defaultPhoneEntityName pp = .ok a2)
    (h3 : addBuiltin a2 ss defaultSSNEntityName ps = .ok a3) :
    a3.map Prod.fst = acc.map Prod.fst ++ ((if e then [defaultEmailEntityName] else []) ++
      (if ph then [defaultPhoneEntityName] else []) ++ (if ss then [defaultSSNEntityName] else [])) := by
  rw [(addBuiltin_keys h3).1, (addBuiltin_keys h2).1, (addBuiltin_keys h1).1]
  simp only [List.append_assoc]

/-- A successful parse accepts a valid configuration, and its detectors are the custom entries'
    names, then the enabled built-ins. -/
theorem parseParams_ok {re : RegexpEngine} {params : Params} {r : PIIMaskingRegexPolicyParams}
    (h : parseParams re params = .ok r) :
    ¬ Invalid re params ∧ r.piiEntities.map Prod.fst =
      ((customEntries params).getD []).filterMap entryName ++ enabledBuiltins params := by
  simp only [parseParams, bind_eq_ok] at h
  obtain ⟨acc, hacc, e, he, ph, hph, ss, hss, a1, ha1, a2, ha2, a3, ha3, h⟩ := h
  split at h; · cases h
  rename_i hne
  obtain ⟨jp, hjp, rp, hrp, h⟩ := bind_eq_ok.mp h |>.imp fun _ => And.imp_right bind_eq_ok.mp
  cases h
  obtain ⟨xs, hxs, hv, hnd, hkeys⟩ := parseCustomEntities_ok hacc
  obtain ⟨k1, n1⟩ := addBuiltin_keys ha1
  obtain ⟨k2, n2⟩ := addBuiltin_keys ha2
  have hen := enabledBuiltins_of_parseBoolParam he hph hss
  have hall : a3.map Prod.fst = xs.filterMap entryName ++ enabledBuiltins params := by
    rw [addBuiltins_keys ha1 ha2 ha3, hkeys, hen]
  refine ⟨?_, by rw [hxs, Option.getD_some]; exact hall⟩
  -- each of the six conditions fails
  have hbool : ∀ {k b}, parseBoolParam params k = .ok b → ∀ v, params.lookup k = some v →
      v.isBool = true := fun hk v hkv => by
    rcases parseBoolParam_ok.mp hk with ⟨hn, -⟩ | hb
    · rw [hn] at hkv; cases hkv
    · rw [hb] at hkv; cases hkv; rfl
  rw [Invalid, hxs, Option.getD_some]
  rintro (h | ⟨x, hx, hnv⟩ | h | h | ⟨b, hb, hbn⟩ | ⟨rfl, h⟩)
  · cases h
  · exact hnv (hv x hx)
  · exact h hnd
  · rcases h with ⟨k, hk, v, hkv, hnb⟩ | ⟨v, hkv, hns⟩
    · simp only [List.mem_cons, List.mem_singleton, List.not_mem_nil, or_false] at hk
      rcases hk with rfl | rfl | rfl | rfl
      · exact absurd (hbool he v hkv) (by simp [hnb])
      · exact absurd (hbool hph v hkv) (by simp [hnb])
      · exact absurd (hbool hss v hkv) (by simp [hnb])
      · exact absurd (hbool (parseRedactPII_eq params ▸ hrp) v hkv) (by simp [hnb])
    · rcases parseJsonPath_ok.mp hjp with ⟨hn, -⟩ | hp
      · rw [hn] at hkv; cases hkv
      · rw [hp] at hkv; cases hkv; cases hns
  · rw [hen] at hb
    simp only [List.mem_append] at hb
    rcases hb with (hb | hb) | hb <;> split at hb <;> simp only [List.mem_singleton,
      List.not_mem_nil] at hb <;> subst hb
    · exact n1 ‹_› (hkeys ▸ hbn)
    · exact n2 ‹_› (by rw [k1, hkeys]; exact List.mem_append_left _ hbn)
    · exact (addBuiltin_keys ha3).2 ‹_›
        (by rw [k2, k1, hkeys]; exact List.mem_append_left _ (List.mem_append_left _ hbn))
  · rw [List.filterMap_nil, List.nil_append, h] at hall
    exact hne (by simpa using List.map_eq_nil_iff.mp hall)

theorem entryName_of_valid {re : RegexpEngine} {x : JsonValue} (h : ValidEntry re x) :
    ∃ name, entryName x = some name := by
  cases x <;> first | exact h.elim | skip
  obtain ⟨name, -, -, hname, -⟩ := h
  exact ⟨name, by simp [entryName, objName, hname]⟩

/-- A configuration none of the six conditions hits is accepted. -/
theorem parseParams_exists {re : RegexpEngine} {params : Params} (h : ¬ Invalid re params) :
    ∃ r, parseParams re params = .ok r := by
  simp only [Invalid, not_or, not_exists, not_and, not_not] at h
  obtain ⟨h1, h2, h3, h4, h5, h6⟩ := h
  obtain ⟨xs, hxs⟩ := Option.ne_none_iff_exists'.mp h1
  simp only [hxs, Option.getD_some] at h2 h3 h5 h6
  obtain ⟨acc, hacc⟩ := parseCustomEntities_exists hxs h2 h3
  obtain ⟨xs', hxs', -, -, hkeys⟩ := parseCustomEntities_ok hacc
  obtain rfl : xs = xs' := Option.some.inj (hxs.symm.trans hxs')
  have hbool : ∀ k ∈ ["email", "phone", "ssn", "redactPII"], ∀ v, params.lookup k = some v →
      v.isBool = true := fun k hk v hv => by
    by_contra hnb; exact h4 (.inl ⟨k, hk, v, hv, by simpa using hnb⟩)
  obtain ⟨e, he⟩ := parseBoolParam_exists (hbool "email" (by simp))
  obtain ⟨ph, hph⟩ := parseBoolParam_exists (hbool "phone" (by simp))
  obtain ⟨ss, hss⟩ := parseBoolParam_exists (hbool "ssn" (by simp))
  obtain ⟨rp, hrp⟩ := parseBoolParam_exists (hbool "redactPII" (by simp))
  obtain ⟨jp, hjp⟩ : ∃ jp, parseJsonPath params = .ok jp := by
    cases hv : params.lookup "jsonPath" with
    | none => exact ⟨"$.messages", by simp [parseJsonPath, hv]⟩
    | some v =>
      by_cases hs : v.isStr = true
      · cases v <;> simp only [JsonValue.isStr, Bool.false_eq_true] at hs
        rename_i p
        exact ⟨p, by simp [parseJsonPath, hv]⟩
      · exact (h4 (.inr ⟨_, hv, by simpa using hs⟩)).elim
  have hen := enabledBuiltins_of_parseBoolParam he hph hss
  obtain ⟨a1, ha1⟩ := addBuiltin_exists re.defaultEmail
    (show e = true → defaultEmailEntityName ∉ acc.map Prod.fst from fun he' => by
      rw [hkeys]; exact h5 _ (by rw [hen]; simp [he']))
  obtain ⟨k1, -⟩ := addBuiltin_keys ha1
  obtain ⟨a2, ha2⟩ := addBuiltin_exists re.defaultPhone
    (show ph = true → defaultPhoneEntityName ∉ a1.map Prod.fst from fun hph' => by
      rw [k1, hkeys, List.mem_append, not_or]
      refine ⟨h5 _ (by rw [hen]; simp [hph']), ?_⟩
      split <;> simp [defaultPhoneEntityName, defaultEmailEntityName])
  obtain ⟨k2, -⟩ := addBuiltin_keys ha2
  obtain ⟨a3, ha3⟩ := addBuiltin_exists re.defaultSSN
    (show ss = true → defaultSSNEntityName ∉ a2.map Prod.fst from fun hss' => by
      rw [k2, k1, hkeys, List.mem_append, List.mem_append, not_or, not_or]
      refine ⟨⟨h5 _ (by rw [hen]; simp [hss']), ?_⟩, ?_⟩ <;>
        split <;> simp [defaultSSNEntityName, defaultPhoneEntityName, defaultEmailEntityName])
  have hall : a3.map Prod.fst = xs.filterMap entryName ++ enabledBuiltins params := by
    rw [addBuiltins_keys ha1 ha2 ha3, hkeys, hen]
  have hne : a3.isEmpty = false := by
    rw [Bool.eq_false_iff, ne_eq, List.isEmpty_iff, ← List.map_eq_nil_iff, hall,
      List.append_eq_nil, not_and_or]
    rcases xs with _ | ⟨x, xs⟩
    · exact .inr (h6 rfl)
    · obtain ⟨name, hn⟩ := entryName_of_valid (h2 x (List.mem_cons_self _ _))
      exact .inl (by simp [List.filterMap_cons, hn])
  exact ⟨⟨a3, jp, rp⟩, by
    simp only [parseParams, hacc, he, hph, hss, ha1, ha2, ha3, bind, Except.bind, hne, Bool.false_eq_true,
      if_false, hjp, parseRedactPII_eq, hrp]; rfl⟩

/-! ### parseParams -/

/-- parseParams fails exactly on the configurations one of the six conditions names; on success
    its detectors are the custom entries, then the enabled built-ins. -/
theorem parseParams_error_iff (re : RegexpEngine) (params : Params) :
    ((∃ e, parseParams re params = .error e) ↔ Invalid re params) ∧
    ∀ r, parseParams re params = .ok r → r.piiEntities.map Prod.fst =
      ((customEntries params).getD []).filterMap entryName ++ enabledBuiltins params := by
  refine ⟨⟨fun ⟨e, he⟩ => ?_, fun h => ?_⟩, fun r hr => (parseParams_ok hr).2⟩
  · by_contra hv
    obtain ⟨r, hr⟩ := parseParams_exists hv
    rw [hr] at he; cases he
  · cases hp : parseParams re params with
    | error e => exact ⟨e, rfl⟩
    | ok r => exact absurd h (parseParams_ok hp).1

/-- A customPIIEntities string that is JSON null, not an array, is accepted with email enabled,
    whatever the regexp engine: it unmarshals into a nil slice. -/
theorem parseParams_null_entities :
    decode "null" = .ok .null ∧
    ∀ re : RegexpEngine,
      ((parseParams re [("customPIIEntities", .str "null"), ("email", .bool true)]).toOption.map
        fun r => r.piiEntities.map Prod.fst) = some ["EMAIL"] :=
  ⟨by decide, fun _ => rfl⟩

set_option exponentiation.threshold 500 in
example (re : RegexpEngine) : parseParams re [("customPIIEntities",
      .str "[\x7b\"piiEntity\": \"X\", \"piiRegex\": \"a\", \"n\": 1e400\x7d]")] =
    .error ("error unmarshaling PII entities: json: cannot unmarshal number 1e400 into Go " ++
      "value of type float64") := rfl

end PIIMaskingRegex
