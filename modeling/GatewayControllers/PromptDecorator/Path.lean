import Mathlib.Data.List.Basic
import GatewayControllers.Go.Json

/-! prompt-decorator | updateStringAtPath, updateArrayAtPath, navigatePath, setValueAtPath,
    buildErrorResponse | src/unnamed/part_001, lines 32, 344–531

    The decorated value is written back into the request payload at the policy's JSONPath. After
    an optional leading "$." the path is split at dots. The loop navigates every component but
    the last: a key of an object, or `name[i]`, the element of the array at key `name`, a
    negative `i` counting from its end. setValueAtPath then stores the value at the last
    component, where a key may be new to its object. Go updates the maps and slices on the way
    in place, so the model rebuilds the payload along the path.

    A location is a list of steps, each a key or an array position (`getAt`, `setAt`). Storing
    at a location leaves every location off its path as it was (`getAt_setAt_of_not_prefix`).
    The write-back is exactly the store at the location the path resolves to, and it fails
    exactly when the path resolves to none (`updateComponents_toOption`). The path "$." alone is
    refused, though its one component names the empty key (`updateStringAtPath_empty_path`).
    A failure is reported at the first component where navigation gives nil, as a key not found
    whatever the cause (a missing key, a null value, an index out of range), or at the last
    component with setValueAtPath's error; storing back on the way never fails
    (`updateComponents_eq_error`). -/

namespace PromptDecorator
open GoJson

/-! ### Path components -/

/-- A rune of `[a-zA-Z0-9_]`. -/
def isNameRune (c : Char) : Bool := c.isAlphanum || c == '_'

/-- A text of `-?\d+`. -/
def isIndexText : List Char → Bool
  | '-' :: ds => !ds.isEmpty && ds.all Char.isDigit
  | ds => !ds.isEmpty && ds.all Char.isDigit

/-- `arrayIndexRegex.FindStringSubmatch(key)` for `^([a-zA-Z0-9_]+)\[(-?\d+)\]$`: the array
    name and the index text, when the whole component matches. The name has no "[", so it ends
    at the first one. -/
def arrayIndexMatch (key : String) : Option (String × String) :=
  match key.toList.span (· != '[') with
  | (name, '[' :: rest) =>
    match rest.reverse with
    | ']' :: idx =>
      if !name.isEmpty && name.all isNameRune && isIndexText idx.reverse then
        some (⟨name⟩, ⟨idx.reverse⟩)
      else none
    | _ => none
  | _ => none

theorem span_name_bracket {name rest : List Char} (hname : '[' ∉ name) :
    (name ++ '[' :: rest).span (· != '[') = (name, '[' :: rest) := by
  have hpos : ∀ c ∈ name, (c != '[') = true := fun c hc => by
    simp only [bne_iff_ne, ne_eq]; rintro rfl; exact hname hc
  rw [List.span_eq_take_drop, List.takeWhile_append_of_pos hpos,
    List.dropWhile_append_of_pos hpos]
  simp

/-- arrayIndexMatch accepts exactly the components `name[idx]` with a name of
    `[a-zA-Z0-9_]+` and an index of `-?\d+`, and returns the two parts. -/
theorem arrayIndexMatch_eq_some_iff {key name idx : String} :
    arrayIndexMatch key = some (name, idx) ↔
      key.toList = name.toList ++ '[' :: (idx.toList ++ [']']) ∧ name.toList ≠ [] ∧
        name.toList.all isNameRune ∧ isIndexText idx.toList := by
  obtain ⟨k⟩ := key
  obtain ⟨n⟩ := name
  obtain ⟨i⟩ := idx
  simp only [arrayIndexMatch, String.toList]
  constructor
  · intro h
    have hk := List.takeWhile_append_dropWhile (· != '[') k
    rw [List.span_eq_take_drop] at h
    split at h
    · rename_i nm rest hspan
      simp only [Prod.mk.injEq] at hspan
      obtain ⟨rfl, hrest⟩ := hspan
      split at h
      · rename_i idxR hrev
        split_ifs at h with hc
        simp only [Option.some.injEq, Prod.mk.injEq] at h
        obtain ⟨h₁, h₂⟩ := h
        injection h₁ with h₁
        injection h₂ with h₂
        subst h₁ h₂
        simp only [Bool.and_eq_true, Bool.not_eq_true', List.isEmpty_eq_false] at hc
        refine ⟨?_, hc.1.1, hc.1.2, hc.2⟩
        calc k = _ ++ _ := hk.symm
          _ = _ := by rw [hrest, ← List.reverse_reverse rest, hrev]; simp
      · cases h
    · cases h
  · rintro ⟨rfl, hn, hall, hidx⟩
    have hname : '[' ∉ n := fun hm => by
      have := List.all_eq_true.mp hall _ hm
      simp [isNameRune] at this
    rw [span_name_bracket hname]
    simp [hall, hidx, hn]

example : arrayIndexMatch "messages[-1]" = some ("messages", "-1") := by decide

example : arrayIndexMatch "a[b]" = none := by decide

/-- `strconv.Atoi` on a text of `-?\d+`: its value, when that lies in the range of int. -/
def atoi (s : String) : Option Int :=
  let v : Int := match s.toList with
    | '-' :: ds => -(digitsValue ds : Int)
    | ds => digitsValue ds
  if -9223372036854775808 ≤ v ∧ v ≤ 9223372036854775807 then some v else none

/-- The position `idx` names in an array of `len` elements (`idx = len(arr) + idx` when it is
    negative), if it lies in the array. -/
def resolveIndex (len : Nat) (idx : Int) : Option Nat :=
  let i := if idx < 0 then len + idx else idx
  if i < 0 ∨ len ≤ i then none else some i.toNat

/-- navigatePath: the value a component names in `current`, nil where it names none. -/
def navigatePath (current : JsonValue) (key : String) : JsonValue :=
  match arrayIndexMatch key with
  | some (arrayName, idxStr) =>
    match atoi idxStr, current with
    | some idx, .obj node =>
      match node.lookup arrayName with
      | some (.arr arr) =>
        match resolveIndex arr.length idx with
        | some i => arr[i]?.getD .null
        | none => .null
      | _ => .null
    | _, _ => .null
  | none =>
    match current with
    | .obj node => (node.lookup key).getD .null
    | _ => .null

/-- setValueAtPath: `current` with `value` stored where the component names, or the error the
    code returns. Go writes into the map or slice in place; the model returns the container. -/
def setValueAtPath (current : JsonValue) (key : String) (value : JsonValue) :
    Except String JsonValue :=
  match arrayIndexMatch key with
  | some (arrayName, idxStr) =>
    match atoi idxStr with
    | none => .error ("invalid array index: " ++ idxStr)
    | some idx =>
      match current with
      | .obj node =>
        match node.lookup arrayName with
        | some (.arr arr) =>
          match resolveIndex arr.length idx with
          | some i => .ok (.obj (setKey node arrayName (.arr (arr.set i value))))
          | none => .error ("array index out of range: " ++ idxStr)
        | some _ => .error ("not an array: " ++ arrayName)
        | none => .error ("key not found: " ++ arrayName)
      | _ => .error ("invalid structure for key: " ++ arrayName)
  | none =>
    match current with
    | .obj node => .ok (.obj (setKey node key value))
    | _ => .error ("invalid structure for key: " ++ key)

/-! ### Responses -/

/-- The policy.RequestAction values the decorator returns, each body as the JSON value that
    json.Marshal encodes. -/
inductive RequestAction where
  | upstreamRequestModifications (body : JsonValue)
  | immediateResponse (statusCode : Nat) (headers : List (String × String)) (body : JsonValue)
  deriving DecidableEq

/-- buildErrorResponse: a 500 response whose message is the reason, then the error if any. -/
def buildErrorResponse (reason : String) (validationError : Option String) : RequestAction :=
  let errorMessage := match validationError with
    | some err => reason ++ ": " ++ err
    | none => reason
  .immediateResponse 500 [("Content-Type", "application/json")]
    (.obj [("type", .str "PROMPT_DECORATOR_ERROR"), ("message", .str errorMessage)])

/-! ### Write-back -/

/-- The path after a leading "$.", if there is one. -/
def trimRootPrefix (jsonPath : String) : String :=
  match jsonPath.toList with
  | '$' :: '.' :: rest => ⟨rest⟩
  | _ => jsonPath

/-- `strings.Split(path, ".")`. -/
def splitPath (path : String) : List String := (path.toList.splitOn '.').map String.mk

/-- The navigation loop of updateStringAtPath and updateArrayAtPath and their final
    setValueAtPath, from `current` along the components; an error is the reason and the error
    that buildErrorResponse reports. Each container on the way is a map, or a slice in one, that
    Go updates in place: the model stores the updated child back where navigatePath found it. -/
def updateComponents (current : JsonValue) :
    List String → JsonValue → Except (String × String) JsonValue
  | [], _ => .ok current
  | [finalKey], value =>
    (setValueAtPath current finalKey value).mapError ("Error updating JSONPath", ·)
  | key :: rest, value =>
    let child := navigatePath current key
    if child = .null then .error ("Error navigating JSONPath", "key not found: " ++ key)
    else updateComponents child rest value >>= fun child =>
      (setValueAtPath current key child).mapError ("Error updating JSONPath", ·)

theorem updateComponents_cons_cons (current : JsonValue) (key k : String) (rest : List String)
    (value : JsonValue) :
    updateComponents current (key :: k :: rest) value =
      if navigatePath current key = .null then
        .error ("Error navigating JSONPath", "key not found: " ++ key)
      else updateComponents (navigatePath current key) (k :: rest) value >>= fun child =>
        (setValueAtPath current key child).mapError ("Error updating JSONPath", ·) := rfl

/-- The "Navigate to parent" loop of updateStringAtPath and updateArrayAtPath alone: the value
    navigatePath reaches along the components, none where it gives nil. -/
def navigateToParent (current : JsonValue) : List String → Option JsonValue
  | [] => some current
  | key :: rest =>
    let child := navigatePath current key
    if child = .null then none else navigateToParent child rest

/-- updateStringAtPath and updateArrayAtPath, which differ only in the value they store. -/
def updateAtPath (payloadData : JsonObject) (jsonPath : String) (value : JsonValue) :
    RequestAction :=
  let path := trimRootPrefix jsonPath
  if path = "" then buildErrorResponse "Invalid JSONPath" (some "empty path")
  else
    match updateComponents (.obj payloadData) (splitPath path) value with
    | .ok updated => .upstreamRequestModifications updated
    | .error (reason, err) => buildErrorResponse reason (some err)

/-- updateStringAtPath. -/
def updateStringAtPath (payloadData : JsonObject) (jsonPath : String) (value : String) :
    RequestAction :=
  updateAtPath payloadData jsonPath (.str value)

/-- updateArrayAtPath: the messages are stored as a `[]interface{}` of maps. -/
def updateArrayAtPath (payloadData : JsonObject) (jsonPath : String)
    (value : List JsonObject) : RequestAction :=
  updateAtPath payloadData jsonPath (.arr (value.map .obj))

/-! ### Locations -/

/-- One step into a JSON value: a key of an object, or a position in an array. -/
inductive Step where
  | key (k : String)
  | elem (i : Nat)
  deriving DecidableEq

/-- The value at a location. -/
def getAt : JsonValue → List Step → Option JsonValue
  | v, [] => some v
  | .obj m, .key k :: loc => (m.lookup k).bind (getAt · loc)
  | .arr xs, .elem i :: loc => xs[i]?.bind (getAt · loc)
  | _, _ :: _ => none

/-- The value with `v` stored at a location. A key missing from its object reads as null, so
    only the last step may add one. -/
def setAt : JsonValue → List Step → JsonValue → Option JsonValue
  | _, [], v => some v
  | .obj m, .key k :: loc, v =>
    (setAt ((m.lookup k).getD .null) loc v).map fun c => .obj (setKey m k c)
  | .arr xs, .elem i :: loc, v => xs[i]?.bind fun c => (setAt c loc v).map fun c => .arr (xs.set i c)
  | _, _ :: _, _ => none

@[simp] theorem getAt_nil (v : JsonValue) : getAt v [] = some v := by cases v <;> rfl

@[simp] theorem setAt_nil (x v : JsonValue) : setAt x [] v = some v := by cases x <;> rfl

/-- Below a missing key nothing is read, as below null. -/
theorem getAt_getD_null (o : Option JsonValue) {loc : List Step} (hloc : loc ≠ []) :
    getAt (o.getD .null) loc = o.bind (getAt · loc) := by
  obtain ⟨s, loc, rfl⟩ := List.exists_cons_of_ne_nil hloc
  cases o <;> cases s <;> rfl

/-- Storing below an existing location is storing into its value, then storing that back. -/
theorem setAt_append {x c : JsonValue} {p : List Step} (h : getAt x p = some c) (q : List Step)
    (v : JsonValue) : setAt x (p ++ q) v = (setAt c q v).bind (setAt x p ·) := by
  induction p generalizing x with
  | nil => simp_all
  | cons s p ih =>
    cases x <;> cases s <;> simp only [getAt, reduceCtorEq] at h
    case obj.key m k =>
      obtain ⟨c0, hc0, hp⟩ := Option.bind_eq_some.mp h
      simp [setAt, hc0, ih hp, Option.map_bind]
    case arr.elem xs i =>
      obtain ⟨c0, hc0, hp⟩ := Option.bind_eq_some.mp h
      simp [setAt, hc0, ih hp, Option.map_bind]

/-- A store is read back at its location. -/
theorem getAt_setAt_self {x y v : JsonValue} {loc : List Step} (h : setAt x loc v = some y) :
    getAt y loc = some v := by
  induction loc generalizing x y with
  | nil => simp_all
  | cons s loc ih =>
    cases x <;> cases s <;> simp only [setAt, reduceCtorEq] at h
    case obj.key m k =>
      obtain ⟨c, hc, rfl⟩ := Option.map_eq_some'.mp h
      simp [getAt, ih hc]
    case arr.elem xs i =>
      obtain ⟨c0, hc0, hm⟩ := Option.bind_eq_some.mp h
      obtain ⟨c, hc, rfl⟩ := Option.map_eq_some'.mp hm
      have hi : i < xs.length := (List.getElem?_eq_some_iff.mp hc0).1
      simp [getAt, hi, ih hc]

/-- A store leaves every location off its path as it was. -/
theorem getAt_setAt_of_not_prefix {x y v : JsonValue} {loc loc' : List Step}
    (h : setAt x loc v = some y) (h₁ : ¬ loc <+: loc') (h₂ : ¬ loc' <+: loc) :
    getAt y loc' = getAt x loc' := by
  induction loc generalizing x y loc' with
  | nil => exact absurd List.nil_prefix h₁
  | cons s loc ih =>
    obtain _ | ⟨s', loc'⟩ := loc'
    · exact absurd List.nil_prefix h₂
    cases x <;> cases s <;> simp only [setAt, reduceCtorEq] at h
    case obj.key m k =>
      obtain ⟨c, hc, rfl⟩ := Option.map_eq_some'.mp h
      cases s' with
      | elem j => rfl
      | key k' =>
        by_cases hk : k' = k
        · subst hk
          simp only [List.cons_prefix_cons, true_and] at h₁ h₂
          have hloc' : loc' ≠ [] := by rintro rfl; exact h₂ List.nil_prefix
          simp [getAt, ih hc h₁ h₂, getAt_getD_null _ hloc']
        · simp [getAt, lookup_setKey_of_ne _ _ hk]
    case arr.elem xs i =>
      obtain ⟨c0, hc0, hm⟩ := Option.bind_eq_some.mp h
      obtain ⟨c, hc, rfl⟩ := Option.map_eq_some'.mp hm
      cases s' with
      | key k => rfl
      | elem j =>
        by_cases hj : j = i
        · subst hj
          simp only [List.cons_prefix_cons, true_and] at h₁ h₂
          have hi : j < xs.length := (List.getElem?_eq_some_iff.mp hc0).1
          simp [getAt, hi, hc0, ih hc h₁ h₂]
        · simp [getAt, List.getElem?_set_ne (Ne.symm hj)]

/-! ### The location a path addresses -/

/-- The steps a component names in `current` for navigatePath and setValueAtPath: `name[i]` the
    element of the array at key `name`, a negative `i` counting from its end, and any other
    component a key of an object. -/
def componentSteps (current : JsonValue) (key : String) : Option (List Step) :=
  match arrayIndexMatch key with
  | some (arrayName, idxStr) =>
    match atoi idxStr, current with
    | some idx, .obj node =>
      match node.lookup arrayName with
      | some (.arr arr) => (resolveIndex arr.length idx).map fun i => [.key arrayName, .elem i]
      | _ => none
    | _, _ => none
  | none =>
    match current with
    | .obj _ => some [.key key]
    | _ => none

/-- The location the components address from `current`: navigatePath's steps through each
    component but the last, each to a non-null value, then the steps setValueAtPath's rule
    takes for the last. -/
def resolvePath (current : JsonValue) : List String → Option (List Step)
  | [] => some []
  | [finalKey] => componentSteps current finalKey
  | key :: rest =>
    let child := navigatePath current key
    if child = .null then none
    else (componentSteps current key).bind fun loc => (resolvePath child rest).map (loc ++ ·)

theorem lt_of_resolveIndex {len : Nat} {idx : Int} {i : Nat} (h : resolveIndex len idx = some i) :
    i < len := by
  simp only [resolveIndex] at h
  split_ifs at h <;> cases h <;> omega

/-- An index names a position exactly when it lies in [-len, len). -/
theorem resolveIndex_isSome_iff (len : Nat) (idx : Int) :
    (resolveIndex len idx).isSome ↔ -(len : Int) ≤ idx ∧ idx < len := by
  simp only [resolveIndex]
  split_ifs <;> simp <;> omega

/-- A component names steps exactly when its parent is an object and, for `name[i]`, the value
    at `name` is an array with `i` (as strconv.Atoi reads it) in [-len, len). -/
theorem componentSteps_isSome_iff (current : JsonValue) (key : String) :
    (componentSteps current key).isSome ↔ ∃ node, current = .obj node ∧
      ∀ arrayName idxStr, arrayIndexMatch key = some (arrayName, idxStr) →
        ∃ idx arr, atoi idxStr = some idx ∧ node.lookup arrayName = some (.arr arr) ∧
          -(arr.length : Int) ≤ idx ∧ idx < arr.length := by
  unfold componentSteps
  split <;> rename_i hm <;> simp only [hm, Option.some.injEq, Prod.mk.injEq, reduceCtorEq,
    false_imp_iff, implies_true, and_true]
  case h_1 arrayName idxStr =>
    split
    case h_1 idx node ha =>
      split
      case h_1 arr hl => simp [ha, hl, ← resolveIndex_isSome_iff]
      case h_2 hl => simpa [ha] using fun arr h => absurd h (hl arr)
    case h_2 hne =>
      simp only [Option.isSome_none, Bool.false_eq_true, false_iff, not_exists, not_and]
      rintro node rfl h
      obtain ⟨idx, _, ha, -⟩ := h _ _ ⟨rfl, rfl⟩
      exact hne idx node ha rfl
  case h_2 => cases current <;> simp

/-- navigatePath reads the value at the steps its component names. -/
theorem navigatePath_eq_getAt (current : JsonValue) (key : String) :
    navigatePath current key = ((componentSteps current key).bind (getAt current)).getD .null := by
  unfold navigatePath componentSteps
  split
  · split
    · split
      · split <;> simp_all [getAt]
      · rfl
    · rfl
  · cases current <;> simp [getAt]

theorem exists_componentSteps_of_navigatePath {current : JsonValue} {key : String}
    (h : navigatePath current key ≠ .null) :
    ∃ loc, componentSteps current key = some loc ∧
      getAt current loc = some (navigatePath current key) := by
  rw [navigatePath_eq_getAt] at h ⊢
  cases hc : componentSteps current key with
  | none => simp [hc] at h
  | some loc => cases hg : getAt current loc <;> simp_all

/-- setValueAtPath stores at the steps its component names, and fails where it names none. -/
theorem setValueAtPath_toOption (current : JsonValue) (key : String) (value : JsonValue) :
    (setValueAtPath current key value).toOption =
      (componentSteps current key).bind (setAt current · value) := by
  rcases hm : arrayIndexMatch key with _ | ⟨arrayName, idxStr⟩
  · cases current <;> simp [setValueAtPath, componentSteps, hm, setAt, Except.toOption]
  rcases ha : atoi idxStr with _ | idx
  · simp [setValueAtPath, componentSteps, hm, ha, Except.toOption]
  cases current
  case obj node =>
    cases hl : node.lookup arrayName with
    | none => simp [setValueAtPath, componentSteps, hm, ha, hl, Except.toOption]
    | some v =>
      cases v
      case arr arr =>
        cases hr : resolveIndex arr.length idx with
        | none => simp [setValueAtPath, componentSteps, hm, ha, hl, hr, Except.toOption]
        | some i =>
          simp [setValueAtPath, componentSteps, hm, ha, hl, hr, setAt, Except.toOption,
            lt_of_resolveIndex hr]
      all_goals simp [setValueAtPath, componentSteps, hm, ha, hl, Except.toOption]
  all_goals simp [setValueAtPath, componentSteps, hm, ha, Except.toOption]

/-- The steps a component names can always be stored at. -/
theorem setAt_componentSteps_isSome {current : JsonValue} {key : String} {loc : List Step}
    (h : componentSteps current key = some loc) (v : JsonValue) :
    (setAt current loc v).isSome := by
  unfold componentSteps at h
  split at h
  · split at h
    · split at h
      · obtain ⟨i, hi, rfl⟩ := Option.map_eq_some'.mp h
        simp_all [setAt, lt_of_resolveIndex hi]
      · cases h
    · cases h
  · split at h <;> cases h
    simp [setAt]

/-- Storing back into a container that navigation went through never fails. -/
theorem setValueAtPath_ok_of_navigatePath {current : JsonValue} {key : String}
    (h : navigatePath current key ≠ .null) (v : JsonValue) :
    ∃ y, setValueAtPath current key v = .ok y := by
  obtain ⟨loc, hloc, -⟩ := exists_componentSteps_of_navigatePath h
  obtain ⟨y, hy⟩ := Option.isSome_iff_exists.mp (setAt_componentSteps_isSome hloc v)
  have := setValueAtPath_toOption current key v
  rw [hloc, Option.some_bind, hy] at this
  cases hs : setValueAtPath current key v
  · simp [hs, Except.toOption] at this
  · exact ⟨_, rfl⟩

/-! ### The write-back stores at the resolved location -/

/-- The write-back loop stores the value at the location its components resolve to, and fails
    exactly where they resolve to none. -/
theorem updateComponents_toOption (value : JsonValue) {components : List String}
    (hc : components ≠ []) (current : JsonValue) :
    (updateComponents current components value).toOption =
      (resolvePath current components).bind (setAt current · value) := by
  induction components generalizing current with
  | nil => exact absurd rfl hc
  | cons key rest ih =>
    cases rest with
    | nil => simp [updateComponents, resolvePath, setValueAtPath_toOption]
    | cons k rest =>
      by_cases hnull : navigatePath current key = .null
      · simp [updateComponents, resolvePath, hnull, Except.toOption]
      obtain ⟨loc, hloc, hget⟩ := exists_componentSteps_of_navigatePath hnull
      simp [updateComponents, resolvePath, hnull, ih (List.cons_ne_nil _ _),
        setValueAtPath_toOption, hloc, setAt_append hget, Option.bind_assoc, Option.bind_map]

/-- A location that components resolve to can always be stored at. -/
theorem setAt_resolvePath_isSome (value : JsonValue) {components : List String} :
    ∀ {current : JsonValue} {loc : List Step}, resolvePath current components = some loc →
      (setAt current loc value).isSome := by
  induction components with
  | nil => intro current loc h; cases h; simp
  | cons key rest ih =>
    intro current loc h
    cases rest with
    | nil => exact setAt_componentSteps_isSome h value
    | cons k rest =>
      by_cases hnull : navigatePath current key = .null
      · simp [resolvePath, hnull] at h
      obtain ⟨loc₁, hloc, hget⟩ := exists_componentSteps_of_navigatePath hnull
      simp only [resolvePath, hnull, if_false, hloc, Option.some_bind, Option.map_eq_some'] at h
      obtain ⟨loc₂, h₂, rfl⟩ := h
      obtain ⟨y, hy⟩ := Option.isSome_iff_exists.mp (ih h₂)
      simp [setAt_append hget, hy, setAt_componentSteps_isSome hloc]

/-- What storing `value` into `payload` at the location its components resolve to gives: an
    error response exactly when they resolve to none, and otherwise the payload with `value`
    there and every location off its path unchanged. -/
def WritesAt (payload : JsonValue) (components : List String) (value : JsonValue)
    (action : RequestAction) : Prop :=
  match resolvePath payload components with
  | none => ∃ reason err, action = buildErrorResponse reason (some err)
  | some loc => ∃ body, action = .upstreamRequestModifications body ∧
      setAt payload loc value = some body ∧ getAt body loc = some value ∧
      ∀ loc', ¬ loc <+: loc' → ¬ loc' <+: loc → getAt body loc' = getAt payload loc'

theorem trimRootPrefix_root (path : String) : trimRootPrefix ("$." ++ path) = path := rfl

theorem splitPath_ne_nil (path : String) : splitPath path ≠ [] := by
  simpa [splitPath, List.splitOn] using List.splitOnP_ne_nil _ _

theorem updateAtPath_writesAt (payloadData : JsonObject) {path : String} (hpath : path ≠ "")
    (value : JsonValue) :
    WritesAt (.obj payloadData) (splitPath path) value
      (updateAtPath payloadData ("$." ++ path) value) := by
  have hrun := updateComponents_toOption value (splitPath_ne_nil path) (.obj payloadData)
  unfold WritesAt updateAtPath
  rw [trimRootPrefix_root, if_neg hpath]
  cases hres : resolvePath (.obj payloadData) (splitPath path) with
  | none =>
    rw [hres, Option.none_bind] at hrun
    cases hu : updateComponents (.obj payloadData) (splitPath path) value
    · exact ⟨_, _, rfl⟩
    · simp [hu, Except.toOption] at hrun
  | some loc =>
    obtain ⟨body, hbody⟩ := Option.isSome_iff_exists.mp (setAt_resolvePath_isSome value hres)
    rw [hres, Option.some_bind, hbody] at hrun
    cases hu : updateComponents (.obj payloadData) (splitPath path) value
    · simp [hu, Except.toOption] at hrun
    · simp only [hu, Except.toOption, Option.some.injEq] at hrun
      subst hrun
      exact ⟨_, rfl, hbody, getAt_setAt_self hbody,
        fun _ h₁ h₂ => getAt_setAt_of_not_prefix hbody h₁ h₂⟩

/-- Both write-backs, on every path after "$." that is not empty. -/
theorem updateAtPath_writes_one_location (payloadData : JsonObject) (path : String)
    (hpath : path ≠ "") :
    (∀ value, WritesAt (.obj payloadData) (splitPath path) (.str value)
      (updateStringAtPath payloadData ("$." ++ path) value)) ∧
    ∀ value, WritesAt (.obj payloadData) (splitPath path) (.arr (value.map .obj))
      (updateArrayAtPath payloadData ("$." ++ path) value) :=
  ⟨fun value => updateAtPath_writesAt payloadData hpath (.str value),
    fun value => updateAtPath_writesAt payloadData hpath (.arr (value.map .obj))⟩

/-- A chat payload of two messages: the default text path writes the content of the second. -/
theorem updateAtPath_writes_one_location_last_content :
    let chat : JsonObject := [("model", .str "m"), ("messages", .arr
      [.obj [("role", .str "system"), ("content", .str "s")],
        .obj [("role", .str "user"), ("content", .str "hi")]])]
    ("messages[-1].content" : String) ≠ "" ∧
    ((∀ value, WritesAt (.obj chat) (splitPath "messages[-1].content") (.str value)
      (updateStringAtPath chat ("$." ++ "messages[-1].content") value)) ∧
    ∀ value, WritesAt (.obj chat) (splitPath "messages[-1].content") (.arr (value.map .obj))
      (updateArrayAtPath chat ("$." ++ "messages[-1].content") value)) :=
  ⟨by decide, updateAtPath_writes_one_location _ "messages[-1].content" (by decide)⟩

example : resolvePath (.obj [("model", .str "m"), ("messages", .arr
      [.obj [("role", .str "system"), ("content", .str "s")],
        .obj [("role", .str "user"), ("content", .str "hi")]])])
      (splitPath "messages[-1].content") =
    some [.key "messages", .elem 1, .key "content"] := by decide

/-- The path "$." is refused, though its one component, the empty key, names a location of
    every object. -/
theorem updateStringAtPath_empty_path :
    resolvePath (.obj []) (splitPath "") = some [.key ""] ∧
    updateStringAtPath [] "$." "x" = buildErrorResponse "Invalid JSONPath" (some "empty path") ∧
    ¬ WritesAt (.obj []) (splitPath "") (.str "x") (updateStringAtPath [] "$." "x") := by
  have hres : resolvePath (.obj []) (splitPath "") = some [.key ""] := by decide
  have hupd : updateStringAtPath [] "$." "x" =
      buildErrorResponse "Invalid JSONPath" (some "empty path") := by decide
  refine ⟨hres, hupd, ?_⟩
  simp [WritesAt, hres, hupd, buildErrorResponse]

/-! ### What a failed write-back reports -/

/-- The write-back fails exactly at the first component where navigation gives nil, which it
    reports as a key not found whatever the cause, or at the last component, with the error of
    setValueAtPath there; storing back on the way out never fails. -/
theorem updateComponents_eq_error (value : JsonValue) (reason err : String) :
    ∀ (components : List String) (current : JsonValue),
    updateComponents current components value = .error (reason, err) ↔
      ∃ pre key node, navigateToParent current pre = some node ∧
        ((∃ post, post ≠ [] ∧ components = pre ++ key :: post ∧ navigatePath node key = .null ∧
            reason = "Error navigating JSONPath" ∧ err = "key not found: " ++ key) ∨
          (components = pre ++ [key] ∧ reason = "Error updating JSONPath" ∧
            setValueAtPath node key value = .error err))
  | [], current => by simp [updateComponents]
  | [key], current => by
    constructor
    · intro h
      cases hs : setValueAtPath current key value with
      | error e =>
        simp only [updateComponents, hs, Except.mapError, Except.error.injEq, Prod.mk.injEq] at h
        exact ⟨[], key, current, rfl, .inr ⟨rfl, h.1.symm, h.2 ▸ hs⟩⟩
      | ok y => simp [updateComponents, hs, Except.mapError] at h
    · rintro ⟨_ | ⟨p, pre⟩, key', node, hnav, ⟨post, hpost, hc, -⟩ | ⟨hc, rfl, hs⟩⟩
      · cases hc; exact absurd rfl hpost
      · cases hnav; cases hc; simp [updateComponents, hs, Except.mapError]
      all_goals simp at hc
  | key :: k :: rest, current => by
    rw [updateComponents_cons_cons]
    by_cases hnull : navigatePath current key = .null
    · rw [if_pos hnull]
      constructor
      · intro h
        simp only [Except.error.injEq, Prod.mk.injEq] at h
        obtain ⟨rfl, rfl⟩ := h
        exact ⟨[], key, current, rfl, .inl ⟨k :: rest, nofun, rfl, hnull, rfl, rfl⟩⟩
      · rintro ⟨_ | ⟨p, pre⟩, key', node, hnav, h⟩
        · cases hnav
          rcases h with ⟨post, -, hc, -, rfl, rfl⟩ | ⟨hc, -⟩ <;> cases hc
          rfl
        · obtain rfl : p = key := by
            rcases h with ⟨_, -, hc, -⟩ | ⟨hc, -⟩ <;> exact (List.cons.inj hc).1.symm
          simp [navigateToParent, hnull] at hnav
    · have hbind : (updateComponents (navigatePath current key) (k :: rest) value >>= fun child =>
          (setValueAtPath current key child).mapError ("Error updating JSONPath", ·)) =
            .error (reason, err) ↔
          updateComponents (navigatePath current key) (k :: rest) value = .error (reason, err) := by
        cases hu : updateComponents (navigatePath current key) (k :: rest) value with
        | error e => exact Iff.rfl
        | ok y =>
          obtain ⟨z, hz⟩ := setValueAtPath_ok_of_navigatePath hnull y
          simp [bind, Except.bind, hz, Except.mapError]
      rw [if_neg hnull, hbind, updateComponents_eq_error value reason err (k :: rest)]
      constructor
      · rintro ⟨pre, key', node, hnav, h⟩
        refine ⟨key :: pre, key', node, by simpa [navigateToParent, hnull] using hnav, ?_⟩
        rcases h with ⟨post, hpost, hc, h⟩ | ⟨hc, h⟩
        · exact .inl ⟨post, hpost, by rw [hc]; rfl, h⟩
        · exact .inr ⟨by rw [hc]; rfl, h⟩
      · rintro ⟨_ | ⟨p, pre⟩, key', node, hnav, h⟩
        · cases hnav
          rcases h with ⟨post, -, hc, hn, -⟩ | ⟨hc, -⟩ <;> cases hc
          exact absurd hn hnull
        · obtain rfl : p = key := by
            rcases h with ⟨_, -, hc, -⟩ | ⟨hc, -⟩ <;> exact (List.cons.inj hc).1.symm
          simp only [navigateToParent, hnull, if_false] at hnav
          refine ⟨pre, key', node, hnav, ?_⟩
          rcases h with ⟨post, hpost, hc, h⟩ | ⟨hc, h⟩
          · exact .inl ⟨post, hpost, (List.cons.inj hc).2, h⟩
          · exact .inr ⟨(List.cons.inj hc).2, h⟩

/-- An index out of range before the last component is reported as a key not found. -/
example : updateComponents (.obj [("messages", .arr [])]) ["messages[5]", "content"] (.str "x") =
    .error ("Error navigating JSONPath", "key not found: messages[5]") := by decide

end PromptDecorator
