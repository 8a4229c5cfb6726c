import Mathlib.Data.List.Basic

/-! Go `encoding/json` | Unmarshal into `interface{}`, `map[string]interface{}` and
    `[]map[string]interface{}` | used by parseParams and updatePayloadWithMaskedContent of
    pii-masking-regex (src/unnamed/part_000) and by parseParams and OnRequest of prompt-decorator
    (src/unnamed/part_001)

    json.Unmarshal first checks the whole text (checkValid): the JSON grammar, read here with
    fuel (each call consumes a rune, so the text's length is enough), with at most
    `maxNestingDepth` arrays and objects open at once. Its result is the document, each object
    with its members in order. Only then does it decode into the target, member by member in
    document order, keeping the first error it meets. Into `interface{}` a repeated key keeps
    its last value, an escaped lone surrogate is U+FFFD, and a number goes through
    strconv.ParseFloat, whose range error fails the call (`rangeError`: the magnitude reaches
    the least one that rounds past the largest float64). Numbers are kept as their text, since
    no modelled code reads them. Syntax errors carry one message.

    A Go map is a list of entries with lookup by key; assignment `m[k] = v` replaces the entry of
    `k` in place or adds one (`setKey`), so lookup and assignment behave as a map's whatever the
    order of the entries. A `[]map[string]interface{}` decodes exactly when the text decodes as
    `interface{}` to null or to an array of maps and nulls (`unmarshalMapSlice_eq_ok`). -/

namespace GoJson

/-- A value of `interface{}` as encoding/json produces it. -/
inductive JsonValue where
  | null
  | bool (b : Bool)
  | num (text : String)
  | str (s : String)
  | arr (xs : List JsonValue)
  | obj (m : List (String × JsonValue))

/-- A `map[string]interface{}`. -/
abbrev JsonObject := List (String × JsonValue)

/-! ### Equality

    Deriving does not reach the nested type, so equality is a structural test shown to decide
    `=`. -/

mutual

def JsonValue.beq : JsonValue → JsonValue → Bool
  | .null, .null => true
  | .bool a, .bool b => a == b
  | .num a, .num b => a == b
  | .str a, .str b => a == b
  | .arr xs, .arr ys => JsonValue.beqList xs ys
  | .obj m, .obj n => JsonValue.beqObj m n
  | _, _ => false

def JsonValue.beqList : List JsonValue → List JsonValue → Bool
  | [], [] => true
  | x :: xs, y :: ys => x.beq y && JsonValue.beqList xs ys
  | _, _ => false

def JsonValue.beqObj : JsonObject → JsonObject → Bool
  | [], [] => true
  | (k, x) :: m, (k', y) :: n => k == k' && x.beq y && JsonValue.beqObj m n
  | _, _ => false

end

mutual

theorem JsonValue.eq_of_beq : ∀ a b : JsonValue, a.beq b = true → a = b
  | .null, b, h => by cases b <;> first | rfl | cases h
  | .bool _, b, h | .num _, b, h | .str _, b, h => by
    cases b <;> first | cases h | rw [LawfulBEq.eq_of_beq h]
  | .arr xs, b, h => by cases b <;> first | cases h | rw [JsonValue.eq_of_beqList xs _ h]
  | .obj m, b, h => by cases b <;> first | cases h | rw [JsonValue.eq_of_beqObj m _ h]

theorem JsonValue.eq_of_beqList :
    ∀ xs ys : List JsonValue, JsonValue.beqList xs ys = true → xs = ys
  | [], [], _ => rfl
  | [], _ :: _, h | _ :: _, [], h => by cases h
  | x :: xs, y :: ys, h => by
    obtain ⟨h1, h2⟩ := Bool.and_eq_true_iff.mp h
    rw [JsonValue.eq_of_beq x y h1, JsonValue.eq_of_beqList xs ys h2]

theorem JsonValue.eq_of_beqObj : ∀ m n : JsonObject, JsonValue.beqObj m n = true → m = n
  | [], [], _ => rfl
  | [], _ :: _, h | _ :: _, [], h => by cases h
  | (k, x) :: m, (k', y) :: n, h => by
    obtain ⟨⟨hk, h1⟩, h2⟩ := Bool.and_eq_true_iff.mp h |>.imp_left Bool.and_eq_true_iff.mp
    rw [LawfulBEq.eq_of_beq hk, JsonValue.eq_of_beq x y h1, JsonValue.eq_of_beqObj m n h2]

end

mutual

theorem JsonValue.beq_self : ∀ a : JsonValue, a.beq a = true
  | .null => rfl
  | .bool b => beq_self_eq_true b
  | .num t => beq_self_eq_true t
  | .str t => beq_self_eq_true t
  | .arr xs => JsonValue.beqList_self xs
  | .obj m => JsonValue.beqObj_self m

theorem JsonValue.beqList_self : ∀ xs : List JsonValue, JsonValue.beqList xs xs = true
  | [] => rfl
  | x :: xs => Bool.and_eq_true_iff.mpr ⟨JsonValue.beq_self x, JsonValue.beqList_self xs⟩

theorem JsonValue.beqObj_self : ∀ m : JsonObject, JsonValue.beqObj m m = true
  | [] => rfl
  | (k, x) :: m => Bool.and_eq_true_iff.mpr
    ⟨Bool.and_eq_true_iff.mpr ⟨beq_self_eq_true k, JsonValue.beq_self x⟩, JsonValue.beqObj_self m⟩

end

instance decidableEqJsonValue : DecidableEq JsonValue := fun a b =>
  decidable_of_iff (a.beq b = true) ⟨JsonValue.eq_of_beq a b, fun h => h ▸ JsonValue.beq_self a⟩

/-- Results of fallible code compare by their value or their error. -/
instance decidableEqExcept {ε α : Type} [DecidableEq ε] [DecidableEq α] :
    DecidableEq (Except ε α)
  | .ok a, .ok b => decidable_of_iff (a = b) (by simp)
  | .error a, .error b => decidable_of_iff (a = b) (by simp)
  | .ok _, .error _ => isFalse Except.noConfusion
  | .error _, .ok _ => isFalse Except.noConfusion

/-- Bind in `Except`, peeled once for all the fallible code of the model. -/
theorem bind_eq_ok {ε α β : Type} {x : Except ε α} {f : α → Except ε β} {b : β} :
    x >>= f = .ok b ↔ ∃ a, x = .ok a ∧ f a = .ok b := by
  cases x <;> simp [bind, Except.bind]

theorem map_eq_ok {ε α β : Type} {f : α → β} {x : Except ε α} {b : β} :
    x.map f = .ok b ↔ ∃ a, x = .ok a ∧ f a = b := by
  cases x <;> simp [Except.map]

theorem map_eq_error {ε α β : Type} {f : α → β} {x : Except ε α} {e : ε} :
    x.map f = .error e ↔ x = .error e := by
  cases x <;> simp [Except.map]

/-- The value of fallible code, forgetting its error. -/
@[simp] theorem toOption_bind {ε α β : Type} (x : Except ε α) (f : α → Except ε β) :
    (x >>= f).toOption = x.toOption.bind fun a => (f a).toOption := by
  cases x <;> rfl

@[simp] theorem toOption_mapError {ε ε' α : Type} (f : ε → ε') (x : Except ε α) :
    (x.mapError f).toOption = x.toOption := by
  cases x <;> rfl

/-- `v.(map[string]interface{})` succeeds. -/
def JsonValue.isObj : JsonValue → Bool
  | .obj _ => true
  | _ => false

/-- `v.(bool)` succeeds. -/
def JsonValue.isBool : JsonValue → Bool
  | .bool _ => true
  | _ => false

/-- `v.(string)` succeeds. -/
def JsonValue.isStr : JsonValue → Bool
  | .str _ => true
  | _ => false

/-! ### Map assignment -/

/-- `m[k] = v`. -/
def setKey : JsonObject → String → JsonValue → JsonObject
  | [], k, v => [(k, v)]
  | (k', v') :: m, k, v => if k' = k then (k, v) :: m else (k', v') :: setKey m k v

@[simp] theorem lookup_setKey_self (m : JsonObject) (k : String) (v : JsonValue) :
    (setKey m k v).lookup k = some v := by
  induction m with
  | nil => simp [setKey]
  | cons e m ih =>
    obtain ⟨k', v'⟩ := e
    by_cases h : k' = k
    · simp [setKey, h]
    · simp [setKey, h, List.lookup_cons, beq_false_of_ne (Ne.symm h), ih]

theorem lookup_setKey_of_ne (m : JsonObject) {k k' : String} (v : JsonValue) (hk : k' ≠ k) :
    (setKey m k v).lookup k' = m.lookup k' := by
  induction m with
  | nil => simp [setKey, List.lookup_cons, beq_false_of_ne hk]
  | cons e m ih =>
    obtain ⟨k'', v''⟩ := e
    by_cases h : k'' = k
    · subst h; simp [setKey, List.lookup_cons, beq_false_of_ne hk]
    · by_cases h' : k' = k''
      · subst h'; simp [setKey, h, List.lookup_cons]
      · simp [setKey, h, List.lookup_cons, beq_false_of_ne h', ih]

/-! ### Decoding -/

/-- JSON whitespace. -/
def isWs (c : Char) : Bool := c = ' ' || c = '\t' || c = '\n' || c = '\r'

def skipWs (cs : List Char) : List Char := cs.dropWhile isWs

/-- The value of a hexadecimal digit. -/
def hexVal (c : Char) : Option Nat :=
  if '0' ≤ c ∧ c ≤ '9' then some (c.toNat - '0'.toNat)
  else if 'a' ≤ c ∧ c ≤ 'f' then some (c.toNat - 'a'.toNat + 10)
  else if 'A' ≤ c ∧ c ≤ 'F' then some (c.toNat - 'A'.toNat + 10)
  else none

/-- The code unit of a `\uXXXX` escape. -/
def hex4 (a b c d : Char) : Option Nat := do
  pure (((← hexVal a) * 16 + (← hexVal b)) * 256 + (← hexVal c) * 16 + (← hexVal d))

/-- A rune of the string, then the rest of it. -/
def consRune (c : Char) : Option (List Char × List Char) → Option (List Char × List Char) :=
  Option.map fun p => (c :: p.1, p.2)

/-- The rune of a `\uXXXX` escape on its own: a surrogate gives U+FFFD. -/
def unitRune (u : Nat) : Char := if 0xD800 ≤ u ∧ u ≤ 0xDFFF then '�' else Char.ofNat u

/-- The runes of a string literal after its opening quote, and the text after its closing
    quote, with fuel for the runes. A `\u` escape of a surrogate pair gives one rune. -/
def parseStr : Nat → List Char → Option (List Char × List Char)
  | 0, _ => none
  | _ + 1, [] => none
  | _ + 1, '"' :: r => some ([], r)
  | fuel + 1, '\\' :: '"' :: r => consRune '"' (parseStr fuel r)
  | fuel + 1, '\\' :: '\\' :: r => consRune '\\' (parseStr fuel r)
  | fuel + 1, '\\' :: '/' :: r => consRune '/' (parseStr fuel r)
  | fuel + 1, '\\' :: 'b' :: r => consRune '\x08' (parseStr fuel r)
  | fuel + 1, '\\' :: 'f' :: r => consRune '\x0c' (parseStr fuel r)
  | fuel + 1, '\\' :: 'n' :: r => consRune '\n' (parseStr fuel r)
  | fuel + 1, '\\' :: 'r' :: r => consRune '\r' (parseStr fuel r)
  | fuel + 1, '\\' :: 't' :: r => consRune '\t' (parseStr fuel r)
  | fuel + 1, '\\' :: 'u' :: a :: b :: c :: d :: r =>
    match hex4 a b c d, r with
    | none, _ => none
    | some u, '\\' :: 'u' :: a' :: b' :: c' :: d' :: r' =>
      match hex4 a' b' c' d' with
      | some l =>
        if 0xD800 ≤ u ∧ u < 0xDC00 ∧ 0xDC00 ≤ l ∧ l ≤ 0xDFFF then
          consRune (Char.ofNat (0x10000 + (u - 0xD800) * 0x400 + (l - 0xDC00))) (parseStr fuel r')
        else consRune (unitRune u) (parseStr fuel r)
      | none => none
    | some u, _ => consRune (unitRune u) (parseStr fuel r)
  | _ + 1, '\\' :: _ => none
  | fuel + 1, c :: r => if c.toNat < 0x20 then none else consRune c (parseStr fuel r)

/-- The leading digits, and the rest. -/
def spanDigits (cs : List Char) : List Char × List Char :=
  (cs.takeWhile Char.isDigit, cs.dropWhile Char.isDigit)

/-- An optional fraction `.[0-9]+`. -/
def scanFraction : List Char → Option (List Char × List Char)
  | '.' :: r => match spanDigits r with
    | ([], _) => none
    | (ds, r) => some ('.' :: ds, r)
  | cs => some ([], cs)

/-- An optional exponent `[eE][+-]?[0-9]+`. -/
def scanExponent : List Char → Option (List Char × List Char)
  | e :: r =>
    if e = 'e' ∨ e = 'E' then
      let (s, r) := match r with
        | '+' :: r => (['+'], r)
        | '-' :: r => (['-'], r)
        | r => ([], r)
      match spanDigits r with
      | ([], _) => none
      | (ds, r) => some (e :: s ++ ds, r)
    else some ([], e :: r)
  | [] => some ([], [])

/-- A number `-?(0|[1-9][0-9]*)` followed by a fraction and an exponent, as its text. -/
def scanNumber (cs : List Char) : Option (List Char × List Char) := do
  let (sign, cs) := match cs with
    | '-' :: r => (['-'], r)
    | cs => ([], cs)
  let (intPart, cs) ← match cs with
    | '0' :: r => some (['0'], r)
    | c :: r => if c.isDigit then some (spanDigits (c :: r)) else none
    | [] => none
  let (frac, cs) ← scanFraction cs
  let (ex, cs) ← scanExponent cs
  pure (sign ++ intPart ++ frac ++ ex, cs)

/-- encoding/json's limit on arrays and objects open at once (maxNestingDepth). -/
def maxNestingDepth : Nat := 10000

mutual

/-- One value after optional whitespace, inside `depth` open arrays and objects, and the text
    after it. Opening one past `maxNestingDepth` is a syntax error. -/
def parseValue : Nat → Nat → List Char → Option (JsonValue × List Char)
  | 0, _, _ => none
  | fuel + 1, depth, cs =>
    match skipWs cs with
    | 'n' :: 'u' :: 'l' :: 'l' :: r => some (.null, r)
    | 't' :: 'r' :: 'u' :: 'e' :: r => some (.bool true, r)
    | 'f' :: 'a' :: 'l' :: 's' :: 'e' :: r => some (.bool false, r)
    | '"' :: r => (parseStr r.length r).map fun p => (.str ⟨p.1⟩, p.2)
    | '[' :: r =>
      if depth < maxNestingDepth then
        match skipWs r with
        | ']' :: r => some (.arr [], r)
        | r => parseElems fuel (depth + 1) r []
      else none
    | '{' :: r =>
      if depth < maxNestingDepth then
        match skipWs r with
        | '}' :: r => some (.obj [], r)
        | r => parseMembers fuel (depth + 1) r []
      else none
    | r => (scanNumber r).map fun p => (.num ⟨p.1⟩, p.2)

/-- The elements of an array after its first one starts, with those read so far (reversed). -/
def parseElems : Nat → Nat → List Char → List JsonValue → Option (JsonValue × List Char)
  | 0, _, _, _ => none
  | fuel + 1, depth, cs, acc =>
    match parseValue fuel depth cs with
    | none => none
    | some (v, r) =>
      match skipWs r with
      | ',' :: r => parseElems fuel depth r (v :: acc)
      | ']' :: r => some (.arr (v :: acc).reverse, r)
      | _ => none

/-- The members of an object after its first one starts, with those read so far (reversed). The
    members stay in document order, a repeated key included. -/
def parseMembers : Nat → Nat → List Char → JsonObject → Option (JsonValue × List Char)
  | 0, _, _, _ => none
  | fuel + 1, depth, cs, acc =>
    match skipWs cs with
    | '"' :: r =>
      match parseStr r.length r with
      | none => none
      | some (k, r) =>
        match skipWs r with
        | ':' :: r =>
          match parseValue fuel depth r with
          | none => none
          | some (v, r) =>
            match skipWs r with
            | ',' :: r => parseMembers fuel depth r ((⟨k⟩, v) :: acc)
            | '}' :: r => some (.obj ((⟨k⟩, v) :: acc).reverse, r)
            | _ => none
        | _ => none
    | _ => none

end

/-- The check json.Unmarshal makes before it decodes anything (checkValid): one value with
    nothing after it but whitespace. The result is the document itself, each object with its
    members in order. -/
def parseDocument (data : String) : Except String JsonValue :=
  match parseValue (data.length + 1) 0 data.toList with
  | some (v, r) => if skipWs r = [] then .ok v else .error "invalid character after top-level value"
  | none => .error "syntax error"

/-! ### Numbers -/

/-- The value of a run of decimal digits. -/
def digitsValue (ds : List Char) : Nat := ds.foldl (fun n d => 10 * n + (d.toNat - '0'.toNat)) 0

/-- The exponent digits as strconv reads them: they stop counting once the value reaches 10000,
    where every float64 has long overflowed or vanished. -/
def exponentValue (ds : List Char) : Nat :=
  ds.foldl (fun e d => if e < 10000 then 10 * e + (d.toNat - '0'.toNat) else e) 0

/-- A number's magnitude as `m · 10^e`: `-?int(.frac)?([eE][+-]?exp)?` is
    `int frac · 10^(±exp - |frac|)`. -/
def numberParts (cs : List Char) : Nat × Int :=
  let cs := match cs with
    | '-' :: r => r
    | r => r
  let (intPart, cs) := spanDigits cs
  let (frac, cs) := match cs with
    | '.' :: r => spanDigits r
    | r => ([], r)
  let ex : Int := match cs with
    | _ :: '-' :: ds => -(exponentValue ds : Int)
    | _ :: '+' :: ds => exponentValue ds
    | _ :: ds => exponentValue ds
    | [] => 0
  (digitsValue (intPart ++ frac), ex - frac.length)

/-- The least magnitude strconv.ParseFloat rounds beyond the largest float64, 2^1024 - 2^971:
    the midpoint between it and 2^1024, which rounding half to even sends up. It is written out,
    so that no proof has to compute it. -/
def float64OverflowBound : Nat :=
  179769313486231580793728971405303415079934132710037826936173778980444968292764750946649017977587207096330286416692887910946555547851940402630657488671505820681908902000708383676273854845817711531764475730270069855571366959622842914819860834936475292719074168444365510704342711559699508093042880177904174497792

set_option exponentiation.threshold 1100 in
theorem float64OverflowBound_eq : float64OverflowBound = Nat.pow 2 1024 - Nat.pow 2 970 := by
  decide

/-- `strconv.ParseFloat(s, 64)` fails with a range error: the magnitude `m · 10^e` reaches the
    bound (both sides scaled by 10^-e when `e < 0`). A magnitude that rounds to zero is no
    error. -/
def rangeError (s : List Char) : Bool :=
  let (m, e) := numberParts s
  float64OverflowBound * Nat.pow 10 (-e).toNat ≤ m * Nat.pow 10 e.toNat

/-- convertNumber: a number as a float64, its range error reported as a type error. The model
    keeps the number's text as its value. -/
def convertNumber (s : String) : Except String JsonValue :=
  if rangeError s.toList then
    .error ("json: cannot unmarshal number " ++ s ++ " into Go value of type float64")
  else .ok (.num s)

theorem convertNumber_eq_ok {s : String} {v : JsonValue} (h : convertNumber s = .ok v) :
    v = .num s := by
  unfold convertNumber at h
  split at h
  · cases h
  · exact (Except.ok.inj h).symm

set_option exponentiation.threshold 500 in
example : rangeError "1.7976931348623158e308".toList = false ∧
    rangeError "-1.7976931348623159e308".toList = true ∧
    rangeError "1e-400".toList = false := by decide

/-! ### Unmarshal into `interface{}` -/

mutual

/-- valueInterface: a document value as `interface{}`. An object's members are assigned in
    order, so a repeated key keeps its last value, and the first number out of float64's range
    fails the whole value. -/
def valueInterface : JsonValue → Except String JsonValue
  | .null => .ok .null
  | .bool b => .ok (.bool b)
  | .num t => convertNumber t
  | .str s => .ok (.str s)
  | .arr xs => (arrayInterface xs).map .arr
  | .obj ms => (objectInterface [] ms).map .obj

/-- arrayInterface: the elements in order. -/
def arrayInterface : List JsonValue → Except String (List JsonValue)
  | [] => .ok []
  | x :: xs => do
    let v ← valueInterface x
    let vs ← arrayInterface xs
    pure (v :: vs)

/-- objectInterface: the members assigned in order to the map `m`. -/
def objectInterface (m : JsonObject) : JsonObject → Except String JsonObject
  | [] => .ok m
  | (k, x) :: ms => do
    let v ← valueInterface x
    objectInterface (setKey m k v) ms

end

/-- `json.Unmarshal(data, &v)` into an `interface{}`. -/
def decode (data : String) : Except String JsonValue := parseDocument data >>= valueInterface

/-- The kind of a value in encoding/json's type errors. -/
def JsonValue.kind : JsonValue → String
  | .null => "null"
  | .bool _ => "bool"
  | .num _ => "number"
  | .str _ => "string"
  | .arr _ => "array"
  | .obj _ => "object"

/-- A document value decoded into a `map[string]interface{}`: an object's members are assigned
    in order, null gives a nil (empty) map, and any other value is a type error, with nothing
    inside it converted. -/
def unmarshalMapElem : JsonValue → Except String JsonObject
  | .obj ms => objectInterface [] ms
  | .null => .ok []
  | x => .error ("json: cannot unmarshal " ++ x.kind ++
      " into Go value of type map[string]interface \x7b\x7d")

/-- `json.Unmarshal(data, &m)` with `m map[string]interface{}`. -/
def unmarshalMap (data : String) : Except String JsonObject := parseDocument data >>= unmarshalMapElem

/-- `json.Unmarshal(data, &v)` with `v []map[string]interface{}`: null gives a nil slice, and the
    elements decode in order. -/
def unmarshalMapSlice (data : String) : Except String (List JsonObject) :=
  parseDocument data >>= fun
    | .null => .ok []
    | .arr xs => xs.mapM unmarshalMapElem
    | x => .error ("json: cannot unmarshal " ++ x.kind ++
        " into Go value of type []map[string]interface \x7b\x7d")

example : decode "null" = .ok .null := by decide
example : parseDocument "\x7b\"a\": 1, \"a\": 2\x7d" = .ok (.obj [("a", .num "1"), ("a", .num "2")]) ∧
    decode " [1, \x7b\"a\": \"x\", \"a\": true\x7d] " =
      .ok (.arr [.num "1", .obj [("a", .bool true)]]) := by decide
example : decode "\"\\ud83d\\ude00 \\ud800x\"" = .ok (.str "😀 �x") := by decide
set_option exponentiation.threshold 500 in
example : decode "[1,]" = .error "syntax error" ∧
    decode "[1e400]" = .error "json: cannot unmarshal number 1e400 into Go value of type float64" := by
  decide

/-! ### Unmarshal into `[]map[string]interface{}`, read through `interface{}` -/

/-- The map an element of a decoded `[]map[string]interface{}` holds: its own, or none for
    null. -/
def MapElem (v : JsonValue) (m : JsonObject) : Prop := v = .obj m ∨ (v = .null ∧ m = [])

/-- A value decodes into a map exactly when, decoded as `interface{}`, it is that map, or null for
    no map. -/
theorem unmarshalMapElem_eq_ok {x : JsonValue} {m : JsonObject} :
    unmarshalMapElem x = .ok m ↔ ∃ v, valueInterface x = .ok v ∧ MapElem v m := by
  cases x with
  | null => simp [unmarshalMapElem, valueInterface, MapElem, eq_comm]
  | obj ms => simp [unmarshalMapElem, valueInterface, MapElem, map_eq_ok]
  | num t =>
    simp only [unmarshalMapElem, valueInterface, reduceCtorEq, false_iff, not_exists, not_and]
    rintro v hv (rfl | ⟨rfl, -⟩) <;> cases convertNumber_eq_ok hv
  | arr xs =>
    simp only [unmarshalMapElem, valueInterface, map_eq_ok, reduceCtorEq, false_iff]
    rintro ⟨_, ⟨_, -, rfl⟩, hm | ⟨hm, -⟩⟩ <;> cases hm
  | bool _ | str _ => simp [unmarshalMapElem, valueInterface, MapElem]

theorem mapM_unmarshalMapElem_eq_ok : ∀ {xs : List JsonValue} {objs : List JsonObject},
    xs.mapM unmarshalMapElem = .ok objs ↔
      ∃ vs, arrayInterface xs = .ok vs ∧ List.Forall₂ MapElem vs objs
  | [], objs => by
    simp only [List.mapM_nil, arrayInterface]
    exact ⟨fun h => ⟨[], rfl, by cases Except.ok.inj h; exact .nil⟩,
      fun ⟨_, h, e⟩ => by cases h; cases e; rfl⟩
  | x :: xs, objs => by
    simp only [List.mapM_cons, arrayInterface, bind_eq_ok, unmarshalMapElem_eq_ok,
      mapM_unmarshalMapElem_eq_ok]
    constructor
    · rintro ⟨m, ⟨v, hv, hvm⟩, ms, ⟨vs, hvs, hf⟩, h⟩
      cases h
      exact ⟨v :: vs, ⟨v, hv, vs, hvs, rfl⟩, .cons hvm hf⟩
    · rintro ⟨_, ⟨v, hv, vs, hvs, h⟩, hf⟩
      cases h
      cases hf with
      | cons hvm hf => exact ⟨_, ⟨v, hv, hvm⟩, _, ⟨vs, hvs, hf⟩, rfl⟩

/-- Unmarshaling a `[]map[string]interface{}` succeeds exactly when the text decodes to null (no
    map) or to an array of maps and nulls, and then gives the elements' maps. -/
theorem unmarshalMapSlice_eq_ok {data : String} {objs : List JsonObject} :
    unmarshalMapSlice data = .ok objs ↔
      (decode data = .ok .null ∧ objs = []) ∨
        ∃ vs, decode data = .ok (.arr vs) ∧ List.Forall₂ MapElem vs objs := by
  unfold unmarshalMapSlice decode
  cases parseDocument data with
  | error e => simp [bind, Except.bind]
  | ok doc =>
    simp only [bind, Except.bind]
    cases doc with
    | null => simp [valueInterface, eq_comm]
    | arr xs =>
      show xs.mapM unmarshalMapElem = _ ↔ _
      rw [mapM_unmarshalMapElem_eq_ok]
      simp [valueInterface, map_eq_ok]
    | num t =>
      simp only [valueInterface, reduceCtorEq, false_iff]
      rintro (⟨h, -⟩ | ⟨vs, h, -⟩) <;> cases convertNumber_eq_ok h
    | obj ms => simp [valueInterface, map_eq_ok]
    | bool _ | str _ => simp [valueInterface]

set_option exponentiation.threshold 500 in
example : unmarshalMapSlice "null" = .ok [] ∧
    unmarshalMapSlice "[5, \x7b\"n\": 1e400\x7d]" =
      .error "json: cannot unmarshal number into Go value of type map[string]interface \x7b\x7d" ∧
    unmarshalMapSlice "\x7b\"n\": 1e400\x7d" =
      .error "json: cannot unmarshal object into Go value of type []map[string]interface \x7b\x7d" := by
  decide

end GoJson
