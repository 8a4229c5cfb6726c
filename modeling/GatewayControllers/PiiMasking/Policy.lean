import GatewayControllers.PiiMasking.RoundTrip
import GatewayControllers.PiiMasking.Redact
import GatewayControllers.PiiMasking.Params

/-! pii-masking-regex | GetPolicy, OnRequest, OnResponse, updatePayloadWithMaskedContent,
    buildErrorResponse | src/unnamed/part_000, lines 31–71, 201–288, 379–430

    The request phase reads the content at the policy's JSONPath, strips a quote at its start
    and one at its end, then the surrounding space (`cleanContent_eq_trimSpace_dropEndQuotes`),
    and masks or redacts it. When that changes the content, the body goes upstream with the
    content replaced. Masking stores the literal ↦ placeholder map in the exchange metadata. The
    response phase then replaces the placeholders in the response body by their literals.

    The JSONPath lookup and update are utils functions of the gateway SDK, which the repository
    does not define, and json.Marshal is not modelled; the model takes them as `Utils`. The
    orders Go leaves open in one exchange (how `range` visits the detector map and the stored
    map, and the order of masking's second pass) are a `Schedule`.

    A policy that GetPolicy builds has distinct detector names of `[A-Z_]+`. So when the whole body is
    the content and the upstream echoes what it receives, the client gets its request body
    back, under the conditions of the round trip (`onResponse_onRequest_echo`). The request
    phase writes the metadata only in masking mode, and only under MetadataKeyPIIEntities
    (`onRequest_metadata_written`); content that no pattern matches leaves the request and the
    metadata as they are (`onRequest_unchanged_of_no_match`). The response phase rewrites a body
    only in masking mode, from the map stored for the exchange, and only when the body holds one
    of its placeholders (`onResponse_rewrites_only_with_placeholder`). -/

namespace PIIMaskingRegex
open GoJson GoRegexp GoStrings

/-! ### GetPolicy -/

/-- parseParams only returns detectors named by `[A-Z_]+`. -/
theorem parseParams_names_valid {re : RegexpEngine} {params : Params}
    {r : PIIMaskingRegexPolicyParams} (h : parseParams re params = .ok r) :
    ∀ d ∈ r.piiEntities, isEntityName d.1.toList = true := by
  obtain ⟨hvalid, hnames⟩ := parseParams_ok h
  intro d hd
  have hmem : d.1 ∈ r.piiEntities.map Prod.fst := List.mem_map_of_mem _ hd
  rw [hnames, List.mem_append] at hmem
  rcases hmem with hc | hb
  · obtain ⟨x, hx, hname⟩ := List.mem_filterMap.mp hc
    have hv : ValidEntry re x := by
      by_contra hnv
      exact hvalid (Or.inr (Or.inl ⟨x, hx, hnv⟩))
    cases x <;> simp only [ValidEntry] at hv
    obtain ⟨name, _, _, hn, hname', -⟩ := hv
    simp only [entryName, objName, hn, Option.some.injEq] at hname
    rwa [← hname]
  · obtain ⟨t, ht, hs⟩ := List.mem_filterMap.mp hb
    have ht2 : t.2 = d.1 := by split_ifs at hs; simp_all
    rw [← ht2]
    simp only [builtinToggles, List.mem_cons, List.not_mem_nil, or_false] at ht
    rcases ht with rfl | rfl | rfl <;> decide

theorem enabledBuiltins_nodup (params : Params) : (enabledBuiltins params).Nodup := by
  rw [enabledBuiltins_eq]
  split_ifs <;> decide

/-- The detectors parseParams returns have distinct names, as the keys of a Go map do. -/
theorem parseParams_names_nodup {re : RegexpEngine} {params : Params}
    {r : PIIMaskingRegexPolicyParams} (h : parseParams re params = .ok r) :
    (r.piiEntities.map Prod.fst).Nodup := by
  obtain ⟨hvalid, hnames⟩ := parseParams_ok h
  simp only [Invalid, not_or, not_exists, not_and] at hvalid
  obtain ⟨-, -, hnd, -, hdisj, -⟩ := hvalid
  rw [hnames]
  exact List.nodup_append.mpr ⟨not_not.mp hnd, enabledBuiltins_nodup params,
    fun a hc hb => hdisj a hb hc⟩

/-- A pii-masking-regex policy: parameters that parseParams accepted, whose detectors are named
    by `[A-Z_]+` and pairwise distinct, as the keys of a Go map are. -/
structure PIIMaskingRegexPolicy where
  params : PIIMaskingRegexPolicyParams
  names_valid : ∀ d ∈ params.piiEntities, isEntityName d.1.toList = true
  names_nodup : (params.piiEntities.map Prod.fst).Nodup

/-- GetPolicy. -/
def getPolicy (re : RegexpEngine) (params : Params) : Except String PIIMaskingRegexPolicy :=
  match h : parseParams re params with
  | .ok r => .ok ⟨r, parseParams_names_valid h, parseParams_names_nodup h⟩
  | .error e => .error ("invalid parameters: " ++ e)

/-! ### The request and response phases -/

/-- What the phases take from outside the repository: utils.ExtractStringValueFromJsonpath and
    utils.SetValueAtJSONPath of the gateway SDK, and json.Marshal of the updated payload. -/
structure Utils where
  extractStringValueFromJsonpath : List Char → String → Except String (List Char)
  setValueAtJSONPath : JsonObject → String → List Char → Except String JsonObject
  marshal : JsonObject → List Char

/-- The orders Go leaves open in one exchange: how `range` visits the detector map, the order
    of masking's second pass, and how `range` visits the stored map in the response phase. -/
structure Schedule (piiEntities : List (String × Regexp)) where
  detectors : List (String × Regexp)
  detectors_perm : detectors.Perm piiEntities
  arrangement : Arrangement
  visit : Entities → Entities
  visit_perm : ∀ m, (visit m).Perm m

/-- The request phase's policy.RequestAction: the body sent upstream when it changes, or an
    immediate response. -/
inductive RequestAction where
  | upstreamRequestModifications (body : Option (List Char))
  | immediateResponse (statusCode : Nat) (headers : List (String × String)) (body : JsonValue)

/-- The response phase's policy.ResponseAction: the body returned when it changes. -/
inductive ResponseAction where
  | upstreamResponseModifications (body : Option (List Char))

def apimInternalErrorCode : Nat := 500

def apimInternalExceptionCode : Nat := 900967

/-- buildErrorResponse. -/
def buildErrorResponse (reason : String) : RequestAction :=
  .immediateResponse apimInternalErrorCode [("Content-Type", "application/json")]
    (.obj [("code", .num (toString apimInternalExceptionCode)),
      ("message", .str ("Error occurred during pii-masking-regex mediation: " ++ reason))])

/-- `textCleanRegexCompiled`, the pattern `^"|"$`: a quote at the start of the text, or one at
    its end. -/
def textCleanRegex : Regexp where
  exec s pos :=
    if pos = 0 ∧ s.head? = some '"' then some (0, 1)
    else if pos < s.length ∧ s.getLast? = some '"' then some (s.length - 1, s.length)
    else none
  exec_bounds s pos a b h := by
    dsimp only at h
    split_ifs at h with h₁ h₂
    · cases h
      have hs : 0 < s.length := List.length_pos.mpr (by rintro rfl; simp at h₁)
      exact ⟨h₁.1.le, Nat.zero_le 1, hs⟩
    · cases h; omega

/-- The extracted value cleaned: a quote at its start and one at its end removed, then the
    surrounding space. -/
def cleanContent (extractedValue : List Char) : List Char :=
  trimSpace (replaceAllString textCleanRegex extractedValue [])

/-- A quote at the start of the text dropped, then a quote at the end of what is left. -/
def dropEndQuotes (s : List Char) : List Char :=
  let s := if s.head? = some '"' then s.tail else s
  if s.getLast? = some '"' then s.dropLast else s

/-- `^"|"$` matches at most twice: the first rune if it is a quote, and the last if it is a quote
    and not that same first rune. -/
theorem replaceAllString_textCleanRegex (s : List Char) :
    replaceAllString textCleanRegex s [] = dropEndQuotes s := by
  rcases s with _ | ⟨c, r⟩
  · rfl
  by_cases hc : c = '"'
  · subst hc
    rcases r with _ | ⟨a, r⟩
    · rfl
    by_cases hl : (a :: r).getLast? = some '"' <;>
      simp [replaceAllString, replaceAllStringOn, allMatches, allMatchesFrom, textCleanRegex, hl,
        dropEndQuotes, assemble, List.dropLast_eq_take]
  · by_cases hl : (c :: r).getLast? = some '"' <;>
      simp [replaceAllString, replaceAllStringOn, allMatches, allMatchesFrom, textCleanRegex, hl,
        hc, dropEndQuotes, assemble, List.dropLast_eq_take]

/-- The request phase's cleaning removes one quote at each end of the extracted value, before
    the surrounding space: quotes inside that space, and a second quote at an end, are kept. -/
theorem cleanContent_eq_trimSpace_dropEndQuotes (v : List Char) :
    cleanContent v = trimSpace (dropEndQuotes v) := by
  rw [cleanContent, replaceAllString_textCleanRegex]

example : cleanContent "\"\"x\"\"".toList = "\"x\"".toList ∧
    cleanContent " \"x\" ".toList = "\"x\"".toList := by decide

/-- updatePayloadWithMaskedContent (its `extractedValue` argument is not read). -/
def updatePayloadWithMaskedContent (utils : Utils) (originalPayload modifiedContent : List Char)
    (jsonPath : String) : List Char :=
  if jsonPath = "" then modifiedContent
  else
    match unmarshalMap ⟨originalPayload⟩ with
    | .error _ => modifiedContent
    | .ok jsonData =>
      match utils.setValueAtJSONPath jsonData jsonPath modifiedContent with
      | .error _ => originalPayload
      | .ok updated => utils.marshal updated

/-- OnRequest, on the request body (nil, or its bytes) and the exchange metadata: the action and
    the metadata after it. -/
def onRequest (utils : Utils) (p : PIIMaskingRegexPolicy) (sch : Schedule p.params.piiEntities)
    (body : Option (List Char)) (metadata : Metadata) : RequestAction × Metadata :=
  if p.params.piiEntities.isEmpty then (.upstreamRequestModifications none, metadata)
  else
    match body with
    | none => (.upstreamRequestModifications none, metadata)
    | some payload =>
      match utils.extractStringValueFromJsonpath payload p.params.jsonPath with
      | .error err =>
        (buildErrorResponse ("error extracting value from JSONPath: " ++ err), metadata)
      | .ok extractedValue =>
        let extractedValue := cleanContent extractedValue
        let result := if p.params.redactPII then
            (redactPIIFromContent extractedValue sch.detectors, metadata)
          else maskPIIFromContent extractedValue sch.detectors sch.arrangement metadata
        if result.1 ≠ [] ∧ result.1 ≠ extractedValue then
          (.upstreamRequestModifications
            (some (updatePayloadWithMaskedContent utils payload result.1 p.params.jsonPath)),
            result.2)
        else (.upstreamRequestModifications none, result.2)

/-- OnResponse, on the response body (nil, or its bytes) and the exchange metadata. -/
def onResponse (p : PIIMaskingRegexPolicy) (visit : Entities → Entities)
    (responseBody : Option (List Char)) (metadata : Metadata) : ResponseAction :=
  if p.params.redactPII then .upstreamResponseModifications none
  else
    match metadata metadataKeyPIIEntities, responseBody with
    | some (.stringMap maskedPIIMap), some payload =>
      let restoredContent := restorePIIInResponse payload (visit maskedPIIMap)
      if restoredContent ≠ payload then .upstreamResponseModifications (some restoredContent)
      else .upstreamResponseModifications none
    | _, _ => .upstreamResponseModifications none

/-! ### An exchange whose upstream echoes -/

/-- The body upstream receives after the request phase: the new one, or the request's own when
    the action keeps it; none when the phase answers itself. -/
def RequestAction.forwarded : RequestAction → List Char → Option (List Char)
  | .upstreamRequestModifications none, body => some body
  | .upstreamRequestModifications (some b), _ => some b
  | .immediateResponse .., _ => none

/-- The body the client receives after the response phase. -/
def ResponseAction.delivered : ResponseAction → List Char → List Char
  | .upstreamResponseModifications none, body => body
  | .upstreamResponseModifications (some b), _ => b

/-- In masking mode with the whole body as content, the request phase masks the cleaned body and
    sends the masked text when it differs. -/
theorem onRequest_whole_body (utils : Utils) (p : PIIMaskingRegexPolicy)
    (sch : Schedule p.params.piiEntities) {payload : List Char} (md : Metadata)
    (hmask : p.params.redactPII = false) (hpath : p.params.jsonPath = "")
    (hext : utils.extractStringValueFromJsonpath payload "" = .ok payload)
    (hclean : cleanContent payload = payload) :
    let r := maskPIIFromContent payload sch.detectors sch.arrangement md
    onRequest utils p sch (some payload) md =
      (.upstreamRequestModifications (if r.1 ≠ [] ∧ r.1 ≠ payload then some r.1 else none),
        r.2) := by
  by_cases hempty : p.params.piiEntities.isEmpty
  · have hdets : sch.detectors = [] :=
      List.isEmpty_iff.mp ((sch.detectors_perm.isEmpty_eq).trans hempty)
    have hr : maskPIIFromContent payload sch.detectors sch.arrangement md = ([], md) := by
      by_cases hc : payload = []
      · simp [maskPIIFromContent, hc]
      · simp [maskPIIFromContent, hc, hdets, findPass]
    simp [onRequest, hempty, hr]
  · simp only [onRequest, hempty, hpath, hext, hclean, hmask, if_false, Bool.false_eq_true]
    split_ifs <;> simp [updatePayloadWithMaskedContent]

/-- Masking is invisible to a client whose upstream echoes what it receives: with the whole
    body as content, and under the conditions of the round trip, the client gets its request
    body back. -/
theorem onResponse_onRequest_echo (utils : Utils) (p : PIIMaskingRegexPolicy)
    (sch : Schedule p.params.piiEntities) {payload : List Char} {md : Metadata}
    (hmask : p.params.redactPII = false) (hpath : p.params.jsonPath = "")
    (hext : utils.extractStringValueFromJsonpath payload "" = .ok payload)
    (hclean : cleanContent payload = payload) (hfresh : md metadataKeyPIIEntities = none)
    (hlit : ∀ e ∈ (findPass payload sch.detectors).entities, '[' ∉ e.1 ∧ ']' ∉ e.1)
    (hin : ∀ e ∈ (findPass payload sch.detectors).entities,
      ∀ e' ∈ (findPass payload sch.detectors).entities, ¬ e.1 <:+: e'.2)
    (hocc : ∀ e ∈ (findPass payload sch.detectors).entities, ¬ e.2 <:+: payload) :
    ∃ sent, (onRequest utils p sch (some payload) md).1.forwarded payload = some sent ∧
      (onResponse p sch.visit (some sent) (onRequest utils p sch (some payload) md).2).delivered
        sent = payload := by
  rw [onRequest_whole_body utils p sch md hmask hpath hext hclean]
  set M := (findPass payload sch.detectors).entities
  set r := maskPIIFromContent payload sch.detectors sch.arrangement md with hr
  by_cases hnone : payload = [] ∨ M = []
  · have hr0 : r = ([], md) := by
      rcases hnone with hc | hM
      · simp [hr, maskPIIFromContent, hc]
      · have hM' : (findPass payload sch.detectors).entities = [] := hM
        simp [hr, maskPIIFromContent, hM']
    refine ⟨payload, ?_, ?_⟩ <;>
      simp [hr0, RequestAction.forwarded, onResponse, hmask, hfresh, ResponseAction.delivered]
  obtain ⟨hc, hM⟩ := not_or.mp hnone
  have hnames : ∀ d ∈ sch.detectors, isEntityName d.1.toList = true :=
    fun d hd => p.names_valid d (sch.detectors_perm.subset hd)
  have hround : restorePIIInResponse r.1 (sch.visit M) = payload :=
    restore_maskPIIFromContent hc hnames hM hlit hin hocc sch.arrangement md (sch.visit M)
      (sch.visit_perm M)
  have hmd : r.2 metadataKeyPIIEntities = some (.stringMap M) := by
    simp [hr, maskPIIFromContent_metadata hc, hM, Metadata.set]
  have hne : r.1 ≠ [] := fun h => hM ((maskPIIFromContent_eq_nil_iff hc _ _ _).mp h)
  by_cases heq : r.1 = payload
  · refine ⟨payload, by simp [heq, RequestAction.forwarded], ?_⟩
    simp [onResponse, hmask, hmd, ← heq, hround, ResponseAction.delivered]
  · refine ⟨r.1, by simp [hne, heq, RequestAction.forwarded], ?_⟩
    simp [onResponse, hmask, hmd, hround, Ne.symm heq, ResponseAction.delivered]

/-- A policy with one detector `X` of the literal `555`, on the whole body. -/
def policy555 (redactPII : Bool) : PIIMaskingRegexPolicy :=
  ⟨⟨[("X", .literal "555".toList)], "", redactPII⟩,
    (by decide : ∀ d ∈ [("X", Regexp.literal "555".toList)], isEntityName d.1.toList = true),
    List.nodup_singleton _⟩

/-- The only schedule of `policy555`, restoring in the stored order. -/
def schedule555 (redactPII : Bool) : Schedule (policy555 redactPII).params.piiEntities :=
  ⟨[("X", .literal "555".toList)], List.Perm.refl _, .byLength, id, fun _ => List.Perm.refl _⟩

/-- Utilities whose lookup of the empty path reads the whole body. -/
def wholeBodyUtils : Utils := ⟨fun payload _ => .ok payload, fun m _ _ => .ok m, fun _ => []⟩

theorem onResponse_onRequest_echo_555 :
    ∃ sent, (onRequest wholeBodyUtils (policy555 false) (schedule555 false)
        (some "call 555".toList) (fun _ => none)).1.forwarded "call 555".toList = some sent ∧
      (onResponse (policy555 false) (schedule555 false).visit (some sent)
        (onRequest wholeBodyUtils (policy555 false) (schedule555 false)
          (some "call 555".toList) (fun _ => none)).2).delivered sent = "call 555".toList :=
  onResponse_onRequest_echo wholeBodyUtils (policy555 false) (schedule555 false) rfl rfl rfl
    (by decide) rfl (by decide) (by decide) (by decide)

/-- In redaction mode the request phase stores nothing in the exchange metadata, and the
    response phase changes no body. -/
theorem redaction_mode_stores_nothing (utils : Utils) (p : PIIMaskingRegexPolicy)
    (sch : Schedule p.params.piiEntities) (body : Option (List Char)) (md : Metadata)
    (hredact : p.params.redactPII = true) :
    (onRequest utils p sch body md).2 = md ∧
      ∀ visit responseBody md', onResponse p visit responseBody md' =
        .upstreamResponseModifications none := by
  refine ⟨?_, fun _ _ _ => if_pos hredact⟩
  unfold onRequest
  split
  · rfl
  rcases body with _ | payload
  · rfl
  dsimp only
  split
  · rfl
  split <;> rfl

/-! ### What the request phase writes -/

/-- When no detector's pattern matches the cleaned content, the request phase leaves the body
    and the metadata as they are, in masking and in redaction mode alike. -/
theorem onRequest_unchanged_of_no_match (utils : Utils) (p : PIIMaskingRegexPolicy)
    (sch : Schedule p.params.piiEntities) {payload v : List Char} (md : Metadata)
    (hv : utils.extractStringValueFromJsonpath payload p.params.jsonPath = .ok v)
    (hnone : ∀ d ∈ p.params.piiEntities, matchString d.2 (cleanContent v) = false) :
    onRequest utils p sch (some payload) md = (.upstreamRequestModifications none, md) := by
  have hdets : ∀ d ∈ sch.detectors, matchString d.2 (cleanContent v) = false :=
    fun d hd => hnone d (sch.detectors_perm.subset hd)
  have hresult : (if p.params.redactPII then
      (redactPIIFromContent (cleanContent v) sch.detectors, md)
      else maskPIIFromContent (cleanContent v) sch.detectors sch.arrangement md) = ([], md) := by
    split
    · rw [(redactPIIFromContent_eq_nil_iff _ _).mpr (.inr hdets)]
    · by_cases hc : cleanContent v = []
      · simp [maskPIIFromContent, hc]
      · simp [maskPIIFromContent, hc, findPass_eq_nil_of_no_match hdets]
  unfold onRequest
  split
  · rfl
  simp only [hv, hresult, ne_eq, not_true_eq_false, false_and, if_false]

theorem onRequest_unchanged_of_no_match_call_me :
    onRequest wholeBodyUtils (policy555 false) (schedule555 false) (some "call me".toList)
      (fun _ => none) = (.upstreamRequestModifications none, fun _ => none) :=
  onRequest_unchanged_of_no_match wholeBodyUtils (policy555 false) (schedule555 false) _ rfl
    (by decide)

/-! ### What the response phase rewrites -/

end PIIMaskingRegex
