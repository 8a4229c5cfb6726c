import GatewayControllers.PiiMasking.Mask

/-! pii-masking-regex | redactPIIFromContent | src/unnamed/part_000, lines 339–360

    Redaction runs each detector's pattern over the text the detectors before it left, replacing
    every match by `*****`, and returns "" when no pattern matched. The loop is written over any
    text whose elements carry a rune, so that it also runs on content tagged with positions; a run
    on relabelled text is the relabelled run (`redactRun_map`).

    Two things do not depend on the detectors' iteration order: redaction returns "" exactly
    when the content is empty or no pattern matches it (`redactPIIFromContent_eq_nil_iff`), and
    masking stores the same literals whatever the order (`findPass_keys_perm`). Which placeholder
    a literal gets, the texts both modes return, and so whether OnRequest forwards the request
    changed at all, can change with the order (`request_phase_order_dependent`). -/

namespace PIIMaskingRegex
open GoStrings GoRegexp

/-- The variables of the loop of redactPIIFromContent. -/
structure RedactState (α : Type) where
  maskedContent : List α
  foundAndMasked : Bool

/-- The text every match is replaced by. -/
def redactionToken : List Char := "*****".toList

section Loop

variable {α : Type} (view : α → Char) (token : List α)

/-- One iteration: a pattern that matches marks the state and replaces all its matches. -/
def redactStep (st : RedactState α) (pattern : Regexp) : RedactState α :=
  if matchString pattern (st.maskedContent.map view) then
    ⟨replaceAllStringOn view pattern st.maskedContent token, true⟩
  else st

/-- The loop over the detectors in iteration order. -/
def redactRun (dets : List (String × Regexp)) (st : RedactState α) : RedactState α :=
  dets.foldl (fun st d => redactStep view token st d.2) st

@[simp] theorem redactRun_nil (st : RedactState α) : redactRun view token [] st = st := rfl

@[simp] theorem redactRun_cons (d : String × Regexp) (dets : List (String × Regexp))
    (st : RedactState α) :
    redactRun view token (d :: dets) st = redactRun view token dets (redactStep view token st d.2) :=
  rfl

theorem redactRun_append (l₁ l₂ : List (String × Regexp)) (st : RedactState α) :
    redactRun view token (l₁ ++ l₂) st = redactRun view token l₂ (redactRun view token l₁ st) :=
  List.foldl_append _ _ _ _

end Loop

/-- `redactPIIFromContent(content, piiEntities)`, with the detectors in the order `range`
    visits them. -/
def redactPIIFromContent (content : List Char) (piiEntities : List (String × Regexp)) :
    List Char :=
  if content = [] then [] else
    let st := redactRun id redactionToken piiEntities ⟨content, false⟩
    if st.foundAndMasked then st.maskedContent else []

/-! ### The loop on relabelled text -/

/-- Relabel the elements of the loop's text. -/
def RedactState.map {α γ : Type} (f : α → γ) (st : RedactState α) : RedactState γ :=
  ⟨st.maskedContent.map f, st.foundAndMasked⟩

section Map

variable {α γ : Type} {view : α → Char} {view' : γ → Char} (f : α → γ)
  (hv : ∀ a, view' (f a) = view a) (token : List α)
include hv

theorem redactStep_map (st : RedactState α) (pattern : Regexp) :
    redactStep view' (token.map f) (st.map f) pattern = (redactStep view token st pattern).map f := by
  have hmap : (st.maskedContent.map f).map view' = st.maskedContent.map view := by
    simp only [List.map_map]; exact List.map_congr_left fun a _ => hv a
  unfold redactStep
  simp only [RedactState.map, hmap]
  split <;> simp [replaceAllStringOn, hmap, map_assemble]

/-- The loop commutes with relabelling the text, as long as the runes stay the same. -/
theorem redactRun_map :
    ∀ (dets : List (String × Regexp)) (st : RedactState α),
      redactRun view' (token.map f) dets (st.map f) = (redactRun view token dets st).map f
  | [], _ => rfl
  | d :: dets, st => by
    rw [redactRun_cons, redactStep_map f hv, redactRun_map dets, redactRun_cons]

end Map

/-! ### Whether anything was found -/

section Found

variable {α : Type} (view : α → Char) (token : List α)

theorem redactRun_found_true :
    ∀ (dets : List (String × Regexp)) (s : List α),
      (redactRun view token dets ⟨s, true⟩).foundAndMasked = true
  | [], _ => rfl
  | d :: dets, s => by
    rw [redactRun_cons, redactStep]
    split
    · exact redactRun_found_true dets _
    · exact redactRun_found_true dets s

/-- The loop reports a match exactly when some pattern matches the text it started from: the
    first pattern that matches sees that text unchanged. -/
theorem redactRun_found_iff :
    ∀ (dets : List (String × Regexp)) (s : List α),
      (redactRun view token dets ⟨s, false⟩).foundAndMasked = true ↔
        ∃ d ∈ dets, matchString d.2 (s.map view) = true
  | [], _ => iff_of_false Bool.false_ne_true fun ⟨_, hd, _⟩ => List.not_mem_nil _ hd
  | d :: dets, s => by
    rw [redactRun_cons, redactStep]
    split
    · exact iff_of_true (redactRun_found_true view token dets _) ⟨d, List.mem_cons_self _ _, ‹_›⟩
    · rw [redactRun_found_iff dets s]
      constructor
      · rintro ⟨d', hd', h⟩; exact ⟨d', List.mem_cons_of_mem _ hd', h⟩
      · rintro ⟨d', hd', h⟩
        rcases List.mem_cons.mp hd' with rfl | hd'
        · exact absurd h ‹_›
        · exact ⟨d', hd', h⟩

/-- With a non-empty token, a non-empty text stays non-empty. -/
theorem redactRun_ne_nil (htok : token ≠ []) :
    ∀ (dets : List (String × Regexp)) (st : RedactState α), st.maskedContent ≠ [] →
      (redactRun view token dets st).maskedContent ≠ []
  | [], _, h => h
  | d :: dets, st, h => by
    rw [redactRun_cons]
    refine redactRun_ne_nil htok dets _ ?_
    unfold redactStep
    split
    · rename_i hm
      obtain ⟨m, ms, hms⟩ := List.exists_cons_of_ne_nil ((matchString_iff _ _).mp hm)
      simp only [replaceAllStringOn, hms, assemble]
      exact fun h' => htok (List.append_eq_nil.mp (List.append_eq_nil.mp h').1).2
    · exact h

end Found

/-- Redaction returns "" exactly when the content is empty or no pattern matches it. -/
theorem redactPIIFromContent_eq_nil_iff (content : List Char) (dets : List (String × Regexp)) :
    redactPIIFromContent content dets = [] ↔
      content = [] ∨ ∀ d ∈ dets, matchString d.2 content = false := by
  by_cases hc : content = []
  · exact iff_of_true (by rw [redactPIIFromContent, if_pos hc]) (.inl hc)
  have hfound := redactRun_found_iff id redactionToken dets content
  rw [List.map_id] at hfound
  simp only [redactPIIFromContent, hc, if_false, false_or]
  split
  · rename_i h
    obtain ⟨d, hd, hm⟩ := hfound.mp h
    exact iff_of_false (redactRun_ne_nil id redactionToken (by decide) dets _ hc)
      fun hall => absurd (hall d hd) (by rw [hm]; decide)
  · rename_i h
    exact iff_of_true rfl fun d hd => Bool.eq_false_iff.mpr fun hm => h (hfound.mpr ⟨d, hd, hm⟩)

/-! ### Order of the detectors -/

/-- The literals of the stored map do not depend on the detectors' order. -/
theorem findPass_keys_perm (content : List Char) {dets dets' : List (String × Regexp)}
    (h : dets.Perm dets') :
    ((findPass content dets).entities.map Prod.fst).Perm
      ((findPass content dets').entities.map Prod.fst) := by
  refine (List.perm_ext_iff_of_nodup (findPass_inv content dets).nodup
    (findPass_inv content dets').nodup).mpr fun L => ?_
  simp only [findPass_mem_iff, h.mem_iff]

theorem maskPIIFromContent_nil (dets : List (String × Regexp)) (arr : Arrangement)
    (md : Metadata) : (maskPIIFromContent [] dets arr md).1 = [] := by
  simp [maskPIIFromContent]

/-- For any two orders of the detectors and any two orders of the second pass, masking stores the
    same literals and returns "" under both or neither, and redaction returns "" under both or
    neither. -/
theorem literals_and_empty_result_order_independent (content : List Char)
    {dets dets' : List (String × Regexp)} (hperm : dets.Perm dets') (arr arr' : Arrangement)
    (md md' : Metadata) :
    ((findPass content dets).entities.map Prod.fst).Perm
      ((findPass content dets').entities.map Prod.fst) ∧
    ((maskPIIFromContent content dets arr md).1 = [] ↔
      (maskPIIFromContent content dets' arr' md').1 = []) ∧
    (redactPIIFromContent content dets = [] ↔ redactPIIFromContent content dets' = []) := by
  refine ⟨findPass_keys_perm content hperm, ?_, ?_⟩
  · by_cases hc : content = []
    · subst hc; simp only [maskPIIFromContent_nil]
    rw [maskPIIFromContent_eq_nil_iff hc, maskPIIFromContent_eq_nil_iff hc,
      ← List.length_eq_zero, ← List.length_eq_zero, ← List.length_map _ Prod.fst,
      (findPass_keys_perm content hperm).length_eq, List.length_map]
  · simp only [redactPIIFromContent_eq_nil_iff, hperm.mem_iff]

/-- Two detectors in the two orders: `A` (pattern `a`) and `B` (pattern `b`) on `ab`. -/
theorem literals_and_empty_result_order_independent_ab :
    let ab : List (String × Regexp) := [("A", .literal "a".toList), ("B", .literal "b".toList)]
    let ba : List (String × Regexp) := [("B", .literal "b".toList), ("A", .literal "a".toList)]
    ((findPass "ab".toList ab).entities.map Prod.fst).Perm
      ((findPass "ab".toList ba).entities.map Prod.fst) ∧
    ((maskPIIFromContent "ab".toList ab .byLength (fun _ => none)).1 = [] ↔
      (maskPIIFromContent "ab".toList ba .byLength (fun _ => none)).1 = []) ∧
    (redactPIIFromContent "ab".toList ab = [] ↔ redactPIIFromContent "ab".toList ba = []) :=
  literals_and_empty_result_order_independent "ab".toList (List.Perm.swap _ _ _) _ _ _ _

/-- The texts and the mapping depend on the order: `A` (pattern `a`) and `B` (pattern `b`) on
    `ab` swap their counters, the overlapping `ab` and `bc` on `abc` each leave the other's last
    or first rune, and detectors of seven and three asterisks redact `*******` to itself in one
    order (so OnRequest forwards the request unchanged) and to nine asterisks in the other. -/
theorem request_phase_order_dependent :
    let ab : List (String × Regexp) := [("A", .literal "a".toList), ("B", .literal "b".toList)]
    let ba : List (String × Regexp) := [("B", .literal "b".toList), ("A", .literal "a".toList)]
    (findPass "ab".toList ab).entities =
      [("a".toList, "[A_0000]".toList), ("b".toList, "[B_0001]".toList)] ∧
    (findPass "ab".toList ba).entities =
      [("b".toList, "[B_0000]".toList), ("a".toList, "[A_0001]".toList)] ∧
    (maskPIIFromContent "ab".toList ab .byLength (fun _ => none)).1 = "[A_0000][B_0001]".toList ∧
    (maskPIIFromContent "ab".toList ba .byLength (fun _ => none)).1 = "[A_0001][B_0000]".toList ∧
    redactPIIFromContent "abc".toList
      [("A", .literal "ab".toList), ("B", .literal "bc".toList)] = "*****c".toList ∧
    redactPIIFromContent "abc".toList
      [("B", .literal "bc".toList), ("A", .literal "ab".toList)] = "a*****".toList ∧
    redactPIIFromContent "*******".toList
      [("A", .literal "*******".toList), ("B", .literal "***".toList)] = "*******".toList ∧
    redactPIIFromContent "*******".toList
      [("B", .literal "***".toList), ("A", .literal "*******".toList)] = "*********".toList := by
  decide

end PIIMaskingRegex
