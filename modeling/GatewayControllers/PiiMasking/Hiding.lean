import GatewayControllers.PiiMasking.Redact

/-! pii-masking-regex | what the request phase hides | src/unnamed/part_000, lines 302–360

    Both loops of the request phase run unchanged on the content with each rune tagged by its
    position (`tag`); runes the code writes carry no position (`untagged`). A run on tagged text
    erases to the run on the text, so a position of the content is hidden when it is no longer
    among the `origins` of the tagged result.

    Redaction hides every rune inside a match that a detector's pattern finds in the text the
    detectors before it left (`redactStep_hides`, kept by later steps since origins only shrink).
    Masking leaves no run of copied runes that spells a stored literal (`noCopiedRun_replacePassOn`):
    `strings.ReplaceAll` replaces or overlaps every occurrence, and later steps only cut runs.
    Neither mode hides every rune of every match of the content: where matches of two detectors
    cross, the first one taken leaves the rest of the other. Redaction also leaves the rest of
    a match that holds another detector's match, when that detector runs first
    (`redact_leaks_nested_match`); masking, which finds every literal on the content before
    replacing any, longest first, does not. -/

namespace PIIMaskingRegex
open GoStrings GoRegexp

/-- Text whose runes carry the position of the content they were copied from, if any. -/
abbrev Tagged := List (Char × Option Nat)

/-- The content, each rune tagged with its position. -/
def tag (content : List Char) : Tagged := content.enum.map fun p => (p.2, some p.1)

/-- Text the code writes, tagged with no position. -/
def untagged (s : List Char) : Tagged := s.map fun ch => (ch, none)

/-- The positions of the content whose runes a tagged text still holds. -/
def origins (s : Tagged) : List Nat := s.filterMap Prod.snd

/-- The tagged text of the redaction loop before the detector of index `i`. -/
def redactTrace (content : List Char) (dets : List (String × Regexp)) (i : Nat) : Tagged :=
  (redactRun Prod.fst (untagged redactionToken) (dets.take i) ⟨tag content, false⟩).maskedContent

/-- The second pass of masking on the tagged content. -/
def maskTagged (content : List Char) (dets : List (String × Regexp)) (arr : Arrangement) :
    Tagged :=
  let M := (findPass content dets).entities
  replacePassOn Prod.fst untagged M (arr.arrange (M.map Prod.fst)) (tag content)

@[simp] theorem map_fst_tag (content : List Char) : (tag content).map Prod.fst = content := by
  simp [tag, List.map_map, Function.comp_def, List.enum_map_snd]

@[simp] theorem map_fst_untagged (s : List Char) : (untagged s).map Prod.fst = s := by
  simp [untagged, List.map_map, Function.comp_def]

theorem origins_tag (content : List Char) : origins (tag content) = List.range content.length := by
  simp only [origins, tag, List.filterMap_map]
  rw [show (Prod.snd ∘ fun p : Nat × Char => (p.2, some p.1)) = some ∘ Prod.fst from rfl,
    List.filterMap_eq_map, List.enum_map_fst]

theorem origins_untagged (s : List Char) : origins (untagged s) = [] := by
  simp [origins, untagged, List.filterMap_map]

/-- Two positions of a text with distinct origins that carry the same origin are one. -/
theorem eq_of_origin {p : Nat} : ∀ {s : Tagged} {j k : Nat} {x y : Char × Option Nat},
    (origins s).Nodup → s[j]? = some x → s[k]? = some y → x.2 = some p → y.2 = some p → j = k
  | [], _, _, _, _, _, hj, _, _, _ => by simp at hj
  | a :: s, j, k, x, y, hs, hj, hk, hx, hy => by
    have hmem : ∀ {i : Nat} {z : Char × Option Nat}, s[i]? = some z → z.2 = some p →
        p ∈ origins s := fun h hz =>
      List.mem_filterMap.mpr ⟨_, List.mem_iff_getElem?.mpr ⟨_, h⟩, hz⟩
    cases j <;> cases k <;> simp only [List.getElem?_cons_zero, List.getElem?_cons_succ,
      Option.some.injEq] at hj hk
    · rfl
    · subst hj
      simp only [origins, List.filterMap_cons_some hx, List.nodup_cons] at hs
      exact absurd (hmem hk hy) hs.1
    · subst hk
      simp only [origins, List.filterMap_cons_some hy, List.nodup_cons] at hs
      exact absurd (hmem hj hx) hs.1
    · have hs' : (origins s).Nodup := hs.sublist ((List.sublist_cons_self a s).filterMap _)
      rw [eq_of_origin hs' hj hk hx hy]

/-! ### Redaction -/

theorem origins_redactStep_sublist (s : Tagged) (pattern : Regexp) :
    (origins (redactStep Prod.fst (untagged redactionToken) ⟨s, false⟩ pattern).maskedContent).Sublist
      (origins s) := by
  unfold redactStep
  split
  · exact filterMap_assemble_sublist Prod.snd (origins_untagged _) (allMatches_ascending _ _)
  · exact List.Sublist.refl _

/-- Later detectors only drop origins. -/
theorem origins_redactRun_sublist :
    ∀ (dets : List (String × Regexp)) (st : RedactState (Char × Option Nat)),
      (origins (redactRun Prod.fst (untagged redactionToken) dets st).maskedContent).Sublist
        (origins st.maskedContent)
  | [], _ => List.Sublist.refl _
  | d :: dets, ⟨s, b⟩ => by
    rw [redactRun_cons]
    refine (origins_redactRun_sublist dets _).trans ?_
    have h := origins_redactStep_sublist s d.2
    unfold redactStep at h ⊢
    split <;> simp_all

/-- One detector hides every rune inside a match its pattern finds in the text it sees. -/
theorem redactStep_hides {st : RedactState (Char × Option Nat)} (hs : (origins st.maskedContent).Nodup)
    {pattern : Regexp} {m : Nat × Nat} (hm : m ∈ allMatches pattern (st.maskedContent.map Prod.fst))
    {k : Nat} (hk1 : m.1 ≤ k) (hk2 : k < m.2) {x : Char × Option Nat} {p : Nat}
    (hx : st.maskedContent[k]? = some x) (hxp : x.2 = some p) :
    p ∉ origins (redactStep Prod.fst (untagged redactionToken) st pattern).maskedContent := by
  have hmatch : matchString pattern (st.maskedContent.map Prod.fst) = true :=
    (matchString_iff _ _).mpr (List.ne_nil_of_mem hm)
  simp only [redactStep, hmatch, if_true, replaceAllStringOn]
  intro hp
  obtain ⟨y, hy, hyp⟩ := List.mem_filterMap.mp hp
  rcases mem_assemble (allMatches_ascending _ _) hy with hy | ⟨j, hj, -, hout⟩
  · simp only [untagged, List.mem_map] at hy
    obtain ⟨a, -, rfl⟩ := hy
    cases hyp
  · obtain rfl := eq_of_origin hs hj hx hyp hxp
    rcases hout m hm with h | h <;> omega

theorem redactTrace_succ (content : List Char) (dets : List (String × Regexp)) {i : Nat}
    (hi : i < dets.length) :
    redactRun Prod.fst (untagged redactionToken) (dets.take (i + 1)) ⟨tag content, false⟩ =
      redactStep Prod.fst (untagged redactionToken)
        (redactRun Prod.fst (untagged redactionToken) (dets.take i) ⟨tag content, false⟩) dets[i].2 := by
  rw [← List.take_concat_get' dets i hi, redactRun, List.foldl_concat]; rfl

/-! ### Masking -/

/-- No run of runes copied from the content spells `o`. -/
def NoCopiedRun (o : List Char) (s : Tagged) : Prop :=
  ∀ w, w <:+: s → (∀ x ∈ w, x.2.isSome = true) → w.map Prod.fst ≠ o

theorem not_isSome_untagged {p : List Char} : ∀ x ∈ untagged p, ¬ x.2.isSome = true := by
  simp [untagged]

theorem untagged_ne_nil {p : List Char} (hp : p ≠ []) : untagged p ≠ [] := by
  simpa [untagged] using hp

/-- A step of the second pass keeps every run it does not cut. -/
theorem noCopiedRun_replaceAllOn {o o' p : List Char} (hp : p ≠ []) {s : Tagged}
    (h : NoCopiedRun o s) : NoCopiedRun o (replaceAllOn Prod.fst o' (untagged p) s) :=
  fun w hw hwP => h w (infix_of_infix_replaceAllOn (untagged_ne_nil hp) not_isSome_untagged s w hw hwP) hwP

/-- The step for `o` leaves no copied run that spells `o`. -/
theorem noCopiedRun_replaceAllOn_self {o p : List Char} (ho : o ≠ []) (hp : p ≠ []) (s : Tagged) :
    NoCopiedRun o (replaceAllOn Prod.fst o (untagged p) s) :=
  map_ne_of_infix_replaceAllOn (untagged_ne_nil hp) not_isSome_untagged ho s

section Pass

variable {M : Entities} (hM : ∀ e ∈ M, e.2 ≠ [])
include hM

theorem lookup_ne_nil {o : List Char} (ho : o ∈ M.map Prod.fst) : (M.lookup o).getD [] ≠ [] := by
  obtain ⟨v, hv, hmem⟩ := lookup_of_mem ho
  rw [hv]; exact hM _ hmem

theorem noCopiedRun_replacePassOn_of {o : List Char} :
    ∀ {os : List (List Char)} {s : Tagged}, (∀ o' ∈ os, o' ∈ M.map Prod.fst) → NoCopiedRun o s →
      NoCopiedRun o (replacePassOn Prod.fst untagged M os s)
  | [], _, _, h => h
  | o' :: os, _, hos, h => by
    rw [replacePassOn_cons]
    exact noCopiedRun_replacePassOn_of (fun o'' h' => hos o'' (List.mem_cons_of_mem _ h'))
      (noCopiedRun_replaceAllOn (lookup_ne_nil hM (hos o' (List.mem_cons_self _ _))) h)

/-- After the second pass, no run of copied runes spells a non-empty literal it replaced. -/
theorem noCopiedRun_replacePassOn :
    ∀ {os : List (List Char)} {s : Tagged}, (∀ o' ∈ os, o' ∈ M.map Prod.fst) →
      ∀ o ∈ os, o ≠ [] → NoCopiedRun o (replacePassOn Prod.fst untagged M os s)
  | [], _, _, _, ho, _ => absurd ho (List.not_mem_nil _)
  | o' :: os, s, hos, o, ho, hne => by
    rw [replacePassOn_cons]
    have hos' : ∀ o'' ∈ os, o'' ∈ M.map Prod.fst := fun o'' h' => hos o'' (List.mem_cons_of_mem _ h')
    rcases List.mem_cons.mp ho with rfl | ho
    · exact noCopiedRun_replacePassOn_of hM hos' (noCopiedRun_replaceAllOn_self hne
        (lookup_ne_nil hM (hos o (List.mem_cons_self _ _))) s)
    · exact noCopiedRun_replacePassOn hos' o ho hne

end Pass

theorem map_fst_replacePassOn (M : Entities) :
    ∀ (os : List (List Char)) (s : Tagged),
      (replacePassOn Prod.fst untagged M os s).map Prod.fst = replacePass M os (s.map Prod.fst)
  | [], _ => rfl
  | o :: os, s => by
    have h : (replaceAllOn Prod.fst o (untagged ((M.lookup o).getD [])) s).map Prod.fst =
        replaceAllOn id o ((untagged ((M.lookup o).getD [])).map Prod.fst) (s.map Prod.fst) :=
      map_replaceAllOn Prod.fst (fun _ => rfl : ∀ a : Char × Option Nat, id a.1 = a.1) s
    rw [replacePassOn_cons, map_fst_replacePassOn M os, replacePass_cons, h, map_fst_untagged]
    rfl

/-! ### The request phase -/

/-- What the request phase hides, in both modes and for every order of the detectors and of the
    second pass: redaction removes every rune of the content inside a match that a detector's
    pattern finds in the text the detectors before it left, and masking leaves no run of runes
    copied from the content that spells a non-empty stored literal; both tagged runs erase to the
    code's loops. -/
theorem request_phase_hides (content : List Char) (dets : List (String × Regexp))
    (arr : Arrangement) :
    (∀ i (hi : i < dets.length),
      ∀ m ∈ allMatches dets[i].2 ((redactTrace content dets i).map Prod.fst),
      ∀ k x p, m.1 ≤ k → k < m.2 → (redactTrace content dets i)[k]? = some x → x.2 = some p →
        p ∉ origins (redactTrace content dets dets.length)) ∧
    (redactTrace content dets dets.length).map Prod.fst =
      (redactRun id redactionToken dets ⟨content, false⟩).maskedContent ∧
    (∀ L ∈ (findPass content dets).entities.map Prod.fst, L ≠ [] →
      ∀ w, w <:+: maskTagged content dets arr → (∀ x ∈ w, x.2.isSome = true) →
        w.map Prod.fst ≠ L) ∧
    (maskTagged content dets arr).map Prod.fst = replacePass (findPass content dets).entities
      (arr.arrange ((findPass content dets).entities.map Prod.fst)) content := by
  have hnodup : ∀ st : RedactState (Char × Option Nat), ∀ l,
      (origins st.maskedContent).Sublist (origins (tag content)) →
      (origins (redactRun Prod.fst (untagged redactionToken) l st).maskedContent).Nodup :=
    fun st l h => ((origins_redactRun_sublist l st).trans h).nodup
      (by rw [origins_tag]; exact List.nodup_range _)
  refine ⟨fun i hi m hm k x p hk1 hk2 hx hxp hp => ?_, ?_, ?_, ?_⟩
  · -- the step of detector `i` hides the rune, and the detectors after it only drop origins
    set st := redactRun Prod.fst (untagged redactionToken) (dets.take i) ⟨tag content, false⟩
    have hst : (origins st.maskedContent).Nodup :=
      hnodup _ _ (List.Sublist.refl _)
    have hgone := redactStep_hides hst hm hk1 hk2 hx hxp
    rw [← redactTrace_succ content dets hi] at hgone
    have hrest := origins_redactRun_sublist (dets.drop (i + 1))
      (redactRun Prod.fst (untagged redactionToken) (dets.take (i + 1)) ⟨tag content, false⟩)
    rw [← redactRun_append, List.take_append_drop] at hrest
    rw [redactTrace, List.take_length] at hp
    exact hgone (hrest.subset hp)
  · have h : redactRun id ((untagged redactionToken).map Prod.fst) dets
        (RedactState.map Prod.fst ⟨tag content, false⟩) =
        (redactRun Prod.fst (untagged redactionToken) dets ⟨tag content, false⟩).map Prod.fst :=
      redactRun_map Prod.fst (fun _ => rfl) _ dets _
    simp only [RedactState.map, map_fst_tag, map_fst_untagged] at h
    rw [redactTrace, List.take_length, h]
  · intro L hL hne
    exact noCopiedRun_replacePassOn (fun e he => findPass_placeholder he |>.elim
      fun d hd => hd.2.elim fun i hi => hi ▸ List.cons_ne_nil _ _)
      (fun o ho => (arr.perm _).subset ho) L ((arr.perm _).symm.subset hL) hne
  · rw [maskTagged, map_fst_replacePassOn, map_fst_tag]

example : redactPIIFromContent "abc".toList
      [("A", .literal "ab".toList), ("B", .literal "bc".toList)] = "*****c".toList ∧
    2 ∈ origins (redactTrace "abc".toList
      [("A", .literal "ab".toList), ("B", .literal "bc".toList)] 2) ∧
    2 ∈ origins (maskTagged "abc".toList
      [("A", .literal "ab".toList), ("B", .literal "bc".toList)] .byLength) := by decide

/-- A match inside another detector's match, redacted first, splits the outer one: `PHONE`
    (pattern `2345678901`) and `EMAIL` (pattern `2345678901@x\.com`) on `2345678901@x.com`.
    `EMAIL` matches the whole content, yet redaction with `PHONE` visited first keeps positions
    10 to 15, the text `@x.com`; with `EMAIL` first it keeps nothing, and masking keeps nothing
    in either order. -/
theorem redact_leaks_nested_match :
    let phone : String × Regexp := ("PHONE", .literal "2345678901".toList)
    let email : String × Regexp := ("EMAIL", .literal "2345678901@x.com".toList)
    let c := "2345678901@x.com".toList
    allMatches email.2 c = [(0, 16)] ∧
    redactPIIFromContent c [phone, email] = "*****@x.com".toList ∧
    origins (redactTrace c [phone, email] 2) = [10, 11, 12, 13, 14, 15] ∧
    redactPIIFromContent c [email, phone] = "*****".toList ∧
    origins (redactTrace c [email, phone] 2) = [] ∧
    (maskPIIFromContent c [phone, email] .byLength (fun _ => none)).1 = "[EMAIL_0001]".toList ∧
    origins (maskTagged c [phone, email] .byLength) = [] ∧
    (maskPIIFromContent c [email, phone] .byLength (fun _ => none)).1 = "[EMAIL_0000]".toList ∧
    origins (maskTagged c [email, phone] .byLength) = [] := by
  decide

end PIIMaskingRegex
