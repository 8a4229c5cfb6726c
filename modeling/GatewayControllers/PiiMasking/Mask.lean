import Mathlib.Data.List.Sort
import GatewayControllers.Go.Strings
import GatewayControllers.Go.Regexp
import GatewayControllers.PiiMasking.Placeholder

/-! pii-masking-regex | maskPIIFromContent | src/unnamed/part_000, lines 290–337

    Masking runs two passes over the content. The first ranges over the detector map and, for
    each match `FindAllString` returns, gives a literal that is new and not placeholder-shaped the
    placeholder `[KEY_counter]` and bumps the one counter shared by all detectors. The second
    ranges over the literals, sorted longest first, and replaces each everywhere by its
    placeholder. The map is stored in the exchange metadata when it is non-empty.

    Go's map iteration order is unspecified and `sort.Slice` is not stable, so the detectors come
    as a list in visiting order and the second pass's order is an `Arrangement`, a structure that
    carries the two facts Go guarantees about it. The first pass keeps `FindInv`: the map's
    literals are exactly the non-placeholder matches seen so far, each once, and the `i`-th holds
    the placeholder of counter `i` for a detector that returned it (`findPass_inv`). -/

namespace PIIMaskingRegex
open GoStrings GoRegexp

/-- The literal → placeholder map of one request (`allMatches`, and its copy
    `maskedPIIEntities`, which receives the same insertions), in insertion order. -/
abbrev Entities := List (List Char × List Char)

/-- `MetadataKeyPIIEntities`. -/
def metadataKeyPIIEntities : String := "piimaskingregex:pii_entities"

/-- A value of the exchange metadata as OnResponse reads it: a `map[string]string`, or a value
    of any other type. -/
inductive MetaValue where
  | stringMap (m : Entities)
  | other
  deriving DecidableEq

/-- The exchange-scoped metadata map `ctx.Metadata`. -/
abbrev Metadata := String → Option MetaValue

/-- `metadata[key] = v`. -/
def Metadata.set (md : Metadata) (key : String) (v : MetaValue) : Metadata :=
  fun k => if k = key then some v else md k

/-! ### First pass: find all matches -/

/-- State of the first pass: the map built so far and `counter`. -/
structure FindState where
  entities : Entities
  counter : Nat

/-- One match of detector `key`: a literal that is new and not placeholder-shaped gets the
    placeholder of the current counter. -/
def findMatch (key : String) (st : FindState) (m : List Char) : FindState :=
  if m ∉ st.entities.map Prod.fst ∧ isPlaceholder m = false then
    ⟨st.entities ++ [(m, placeholder key st.counter)], st.counter + 1⟩
  else st

/-- One detector: its matches on the content, in order. -/
def findDetector (content : List Char) (st : FindState) (d : String × Regexp) : FindState :=
  (findAllString d.2 content).foldl (findMatch d.1) st

/-- The first pass, over the detectors in iteration order. -/
def findPass (content : List Char) (dets : List (String × Regexp)) : FindState :=
  dets.foldl (findDetector content) ⟨[], 0⟩

/-! ### Second pass: replace all matches -/

/-- The order of the second pass. Go ranges over `allMatches` in an unspecified order and
    `sort.Slice` (not stable) puts longer literals first, comparing `len`, their length in bytes:
    any permutation sorted by decreasing byte length may come out. -/
structure Arrangement where
  arrange : List (List Char) → List (List Char)
  perm : ∀ l, (arrange l).Perm l
  sorted : ∀ l, (arrange l).Sorted fun a b => byteLen b ≤ byteLen a

/-- One arrangement: insertion sort by decreasing byte length. -/
def Arrangement.byLength : Arrangement where
  arrange := List.insertionSort fun a b => byteLen b ≤ byteLen a
  perm := List.perm_insertionSort _
  sorted l := by
    haveI : IsTotal (List Char) fun a b => byteLen b ≤ byteLen a := ⟨fun a b => le_total _ _⟩
    haveI : IsTrans (List Char) fun a b => byteLen b ≤ byteLen a :=
      ⟨fun _ _ _ h1 h2 => le_trans h2 h1⟩
    exact List.sorted_insertionSort _ _

example : Arrangement.byLength.arrange ["éabcde".toList, "éééé".toList] =
    ["éééé".toList, "éabcde".toList] := by decide

/-- The second pass: each literal of `originals` in turn replaced everywhere by
    `allMatches[original]`, over text whose elements carry a rune (`view`) and into which `emit`
    writes a placeholder. -/
def replacePassOn {α : Type} (view : α → Char) (emit : List Char → List α) (allMatches : Entities)
    (originals : List (List Char)) (content : List α) : List α :=
  originals.foldl (fun s o => replaceAllOn view o (emit ((allMatches.lookup o).getD [])) s) content

@[simp] theorem replacePassOn_nil {α : Type} (view : α → Char) (emit : List Char → List α)
    (M : Entities) (s : List α) : replacePassOn view emit M [] s = s := rfl

@[simp] theorem replacePassOn_cons {α : Type} (view : α → Char) (emit : List Char → List α)
    (M : Entities) (o : List Char) (os : List (List Char)) (s : List α) :
    replacePassOn view emit M (o :: os) s =
      replacePassOn view emit M os (replaceAllOn view o (emit ((M.lookup o).getD [])) s) := rfl

/-- The second pass on plain text. -/
def replacePass (allMatches : Entities) (originals : List (List Char)) (content : List Char) :
    List Char :=
  replacePassOn id id allMatches originals content

@[simp] theorem replacePass_nil (M : Entities) (s : List Char) : replacePass M [] s = s := rfl

@[simp] theorem replacePass_cons (M : Entities) (o : List Char) (os : List (List Char))
    (s : List Char) :
    replacePass M (o :: os) s = replacePass M os (replaceAll s o ((M.lookup o).getD [])) := rfl

/-- `maskPIIFromContent(content, piiEntities, metadata)`, with the detectors in the order
    `range` visits them and the second pass in the order `arr` gives: the masked content and the
    metadata after the write. (Its error result is always nil.) -/
def maskPIIFromContent (content : List Char) (dets : List (String × Regexp)) (arr : Arrangement)
    (metadata : Metadata) : List Char × Metadata :=
  if content = [] then ([], metadata) else
    let allMatches := (findPass content dets).entities
    let maskedContent := replacePass allMatches (arr.arrange (allMatches.map Prod.fst)) content
    let metadata := if allMatches ≠ [] then
      metadata.set metadataKeyPIIEntities (.stringMap allMatches) else metadata
    (if allMatches ≠ [] then maskedContent else [], metadata)

/-! ### The first pass's invariant -/

/-- Invariant of the first pass after the matches `found` (each with its detector's name):
    the literals are the distinct non-placeholder ones found, and the `i`-th entry holds the
    placeholder of counter `i` for a detector that found its literal. -/
structure FindInv (found : List (String × List Char)) (st : FindState) : Prop where
  counter_eq : st.counter = st.entities.length
  nodup : (st.entities.map Prod.fst).Nodup
  mem_iff : ∀ L, L ∈ st.entities.map Prod.fst ↔
    (∃ k, (k, L) ∈ found) ∧ isPlaceholder L = false
  entry : ∀ i (h : i < st.entities.length),
    ∃ k, st.entities[i].2 = placeholder k i ∧ (k, st.entities[i].1) ∈ found

theorem findInv_nil : FindInv [] ⟨[], 0⟩ :=
  ⟨rfl, List.nodup_nil, fun _ => by simp, fun _ h => absurd h (Nat.not_lt_zero _)⟩

/-- One match keeps the invariant. -/
theorem findInv_findMatch {found : List (String × List Char)} {st : FindState} (key : String)
    (m : List Char) (hi : FindInv found st) : FindInv (found ++ [(key, m)]) (findMatch key st m) := by
  have hfound : ∀ k L, (k, L) ∈ found ++ [(key, m)] ↔ (k, L) ∈ found ∨ (k = key ∧ L = m) := by
    simp
  unfold findMatch
  split_ifs with h
  · obtain ⟨hnew, hpl⟩ := h
    refine ⟨by simp [hi.counter_eq], ?_, fun L => ?_, fun i hlt => ?_⟩
    · simpa [List.nodup_append, hi.nodup] using hnew
    · simp only [List.map_append, List.map_cons, List.map_nil, List.mem_append,
        List.mem_singleton, hi.mem_iff, hfound]
      by_cases hL : L = m
      · subst hL; simp [hpl]
      · simp [hL]
    · simp only [List.length_append, List.length_singleton] at hlt
      rcases Nat.lt_succ_iff_lt_or_eq.mp hlt with hlt | rfl
      · obtain ⟨k, hk, hkf⟩ := hi.entry i hlt
        exact ⟨k, by rw [List.getElem_append_left hlt]; exact hk,
          by rw [List.getElem_append_left hlt]; exact List.mem_append_left _ hkf⟩
      · refine ⟨key, ?_, ?_⟩ <;> simp [hi.counter_eq]
  · refine ⟨hi.counter_eq, hi.nodup, fun L => ?_, fun i hlt => ?_⟩
    · rw [hi.mem_iff]
      by_cases hL : L = m
      · subst hL
        by_cases hpl : isPlaceholder L = false
        · have hmem : L ∈ st.entities.map Prod.fst := by simpa [hpl] using h
          exact ⟨fun _ => ⟨⟨key, by simp⟩, hpl⟩, fun _ => (hi.mem_iff L).mp hmem⟩
        · simp [hpl]
      · simp [hfound, hL]
    · obtain ⟨k, hk, hkf⟩ := hi.entry i hlt
      exact ⟨k, hk, List.mem_append_left _ hkf⟩

/-- One detector keeps the invariant, its matches added to `found`. -/
theorem findInv_findDetector (content : List Char) (d : String × Regexp) :
    ∀ {found st}, FindInv found st →
      FindInv (found ++ (findAllString d.2 content).map (d.1, ·)) (findDetector content st d) := by
  intro found st hi
  unfold findDetector
  induction findAllString d.2 content generalizing found st with
  | nil => simpa using hi
  | cons m ms ih =>
    simpa [List.append_assoc] using ih (findInv_findMatch d.1 m hi)

/-- The matches the first pass visits, each with its detector's name. -/
def foundMatches (content : List Char) (dets : List (String × Regexp)) :
    List (String × List Char) :=
  dets.flatMap fun d => (findAllString d.2 content).map (d.1, ·)

theorem mem_foundMatches {content : List Char} {dets : List (String × Regexp)} {k : String}
    {L : List Char} :
    (k, L) ∈ foundMatches content dets ↔ ∃ d ∈ dets, d.1 = k ∧ L ∈ findAllString d.2 content := by
  simp only [foundMatches, List.mem_flatMap, List.mem_map, Prod.mk.injEq]
  constructor
  · rintro ⟨d, hd, L', hL', rfl, rfl⟩; exact ⟨d, hd, rfl, hL'⟩
  · rintro ⟨d, hd, rfl, hL⟩; exact ⟨d, hd, L, hL, rfl, rfl⟩

/-- The first pass establishes the invariant for all the matches of all the detectors. -/
theorem findPass_inv (content : List Char) (dets : List (String × Regexp)) :
    FindInv (foundMatches content dets) (findPass content dets) := by
  suffices h : ∀ (ds : List (String × Regexp)) found st, FindInv found st →
      FindInv (found ++ foundMatches content ds) (ds.foldl (findDetector content) st) by
    simpa using h dets [] _ findInv_nil
  intro ds
  induction ds with
  | nil => intro found st hi; simpa [foundMatches] using hi
  | cons d ds ih =>
    intro found st hi
    simpa [foundMatches, List.append_assoc] using ih _ _ (findInv_findDetector content d hi)

end PIIMaskingRegex

/-! ### The stored map -/

namespace PIIMaskingRegex
open GoStrings GoRegexp

theorem lookup_of_mem {M : Entities} {o : List Char} (h : o ∈ M.map Prod.fst) :
    ∃ v, M.lookup o = some v ∧ (o, v) ∈ M := by
  induction M with
  | nil => simp at h
  | cons e M ih =>
    obtain ⟨k, v⟩ := e
    by_cases hk : o = k
    · subst hk; exact ⟨v, by simp [List.lookup_cons], List.mem_cons_self _ _⟩
    · obtain ⟨w, hw, hmem⟩ := ih (by simpa [hk] using h)
      exact ⟨w, by simp only [List.lookup_cons, beq_false_of_ne hk, hw],
        List.mem_cons_of_mem _ hmem⟩

/-- Placeholders that carry their own counter are pairwise distinct. -/
theorem nodup_placeholders {M : Entities}
    (h : ∀ i (hi : i < M.length), ∃ k, M[i].2 = placeholder k i) : (M.map Prod.snd).Nodup := by
  rw [List.nodup_iff_injective_get]
  intro i j hij
  obtain ⟨k, hk⟩ := h i (by simpa using i.2)
  obtain ⟨k', hk'⟩ := h j (by simpa using j.2)
  simp only [List.get_eq_getElem, List.getElem_map] at hij
  exact Fin.ext (placeholder_injective (hk.symm.trans (hij.trans hk'))).2

/-- The second pass keeps a non-empty content non-empty: every literal it replaces has a
    non-empty placeholder. -/
theorem replacePass_ne_nil {M : Entities} (hM : ∀ e ∈ M, e.2 ≠ []) :
    ∀ {originals : List (List Char)} {s : List Char}, (∀ o ∈ originals, o ∈ M.map Prod.fst) →
      s ≠ [] → replacePass M originals s ≠ []
  | [], _, _, hs => hs
  | o :: os, s, ho, hs => by
    obtain ⟨v, hv, hmem⟩ := lookup_of_mem (ho o (List.mem_cons_self _ _))
    rw [replacePass_cons, hv]
    exact replacePass_ne_nil hM (fun o' h => ho o' (List.mem_cons_of_mem _ h))
      (replaceAllOn_ne_nil hs (hM _ hmem))

theorem findPass_mem_iff (content : List Char) (dets : List (String × Regexp)) (L : List Char) :
    L ∈ (findPass content dets).entities.map Prod.fst ↔
      (∃ d ∈ dets, L ∈ findAllString d.2 content) ∧ isPlaceholder L = false := by
  rw [(findPass_inv content dets).mem_iff]
  simp only [mem_foundMatches]
  constructor
  · rintro ⟨⟨k, d, hd, -, hL⟩, hpl⟩; exact ⟨⟨d, hd, hL⟩, hpl⟩
  · rintro ⟨⟨d, hd, hL⟩, hpl⟩; exact ⟨⟨d.1, d, hd, rfl, hL⟩, hpl⟩

/-- No literal is found when no pattern matches the content. -/
theorem findPass_eq_nil_of_no_match {content : List Char} {dets : List (String × Regexp)}
    (h : ∀ d ∈ dets, matchString d.2 content = false) : (findPass content dets).entities = [] := by
  refine List.map_eq_nil_iff.mp (List.eq_nil_iff_forall_not_mem.mpr fun L
    (hL : L ∈ (findPass content dets).entities.map Prod.fst) => ?_)
  obtain ⟨⟨d, hd, hL⟩, -⟩ := (findPass_mem_iff content dets L).mp hL
  have hnil : allMatches d.2 content = [] := by
    have := h d hd
    rwa [← Bool.not_eq_true, matchString_iff, not_not] at this
  simp [findAllString, hnil] at hL

theorem findPass_entry (content : List Char) (dets : List (String × Regexp)) :
    ∀ i (h : i < (findPass content dets).entities.length), ∃ d ∈ dets,
      (findPass content dets).entities[i].2 = placeholder d.1 i ∧
      (findPass content dets).entities[i].1 ∈ findAllString d.2 content := fun i h => by
  obtain ⟨k, hk, hkf⟩ := (findPass_inv content dets).entry i h
  obtain ⟨d, hd, rfl, hL⟩ := mem_foundMatches.mp hkf
  exact ⟨d, hd, hk, hL⟩

/-- Every stored placeholder is the placeholder of some detector's name. -/
theorem findPass_placeholder {content : List Char} {dets : List (String × Regexp)}
    {e : List Char × List Char} (he : e ∈ (findPass content dets).entities) :
    ∃ d ∈ dets, ∃ i, e.2 = placeholder d.1 i := by
  obtain ⟨i, hi, rfl⟩ := List.getElem_of_mem he
  obtain ⟨d, hd, hp, -⟩ := findPass_entry content dets i hi
  exact ⟨d, hd, i, hp⟩

theorem findPass_nodup_snd (content : List Char) (dets : List (String × Regexp)) :
    ((findPass content dets).entities.map Prod.snd).Nodup :=
  nodup_placeholders fun i h => (findPass_entry content dets i h).elim fun d hd => ⟨d.1, hd.2.1⟩

/-- The map is stored exactly when it is non-empty. -/
theorem maskPIIFromContent_metadata {content : List Char} (hc : content ≠ [])
    (dets : List (String × Regexp)) (arr : Arrangement) (md : Metadata) :
    (maskPIIFromContent content dets arr md).2 = if (findPass content dets).entities = [] then md
      else md.set metadataKeyPIIEntities (.stringMap (findPass content dets).entities) := by
  by_cases hM : (findPass content dets).entities = [] <;> simp [maskPIIFromContent, hc, hM]

/-- What the metadata holds after masking, key by key: the map under MetadataKeyPIIEntities when
    one was found, and every other entry as it was. -/
theorem maskPIIFromContent_metadata_apply {content : List Char} (hc : content ≠ [])
    (dets : List (String × Regexp)) (arr : Arrangement) (md : Metadata) (k : String) :
    (maskPIIFromContent content dets arr md).2 k =
      if k = metadataKeyPIIEntities ∧ (findPass content dets).entities ≠ [] then
        some (.stringMap (findPass content dets).entities)
      else md k := by
  rw [maskPIIFromContent_metadata hc]
  by_cases hM : (findPass content dets).entities = [] <;> simp [Metadata.set, hM]

/-- The masked content is empty exactly when no literal was found. -/
theorem maskPIIFromContent_eq_nil_iff {content : List Char} (hc : content ≠ [])
    (dets : List (String × Regexp)) (arr : Arrangement) (md : Metadata) :
    (maskPIIFromContent content dets arr md).1 = [] ↔ (findPass content dets).entities = [] := by
  by_cases hM : (findPass content dets).entities = []
  · simp [maskPIIFromContent, hc, hM]
  · simp only [maskPIIFromContent, hc, if_false, ne_eq, hM, not_false_eq_true, if_true,
      iff_false]
    refine replacePass_ne_nil (fun e he => ?_) (fun o ho => (arr.perm _).subset ho) hc
    obtain ⟨d, -, i, hi⟩ := findPass_placeholder he
    rw [hi]; exact List.cons_ne_nil _ _

/-- When a literal was found, the result is the second pass on the content. -/
theorem maskPIIFromContent_fst {content : List Char} (hc : content ≠ [])
    {dets : List (String × Regexp)} (hM : (findPass content dets).entities ≠ [])
    (arr : Arrangement) (md : Metadata) :
    (maskPIIFromContent content dets arr md).1 = replacePass (findPass content dets).entities
      (arr.arrange ((findPass content dets).entities.map Prod.fst)) content := by
  simp [maskPIIFromContent, hc, hM]

/-- The map maskPIIFromContent stores is a well-formed bijection: its literals are exactly the
    distinct non-placeholder matches of the detectors, its `i`-th placeholder is the one of
    counter `i` for a detector that matched its literal (so placeholders are pairwise distinct),
    it is stored under MetadataKeyPIIEntities exactly when non-empty, with every other entry of
    the metadata kept, and the result is empty exactly when it is. -/
theorem maskPIIFromContent_mapping (content : List Char) (hc : content ≠ [])
    (dets : List (String × Regexp)) (arr : Arrangement) (md : Metadata) :
    let M := (findPass content dets).entities
    let r := maskPIIFromContent content dets arr md
    (∀ L, L ∈ M.map Prod.fst ↔
      (∃ d ∈ dets, L ∈ findAllString d.2 content) ∧ isPlaceholder L = false) ∧
    (M.map Prod.fst).Nodup ∧ (M.map Prod.snd).Nodup ∧
    (∀ i (h : i < M.length), ∃ d ∈ dets,
      M[i].2 = placeholder d.1 i ∧ M[i].1 ∈ findAllString d.2 content) ∧
    (M = [] → r.2 = md) ∧
    (M ≠ [] → r.2 metadataKeyPIIEntities = some (.stringMap M) ∧
      ∀ k, k ≠ metadataKeyPIIEntities → r.2 k = md k) ∧
    (r.1 = [] ↔ M = []) := by
  have happly := maskPIIFromContent_metadata_apply hc dets arr md
  refine ⟨findPass_mem_iff content dets, (findPass_inv content dets).nodup,
    findPass_nodup_snd content dets, findPass_entry content dets,
    fun hM => funext fun k => by simp [happly, hM], fun hM => ⟨by simp [happly, hM], ?_⟩,
    maskPIIFromContent_eq_nil_iff hc dets arr md⟩
  intro k hk
  simp [happly, hk]

/-- Detectors `A` (pattern `ab`) and `B` (pattern `cd`) on `ab cd ab`: two literals, each found
    once in the map, under counters 0 and 1. -/
theorem maskPIIFromContent_mapping_ab_cd :
    let dets : List (String × Regexp) := [("A", .literal "ab".toList), ("B", .literal "cd".toList)]
    let M := (findPass "ab cd ab".toList dets).entities
    let r := maskPIIFromContent "ab cd ab".toList dets .byLength (fun _ => none)
    (∀ L, L ∈ M.map Prod.fst ↔
      (∃ d ∈ dets, L ∈ findAllString d.2 "ab cd ab".toList) ∧ isPlaceholder L = false) ∧
    (M.map Prod.fst).Nodup ∧ (M.map Prod.snd).Nodup ∧
    (∀ i (h : i < M.length), ∃ d ∈ dets,
      M[i].2 = placeholder d.1 i ∧ M[i].1 ∈ findAllString d.2 "ab cd ab".toList) ∧
    (M = [] → r.2 = fun _ => none) ∧
    (M ≠ [] → r.2 metadataKeyPIIEntities = some (.stringMap M) ∧
      ∀ k, k ≠ metadataKeyPIIEntities → r.2 k = none) ∧
    (r.1 = [] ↔ M = []) :=
  maskPIIFromContent_mapping "ab cd ab".toList (by decide)
    [("A", .literal "ab".toList), ("B", .literal "cd".toList)] .byLength (fun _ => none)

example : (findPass "ab cd ab".toList
      [("A", .literal "ab".toList), ("B", .literal "cd".toList)]).entities =
    [("ab".toList, "[A_0000]".toList), ("cd".toList, "[B_0001]".toList)] := by decide

end PIIMaskingRegex
