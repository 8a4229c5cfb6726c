import Mathlib.Data.List.Infix

/-! Go `strings` | ReplaceAll, Contains, TrimSpace | used by maskPIIFromContent,
    restorePIIInResponse and OnRequest (src/unnamed/part_000), and by parseParams of
    prompt-decorator (src/unnamed/part_001)

    `strings.ReplaceAll(s, old, new)` scans `s` left to right and writes `new` in place of each
    leftmost non-overlapping occurrence of `old`; for an empty `old` it writes `new` before every
    rune and once more at the end. Strings are rune lists. The scan is written once, over any list
    whose elements carry a rune (`view`), so that the same function runs on plain text, on text
    whose runes are annotated with their source position, and on masking templates. It is
    structural (a count of runes still to skip), so it evaluates by `decide`; proofs go through the
    unfolding lemmas `replaceAllOn_occurrence` / `replaceAllOn_cons` and `replaceAllOn_induction`. -/

namespace GoStrings

section Scan

variable {α β : Type} [DecidableEq β] (view : α → β) (old : List β) (new : List α)

/-- The scan of `strings.Replace`, with `k` runes of a just-replaced occurrence still to skip:
    at a free position it writes `new` when `old` starts there and otherwise copies the rune. -/
def replaceScan : Nat → List α → List α
  | _, [] => []
  | k + 1, _ :: cs => replaceScan k cs
  | 0, c :: cs =>
    if old <+: (c :: cs).map view then new ++ replaceScan (old.length - 1) cs
    else c :: replaceScan 0 cs

/-- `strings.ReplaceAll(s, old, new)`, matching `old` against the runes `view` reads off `s`. -/
def replaceAllOn (s : List α) : List α :=
  if old = [] then new ++ s.flatMap (fun c => c :: new) else replaceScan view old new 0 s

theorem replaceScan_skip (xs rest : List α) :
    replaceScan view old new xs.length (xs ++ rest) = replaceScan view old new 0 rest := by
  induction xs with
  | nil => rfl
  | cons x xs ih => exact ih

variable {view old new}

theorem replaceAllOn_eq_scan (hold : old ≠ []) (s : List α) :
    replaceAllOn view old new s = replaceScan view old new 0 s := if_neg hold

@[simp] theorem replaceAllOn_nil (hold : old ≠ []) : replaceAllOn view old new [] = [] := by
  rw [replaceAllOn_eq_scan hold, replaceScan]

/-- An occurrence of `old` at the scan position is replaced and skipped. -/
theorem replaceAllOn_occurrence (hold : old ≠ []) {u : List α} (hu : u.map view = old) (s : List α) :
    replaceAllOn view old new (u ++ s) = new ++ replaceAllOn view old new s := by
  obtain ⟨c, u, rfl⟩ := List.exists_cons_of_ne_nil (fun h : u = [] => hold (by simp [← hu, h]))
  rw [replaceAllOn_eq_scan hold, replaceAllOn_eq_scan hold, List.cons_append, replaceScan,
    if_pos (by rw [← hu]; exact (List.prefix_append (c :: u) s).map view), ← hu,
    List.length_map, List.length_cons, Nat.add_sub_cancel, replaceScan_skip]

/-- A rune where `old` does not start is copied. -/
theorem replaceAllOn_cons (hold : old ≠ []) {c : α} {s : List α}
    (h : ¬ old <+: (c :: s).map view) :
    replaceAllOn view old new (c :: s) = c :: replaceAllOn view old new s := by
  rw [replaceAllOn_eq_scan hold, replaceAllOn_eq_scan hold, replaceScan, if_neg h]

/-- The scan's own induction: a property of the empty text that survives an occurrence of `old`
    in front and a copied rune in front holds of every text. -/
theorem replaceAllOn_induction (view : α → β) (hold : old ≠ []) {motive : List α → Prop}
    (nil : motive []) (pre : ∀ u s, u.map view = old → motive s → motive (u ++ s))
    (cons : ∀ c s, ¬ old <+: (c :: s).map view → motive s → motive (c :: s))
    (s : List α) : motive s := by
  suffices ∀ n (s : List α), s.length = n → motive s from this _ s rfl
  intro n
  induction n using Nat.strong_induction_on with
  | _ n ih =>
    intro s h
    match s with
    | [] => exact nil
    | c :: s =>
      by_cases hp : old <+: (c :: s).map view
      · obtain ⟨t, ht⟩ := hp
        obtain ⟨u, r, hcs, hu, -⟩ := List.map_eq_append_iff.mp ht.symm
        have hlen : r.length < n := by
          have : 0 < u.length := List.length_pos.mpr fun h => hold (by simp [← hu, h])
          rw [← h, hcs, List.length_append]; omega
        rw [hcs]; exact pre u r hu (ih _ hlen r rfl)
      · exact cons c s hp (ih _ (by simp [← h]) s rfl)

/-- With no occurrence of `old`, the text is returned unchanged. -/
theorem replaceAllOn_of_no_occurrence (hold : old ≠ []) {s : List α} (h : ¬ old <:+: s.map view) :
    replaceAllOn view old new s = s := by
  induction s using replaceAllOn_induction view hold with
  | nil => exact replaceAllOn_nil hold
  | pre u s hu _ =>
    exact absurd ⟨[], (s.map view), by simp [hu]⟩ h
  | cons c s hc ih =>
    rw [replaceAllOn_cons hold hc, ih fun hi => h (hi.trans (List.suffix_cons _ _).isInfix)]

/-- Runes of `u` at which no occurrence of `old` starts are copied as a block. -/
theorem replaceAllOn_append (hold : old ≠ []) {u s : List α}
    (h : ∀ i < u.length, ¬ old <+: ((u ++ s).drop i).map view) :
    replaceAllOn view old new (u ++ s) = u ++ replaceAllOn view old new s := by
  induction u with
  | nil => rfl
  | cons c u ih =>
    have h0 : ¬ old <+: (c :: (u ++ s)).map view := h 0 (by simp)
    rw [List.cons_append, replaceAllOn_cons hold h0, ih fun i hi => h (i + 1) (by simp [hi]),
      List.cons_append]

/-- Every rune of the result comes from the text or from `new`. -/
theorem mem_replaceAllOn {x : α} {s : List α} (hx : x ∈ replaceAllOn view old new s) :
    x ∈ s ∨ x ∈ new := by
  by_cases hold : old = []
  · simp only [replaceAllOn, hold, if_true, List.mem_append, List.mem_flatMap,
      List.mem_cons] at hx
    aesop
  induction s using replaceAllOn_induction view hold with
  | nil => simp [hold] at hx
  | pre u s _ ih =>
    rw [replaceAllOn_occurrence hold ‹_›, List.mem_append] at hx
    rcases hx with hx | hx
    · exact .inr hx
    · exact (ih hx).imp_left (List.mem_append_right u)
  | cons c s _ ih =>
    rw [replaceAllOn_cons hold ‹_›, List.mem_cons] at hx
    rcases hx with rfl | hx
    · exact .inl (List.mem_cons_self _ _)
    · exact (ih hx).imp_left (List.mem_cons_of_mem c)

/-- A non-empty text stays non-empty when `new` is non-empty. -/
theorem replaceAllOn_ne_nil {s : List α} (hs : s ≠ []) (hnew : new ≠ []) :
    replaceAllOn view old new s ≠ [] := by
  by_cases hold : old = []
  · simp [replaceAllOn, hold, hnew]
  obtain ⟨c, s, rfl⟩ := List.exists_cons_of_ne_nil hs
  by_cases hc : old <+: (c :: s).map view
  · obtain ⟨t, ht⟩ := hc
    obtain ⟨u, r, hcs, hu, -⟩ := List.map_eq_append_iff.mp ht.symm
    rw [hcs, replaceAllOn_occurrence hold hu]
    exact fun h => hnew (List.append_eq_nil.mp h).1
  · rw [replaceAllOn_cons hold hc]; exact List.cons_ne_nil _ _

/-- Relabelling the elements without changing the runes they carry commutes with the scan. -/
theorem map_replaceAllOn {γ : Type} (f : α → γ) {view' : γ → β} (hv : ∀ a, view' (f a) = view a)
    (s : List α) :
    (replaceAllOn view old new s).map f = replaceAllOn view' old (new.map f) (s.map f) := by
  have hmap : ∀ t : List α, (t.map f).map view' = t.map view := fun t => by
    simp only [List.map_map]; exact List.map_congr_left fun a _ => hv a
  by_cases hold : old = []
  · simp [replaceAllOn, hold, List.map_flatMap, List.flatMap_map]
  induction s using replaceAllOn_induction view hold with
  | nil => simp [hold]
  | pre u s hu ih =>
    rw [replaceAllOn_occurrence hold hu, List.map_append, ih, List.map_append,
      replaceAllOn_occurrence hold ((hmap u).trans hu)]
  | cons c s hc ih =>
    rw [replaceAllOn_cons hold hc, List.map_cons, ih, List.map_cons,
      replaceAllOn_cons hold (by rwa [← List.map_cons, hmap])]

/-! ### Runs the scan keeps

    Elements satisfying `P` are those `new` has none of: every run of them in the result was a run
    of the text, and none spells `old`. -/

/-- A run of `P`-elements inside `v ++ r`, where no element of `v` satisfies `P`, lies in `r`. -/
theorem infix_of_infix_append_left {P : α → Prop} {w r : List α} (hw : ∀ x ∈ w, P x) :
    ∀ {v : List α}, (∀ x ∈ v, ¬ P x) → w <:+: v ++ r → w <:+: r
  | [], _, h => h
  | y :: v, hv, h => by
    rcases List.infix_cons_iff.mp h with h | h
    · cases w with
      | nil => exact List.nil_infix
      | cons x w =>
        rw [List.cons_prefix_cons] at h
        exact absurd (h.1 ▸ hw x (List.mem_cons_self _ _)) (hv y (List.mem_cons_self _ _))
    · exact infix_of_infix_append_left hw (fun x hx => hv x (List.mem_cons_of_mem _ hx)) h

section Kept

variable {P : α → Prop} (hnew : new ≠ []) (hP : ∀ x ∈ new, ¬ P x)
include hnew hP

theorem prefix_of_prefix_replaceAllOn (hold : old ≠ []) (s : List α) :
    ∀ w, w <+: replaceAllOn view old new s → (∀ x ∈ w, P x) → w <+: s := by
  induction s using replaceAllOn_induction view hold with
  | nil => intro w hw _; rwa [replaceAllOn_nil hold] at hw
  | pre u s hu _ =>
    intro w hw hwP
    rw [replaceAllOn_occurrence hold hu] at hw
    cases w with
    | nil => exact List.nil_prefix
    | cons x w =>
      obtain ⟨y, new, rfl⟩ := List.exists_cons_of_ne_nil hnew
      rw [List.cons_append, List.cons_prefix_cons] at hw
      exact absurd (hw.1 ▸ hwP x (List.mem_cons_self _ _)) (hP y (List.mem_cons_self _ _))
  | cons c s hc ih =>
    intro w hw hwP
    rw [replaceAllOn_cons hold hc] at hw
    cases w with
    | nil => exact List.nil_prefix
    | cons x w =>
      rw [List.cons_prefix_cons] at hw ⊢
      exact ⟨hw.1, ih w hw.2 fun y hy => hwP y (List.mem_cons_of_mem _ hy)⟩

/-- With an empty `old`, `new` stands between any two runes, so a run of `P`-elements is at most
    one rune of the text. -/
theorem infix_of_infix_flatMap (s : List α) :
    ∀ w, w <:+: s.flatMap (fun c => c :: new) → (∀ x ∈ w, P x) → w <:+: s := by
  induction s with
  | nil => intro w hw _; simpa using hw
  | cons c s ih =>
    intro w hw hwP
    rw [List.flatMap_cons, List.cons_append] at hw
    rcases List.infix_cons_iff.mp hw with hw | hw
    · match w, hw, hwP with
      | [], _, _ => exact List.nil_infix
      | [x], hw, _ =>
        rw [List.cons_prefix_cons] at hw
        exact hw.1 ▸ (List.prefix_append [c] s).isInfix
      | x :: y :: w, hw, hwP =>
        obtain ⟨n, new, rfl⟩ := List.exists_cons_of_ne_nil hnew
        rw [List.cons_prefix_cons, List.cons_append, List.cons_prefix_cons] at hw
        exact absurd (hw.2.1 ▸ hwP y (by simp)) (hP n (List.mem_cons_self _ _))
    · exact (ih w (infix_of_infix_append_left hwP hP hw) hwP).trans (List.suffix_cons c s).isInfix

/-- Every run of `P`-elements of the result is a run of the text. -/
theorem infix_of_infix_replaceAllOn (s : List α) :
    ∀ w, w <:+: replaceAllOn view old new s → (∀ x ∈ w, P x) → w <:+: s := by
  by_cases hold : old = []
  · intro w hw hwP
    rw [replaceAllOn, if_pos hold] at hw
    exact infix_of_infix_flatMap hnew hP s w (infix_of_infix_append_left hwP hP hw) hwP
  induction s using replaceAllOn_induction view hold with
  | nil => intro w hw _; rwa [replaceAllOn_nil hold] at hw
  | pre u s hu ih =>
    intro w hw hwP
    rw [replaceAllOn_occurrence hold hu] at hw
    exact (ih w (infix_of_infix_append_left hwP hP hw) hwP).trans (List.suffix_append u s).isInfix
  | cons c s hc ih =>
    intro w hw hwP
    rw [replaceAllOn_cons hold hc] at hw
    rcases List.infix_cons_iff.mp hw with hw | hw
    · exact (prefix_of_prefix_replaceAllOn hnew hP hold (c :: s) w
        (by rwa [replaceAllOn_cons hold hc]) hwP).isInfix
    · exact (ih w hw hwP).trans (List.suffix_cons c s).isInfix

/-- No run of `P`-elements of the result spells a non-empty `old`: each occurrence of `old` in the
    text was replaced or overlaps one that was. -/
theorem map_ne_of_infix_replaceAllOn (hold : old ≠ []) (s : List α) :
    ∀ w, w <:+: replaceAllOn view old new s → (∀ x ∈ w, P x) → w.map view ≠ old := by
  induction s using replaceAllOn_induction view hold with
  | nil =>
    intro w hw _ hwo
    rw [replaceAllOn_nil hold, List.infix_nil] at hw
    exact hold (by rw [← hwo, hw, List.map_nil])
  | pre u s hu ih =>
    intro w hw hwP
    rw [replaceAllOn_occurrence hold hu] at hw
    exact ih w (infix_of_infix_append_left hwP hP hw) hwP
  | cons c s hc ih =>
    intro w hw hwP hwo
    rw [replaceAllOn_cons hold hc] at hw
    rcases List.infix_cons_iff.mp hw with hw | hw
    · have hws := prefix_of_prefix_replaceAllOn hnew hP hold (c :: s) w
        (by rwa [replaceAllOn_cons hold hc]) hwP
      exact hc (hwo ▸ hws.map view)
    · exact ih w hw hwP hwo

end Kept

end Scan

/-- `strings.ReplaceAll(s, old, new)`. -/
def replaceAll (s old new : List Char) : List Char := replaceAllOn id old new s

/-- `strings.Contains(s, substr)`. -/
def contains (s substr : List Char) : Bool := decide (substr <:+: s)

example : replaceAll "a..b".toList ".".toList "-".toList = "a--b".toList := by decide
example : replaceAll "aaa".toList "aa".toList "b".toList = "ba".toList := by decide
example : replaceAll "ab".toList [] "-".toList = "-a-b-".toList := by decide

/-- `len(s)`: the length of a string in bytes, the UTF-8 sizes of its runes added up. -/
def byteLen (s : List Char) : Nat := s.foldr (fun c n => c.utf8Size + n) 0

example : byteLen "éééé".toList = 8 ∧ byteLen "éabcde".toList = 7 := by decide

/-- `unicode.IsSpace`: the Latin-1 spaces and the other runes of Unicode's White_Space. -/
def isSpace (c : Char) : Bool :=
  c = ' ' || (0x09 ≤ c.toNat && c.toNat ≤ 0x0d) || c.toNat = 0x85 || c.toNat = 0xa0 ||
    c.toNat = 0x1680 || (0x2000 ≤ c.toNat && c.toNat ≤ 0x200a) || c.toNat = 0x2028 ||
    c.toNat = 0x2029 || c.toNat = 0x202f || c.toNat = 0x205f || c.toNat = 0x3000

/-- `strings.TrimSpace(s)`. -/
def trimSpace (s : List Char) : List Char :=
  ((s.dropWhile isSpace).reverse.dropWhile isSpace).reverse

end GoStrings
