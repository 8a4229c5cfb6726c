import GatewayControllers.PiiMasking.Mask

/-! pii-masking-regex | restorePIIInResponse | src/unnamed/part_000, lines 362–377

    Restoration visits the stored map in Go's iteration order and runs
    `strings.ReplaceAll(text, placeholder, literal)` once per entry, each on the previous result.
    Its specification is a single left-to-right scan that reads every placeholder occurrence as
    its literal and keeps every other rune (`substituteAll`).

    Both are read through templates: lists whose pieces are runes or map entries. `expand S t`
    reads the entries of `S` as their literals and the others as their placeholders, `source t`
    reads them all as literals, and the scan cuts a text into a template (`tokenize`). When
    placeholders are bracketed (`[` first, `]` last, neither inside) and pairwise distinct, one
    restoration step turns exactly the pieces of its entry into literals, unless its placeholder
    occurs in the fully restored text (`replaceAll_expand`). So the sequential result is the
    scan's, for every order, exactly when the scan's output holds no placeholder
    (`restorePIIInResponse_eq_substituteAll`); when it does, the order decides. -/

namespace PIIMaskingRegex
open GoStrings GoRegexp

/-- `restorePIIInResponse(originalContent, maskedPIIEntities)`, the map visited in the order
    `order` in which `range` gives its entries. -/
def restorePIIInResponse (originalContent : List Char) (order : Entities) : List Char :=
  if order = [] then originalContent else
    order.foldl (fun t e => if contains t e.2 then replaceAll t e.2 e.1 else t) originalContent

/-! ### Templates -/

/-- A piece of a template: a rune, or an entry of the map. -/
abbrev Piece := Sum Char (List Char × List Char)

/-- The text of a template with the entries of `S` read as literals, the others as
    placeholders. -/
def expand (S : Entities) (t : List Piece) : List Char :=
  t.flatMap fun p => match p with
    | .inl c => [c]
    | .inr e => if e ∈ S then e.1 else e.2

/-- The text of a template with every entry read as its literal. -/
def source (t : List Piece) : List Char :=
  t.flatMap fun p => match p with
    | .inl c => [c]
    | .inr e => e.1

@[simp] theorem expand_nil (S : Entities) : expand S [] = [] := rfl
@[simp] theorem expand_inl (S : Entities) (c : Char) (t : List Piece) :
    expand S (.inl c :: t) = c :: expand S t := rfl
@[simp] theorem expand_inr (S : Entities) (e : List Char × List Char) (t : List Piece) :
    expand S (.inr e :: t) = (if e ∈ S then e.1 else e.2) ++ expand S t := rfl
@[simp] theorem expand_append (S : Entities) (t t' : List Piece) :
    expand S (t ++ t') = expand S t ++ expand S t' := List.flatMap_append _ _ _
@[simp] theorem source_nil : source [] = [] := rfl
@[simp] theorem source_inl (c : Char) (t : List Piece) : source (.inl c :: t) = c :: source t :=
  rfl
@[simp] theorem source_inr (e : List Char × List Char) (t : List Piece) :
    source (.inr e :: t) = e.1 ++ source t := rfl
@[simp] theorem source_append (t t' : List Piece) : source (t ++ t') = source t ++ source t' :=
  List.flatMap_append _ _ _

/-- Reading every entry of the template as a literal is the source text. -/
theorem expand_of_subset {S : Entities} : ∀ {t : List Piece}, (∀ e, .inr e ∈ t → e ∈ S) →
    expand S t = source t
  | [], _ => rfl
  | .inl c :: t, h => by
    simp [expand_of_subset fun e he => h e (List.mem_cons_of_mem _ he)]
  | .inr e :: t, h => by
    simp [h e (List.mem_cons_self _ _), expand_of_subset fun e he => h e (List.mem_cons_of_mem _ he)]

/-! ### Bracketed placeholders -/

/-- `[`, then runes with no bracket, then `]`: the shape of every placeholder whose name has no
    bracket. -/
def Bracketed (s : List Char) : Prop := ∃ b, s = '[' :: (b ++ [']']) ∧ '[' ∉ b ∧ ']' ∉ b

theorem bracketed_placeholder {key : String} (hk : isEntityName key.toList = true) (n : Nat) :
    Bracketed (placeholder key n) := by
  have hrune : ∀ c ∈ key.toList, isEntityRune c = true := by
    simp only [isEntityName, Bool.and_eq_true, List.all_eq_true] at hk; exact hk.2
  refine ⟨key.toList ++ '_' :: fmtHex04 n, by simp [placeholder], ?_, ?_⟩ <;>
  · simp only [List.mem_append, List.mem_cons, not_or]
    refine ⟨fun h => absurd (hrune _ h) (by decide), by decide, fun h => ?_⟩
    exact absurd (mem_fmtHex04 h) (by decide)

/-- Splitting at the first occurrence of a rune that neither head contains. -/
theorem append_cons_inj_of_not_mem_head {a : Char} :
    ∀ {s s' t t' : List Char}, a ∉ s → a ∉ s' → s ++ a :: t = s' ++ a :: t' → s = s' ∧ t = t'
  | [], [], _, _, _, _, h => ⟨rfl, (List.cons.inj h).2⟩
  | [], x :: s', _, _, _, hs', h => absurd ((List.cons.inj h).1 ▸ List.mem_cons_self _ _) hs'
  | x :: s, [], _, _, hs, _, h => absurd ((List.cons.inj h).1 ▸ List.mem_cons_self _ _) hs
  | x :: s, y :: s', _, _, hs, hs', h => by
    obtain ⟨rfl, htail⟩ := List.cons.inj h
    obtain ⟨rfl, rfl⟩ := append_cons_inj_of_not_mem_head (fun h => hs (List.mem_cons_of_mem _ h))
      (fun h => hs' (List.mem_cons_of_mem _ h)) htail
    exact ⟨rfl, rfl⟩

/-- A bracketed text that starts another bracketed text followed by anything is that text. -/
theorem Bracketed.eq_of_prefix {P Q r : List Char} (hP : Bracketed P) (hQ : Bracketed Q)
    (h : P <+: Q ++ r) : P = Q := by
  obtain ⟨b, rfl, -, hb⟩ := hP
  obtain ⟨b', rfl, -, hb'⟩ := hQ
  obtain ⟨t, ht⟩ := h
  simp only [List.cons_append, List.cons.injEq, true_and, List.append_assoc,
    List.singleton_append] at ht
  rw [(append_cons_inj_of_not_mem_head hb hb' ht).1]

/-- A prefix of `u ++ X` stops inside `u` or runs past all of it. -/
theorem prefix_append_cases {y u X : List Char} (h : y <+: u ++ X) :
    y <+: u ∨ ∃ y', y = u ++ y' ∧ y' <+: X := by
  obtain ⟨w, hw⟩ := h
  rcases List.append_eq_append_iff.mp hw with ⟨a', rfl, -⟩ | ⟨c', rfl, hX⟩
  · exact .inl (List.prefix_append _ _)
  · exact .inr ⟨c', rfl, ⟨w, hX.symm⟩⟩

theorem Bracketed.ne_nil {P : List Char} (hP : Bracketed P) : P ≠ [] := by
  obtain ⟨b, rfl, -⟩ := hP; exact List.cons_ne_nil _ _

/-- Past a non-empty head, a bracketed text holds no `[`. -/
theorem Bracketed.not_mem_of_eq_append {P v y : List Char} (hP : Bracketed P) (hv : v ≠ [])
    (h : P = v ++ y) : '[' ∉ y := by
  obtain ⟨b, rfl, hb, -⟩ := hP
  obtain ⟨a, v, rfl⟩ := List.exists_cons_of_ne_nil hv
  have hsuf : y <:+ b ++ [']'] := ⟨v, (List.cons.inj h).2.symm⟩
  intro hy
  rcases List.mem_append.mp (hsuf.subset hy) with hy | hy
  · exact hb hy
  · simp at hy

theorem Bracketed.not_mem_drop {P : List Char} (hP : Bracketed P) {i : Nat} (hi : 0 < i) :
    '[' ∉ P.drop i := by
  obtain ⟨b, rfl, hb, -⟩ := hP
  obtain ⟨j, rfl⟩ := Nat.exists_eq_add_of_lt hi
  rw [Nat.zero_add, List.drop_succ_cons]
  intro h
  rcases List.mem_append.mp ((List.drop_suffix j _).subset h) with h | h
  · exact hb h
  · simp at h

/-- A prefix with no `[` of a partly restored text cannot reach an unrestored placeholder, so it
    is a prefix of the source. -/
theorem prefix_source_of_prefix_expand {S : Entities} {y : List Char} (hy : '[' ∉ y) :
    ∀ {t : List Piece}, (∀ e, .inr e ∈ t → Bracketed e.2) → y <+: expand S t → y <+: source t
  | [], _, h => h
  | .inl c :: t, hbr, h => by
    cases y with
    | nil => exact List.nil_prefix
    | cons a y =>
      rw [expand_inl, List.cons_prefix_cons] at h
      rw [source_inl, List.cons_prefix_cons]
      exact ⟨h.1, prefix_source_of_prefix_expand (fun h' => hy (List.mem_cons_of_mem _ h'))
        (fun e he => hbr e (List.mem_cons_of_mem _ he)) h.2⟩
  | .inr e :: t, hbr, h => by
    rw [expand_inr] at h
    rw [source_inr]
    split_ifs at h with he
    · rcases prefix_append_cases h with h | ⟨y', rfl, hy'⟩
      · exact h.trans (List.prefix_append _ _)
      · exact (List.prefix_append_right_inj _).mpr (prefix_source_of_prefix_expand
          (fun h' => hy (List.mem_append_right _ h'))
          (fun e he => hbr e (List.mem_cons_of_mem _ he)) hy')
    · obtain ⟨b, hb, -, -⟩ := hbr e (List.mem_cons_self _ _)
      rw [hb] at h
      cases y with
      | nil => exact List.nil_prefix
      | cons a y =>
        rw [List.cons_append, List.cons_prefix_cons] at h
        exact absurd (h.1 ▸ List.mem_cons_self _ _) hy

/-- One restoration step. When placeholders are bracketed and `ej` is the only entry with its
    placeholder, `ReplaceAll(text, placeholder, literal)` reads exactly the pieces of `ej` as its
    literal, provided the placeholder does not occur in the source. -/
theorem replaceAll_expand {S : Entities} {ej : List Char × List Char} (hPj : Bracketed ej.2) :
    ∀ {t : List Piece}, (∀ e, .inr e ∈ t → Bracketed e.2) →
      (∀ e, .inr e ∈ t → e.2 = ej.2 → e = ej) → ¬ ej.2 <:+: source t →
      replaceAll (expand S t) ej.2 ej.1 = expand (ej :: S) t
  | [], _, _, _ => replaceAllOn_nil hPj.ne_nil
  | .inl c :: t, hbr, hinj, hocc => by
    have ih := replaceAll_expand hPj (S := S) (fun e he => hbr e (List.mem_cons_of_mem _ he))
      (fun e he => hinj e (List.mem_cons_of_mem _ he))
      (fun h => hocc (h.trans (List.suffix_cons _ _).isInfix))
    have hnp : ¬ ej.2 <+: (c :: expand S t).map id := by
      rw [List.map_id]
      intro hp
      obtain ⟨b, hb, hb1, -⟩ := hPj
      rw [hb, List.cons_prefix_cons] at hp
      have := prefix_source_of_prefix_expand (by simp [hb1])
        (fun e he => hbr e (List.mem_cons_of_mem _ he)) hp.2
      exact hocc (by rw [hb, source_inl, ← hp.1]; exact (List.cons_prefix_cons.mpr ⟨rfl, this⟩).isInfix)
    rw [expand_inl, expand_inl, replaceAll, replaceAllOn_cons hPj.ne_nil hnp, ← replaceAll, ih]
  | .inr e :: t, hbr, hinj, hocc => by
    have ih := replaceAll_expand hPj (S := S) (fun e he => hbr e (List.mem_cons_of_mem _ he))
      (fun e he => hinj e (List.mem_cons_of_mem _ he))
      (fun h => hocc (h.trans (List.suffix_append _ _).isInfix))
    rw [source_inr] at hocc
    rw [expand_inr, expand_inr]
    by_cases he : e ∈ S
    · rw [if_pos he, if_pos (List.mem_cons_of_mem _ he), replaceAll,
        replaceAllOn_append hPj.ne_nil, ← replaceAll, ih]
      intro i hi hp
      rw [List.map_id, List.drop_append_of_le_length hi.le] at hp
      have hv : e.1.drop i ≠ [] := by simp; omega
      have hsuf : e.1.drop i ++ source t <:+: e.1 ++ source t :=
        List.IsSuffix.isInfix ⟨e.1.take i, by rw [← List.append_assoc, List.take_append_drop]⟩
      rcases prefix_append_cases hp with hp | ⟨y', hy', hp⟩
      · exact hocc ((hp.isInfix.trans (List.drop_suffix i e.1).isInfix).trans
          (List.infix_append [] _ _))
      · have := prefix_source_of_prefix_expand (hPj.not_mem_of_eq_append hv hy')
          (fun e he => hbr e (List.mem_cons_of_mem _ he)) hp
        exact hocc (by rw [hy']; exact ((List.prefix_append_right_inj _).mpr this).isInfix.trans hsuf)
    · by_cases hej : e.2 = ej.2
      · obtain rfl := hinj e (List.mem_cons_self _ _) hej
        rw [if_neg he, if_pos (List.mem_cons_self _ _), replaceAll,
          replaceAllOn_occurrence hPj.ne_nil (List.map_id _), ← replaceAll, ih]
      · have hne : e ∉ ej :: S := by
          simp only [List.mem_cons, not_or]; exact ⟨fun h => hej (h ▸ rfl), he⟩
        rw [if_neg he, if_neg hne, replaceAll, replaceAllOn_append hPj.ne_nil, ← replaceAll, ih]
        intro i hi hp
        rw [List.map_id, List.drop_append_of_le_length hi.le] at hp
        have hbe := hbr e (List.mem_cons_self _ _)
        rcases Nat.eq_zero_or_pos i with rfl | hi0
        · exact hej (hPj.eq_of_prefix hbe hp).symm
        · obtain ⟨b, hb, -, -⟩ := hPj
          rw [List.drop_eq_getElem_cons hi, hb, List.cons_append, List.cons_prefix_cons] at hp
          exact hbe.not_mem_drop hi0 (by rw [List.drop_eq_getElem_cons hi, ← hp.1]; exact List.mem_cons_self _ _)

/-- The `strings.Contains` guard of a restoration step changes nothing. -/
theorem restoreStep_eq {P L : List Char} (hP : P ≠ []) (s : List Char) :
    (if contains s P then replaceAll s P L else s) = replaceAll s P L := by
  split_ifs with h
  · rfl
  · refine (replaceAllOn_of_no_occurrence hP ?_).symm
    simpa [contains] using h

/-- Restoration of a template's text, entry after entry: each entry of `order` whose placeholder
    is bracketed, carried by no other entry and absent from the source turns its pieces into its
    literal. -/
theorem foldl_restore_expand {t : List Piece} (hbr : ∀ e, .inr e ∈ t → Bracketed e.2) :
    ∀ (order S : Entities), (∀ ej ∈ order, Bracketed ej.2 ∧
      (∀ e, .inr e ∈ t → e.2 = ej.2 → e = ej) ∧ ¬ ej.2 <:+: source t) →
      order.foldl (fun s e => if contains s e.2 then replaceAll s e.2 e.1 else s) (expand S t) =
        expand (order.reverse ++ S) t
  | [], S, _ => rfl
  | ej :: order, S, h => by
    obtain ⟨hPj, hinj, hocc⟩ := h ej (List.mem_cons_self _ _)
    rw [List.foldl_cons, restoreStep_eq hPj.ne_nil, replaceAll_expand hPj hbr hinj hocc,
      foldl_restore_expand hbr order (ej :: S) fun e he => h e (List.mem_cons_of_mem _ he)]
    simp

/-! ### The single scan -/

/-- The single scan of a response: at each position the first entry whose placeholder starts
    there becomes a piece and its placeholder is skipped; any other rune is kept. `k` counts the
    runes still to skip. -/
def tokenize (M : Entities) : Nat → List Char → List Piece
  | _, [] => []
  | k + 1, _ :: cs => tokenize M k cs
  | 0, c :: cs =>
    match M.find? (fun e => e.2 ≠ [] ∧ e.2 <+: c :: cs) with
    | some e => .inr e :: tokenize M (e.2.length - 1) cs
    | none => .inl c :: tokenize M 0 cs

/-- What restoration is for: one left-to-right scan that replaces every placeholder occurrence
    it meets by its literal and keeps every other rune. -/
def substituteAll (M : Entities) (r : List Char) : List Char := source (tokenize M 0 r)

/-- Reading the scan's pieces back as placeholders gives the response. -/
theorem expand_tokenize (M : Entities) :
    ∀ (r : List Char) (k : Nat), expand [] (tokenize M k r) = r.drop k
  | [], k => by cases k <;> rfl
  | c :: cs, k + 1 => by rw [tokenize, expand_tokenize M cs k]; rfl
  | c :: cs, 0 => by
    unfold tokenize
    split
    · rename_i e he
      have hp := List.find?_some he
      simp only [decide_eq_true_eq] at hp
      obtain ⟨hne, hpre⟩ := hp
      obtain ⟨a, p, hap⟩ := List.exists_cons_of_ne_nil hne
      rw [hap, List.cons_prefix_cons] at hpre
      rw [expand_inr, if_neg (List.not_mem_nil _), expand_tokenize M cs, hap, List.length_cons,
        Nat.add_sub_cancel, hpre.1, List.cons_append, List.drop_zero, List.cons.injEq]
      obtain ⟨w, rfl⟩ := hpre.2
      exact ⟨rfl, by rw [List.drop_left]⟩
    · rw [expand_inl, expand_tokenize M cs 0]; rfl

theorem mem_tokenize {M : Entities} {e : List Char × List Char} :
    ∀ {r : List Char} {k : Nat}, .inr e ∈ tokenize M k r → e ∈ M
  | [], k, h => by cases k <;> simp [tokenize] at h
  | c :: cs, k + 1, h => mem_tokenize (k := k) h
  | c :: cs, 0, h => by
    unfold tokenize at h
    split at h
    · rename_i e' he
      rcases List.mem_cons.mp h with h | h
      · cases h; exact List.mem_of_find?_eq_some he
      · exact mem_tokenize h
    · rcases List.mem_cons.mp h with h | h
      · cases h
      · exact mem_tokenize h

/-! ### Restoration against the stored map -/

theorem findPass_bracketed {content : List Char} {dets : List (String × Regexp)}
    (hnames : ∀ d ∈ dets, isEntityName d.1.toList = true) {e : List Char × List Char}
    (he : e ∈ (findPass content dets).entities) : Bracketed e.2 := by
  obtain ⟨d, hd, i, hi⟩ := findPass_placeholder he
  rw [hi]; exact bracketed_placeholder (hnames d hd) i

theorem eq_of_mem_of_snd_eq {M : Entities} (h : (M.map Prod.snd).Nodup)
    {e e' : List Char × List Char} (he : e ∈ M) (he' : e' ∈ M) (hs : e.2 = e'.2) : e = e' :=
  List.inj_on_of_nodup_map h he he' hs

/-- Sequential restoration equals the single scan whenever the scan's output holds no stored
    placeholder: for every response and every iteration order of the map that
    maskPIIFromContent builds from detectors with valid names. -/
theorem restorePIIInResponse_eq_substituteAll {content : List Char}
    {dets : List (String × Regexp)} (hnames : ∀ d ∈ dets, isEntityName d.1.toList = true)
    (r : List Char) (order : Entities) (horder : order.Perm (findPass content dets).entities)
    (hsafe : ∀ e ∈ (findPass content dets).entities,
      ¬ e.2 <:+: substituteAll (findPass content dets).entities r) :
    restorePIIInResponse r order = substituteAll (findPass content dets).entities r := by
  set M := (findPass content dets).entities
  have hsub : ∀ e, .inr e ∈ tokenize M 0 r → e ∈ order := fun e he =>
    horder.symm.subset (mem_tokenize he)
  have hrun := foldl_restore_expand (fun e he => findPass_bracketed hnames (mem_tokenize he))
    order [] fun ej hj => ⟨findPass_bracketed hnames (horder.subset hj),
      fun e he hs => eq_of_mem_of_snd_eq (findPass_nodup_snd content dets) (mem_tokenize he)
        (horder.subset hj) hs, hsafe ej (horder.subset hj)⟩
  rw [expand_tokenize, List.drop_zero, List.append_nil,
    expand_of_subset fun e he => List.mem_reverse.mpr (hsub e he)] at hrun
  unfold restorePIIInResponse substituteAll
  split_ifs with ho
  · rw [← expand_of_subset fun e he => absurd (hsub e he) (by simp [ho]), expand_tokenize,
      List.drop_zero]
  · exact hrun

/-- Detectors `A` (pattern `ab`) and `B` (pattern `cd`) on `ab cd` store two entries; restoring
    them in the other order than stored, on a response holding both placeholders, gives the
    scan's result. -/
theorem restorePIIInResponse_eq_substituteAll_ab_cd :
    let dets : List (String × Regexp) := [("A", .literal "ab".toList), ("B", .literal "cd".toList)]
    restorePIIInResponse "[B_0001] [A_0000]!".toList
        [("cd".toList, "[B_0001]".toList), ("ab".toList, "[A_0000]".toList)] =
      substituteAll (findPass "ab cd".toList dets).entities "[B_0001] [A_0000]!".toList :=
  restorePIIInResponse_eq_substituteAll (by decide) _ _ (by decide) (by decide)

example : substituteAll (findPass "ab cd".toList
      [("A", .literal "ab".toList), ("B", .literal "cd".toList)]).entities
      "[B_0001] [A_0000]!".toList = "cd ab!".toList := by decide

/-- A restored literal that completes a placeholder with the text after it: detectors `A`
    (pattern `\[B`) and `B` (pattern `x`) on `[B x` store `[B ↦ [A_0000]` and `x ↦ [B_0001]`.
    On the response `[A_0000]_0001]`, restoring in the stored order gives `x`, while the single
    scan gives `[B_0001]`. -/
theorem restorePIIInResponse_ne_substituteAll :
    let dets : List (String × Regexp) := [("A", .literal "[B".toList), ("B", .literal "x".toList)]
    let M := (findPass "[B x".toList dets).entities
    (∀ s, s <:+: "[B x".toList → isPlaceholder s = false) ∧
    (maskPIIFromContent "[B x".toList dets .byLength (fun _ => none)).2 metadataKeyPIIEntities =
      some (.stringMap M) ∧
    restorePIIInResponse "[A_0000]_0001]".toList M = "x".toList ∧
    substituteAll M "[A_0000]_0001]".toList = "[B_0001]".toList :=
  ⟨no_placeholder_in_short (by decide), by decide, by decide, by decide⟩

end PIIMaskingRegex
