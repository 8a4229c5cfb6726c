import GatewayControllers.PiiMasking.Restore

/-! pii-masking-regex | mask, then restore | src/unnamed/part_000, lines 290–337 and 362–377

    The second pass of masking is run on a template that starts as the content's runes: each
    step turns the occurrences of a literal among the rune pieces into pieces of its entry. The
    template's source stays the content, and its text is the masked content as long as each
    literal has no bracket and occurs in no placeholder (`expand_replacePassT`): then no literal
    can match across or inside a placeholder inserted before it. Restoration of that text reads
    every piece back as its literal when no placeholder occurs in the content
    (`foldl_restore_expand`), in any order: mask-then-restore is the identity
    (`restore_maskPIIFromContent`).

    Without these conditions the round trip fails: a shorter or equal literal inside a fresh
    placeholder is rewritten (`restore_mask_abc_00`), and a placeholder already in the content
    collides with one the per-request counter allocates again (`restore_mask_collision`). -/

namespace PIIMaskingRegex
open GoStrings GoRegexp

/-- The rune a piece shows to `strings.ReplaceAll` on a template: an entry shows none, so a
    literal never matches across or inside it. -/
def pieceRune : Piece → Option Char
  | .inl c => some c
  | .inr _ => none

/-- One step of the second pass on a template: occurrences of `o` among the rune pieces become
    the entry `(o, p)`. -/
def maskStepT (t : List Piece) (o p : List Char) : List Piece :=
  replaceAllOn pieceRune (o.map some) [.inr (o, p)] t

/-- The second pass on a template. -/
def replacePassT (M : Entities) (originals : List (List Char)) (t : List Piece) : List Piece :=
  originals.foldl (fun t o => maskStepT t o ((M.lookup o).getD [])) t

@[simp] theorem expand_map_inl (S : Entities) (o : List Char) :
    expand S (o.map .inl) = o := by
  induction o with
  | nil => rfl
  | cons c o ih => simp [ih]

@[simp] theorem source_map_inl (o : List Char) : source (o.map .inl) = o := by
  induction o with
  | nil => rfl
  | cons c o ih => simp [ih]

theorem map_pieceRune_eq {o : List Char} : ∀ {u : List Piece},
    u.map pieceRune = o.map some → u = o.map .inl := by
  induction o with
  | nil => intro u h; simpa using h
  | cons c o ih =>
    intro u h
    obtain ⟨x, u, rfl, hx, hu⟩ := List.map_eq_cons_iff.mp h
    cases x with
    | inl c' => cases hx; rw [ih hu]; rfl
    | inr e => cases hx

/-- A literal with no `[` that starts the text of a template starts its rune pieces. -/
theorem prefix_pieces {o : List Char} (hl : '[' ∉ o) :
    ∀ {t : List Piece}, (∀ e, .inr e ∈ t → Bracketed e.2) → o <+: expand [] t →
      o.map some <+: t.map pieceRune := by
  induction o with
  | nil => intro t _ _; exact List.nil_prefix
  | cons a o ih =>
    intro t hbr h
    match t, hbr, h with
    | [], _, h => exact absurd (List.eq_nil_of_prefix_nil h) (List.cons_ne_nil _ _)
    | .inl c :: t, hbr, h =>
      rw [expand_inl, List.cons_prefix_cons] at h
      rw [List.map_cons, List.map_cons, List.cons_prefix_cons]
      exact ⟨by rw [h.1]; rfl, ih (fun h' => hl (List.mem_cons_of_mem _ h'))
        (fun e he => hbr e (List.mem_cons_of_mem _ he)) h.2⟩
    | .inr e :: t, hbr, h =>
      obtain ⟨b, hb, -, -⟩ := hbr e (List.mem_cons_self _ _)
      rw [expand_inr, if_neg (List.not_mem_nil _), hb, List.cons_append,
        List.cons_prefix_cons] at h
      exact absurd (h.1 ▸ List.mem_cons_self _ _) hl

/-- Every non-empty tail of a bracketed text holds its `]`. -/
theorem Bracketed.mem_drop {P : List Char} (hP : Bracketed P) {i : Nat} (hi : i < P.length) :
    ']' ∈ P.drop i := by
  obtain ⟨b, rfl, -, -⟩ := hP
  have hlen : ('[' :: (b ++ [']'])).length = b.length + 2 := by simp
  rw [hlen] at hi
  rw [List.mem_iff_getElem]
  refine ⟨b.length + 1 - i, by rw [List.length_drop, hlen]; omega, ?_⟩
  have hidx : i + (b.length + 1 - i) = b.length + 1 := by omega
  simp [List.getElem_drop, hidx]

/-- One masking step on a template is `strings.ReplaceAll` on its text, when the literal has no
    bracket and occurs in no placeholder of the template. -/
theorem expand_maskStepT {o : List Char} (p : List Char) (ho : o ≠ []) (hl : '[' ∉ o)
    (hr : ']' ∉ o) (t : List Piece) (ht : ∀ e, .inr e ∈ t → Bracketed e.2 ∧ ¬ o <:+: e.2) :
    expand [] (maskStepT t o p) = replaceAll (expand [] t) o p := by
  have hold : o.map some ≠ [] := by simpa using ho
  induction t using replaceAllOn_induction pieceRune hold with
  | nil => simp [maskStepT, hold, replaceAll, ho]
  | pre u s hu ih =>
    obtain rfl := map_pieceRune_eq hu
    rw [maskStepT, replaceAllOn_occurrence hold hu, ← maskStepT, expand_append,
      ih fun e he => ht e (List.mem_append_right _ he), expand_append, expand_map_inl]
    unfold replaceAll
    rw [replaceAllOn_occurrence ho (List.map_id _)]
    simp
  | cons x s hx ih =>
    have ih := ih fun e he => ht e (List.mem_cons_of_mem _ he)
    rw [maskStepT, replaceAllOn_cons hold hx, ← maskStepT]
    cases x with
    | inl c =>
      have hnp : ¬ o <+: (c :: expand [] s).map id := by
        rw [List.map_id, ← expand_inl]
        exact fun h => hx (prefix_pieces hl (fun e he => (ht e he).1) h)
      rw [expand_inl, expand_inl, ih]
      unfold replaceAll
      rw [replaceAllOn_cons ho hnp]
    | inr e =>
      obtain ⟨hbe, hoe⟩ := ht e (List.mem_cons_self _ _)
      rw [expand_inr, expand_inr, if_neg (List.not_mem_nil _), ih]
      unfold replaceAll
      rw [replaceAllOn_append ho]
      intro i hi hp
      rw [List.map_id, List.drop_append_of_le_length hi.le] at hp
      rcases prefix_append_cases hp with hp | ⟨y, hy, -⟩
      · exact hoe (hp.isInfix.trans (List.drop_suffix i e.2).isInfix)
      · exact hr (hy ▸ List.mem_append_left _ (hbe.mem_drop hi))

theorem source_maskStepT {o : List Char} (p : List Char) (ho : o ≠ []) (t : List Piece) :
    source (maskStepT t o p) = source t := by
  have hold : o.map some ≠ [] := by simpa using ho
  induction t using replaceAllOn_induction pieceRune hold with
  | nil => simp [maskStepT, hold]
  | pre u s hu ih =>
    obtain rfl := map_pieceRune_eq hu
    rw [maskStepT, replaceAllOn_occurrence hold hu, ← maskStepT]
    simp [ih]
  | cons x s hx ih =>
    rw [maskStepT, replaceAllOn_cons hold hx, ← maskStepT]
    cases x <;> simp [ih]

theorem mem_maskStepT {o p : List Char} {t : List Piece} {e : List Char × List Char}
    (he : .inr e ∈ maskStepT t o p) : .inr e ∈ t ∨ e = (o, p) := by
  rcases mem_replaceAllOn he with he | he
  · exact .inl he
  · simp at he; exact .inr he

@[simp] theorem replacePassT_nil (M : Entities) (t : List Piece) : replacePassT M [] t = t := rfl

@[simp] theorem replacePassT_cons (M : Entities) (o : List Char) (os : List (List Char))
    (t : List Piece) :
    replacePassT M (o :: os) t = replacePassT M os (maskStepT t o ((M.lookup o).getD [])) := rfl

/-! ### The second pass on a template -/

section Pass

variable {M : Entities} (hbr : ∀ e ∈ M, Bracketed e.2)
  (hlit : ∀ e ∈ M, '[' ∉ e.1 ∧ ']' ∉ e.1) (hin : ∀ e ∈ M, ∀ e' ∈ M, ¬ e.1 <:+: e'.2)
include hbr hlit hin

/-- The second pass on a template renders as the second pass on its text, keeps its source and
    adds only entries of `M`, when the literals have no bracket and occur in no placeholder. -/
theorem replacePassT_spec : ∀ {os : List (List Char)} {t : List Piece},
    (∀ o ∈ os, o ∈ M.map Prod.fst) → (∀ e, .inr e ∈ t → e ∈ M) →
      expand [] (replacePassT M os t) = replacePass M os (expand [] t) ∧
      source (replacePassT M os t) = source t ∧ ∀ e, .inr e ∈ replacePassT M os t → e ∈ M
  | [], _, _, ht => ⟨rfl, rfl, ht⟩
  | o :: os, t, hos, ht => by
    obtain ⟨v, hv, hmem⟩ := lookup_of_mem (hos o (List.mem_cons_self _ _))
    have ho : o ≠ [] := fun h => hin _ hmem _ hmem (by rw [h]; exact List.nil_infix)
    rw [replacePassT_cons, replacePass_cons, hv, Option.getD_some,
      ← expand_maskStepT v ho (hlit _ hmem).1 (hlit _ hmem).2 t
        fun e he => ⟨hbr e (ht e he), hin _ hmem e (ht e he)⟩, ← source_maskStepT v ho t]
    exact replacePassT_spec (fun o' h => hos o' (List.mem_cons_of_mem _ h)) fun e he =>
      (mem_maskStepT he).elim (ht e) (· ▸ hmem)

end Pass

/-! ### Round trip -/

/-- Mask, then restore in any order of the stored map, gives the content back when the literals
    have no bracket, none occurs in a stored placeholder, and no stored placeholder occurs in the
    content. -/
theorem restore_maskPIIFromContent {content : List Char} (hc : content ≠ [])
    {dets : List (String × Regexp)} (hnames : ∀ d ∈ dets, isEntityName d.1.toList = true)
    (hM : (findPass content dets).entities ≠ [])
    (hlit : ∀ e ∈ (findPass content dets).entities, '[' ∉ e.1 ∧ ']' ∉ e.1)
    (hin : ∀ e ∈ (findPass content dets).entities, ∀ e' ∈ (findPass content dets).entities,
      ¬ e.1 <:+: e'.2)
    (hocc : ∀ e ∈ (findPass content dets).entities, ¬ e.2 <:+: content)
    (arr : Arrangement) (md : Metadata) (order : Entities)
    (horder : order.Perm (findPass content dets).entities) :
    restorePIIInResponse (maskPIIFromContent content dets arr md).1 order = content := by
  set M := (findPass content dets).entities
  have hbr : ∀ e ∈ M, Bracketed e.2 := fun e he => findPass_bracketed hnames he
  obtain ⟨hexp, hsrc, hent⟩ := replacePassT_spec hbr hlit hin
    (fun o ho => (arr.perm _).subset ho) (t := content.map .inl) (by simp)
  rw [expand_map_inl] at hexp
  rw [source_map_inl] at hsrc
  have hrun := foldl_restore_expand (fun e he => hbr e (hent e he)) order []
    fun ej hj => ⟨hbr ej (horder.subset hj), fun e he hs => eq_of_mem_of_snd_eq
      (findPass_nodup_snd content dets) (hent e he) (horder.subset hj) hs,
      by rw [hsrc]; exact hocc ej (horder.subset hj)⟩
  have horder' : order ≠ [] := fun h => hM (List.Perm.eq_nil (h ▸ horder.symm))
  rw [List.append_nil, expand_of_subset fun e he =>
    List.mem_reverse.mpr (horder.symm.subset (hent e he)), hsrc] at hrun
  rw [maskPIIFromContent_fst hc hM, ← hexp, restorePIIInResponse, if_neg horder', hrun]

/-- A shorter literal inside a fresh placeholder: detectors `A` (pattern `abc`) and `B` (pattern
    `00`) on `abc 00`, which holds no placeholder-shaped text. Masking rewrites the `0000` of
    `[A_0000]`, and restoring in the stored order gives `[A_0000] 00`. -/
theorem restore_mask_abc_00 :
    let dets : List (String × Regexp) :=
      [("A", .literal "abc".toList), ("B", .literal "00".toList)]
    let m := maskPIIFromContent "abc 00".toList dets .byLength (fun _ => none)
    (∀ s, s <:+: "abc 00".toList → isPlaceholder s = false) ∧
    m.1 = "[A_[B_0001][B_0001]] [B_0001]".toList ∧
    m.2 metadataKeyPIIEntities = some (.stringMap
      [("abc".toList, "[A_0000]".toList), ("00".toList, "[B_0001]".toList)]) ∧
    restorePIIInResponse m.1
      [("abc".toList, "[A_0000]".toList), ("00".toList, "[B_0001]".toList)] =
      "[A_0000] 00".toList :=
  ⟨no_placeholder_in_short (by decide), by decide, by decide, by decide⟩

end PIIMaskingRegex
