import Mathlib.Data.List.Infix
import Mathlib.Data.List.Range

/-! Go `regexp` | FindAllString, MatchString, ReplaceAllString | used by maskPIIFromContent and
    redactPIIFromContent (src/unnamed/part_000)

    A compiled pattern is modelled by what the matcher computes (`doExecute`): the leftmost match
    that starts at or after a position, read on the whole input so that `^`, `$` and `\b` see
    their context. Every RE2 pattern gives such a function; the bounds a match satisfies are a
    field of the structure. `FindAllString` and `ReplaceAllString` run Go's loop over successive
    matches: after an empty match the search moves on one rune, and an empty match that starts
    where the previous match ended is dropped. Both loops visit the same matches, so the loop is
    written once (`allMatches`) and its intervals are either cut out of the text or replaced
    (`assemble`, which copies the text between intervals as Go's `replaceAll` does). -/

namespace GoRegexp

/-- A compiled pattern: `exec s pos` is the leftmost match of the pattern in `s` starting at or
    after `pos`, as `(start, end)`. -/
structure Regexp where
  exec : List Char → Nat → Option (Nat × Nat)
  exec_bounds : ∀ s pos a b, exec s pos = some (a, b) → pos ≤ a ∧ a ≤ b ∧ b ≤ s.length

/-- Go's `allMatches` loop from `pos`; `prev` is the end of the previous match (`none` stands
    for Go's `-1`). -/
def allMatchesFrom (re : Regexp) (s : List Char) : Nat → Nat → Option Nat → List (Nat × Nat)
  | 0, _, _ => []
  | fuel + 1, pos, prev =>
    if pos ≤ s.length then
      match re.exec s pos with
      | none => []
      | some (a, b) =>
        let rest := allMatchesFrom re s fuel (if b = pos then pos + 1 else b) (some b)
        if b = pos ∧ prev = some a then rest else (a, b) :: rest
    else []

/-- The match intervals of `re.FindAllStringIndex(s, -1)`: `pos` rises at every turn, so
    `s.length + 1` turns visit every match. -/
def allMatches (re : Regexp) (s : List Char) : List (Nat × Nat) :=
  allMatchesFrom re s (s.length + 1) 0 none

/-- `re.FindAllString(s, -1)`. -/
def findAllString (re : Regexp) (s : List Char) : List (List Char) :=
  (allMatches re s).map fun m => (s.drop m.1).take (m.2 - m.1)

/-- `re.MatchString(s)`. -/
def matchString (re : Regexp) (s : List Char) : Bool := (re.exec s 0).isSome

/-- Copy `src` from `last` on, writing `repl` in place of each interval. -/
def assemble {α : Type} (src repl : List α) : Nat → List (Nat × Nat) → List α
  | last, [] => src.drop last
  | last, (a, b) :: ms => (src.drop last).take (a - last) ++ repl ++ assemble src repl b ms

/-- `re.ReplaceAllString(src, repl)` for a `repl` with no `$` (so no group is expanded), over
    text whose elements carry a rune (`view`). -/
def replaceAllStringOn {α : Type} (view : α → Char) (re : Regexp) (src repl : List α) : List α :=
  assemble src repl 0 (allMatches re (src.map view))

/-- `re.ReplaceAllString(src, repl)` for a `repl` with no `$`. -/
def replaceAllString (re : Regexp) (src repl : List Char) : List Char :=
  replaceAllStringOn id re src repl

/-! ### The loop's intervals -/

/-- Intervals in order: each is well formed and starts at or after the end of the one before
    (`last` for the first). -/
def Ascending : Nat → List (Nat × Nat) → Prop
  | _, [] => True
  | last, (a, b) :: ms => last ≤ a ∧ a ≤ b ∧ Ascending b ms

theorem Ascending.mono {x y : Nat} : ∀ {ms : List (Nat × Nat)}, y ≤ x → Ascending x ms →
    Ascending y ms
  | [], _, _ => trivial
  | (_, _) :: _, hxy, ⟨h1, h2, h3⟩ => ⟨le_trans hxy h1, h2, h3⟩

theorem Ascending.le_fst : ∀ {last : Nat} {ms : List (Nat × Nat)}, Ascending last ms →
    ∀ m ∈ ms, last ≤ m.1
  | _, [], _, _, hm => absurd hm (List.not_mem_nil _)
  | _, (a, b) :: _, ⟨h1, h2, h3⟩, m, hm => by
    rcases List.mem_cons.mp hm with rfl | hm
    · exact h1
    · exact le_trans h1 (le_trans h2 (h3.le_fst m hm))

theorem allMatchesFrom_ascending (re : Regexp) (s : List Char) :
    ∀ fuel pos prev, Ascending pos (allMatchesFrom re s fuel pos prev) ∧
      ∀ m ∈ allMatchesFrom re s fuel pos prev, m.2 ≤ s.length
  | 0, _, _ => ⟨trivial, fun _ h => absurd h (List.not_mem_nil _)⟩
  | fuel + 1, pos, prev => by
    unfold allMatchesFrom
    by_cases hpos : pos ≤ s.length
    · rw [if_pos hpos]
      split
      · exact ⟨trivial, fun _ h => absurd h (List.not_mem_nil _)⟩
      · rename_i a b hexec
        obtain ⟨hpa, hab, hbs⟩ := re.exec_bounds s pos a b hexec
        obtain ⟨hasc, hle⟩ := allMatchesFrom_ascending re s fuel
          (if b = pos then pos + 1 else b) (some b)
        have hnext : b ≤ (if b = pos then pos + 1 else b) := by split_ifs <;> omega
        dsimp only
        by_cases hacc : b = pos ∧ prev = some a
        · rw [if_pos hacc]; exact ⟨hasc.mono (by omega), hle⟩
        · rw [if_neg hacc]
          refine ⟨⟨hpa, hab, hasc.mono hnext⟩, fun m hm => ?_⟩
          rcases List.mem_cons.mp hm with rfl | hm
          · exact hbs
          · exact hle m hm
    · rw [if_neg hpos]; exact ⟨trivial, fun _ h => absurd h (List.not_mem_nil _)⟩

theorem allMatches_ascending (re : Regexp) (s : List Char) : Ascending 0 (allMatches re s) :=
  (allMatchesFrom_ascending re s _ _ _).1

/-- `MatchString` holds exactly when the loop finds a match (the first match is never dropped). -/
theorem matchString_iff (re : Regexp) (s : List Char) :
    matchString re s = true ↔ allMatches re s ≠ [] := by
  simp only [matchString, allMatches, allMatchesFrom, Nat.zero_le, if_true]
  cases re.exec s 0 with
  | none => simp
  | some m => simp [Option.isSome]

/-! ### Assembling the result -/

theorem map_assemble {α γ : Type} (f : α → γ) (src repl : List α) :
    ∀ last ms, (assemble src repl last ms).map f = assemble (src.map f) (repl.map f) last ms
  | last, [] => by simp [assemble, List.map_drop]
  | last, (a, b) :: ms => by
    simp [assemble, List.map_drop, List.map_take, map_assemble f src repl b ms]

/-- Every element of the result is from `repl` or is an element of `src` outside every
    interval. -/
theorem mem_assemble {α : Type} {src repl : List α} {x : α} :
    ∀ {last ms}, Ascending last ms → x ∈ assemble src repl last ms →
      x ∈ repl ∨ ∃ i, src[i]? = some x ∧ last ≤ i ∧ ∀ m ∈ ms, i < m.1 ∨ m.2 ≤ i
  | last, [], _, hx => by
    obtain ⟨j, hj⟩ := List.mem_iff_getElem?.mp hx
    exact .inr ⟨last + j, by rwa [← List.getElem?_drop], by omega, by simp⟩
  | last, (a, b) :: ms, ⟨h1, h2, h3⟩, hx => by
    simp only [assemble, List.mem_append] at hx
    rcases hx with (hx | hx) | hx
    · obtain ⟨j, hj⟩ := List.mem_iff_getElem?.mp hx
      rw [List.getElem?_take] at hj
      split_ifs at hj with hja
      · refine .inr ⟨last + j, by rwa [← List.getElem?_drop], by omega, fun m hm => .inl ?_⟩
        rcases List.mem_cons.mp hm with rfl | hm
        · show last + j < a; omega
        · have := h3.le_fst m hm; omega
    · exact .inl hx
    · rcases mem_assemble h3 hx with hx | ⟨i, hi, hbi, hms⟩
      · exact .inl hx
      · refine .inr ⟨i, hi, by omega, fun m hm => ?_⟩
        rcases List.mem_cons.mp hm with rfl | hm
        · exact .inr hbi
        · exact hms m hm

/-- What `g` reads off the result, when it reads nothing off `repl`, is read off `src` in the
    same order. -/
theorem filterMap_assemble_sublist {α γ : Type} (g : α → Option γ) {src repl : List α}
    (hr : repl.filterMap g = []) :
    ∀ {last ms}, Ascending last ms →
      ((assemble src repl last ms).filterMap g).Sublist ((src.drop last).filterMap g)
  | last, [], _ => List.Sublist.refl _
  | last, (a, b) :: ms, ⟨h1, h2, h3⟩ => by
    rw [← List.take_append_drop (a - last) (src.drop last)]
    simp only [assemble, List.filterMap_append, hr, List.append_nil]
    refine (filterMap_assemble_sublist g hr h3).trans ?_ |>.append_left _
    rw [List.drop_drop]
    exact (List.drop_sublist_drop_left _ (by omega)).filterMap g

/-! ### Literal patterns -/

/-- The compiled form of a pattern with no metacharacters, such as `abc`: its leftmost match is
    the leftmost occurrence of the text. -/
def Regexp.literal (lit : List Char) : Regexp where
  exec s pos := ((List.range' pos (s.length + 1 - pos)).find? fun i => lit <+: s.drop i).map
    fun i => (i, i + lit.length)
  exec_bounds s pos a b h := by
    obtain ⟨i, hi, hia⟩ := Option.map_eq_some'.mp h
    obtain ⟨rfl, rfl⟩ := Prod.mk.inj hia
    obtain ⟨k, hk, rfl⟩ := List.mem_range'.mp (List.mem_of_find?_eq_some hi)
    have hp := List.find?_some hi
    simp only [decide_eq_true_eq] at hp
    have hpre := hp.length_le
    simp only [List.length_drop] at hpre
    omega

example : findAllString (.literal "ab".toList) "xabab".toList = ["ab".toList, "ab".toList] := by
  decide
example : replaceAllString (.literal "ab".toList) "xaby".toList "*".toList = "x*y".toList := by
  decide

end GoRegexp
