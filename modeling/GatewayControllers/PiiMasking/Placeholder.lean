import Mathlib.Data.Nat.Digits

/-! pii-masking-regex placeholders | fmt.Sprintf("[%s_%04x]"), placeholderPattern |
    maskPIIFromContent (src/unnamed/part_000, lines 298–314)

    A placeholder is `fmt.Sprintf("[%s_%04x]", key, counter)`: the entity name, then the counter
    in lowercase hexadecimal zero-padded to at least four digits. The recognizer
    `placeholderPattern` (`^\[[A-Z_]+_[0-9a-f]{4}\]$`) accepts exactly four digits. So for a name
    that passes parseParams' check `^[A-Z_]+$` the two agree on every counter below `0x10000` and
    on none from there on (`isPlaceholder_placeholder`). Placeholders of distinct (name, counter)
    pairs are distinct whatever the names, since hex digits carry no `_`. -/

namespace PIIMaskingRegex

/-! ### `%04x` -/

/-- The lowercase hex digits, in order. -/
def hexDigits : List Char := "0123456789abcdef".toList

/-- The rune `%x` writes for a digit below 16. -/
def hexDigit (d : Nat) : Char := hexDigits.getD d '0'

/-- The base-16 digits of `n`, least significant first, as `fmtInteger` peels them off
    (`n` turns are enough). -/
def hexDigitsRev : Nat → Nat → List Nat
  | 0, _ => []
  | fuel + 1, n => if n = 0 then [] else n % 16 :: hexDigitsRev fuel (n / 16)

/-- `%04x` of `n`: its hex digits, most significant first, zero-padded to four. -/
def fmtHex04 (n : Nat) : List Char :=
  let ds := (hexDigitsRev n n).reverse.map hexDigit
  List.replicate (4 - ds.length) '0' ++ ds

/-- The value of a run of hex digits. -/
def hexValue (cs : List Char) : Nat := cs.foldl (fun acc c => 16 * acc + hexDigits.indexOf c) 0

theorem hexDigitsRev_eq_digits : ∀ fuel n, n ≤ fuel → hexDigitsRev fuel n = Nat.digits 16 n
  | 0, n, h => by rw [Nat.le_zero.mp h, Nat.digits_zero]; rfl
  | fuel + 1, n, h => by
    unfold hexDigitsRev
    split_ifs with hn
    · rw [hn, Nat.digits_zero]
    · rw [Nat.digits_def' (by norm_num) (Nat.pos_of_ne_zero hn),
        hexDigitsRev_eq_digits fuel (n / 16) (by omega)]

theorem indexOf_hexDigit : ∀ d < 16, hexDigits.indexOf (hexDigit d) = d := by decide

theorem hexDigit_mem : ∀ d < 16, hexDigit d ∈ hexDigits := by decide

theorem fmtHex04_eq (n : Nat) :
    fmtHex04 n = List.replicate (4 - (Nat.digits 16 n).length) '0' ++
      ((Nat.digits 16 n).reverse.map hexDigit) := by
  simp [fmtHex04, hexDigitsRev_eq_digits n n le_rfl]

/-- Reading the digits back, most significant first, gives the number. -/
theorem foldr_indexOf_hexDigit : ∀ L : List Nat, (∀ d ∈ L, d < 16) →
    L.foldr (fun x y => 16 * y + hexDigits.indexOf (hexDigit x)) 0 = L.foldr (fun x y => x + 16 * y) 0
  | [], _ => rfl
  | d :: L, h => by
    simp only [List.foldr_cons, indexOf_hexDigit d (h d (List.mem_cons_self _ _)),
      foldr_indexOf_hexDigit L fun x hx => h x (List.mem_cons_of_mem _ hx)]
    omega

theorem hexValue_fmtHex04 (n : Nat) : hexValue (fmtHex04 n) = n := by
  have hzero : ∀ k, (List.replicate k '0').foldl
      (fun acc c => 16 * acc + hexDigits.indexOf c) 0 = 0 := by
    intro k; induction k with
    | zero => rfl
    | succ k ih => rw [List.replicate_succ', List.foldl_concat, ih]; rfl
  rw [fmtHex04_eq, hexValue, List.foldl_append, hzero, List.foldl_map, List.foldl_reverse,
    foldr_indexOf_hexDigit _ fun d hd => Nat.digits_lt_base (by norm_num) hd]
  conv_rhs => rw [← Nat.ofDigits_digits 16 n, Nat.ofDigits_eq_foldr]
  simp

theorem fmtHex04_injective {n m : Nat} (h : fmtHex04 n = fmtHex04 m) : n = m := by
  rw [← hexValue_fmtHex04 n, h, hexValue_fmtHex04]

theorem mem_fmtHex04 {n : Nat} {c : Char} (hc : c ∈ fmtHex04 n) : c ∈ hexDigits := by
  rw [fmtHex04_eq, List.mem_append, List.mem_map] at hc
  rcases hc with hc | ⟨d, hd, rfl⟩
  · rw [List.eq_of_mem_replicate hc]; decide
  · exact hexDigit_mem d (Nat.digits_lt_base (by norm_num) (List.mem_reverse.mp hd))

/-- `%04x` writes exactly four digits below `0x10000` and at least five from there on. -/
theorem length_fmtHex04 (n : Nat) : (fmtHex04 n).length = 4 ↔ n < 65536 := by
  rw [fmtHex04_eq, List.length_append, List.length_replicate, List.length_map,
    List.length_reverse]
  constructor
  · intro h
    have := Nat.lt_base_pow_length_digits (b := 16) (m := n) (by norm_num)
    have hle : (Nat.digits 16 n).length ≤ 4 := by omega
    calc n < 16 ^ (Nat.digits 16 n).length := this
      _ ≤ 16 ^ 4 := Nat.pow_le_pow_right (by norm_num) hle
      _ = 65536 := by norm_num
  · intro h
    rcases Nat.eq_zero_or_pos n with rfl | hn
    · simp
    have := Nat.base_pow_length_digits_le 16 n (by norm_num) hn.ne'
    have hle : (Nat.digits 16 n).length ≤ 4 := by
      by_contra hc
      have : 16 ^ 5 ≤ 16 ^ (Nat.digits 16 n).length := Nat.pow_le_pow_right (by norm_num) (by omega)
      omega
    omega

/-! ### Placeholders and the recognizer -/

/-- `fmt.Sprintf("[%s_%04x]", key, counter)`. -/
def placeholder (key : String) (counter : Nat) : List Char :=
  '[' :: (key.toList ++ '_' :: (fmtHex04 counter ++ [']']))

/-- Runes of the class `[A-Z_]`. -/
def isEntityRune (c : Char) : Bool := ('A' ≤ c && c ≤ 'Z') || c = '_'

/-- `regexp.MustCompile("^[A-Z_]+$").MatchString(name)`, parseParams' check on entity names. -/
def isEntityName (name : List Char) : Bool := !name.isEmpty && name.all isEntityRune

/-- `placeholderPattern.MatchString(s)` for `^\[[A-Z_]+_[0-9a-f]{4}\]$`: `[`, a name of
    `[A-Z_]+`, `_`, four lowercase hex digits and `]`, with nothing around them. -/
def isPlaceholder (s : List Char) : Bool :=
  match s with
  | '[' :: rest =>
    match rest.reverse with
    | ']' :: d4 :: d3 :: d2 :: d1 :: '_' :: name =>
      isEntityName name.reverse && [d1, d2, d3, d4].all (· ∈ hexDigits)
    | _ => false
  | _ => false

/-- What the recognizer accepts: `[`, a name of `[A-Z_]+`, `_`, four hex digits and `]`. -/
theorem isPlaceholder_iff {s : List Char} :
    isPlaceholder s = true ↔ ∃ name ds, s = '[' :: (name ++ '_' :: (ds ++ [']'])) ∧
      ds.length = 4 ∧ (∀ d ∈ ds, d ∈ hexDigits) ∧ isEntityName name = true := by
  constructor
  · intro h
    unfold isPlaceholder at h
    split at h
    · rename_i rest
      split at h
      · rename_i d4 d3 d2 d1 nm hr
        simp only [Bool.and_eq_true, List.all_cons, List.all_nil, decide_eq_true_eq,
          Bool.and_true] at h
        refine ⟨nm.reverse, [d1, d2, d3, d4], ?_, rfl, ?_, h.1⟩
        · rw [List.reverse_eq_iff] at hr; simp [hr]
        · simp only [List.mem_cons, List.mem_singleton, List.not_mem_nil, or_false]
          rintro d (rfl | rfl | rfl | rfl) <;> simp [h]
      · exact absurd h (by simp)
    · exact absurd h (by simp)
  · rintro ⟨name, ds, rfl, hlen, hds, hname⟩
    match ds, hlen, hds with
    | [d1, d2, d3, d4], _, hds =>
      simp [isPlaceholder, hname, hds d1 (by simp), hds d2 (by simp), hds d3 (by simp),
        hds d4 (by simp)]

/-- A placeholder-shaped text has at least eight runes, so a shorter text has no
    placeholder-shaped part. -/
theorem length_of_isPlaceholder {s : List Char} (h : isPlaceholder s = true) : 8 ≤ s.length := by
  obtain ⟨name, ds, rfl, hlen, -, hname⟩ := isPlaceholder_iff.mp h
  have : name ≠ [] := by
    intro h; simp [h, isEntityName] at hname
  have := List.length_pos.mpr this
  simp only [List.length_cons, List.length_append, List.length_singleton]
  omega

theorem no_placeholder_in_short {c : List Char} (hc : c.length < 8) :
    ∀ s, s <:+: c → isPlaceholder s = false := fun s hs => by
  by_contra h
  have := length_of_isPlaceholder (Bool.not_eq_false _ ▸ h)
  have := hs.length_le
  omega

/-- Splitting at the last occurrence of a rune that neither tail contains. -/
theorem append_cons_inj_of_not_mem {a : Char} :
    ∀ {s s' t t' : List Char}, a ∉ t → a ∉ t' → s ++ a :: t = s' ++ a :: t' → s = s' ∧ t = t'
  | [], [], _, _, _, _, h => ⟨rfl, (List.cons.inj h).2⟩
  | [], x :: s', _, _, ht, _, h => by
    obtain ⟨rfl, rfl⟩ := List.cons.inj h
    exact absurd (List.mem_append_right _ (List.mem_cons_self _ _)) ht
  | x :: s, [], _, _, _, ht', h => by
    obtain ⟨rfl, rfl⟩ := List.cons.inj h
    exact absurd (List.mem_append_right _ (List.mem_cons_self _ _)) ht'
  | x :: s, y :: s', _, _, ht, ht', h => by
    obtain ⟨rfl, htail⟩ := List.cons.inj h
    obtain ⟨rfl, rfl⟩ := append_cons_inj_of_not_mem ht ht' htail
    exact ⟨rfl, rfl⟩

theorem underscore_not_mem_hex {ds : List Char} (h : ∀ d ∈ ds, d ∈ hexDigits) :
    '_' ∉ ds ++ [']'] := by
  intro hm
  rcases List.mem_append.mp hm with hm | hm
  · exact absurd (h _ hm) (by decide)
  · simp at hm

/-- The recognizer accepts a generated placeholder exactly when the name passes parseParams'
    check and the counter is below `0x10000`. -/
theorem isPlaceholder_placeholder (key : String) (n : Nat) :
    isPlaceholder (placeholder key n) = true ↔ isEntityName key.toList = true ∧ n < 65536 := by
  rw [isPlaceholder_iff, ← length_fmtHex04]
  constructor
  · rintro ⟨name, ds, h, hlen, hds, hname⟩
    obtain ⟨rfl, hd⟩ := append_cons_inj_of_not_mem
      (underscore_not_mem_hex fun _ => mem_fmtHex04) (underscore_not_mem_hex hds)
      (List.cons.inj h).2
    exact ⟨hname, List.append_cancel_right hd ▸ hlen⟩
  · rintro ⟨hname, hlen⟩
    exact ⟨key.toList, fmtHex04 n, rfl, hlen, fun _ => mem_fmtHex04, hname⟩

example : isPlaceholder (placeholder "EMAIL" 0) = true := by decide

/-- The placeholder the loop emits at counter `0x10000` fails its own recognizer, whatever the
    entity name. -/
theorem isPlaceholder_placeholder_65536 (key : String) :
    isPlaceholder (placeholder key 65536) = false := by
  have := (isPlaceholder_placeholder key 65536).not.mpr (by omega)
  simpa using this

/-! ### Injectivity -/

/-- Placeholders determine their name and counter. -/
theorem placeholder_injective {k k' : String} {n n' : Nat}
    (h : placeholder k n = placeholder k' n') : k = k' ∧ n = n' := by
  obtain ⟨hk, hn⟩ := append_cons_inj_of_not_mem (underscore_not_mem_hex fun _ => mem_fmtHex04)
    (underscore_not_mem_hex fun _ => mem_fmtHex04) (List.cons.inj h).2
  exact ⟨String.ext hk,
    fmtHex04_injective (List.append_cancel_right hn)⟩

end PIIMaskingRegex
