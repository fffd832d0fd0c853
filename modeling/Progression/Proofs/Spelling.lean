import Mathlib.Data.List.Basic
import Mathlib.Data.List.TakeWhile
import Progression.Json.Printer
import Progression.Json.Reader

/-!
Words and the text that spells them. Punctuation, quoted text, natural numbers and names are read
as they are printed, wherever blanks stand between them. A number or a name has no end of its own,
so that something has to follow that cannot be part of it.
-/

namespace Progression.Json

/-! ### Words and texts -/

namespace Token

/-- The words of a text, blanks apart. -/
inductive Spells : List Token → List Char → Prop
  | done : Spells [] []
  | blank {ts : List Token} {c : Char} {cs : List Char} :
      isBlank c = true → Spells ts cs → Spells ts (c :: cs)
  | word {t : Token} {ts : List Token} {c : Char} {cs rest : List Char} :
      isBlank c = false → first? c cs = some (t, rest) → Spells ts rest →
      Spells (t :: ts) (c :: cs)

variable {t : Token} {ts : List Token} {cs rest : List Char}

/-- A number or a name that stands before these characters is over. -/
def Ends (cs : List Char) : Prop :=
  ∀ c ∈ cs.head?, isNumberChar c = false ∧ c.isAlpha = false

theorem span_append {p : Char → Bool} (hcs : ∀ c ∈ cs, p c = true)
    (hrest : ∀ c ∈ rest.head?, p c = false) :
    (cs ++ rest).takeWhile p = cs ∧ (cs ++ rest).dropWhile p = rest := by
  rw [List.takeWhile_append_of_pos hcs, List.dropWhile_append_of_pos hcs]
  cases rest with
  | nil => simp
  | cons c rest =>
      have hc : p c = false := hrest c rfl
      simp [hc]

namespace Spells

theorem punctuation {c : Char} (hc : punctuation? c = some t) (h : Spells ts cs) :
    Spells (t :: ts) (c :: cs) := by
  refine .word ?_ ?_ h
  · unfold punctuation? at hc
    split at hc <;> first | rfl | contradiction
  · rw [first?, hc]

theorem newline (level : Nat) (h : Spells ts cs) : Spells ts (newline level ++ cs) := by
  refine .blank rfl ?_
  induction 2 * level with
  | zero => exact h
  | succ n ih => exact .blank rfl ih

end Spells

/-! ### Quoted text -/

theorem quoted?_unit {ps : List Piece} {a b c d : Char} {unit : Nat}
    (h : hexUnit? a b c d = some unit) :
    quoted? ps ('\\' :: 'u' :: a :: b :: c :: d :: cs) = quoted? (.ofUnit unit :: ps) cs := by
  rw [quoted?, h]

theorem Piece.ofUnit_toNat {c : Char} (h : c < ' ') : Piece.ofUnit c.toNat = .char c := by
  have hlt : c.toNat < 32 := h
  rw [ofUnit, if_neg (by omega), if_neg (by omega), Char.ofNat_toNat]

theorem hexUnit?_of_lt {n : Nat} (h : n < 256) :
    hexUnit? '0' '0' (Text.hexDigitChar (n / 16)) (Text.hexDigitChar (n % 16)) = some n := by
  have hzero : Text.hexDigit? '0' = some 0 := rfl
  have hn : n / 16 * 16 + n % 16 = n := Nat.div_add_mod' n 16
  simp [hexUnit?, hzero, Text.hexDigit?_hexDigitChar (show n / 16 < 16 by omega),
    Text.hexDigit?_hexDigitChar (show n % 16 < 16 by omega), hn]

/-- However a character is written, one piece is read. -/
@[simp] theorem quoted?_escape (ps : List Piece) (c : Char) (cs : List Char) :
    quoted? ps (escape c ++ cs) = quoted? (.char c :: ps) cs := by
  unfold escape
  split
  case h_8 hquote hslash _ _ _ _ _ =>
    split
    next hcontrol =>
      have hlt : c.toNat < 32 := hcontrol
      rw [← Piece.ofUnit_toNat hcontrol]
      exact quoted?_unit (hexUnit?_of_lt (by omega))
    next hplain =>
      show quoted? ps (c :: cs) = _
      rw [quoted?, if_neg hplain] <;> simp_all
  all_goals rfl

@[simp] theorem quoted?_flatMap_escape (s : List Char) (ps : List Piece) (rest : List Char) :
    quoted? ps (s.flatMap escape ++ '"' :: rest) = some (s.reverse.map .char ++ ps, rest) := by
  induction s generalizing ps with
  | nil => rfl
  | cons c s ih =>
      rw [List.flatMap_cons, List.append_assoc, quoted?_escape, ih]
      simp

@[simp] theorem joinReversed_map_char (s chars : List Char) :
    joinReversed chars (s.map .char) = some (s.reverse ++ chars) := by
  induction s generalizing chars with
  | nil => rfl
  | cons c s ih =>
      rw [List.map_cons, joinReversed, ih]
      simp

theorem Spells.quote (s : String) (h : Spells ts cs) :
    Spells (.text (some s) :: ts) (quote s ++ cs) := by
  have hquote : Json.quote s ++ cs = '"' :: (s.toList.flatMap escape ++ '"' :: cs) := by
    simp [Json.quote]
  have hread : quoted? [] (s.toList.flatMap escape ++ '"' :: cs) =
      some (s.toList.reverse.map .char, cs) := by
    rw [quoted?_flatMap_escape, List.append_nil]
  have hjoin : joinReversed [] (s.toList.reverse.map .char) = some s.toList := by
    rw [joinReversed_map_char, List.reverse_reverse, List.append_nil]
  rw [hquote]
  refine .word rfl ?_ h
  show (quoted? [] _).map _ = _
  simp only [hread, hjoin, Option.map_some, String.ofList_toList]

end Token

/-! ### Numbers and names -/

theorem isDigit_of_mem_toDigits (n : Nat) : ∀ c ∈ Nat.toDigits 10 n, c.isDigit = true :=
  fun _ => Nat.isDigit_of_mem_toDigits (by omega) (by omega)

/-- No number begins with a zero, apart from zero itself. -/
theorem head?_toDigits {n : Nat} (h : (Nat.toDigits 10 n).head? = some '0') : n = 0 := by
  induction n using Nat.strongRecOn with
  | ind n ih =>
      rcases Nat.lt_or_ge n 10 with hlt | hge
      · rw [Nat.toDigits_of_lt_base hlt] at h
        exact Nat.digitChar_eq_zero.1 (Option.some.inj h)
      · rw [Nat.toDigits_of_base_le (by omega) hge,
          List.head?_append_of_ne_nil _ Nat.toDigits_ne_nil] at h
        have := ih (n / 10) (by omega) h
        omega

@[simp] theorem Decimal.ofChars?_toDigits (n : Nat) :
    ofChars? (Nat.toDigits 10 n) = some ⟨false, Nat.toDigits 10 n, [], none⟩ := by
  have hdigits := isDigit_of_mem_toDigits n
  have htake := List.takeWhile_eq_self_iff.2 hdigits
  have hdrop := List.dropWhile_eq_nil_iff.2 hdigits
  have hzero : (Nat.toDigits 10 n).head? = some '0' → (Nat.toDigits 10 n).length = 1 := by
    intro hhead
    rw [head?_toDigits hhead, Nat.toDigits_zero, List.length_singleton]
  unfold ofChars?
  split
  rename_i negative cs hsign
  split at hsign
  · rename_i hcs
    have := hdigits '-' (hcs ▸ List.mem_cons_self)
    contradiction
  · obtain ⟨rfl, rfl⟩ := Prod.mk.inj hsign
    simpa [htake, hdrop, tail?] using hzero

theorem Number.read_toDigits {n : Nat} (h : n < UInt64.size) :
    read (Nat.toDigits 10 n) = .number (.natural n) := by
  have hlength : (Nat.toDigits 10 n).length ≤ 20 :=
    (Nat.length_toDigits_le_iff (by omega) (by omega)).2 (Nat.lt_trans h (by decide))
  rw [read, Decimal.ofChars?_toDigits]
  simp [Decimal.integer?, hlength, Nat.ofDigitChars_toDigits, h]

theorem digitChar_of_isDigit {c : Char} (h : c.isDigit = true) :
    c.toNat - '0'.toNat < 10 ∧ Nat.digitChar (c.toNat - '0'.toNat) = c := by
  have hbounds : '0'.toNat ≤ c.toNat ∧ c.toNat ≤ '9'.toNat := by
    simpa [Char.isDigit, UInt32.le_iff_toNat_le] using h
  have hlt : c.toNat - '0'.toNat < 10 := by
    have : '9'.toNat = '0'.toNat + 9 := rfl
    omega
  refine ⟨hlt, Char.toNat_inj.1 ?_⟩
  rw [Nat.toNat_digitChar_of_lt_ten hlt]
  exact Nat.add_sub_cancel' hbounds.1

/-- More digits behind those of a number other than zero are the digits of what both spell. -/
theorem toDigits_append {m : Nat} (hm : 0 < m) {ds : List Char}
    (hds : ∀ c ∈ ds, c.isDigit = true) :
    Nat.toDigits 10 m ++ ds = Nat.toDigits 10 (Nat.ofDigitChars 10 ds m) := by
  induction ds generalizing m with
  | nil => rw [List.append_nil, Nat.ofDigitChars_nil]
  | cons d ds ih =>
      obtain ⟨hlt, hd⟩ := digitChar_of_isDigit (hds d List.mem_cons_self)
      have hlast : Nat.toDigits 10 (d.toNat - '0'.toNat) = [d] := by
        rw [Nat.toDigits_of_lt_base hlt, hd]
      have hstep := Nat.toDigits_append_toDigits (by omega) hm hlt
      rw [hlast] at hstep
      rw [Nat.ofDigitChars_cons, List.append_cons, hstep]
      exact ih (by omega) fun c hc => hds c (List.mem_cons_of_mem d hc)

/-- Digits are those of the number they spell, unless a zero leads them. -/
theorem toDigits_ofDigitChars {ds : List Char} (hds : ∀ c ∈ ds, c.isDigit = true) (hne : ds ≠ [])
    (hzero : ds.head? = some '0' → ds.length = 1) :
    Nat.toDigits 10 (Nat.ofDigitChars 10 ds 0) = ds := by
  cases ds with
  | nil => exact absurd rfl hne
  | cons d ds =>
      obtain ⟨hlt, hd⟩ := digitChar_of_isDigit (hds d List.mem_cons_self)
      have hrest : ∀ c ∈ ds, c.isDigit = true := fun c hc => hds c (List.mem_cons_of_mem d hc)
      rw [Nat.ofDigitChars_cons, Nat.mul_zero, Nat.zero_add]
      by_cases hd0 : d = '0'
      · subst hd0
        have hds0 : ds = [] := List.length_eq_zero_iff.1 (Nat.succ.inj (hzero rfl))
        rw [hds0]
        rfl
      · have hpos : 0 < d.toNat - '0'.toNat := by
          rw [Nat.pos_iff_ne_zero]
          intro hval
          rw [hval] at hd
          exact hd0 hd.symm
        rw [← toDigits_append hpos hrest, Nat.toDigits_of_lt_base hlt, hd]
        rfl

theorem Decimal.exponent_ne_none {fraction cs : List Char} {tail : List Char × Option Int}
    (h : ((exponent? cs).bind fun exponent => some (fraction, some exponent)) = some tail) :
    tail.2 ≠ none := by
  obtain ⟨exponent, -, hsome⟩ := Option.bind_eq_some_iff.1 h
  obtain rfl := Option.some.inj hsome
  exact Option.some_ne_none exponent

/-- A number without point and exponent has nothing behind its digits. -/
theorem Decimal.eq_nil_of_tail? {cs : List Char} (h : tail? cs = some ([], none)) : cs = [] := by
  unfold tail? at h
  dsimp only at h
  split at h
  case h_1 ds =>
      -- behind a point there are digits
      split at h
      case isTrue => contradiction
      case isFalse hfraction =>
        simp only [Option.bind_eq_bind, Option.bind_some] at h
        split at h
        · obtain ⟨hnil, -⟩ := Prod.mk.inj (Option.some.inj h)
          rw [hnil] at hfraction
          contradiction
        · split at h
          · exact absurd rfl (exponent_ne_none h)
          · contradiction
  case h_2 =>
      simp only [Option.bind_eq_bind, Option.bind_some] at h
      split at h
      · rfl
      · split at h
        · exact absurd rfl (exponent_ne_none h)
        · contradiction

/-- What is read as a number without sign, point and exponent is written with digits alone. -/
theorem Decimal.eq_whole_of_ofChars? {cs whole : List Char}
    (h : ofChars? cs = some ⟨false, whole, [], none⟩) :
    cs = whole ∧ (∀ c ∈ whole, c.isDigit = true) ∧ whole ≠ [] ∧
      (whole.head? = some '0' → whole.length = 1) := by
  unfold ofChars? at h
  split at h
  rename_i negative ds hsign
  dsimp only at h
  split at h
  case isTrue => contradiction
  case isFalse hwhole =>
    simp only [Option.bind_eq_bind, Option.bind_eq_some_iff] at h
    obtain ⟨⟨fraction, exponent⟩, htail, h⟩ := h
    injection Option.some.inj h with hnegative htake hfraction hexponent
    subst hnegative htake hfraction hexponent
    have hcs : cs = ds := by
      split at hsign
      · cases hsign
      · exact (Prod.mk.inj hsign).2
    have hds : ds.takeWhile Char.isDigit = ds := by
      rw [← List.append_nil (ds.takeWhile Char.isDigit), ← eq_nil_of_tail? htail,
        List.takeWhile_append_dropWhile]
    rw [hds] at hwhole ⊢
    refine ⟨hcs, List.takeWhile_eq_self_iff.1 hds, ?_, ?_⟩
    · rintro rfl
      exact hwhole rfl
    · intro hhead
      rw [hhead] at hwhole
      by_contra hlength
      simp [hlength] at hwhole

/-- The natural numbers are read off the numerals of those below 2 ^ 64 and off nothing else. -/
theorem Number.read_eq_natural_iff {cs : List Char} {n : Nat} :
    read cs = .number (.natural n) ↔ cs = Nat.toDigits 10 n ∧ n < UInt64.size := by
  constructor
  · intro h
    unfold read at h
    split at h
    case h_1 => contradiction
    case h_2 d hd =>
      split at h
      case h_2 => split at h <;> cases h
      case h_1 m hm =>
        cases h
        obtain ⟨negative, whole, fraction, exponent⟩ := d
        simp only [Decimal.integer?, Option.ite_none_right_eq_some, Bool.and_eq_true,
          List.isEmpty_iff, Option.isNone_iff_eq_none] at hm
        obtain ⟨⟨⟨rfl, rfl⟩, -⟩, hm⟩ := hm
        cases negative with
        | true => simp at hm
        | false =>
            simp only [Bool.false_eq_true, if_false, Option.ite_none_right_eq_some,
              Option.some.injEq, natural.injEq] at hm
            obtain ⟨hn, rfl⟩ := hm
            obtain ⟨rfl, hdigits, hne, hzero⟩ := Decimal.eq_whole_of_ofChars? hd
            exact ⟨(toDigits_ofDigitChars hdigits hne hzero).symm, hn⟩
  · rintro ⟨rfl, hn⟩
    exact read_toDigits hn

namespace Token

variable {t : Token} {ts : List Token} {cs : List Char}

theorem isBlank_of_isDigit {c : Char} (h : c.isDigit = true) : isBlank c = false := by
  rw [Bool.eq_false_iff]
  intro hblank
  simp only [isBlank, Bool.or_eq_true, beq_iff_eq] at hblank
  rcases hblank with ((rfl | rfl) | rfl) | rfl <;> contradiction

theorem first?_of_isDigit {c : Char} (h : c.isDigit = true) :
    first? c cs = (ofNumber? (c :: cs.takeWhile isNumberChar)).map
      (·, cs.dropWhile isNumberChar) := by
  have hpunctuation : punctuation? c = none := by
    unfold punctuation?
    split <;> first | rfl | contradiction
  have hquote : c ≠ '"' := by
    rintro rfl
    contradiction
  rw [first?, hpunctuation]
  show (if c = '"' then _ else _) = _
  rw [if_neg hquote, if_pos (Or.inr h)]

theorem Spells.nat {n : Nat} (hn : n < UInt64.size) (hends : Ends cs) (h : Spells ts cs) :
    Spells (.scalar (.nat n) :: ts) (Nat.toDigits 10 n ++ cs) := by
  have hdigits := isDigit_of_mem_toDigits n
  have hread := Number.read_toDigits hn
  cases hword : Nat.toDigits 10 n with
  | nil => exact absurd hword Nat.toDigits_ne_nil
  | cons d ds =>
      rw [hword] at hdigits hread
      have hd : d.isDigit = true := hdigits d List.mem_cons_self
      have hds : ∀ c ∈ ds, isNumberChar c = true := by
        intro c hc
        simp [isNumberChar, hdigits c (List.mem_cons_of_mem d hc)]
      obtain ⟨htake, hdrop⟩ := span_append hds fun c hc => (hends c hc).1
      rw [List.cons_append]
      refine .word (isBlank_of_isDigit hd) ?_ h
      rw [first?_of_isDigit hd, htake, hdrop, ofNumber?, hread]
      rfl

theorem Spells.name {c : Char} {letters : List Char} (hc : c = 'n' ∨ c = 't' ∨ c = 'f')
    (hletters : letters.all Char.isAlpha = true) (hname : ofName? (c :: letters) = some t)
    (hends : Ends cs) (h : Spells ts cs) : Spells (t :: ts) (c :: letters ++ cs) := by
  obtain ⟨htake, hdrop⟩ := span_append (List.all_eq_true.1 hletters) fun c hc => (hends c hc).2
  have hfirst : first? c (letters ++ cs) =
      (ofName? (c :: (letters ++ cs).takeWhile Char.isAlpha)).map
        (·, (letters ++ cs).dropWhile Char.isAlpha) := by
    rcases hc with rfl | rfl | rfl <;> rfl
  rw [List.cons_append]
  refine .word ?_ ?_ h
  · rcases hc with rfl | rfl | rfl <;> rfl
  · rw [hfirst, htake, hdrop, hname]
    rfl

end Token

end Progression.Json
