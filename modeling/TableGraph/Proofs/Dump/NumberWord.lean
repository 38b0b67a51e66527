import TableGraph.Proofs.Decimal.Grammar
import TableGraph.Proofs.Dump.Lexeme

namespace TableGraph.Dump.Token

open Decimal

def LooksFloat (word : List Char) : Prop := '.' ∈ word ∨ 'e' ∈ word ∨ 'E' ∈ word

theorem any_iff_looksFloat {word : List Char} :
    (word.any fun c => c == '.' || c == 'e' || c == 'E') ↔ LooksFloat word := by
  simp [LooksFloat, and_or_left, exists_or, or_assoc]

theorem not_looksFloat_of_whole {word : List Char} {v : Int} (h : Whole word v) :
    ¬LooksFloat word := by
  have hc : ∀ c ∈ word, c.isDigit ∨ c = '-' := by
    cases h with
    | plain h => exact fun c hc => .inl (h.digits.1.2 c hc)
    | minus h => simpa using fun c hc => .inl (h.digits.1.2 c hc)
  rintro (h | h | h)
  · exact absurd (hc _ h) (by decide)
  · exact absurd (hc _ h) (by decide)
  · exact absurd (hc _ h) (by decide)

section

variable {word digits : List Char} (hd : word.filter (· ≠ '_') = digits)

include hd

theorem ofNumber_of_looksFloat (h : LooksFloat digits) :
    ofNumber word =
      (float? digits).elim (.error (.invalidNumber (.ofList word))) fun x => .ok (.float x) := by
  have hp := any_iff_looksFloat.mpr h
  simp only [ofNumber, hd, hp, ↓reduceIte]
  cases float? digits <;> rfl

theorem ofNumber_of_not_looksFloat (h : ¬LooksFloat digits) :
    ofNumber word =
      (integer? digits).elim (.error (.invalidNumber (.ofList word))) fun i => .ok (.int i) := by
  have hp := Bool.eq_false_iff.mpr (mt any_iff_looksFloat.mp h)
  simp only [ofNumber, hd, hp, Bool.false_eq_true, ↓reduceIte]
  cases integer? digits <;> rfl

theorem ofNumber_eq_int {i : Int64} : ofNumber word = .ok (.int i) ↔ Whole digits i.toInt := by
  rw [← integer?_eq_some]
  by_cases h : LooksFloat digits
  · rw [ofNumber_of_looksFloat hd h]
    constructor
    · cases float? digits <;> nofun
    · intro hi
      exact absurd h (not_looksFloat_of_whole (integer?_eq_some.mp hi))
  · rw [ofNumber_of_not_looksFloat hd h]
    cases integer? digits <;> simp

theorem ofNumber_eq_float :
    (∃ x, ofNumber word = .ok (.float x)) ↔ LooksFloat digits ∧ IsDecimal digits := by
  rw [← float?_isSome]
  by_cases h : LooksFloat digits
  · rw [ofNumber_of_looksFloat hd h]
    cases float? digits <;> simp [h]
  · rw [ofNumber_of_not_looksFloat hd h]
    cases integer? digits <;> simp [h]

theorem ofNumber_eq_error :
    ofNumber word = .error (.invalidNumber (.ofList word)) ↔
      (¬∃ i : Int64, Whole digits i.toInt) ∧ ¬(LooksFloat digits ∧ IsDecimal digits) := by
  simp only [← ofNumber_eq_float hd, ← ofNumber_eq_int hd]
  by_cases h : LooksFloat digits
  · rw [ofNumber_of_looksFloat hd h]
    cases float? digits <;> simp
  · rw [ofNumber_of_not_looksFloat hd h]
    cases integer? digits <;> simp

end

theorem take_numberWord {c : Char} {cs rest : List Char} (hc : c.isDigit ∨ c = '-')
    (hw : ∀ d ∈ c :: cs, !isDelimiter d) (hr : EndsWord rest) :
    take (c :: cs ++ rest) = (ofNumber (c :: cs)).map fun t => some (t, rest) := by
  have hcs : takeWord (cs ++ rest) = (cs, rest) :=
    takeWord_append (fun d hd => hw d (List.mem_cons_of_mem c hd)) hr
  rw [List.cons_append, take_cons (not_isDelimiter_iff.mp (hw c List.mem_cons_self)).1,
    takeFrom_digit hc, hcs]
  cases ofNumber (c :: cs) <;> rfl

theorem whole_int64 {word : List Char} {n : Int} :
    (∃ i : Int64, i.toInt = n ∧ Whole word i.toInt) ↔
      Whole word n ∧ -0x8000000000000000 ≤ n ∧ n ≤ 0x7FFFFFFFFFFFFFFF := by
  constructor
  · rintro ⟨i, rfl, h⟩
    exact ⟨h, i.minValue_le_toInt, i.toInt_le⟩
  · rintro ⟨h, hl, hu⟩
    have hi : (Int64.ofInt n).toInt = n := Int64.toInt_ofInt_of_le hl (by omega)
    exact ⟨.ofInt n, hi, by rwa [hi]⟩

/-- Underscores put aside, a word that begins with a digit or a minus sign is taken as the whole
number that it spells, if this fits 64 bits, or as a float, if it is a decimal with a point or an
exponent. Any other is refused as it is written. -/
theorem take_number {c : Char} {cs rest : List Char} (hc : c.isDigit ∨ c = '-')
    (hw : ∀ d ∈ c :: cs, !isDelimiter d) (hr : EndsWord rest) :
    let text := c :: cs ++ rest
    let digits := (c :: cs).filter (· ≠ '_')
    (∀ n : Int, (∃ i : Int64, i.toInt = n ∧ take text = .ok (some (.int i, rest))) ↔
      Whole digits n ∧ -0x8000000000000000 ≤ n ∧ n ≤ 0x7FFFFFFFFFFFFFFF) ∧
    ((∃ x, take text = .ok (some (.float x, rest))) ↔ LooksFloat digits ∧ IsDecimal digits) ∧
    (take text = .error (.invalidNumber (.ofList (c :: cs))) ↔
      (¬∃ n, Whole digits n ∧ -0x8000000000000000 ≤ n ∧ n ≤ 0x7FFFFFFFFFFFFFFF) ∧
        ¬(LooksFloat digits ∧ IsDecimal digits)) := by
  intro text digits
  have hd : (c :: cs).filter (· ≠ '_') = digits := rfl
  have ht : take text = (ofNumber (c :: cs)).map fun t => some (t, rest) :=
    take_numberWord hc hw hr
  have hok : ∀ t, take text = .ok (some (t, rest)) ↔ ofNumber (c :: cs) = .ok t := by
    intro t
    rw [ht]
    cases ofNumber (c :: cs) <;> simp
  have herror : ∀ e, take text = .error e ↔ ofNumber (c :: cs) = .error e := by
    intro e
    rw [ht]
    cases ofNumber (c :: cs) <;> simp
  have hany : (∃ n, ∃ i : Int64, i.toInt = n ∧ Whole digits i.toInt) ↔
      ∃ i : Int64, Whole digits i.toInt := by
    rw [exists_comm]
    simp
  simp only [hok, herror, ofNumber_eq_int hd, ofNumber_eq_float hd, ofNumber_eq_error hd,
    ← whole_int64, hany, implies_true, and_self]

theorem take_number_limits :
    let least := ['9', '_', '2', '2', '3', '3', '7', '2', '0', '3', '6', '8', '5', '4', '7', '7',
      '5', '8', '0', '8']
    let beyond := ['2', '2', '3', '3', '7', '2', '0', '3', '6', '8', '5', '4', '7', '7', '5', '8',
      '0', '8', '_']
    let half := ['.', '5', 'E', '+', '_', '1']
    ('-'.isDigit ∨ '-' = '-') ∧ ('9'.isDigit ∨ '9' = '-') ∧
      ((∀ d ∈ '-' :: least, !isDelimiter d) ∧ EndsWord [']'] ∧
        ∃ i : Int64, i.toInt = -0x8000000000000000 ∧
          take ('-' :: least ++ [']']) = .ok (some (.int i, [']']))) ∧
      ((∀ d ∈ '9' :: beyond, !isDelimiter d) ∧ EndsWord [] ∧
        take ('9' :: beyond ++ []) = .error (.invalidNumber (.ofList ('9' :: beyond)))) ∧
      (∀ d ∈ '-' :: half, !isDelimiter d) ∧ EndsWord [','] ∧
        ∃ x, take ('-' :: half ++ [',']) = .ok (some (.float x, [','])) := by
  intro least beyond half
  have hl : ∀ d ∈ '-' :: least, !isDelimiter d := List.all_eq_true.mp (by decide)
  have hb : ∀ d ∈ '9' :: beyond, !isDelimiter d := List.all_eq_true.mp (by decide)
  have hh : ∀ d ∈ '-' :: half, !isDelimiter d := List.all_eq_true.mp (by decide)
  have hbracket : EndsWord [']'] := endsWord_cons (by decide) []
  have hcomma : EndsWord [','] := endsWord_cons (by decide) []
  have hend : EndsWord [] := nofun
  refine ⟨.inr rfl, .inl rfl, ⟨hl, hbracket, ?_⟩, ⟨hb, hend, ?_⟩, hh, hcomma, ?_⟩
  · have hw : Whole (('-' :: least).filter (· ≠ '_')) (-0x8000000000000000) :=
      .minus (natural?_eq_some_iff_numeral.mp (by decide))
    exact ((take_number (.inr rfl) hl hbracket).1 _).mpr ⟨hw, by decide⟩
  · refine (take_number (.inl rfl) hb hend).2.2.mpr ⟨?_, ?_⟩
    · rintro ⟨n, h, _, hn⟩
      obtain ⟨m, hm, rfl⟩ := whole_iff.mp h
      have hv : natural? (takeSign (('9' :: beyond).filter (· ≠ '_'))).2 =
          some 0x8000000000000000 := by decide
      cases hv.symm.trans hm
      exact absurd hn (by decide)
    · rintro ⟨h, _⟩
      exact absurd (any_iff_looksFloat.mpr h) (by decide)
  · have hd : Digits ['5'] ∧ Digits ['1'] := by simp [Digits]
    have hw : IsDecimal (('-' :: half).filter (· ≠ '_')) :=
      .minus (.fraction hd.1) (.some (.inr rfl) (.inr (.inl rfl)) hd.2)
    exact (take_number (.inr rfl) hh hcomma).2.1.mpr ⟨any_iff_looksFloat.mp (by decide), hw⟩

end TableGraph.Dump.Token
