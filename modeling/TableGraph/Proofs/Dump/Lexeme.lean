import TableGraph.Dump.Progress
import TableGraph.Proofs.Dump.Number
import TableGraph.Proofs.Dump.Plain

namespace TableGraph.Dump

namespace Token

theorem take_cons {c : Char} (hc : !Text.isBlank c) (cs : List Char) :
    take (c :: cs) = (takeFrom c cs).map some := by
  have hb : Text.isBlank c = false := by simpa using hc
  simp [take, hb]

theorem take_blank {c : Char} (hc : Text.isBlank c) (cs : List Char) :
    take (c :: cs) = take cs := by
  simp [take, hc]

theorem take_openBracket (cs : List Char) :
    take ('[' :: cs) = .ok (some (.openBracket, cs)) := take_cons (by decide) cs

theorem take_closeBracket (cs : List Char) :
    take (']' :: cs) = .ok (some (.closeBracket, cs)) := take_cons (by decide) cs

theorem take_comma (cs : List Char) :
    take (',' :: cs) = .ok (some (.comma, cs)) := take_cons (by decide) cs

theorem take_colon (cs : List Char) :
    take (':' :: cs) = (takeSymbol cs).map fun (text, rest) => some (.symbol text, rest) := by
  rw [take_cons (by decide)]
  change ((takeSymbol cs).map _).map some = _
  cases takeSymbol cs <;> rfl

theorem take_symbol {text : String} (ht : IsPlain text) {rest : List Char} (hr : EndsWord rest) :
    take (':' :: (text.toList ++ rest)) = .ok (some (.symbol text, rest)) := by
  rw [take_colon, takeSymbol_plain ht hr]
  rfl

theorem take_quotedSymbol {cs : List Char} {text : String} (h : Literal.Quotes cs text)
    (rest : List Char) : take (':' :: (cs ++ rest)) = .ok (some (.symbol text, rest)) := by
  obtain ⟨body, hc, ht⟩ := Literal.takeText_quotes h rest
  rw [take_colon, hc, takeSymbol, ht]
  rfl

theorem take_str {cs : List Char} {text : String} (h : Literal.Quotes cs text)
    (rest : List Char) : take (cs ++ rest) = .ok (some (.str text, rest)) := by
  obtain ⟨body, hc, ht⟩ := Literal.takeText_quotes h rest
  rw [hc, take_cons (by decide)]
  simp [takeFrom, ht]

theorem takeFrom_alpha {c : Char} (hc : c.isAlpha) (hd : ¬c.isDigit) (cs : List Char) :
    takeFrom c cs = (ofWord (c :: (takeWord cs).1)).map fun t => (t, (takeWord cs).2) := by
  have hne : ∀ d : Char, ¬d.isAlpha → c ≠ d := fun d hd he => hd (he ▸ hc)
  simp [takeFrom, hc, hd, hne '[' (by decide), hne ']' (by decide), hne ',' (by decide),
    hne ':' (by decide), hne '"' (by decide), hne '-' (by decide)]

theorem take_word {c : Char} (hc : c.isAlpha) (hd : ¬c.isDigit) {cs : List Char}
    (hw : (c :: cs).all (!isDelimiter ·)) {rest : List Char} (hr : EndsWord rest) {t : Token}
    (ht : ofWord (c :: cs) = .ok t) : take (c :: (cs ++ rest)) = .ok (some (t, rest)) := by
  rw [List.all_eq_true] at hw
  have hb : !Text.isBlank c := (not_isDelimiter_iff.mp (hw c List.mem_cons_self)).1
  have hcs : takeWord (cs ++ rest) = (cs, rest) :=
    takeWord_append (fun d hd => hw d (List.mem_cons_of_mem c hd)) hr
  rw [take_cons hb, takeFrom_alpha hc hd, hcs, ht]
  rfl

theorem not_isDelimiter_of_digit {c : Char} (hc : c.isDigit ∨ c = '-') : !isDelimiter c := by
  cases hc with
  | inl hc =>
    have hall : ∀ n < 0x80, (Char.ofNat n).isDigit → !isDelimiter (.ofNat n) := by decide
    have hn : c.toNat < 0x80 := by
      have := Literal.isHexDigit_bounds (c := c) (by simp [Literal.isHexDigit, hc])
      omega
    rw [← c.ofNat_toNat] at hc ⊢
    exact hall c.toNat hn hc
  | inr hc => rw [hc]; decide

theorem takeFrom_digit {c : Char} (hc : c.isDigit ∨ c = '-') (cs : List Char) :
    takeFrom c cs = (ofNumber (c :: (takeWord cs).1)).map fun t => (t, (takeWord cs).2) := by
  have hne : ∀ d : Char, ¬d.isDigit → d ≠ '-' → c ≠ d := by
    intro d hd hm he
    cases hc with
    | inl hc => exact hd (he ▸ hc)
    | inr hc => exact hm (he ▸ hc)
  simp [takeFrom, hc, hne '[', hne ']', hne ',', hne ':', hne '"']

theorem take_int {word : List Char} {n : Int64} (hn : WritesInt word n) {rest : List Char}
    (hr : EndsWord rest) : take (word ++ rest) = .ok (some (.int n, rest)) := by
  obtain ⟨c, cs, rfl, hc, hm⟩ := exists_cons_of_writesInt hn
  have hw : ∀ d ∈ c :: cs, !isDelimiter d := by
    intro d hd
    cases hm d hd with
    | inl hd => exact not_isDelimiter_of_digit hd
    | inr hd => rw [hd]; decide
  have hcs : takeWord (cs ++ rest) = (cs, rest) :=
    takeWord_append (fun d hd => hw d (List.mem_cons_of_mem c hd)) hr
  obtain ⟨_, _, hf⟩ := hn
  rw [List.cons_append, take_cons (not_isDelimiter_iff.mp (hw c List.mem_cons_self)).1,
    takeFrom_digit hc, hcs, ofNumber_of_filter hf]
  rfl

end Token

/-- The spellings of a token whose last character ends it. -/
inductive WritesWhole : List Char → Token → Prop
  | openBracket : WritesWhole ['['] .openBracket
  | closeBracket : WritesWhole [']'] .closeBracket
  | comma : WritesWhole [','] .comma
  | element : WritesWhole [':', '[', ']'] (.symbol "[]")
  | elementAssignment : WritesWhole [':', '[', ']', '='] (.symbol "[]=")
  | symbol : Literal.Quotes cs text → WritesWhole (':' :: cs) (.symbol text)
  | str : Literal.Quotes cs text → WritesWhole cs (.str text)

/-- The spellings of a token that run on up to what ends a word. -/
inductive WritesWord : List Char → Token → Prop
  | symbol : IsPlain text → WritesWord (':' :: text.toList) (.symbol text)
  | int : WritesInt cs n → WritesWord cs (.int n)
  | true : WritesWord ['t', 'r', 'u', 'e'] (.bool true)
  | false : WritesWord ['f', 'a', 'l', 's', 'e'] (.bool false)
  | nil : WritesWord ['n', 'i', 'l'] .nil

theorem WritesWhole.take {w : List Char} {t : Token} (h : WritesWhole w t) {rest : List Char}
    (hr : rest.head? ≠ some '=') : Token.take (w ++ rest) = .ok (some (t, rest)) := by
  cases h with
  | openBracket => exact Token.take_openBracket rest
  | closeBracket => exact Token.take_closeBracket rest
  | comma => exact Token.take_comma rest
  | element =>
    rw [List.cons_append, Token.take_colon, List.cons_append, List.singleton_append,
      Token.takeSymbol_brackets hr]
    rfl
  | elementAssignment => exact Token.take_colon _
  | symbol h => exact Token.take_quotedSymbol h rest
  | str h => exact Token.take_str h rest

theorem WritesWord.take {w : List Char} {t : Token} (h : WritesWord w t) {rest : List Char}
    (hr : EndsWord rest) : Token.take (w ++ rest) = .ok (some (t, rest)) := by
  cases h with
  | symbol h => exact Token.take_symbol h hr
  | int h => exact Token.take_int h hr
  | true => exact Token.take_word (by decide) (by decide) (by decide) hr rfl
  | false => exact Token.take_word (by decide) (by decide) (by decide) hr rfl
  | nil => exact Token.take_word (by decide) (by decide) (by decide) hr rfl

end TableGraph.Dump
