import TableGraph.Proofs.Dump.ReadOn
import TableGraph.Proofs.Text

/-! Texts with more behind them. What the front of a text is taken as does not change with that,
unless quoted text is still open at its end; a blank parts the tokens before it from those
behind. -/

namespace TableGraph.Dump

open Text

variable {α β : Type}

/-- How taking something off a text comes out, and how it does with `tail` behind the text. -/
inductive Extends (tail : List Char) :
    Except Token.Error (α × List Char) → Except Token.Error (α × List Char) → Prop
  | taken : Extends tail (.ok (a, rest)) (.ok (a, rest ++ tail))
  | refused : Extends tail (.error e) (.error e)
  | unterminated : Extends tail (.error .unterminatedString) r

namespace Extends

variable {tail : List Char} {r s : Except Token.Error (α × List Char)}

theorem bind (h : Extends tail r s) {f : α × List Char → Except Token.Error (β × List Char)}
    (hf : ∀ a rest, r = .ok (a, rest) → Extends tail (f (a, rest)) (f (a, rest ++ tail))) :
    Extends tail (r >>= f) (s >>= f) := by
  cases h with
  | taken => exact hf _ _ rfl
  | refused => exact .refused
  | unterminated => exact .unterminated

theorem map (h : Extends tail r s) (f : α → β) :
    Extends tail (r.map fun p => (f p.1, p.2)) (s.map fun p => (f p.1, p.2)) := by
  cases h with
  | taken => exact .taken
  | refused => exact .refused
  | unterminated => exact .unterminated

theorem of_result (tail rest : List Char) (r : Except Token.Error α) :
    Extends tail (r.map fun a => (a, rest)) (r.map fun a => (a, rest ++ tail)) := by
  cases r with
  | error e => exact .refused
  | ok a => exact .taken

end Extends

namespace Literal

theorem takeHex_of_short {n : Nat} {ds : List Char} (hl : ds.length < n)
    (hd : ∀ d ∈ ds, isHexDigit d) : takeHex n ds = .error .unterminatedString := by
  have ht : (ds.take n).takeWhile isHexDigit = ds := by
    rw [List.take_of_length_le hl.le, List.takeWhile_eq_self_iff]
    exact hd
  simp only [takeHex, ht, if_neg hl.ne, List.drop_length]

theorem takeHex_of_other {n : Nat} {ds : List Char} (hl : ds.length < n)
    (hd : ∀ d ∈ ds, isHexDigit d) {c : Char} (hc : isHexDigit c = false) (rest : List Char) :
    takeHex n (ds ++ c :: rest) = .error (.invalidEscape (.ofList (ds ++ [c]))) := by
  have ht : ((ds ++ c :: rest).take n).takeWhile isHexDigit = ds := by
    obtain ⟨m, rfl⟩ := Nat.exists_eq_add_of_lt hl
    rw [Nat.add_assoc, List.take_length_add_append, List.take_succ_cons]
    exact takeWhile_span hd (by simpa using hc)
  simp only [takeHex, ht, if_neg hl.ne, List.drop_left]

theorem takeHex_extends (n : Nat) (cs tail : List Char) :
    Extends tail (takeHex n cs) (takeHex n (cs ++ tail)) := by
  have htaken : ∀ ds rest, (∀ d ∈ ds, isHexDigit d) → n ≤ ds.length →
      Extends tail (takeHex n (ds ++ rest)) (takeHex n (ds ++ rest ++ tail)) := by
    intro ds rest hd hn
    have hdn : ∀ d ∈ ds.take n, isHexDigit d := fun d h => hd d (List.mem_of_mem_take h)
    have hl : (ds.take n).length = n := List.length_take_of_le hn
    rw [← List.take_append_drop n ds, List.append_assoc, List.append_assoc, takeHex_append hl hdn,
      takeHex_append hl hdn]
    exact .taken
  obtain hd | ⟨ds, c, rest, rfl, hd, hc⟩ := forall_or_exists_first isHexDigit cs
  · by_cases hn : n ≤ cs.length
    · simpa using htaken cs [] hd hn
    · rw [takeHex_of_short (Nat.lt_of_not_le hn) hd]
      exact .unterminated
  · by_cases hn : n ≤ ds.length
    · exact htaken ds _ hd hn
    · rw [List.append_assoc, List.cons_append, takeHex_of_other (Nat.lt_of_not_le hn) hd hc,
        takeHex_of_other (Nat.lt_of_not_le hn) hd hc]
      exact .refused

theorem takeBraced_of_short {ds : List Char} (hd : ∀ d ∈ ds, isHexDigit d) :
    takeBraced ds = .error .unterminatedString := by
  simp only [takeBraced, List.dropWhile_eq_nil_iff.mpr hd]

theorem takeBraced_of_other {ds : List Char} (hd : ∀ d ∈ ds, isHexDigit d) {c : Char}
    (hc : isHexDigit c = false) (hb : c ≠ '\x7d') (rest : List Char) :
    takeBraced (ds ++ c :: rest) =
      .error (.invalidEscape (.ofList ('u' :: '\x7b' :: (ds ++ [c])))) := by
  have hr : ∀ d ∈ (c :: rest).head?, isHexDigit d = false := by simpa using hc
  simp only [takeBraced, takeWhile_span hd hr, dropWhile_span hd hr]

theorem takeBraced_extends (cs tail : List Char) :
    Extends tail (takeBraced cs) (takeBraced (cs ++ tail)) := by
  obtain hd | ⟨ds, c, rest, rfl, hd, hc⟩ := forall_or_exists_first isHexDigit cs
  · rw [takeBraced_of_short hd]
    exact .unterminated
  · rw [List.append_assoc, List.cons_append]
    by_cases hb : c = '\x7d'
    · rw [hb, takeBraced_append hd, takeBraced_append hd]
      exact .taken
    · rw [takeBraced_of_other hd hc hb, takeBraced_of_other hd hc hb]
      exact .refused

theorem takeEscape_extends (cs tail : List Char) :
    Extends tail (takeEscape cs) (takeEscape (cs ++ tail)) := by
  fun_cases takeEscape cs with
  | case1 => exact .unterminated
  | case2 cs =>
    exact (takeHex_extends 2 cs tail).bind fun ds rest _ => .taken
  | case3 cs =>
    refine (takeBraced_extends cs tail).bind fun ds rest _ => ?_
    exact .of_result tail rest (bracedCodePoint ds)
  | case4 cs hb =>
    cases cs with
    | nil => exact .unterminated
    | cons c cs =>
      rw [List.cons_append, takeEscape]
      · refine (takeHex_extends 4 (c :: cs) tail).bind fun ds rest _ => ?_
        exact .of_result tail rest (codePoint (hexValue ds))
      · rintro rest ⟨⟩
        exact hb cs rfl
  | case5 c cs hx hb hu =>
    rw [List.cons_append, takeEscape_named hx hu]
    exact .taken

theorem takePiece_extends (cs tail : List Char) :
    Extends tail (takePiece cs) (takePiece (cs ++ tail)) := by
  fun_cases takePiece cs with
  | case1 => exact .unterminated
  | case2 cs => exact .taken
  | case3 cs => exact (takeEscape_extends cs tail).map some
  | case4 c cs hq hb =>
    rw [List.cons_append, takePiece]
    · exact .taken
    · exact hq
    · exact hb

theorem takePieces_eq_bind (cs : List Char) :
    takePieces cs = takePiece cs >>= fun
      | (none, rest) => .ok ([], rest)
      | (some p, rest) => (takePieces rest).map fun ps => (p :: ps.1, ps.2) := by
  rw [takePieces]
  split
  · next h => rw [h]; rfl
  · next h => rw [h]; rfl
  · next p rest h =>
    rw [h, ok_bind]
    change _ = (takePieces rest).map _
    cases takePieces rest <;> rfl

theorem takePieces_extends (cs tail : List Char) :
    Extends tail (takePieces cs) (takePieces (cs ++ tail)) := by
  rw [takePieces_eq_bind cs, takePieces_eq_bind (cs ++ tail)]
  refine (takePiece_extends cs tail).bind fun p rest h => ?_
  cases p with
  | none => exact .taken
  | some p => exact (takePieces_extends rest tail).map (p :: ·)
  termination_by cs.length
  decreasing_by exact takePiece_length h

theorem takeText_extends (cs tail : List Char) :
    Extends tail (takeText cs) (takeText (cs ++ tail)) :=
  (takePieces_extends cs tail).map fun ps => String.ofList (text ps)

end Literal

namespace Token

theorem takeSymbol_unclosed {cs : List Char} (h : cs.head? ≠ some ']') :
    takeSymbol ('[' :: cs) = .error (.unexpectedChar '[') := by
  rw [takeSymbol]
  · rintro _ rfl
    exact h rfl
  · rintro _ rfl
    exact h rfl

theorem takeSymbol_of_head {cs : List Char} (hq : cs.head? ≠ some '"') (hb : cs.head? ≠ some '[') :
    takeSymbol cs =
      if (takeWord cs).1.isEmpty then .error (.unexpectedChar ':')
      else .ok (.ofList (takeWord cs).1, (takeWord cs).2) := by
  cases cs with
  | nil => rfl
  | cons c cs => exact takeSymbol_word (by simpa using hq) (by simpa using hb) cs

section

variable {w : Char} (hw : isBlank w) (b : List Char)

include hw

theorem head_append_blank {c : Char} (hc : isBlank c = false) {cs : List Char}
    (h : cs.head? ≠ some c) : (cs ++ w :: b).head? ≠ some c := by
  cases cs with
  | nil =>
    rintro ⟨⟩
    cases hc.symm.trans hw
  | cons d cs => exact h

theorem takeWord_append_blank (cs : List Char) :
    takeWord (cs ++ w :: b) = ((takeWord cs).1, (takeWord cs).2 ++ w :: b) := by
  obtain hd | ⟨ds, c, rest, rfl, hd, hc⟩ := forall_or_exists_first (!isDelimiter ·) cs
  · have hcs : takeWord cs = (cs, []) := by simpa using takeWord_append hd closed_nil.endsWord
    rw [hcs, takeWord_append hd (endsWord_cons (.inl hw) b)]
    rfl
  · have hc : ∀ rest, EndsWord (c :: rest) := by
      simp only [isDelimiter, Bool.not_eq_false', Bool.or_eq_true, beq_iff_eq, or_assoc] at hc
      exact endsWord_cons hc
    rw [List.append_assoc, List.cons_append, takeWord_append hd (hc _), takeWord_append hd (hc _)]
    rfl

theorem takeSymbol_bracket_extends (cs : List Char) :
    Extends (w :: b) (takeSymbol ('[' :: cs)) (takeSymbol ('[' :: (cs ++ w :: b))) := by
  by_cases hc : cs.head? = some ']'
  · obtain ⟨cs, rfl⟩ := List.head?_eq_some_iff.mp hc
    by_cases he : cs.head? = some '='
    · obtain ⟨cs, rfl⟩ := List.head?_eq_some_iff.mp he
      exact .taken
    · rw [List.cons_append, takeSymbol_brackets he,
        takeSymbol_brackets (head_append_blank hw b rfl he)]
      exact .taken
  · rw [takeSymbol_unclosed hc, takeSymbol_unclosed (head_append_blank hw b rfl hc)]
    exact .refused

theorem takeSymbol_extends (cs : List Char) :
    Extends (w :: b) (takeSymbol cs) (takeSymbol (cs ++ w :: b)) := by
  by_cases hq : cs.head? = some '"'
  · obtain ⟨cs, rfl⟩ := List.head?_eq_some_iff.mp hq
    exact Literal.takeText_extends cs (w :: b)
  by_cases hb : cs.head? = some '['
  · obtain ⟨cs, rfl⟩ := List.head?_eq_some_iff.mp hb
    exact takeSymbol_bracket_extends hw b cs
  rw [takeSymbol_of_head hq hb, takeSymbol_of_head (head_append_blank hw b rfl hq)
    (head_append_blank hw b rfl hb), takeWord_append_blank hw]
  split
  · exact .refused
  · exact .taken

theorem takeFrom_extends (c : Char) (cs : List Char) :
    Extends (w :: b) (takeFrom c cs) (takeFrom c (cs ++ w :: b)) := by
  rw [takeFrom, takeFrom, takeWord_append_blank hw]
  split
  · exact .taken
  split
  · exact .taken
  split
  · exact .taken
  split
  · exact (takeSymbol_extends hw b cs).map Token.symbol
  split
  · exact (Literal.takeText_extends cs (w :: b)).map Token.str
  split
  · exact .of_result _ _ (ofNumber (c :: (takeWord cs).1))
  split
  · exact .of_result _ _ (ofWord (c :: (takeWord cs).1))
  · exact .refused

end

end Token

theorem tokens_blanks {ds : List Char} (hd : ∀ d ∈ ds, isBlank d) (cs : List Char) :
    tokens (ds ++ cs) = tokens cs := by
  induction ds with
  | nil => rfl
  | cons d ds ih =>
    rw [List.forall_mem_cons] at hd
    rw [List.cons_append, tokens_blank hd.1, ih hd.2]

theorem tokens_cons {c : Char} (hc : isBlank c = false) (cs : List Char) :
    tokens (c :: cs) = Token.takeFrom c cs >>= fun p => (tokens p.2).map (p.1 :: ·) := by
  have ht := Token.take_cons (c := c) (by rw [hc]; rfl) cs
  cases h : Token.takeFrom c cs with
  | error e =>
    rw [h] at ht
    exact tokens_of_error ht
  | ok p =>
    rw [h] at ht
    exact tokens_of_take ht

inductive Parts (b : List Char) :
    Except Token.Error (List Token) → Except Token.Error (List Token) → Prop
  | ended (ts) : Parts b (.ok (ts ++ [.eof])) ((tokens b).map (ts ++ ·))
  | refused : Parts b (.error e) (.error e)
  | unterminated : Parts b (.error .unterminatedString) r

theorem Parts.cons {b : List Char} {r s : Except Token.Error (List Token)} (h : Parts b r s)
    (t : Token) : Parts b (r.map (t :: ·)) (s.map (t :: ·)) := by
  cases h with
  | ended ts =>
    have hm : ((tokens b).map (ts ++ ·)).map (t :: ·) = (tokens b).map (t :: ts ++ ·) := by
      cases tokens b <;> rfl
    rw [hm]
    exact .ended (t :: ts)
  | refused => exact .refused
  | unterminated => exact .unterminated

theorem tokens_parts {w : Char} (hw : isBlank w) (a b : List Char) :
    Parts b (tokens a) (tokens (a ++ w :: b)) := by
  obtain hd | ⟨ds, c, rest, ha, hd, hc⟩ := forall_or_exists_first isBlank a
  · have ha : tokens a = .ok [.eof] := by
      rw [← List.append_nil a, tokens_blanks hd, tokens_nil]
    have hb : tokens b = (tokens b).map ([] ++ ·) := by cases tokens b <;> rfl
    rw [ha, tokens_blanks hd, tokens_blank hw, hb]
    exact .ended []
  · have h := Token.takeFrom_extends hw b c rest
    rw [ha, List.append_assoc, tokens_blanks hd, tokens_blanks hd, List.cons_append, tokens_cons hc,
      tokens_cons hc]
    generalize hr : Token.takeFrom c rest = r at h ⊢
    generalize Token.takeFrom c (rest ++ w :: b) = s at h ⊢
    cases h with
    | taken =>
      rename_i t rest'
      -- What is taken off is in `a`, so the rest of `a` is shorter.
      have hlt : rest'.length < a.length := by
        have hle := Token.takeFrom_length hr
        rw [ha, List.length_append, List.length_cons]
        omega
      exact (tokens_parts hw rest' b).cons t
    | refused => exact .refused
    | unterminated => exact .unterminated
  termination_by a.length

/-- A blank parts a text: its tokens are those before the blank and those behind, and what is wrong
before it stays so, unless quoted text goes on over it. -/
theorem tokens_append_blank {w : Char} (hw : isBlank w) (a b : List Char) :
    (∀ ts, tokens a = .ok (ts ++ [.eof]) →
      (∀ us, tokens b = .ok us → tokens (a ++ w :: b) = .ok (ts ++ us)) ∧
      ∀ e, tokens b = .error e → tokens (a ++ w :: b) = .error e) ∧
    ∀ e, tokens a = .error e → e ≠ .unterminatedString → tokens (a ++ w :: b) = .error e := by
  have h := tokens_parts hw a b
  generalize tokens a = r, tokens (a ++ w :: b) = s at h ⊢
  cases h with
  | ended ts =>
    refine ⟨fun ts' he => ?_, nofun⟩
    obtain rfl := List.append_cancel_right (Except.ok.inj he)
    constructor
    · intro us hb
      rw [hb]
      rfl
    · intro e hb
      rw [hb]
      rfl
  | refused => exact ⟨nofun, fun e he _ => he⟩
  | unterminated =>
    refine ⟨nofun, fun e he hu => ?_⟩
    cases he
    exact absurd rfl hu

theorem tokens_append_blank_brackets :
    let w := '\u3000'
    let a := [':', '[', ']']
    let b := [':', '[', ']', '=']
    let c := ['=', '"']
    let d := ['7', ' ', ':', '[']
    isBlank w ∧ tokens a = .ok ([.symbol "[]"] ++ [.eof]) ∧
      (tokens b = .ok [.symbol "[]=", .eof] ∧
        tokens (a ++ w :: b) = .ok ([.symbol "[]"] ++ [.symbol "[]=", .eof])) ∧
      (tokens c = .error (.unexpectedChar '=') ∧
        tokens (a ++ w :: c) = .error (.unexpectedChar '=')) ∧
      tokens d = .error (.unexpectedChar '[') ∧
      tokens (d ++ w :: b) = .error (.unexpectedChar '[') := by
  intro w a b c d
  have hw : isBlank w := by decide
  have ha : tokens a = .ok ([.symbol "[]"] ++ [.eof]) := by cbv
  have hb : tokens b = .ok [.symbol "[]=", .eof] := by cbv
  have hc : tokens c = .error (.unexpectedChar '=') := by cbv
  have hd : tokens d = .error (.unexpectedChar '[') := by cbv
  exact ⟨hw, ha, ⟨hb, ((tokens_append_blank hw a b).1 _ ha).1 _ hb⟩,
    ⟨hc, ((tokens_append_blank hw a c).1 _ ha).2 _ hc⟩, hd,
    (tokens_append_blank hw d b).2 _ hd nofun⟩

end TableGraph.Dump
