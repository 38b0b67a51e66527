import TableGraph.Proofs.Dump.ReadOn

/-! The layouts of a sequence of tokens: the tokens in any of their spellings, with blanks anywhere
between them. Splitting a text into tokens undoes them all. -/

namespace TableGraph.Dump

inductive Layout : List Char → List Token → Prop
  | nil : Layout [] []
  | blank : Text.isBlank c → Layout cs ts → Layout (c :: cs) ts
  | whole : WritesWhole w t → Layout cs ts → Layout (w ++ cs) (t :: ts)
  | word : WritesWord w t → EndsWord cs → Layout cs ts → Layout (w ++ cs) (t :: ts)

theorem WritesWhole.head_ne {w : List Char} {t : Token} (h : WritesWhole w t) (cs : List Char) :
    (w ++ cs).head? ≠ some '=' := by
  cases h with
  | str h =>
    obtain ⟨_, _, _, rfl, _⟩ := h
    simp
  | _ => simp

theorem WritesWord.head_ne {w : List Char} {t : Token} (h : WritesWord w t) (cs : List Char) :
    (w ++ cs).head? ≠ some '=' := by
  cases h with
  | int h =>
    obtain ⟨c, cs, rfl, hc, _⟩ := Token.exists_cons_of_writesInt h
    intro he
    cases he
    exact absurd hc (by decide)
  | _ => simp

theorem Layout.head_ne {cs : List Char} {ts : List Token} (h : Layout cs ts) :
    cs.head? ≠ some '=' := by
  cases h with
  | nil => nofun
  | blank hc _ =>
    intro he
    cases he
    exact absurd hc (by decide)
  | whole hw _ => exact hw.head_ne _
  | word hw _ _ => exact hw.head_ne _

theorem exists_layout_iff {ts : List Token} :
    (∃ cs, Layout cs ts) ↔ ∀ t ∈ ts, t ≠ .eof ∧ ∀ x, t ≠ .float x := by
  constructor
  · intro ⟨cs, h⟩
    induction h with
    | nil => simp
    | blank _ _ ih => exact ih
    | whole hw _ ih =>
      rw [List.forall_mem_cons]
      exact ⟨by cases hw <;> simp, ih⟩
    | word hw _ _ ih =>
      rw [List.forall_mem_cons]
      exact ⟨by cases hw <;> simp, ih⟩
  · intro h
    induction ts with
    | nil => exact ⟨[], .nil⟩
    | cons t ts ih =>
      obtain ⟨⟨he, hf⟩, hts⟩ := List.forall_mem_cons.mp h
      obtain ⟨cs, hcs⟩ := ih hts
      -- Whatever comes next, a bare word ends before a blank.
      have hword : ∀ {w}, WritesWord w t → ∃ cs, Layout cs (t :: ts) := by
        intro w hw
        have hb : Text.isBlank ' ' := by decide
        exact ⟨_, .word hw (endsWord_cons (.inl hb) cs) (.blank hb hcs)⟩
      cases t with
      | symbol text => exact ⟨_, .whole (.symbol (Literal.quotes_encode text)) hcs⟩
      | str text => exact ⟨_, .whole (.str (Literal.quotes_encode text)) hcs⟩
      | int n => exact hword (.int (Token.writesInt_writeInt n))
      | float x => exact absurd rfl (hf x)
      | bool b =>
        cases b with
        | true => exact hword .true
        | false => exact hword .false
      | nil => exact hword .nil
      | openBracket => exact ⟨_, .whole .openBracket hcs⟩
      | closeBracket => exact ⟨_, .whole .closeBracket hcs⟩
      | comma => exact ⟨_, .whole .comma hcs⟩
      | eof => exact absurd rfl he

/-- Splitting a text into its tokens undoes every way of laying them out. -/
theorem tokens_of_layout {cs : List Char} {ts : List Token} (h : Layout cs ts) :
    tokens cs = .ok (ts ++ [.eof]) := by
  induction h with
  | nil => exact tokens_nil
  | blank hc _ ih => rw [tokens_blank hc, ih]
  | whole hw h ih =>
    rw [tokens_of_take (hw.take h.head_ne), ih]
    rfl
  | word hw hr _ ih =>
    rw [tokens_of_take (hw.take hr), ih]
    rfl

theorem tokens_of_layout_packed :
    let cs := ['[', ':', '[', ']', '[', ':', 'a', '"', 'b', ',', '"', '\\', 'x', '4', '1', '"',
      ':', '"', '"', ']', '-', '0', '_', '7', '\u3000', 'n', 'i', 'l', ']']
    let ts := [.openBracket, .symbol "[]", .openBracket, .symbol "a\"b", .comma, .str "A",
      .symbol "", .closeBracket, .int (-7), .nil, .closeBracket]
    Layout cs ts ∧ tokens cs = .ok (ts ++ [.eof]) := by
  intro cs ts
  have hplain : WritesWord (':' :: "a\"b".toList) (.symbol "a\"b") := .symbol (by decide)
  have hbyte : Literal.Writes ['\\', 'x', '4', '1'] (.byte 0x41) :=
    .byte rfl (List.all_eq_true.mp (by decide))
  have hstr : Literal.Quotes ['"', '\\', 'x', '4', '1', '"'] "A" :=
    ⟨_, _, .cons hbyte .nil, rfl, by decide⟩
  have hempty : Literal.Quotes ['"', '"'] "" := Literal.quotes_encode ""
  have hint : WritesInt ['-', '0', '_', '7'] (-7) := ⟨nofun, 1, by decide⟩
  have hend : Layout ['n', 'i', 'l', ']'] [.nil, .closeBracket] :=
    .word .nil (endsWord_cons (by decide) _) (.whole .closeBracket .nil)
  have hrest : Layout ['-', '0', '_', '7', '\u3000', 'n', 'i', 'l', ']'] _ :=
    .word (.int hint) (endsWord_cons (by decide) _) (.blank (by decide) hend)
  have hlayout : Layout cs ts :=
    .whole .openBracket (.whole .element (.whole .openBracket
      (.word hplain (endsWord_cons (by decide) _) (.whole .comma (.whole (.str hstr)
        (.whole (.symbol hempty) (.whole .closeBracket hrest)))))))
  exact ⟨hlayout, tokens_of_layout hlayout⟩

end TableGraph.Dump
