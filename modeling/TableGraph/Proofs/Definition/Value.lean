import TableGraph.Proofs.Tree.Name

namespace TableGraph

namespace Tree

inductive ConstantPath : Tree → List String → Prop
  | head : tag = "var_ref" ∨ tag = "top_const_ref" → IsToken token name →
      ConstantPath (.tagged tag (token :: rest)) [name]
  | step : ConstantPath path names → IsToken token name →
      ConstantPath (.tagged "const_path_ref" (path :: token :: rest)) (names ++ [name])

inductive IsIdent : Tree → String → Prop
  | reference : tag = "var_ref" ∨ tag = "vcall" → IsToken token text →
      IsIdent (.tagged tag (token :: rest)) text
  | symbol : IsToken token text →
      IsIdent (.tagged "symbol_literal" (.tagged "symbol" (token :: more) :: rest)) text
  | bareSymbol : IsToken token text → IsIdent (.tagged "symbol_literal" (token :: rest)) text
  | number : tag ∈ ["@int", "@float", "@rational", "@imaginary"] →
      IsIdent (.tagged tag (.str text :: position)) text
  | negative : tag ∈ ["@int", "@float"] →
      IsIdent (.tagged "unary" (.symbol "-@" :: .tagged tag (.str text :: position) :: rest))
        ("-" ++ text)
  | path : ConstantPath (.tagged "const_path_ref" parts) names →
      IsIdent (.tagged "const_path_ref" parts) ("::".intercalate names)

inductive IsString : Tree → String → Prop
  | mk : List.Forall₂ IsText parts texts →
      IsString (.tagged "string_literal" (.tagged "string_content" parts :: rest))
        (String.join texts)

theorem ConstantPath.ne_nil {t : Tree} {names : List String} (h : ConstantPath t names) :
    names ≠ [] := by
  cases h <;> simp

theorem ConstantPath.intercalate {t : Tree} {names : List String} (h : ConstantPath t names)
    (name : String) :
    "::".intercalate (names ++ [name]) = "::".intercalate names ++ "::" ++ name := by
  rw [String.intercalate_append_of_ne_nil h.ne_nil (List.cons_ne_nil name []),
    String.intercalate_singleton]

theorem ConstantPath.text {t : Tree} {names : List String} (h : ConstantPath t names) :
    t.constantPath? = some ("::".intercalate names) := by
  induction h with
  | head ht hn =>
    rw [constantPath?_head (by simpa [isTagged_iff, tag?] using ht), String.intercalate_singleton]
    exact tokenText?_eq_some.mpr hn
  | step hp hn ih =>
    rw [constantPath?, if_pos rfl, ih, List.head?_cons, Option.bind_some,
      tokenText?_eq_some.mpr hn, hp.intercalate]

theorem exists_constantPath {t : Tree} {text : String} (h : t.constantPath? = some text) :
    ∃ names, ConstantPath t names ∧ "::".intercalate names = text := by
  fun_induction constantPath? t generalizing text with
  | case1 head rest path name hn hp ih =>
    cases h
    obtain ⟨names, hpath, rfl⟩ := ih hp
    obtain ⟨token, ht, hn⟩ := Option.bind_eq_some_iff.mp hn
    obtain ⟨rest, rfl⟩ := List.head?_eq_some_iff.mp ht
    exact ⟨names ++ [name], hpath.step (tokenText?_eq_some.mp hn), hpath.intercalate name⟩
  | case3 tag head rest _ ht =>
    exact ⟨[text], .head ht (tokenText?_eq_some.mp h), String.intercalate_singleton⟩
  | case2 => cases h
  | case4 => cases h
  | case5 => cases h

theorem eq_of_tokenText? {t : Tree} {tag text : String} (ht : t.tag? = some tag)
    (h : t.tokenText? = some text) : ∃ position, t = .tagged tag (.str text :: position) := by
  obtain ⟨hs⟩ := tokenText?_eq_some.mp h
  cases ht
  exact ⟨_, rfl⟩

theorem isIdent_of_negativeNumber? {slots : List Tree} {text : String}
    (h : (tagged "unary" slots).negativeNumber? = some text) :
    IsIdent (tagged "unary" slots) text := by
  rw [negativeNumber?] at h
  split at h
  · next number hm hn =>
    obtain ⟨rest, rfl⟩ := child?_zero hm
    obtain ⟨hn, _⟩ := child?_eq_some.mp hn
    cases rest with
    | nil => cases hn
    | cons c rest =>
      cases hn
      split at h
      · next ht =>
        obtain ⟨number, hu, rfl⟩ := Option.map_eq_some_iff.mp h
        rw [Bool.or_eq_true, isTagged_iff, isTagged_iff] at ht
        obtain ht | ht := ht
        · obtain ⟨position, rfl⟩ := eq_of_tokenText? ht hu
          exact .negative (by decide)
        · obtain ⟨position, rfl⟩ := eq_of_tokenText? ht hu
          exact .negative (by decide)
      · cases h
  · cases h

theorem Names.isIdent {t : Tree} {text : String} (h : Names t text)
    (ht : t.tag? = some "symbol_literal") : IsIdent t text := by
  cases h with
  | string => exact absurd (Option.some.inj ht) (by decide)
  | symbol h => exact .symbol h
  | bareSymbol h => exact .bareSymbol h
  | reference hr =>
    cases ht
    exact absurd hr (by decide)

theorem Names.isString {t : Tree} {text : String} (h : Names t text)
    (ht : t.tag? = some "string_literal") : IsString t text := by
  cases h with
  | string h => exact .mk h
  | symbol => exact absurd (Option.some.inj ht) (by decide)
  | bareSymbol => exact absurd (Option.some.inj ht) (by decide)
  | reference hr =>
    cases ht
    exact absurd hr (by decide)

theorem isIdent_of_number {t : Tree} {tag text : String}
    (hn : tag ∈ ["@int", "@float", "@rational", "@imaginary"]) (ht : t.tag? = some tag)
    (h : t.tokenText? = some text) : IsIdent t text := by
  obtain ⟨position, rfl⟩ := eq_of_tokenText? ht h
  exact .number hn

theorem isIdent_of_ident? {t : Tree} {text : String} (h : t.ident? = some text) :
    IsIdent t text := by
  rw [ident?] at h
  split at h
  · next ht =>
    obtain ⟨slots, rfl⟩ := eq_tagged (isTagged_iff.mpr ht)
    obtain ⟨token, rest, rfl, hs⟩ := (bind_child?_zero rfl).mp h
    exact .reference (.inl rfl) (tokenText?_eq_some.mp hs)
  · next ht =>
    obtain ⟨slots, rfl⟩ := eq_tagged (isTagged_iff.mpr ht)
    obtain ⟨token, rest, rfl, hs⟩ := (bind_child?_zero rfl).mp h
    exact .reference (.inr rfl) (tokenText?_eq_some.mp hs)
  · next ht =>
    obtain ⟨slots, rfl⟩ := eq_tagged (isTagged_iff.mpr ht)
    obtain ⟨names, hp, rfl⟩ := exists_constantPath h
    exact .path hp
  · next ht =>
    obtain ⟨slots, rfl⟩ := eq_tagged (isTagged_iff.mpr ht)
    exact (names_of_symbolName? h).isIdent ht
  · next ht => exact isIdent_of_number (by decide) ht h
  · next ht => exact isIdent_of_number (by decide) ht h
  · next ht => exact isIdent_of_number (by decide) ht h
  · next ht => exact isIdent_of_number (by decide) ht h
  · next ht =>
    obtain ⟨slots, rfl⟩ := eq_tagged (isTagged_iff.mpr ht)
    exact isIdent_of_negativeNumber? h
  · cases h

theorem IsIdent.ident? {t : Tree} {text : String} (h : IsIdent t text) :
    t.ident? = some text := by
  cases h with
  | reference ht h =>
    obtain rfl | rfl := ht
    · exact (bind_child?_zero rfl).mpr ⟨_, _, rfl, tokenText?_eq_some.mpr h⟩
    · exact (bind_child?_zero rfl).mpr ⟨_, _, rfl, tokenText?_eq_some.mpr h⟩
  | symbol h => exact name?_of_names (.symbol h)
  | bareSymbol h => exact name?_of_names (.bareSymbol h)
  | number ht =>
    simp only [List.mem_cons, List.not_mem_nil, or_false] at ht
    obtain rfl | rfl | rfl | rfl := ht <;> rfl
  | negative ht =>
    simp only [List.mem_cons, List.not_mem_nil, or_false] at ht
    obtain rfl | rfl := ht <;> rfl
  | path h => exact h.text

theorem ident?_eq_some {t : Tree} {text : String} : t.ident? = some text ↔ IsIdent t text :=
  ⟨isIdent_of_ident?, IsIdent.ident?⟩

theorem stringText?_eq_some {t : Tree} (ht : t.isTagged "string_literal") {text : String} :
    t.stringText? = some text ↔ IsString t text := by
  obtain ⟨slots, rfl⟩ := eq_tagged ht
  constructor
  · intro h
    exact (names_of_stringText? h).isString (isTagged_iff.mp ht)
  · rintro ⟨h⟩
    rename_i parts texts rest
    have hn : Names (tagged "string_literal" (tagged "string_content" parts :: rest)) _ := .string h
    exact name?_of_names hn

theorem IsString.isTagged {t : Tree} {text : String} (h : IsString t text) :
    t.isTagged "string_literal" := by
  cases h
  rfl

theorem IsIdent.not_isTagged {t : Tree} {text : String} (h : IsIdent t text) :
    t.isTagged "string_literal" = false := by
  cases h with
  | reference ht => obtain rfl | rfl := ht <;> rfl
  | number ht =>
    simp only [List.mem_cons, List.not_mem_nil, or_false] at ht
    obtain rfl | rfl | rfl | rfl := ht <;> rfl
  | _ => rfl

end Tree

namespace OptionValue

open TableGraph.Tree

theorem ofTree_of_isIdent {t : Tree} {text : String} (h : IsIdent t text) :
    ofTree t = .ident text := by
  rw [ofTree, h.not_isTagged, if_neg nofun, h.ident?]

theorem ofTree_of_isString {t : Tree} {text : String} (h : IsString t text) :
    ofTree t = .str text := by
  rw [ofTree, if_pos h.isTagged, (stringText?_eq_some h.isTagged).mpr h]
  rfl

theorem ofTree_of_neither {t : Tree} (h : ¬∃ text, IsIdent t text ∨ IsString t text) :
    ofTree t = .str "" := by
  rw [ofTree]
  split
  · next ht =>
    cases hs : t.stringText? with
    | none => rfl
    | some text => exact absurd ⟨text, .inr ((stringText?_eq_some ht).mp hs)⟩ h
  · cases hi : t.ident? with
    | none => rfl
    | some text => exact absurd ⟨text, .inl (ident?_eq_some.mp hi)⟩ h

theorem ofTree_eq_ident {t : Tree} {text : String} : ofTree t = .ident text ↔ IsIdent t text := by
  refine ⟨fun h => ?_, ofTree_of_isIdent⟩
  by_cases hn : ∃ s, IsIdent t s ∨ IsString t s
  · obtain ⟨s, hi | hs⟩ := hn
    · cases (ofTree_of_isIdent hi).symm.trans h
      exact hi
    · cases (ofTree_of_isString hs).symm.trans h
  · cases (ofTree_of_neither hn).symm.trans h

theorem ofTree_eq_str {t : Tree} {text : String} : ofTree t = .str text ↔
    IsString t text ∨ text = "" ∧ ¬∃ s, IsIdent t s ∨ IsString t s := by
  constructor
  · intro h
    by_cases hn : ∃ s, IsIdent t s ∨ IsString t s
    · obtain ⟨s, hi | hs⟩ := hn
      · cases (ofTree_of_isIdent hi).symm.trans h
      · cases (ofTree_of_isString hs).symm.trans h
        exact .inl hs
    · cases (ofTree_of_neither hn).symm.trans h
      exact .inr ⟨rfl, hn⟩
  · rintro (hs | ⟨rfl, hn⟩)
    · exact ofTree_of_isString hs
    · exact ofTree_of_neither hn

/-- Every value has a reading: its own text, the text of a string, or else the empty string. -/
theorem ofTree?_eq_iff (v : Option Tree) :
    (∀ text, ofTree? v = .ident text ↔ ∃ t, v = some t ∧ IsIdent t text) ∧
    ∀ text, ofTree? v = .str text ↔
      (∃ t, v = some t ∧ IsString t text) ∨
        text = "" ∧ ¬∃ t s, v = some t ∧ (IsIdent t s ∨ IsString t s) := by
  cases v with
  | none => simp [ofTree?, eq_comm]
  | some t => simp [ofTree?, ofTree_eq_ident, ofTree_eq_str]

end OptionValue

end TableGraph
