import TableGraph.Proofs.Rel
import TableGraph.Proofs.Tree.Tagged

namespace TableGraph.Tree

theorem child?_eq_some {t c : Tree} {i : Nat} :
    t.child? i = some c ↔ t.children[i]? = some c ∧ c ≠ .nil := by
  rw [child?]
  split
  · next h => simp [h, eq_comm]
  · next hn =>
    refine ⟨fun h => ⟨h, ?_⟩, And.left⟩
    rintro rfl
    exact hn h

theorem child?_zero {tag : String} {children : List Tree} {c : Tree}
    (h : (tagged tag children).child? 0 = some c) : ∃ rest, children = c :: rest := by
  obtain ⟨h, _⟩ := child?_eq_some.mp h
  cases children with
  | nil => cases h
  | cons _ rest =>
    cases h
    exact ⟨rest, rfl⟩

theorem child?_zero_eq_none {tag : String} {children : List Tree}
    (h : (tagged tag children).child? 0 = none) :
    children = [] ∨ ∃ rest, children = .nil :: rest := by
  cases children with
  | nil => exact .inl rfl
  | cons c rest =>
    by_cases hc : c = .nil
    · exact .inr ⟨rest, by rw [hc]⟩
    · cases h.symm.trans (child?_eq_some.mpr ⟨rfl, hc⟩)

theorem bind_child?_zero {tag : String} {children : List Tree} {f : Tree → Option α} {a : α}
    (hf : f .nil = none) : ((tagged tag children).child? 0).bind f = some a ↔
      ∃ c rest, children = c :: rest ∧ f c = some a := by
  rw [Option.bind_eq_some_iff]
  constructor
  · rintro ⟨c, hc, ha⟩
    obtain ⟨rest, rfl⟩ := child?_zero hc
    exact ⟨c, rest, rfl, ha⟩
  · rintro ⟨c, rest, rfl, ha⟩
    refine ⟨c, child?_eq_some.mpr ⟨rfl, ?_⟩, ha⟩
    rintro rfl
    cases hf.symm.trans ha

theorem eq_tagged {t : Tree} {tag : String} (h : t.isTagged tag) :
    ∃ children, t = .tagged tag children := by
  rw [isTagged_iff] at h
  cases t <;> cases h
  exact ⟨_, rfl⟩

theorem items?_eq_some {t : Tree} {items : List Tree} :
    t.items? = some items ↔ t = .list items := by
  cases t <;> simp [items?]

inductive IsToken : Tree → String → Prop
  | mk : isScannerTag tag → IsToken (.tagged tag (.str text :: position)) text

def IsText (part : Tree) (text : String) : Prop :=
  ∃ position, part = .tagged "@tstring_content" (.str text :: position)

inductive Names : Tree → String → Prop
  | string : List.Forall₂ IsText parts texts →
      Names (.tagged "string_literal" (.tagged "string_content" parts :: rest)) (String.join texts)
  | symbol : IsToken token text →
      Names (.tagged "symbol_literal" (.tagged "symbol" (token :: more) :: rest)) text
  | bareSymbol : IsToken token text → Names (.tagged "symbol_literal" (token :: rest)) text
  | reference : tag = "var_ref" ∨ tag = "vcall" → IsToken token text →
      Names (.tagged tag (token :: rest)) text

inductive IsKey : Tree → String → Prop
  | label : IsKey (.tagged "@label" (.str (key ++ ":") :: position)) key
  | bareLabel : (∀ stem, key ≠ stem ++ ":") → IsKey (.tagged "@label" (.str key :: position)) key
  | symbol : t.isTagged "symbol_literal" → Names t key → IsKey t key
  | string : t.isTagged "string_literal" → Names t key → IsKey t key

theorem tokenText?_eq_some {t : Tree} {text : String} :
    t.tokenText? = some text ↔ IsToken t text := by
  constructor
  · intro h
    rw [tokenText?.eq_def] at h
    split at h
    · split at h
      · next hs =>
        cases h
        exact .mk hs
      · cases h
    · cases h
  · rintro ⟨hs⟩
    exact if_pos hs

theorem IsToken.ne_nil {t : Tree} {text : String} (h : IsToken t text) : t ≠ .nil := by
  cases h
  nofun

theorem IsToken.isTagged_symbol {t : Tree} {text : String} (h : IsToken t text) :
    t.isTagged "symbol" = false := by
  obtain ⟨hs⟩ := h
  rw [isTagged, tag?, beq_eq_false_iff_ne]
  rintro ⟨⟩
  exact absurd hs (by decide)

theorem IsToken.child?_zero {token : Tree} {text : String} (h : IsToken token text) (tag : String)
    (rest : List Tree) : (tagged tag (token :: rest)).child? 0 = some token :=
  child?_eq_some.mpr ⟨rfl, h.ne_nil⟩

theorem stringPart?_eq_some {part : Tree} {text : String} :
    part.stringPart? = some text ↔ IsText part text := by
  constructor
  · intro h
    rw [stringPart?] at h
    split at h
    · next ht =>
      obtain ⟨children, rfl⟩ := eq_tagged ht
      cases tokenText?_eq_some.mp h
      exact ⟨_, rfl⟩
    · cases h
  · rintro ⟨position, rfl⟩
    rfl

theorem mapM_stringPart? {parts : List Tree} {texts : List String} :
    parts.mapM stringPart? = some texts ↔ List.Forall₂ IsText parts texts := by
  simp only [mapM_eq_some, stringPart?_eq_some]

theorem names_of_stringText? {children : List Tree} {text : String}
    (h : (tagged "string_literal" children).stringText? = some text) :
    Names (tagged "string_literal" children) text := by
  rw [stringText?] at h
  split at h
  · next content hc =>
    obtain ⟨rest, rfl⟩ := child?_zero hc
    split at h
    · next ht =>
      obtain ⟨parts, rfl⟩ := eq_tagged ht
      obtain ⟨texts, hp, rfl⟩ := Option.map_eq_some_iff.mp h
      exact .string (mapM_stringPart?.mp hp)
    · cases h
  · cases h

theorem names_of_symbolName? {children : List Tree} {text : String}
    (h : (tagged "symbol_literal" children).symbolName? = some text) :
    Names (tagged "symbol_literal" children) text := by
  rw [symbolName?] at h
  split at h
  · next inner hc =>
    obtain ⟨rest, rfl⟩ := child?_zero hc
    split at h
    · next ht =>
      obtain ⟨more, rfl⟩ := eq_tagged ht
      obtain ⟨token, more, rfl, hs⟩ := (bind_child?_zero rfl).mp h
      exact .symbol (tokenText?_eq_some.mp hs)
    · exact .bareSymbol (tokenText?_eq_some.mp h)
  · cases h

theorem names_of_referenceName? {tag : String} (ht : tag = "var_ref" ∨ tag = "vcall")
    {children : List Tree} {text : String}
    (h : (tagged tag children).referenceName? = some text) : Names (tagged tag children) text := by
  obtain ⟨token, rest, rfl, hs⟩ := (bind_child?_zero rfl).mp h
  exact .reference ht (tokenText?_eq_some.mp hs)

theorem names_of_name? {t : Tree} {text : String} (h : t.name? = some text) : Names t text := by
  rw [name?] at h
  split at h
  · next ht =>
    obtain ⟨children, rfl⟩ := eq_tagged (isTagged_iff.mpr ht)
    exact names_of_stringText? h
  · next ht =>
    obtain ⟨children, rfl⟩ := eq_tagged (isTagged_iff.mpr ht)
    exact names_of_symbolName? h
  · next ht =>
    obtain ⟨children, rfl⟩ := eq_tagged (isTagged_iff.mpr ht)
    exact names_of_referenceName? (.inl rfl) h
  · next ht =>
    obtain ⟨children, rfl⟩ := eq_tagged (isTagged_iff.mpr ht)
    exact names_of_referenceName? (.inr rfl) h
  · cases h

theorem name?_of_names {t : Tree} {text : String} (h : Names t text) : t.name? = some text := by
  cases h with
  | string h =>
    change Option.map String.join (List.mapM stringPart? _) = _
    rw [children, mapM_stringPart?.mpr h]
    rfl
  | symbol h =>
    change ((tagged "symbol" _).child? 0).bind tokenText? = _
    exact (bind_child?_zero rfl).mpr ⟨_, _, rfl, tokenText?_eq_some.mpr h⟩
  | bareSymbol h =>
    change symbolName? _ = _
    rw [symbolName?, h.child?_zero]
    simp only [h.isTagged_symbol, Bool.false_eq_true, ↓reduceIte]
    exact tokenText?_eq_some.mpr h
  | reference ht h =>
    obtain rfl | rfl := ht
    · exact (bind_child?_zero rfl).mpr ⟨_, _, rfl, tokenText?_eq_some.mpr h⟩
    · exact (bind_child?_zero rfl).mpr ⟨_, _, rfl, tokenText?_eq_some.mpr h⟩

theorem name?_eq_some {t : Tree} {text : String} : t.name? = some text ↔ Names t text :=
  ⟨names_of_name?, name?_of_names⟩

theorem trimLabel_colon (key : String) : trimLabel (key ++ ":") = key := by
  simp [trimLabel]

theorem trimLabel_of_ne {key : String} (h : ∀ stem, key ≠ stem ++ ":") : trimLabel key = key := by
  rw [trimLabel]
  split
  · next hl =>
    obtain ⟨stem, hs⟩ := List.getLast?_eq_some_iff.mp hl
    refine absurd (String.toList_inj.mp ?_) (h (.ofList stem))
    simpa using hs
  · rfl

theorem keyword?_eq_some {t : Tree} {key : String} : t.keyword? = some key ↔ IsKey t key := by
  constructor
  · intro h
    rw [keyword?] at h
    split at h
    · next ht =>
      obtain ⟨children, rfl⟩ := eq_tagged (isTagged_iff.mpr ht)
      obtain ⟨label, hl, rfl⟩ := Option.map_eq_some_iff.mp h
      obtain ⟨hs⟩ := tokenText?_eq_some.mp hl
      by_cases hc : ∃ stem, label = stem ++ ":"
      · obtain ⟨stem, rfl⟩ := hc
        rw [trimLabel_colon]
        exact .label
      · have hc := not_exists.mp hc
        rw [trimLabel_of_ne hc]
        exact .bareLabel hc
    · next ht => exact .symbol (isTagged_iff.mpr ht) (name?_eq_some.mp h)
    · next ht => exact .string (isTagged_iff.mpr ht) (name?_eq_some.mp h)
    · cases h
  · intro h
    cases h with
    | label => exact congrArg some (trimLabel_colon key)
    | bareLabel h => exact congrArg some (trimLabel_of_ne h)
    | symbol ht h =>
      rw [keyword?, isTagged_iff.mp ht]
      exact name?_eq_some.mpr h
    | string ht h =>
      rw [keyword?, isTagged_iff.mp ht]
      exact name?_eq_some.mpr h

end TableGraph.Tree
