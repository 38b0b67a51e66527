import TableGraph.Proofs.Definition.Declares
import TableGraph.Proofs.Definition.Table

namespace TableGraph.Definition

open Arguments (isHash)

theorem KindOf.unique {type : String} {argument : Tree} {kind kind' : ColumnKind}
    (h : KindOf type argument kind) (h' : KindOf type argument kind') : kind = kind' := by
  cases h with
  | regular ht hn =>
    cases h' with
    | regular _ hn' =>
      cases (Tree.name?_of_names hn).symm.trans (Tree.name?_of_names hn')
      rfl
    | index => exact absurd rfl ht
  | index hk =>
    cases h' with
    | regular ht => exact absurd rfl ht
    | index hk' =>
      have h : indexKeys .program argument = .ok _ := indexKeys_eq_ok.mpr hk
      cases h.symm.trans (indexKeys_eq_ok.mpr hk')
      rfl

theorem find?_eq_of_filter {p : α → Bool} {as bs : List α} (h : as.filter p = bs.filter p) :
    as.find? p = bs.find? p := by
  rw [← List.head?_filter, h, List.head?_filter]

section

variable {statement other : Tree} {type : String} {items items' pairs : List Tree} {c d : Column}

theorem Declares.collects (h : Declares statement c) (hs : Calls statement type items)
    (hp : HasPairs items pairs) :
    ∃ options, List.Forall₂ IsPair pairs options ∧ c.Collects options := by
  obtain ⟨hs', _, _, hp', ho, hc⟩ := h
  obtain ⟨_, rfl⟩ := hs.unique hs'
  rw [hp.unique hp']
  exact ⟨_, ho, hc⟩

theorem Declares.kind_eq (h : Declares statement c) (h' : Declares other d)
    (hs : Calls statement type items) (hs' : Calls other type items')
    (hi : items'.filter (!isHash ·) = items.filter (!isHash ·)) :
    d.type = c.type ∧ d.kind = c.kind := by
  obtain ⟨hc, hf, hk, _⟩ := h
  obtain ⟨hd, hf', hk', _⟩ := h'
  obtain ⟨rfl, rfl⟩ := hs.unique hc
  obtain ⟨ht, rfl⟩ := hs'.unique hd
  rw [← ht] at hk' ⊢
  rw [find?_eq_of_filter hi] at hf'
  cases hf.symm.trans hf'
  exact ⟨rfl, hk'.unique hk⟩

theorem Declares.without (h : Declares statement c) (hs : Calls statement type items)
    (hs' : Calls other type items') (hi : items'.filter (!isHash ·) = items.filter (!isHash ·))
    (hn : ∀ t ∈ items', ¬isHash t) : Declares other { c with options := [] } := by
  obtain ⟨hc, hf, hk, _⟩ := h
  obtain ⟨rfl, rfl⟩ := hs.unique hc
  rw [← find?_eq_of_filter hi] at hf
  exact .mk hs' hf hk (.none hn) .nil (Column.collects_nil rfl)

theorem exists_declares {argument : Tree} {kind : ColumnKind}
    {options : List (String × OptionValue)} (hs : Calls statement type items)
    (hf : items.find? (!isHash ·) = some argument) (hk : KindOf type argument kind)
    (hp : HasPairs items pairs) (ho : List.Forall₂ IsPair pairs options) :
    ∃ c, Declares statement c ∧ c.type = type ∧ c.kind = kind := by
  obtain ⟨c, hc⟩ : ∃ c, Column.setOptions { type, kind } options = c := ⟨_, rfl⟩
  obtain ⟨rfl, rfl, hcollects⟩ := Column.setOptions_eq_iff.mp hc
  exact ⟨c, .mk hs hf hk hp ho hcollects, rfl, rfl⟩

end

/-- The options of a column are the hash of its keyword arguments: each key once, where it first
occurs, with its last value. The comment of a table is the value under its key in such a hash. A
pair that cannot be read spoils the whole column or table, and nothing else in a hash does. -/
theorem keywords_of_hasPairs (context : Context) {items pairs : List Tree}
    (h : HasPairs items pairs) :
    (∀ statement type c, Calls statement type items → readColumn context statement = .ok c →
      ∃ options, List.Forall₂ IsPair pairs options ∧
        c.options.map Prod.fst = (options.map Prod.fst).eraseDups ∧
        (∀ key, c.option? key = options.reverse.lookup key) ∧
        ∀ other items', Calls other type items' →
          items'.filter (!isHash ·) = items.filter (!isHash ·) →
          (∀ d, readColumn context other = .ok d → d.type = c.type ∧ d.kind = c.kind) ∧
          ((∀ t ∈ items', ¬isHash t) →
            readColumn context other = .ok { c with options := [] })) ∧
    (∀ command t, HasArguments (command.child? 1) items → readHeader command = .ok t →
      ∃ options, List.Forall₂ IsPair pairs options ∧
        t.comment = ((options.reverse.lookup "comment").map OptionValue.text).getD "") ∧
    ((∃ t ∈ pairs, ∀ pair, ¬IsPair t pair) →
      (∀ statement type, Calls statement type items →
        ∃ m, readColumn context statement = .error m) ∧
      ∀ command, HasArguments (command.child? 1) items → ∃ m, readHeader command = .error m) ∧
    ((∀ t ∈ pairs, ∃ pair, IsPair t pair) → ∀ argument,
      items.find? (!isHash ·) = some argument →
      (∀ statement type kind, Calls statement type items → KindOf type argument kind →
        ∃ c, readColumn context statement = .ok c ∧ c.type = type ∧ c.kind = kind) ∧
      ∀ command name, HasArguments (command.child? 1) items → argument.Names name →
        ∃ t, readHeader command = .ok t ∧ t.name = name) := by
  refine ⟨?_, ?_, ?_, ?_⟩
  · intro statement type c hs hc
    have hd : Declares statement c := readColumn_eq_ok.mp hc
    obtain ⟨options, ho, hcollects⟩ := hd.collects hs h
    refine ⟨options, ho, hcollects.keys, hcollects.option?_eq, ?_⟩
    intro other items' hs' hi
    refine ⟨fun d hd' => hd.kind_eq (readColumn_eq_ok.mp hd') hs hs' hi, fun hn => ?_⟩
    exact readColumn_eq_ok.mpr (hd.without hs hs' hi hn)
  · intro command t ha ht
    exact (readHeader_eq_ok.mp ht).comment_eq ha h
  · rintro ⟨t, ht, hn⟩
    have hnot : ∀ options, ¬List.Forall₂ IsPair pairs options := by
      intro options ho
      obtain ⟨pair, hp⟩ := exists_of_forall₂ ho ht
      exact hn pair hp
    refine ⟨fun statement type hs => eq_error_of_ne_ok fun c hc => ?_,
      fun command ha => eq_error_of_ne_ok fun t ht => ?_⟩
    · obtain ⟨options, ho, _⟩ := (readColumn_eq_ok.mp hc).collects hs h
      exact hnot options ho
    · obtain ⟨options, ho, _⟩ := (readHeader_eq_ok.mp ht).comment_eq ha h
      exact hnot options ho
  · intro hp argument hf
    obtain ⟨options, ho⟩ := exists_forall₂ hp
    refine ⟨fun statement type kind hs hk => ?_, fun command name ha hn => ?_⟩
    · obtain ⟨c, hc, ht, hkind⟩ := exists_declares hs hf hk h ho
      exact ⟨c, readColumn_eq_ok.mpr hc, ht, hkind⟩
    · exact ⟨_, readHeader_eq_ok.mpr (.mk ha hf hn h ho rfl), rfl⟩

theorem keywords_of_hasPairs_mixed :
    let token (tag text : String) : Tree := .tagged tag [.str text]
    let string (text : String) : Tree :=
      .tagged "string_literal" [.tagged "string_content" [token "@tstring_content" text]]
    let symbol (text : String) : Tree :=
      .tagged "symbol_literal" [.tagged "symbol" [token "@ident" text]]
    let pairs : List Tree := [
      .tagged "assoc_new" [token "@label" "comment:", string "c"],
      .tagged "assoc_new" [symbol "null", .tagged "var_ref" [token "@kw" "true"]],
      .tagged "assoc_new" [string "comment", string "d"],
      .tagged "assoc_new" [token "@label" "null", .nil]]
    let items : List Tree := [string "b", .tagged "bare_assoc_hash" [.list pairs]]
    let arguments (items : List Tree) : Tree := .tagged "args_add_block" [.list items, .bool false]
    let column (items : List Tree) : Tree :=
      .tagged "command_call" [.nil, .nil, token "@ident" "string", arguments items]
    let command : Tree := .tagged "command" [token "@ident" "create_table", arguments items]
    let c : Column := ⟨"string", .regular "b", [("comment", .str "d"), ("null", .str "")]⟩
    readColumn (.columnOf "a") (column items) = .ok c ∧
      readHeader command = .ok { name := "b", comment := "d" } ∧
      (∃ options, List.Forall₂ IsPair pairs options ∧
        c.options.map Prod.fst = (options.map Prod.fst).eraseDups ∧
        ∀ key, c.option? key = options.reverse.lookup key) ∧
      readColumn (.columnOf "a") (column [string "b"]) = .ok { c with options := [] } := by
  intro token string symbol pairs items arguments column command c
  have hc : readColumn (.columnOf "a") (column items) = .ok c := rfl
  have hp : HasPairs ([string "b"] ++ .tagged "bare_assoc_hash" [.list pairs] :: []) pairs :=
    .last nofun
  have hs : ∀ items, Calls (column items) "string" items := fun items => .bare (.mk rfl) .mk
  obtain ⟨hcolumn, -⟩ := keywords_of_hasPairs (.columnOf "a") hp
  obtain ⟨options, ho, hkeys, hvalues, hbare⟩ := hcolumn _ _ c (hs items) hc
  have hn : ∀ t ∈ [string "b"], ¬isHash t := by
    simp [string, isHash, Tree.isTagged, Tree.tag?]
  exact ⟨hc, rfl, ⟨options, ho, hkeys, hvalues⟩, (hbare _ _ (hs [string "b"]) rfl).2 hn⟩

end TableGraph.Definition
