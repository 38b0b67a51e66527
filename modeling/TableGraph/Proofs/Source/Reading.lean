import TableGraph.Extraction.Reading
import TableGraph.Proofs.Rel
import TableGraph.Proofs.Schema.WellFormed
import TableGraph.Proofs.Source.Tree
import TableGraph.Proofs.Tree.Name

namespace TableGraph.Source

open Definition Extraction

theorem stringText?_string (text : String) : (string text).stringText? = some text := by
  change ([token "@tstring_content" text].mapM Tree.stringPart?).map String.join = some text
  have hp : Tree.stringPart? (token "@tstring_content" text) = some text := rfl
  simp [hp]

theorem name?_string (text : String) : (string text).name? = some text := stringText?_string text

theorem ofTree_value (v : OptionValue) : OptionValue.ofTree (value v) = v := by
  cases v with
  | str text =>
    change OptionValue.str ((string text).stringText?.getD "") = .str text
    rw [stringText?_string]
    rfl
  | ident text => rfl

theorem keyword?_label (key : String) : (token "@label" (key ++ ":")).keyword? = some key := by
  change some (Tree.trimLabel (key ++ ":")) = some key
  rw [Tree.trimLabel_colon]

theorem child?_value (key : String) (v : OptionValue) :
    (pair key (value v)).child? 1 = some (value v) := by
  cases v <;> rfl

theorem readPair_pair (context : Context) (key : String) (v : OptionValue) :
    readPair context (pair key (value v)) = .ok (key, v) := by
  have hk : ((pair key (value v)).child? 0).bind Tree.keyword? = some key := keyword?_label key
  have hv : OptionValue.ofTree? ((pair key (value v)).child? 1) = v := by
    rw [child?_value]
    exact ofTree_value v
  change (require (((pair key (value v)).child? 0).bind Tree.keyword?) context .keywordName).map
    (fun key => (key, OptionValue.ofTree? _)) = _
  rw [hk, hv]
  rfl

theorem readPairs_hash (context : Context) (options : List (String × OptionValue)) :
    readPairs context (hash (options.map fun o => (o.1, value o.2))) = .ok options := by
  change (List.map _ (options.map _)).mapM (readPair context) = .ok options
  rw [List.map_map]
  induction options with
  | nil => rfl
  | cons o os ih =>
    rw [List.map_cons, List.mapM_cons, ih]
    simp only [Function.comp, readPair_pair, ok_bind]
    rfl

theorem ofTree_arguments (context : Context) {items : List Tree}
    (h : ∀ t ∈ items, !Arguments.isHash t) (options : List (String × OptionValue)) :
    Arguments.ofTree context (some (arguments (items ++ keywords options))) =
      .ok ⟨items, (keywords options).getLast?⟩ := by
  change (Except.ok (items ++ keywords options)).map Arguments.ofItems = _
  have hi : items.filter Arguments.isHash = [] := by simpa using h
  have hp : items.filter (!Arguments.isHash ·) = items := List.filter_eq_self.mpr h
  rw [ok_map, Arguments.ofItems, List.filter_append, List.filter_append, hi, hp]
  cases options with
  | nil => simp [keywords]
  | cons o os =>
    have hh : Arguments.isHash (hash ((o :: os).map fun o => (o.1, value o.2))) := rfl
    simp only [keywords, List.filter_singleton, hh]
    simp

theorem readKeywords_keywords (context : Context) (items : List Tree)
    (options : List (String × OptionValue)) :
    (Arguments.mk items (keywords options).getLast?).readKeywords context = .ok options := by
  cases options with
  | nil => rfl
  | cons o os => exact readPairs_hash context (o :: os)

theorem commentOf_comment (text : String) : commentOf (comment text) = text := by
  by_cases h : text = ""
  · simp [comment, commentOf, h]
  · simp [comment, commentOf, h, OptionValue.text]

theorem child?_command (method : String) (items : List Tree) :
    (command method items).child? 1 = some (arguments items) := rfl

theorem readHeader_command (name text : String) :
    readHeader (command "create_table" (string name :: keywords (comment text))) =
      .ok { name, comment := text } := by
  have hi : ∀ t ∈ [string name], !Arguments.isHash t := List.forall_mem_singleton.mpr rfl
  have ha := ofTree_arguments .createTable hi (comment text)
  rw [List.singleton_append] at ha
  simp [readHeader, child?_command, ha, Arguments.first, require, name?_string,
    readKeywords_keywords, commentOf_comment]

theorem readForeignKey_foreignKey (source target : String) :
    readForeignKey (foreignKey source target) = .ok (source, target) := by
  have hi : ∀ t ∈ [string source, string target], !Arguments.isHash t :=
    List.forall_mem_cons.mpr ⟨rfl, List.forall_mem_singleton.mpr rfl⟩
  have ha := ofTree_arguments .addForeignKey hi []
  rw [keywords, List.append_nil] at ha
  simp [readForeignKey, foreignKey, child?_command, ha, Arguments.first, Arguments.second, require,
    name?_string]

theorem setIn_of_not_mem {key : String} {options : List (String × OptionValue)}
    (h : key ∉ options.map Prod.fst) (v : OptionValue) :
    Column.setIn key v options = options ++ [(key, v)] := by
  induction options with
  | nil => rfl
  | cons o os ih =>
    rw [List.map_cons, List.mem_cons, not_or] at h
    rw [Column.setIn, if_neg (Ne.symm h.1), ih h.2, List.cons_append]

theorem setOptions_of_nodup (c : Column) {options : List (String × OptionValue)}
    (h : ((c.options ++ options).map Prod.fst).Nodup) :
    c.setOptions options = { c with options := c.options ++ options } := by
  induction options generalizing c with
  | nil => simp [Column.setOptions]
  | cons o os ih =>
    have hn : o.1 ∉ c.options.map Prod.fst := not_mem_map_of_nodup h
    have hs : c.setOption o.1 o.2 = { c with options := c.options ++ [o] } := by
      rw [Column.setOption, setIn_of_not_mem hn]
    change (c.setOption o.1 o.2).setOptions os = _
    rw [hs, ih _ (by simpa using h)]
    simp

theorem name?_of_mem_keys (context : Context) (keys : List String) :
    (keys.map string).mapM (fun t => require t.name? context .indexColumn) = .ok keys := by
  induction keys with
  | nil => rfl
  | cons k ks ih =>
    rw [List.map_cons, List.mapM_cons, name?_string, ih]
    rfl

theorem indexKeys_array (context : Context) (keys : List String) :
    indexKeys context (array keys) = .ok keys := by
  cases keys with
  | nil => rfl
  | cons k ks => exact name?_of_mem_keys context (k :: ks)

theorem bareColumn_subject (context : Context) {c : Column} (hc : c.WellFormed)
    (keywords? : Option Tree) :
    bareColumn context c.type ⟨[subject c.kind], keywords?⟩ = .ok { c with options := [] } := by
  obtain ⟨type, kind, options⟩ := c
  cases kind with
  | regular name =>
    have ht : type ≠ "index" := fun ht => by
      obtain ⟨_, hk⟩ := hc.type.mp ht
      cases hk
    simp [bareColumn, ht, Arguments.first, require, subject, name?_string, Column.regular]
  | index keys =>
    have ht : type = "index" := hc.type.mpr ⟨keys, rfl⟩
    simp [bareColumn, ht, Arguments.first, require, subject, indexKeys_array, Column.index]

theorem columnCall_column (context : Context) (c : Column) :
    columnCall context (column c) = .ok (some (token "@ident" c.type),
      some (arguments (subject c.kind :: keywords c.options))) := rfl

theorem readColumn_column (context : Context) {c : Column} (hc : c.WellFormed) :
    readColumn context (column c) = .ok c := by
  have hi : ∀ t ∈ [subject c.kind], !Arguments.isHash t := by
    rw [List.forall_mem_singleton]
    cases c.kind with
    | regular name => rfl
    | index keys => cases keys <;> rfl
  have ha := ofTree_arguments context hi c.options
  rw [List.singleton_append] at ha
  have hs : Column.setOptions { c with options := [] } c.options = c :=
    setOptions_of_nodup _ hc.options
  have ht : (token "@ident" c.type).tokenText? = some c.type := rfl
  simp [readColumn, columnCall_column, require, ht, ha, bareColumn_subject context hc,
    readKeywords_keywords, hs]

theorem readColumns_map (context : Context) {cs : List Column} (hcs : ∀ c ∈ cs, c.WellFormed) :
    readColumns context (cs.map column) = (cs, none) := by
  induction cs with
  | nil => rfl
  | cons c cs ih =>
    have hv : (column c).isTagged "void_stmt" = false := rfl
    rw [List.forall_mem_cons] at hcs
    rw [List.map_cons, readColumns, hv, if_neg Bool.false_ne_true,
      readColumn_column context hcs.1, ih hcs.2]

theorem readColumns_columns (context : Context) {cs : List Column}
    (hcs : ∀ c ∈ cs, c.WellFormed) : readColumns context (columns cs) = (cs, none) := by
  cases cs with
  | nil => rfl
  | cons c cs => exact readColumns_map context hcs

theorem outcome_createTable {t : Table} (ht : ∀ c ∈ t.columns, c.WellFormed) :
    (Reading.ofStatement (createTable t)).outcome =
      .ok (.create { t with references := none }) := by
  change (Reading.ofTable (command "create_table" (string t.name :: keywords (comment t.comment)))
    (createTable t)).outcome = _
  have hb : ∀ context, blockStatements context (createTable t) = .ok (columns t.columns) :=
    fun _ => rfl
  simp only [Reading.ofTable, readHeader_command, hb, readColumns_columns _ ht]

theorem outcome_foreignKey (source target : String) :
    (Reading.ofStatement (foreignKey source target)).outcome = .ok (.reference source target) := by
  change (readForeignKey (foreignKey source target)).map (fun p => Directive.reference p.1 p.2) = _
  rw [readForeignKey_foreignKey]
  rfl

end TableGraph.Source
