import TableGraph.Proofs.Schema.WellFormed

namespace TableGraph.Column

/-- The options are those of a hash: each key once, in the order of first occurrences, with the
value that stands last. -/
structure Collects (c : Column) (pairs : List (String × OptionValue)) : Prop where
  keys : c.options.map Prod.fst = (pairs.map Prod.fst).eraseDups
  option?_eq (key : String) : c.option? key = pairs.reverse.lookup key

theorem lookup_cons (o : String × OptionValue) (os : List (String × OptionValue)) (key : String) :
    (o :: os).lookup key = if key = o.1 then some o.2 else os.lookup key := by
  rw [List.lookup_cons]
  split
  · next h => rw [if_pos (beq_iff_eq.mp h)]
  · next h => rw [if_neg (beq_eq_false_iff_ne.mp h)]

theorem lookup_setIn (key : String) (value : OptionValue) (options : List (String × OptionValue))
    (key' : String) : (setIn key value options).lookup key' =
      if key' = key then some value else options.lookup key' := by
  induction options with
  | nil => rw [setIn, lookup_cons]
  | cons o os ih =>
    rw [setIn]
    by_cases ho : o.1 = key
    · rw [if_pos ho, lookup_cons, lookup_cons, ho]
      split <;> rfl
    · rw [if_neg ho, lookup_cons, lookup_cons, ih]
      by_cases hk : key' = o.1
      · rw [if_pos hk, if_pos hk, if_neg (hk ▸ ho)]
      · rw [if_neg hk, if_neg hk]

theorem collects_nil {c : Column} (h : c.options = []) : c.Collects [] where
  keys := by rw [h]; rfl
  option?_eq key := by rw [option?, h]; rfl

theorem Collects.setOption {c : Column} {pairs : List (String × OptionValue)} (h : c.Collects pairs)
    (key : String) (value : OptionValue) :
    (c.setOption key value).Collects (pairs ++ [(key, value)]) where
  keys := by
    rw [Column.setOption, map_fst_setIn, h.keys, List.map_append, List.map_singleton,
      eraseDups_concat]
    simp only [List.mem_eraseDups]
  option?_eq key' := by
    rw [Column.setOption, option?, lookup_setIn, List.reverse_concat, lookup_cons, ← h.option?_eq,
      option?]

theorem collects_setOptions {c : Column} (h : c.options = [])
    (pairs : List (String × OptionValue)) : (c.setOptions pairs).Collects pairs := by
  -- By the last pair: it settles the value of its key, and its place if it is new.
  induction pairs using List.reverseRecOn with
  | nil => exact collects_nil h
  | append_singleton pairs p ih =>
    rw [setOptions, List.foldl_append]
    exact ih.setOption p.1 p.2

theorem lookup_of_not_mem {key : String} {options : List (String × OptionValue)}
    (h : key ∉ options.map Prod.fst) : options.lookup key = none := by
  rw [List.lookup_eq_none_iff]
  intro o ho
  rw [bne_iff_ne]
  rintro rfl
  exact h (List.mem_map_of_mem ho)

theorem eq_of_lookup {as bs : List (String × OptionValue)} (hn : (as.map Prod.fst).Nodup)
    (hk : as.map Prod.fst = bs.map Prod.fst) (hl : ∀ key, as.lookup key = bs.lookup key) :
    as = bs := by
  induction as generalizing bs with
  | nil => rw [List.map_eq_nil_iff.mp hk.symm]
  | cons a as ih =>
    cases bs with
    | nil => cases hk
    | cons b bs =>
      rw [List.map_cons, List.map_cons, List.cons.injEq] at hk
      rw [List.map_cons, List.nodup_cons] at hn
      obtain ⟨hab, hk⟩ := hk
      simp only [lookup_cons, ← hab] at hl
      have hv : a.2 = b.2 := by simpa using hl a.1
      have hrest : ∀ key, as.lookup key = bs.lookup key := by
        intro key
        by_cases ha : key = a.1
        · rw [ha, lookup_of_not_mem hn.1, lookup_of_not_mem (hk ▸ hn.1)]
        · simpa only [if_neg ha] using hl key
      rw [Prod.ext hab hv, ih hn.2 hk hrest]

theorem Collects.options_eq {c d : Column} {pairs : List (String × OptionValue)}
    (hc : c.Collects pairs) (hd : d.Collects pairs) : c.options = d.options := by
  refine eq_of_lookup ?_ (hc.keys.trans hd.keys.symm) fun key => ?_
  · rw [hc.keys]
    exact nodup_eraseDups _
  · exact (hc.option?_eq key).trans (hd.option?_eq key).symm

theorem setOptions_eq (c : Column) (options : List (String × OptionValue)) :
    c.setOptions options = { c with options := (c.setOptions options).options } := by
  induction options generalizing c with
  | nil => rfl
  | cons o os ih => exact ih (c.setOption o.1 o.2)

theorem setOptions_eq_iff {type : String} {kind : ColumnKind}
    {pairs : List (String × OptionValue)} {c : Column} :
    setOptions { type, kind } pairs = c ↔ c.type = type ∧ c.kind = kind ∧ c.Collects pairs := by
  have hs : (setOptions { type, kind } pairs).Collects pairs := collects_setOptions rfl pairs
  constructor
  · rintro rfl
    rw [setOptions_eq] at hs ⊢
    exact ⟨rfl, rfl, hs⟩
  · rintro ⟨rfl, rfl, hc⟩
    rw [setOptions_eq, hs.options_eq hc]

end TableGraph.Column
