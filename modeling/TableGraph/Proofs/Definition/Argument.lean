import TableGraph.Definition.Argument
import TableGraph.Proofs.Tree.Name

namespace TableGraph.Definition

theorem require_eq_ok {part : Option α} {context : Context} {expected : Expected} {a : α} :
    require part context expected = .ok a ↔ part = some a := by
  cases part <;> simp [require]

inductive HasArguments : Option Tree → List Tree → Prop
  | mk : HasArguments (some (.tagged "args_add_block" (.list items :: rest))) items

theorem HasArguments.unique {slot : Option Tree} {items items' : List Tree}
    (h : HasArguments slot items) (h' : HasArguments slot items') : items = items' := by
  obtain ⟨⟩ := h
  obtain ⟨⟩ := h'
  rfl

/-- The value behind a key. One that is not there is the empty string. -/
inductive HasValue : List Tree → OptionValue → Prop
  | value : t ≠ .nil → HasValue (t :: rest) (.ofTree t)
  | absent : HasValue [] (.str "")
  | empty : HasValue (.nil :: rest) (.str "")

inductive IsPair : Tree → String × OptionValue → Prop
  | mk : Tree.IsKey label key → HasValue rest value →
      IsPair (.tagged "assoc_new" (label :: rest)) (key, value)

/-- The pairs of the last hash among arguments; none if there is no hash. -/
inductive HasPairs : List Tree → List Tree → Prop
  | none : (∀ t ∈ items, ¬Arguments.isHash t) → HasPairs items []
  | last : (∀ t ∈ after, ¬Arguments.isHash t) →
      HasPairs (before ++ .tagged "bare_assoc_hash" (.list pairs :: rest) :: after) pairs

theorem Arguments.ofTree_eq_ok {context : Context} {slot : Option Tree} {args : Arguments} :
    ofTree context slot = .ok args ↔ ∃ items, HasArguments slot items ∧ ofItems items = args := by
  rw [ofTree, map_eq_ok]
  refine exists_congr fun items => and_congr_left fun _ => ?_
  rw [require_eq_ok]
  constructor
  · intro h
    obtain ⟨block, rfl, hi⟩ := Option.bind_eq_some_iff.mp h
    split at hi
    · next ht =>
      obtain ⟨children, rfl⟩ := Tree.eq_tagged ht
      obtain ⟨_, rest, rfl, hl⟩ := (Tree.bind_child?_zero rfl).mp hi
      rw [Tree.items?_eq_some.mp hl]
      exact .mk
    · cases hi
  · rintro ⟨⟩
    rfl

theorem Arguments.first_eq_ok {items : List Tree} {context : Context} {expected : Expected}
    {t : Tree} : (ofItems items).first context expected = .ok t ↔
      items.find? (!isHash ·) = some t := by
  rw [first, require_eq_ok, ofItems, ← List.head?_eq_getElem?, List.head?_filter]

theorem hasValue_iff {tag : String} {label : Tree} {rest : List Tree} {value : OptionValue} :
    HasValue rest value ↔ .ofTree? ((Tree.tagged tag (label :: rest)).child? 1) = value := by
  cases rest with
  | nil =>
    constructor
    · rintro ⟨⟩
      rfl
    · rintro rfl
      exact .absent
  | cons t rest =>
    by_cases ht : t = .nil
    · subst ht
      constructor
      · rintro (hn | _ | _)
        · exact absurd rfl hn
        · rfl
      · rintro rfl
        exact .empty
    · have hc : (Tree.tagged tag (label :: t :: rest)).child? 1 = some t :=
        Tree.child?_eq_some.mpr ⟨rfl, ht⟩
      rw [hc]
      constructor
      · rintro (_ | _ | _)
        · rfl
        · exact absurd rfl ht
      · rintro rfl
        exact .value ht

theorem readPair_eq_ok {context : Context} {t : Tree} {pair : String × OptionValue} :
    readPair context t = .ok pair ↔ IsPair t pair := by
  constructor
  · intro h
    rw [readPair] at h
    split at h
    · next ht =>
      obtain ⟨children, rfl⟩ := Tree.eq_tagged ht
      obtain ⟨key, hr, rfl⟩ := map_eq_ok.mp h
      obtain ⟨label, rest, rfl, hk⟩ := (Tree.bind_child?_zero rfl).mp (require_eq_ok.mp hr)
      exact .mk (Tree.keyword?_eq_some.mp hk) (hasValue_iff.mpr rfl)
    · cases h
  · rintro ⟨hk, hv⟩
    refine map_eq_ok.mpr ⟨_, require_eq_ok.mpr ?_, congrArg _ (hasValue_iff.mp hv)⟩
    exact (Tree.bind_child?_zero rfl).mpr ⟨_, _, rfl, Tree.keyword?_eq_some.mpr hk⟩

theorem getLast?_filter_eq_some {p : α → Bool} {as : List α} {a : α} :
    (as.filter p).getLast? = some a ↔
      ∃ before after, as = before ++ a :: after ∧ p a ∧ ∀ b ∈ after, ¬p b := by
  rw [← List.head?_reverse, ← List.filter_reverse, List.head?_filter,
    List.find?_eq_some_iff_append]
  constructor
  · rintro ⟨ha, after, before, has, hn⟩
    refine ⟨before.reverse, after.reverse, ?_, ha, by simpa using hn⟩
    rw [← List.reverse_reverse as, has]
    simp
  · rintro ⟨before, after, rfl, ha, hn⟩
    exact ⟨ha, after.reverse, before.reverse, by simp, by simpa using hn⟩

theorem hasPairs_iff {items pairs : List Tree} : HasPairs items pairs ↔
    (Arguments.ofItems items).keywords? = none ∧ pairs = [] ∨
    ∃ hash, (Arguments.ofItems items).keywords? = some hash ∧
      (hash.child? 0).bind Tree.items? = some pairs := by
  constructor
  · rintro (h | h)
    · refine .inl ⟨?_, rfl⟩
      rw [Arguments.ofItems, List.getLast?_eq_none_iff]
      simpa using h
    · exact .inr ⟨_, getLast?_filter_eq_some.mpr ⟨_, _, rfl, rfl, h⟩, rfl⟩
  · rintro (⟨h, rfl⟩ | ⟨hash, h, hp⟩)
    · rw [Arguments.ofItems, List.getLast?_eq_none_iff] at h
      exact .none (by simpa using h)
    · obtain ⟨before, after, rfl, ht, ha⟩ := getLast?_filter_eq_some.mp h
      obtain ⟨children, rfl⟩ := Tree.eq_tagged ht
      obtain ⟨_, rest, rfl, hi⟩ := (Tree.bind_child?_zero rfl).mp hp
      rw [Tree.items?_eq_some.mp hi]
      exact .last ha

theorem HasPairs.unique {items pairs pairs' : List Tree} (h : HasPairs items pairs)
    (h' : HasPairs items pairs') : pairs = pairs' := by
  obtain ⟨hk, hp⟩ | ⟨hash, hk, hp⟩ := hasPairs_iff.mp h <;>
    obtain ⟨hk', hp'⟩ | ⟨hash', hk', hp'⟩ := hasPairs_iff.mp h'
  · rw [hp, hp']
  · cases hk.symm.trans hk'
  · cases hk.symm.trans hk'
  · cases hk.symm.trans hk'
    exact Option.some.inj (hp.symm.trans hp')

theorem readPairs_eq_ok {context : Context} {hash : Tree} {pairs : List (String × OptionValue)} :
    readPairs context hash = .ok pairs ↔
      ∃ items, (hash.child? 0).bind Tree.items? = some items ∧ List.Forall₂ IsPair items pairs := by
  rw [readPairs]
  split
  · next items hi => simp only [hi, mapM_eq_ok, readPair_eq_ok, Option.some.injEq, exists_eq_left']
  · next hi => simp [hi]

theorem Arguments.readKeywords_eq_ok {context : Context} {items : List Tree}
    {options : List (String × OptionValue)} :
    (ofItems items).readKeywords context = .ok options ↔
      ∃ pairs, HasPairs items pairs ∧ List.Forall₂ IsPair pairs options := by
  rw [readKeywords]
  split
  · next hash hk =>
    rw [readPairs_eq_ok]
    refine exists_congr fun pairs => and_congr_left fun _ => ?_
    simp [hasPairs_iff, hk]
  · next hk =>
    simp [hasPairs_iff, hk, eq_comm]

end TableGraph.Definition
