import Mathlib.Data.List.Induction
import Mathlib.Data.List.Nodup
import TableGraph.Schema

namespace TableGraph

theorem not_mem_map_of_nodup {f : α → β} {as bs : List α} {a : α}
    (h : ((as ++ a :: bs).map f).Nodup) : f a ∉ as.map f := by
  rw [List.map_append, List.nodup_append] at h
  exact fun hm => h.2.2 (f a) hm (f a) List.mem_cons_self rfl

theorem nodup_ite_concat [DecidableEq α] {as : List α} (h : as.Nodup) (a : α) :
    (if a ∈ as then as else as ++ [a]).Nodup := by
  split
  · exact h
  · next ha =>
    rw [← List.concat_eq_append]
    exact h.concat ha

theorem eraseDups_concat (names : List String) (name : String) :
    (names ++ [name]).eraseDups =
      if name ∈ names then names.eraseDups else names.eraseDups ++ [name] := by
  rw [List.eraseDups_append]
  split
  · next h => simp [List.removeAll, h]
  · next h => simp [List.removeAll, h, List.eraseDups_cons]

theorem nodup_eraseDups (names : List String) : names.eraseDups.Nodup := by
  induction names using List.reverseRecOn with
  | nil => exact List.nodup_nil
  | append_singleton names name ih =>
    have hn := nodup_ite_concat ih name
    simp only [List.mem_eraseDups] at hn
    rw [eraseDups_concat]
    exact hn

namespace Schema

def names (s : Schema) : List String := s.tables.map (·.name)

theorem isSome_get? (s : Schema) (name : String) : (s.get? name).isSome ↔ name ∈ s.names := by
  simp [get?, names, List.find?_isSome]

theorem names_update (s : Schema) {name : String} {f : Table → Table}
    (hf : ∀ t, t.name = name → (f t).name = name) : (s.update name f).names = s.names := by
  obtain ⟨ts⟩ := s
  simp only [update, names]
  induction ts with
  | nil => rfl
  | cons t ts ih =>
    rw [updateIn]
    split
    · next ht => simp [hf t ht, ht]
    · simp [ih]

theorem names_addReference (s : Schema) (source target : String) :
    (s.update source (·.addReference target)).names = s.names :=
  names_update s fun _ ht => ht

theorem mem_update {s : Schema} (h : s.names.Nodup) (name : String) (f : Table → Table)
    (u : Table) : u ∈ (s.update name f).tables ↔
      (∃ t ∈ s.tables, t.name = name ∧ u = f t) ∨ u ∈ s.tables ∧ u.name ≠ name := by
  obtain ⟨ts⟩ := s
  simp only [update, names] at h ⊢
  induction ts with
  | nil => simp [updateIn]
  | cons v vs ih =>
    rw [List.map_cons, List.nodup_cons] at h
    rw [updateIn]
    by_cases hn : v.name = name
    · have hu : ∀ t ∈ vs, t.name ≠ name := by
        intro t ht he
        rw [hn, ← he] at h
        exact h.1 (List.mem_map_of_mem ht)
      simp only [hn, ↓reduceIte, List.mem_cons]
      constructor
      · rintro (rfl | hm)
        · exact .inl ⟨v, .inl rfl, hn, rfl⟩
        · exact .inr ⟨.inr hm, hu u hm⟩
      · rintro (⟨t, rfl | ht, he, rfl⟩ | ⟨rfl | hm, he⟩)
        · exact .inl rfl
        · exact absurd he (hu t ht)
        · exact absurd hn he
        · exact .inr hm
    · simp only [hn, ↓reduceIte, List.mem_cons, ih h.2]
      constructor
      · rintro (rfl | ⟨t, ht, he, rfl⟩ | ⟨hm, he⟩)
        · exact .inr ⟨.inl rfl, hn⟩
        · exact .inl ⟨t, .inr ht, he, rfl⟩
        · exact .inr ⟨.inr hm, he⟩
      · rintro (⟨t, rfl | ht, he, rfl⟩ | ⟨rfl | hm, he⟩)
        · exact absurd he hn
        · exact .inr (.inl ⟨t, ht, he, rfl⟩)
        · exact .inl rfl
        · exact .inr (.inr ⟨hm, he⟩)

theorem insert_of_mem {s : Schema} {t : Table} (h : t.name ∈ s.names) :
    s.insert t = s.update t.name fun _ => t := by
  obtain ⟨ts⟩ := s
  simp only [insert, update, mk.injEq]
  induction ts with
  | nil => simp [names] at h
  | cons u us ih =>
    rw [insertIn, updateIn]
    split
    · rfl
    · next hu =>
      have hn : t.name ≠ u.name := Ne.symm hu
      rw [ih (by simpa [names, hn] using h)]

theorem insert_of_not_mem {s : Schema} {t : Table} (h : t.name ∉ s.names) :
    s.insert t = ⟨s.tables ++ [t]⟩ := by
  obtain ⟨ts⟩ := s
  simp only [insert, mk.injEq]
  induction ts with
  | nil => rfl
  | cons u us ih =>
    simp only [names, List.map_cons, List.mem_cons, not_or] at h
    rw [insertIn, if_neg (Ne.symm h.1), ih h.2, List.cons_append]

theorem update_append {ts us : List Table} {t : Table} (h : t.name ∉ ts.map Table.name)
    (f : Table → Table) : update ⟨ts ++ t :: us⟩ t.name f = ⟨ts ++ f t :: us⟩ := by
  simp only [update, mk.injEq]
  induction ts with
  | nil => simp [updateIn]
  | cons v vs ih =>
    rw [List.map_cons, List.mem_cons, not_or] at h
    rw [List.cons_append, updateIn, if_neg (Ne.symm h.1), ih h.2, List.cons_append]

theorem names_insert (s : Schema) (t : Table) :
    (s.insert t).names = if t.name ∈ s.names then s.names else s.names ++ [t.name] := by
  split
  · next h => rw [insert_of_mem h, names_update s fun _ _ => rfl]
  · next h => simp [insert_of_not_mem h, names]

theorem mem_insert {s : Schema} (h : s.names.Nodup) (t u : Table) :
    u ∈ (s.insert t).tables ↔ u = t ∨ u ∈ s.tables ∧ u.name ≠ t.name := by
  by_cases ht : t.name ∈ s.names
  · obtain ⟨v, hv, hn⟩ := List.mem_map.mp ht
    rw [insert_of_mem ht, mem_update h]
    constructor
    · rintro (⟨_, _, _, rfl⟩ | hu)
      · exact .inl rfl
      · exact .inr hu
    · rintro (rfl | hu)
      · exact .inl ⟨v, hv, hn, rfl⟩
      · exact .inr hu
  · have hu : u ∈ s.tables → u.name ≠ t.name := by
      intro hu he
      exact ht (he ▸ List.mem_map_of_mem hu)
    rw [insert_of_not_mem ht, List.mem_append, List.mem_singleton]
    constructor
    · rintro (hm | rfl)
      · exact .inr ⟨hm, hu hm⟩
      · exact .inl rfl
    · rintro (rfl | hm)
      · exact .inr rfl
      · exact .inl hm.1

end Schema

end TableGraph
