import Mathlib.Data.List.Induction
import TableGraph.Decimal
import TableGraph.Proofs.Text

namespace TableGraph.Decimal

inductive Numeral : List Char → Nat → Prop
  | digit : c.isDigit → Numeral [c] (c.toNat - '0'.toNat)
  | next : Numeral ds n → c.isDigit → Numeral (ds ++ [c]) (10 * n + (c.toNat - '0'.toNat))

inductive Whole : List Char → Int → Prop
  | plain : Numeral ds n → Whole ds n
  | minus : Numeral ds n → Whole ('-' :: ds) (-n)

def Digits (ds : List Char) : Prop := ds ≠ [] ∧ ∀ d ∈ ds, d.isDigit

inductive Mantissa : List Char → Prop
  | whole : Digits ds → Mantissa ds
  | point : Digits ds → (∀ d ∈ places, d.isDigit) → Mantissa (ds ++ '.' :: places)
  | fraction : Digits places → Mantissa ('.' :: places)

inductive Exponent : List Char → Prop
  | none : Exponent []
  | some : e = 'e' ∨ e = 'E' → sign = [] ∨ sign = ['+'] ∨ sign = ['-'] → Digits ds →
      Exponent (e :: (sign ++ ds))

inductive IsDecimal : List Char → Prop
  | plain : Mantissa ms → Exponent es → IsDecimal (ms ++ es)
  | minus : Mantissa ms → Exponent es → IsDecimal ('-' :: (ms ++ es))

theorem natural?_eq_some {ds : List Char} {n : Nat} :
    natural? ds = some n ↔ Digits ds ∧ natural ds = n := by
  simp [natural?, Digits]

theorem natural?_isSome {ds : List Char} : (natural? ds).isSome ↔ Digits ds := by
  simp [natural?, Digits]

theorem Numeral.digits {ds : List Char} {n : Nat} (h : Numeral ds n) :
    Digits ds ∧ natural ds = n := by
  induction h with
  | digit hc => exact ⟨⟨nofun, by simpa using hc⟩, by simp [natural, Nat.ofDigitChars_cons]⟩
  | next _ hc ih =>
    obtain ⟨⟨_, hd⟩, hv⟩ := ih
    refine ⟨⟨by simp, List.forall_mem_append.mpr ⟨hd, by simpa using hc⟩⟩, ?_⟩
    rw [natural, Nat.ofDigitChars_append, ← natural, hv]
    rfl

theorem numeral_natural {ds : List Char} (h : Digits ds) : Numeral ds (natural ds) := by
  obtain ⟨hn, hd⟩ := h
  induction ds using List.reverseRecOn with
  | nil => exact absurd rfl hn
  | append_singleton ds c ih =>
    obtain ⟨hd, hc⟩ := List.forall_mem_append.mp hd
    have hc : c.isDigit := hc c List.mem_cons_self
    by_cases he : ds = []
    · subst he
      have h : Numeral [c] (c.toNat - '0'.toNat) := .digit hc
      rwa [← h.digits.2] at h
    · have h := Numeral.next (ih he hd) hc
      rwa [← h.digits.2] at h

theorem natural?_eq_some_iff_numeral {ds : List Char} {n : Nat} :
    natural? ds = some n ↔ Numeral ds n := by
  rw [natural?_eq_some]
  refine ⟨?_, Numeral.digits⟩
  rintro ⟨hd, rfl⟩
  exact numeral_natural hd

theorem takeSign_of_head {cs : List Char} (h : cs.head? ≠ some '-') :
    takeSign cs = (false, cs) := by
  rw [takeSign]
  rintro rest rfl
  exact h rfl

theorem Digits.head_ne {ds : List Char} (h : Digits ds) {c : Char} (hc : c.isDigit = false)
    (rest : List Char) : (ds ++ rest).head? ≠ some c := by
  obtain ⟨hn, hd⟩ := h
  obtain ⟨d, ds, rfl⟩ := List.exists_cons_of_ne_nil hn
  rintro ⟨⟩
  cases hc.symm.trans (hd c List.mem_cons_self)

theorem whole_iff {word : List Char} {v : Int} :
    Whole word v ↔ ∃ n, natural? (takeSign word).2 = some n ∧
      v = if (takeSign word).1 then -(n : Int) else n := by
  constructor
  · intro h
    cases h with
    | plain h =>
      rename_i n
      have hs : takeSign word = (false, word) :=
        takeSign_of_head (by simpa using h.digits.1.head_ne rfl [])
      rw [hs]
      exact ⟨n, natural?_eq_some_iff_numeral.mpr h, rfl⟩
    | minus h => exact ⟨_, natural?_eq_some_iff_numeral.mpr h, rfl⟩
  · rintro ⟨n, h, rfl⟩
    rw [natural?_eq_some_iff_numeral] at h
    by_cases hs : word.head? = some '-'
    · obtain ⟨cs, rfl⟩ := List.head?_eq_some_iff.mp hs
      exact .minus h
    · rw [takeSign_of_head hs] at h ⊢
      exact .plain h

theorem integer?_eq_some {word : List Char} {i : Int64} :
    integer? word = some i ↔ Whole word i.toInt := by
  rw [whole_iff]
  simp only [integer?, Option.bind_eq_some_iff]
  refine exists_congr fun n => and_congr_right fun _ => ?_
  generalize (if (takeSign word).1 then -(n : Int) else n) = value
  constructor
  · intro h
    split at h
    · next hv =>
      cases h
      have hlt : value < 2 ^ 63 := Int.lt_of_le_sub_one hv.2
      exact Int64.toInt_ofInt_of_le hv.1 hlt
    · cases h
  · rintro rfl
    rw [if_pos ⟨i.minValue_le_toInt, i.toInt_le⟩, Int64.ofInt_toInt]

theorem isSome_intCast (o : Option Nat) :
    (do return (← o : Int) : Option Int).isSome = o.isSome := by
  cases o <;> rfl

theorem exponent?_isSome {es : List Char} : (exponent? es).isSome ↔ Exponent es := by
  constructor
  · intro h
    rw [exponent?.eq_def] at h
    split at h
    · exact .none
    split at h
    · next he =>
      split at h
      · rw [Option.isSome_map, isSome_intCast, natural?_isSome] at h
        have hx := Exponent.some he (.inr (.inr rfl)) h
        exact hx
      · rw [Option.isSome_map, isSome_intCast, natural?_isSome] at h
        have hx := Exponent.some he (.inr (.inl rfl)) h
        exact hx
      · rw [Option.isSome_map, isSome_intCast, natural?_isSome] at h
        have hx := Exponent.some he (.inl rfl) h
        exact hx
    · cases h
  · intro h
    cases h with
    | none => rfl
    | some he hs hd =>
      rename_i e sign ds
      rw [← natural?_isSome] at hd
      obtain rfl | rfl | rfl := hs
      · rw [List.nil_append, exponent?, if_pos he, Option.isSome_map, isSome_intCast]
        · exact hd
        · rintro _ rfl
          cases hd
        · rintro _ rfl
          cases hd
      · change (exponent? (e :: '+' :: ds)).isSome
        rw [exponent?, if_pos he, Option.isSome_map, isSome_intCast]
        exact hd
      · change (exponent? (e :: '-' :: ds)).isSome
        rw [exponent?, if_pos he, Option.isSome_map, isSome_intCast]
        exact hd

theorem decimal?_isSome_whole {ds rest : List Char} (hd : ∀ d ∈ ds, d.isDigit)
    (hr : ∀ c ∈ rest.head?, c.isDigit = false) (hp : rest.head? ≠ some '.') :
    (decimal? (ds ++ rest)).isSome ↔ ds ≠ [] ∧ Exponent rest := by
  simp only [decimal?, Text.takeWhile_span hd hr, Text.dropWhile_span hd hr]
  split
  · next h => exact absurd rfl hp
  · by_cases hn : ds = []
    · simp [hn]
    · simp [hn, exponent?_isSome]

theorem decimal?_isSome_point {ds places rest : List Char} (hd : ∀ d ∈ ds, d.isDigit)
    (hp : ∀ d ∈ places, d.isDigit) (hr : ∀ c ∈ rest.head?, c.isDigit = false) :
    (decimal? (ds ++ '.' :: (places ++ rest))).isSome ↔
      (ds ≠ [] ∨ places ≠ []) ∧ Exponent rest := by
  have hpoint : ∀ c ∈ ('.' :: (places ++ rest)).head?, c.isDigit = false := by
    rintro c ⟨⟩
    rfl
  simp only [decimal?, Text.takeWhile_span hd hpoint, Text.dropWhile_span hd hpoint,
    Text.takeWhile_span hp hr, Text.dropWhile_span hp hr]
  by_cases hn : ds = []
  · by_cases hm : places = []
    · simp [hn, hm]
    · simp [hn, hm, exponent?_isSome]
  · simp [hn, exponent?_isSome]

theorem Exponent.head {es : List Char} (h : Exponent es) :
    ∀ c ∈ es.head?, c.isDigit = false ∧ c ≠ '.' := by
  cases h with
  | none => nofun
  | some he =>
    rintro c ⟨⟩
    obtain rfl | rfl := he <;> decide

theorem decimal?_isSome {cs : List Char} :
    (decimal? cs).isSome ↔ ∃ ms es, cs = ms ++ es ∧ Mantissa ms ∧ Exponent es := by
  constructor
  · intro h
    obtain ⟨ds, rest, rfl, hd, hr⟩ := Text.exists_span Char.isDigit cs
    by_cases hp : rest.head? = some '.'
    · obtain ⟨rest, rfl⟩ := List.head?_eq_some_iff.mp hp
      obtain ⟨places, es, rfl, hp, hr⟩ := Text.exists_span Char.isDigit rest
      obtain ⟨hn, he⟩ := (decimal?_isSome_point hd hp hr).mp h
      by_cases hds : ds = []
      · rw [hds] at hn ⊢
        exact ⟨'.' :: places, es, rfl, .fraction ⟨hn.resolve_left (absurd rfl), hp⟩, he⟩
      · exact ⟨ds ++ '.' :: places, es, by simp, .point ⟨hds, hd⟩ hp, he⟩
    · obtain ⟨hn, he⟩ := (decimal?_isSome_whole hd hr hp).mp h
      exact ⟨ds, rest, rfl, .whole ⟨hn, hd⟩, he⟩
  · rintro ⟨ms, es, rfl, hm, he⟩
    have hr : ∀ c ∈ es.head?, c.isDigit = false := fun c hc => (he.head c hc).1
    cases hm with
    | whole h =>
      exact (decimal?_isSome_whole h.2 hr fun hc => (he.head _ hc).2 rfl).mpr ⟨h.1, he⟩
    | point h hp =>
      rw [List.append_assoc, List.cons_append]
      exact (decimal?_isSome_point h.2 hp hr).mpr ⟨.inl h.1, he⟩
    | fraction h =>
      have hd : ∀ d ∈ [], Char.isDigit d := nofun
      exact (decimal?_isSome_point hd h.2 hr).mpr ⟨.inr h.1, he⟩

theorem Mantissa.head_ne {ms : List Char} (h : Mantissa ms) (es : List Char) :
    (ms ++ es).head? ≠ some '-' := by
  cases h with
  | whole h => exact h.head_ne rfl es
  | point h =>
    rw [List.append_assoc]
    exact h.head_ne rfl _
  | fraction h => nofun

theorem float?_isSome {word : List Char} : (float? word).isSome ↔ IsDecimal word := by
  rw [float?, Option.isSome_map, decimal?_isSome]
  constructor
  · rintro ⟨ms, es, hw, hm, he⟩
    by_cases hs : word.head? = some '-'
    · obtain ⟨cs, rfl⟩ := List.head?_eq_some_iff.mp hs
      cases hw
      exact .minus hm he
    · rw [takeSign_of_head hs] at hw
      cases hw
      exact .plain hm he
  · intro h
    cases h with
    | plain hm he =>
      rw [takeSign_of_head (hm.head_ne _)]
      exact ⟨_, _, rfl, hm, he⟩
    | minus hm he => exact ⟨_, _, rfl, hm, he⟩

end TableGraph.Decimal
