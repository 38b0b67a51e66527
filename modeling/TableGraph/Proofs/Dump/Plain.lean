import Mathlib.Data.List.TakeWhile
import TableGraph.Dump.Tokens
import TableGraph.Proofs.Dump.Lead

namespace TableGraph.Dump

def IsPlain (text : String) : Prop :=
  text = "[]" ∨ text = "[]=" ∨ (text.toList ≠ [] ∧ text.toList.head? ≠ some '"' ∧
    ∀ c ∈ text.toList, !Text.isBlank c ∧ c ≠ ',' ∧ c ≠ '[' ∧ c ≠ ']')

def EndsWord (rest : List Char) : Prop :=
  ∀ c ∈ rest.head?, Text.isBlank c ∨ c = ',' ∨ c = '[' ∨ c = ']'

theorem endsWord_cons {c : Char} (hc : Text.isBlank c ∨ c = ',' ∨ c = '[' ∨ c = ']')
    (rest : List Char) : EndsWord (c :: rest) := by
  intro d hd
  cases hd
  exact hc

theorem Closed.endsWord {rest : List Char} (hr : Closed rest) : EndsWord rest := by
  intro c hc
  cases hr c hc with
  | inl h => exact .inr (.inl h)
  | inr h => exact .inr (.inr (.inr h))

instance (text : String) : Decidable (IsPlain text) :=
  decidable_of_iff (text = "[]" ∨ text = "[]=" ∨
    (text.toList ≠ [] ∧ text.toList.head? ≠ some '"' ∧
      text.toList.all fun c => !Text.isBlank c && c != ',' && c != '[' && c != ']'))
    (by simp [IsPlain, and_assoc])

namespace Token

theorem takeWord_append {word rest : List Char} (hw : ∀ c ∈ word, !isDelimiter c)
    (hr : EndsWord rest) : takeWord (word ++ rest) = (word, rest) := by
  rw [takeWord, List.takeWhile_append_of_pos hw, List.dropWhile_append_of_pos hw]
  cases rest with
  | nil => simp
  | cons c rest =>
    have hc : isDelimiter c := by simpa [isDelimiter, or_assoc] using hr c rfl
    simp [hc]

theorem not_isDelimiter_iff {c : Char} :
    !isDelimiter c ↔ !Text.isBlank c ∧ c ≠ ',' ∧ c ≠ '[' ∧ c ≠ ']' := by
  simp [isDelimiter, and_assoc]

theorem takeSymbol_word {c : Char} (hq : c ≠ '"') (hb : c ≠ '[') (cs : List Char) :
    takeSymbol (c :: cs) =
      if (takeWord (c :: cs)).1.isEmpty then .error (.unexpectedChar ':')
      else .ok (.ofList (takeWord (c :: cs)).1, (takeWord (c :: cs)).2) := by
  rw [takeSymbol]
  · intro _ h
    exact hq (List.cons.inj h).1
  · intro _ h
    exact hb (List.cons.inj h).1
  · intro _ h
    exact hb (List.cons.inj h).1
  · intro _ h
    exact hb (List.cons.inj h).1

theorem takeSymbol_brackets {rest : List Char} (hr : rest.head? ≠ some '=') :
    takeSymbol ('[' :: ']' :: rest) = .ok ("[]", rest) := by
  rw [takeSymbol]
  intro cs hc
  rw [hc] at hr
  exact hr rfl

theorem takeSymbol_plain {s : String} (hs : IsPlain s) {rest : List Char} (hr : EndsWord rest) :
    takeSymbol (s.toList ++ rest) = .ok (s, rest) := by
  obtain rfl | rfl | ⟨hn, hq, hd⟩ := hs
  · apply takeSymbol_brackets
    intro he
    exact absurd (hr '=' he) (by decide)
  · rfl
  · obtain ⟨c, cs, hc⟩ := List.exists_cons_of_ne_nil hn
    have hw : takeWord (s.toList ++ rest) = (s.toList, rest) :=
      takeWord_append (fun c h => not_isDelimiter_iff.mpr (hd c h)) hr
    have hq' : c ≠ '"' := fun h => hq (by rw [hc, h]; rfl)
    have hb : c ≠ '[' := (hd c (by rw [hc]; exact List.mem_cons_self)).2.2.1
    rw [hc, List.cons_append] at hw
    rw [hc, List.cons_append, takeSymbol_word hq' hb, hw, ← hc]
    simp [hn]

theorem plain_of_takeSymbol {s : String} {rest rest' : List Char} (hr : Closed rest)
    (h : takeSymbol (s.toList ++ rest) = .ok (s, rest')) : IsPlain s := by
  generalize hcs : s.toList ++ rest = cs at h
  unfold takeSymbol at h
  split at h
  · next v =>
    cases hs : s.toList with
    | nil =>
      rw [hs, List.nil_append] at hcs
      rw [hcs] at hr
      exact absurd (hr '"' rfl) (by decide)
    -- Quoted text that spells itself behind the quote: there is none.
    | cons c v' =>
      rw [hs, List.cons_append] at hcs
      cases hcs
      exact absurd hs (Literal.takeText_ne hr h)
  · cases h
    exact .inr (.inl rfl)
  · cases h
    exact .inl rfl
  · cases h
  · simp only at h
    split at h
    · cases h
    · next hq _ _ _ hw =>
      have hs : s.toList = (takeWord cs).1 := by
        cases h
        exact String.toList_ofList
      refine .inr (.inr ⟨by simpa [hs] using hw, ?_, ?_⟩)
      · intro hh
        obtain ⟨v, hv⟩ := List.head?_eq_some_iff.mp hh
        exact hq (v ++ rest) (by rw [← hcs, hv]; rfl)
      · intro c hc
        rw [hs] at hc
        have hd : !isDelimiter c := List.mem_takeWhile_imp (p := (!isDelimiter ·)) hc
        exact not_isDelimiter_iff.mp hd

end Token

end TableGraph.Dump
