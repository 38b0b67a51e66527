import Mathlib.Data.List.Basic
import TableGraph.Proofs.Dump.Literal
import TableGraph.Text

namespace TableGraph.Dump.Literal

theorem hexDigitValue_digitChar {n : Nat} (h : n < 16) :
    isHexDigit n.digitChar ∧ hexDigitValue n.digitChar = n := by
  have hall : ∀ m : Fin 16,
      isHexDigit m.val.digitChar ∧ hexDigitValue m.val.digitChar = m.val := by decide
  exact hall ⟨n, h⟩

theorem hexValue_append (ds es : List Char) :
    hexValue (ds ++ es) = es.foldl (fun n d => 16 * n + hexDigitValue d) (hexValue ds) := by
  simp [hexValue]

theorem hexValue_toDigits (n : Nat) :
    (∀ d ∈ Nat.toDigits 16 n, isHexDigit d) ∧ hexValue (Nat.toDigits 16 n) = n := by
  induction n using Nat.base_induction 16 (by decide) with
  | single m hm =>
    rw [Nat.toDigits_of_lt_base hm]
    obtain ⟨hd, hv⟩ := hexDigitValue_digitChar hm
    simp [hexValue, hd, hv]
  | digit m k hk hm ih =>
    rw [← Nat.toDigits_append_toDigits (by decide) hm hk, Nat.toDigits_of_lt_base hk]
    obtain ⟨hd, hv⟩ := hexDigitValue_digitChar hk
    constructor
    · intro d hm
      cases List.mem_append.mp hm with
      | inl hm => exact ih.1 d hm
      | inr hm => rw [List.mem_singleton.mp hm]; exact hd
    · rw [hexValue_append, ih.2]
      simp [hv]

theorem writes_escape [Text.Printing] (c : Char) : Writes (Quoted.escape c) (.char c) := by
  rw [Quoted.escape]
  split
  · next h => rw [h]; exact .named (by decide) (by decide)
  split
  · next h => rw [h]; exact .named (by decide) (by decide)
  split
  · next h => rw [h]; exact .named (c := 'n') (by decide) (by decide)
  split
  · next h => rw [h]; exact .named (c := 'r') (by decide) (by decide)
  split
  · next h => rw [h]; exact .named (c := 't') (by decide) (by decide)
  split
  · next h => rw [h]; exact .named (c := '0') (by decide) (by decide)
  split
  · exact .raw ‹_› ‹_›
  · obtain ⟨hd, hv⟩ := hexValue_toDigits c.toNat
    have hw := Writes.braced Nat.toDigits_ne_nil hd (hv.symm ▸ c.valid)
    rwa [hv, Char.ofNat_toNat] at hw

theorem writesAll_escape [Text.Printing] (cs : List Char) :
    WritesAll (cs.flatMap Quoted.escape) (cs.map .char) := by
  induction cs with
  | nil => exact .nil
  | cons c cs ih => exact .cons (writes_escape c) ih

@[simp] theorem text_nil : text [] = [] := by simp [text, join, Utf8.decodeLossy, Utf8.units]

@[simp] theorem text_char (c : Char) (ps : List Piece) :
    text (.char c :: ps) = c :: text ps := by
  simp [text, join, Utf8.decodeLossy, Utf8.units]

theorem text_map_char (cs : List Char) : text (cs.map .char) = cs := by
  induction cs with
  | nil => exact text_nil
  | cons c cs ih => rw [List.map_cons, text_char, ih]

def Quotes (cs : List Char) (s : String) : Prop :=
  ∃ es ps, WritesAll es ps ∧ cs = '"' :: (es ++ ['"']) ∧ s.toList = text ps

theorem quotes_encode [Text.Printing] (s : String) : Quotes (Quoted.encode s.toList) s :=
  ⟨_, _, writesAll_escape s.toList, rfl, (text_map_char s.toList).symm⟩

theorem takeText_quotes {cs : List Char} {s : String} (h : Quotes cs s) (rest : List Char) :
    ∃ body, cs ++ rest = '"' :: body ∧ takeText body = .ok (s, rest) := by
  obtain ⟨es, ps, he, rfl, hs⟩ := h
  refine ⟨es ++ '"' :: rest, by simp, takeText_eq_ok_iff.mpr ⟨es, ps, he, rfl, hs⟩⟩

end TableGraph.Dump.Literal
