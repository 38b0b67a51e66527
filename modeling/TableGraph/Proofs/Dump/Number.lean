import Mathlib.Data.List.Basic
import TableGraph.Dump.Tokens

namespace TableGraph.Dump

def padded (zeros : Nat) (n : Int) : List Char :=
  (if n < 0 then ['-'] else []) ++ (List.replicate zeros '0' ++ Nat.toDigits 10 n.natAbs)

def WritesInt (word : List Char) (n : Int64) : Prop :=
  word.head? ≠ some '_' ∧ ∃ zeros, word.filter (· ≠ '_') = padded zeros n.toInt

namespace Token

open Decimal

theorem padded_zero (n : Int) : padded 0 n = writeInt n := by
  rw [padded, writeInt]
  split <;> rfl

theorem isDigit_of_mem_zeros {zeros n : Nat} {c : Char}
    (h : c ∈ List.replicate zeros '0' ++ Nat.toDigits 10 n) : c.isDigit := by
  cases List.mem_append.mp h with
  | inl h => rw [List.eq_of_mem_replicate h]; rfl
  | inr h => exact Nat.isDigit_of_mem_toDigits (by decide) (by decide) h

theorem ofDigitChars_zeros (zeros n : Nat) :
    Nat.ofDigitChars 10 (List.replicate zeros '0' ++ Nat.toDigits 10 n) 0 = n := by
  induction zeros with
  | zero => exact Nat.ofDigitChars_toDigits (by decide) (by decide)
  | succ zeros ih =>
    rw [List.replicate_succ, List.cons_append, Nat.ofDigitChars_cons]
    exact ih

theorem natural?_zeros (zeros n : Nat) :
    natural? (List.replicate zeros '0' ++ Nat.toDigits 10 n) = some n := by
  have hd : (List.replicate zeros '0' ++ Nat.toDigits 10 n).all Char.isDigit :=
    List.all_eq_true.mpr fun c hc => isDigit_of_mem_zeros hc
  simp [natural?, natural, hd, ofDigitChars_zeros, Nat.toDigits_ne_nil]

theorem takeSign_zeros (zeros n : Nat) :
    takeSign (List.replicate zeros '0' ++ Nat.toDigits 10 n) =
      (false, List.replicate zeros '0' ++ Nat.toDigits 10 n) := by
  rw [takeSign]
  intro cs hc
  have hd : '-'.isDigit := isDigit_of_mem_zeros (by rw [hc]; exact List.mem_cons_self)
  cases hd

theorem integer?_padded (zeros : Nat) (n : Int64) : integer? (padded zeros n.toInt) = some n := by
  have hmin : Int64.minValue.toInt ≤ n.toInt := n.minValue_le_toInt
  have hmax : n.toInt ≤ Int64.maxValue.toInt := n.toInt_le
  rw [padded]
  split
  · next hn =>
    have hv : -(n.toInt.natAbs : Int) = n.toInt := by omega
    simp only [integer?, List.singleton_append, takeSign, natural?_zeros, ↓reduceIte,
      Option.bind_some, hv]
    rw [if_pos ⟨hmin, hmax⟩, Int64.ofInt_toInt]
  · next hn =>
    have hv : (n.toInt.natAbs : Int) = n.toInt := by omega
    simp only [integer?, List.nil_append, takeSign_zeros, natural?_zeros, Bool.false_eq_true,
      ↓reduceIte, Option.bind_some, hv]
    rw [if_pos ⟨hmin, hmax⟩, Int64.ofInt_toInt]

theorem mem_padded {zeros : Nat} {n : Int} {c : Char} (h : c ∈ padded zeros n) :
    c.isDigit ∨ c = '-' := by
  rw [padded] at h
  cases List.mem_append.mp h with
  | inl h =>
    split at h
    · exact .inr (List.mem_singleton.mp h)
    · cases h
  | inr h => exact .inl (isDigit_of_mem_zeros h)

theorem padded_ne_nil (zeros : Nat) (n : Int) : padded zeros n ≠ [] := by
  simp [padded, Nat.toDigits_ne_nil]

theorem ofNumber_of_filter {word : List Char} {zeros : Nat} {n : Int64}
    (h : word.filter (· ≠ '_') = padded zeros n.toInt) : ofNumber word = .ok (.int n) := by
  have hp : (padded zeros n.toInt).any (fun c => c == '.' || c == 'e' || c == 'E') = false := by
    rw [List.any_eq_false]
    intro c hc
    have hne : ∀ d : Char, ¬d.isDigit → d ≠ '-' → c ≠ d := by
      intro d hd hm he
      cases mem_padded hc with
      | inl h => exact hd (he ▸ h)
      | inr h => exact hm (he ▸ h)
    simp [hne '.' (by decide) (by decide), hne 'e' (by decide) (by decide),
      hne 'E' (by decide) (by decide)]
  simp only [ofNumber, h, hp, Bool.false_eq_true, ↓reduceIte, integer?_padded, Option.map_some]

theorem exists_cons_of_writesInt {word : List Char} {n : Int64} (h : WritesInt word n) :
    ∃ c cs, word = c :: cs ∧ (c.isDigit ∨ c = '-') ∧
      ∀ d ∈ c :: cs, (d.isDigit ∨ d = '-') ∨ d = '_' := by
  obtain ⟨hh, zeros, hf⟩ := h
  have hm : ∀ d ∈ word, (d.isDigit ∨ d = '-') ∨ d = '_' := by
    intro d hd
    by_cases hu : d = '_'
    · exact .inr hu
    · have hd : d ∈ word.filter (· ≠ '_') := List.mem_filter.mpr ⟨hd, by simpa using hu⟩
      rw [hf] at hd
      exact .inl (mem_padded hd)
  cases word with
  | nil => exact absurd hf.symm (padded_ne_nil zeros n.toInt)
  | cons c cs =>
    refine ⟨c, cs, rfl, (hm c List.mem_cons_self).resolve_right ?_, hm⟩
    intro hu
    exact hh (congrArg some hu)

theorem writesInt_writeInt (n : Int64) : WritesInt (writeInt n.toInt) n := by
  rw [← padded_zero]
  have hu : ∀ c ∈ padded 0 n.toInt, c ≠ '_' := by
    intro c hc he
    rw [he] at hc
    exact absurd (mem_padded hc) (by decide)
  refine ⟨?_, 0, List.filter_eq_self.mpr fun c hc => by simpa using hu c hc⟩
  intro hh
  exact hu '_' (List.mem_of_mem_head? hh) rfl

end Token

end TableGraph.Dump
