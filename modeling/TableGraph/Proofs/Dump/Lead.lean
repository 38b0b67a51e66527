import Mathlib.Data.List.Basic
import TableGraph.Proofs.Dump.Quoted

/-! No text that begins with a quote spells itself behind that quote, even with what follows it in
an array. -/

namespace TableGraph.Dump

def Closed (rest : List Char) : Prop := ∀ c ∈ rest.head?, c = ',' ∨ c = ']'

theorem closed_nil : Closed [] := nofun

theorem closed_comma (rest : List Char) : Closed (',' :: rest) := by
  intro c hc
  exact .inl (Option.some.inj hc).symm

theorem closed_bracket (rest : List Char) : Closed (']' :: rest) := by
  intro c hc
  exact .inr (Option.some.inj hc).symm

namespace Literal

def IsCode (c : Char) : Prop := c ∈ ['"', '\\', 'x', 'u', '\x7b', '\x7d'] ∨ isHexDigit c

instance (c : Char) : Decidable (IsCode c) := inferInstanceAs (Decidable (_ ∨ _))

theorem isHexDigit_bounds {c : Char} (h : isHexDigit c) : 0x30 ≤ c.toNat ∧ c.toNat ≤ 0x66 := by
  simp only [isHexDigit, Char.isDigit, Bool.or_eq_true, Bool.and_eq_true, decide_eq_true_eq,
    Char.le_def, UInt32.le_iff_toNat_le, ge_iff_le] at h
  change (48 ≤ c.toNat ∧ c.toNat ≤ 57 ∨ 97 ≤ c.toNat ∧ c.toNat ≤ 102) ∨
    65 ≤ c.toNat ∧ c.toNat ≤ 70 at h
  omega

theorem isCode_bounds {c : Char} (h : IsCode c) : 0 < c.toNat ∧ c.toNat < 0x80 := by
  cases h with
  | inl h =>
    simp only [List.mem_cons, List.not_mem_nil, or_false] at h
    rcases h with rfl | rfl | rfl | rfl | rfl | rfl <;> decide
  | inr h =>
    have := isHexDigit_bounds h
    omega

theorem not_isCode_ofNat {n : Nat} (h : 0x80 ≤ n) : ¬IsCode (.ofNat n) := by
  intro hc
  have hb := isCode_bounds hc
  by_cases hn : n.isValidChar
  · have hv : (Char.ofNatAux n hn).toNat = n := rfl
    rw [Char.ofNat, dif_pos hn] at hb
    omega
  · rw [Char.ofNat, dif_neg hn] at hb
    exact absurd hb (by decide)

theorem not_isCode_ofTwo {a b : UInt8} (h : 0xC2 ≤ a && a ≤ 0xDF) :
    ¬IsCode (Utf8.ofTwo a b) := by
  simp only [Bool.and_eq_true, decide_eq_true_eq, UInt8.le_iff_toNat_le] at h
  change 194 ≤ a.toNat ∧ a.toNat ≤ 223 at h
  exact not_isCode_ofNat (by omega)

theorem not_isCode_ofThree {a b c : UInt8} (h : 0xE0 ≤ a && a ≤ 0xEF)
    (hb : Utf8.isSecondOfThree a b) : ¬IsCode (Utf8.ofThree a b c) := by
  simp only [Bool.and_eq_true, decide_eq_true_eq, UInt8.le_iff_toNat_le] at h
  change 224 ≤ a.toNat ∧ a.toNat ≤ 239 at h
  apply not_isCode_ofNat
  by_cases ha : a = 0xE0
  · rw [Utf8.isSecondOfThree, if_pos ha] at hb
    simp only [Bool.and_eq_true, decide_eq_true_eq, UInt8.le_iff_toNat_le] at hb
    change 160 ≤ b.toNat ∧ b.toNat ≤ 191 at hb
    omega
  · have hn : a.toNat ≠ 224 := fun he => ha (UInt8.toNat_inj.mp he)
    omega

theorem not_isCode_ofFour {a b c d : UInt8} (h : 0xF0 ≤ a && a ≤ 0xF4)
    (hb : Utf8.isSecondOfFour a b) : ¬IsCode (Utf8.ofFour a b c d) := by
  simp only [Bool.and_eq_true, decide_eq_true_eq, UInt8.le_iff_toNat_le] at h
  change 240 ≤ a.toNat ∧ a.toNat ≤ 244 at h
  apply not_isCode_ofNat
  by_cases ha : a = 0xF0
  · rw [Utf8.isSecondOfFour, if_pos ha] at hb
    simp only [Bool.and_eq_true, decide_eq_true_eq, UInt8.le_iff_toNat_le] at hb
    change 144 ≤ b.toNat ∧ b.toNat ≤ 191 at hb
    omega
  · have hn : a.toNat ≠ 240 := fun he => ha (UInt8.toNat_inj.mp he)
    omega

theorem map_getD_head {u : Option Char} (h : ¬IsCode (u.getD '\ufffd'))
    (us : List (Option Char)) :
    ∃ c cs, (u :: us).map (·.getD '\ufffd') = c :: cs ∧ ¬IsCode c :=
  ⟨_, _, rfl, h⟩

theorem decodeLossy_head {b : UInt8} (h : ¬b < 0x80) (bs : List UInt8) :
    ∃ c cs, Utf8.decodeLossy (b :: bs) = c :: cs ∧ ¬IsCode c := by
  have hr : ¬IsCode (Option.getD none '\ufffd') := by decide
  have hs : ∀ {c}, ¬IsCode c → ¬IsCode ((some c).getD '\ufffd') := id
  generalize hl : b :: bs = l
  rw [Utf8.decodeLossy]
  fun_cases Utf8.units l with
  | case1 => cases hl
  | case2 a bs ha => cases hl; exact absurd ha h
  | case3 a _ ha => exact map_getD_head (hs (not_isCode_ofTwo ha)) _
  | case6 a _ _ ha b hb => exact map_getD_head (hs (not_isCode_ofThree ha hb)) _
  | case11 a _ _ _ ha b hb => exact map_getD_head (hs (not_isCode_ofFour ha hb)) _
  | _ => exact map_getD_head hr _

theorem decodeLossy_ascii {b : UInt8} (h : b < 0x80) (bs : List UInt8) :
    Utf8.decodeLossy (b :: bs) = .ofNat b.toNat :: Utf8.decodeLossy bs := by
  rw [Utf8.decodeLossy, Utf8.units.eq_def]
  simp only [h, ↓reduceIte]
  rfl

theorem join_ascii {b : UInt8} (h : b < 0x80) (run : List UInt8) (ps : List Piece) :
    join (run ++ [b]) ps = .ofNat b.toNat :: join run ps := by
  induction ps generalizing run with
  | nil => simp [join, decodeLossy_ascii h]
  | cons p ps ih =>
    cases p with
    | byte c => rw [join, join, ← List.cons_append, ih]
    | char c => simp [join, decodeLossy_ascii h]

theorem join_head {b : UInt8} (h : ¬b < 0x80) (run : List UInt8) (ps : List Piece) :
    ∃ c cs, join (run ++ [b]) ps = c :: cs ∧ ¬IsCode c := by
  induction ps generalizing run with
  | nil =>
    obtain ⟨c, cs, hc, hn⟩ := decodeLossy_head h run.reverse
    exact ⟨c, cs, by simp [join, hc], hn⟩
  | cons p ps ih =>
    cases p with
    | byte c => exact ih (c :: run)
    | char d =>
      obtain ⟨c, cs, hc, hn⟩ := decodeLossy_head h run.reverse
      exact ⟨c, cs ++ d :: join [] ps, by simp [join, hc], hn⟩

theorem isCode_of_named {c : Char} (h : IsCode (named c)) : IsCode c := by
  unfold named at h
  split at h
  case h_11 => exact h
  all_goals exact absurd h (by decide)

theorem Writes.isCode {e : List Char} {p : Piece} (h : Writes e p) {ps : List Piece} {c : Char}
    {cs : List Char} (ht : text (p :: ps) = c :: cs) (hc : IsCode c) :
    text ps = cs ∧ ∀ d ∈ e, IsCode d := by
  have hb : IsCode '\\' := by decide
  have hx : IsCode 'x' := by decide
  have hu : IsCode 'u' := by decide
  have ho : IsCode '\x7b' := by decide
  have hc' : IsCode '\x7d' := by decide
  have hcode : ∀ {ds : List Char}, (∀ d ∈ ds, isHexDigit d) → ∀ d ∈ ds, IsCode d :=
    fun hd d hm => .inr (hd d hm)
  cases h with
  | raw =>
    cases (text_char _ _).symm.trans ht
    exact ⟨rfl, by simpa using hc⟩
  | named =>
    cases (text_char _ _).symm.trans ht
    exact ⟨rfl, by simpa using ⟨hb, isCode_of_named hc⟩⟩
  | byte hl hd =>
    rename_i ds
    by_cases ha : UInt8.ofNat (hexValue ds) < 0x80
    · cases (join_ascii ha [] ps).symm.trans ht
      exact ⟨rfl, by simpa using ⟨hb, hx, hcode hd⟩⟩
    · obtain ⟨c', cs', hj, hn⟩ := join_head ha [] ps
      cases hj.symm.trans ht
      exact absurd hc hn
  | four hl hd hv =>
    cases (text_char _ _).symm.trans ht
    exact ⟨rfl, by simpa using ⟨hb, hu, hcode hd⟩⟩
  | braced hn hd hv =>
    cases (text_char _ _).symm.trans ht
    refine ⟨rfl, ?_⟩
    simp only [List.mem_cons, List.mem_append, List.not_mem_nil, or_false, forall_eq_or_imp]
    refine ⟨hb, hu, ho, ?_⟩
    intro d hm
    cases hm with
    | inl hm => exact hcode hd d hm
    | inr hm => exact hm ▸ hc'

theorem Writes.ne_nil {e : List Char} {p : Piece} (h : Writes e p) : e ≠ [] := by
  cases h <;> exact List.cons_ne_nil _ _

theorem eq_append_of_code {v rest e t : List Char} (h : v ++ rest = e ++ t) (hr : Closed rest)
    (he : ∀ c ∈ e, IsCode c) : ∃ w, v = e ++ w ∧ w ++ rest = t := by
  cases List.append_eq_append_iff.mp h with
  | inl h =>
    obtain ⟨w, rfl, hw⟩ := h
    cases w with
    | nil => exact ⟨[], by simp, hw⟩
    | cons c w =>
      have hc : IsCode c := he c (List.mem_append_right _ List.mem_cons_self)
      have hm : c ∈ rest.head? := by rw [hw]; rfl
      cases hr c hm with
      | inl hm => rw [hm] at hc; exact absurd hc (by decide)
      | inr hm => rw [hm] at hc; exact absurd hc (by decide)
  | inr h =>
    obtain ⟨w, rfl, rfl⟩ := h
    exact ⟨w, rfl, rfl⟩

/-- A quoted text is never the one that is spelled there, led by code. -/
theorem WritesAll.text_ne {es : List Char} {ps : List Piece} (h : WritesAll es ps)
    {v rest rest' lead : List Char} (hv : v ++ rest = es ++ '"' :: rest') (hr : Closed rest)
    (hl : lead ≠ []) (hc : ∀ c ∈ lead, IsCode c) : text ps ≠ lead ++ v := by
  induction h generalizing v lead with
  | nil =>
    intro ht
    rw [text_nil] at ht
    exact hl (List.append_eq_nil_iff.mp ht.symm).1
  | cons hp _ ih =>
    rename_i e p es ps _
    intro ht
    obtain ⟨c, lead, rfl⟩ := List.exists_cons_of_ne_nil hl
    -- The first piece is in the lead, so its spelling is code, and goes on leading the text.
    obtain ⟨ht, he⟩ := hp.isCode ht (hc c List.mem_cons_self)
    rw [List.append_assoc] at hv
    obtain ⟨w, rfl, hw⟩ := eq_append_of_code hv hr he
    refine ih hw ?_ ?_ (ht.trans (List.append_assoc lead e w).symm)
    · intro hn
      exact hp.ne_nil (List.append_eq_nil_iff.mp hn).2
    · intro d hd
      cases List.mem_append.mp hd with
      | inl hd => exact hc d (List.mem_cons_of_mem _ hd)
      | inr hd => exact he d hd

theorem takeText_ne {v rest rest' : List Char} {s : String} (hr : Closed rest)
    (h : takeText (v ++ rest) = .ok (s, rest')) : s.toList ≠ '"' :: v := by
  obtain ⟨e, ps, he, hv, hs⟩ := takeText_eq_ok_iff.mp h
  rw [hs]
  refine he.text_ne hv hr (List.cons_ne_nil '"' []) ?_
  intro c hc
  rw [List.mem_singleton.mp hc]
  decide

end Literal

end TableGraph.Dump
