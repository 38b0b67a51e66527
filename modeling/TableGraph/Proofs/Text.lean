import Mathlib.Data.List.Basic
import Mathlib.Data.List.TakeWhile
import TableGraph.Text

namespace TableGraph.Text

variable {p : Char → Bool} {cs rest : List Char}

theorem exists_span (p : Char → Bool) (cs : List Char) :
    ∃ ds rest, cs = ds ++ rest ∧ (∀ d ∈ ds, p d) ∧ ∀ c ∈ rest.head?, p c = false := by
  refine ⟨cs.takeWhile p, cs.dropWhile p, List.takeWhile_append_dropWhile.symm,
    fun d hd => List.mem_takeWhile_imp hd, fun c hc => ?_⟩
  have hn := List.head?_dropWhile_not p cs
  rwa [hc] at hn

theorem forall_or_exists_first (p : Char → Bool) (cs : List Char) :
    (∀ c ∈ cs, p c) ∨ ∃ ds c rest, cs = ds ++ c :: rest ∧ (∀ d ∈ ds, p d) ∧ p c = false := by
  obtain ⟨ds, rest, rfl, hd, hr⟩ := exists_span p cs
  cases rest with
  | nil => exact .inl (by rwa [List.append_nil])
  | cons c rest => exact .inr ⟨ds, c, rest, rfl, hd, hr c rfl⟩

theorem takeWhile_span (hcs : ∀ c ∈ cs, p c) (hr : ∀ c ∈ rest.head?, p c = false) :
    (cs ++ rest).takeWhile p = cs := by
  rw [List.takeWhile_append_of_pos hcs]
  cases rest with
  | nil => simp
  | cons c rest => simp [hr c rfl]

theorem dropWhile_span (hcs : ∀ c ∈ cs, p c) (hr : ∀ c ∈ rest.head?, p c = false) :
    (cs ++ rest).dropWhile p = rest := by
  rw [List.dropWhile_append_of_pos hcs]
  cases rest with
  | nil => rfl
  | cons c rest => simp [hr c rfl]

end TableGraph.Text

namespace TableGraph.Utf8

def encode (cs : List Char) : List UInt8 := cs.flatMap String.utf8EncodeChar

theorem toNat_ofNat {n : Nat} (h : n < 256) : (UInt8.ofNat n).toNat = n := by
  rw [UInt8.toNat_ofNat']
  exact Nat.mod_eq_of_lt h

theorem between_iff {a low high : UInt8} :
    (low ≤ a && a ≤ high) ↔ low.toNat ≤ a.toNat ∧ a.toNat ≤ high.toNat := by
  simp only [Bool.and_eq_true, decide_eq_true_eq, UInt8.le_iff_toNat_le]

theorem isTail_iff {b : UInt8} : isTail b ↔ 128 ≤ b.toNat ∧ b.toNat ≤ 191 := between_iff

theorem not_ascii {a : UInt8} (h : 128 ≤ a.toNat) : ¬a < 0x80 := by
  rw [UInt8.lt_iff_toNat_lt]
  exact Nat.not_lt.mpr h

theorem not_between {a low high : UInt8} (h : high.toNat < a.toNat) :
    ¬(low ≤ a && a ≤ high) := by
  rw [between_iff]
  omega

section

variable {a b c d : UInt8} (bs : List UInt8)

theorem units_one (ha : a.toNat < 128) :
    units (a :: bs) = some (.ofNat a.toNat) :: units bs := by
  have ha : a < 0x80 := UInt8.lt_iff_toNat_lt.mpr ha
  rw [units.eq_def]
  simp only [ha, ↓reduceIte]

theorem units_two (ha : 194 ≤ a.toNat ∧ a.toNat ≤ 223) (hb : isTail b) :
    units (a :: b :: bs) = some (ofTwo a b) :: units bs := by
  have h1 : ¬a < 0x80 := not_ascii (by omega)
  have h2 : 0xC2 ≤ a && a ≤ 0xDF := between_iff.mpr ha
  rw [units.eq_def]
  simp only [h1, h2, hb, ↓reduceIte]

theorem units_three (ha : 224 ≤ a.toNat ∧ a.toNat ≤ 239) (hb : isSecondOfThree a b)
    (hc : isTail c) : units (a :: b :: c :: bs) = some (ofThree a b c) :: units bs := by
  have h1 : ¬a < 0x80 := not_ascii (by omega)
  have h2 : ¬(0xC2 ≤ a && a ≤ 0xDF) := not_between (by change 223 < a.toNat; omega)
  have h3 : 0xE0 ≤ a && a ≤ 0xEF := between_iff.mpr ha
  rw [units.eq_def]
  simp only [h1, h2, h3, hb, hc, Bool.false_eq_true, ↓reduceIte]

theorem units_four (ha : 240 ≤ a.toNat ∧ a.toNat ≤ 244) (hb : isSecondOfFour a b)
    (hc : isTail c) (hd : isTail d) :
    units (a :: b :: c :: d :: bs) = some (ofFour a b c d) :: units bs := by
  have h1 : ¬a < 0x80 := not_ascii (by omega)
  have h2 : ¬(0xC2 ≤ a && a ≤ 0xDF) := not_between (by change 223 < a.toNat; omega)
  have h3 : ¬(0xE0 ≤ a && a ≤ 0xEF) := not_between (by change 239 < a.toNat; omega)
  have h4 : 0xF0 ≤ a && a ≤ 0xF4 := between_iff.mpr ha
  rw [units.eq_def]
  simp only [h1, h2, h3, h4, hb, hc, hd, Bool.false_eq_true, ↓reduceIte]

end

theorem isTail_ofNat (n : Nat) : isTail (.ofNat (n % 64 + 128)) := by
  rw [isTail_iff, toNat_ofNat (by omega)]
  omega

theorem eq_of_toNat_eq {a b : UInt8} {n : Nat} (ha : a.toNat = n) : (a = b) ↔ n = b.toNat := by
  rw [← ha, UInt8.toNat_inj]

theorem isSecondOfThree_ofNat {n : Nat} (hn : 2048 ≤ n ∧ n < 55296 ∨ 57344 ≤ n ∧ n < 65536) :
    isSecondOfThree (.ofNat (n / 4096 % 16 + 224)) (.ofNat (n / 64 % 64 + 128)) := by
  have ha := toNat_ofNat (n := n / 4096 % 16 + 224) (by omega)
  have hb := toNat_ofNat (n := n / 64 % 64 + 128) (by omega)
  rw [isSecondOfThree]
  split
  · next h =>
    rw [eq_of_toNat_eq ha] at h
    rw [between_iff, hb]
    change _ = 224 at h
    change 160 ≤ _ ∧ _ ≤ 191
    omega
  split
  · next h =>
    rw [eq_of_toNat_eq ha] at h
    rw [between_iff, hb]
    change _ = 237 at h
    change 128 ≤ _ ∧ _ ≤ 159
    omega
  · exact isTail_ofNat _

theorem isSecondOfFour_ofNat {n : Nat} (hn : 65536 ≤ n ∧ n < 1114112) :
    isSecondOfFour (.ofNat (n / 262144 % 8 + 240)) (.ofNat (n / 4096 % 64 + 128)) := by
  have ha := toNat_ofNat (n := n / 262144 % 8 + 240) (by omega)
  have hb := toNat_ofNat (n := n / 4096 % 64 + 128) (by omega)
  rw [isSecondOfFour]
  split
  · next h =>
    rw [eq_of_toNat_eq ha] at h
    rw [between_iff, hb]
    change _ = 240 at h
    change 144 ≤ _ ∧ _ ≤ 191
    omega
  split
  · next h =>
    rw [eq_of_toNat_eq ha] at h
    rw [between_iff, hb]
    change _ = 244 at h
    change 128 ≤ _ ∧ _ ≤ 143
    omega
  · exact isTail_ofNat _

theorem units_encodeChar (c : Char) (bs : List UInt8) :
    units (String.utf8EncodeChar c ++ bs) = some c :: units bs := by
  have hv : c.toNat < 55296 ∨ 57343 < c.toNat ∧ c.toNat < 1114112 := c.valid
  have hc : ∀ m, m = c.toNat → Char.ofNat m = c := fun m hm => by rw [hm, Char.ofNat_toNat]
  generalize hn : c.toNat = n at hv hc
  have hn : c.val.toNat = n := hn
  simp only [String.utf8EncodeChar, hn]
  split
  · have ha := toNat_ofNat (n := n) (by omega)
    rw [List.singleton_append, units_one bs (by omega), ha, hc _ rfl]
  split
  · have ha := toNat_ofNat (n := n / 64 % 32 + 192) (by omega)
    have hb := toNat_ofNat (n := n % 64 + 128) (by omega)
    simp only [List.cons_append, List.nil_append]
    rw [units_two bs (by omega) (isTail_ofNat _), ofTwo, ha, hb, hc _ (by omega)]
  split
  · have ha := toNat_ofNat (n := n / 4096 % 16 + 224) (by omega)
    have hb := toNat_ofNat (n := n / 64 % 64 + 128) (by omega)
    have hd := toNat_ofNat (n := n % 64 + 128) (by omega)
    simp only [List.cons_append, List.nil_append]
    rw [units_three bs (by omega) (isSecondOfThree_ofNat (by omega)) (isTail_ofNat _), ofThree, ha,
      hb, hd, hc _ (by omega)]
  · have ha := toNat_ofNat (n := n / 262144 % 8 + 240) (by omega)
    have hb := toNat_ofNat (n := n / 4096 % 64 + 128) (by omega)
    have hd := toNat_ofNat (n := n / 64 % 64 + 128) (by omega)
    have he := toNat_ofNat (n := n % 64 + 128) (by omega)
    simp only [List.cons_append, List.nil_append]
    rw [units_four bs (by omega) (isSecondOfFour_ofNat (by omega)) (isTail_ofNat _)
      (isTail_ofNat _), ofFour, ha, hb, hd, he, hc _ (by omega)]

theorem units_encode (cs : List Char) : units (encode cs) = cs.map some := by
  induction cs with
  | nil => rfl
  | cons c cs ih => rw [encode, List.flatMap_cons, units_encodeChar, List.map_cons, ← ih, encode]

theorem decode?_encode (cs : List Char) : decode? (encode cs) = some cs := by
  rw [decode?, units_encode]
  induction cs with
  | nil => rfl
  | cons c cs ih =>
    rw [List.map_cons, List.mapM_cons, ih]
    rfl

theorem isTail_of_isSecondOfThree {a b : UInt8} (h : isSecondOfThree a b) : isTail b := by
  rw [isSecondOfThree] at h
  rw [isTail_iff]
  split at h
  · rw [between_iff] at h
    exact ⟨Nat.le_trans (by decide) h.1, h.2⟩
  split at h
  · rw [between_iff] at h
    exact ⟨h.1, Nat.le_trans h.2 (by decide)⟩
  · exact isTail_iff.mp h

theorem isTail_of_isSecondOfFour {a b : UInt8} (h : isSecondOfFour a b) : isTail b := by
  rw [isSecondOfFour] at h
  rw [isTail_iff]
  split at h
  · rw [between_iff] at h
    exact ⟨Nat.le_trans (by decide) h.1, h.2⟩
  split at h
  · rw [between_iff] at h
    exact ⟨h.1, Nat.le_trans h.2 (by decide)⟩
  · exact isTail_iff.mp h

/-- A byte that continues nothing starts anew, whatever is broken off before it. -/
theorem units_append {bs cs : List UInt8} (h : ∀ b ∈ cs.head?, ¬isTail b) :
    units (bs ++ cs) = units bs ++ units cs := by
  have htail : ∀ {b ds}, cs = b :: ds → ¬isTail b := fun hc => h _ (by simp [hc])
  have hthree : ∀ a {b ds}, cs = b :: ds → ¬isSecondOfThree a b :=
    fun _ _ _ hc hs => htail hc (isTail_of_isSecondOfThree hs)
  have hfour : ∀ a {b ds}, cs = b :: ds → ¬isSecondOfFour a b :=
    fun _ _ _ hc hs => htail hc (isTail_of_isSecondOfFour hs)
  fun_induction units bs with
  | case1 => rfl
  -- The bytes in front are a character, or no byte of any.
  | case2 | case3 | case6 | case11 | case18 =>
    rw [units.eq_def]
    simp only [List.cons_append, *, ↓reduceIte, Bool.false_eq_true]
  -- They are broken off by a byte before the end.
  | case4 | case7 | case9 | case12 | case14 | case16 =>
    rename_i ih
    rw [List.cons_append] at ih
    rw [units.eq_def]
    simp only [List.cons_append, *, ↓reduceIte, Bool.false_eq_true]
  -- They are broken off by the end, and could only go on with a tail.
  | case5 | case8 | case10 | case13 | case15 | case17 =>
    rw [units.eq_def]
    cases cs with
    | nil => simp only [List.append_nil, units, *, ↓reduceIte, Bool.false_eq_true]
    | cons b ds =>
      simp only [List.cons_append, List.nil_append, *, htail rfl, hthree _ rfl, hfour _ rfl,
        ↓reduceIte, Bool.false_eq_true]

theorem decodeLossy_append {bs cs : List UInt8} (h : ∀ b ∈ cs.head?, ¬isTail b) :
    decodeLossy (bs ++ cs) = decodeLossy bs ++ decodeLossy cs := by
  rw [decodeLossy, units_append h, List.map_append, decodeLossy, decodeLossy]

theorem decodeLossy_encodeChar (c : Char) (bs : List UInt8) :
    decodeLossy (String.utf8EncodeChar c ++ bs) = c :: decodeLossy bs := by
  rw [decodeLossy, units_encodeChar, List.map_cons, decodeLossy]
  rfl

theorem not_isTail_head {n : Nat} (hn : n < 256) (ht : n < 128 ∨ 191 < n) (bs : List UInt8) :
    ∀ b ∈ (UInt8.ofNat n :: bs).head?, ¬isTail b := by
  rintro _ ⟨⟩
  rw [isTail_iff, toNat_ofNat hn]
  omega

theorem not_isTail_head_encodeChar (c : Char) :
    ∀ b ∈ (String.utf8EncodeChar c).head?, ¬isTail b := by
  have hv : c.val.toNat < 55296 ∨ 57343 < c.val.toNat ∧ c.val.toNat < 1114112 := c.valid
  simp only [String.utf8EncodeChar]
  split
  · exact not_isTail_head (by omega) (by omega) _
  split
  · exact not_isTail_head (by omega) (by omega) _
  split
  · exact not_isTail_head (by omega) (by omega) _
  · exact not_isTail_head (by omega) (by omega) _

end TableGraph.Utf8
