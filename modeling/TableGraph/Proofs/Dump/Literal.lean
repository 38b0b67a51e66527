import Mathlib.Data.List.TakeWhile
import TableGraph.Dump.Literal
import TableGraph.Proofs.Rel

namespace TableGraph.Dump.Literal

inductive Writes : List Char → Piece → Prop
  | raw : c ≠ '"' → c ≠ '\\' → Writes [c] (.char c)
  | named : c ≠ 'x' → c ≠ 'u' → Writes ['\\', c] (.char (named c))
  | byte : ds.length = 2 → (∀ d ∈ ds, isHexDigit d) →
      Writes ('\\' :: 'x' :: ds) (.byte (.ofNat (hexValue ds)))
  | four : ds.length = 4 → (∀ d ∈ ds, isHexDigit d) → (hexValue ds).isValidChar →
      Writes ('\\' :: 'u' :: ds) (.char (.ofNat (hexValue ds)))
  | braced : ds ≠ [] → (∀ d ∈ ds, isHexDigit d) → (hexValue ds).isValidChar →
      Writes ('\\' :: 'u' :: '\x7b' :: (ds ++ ['\x7d'])) (.char (.ofNat (hexValue ds)))

inductive WritesAll : List Char → List Piece → Prop
  | nil : WritesAll [] []
  | cons : Writes e p → WritesAll es ps → WritesAll (e ++ es) (p :: ps)

theorem takeHex_append {n : Nat} {ds : List Char} (hl : ds.length = n)
    (hd : ∀ d ∈ ds, isHexDigit d) (rest : List Char) : takeHex n (ds ++ rest) = .ok (ds, rest) := by
  have ht : ((ds ++ rest).take n).takeWhile isHexDigit = ds := by
    rw [← hl, List.take_left, List.takeWhile_eq_self_iff]
    exact hd
  rw [takeHex, if_pos (by rw [ht, hl]), ht, ← hl, List.drop_left]

theorem takeHex_eq_ok_iff {n : Nat} {cs ds rest : List Char} :
    takeHex n cs = .ok (ds, rest) ↔
      ds.length = n ∧ (∀ d ∈ ds, isHexDigit d) ∧ cs = ds ++ rest := by
  constructor
  · intro h
    rw [takeHex] at h
    split at h
    · next hl =>
      cases h
      have ht : (cs.take n).takeWhile isHexDigit = cs.take n := by
        apply (List.takeWhile_prefix _).eq_of_length_le
        rw [hl]
        exact List.length_take_le n cs
      refine ⟨hl, fun d hd => List.mem_takeWhile_imp hd, ?_⟩
      rw [ht, List.take_append_drop]
    · split at h <;> cases h
  · rintro ⟨hl, hd, he⟩
    rw [he]
    exact takeHex_append hl hd rest

theorem takeBraced_append {ds : List Char} (hd : ∀ d ∈ ds, isHexDigit d) (rest : List Char) :
    takeBraced (ds ++ '\x7d' :: rest) = .ok (ds, rest) := by
  have hb : isHexDigit '\x7d' = false := rfl
  have ht : (ds ++ '\x7d' :: rest).takeWhile isHexDigit = ds := by
    rw [List.takeWhile_append_of_pos hd, List.takeWhile_cons, hb, if_neg nofun, List.append_nil]
  have hr : (ds ++ '\x7d' :: rest).dropWhile isHexDigit = '\x7d' :: rest := by
    rw [List.dropWhile_append_of_pos hd, List.dropWhile_cons, hb, if_neg nofun]
  simp only [takeBraced, hr, ht]

theorem takeBraced_eq_ok_iff {cs ds rest : List Char} :
    takeBraced cs = .ok (ds, rest) ↔ (∀ d ∈ ds, isHexDigit d) ∧ cs = ds ++ '\x7d' :: rest := by
  constructor
  · intro h
    rw [takeBraced] at h
    split at h
    · cases h
    · next hr =>
      cases h
      refine ⟨fun d hd => List.mem_takeWhile_imp hd, ?_⟩
      rw [← hr, List.takeWhile_append_dropWhile]
    · cases h
  · rintro ⟨hd, he⟩
    rw [he]
    exact takeBraced_append hd rest

theorem codePoint_eq_ok_iff {n : Nat} {p : Piece} :
    codePoint n = .ok p ↔ n.isValidChar ∧ p = .char (.ofNat n) := by
  rw [codePoint]
  split
  · next h => simp [h, eq_comm]
  · next h => simp [h]

theorem bracedCodePoint_eq_ok_iff {ds : List Char} {p : Piece} :
    bracedCodePoint ds = .ok p ↔
      ds ≠ [] ∧ (hexValue ds).isValidChar ∧ p = .char (.ofNat (hexValue ds)) := by
  rw [bracedCodePoint]
  split
  · next h =>
    simp only [Bool.or_eq_true, List.isEmpty_iff, decide_eq_true_eq] at h
    constructor
    · nofun
    · intro ⟨hn, hv, _⟩
      cases h with
      | inl h => exact absurd h hn
      | inr h => simp only [Nat.isValidChar] at hv; omega
  · next h =>
    simp only [Bool.or_eq_true, List.isEmpty_iff, not_or] at h
    rw [codePoint_eq_ok_iff]
    simp [h.1]

theorem takeEscape_named {c : Char} (hx : c ≠ 'x') (hu : c ≠ 'u') (cs : List Char) :
    takeEscape (c :: cs) = .ok (.char (named c), cs) := by
  rw [takeEscape]
  · exact hx
  · intro _ hc
    exact absurd hc hu
  · exact hu

theorem takeEscape_four {d : Char} (hd : isHexDigit d) (cs : List Char) :
    takeEscape ('u' :: d :: cs) = (do
      let (ds, rest) ← takeHex 4 (d :: cs)
      return (← codePoint (hexValue ds), rest)) := by
  rw [takeEscape]
  intro _ hc
  cases hc
  cases hd

theorem takeEscape_eq_ok_iff {cs rest : List Char} {p : Piece} :
    takeEscape cs = .ok (p, rest) ↔ ∃ e, Writes ('\\' :: e) p ∧ cs = e ++ rest := by
  constructor
  · intro h
    unfold takeEscape at h
    split at h
    · cases h
    · simp only [bind_eq_ok, pure_eq_ok, Prod.exists, takeHex_eq_ok_iff] at h
      obtain ⟨ds, r, ⟨hl, hd, rfl⟩, h⟩ := h
      cases h
      exact ⟨'x' :: ds, .byte hl hd, rfl⟩
    · simp only [bind_eq_ok, pure_eq_ok, Prod.exists, takeBraced_eq_ok_iff,
        bracedCodePoint_eq_ok_iff] at h
      obtain ⟨ds, r, ⟨hd, rfl⟩, q, ⟨hn, hv, rfl⟩, h⟩ := h
      cases h
      exact ⟨'u' :: '\x7b' :: (ds ++ ['\x7d']), .braced hn hd hv, by simp⟩
    · simp only [bind_eq_ok, pure_eq_ok, Prod.exists, takeHex_eq_ok_iff, codePoint_eq_ok_iff] at h
      obtain ⟨ds, r, ⟨hl, hd, rfl⟩, q, ⟨hv, rfl⟩, h⟩ := h
      cases h
      exact ⟨'u' :: ds, .four hl hd hv, rfl⟩
    · next c cs hx hu hu' =>
      cases h
      exact ⟨[c], .named (fun hc => hx hc) (fun hc => hu' hc), rfl⟩
  · intro ⟨e, he, hc⟩
    rw [hc]
    cases he with
    | raw _ hb => exact absurd rfl hb
    | named hx hu => exact takeEscape_named hx hu rest
    | byte hl hd =>
      simp [takeEscape, takeHex_append hl hd]
    | four hl hd hv =>
      rename_i ds
      obtain ⟨d, ds, rfl⟩ := List.exists_cons_of_length_eq_add_one hl
      rw [List.cons_append, List.cons_append, takeEscape_four (hd d List.mem_cons_self),
        ← List.cons_append, takeHex_append hl hd]
      simp [codePoint_eq_ok_iff.mpr ⟨hv, rfl⟩]
    | braced hn hd hv =>
      simp [takeEscape, takeBraced_append hd, bracedCodePoint_eq_ok_iff.mpr ⟨hn, hv, rfl⟩]

theorem takePiece_writes {e : List Char} {p : Piece} (h : Writes e p) (rest : List Char) :
    takePiece (e ++ rest) = .ok (some p, rest) := by
  have he : ∀ e, Writes ('\\' :: e) p → takePiece ('\\' :: e ++ rest) = .ok (some p, rest) := by
    intro e h
    have ht : takeEscape (e ++ rest) = .ok (p, rest) := takeEscape_eq_ok_iff.mpr ⟨e, h, rfl⟩
    simp [takePiece, ht]
  cases h with
  | raw hq hb =>
    rw [List.singleton_append, takePiece]
    · exact hq
    · exact hb
  | named hx hu => exact he _ (.named hx hu)
  | byte hl hd => exact he _ (.byte hl hd)
  | four hl hd hv => exact he _ (.four hl hd hv)
  | braced hn hd hv => exact he _ (.braced hn hd hv)

theorem writes_of_takePiece {cs rest : List Char} {p : Piece}
    (h : takePiece cs = .ok (some p, rest)) : ∃ e, Writes e p ∧ cs = e ++ rest := by
  unfold takePiece at h
  split at h
  · cases h
  · cases h
  · simp only [bind_eq_ok, pure_eq_ok, Prod.exists, takeEscape_eq_ok_iff] at h
    obtain ⟨q, r, ⟨e, he, rfl⟩, h⟩ := h
    cases h
    exact ⟨'\\' :: e, he, rfl⟩
  · next c cs hq hb =>
    cases h
    exact ⟨[c], .raw (fun hc => hq hc) (fun hc => hb hc), rfl⟩

theorem quote_of_takePiece {cs rest : List Char} (h : takePiece cs = .ok (none, rest)) :
    cs = '"' :: rest := by
  unfold takePiece at h
  split at h
  · cases h
  · cases h
    rfl
  · simp [bind_eq_ok] at h
  · cases h

theorem takePieces_of_takePiece {cs rest rest' : List Char} {p : Piece} {ps : List Piece}
    (hp : takePiece cs = .ok (some p, rest)) (hr : takePieces rest = .ok (ps, rest')) :
    takePieces cs = .ok (p :: ps, rest') := by
  rw [takePieces]
  split
  · next h => rw [hp] at h; cases h
  · next h => rw [hp] at h; cases h
  · next h => rw [hp] at h; cases h; rw [hr]

theorem takePieces_eq_ok_iff {cs rest : List Char} {ps : List Piece} :
    takePieces cs = .ok (ps, rest) ↔ ∃ e, WritesAll e ps ∧ cs = e ++ '"' :: rest := by
  constructor
  · intro h
    fun_induction takePieces cs generalizing ps rest with
    | case1 => cases h
    | case2 cs rest' hp =>
      cases h
      exact ⟨[], .nil, quote_of_takePiece hp⟩
    | case3 => cases h
    | case4 cs p rest' hp ps' rest'' hr ih =>
      cases h
      obtain ⟨e, he, rfl⟩ := writes_of_takePiece hp
      obtain ⟨es, hes, rfl⟩ := ih hr
      exact ⟨e ++ es, .cons he hes, by simp⟩
  · rintro ⟨e, he, hc⟩
    rw [hc]
    clear hc
    induction he with
    | nil => rw [List.nil_append, takePieces]; rfl
    | cons hp _ ih => rw [List.append_assoc, takePieces_of_takePiece (takePiece_writes hp _) ih]

theorem takeText_eq_ok_iff {cs rest : List Char} {s : String} :
    takeText cs = .ok (s, rest) ↔
      ∃ e ps, WritesAll e ps ∧ cs = e ++ '"' :: rest ∧ s.toList = text ps := by
  rw [takeText, map_eq_ok]
  constructor
  · intro ⟨⟨ps, r⟩, h, he⟩
    cases he
    obtain ⟨e, he, hc⟩ := takePieces_eq_ok_iff.mp h
    exact ⟨e, ps, he, hc, String.toList_ofList⟩
  · intro ⟨e, ps, he, hc, hs⟩
    refine ⟨(ps, rest), takePieces_eq_ok_iff.mpr ⟨e, he, hc⟩, ?_⟩
    change (String.ofList (text ps), rest) = (s, rest)
    rw [← hs, String.ofList_toList]

end TableGraph.Dump.Literal
