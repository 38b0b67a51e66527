import TableGraph.Proofs.Dump.Quoted
import TableGraph.Proofs.Text

/-! The spellings of a text between its quotes, character by character. Taking quoted text gives the
text back whatever spelling each character has. Bytes in a row are decoded together, and apart from
the characters on both sides, even if they are no characters themselves. -/

namespace TableGraph.Dump.Literal

def letters : List (Char × Char) :=
  [('n', '\n'), ('t', '\t'), ('r', '\r'), ('e', '\x1b'), ('a', '\x07'), ('b', '\x08'),
    ('f', '\x0c'), ('v', '\x0b'), ('s', ' '), ('0', '\x00')]

def WritesBytes (es : List Char) (bs : List UInt8) : Prop := WritesAll es (bs.map .byte)

inductive SpellsChar : List Char → Char → Prop
  | raw : c ≠ '"' → c ≠ '\\' → SpellsChar [c] c
  | escaped : c ∉ letters.map Prod.fst → c ≠ 'u' → c ≠ 'x' → SpellsChar ['\\', c] c
  | letter : (l, c) ∈ letters → SpellsChar ['\\', l] c
  | four : ds.length = 4 → (∀ d ∈ ds, isHexDigit d) → hexValue ds = c.toNat →
      SpellsChar ('\\' :: 'u' :: ds) c
  | braced : ds ≠ [] → (∀ d ∈ ds, isHexDigit d) → hexValue ds = c.toNat →
      SpellsChar ('\\' :: 'u' :: '\x7b' :: (ds ++ ['\x7d'])) c
  | bytes : WritesBytes es (String.utf8EncodeChar c) → SpellsChar es c

inductive SpellsText : List Char → List Char → Prop
  | nil : SpellsText [] []
  | cons : SpellsChar e c → SpellsText es cs → SpellsText (e ++ es) (c :: cs)

theorem WritesAll.append {es fs : List Char} {ps qs : List Piece} (h : WritesAll es ps)
    (h' : WritesAll fs qs) : WritesAll (es ++ fs) (ps ++ qs) := by
  induction h with
  | nil => exact h'
  | cons hp _ ih =>
    rw [List.append_assoc]
    exact .cons hp ih

theorem named_eq_self {c : Char} (h : c ∉ letters.map Prod.fst) : named c = c := by
  rw [named]
  all_goals
    rintro rfl
    exact h (by decide)

theorem named_of_mem_letters {l c : Char} (h : (l, c) ∈ letters) :
    l ≠ 'x' ∧ l ≠ 'u' ∧ named l = c := by
  have hall : ∀ p ∈ letters, p.1 ≠ 'x' ∧ p.1 ≠ 'u' ∧ named p.1 = p.2 := by decide
  exact hall (l, c) h

theorem ofNat_hexValue {ds : List Char} {c : Char} (h : hexValue ds = c.toNat) :
    (hexValue ds).isValidChar ∧ Char.ofNat (hexValue ds) = c := by
  rw [h, Char.ofNat_toNat]
  exact ⟨c.valid, rfl⟩

theorem SpellsChar.writes {e : List Char} {c : Char} (h : SpellsChar e c) :
    Writes e (.char c) ∨ WritesBytes e (String.utf8EncodeChar c) := by
  cases h with
  | raw hq hb => exact .inl (.raw hq hb)
  | escaped hc hu hx =>
    have hw : Writes ['\\', c] (.char (named c)) := .named hx hu
    rw [named_eq_self hc] at hw
    exact .inl hw
  | letter hl =>
    obtain ⟨hx, hu, rfl⟩ := named_of_mem_letters hl
    exact .inl (.named hx hu)
  | four hl hd hv =>
    obtain ⟨hc, rfl⟩ := ofNat_hexValue hv
    exact .inl (.four hl hd hc)
  | braced hn hd hv =>
    obtain ⟨hc, rfl⟩ := ofNat_hexValue hv
    exact .inl (.braced hn hd hc)
  | bytes hb => exact .inr hb

theorem join_bytes (run bs : List UInt8) (ps : List Piece) :
    join run (bs.map .byte ++ ps) = join (bs.reverse ++ run) ps := by
  induction bs generalizing run with
  | nil => rfl
  | cons b bs ih =>
    rw [List.map_cons, List.cons_append, join, ih, List.reverse_cons, List.append_assoc,
      List.singleton_append]

theorem join_encodeChar (c : Char) (run : List UInt8) (ps : List Piece) :
    join (run ++ (String.utf8EncodeChar c).reverse) ps = c :: join run ps := by
  have hd : ∀ run, Utf8.decodeLossy (run ++ (String.utf8EncodeChar c).reverse).reverse =
      c :: Utf8.decodeLossy run.reverse := by
    intro run
    rw [List.reverse_append, List.reverse_reverse, Utf8.decodeLossy_encodeChar]
  induction ps generalizing run with
  | nil => exact hd run
  | cons p ps ih =>
    cases p with
    | char d => rw [join, join, hd, List.cons_append]
    | byte b => rw [join, join, ← List.cons_append, ih]

theorem text_encodeChar (c : Char) (ps : List Piece) :
    text ((String.utf8EncodeChar c).map .byte ++ ps) = c :: text ps := by
  rw [text, join_bytes, List.append_nil, ← List.nil_append (List.reverse _), join_encodeChar, text]

def StartsAnew (ps : List Piece) : Prop := ∀ b, ps.head? = some (.byte b) → ¬Utf8.isTail b

theorem join_append {r : List UInt8} {b : UInt8} (hr : r.getLast? = some b)
    (hb : ¬Utf8.isTail b) (run : List UInt8) (ps : List Piece) :
    join (r ++ run) ps = Utf8.decodeLossy run.reverse ++ join r ps := by
  -- Runs stand in reverse, so the last byte of `r` is the first one behind `run`.
  have hd : ∀ {r}, r.getLast? = some b → Utf8.decodeLossy (r ++ run).reverse =
      Utf8.decodeLossy run.reverse ++ Utf8.decodeLossy r.reverse := by
    intro r hr
    rw [List.reverse_append, Utf8.decodeLossy_append]
    rw [List.head?_reverse, hr]
    rintro _ ⟨⟩
    exact hb
  induction ps generalizing r with
  | nil => exact hd hr
  | cons p ps ih =>
    cases p with
    | char d => rw [join, join, hd hr, List.append_assoc]
    | byte a =>
      have ha : (a :: r).getLast? = some b := by rw [List.getLast?_cons, hr, Option.getD_some]
      rw [join, join, ← List.cons_append, ih ha]

theorem text_bytes_append (bs : List UInt8) {ps : List Piece} (h : StartsAnew ps) :
    text (bs.map .byte ++ ps) = Utf8.decodeLossy bs ++ text ps := by
  rw [text, join_bytes, List.append_nil, text]
  cases ps with
  | nil => simp [join, Utf8.decodeLossy, Utf8.units]
  | cons p ps =>
    cases p with
    | char c => simp [join, Utf8.decodeLossy, Utf8.units]
    | byte b =>
      rw [join, join, ← List.singleton_append, join_append rfl (h b rfl), List.reverse_reverse]

theorem SpellsChar.pieces {e : List Char} {c : Char} (h : SpellsChar e c) :
    ∃ p ps, WritesAll e (p :: ps) ∧ StartsAnew (p :: ps) ∧
      ∀ qs, text (p :: ps ++ qs) = c :: text qs := by
  obtain hw | hw := h.writes
  · have hw := WritesAll.cons hw .nil
    rw [List.append_nil] at hw
    exact ⟨.char c, [], hw, nofun, text_char c⟩
  · rw [WritesBytes] at hw
    have ht := text_encodeChar c
    have hs := Utf8.not_isTail_head_encodeChar c
    cases he : String.utf8EncodeChar c with
    | nil => exact absurd he String.utf8EncodeChar_ne_nil
    | cons b bs =>
      rw [he] at hw ht hs
      refine ⟨.byte b, bs.map .byte, hw, ?_, ht⟩
      rintro _ ⟨⟩
      exact hs b rfl

theorem SpellsText.pieces {es cs : List Char} (h : SpellsText es cs) :
    ∃ ps, WritesAll es ps ∧ StartsAnew ps ∧ ∀ qs, text (ps ++ qs) = cs ++ text qs := by
  induction h with
  | nil => exact ⟨[], .nil, nofun, fun _ => rfl⟩
  | cons hc _ ih =>
    obtain ⟨ps, hps, -, ht⟩ := ih
    obtain ⟨p, qs, hp, hs, hc⟩ := hc.pieces
    refine ⟨p :: qs ++ ps, hp.append hps, hs, fun rs => ?_⟩
    rw [List.append_assoc, hc, ht, List.cons_append]

/-- Taking quoted text undoes every choice of spellings and stops behind the closing quote. Bytes in
a row are decoded together, and nothing around them matters to what they are decoded to. -/
theorem takeText_spelled {es : List Char} {s : String} (hs : SpellsText es s.toList)
    (rest : List Char) :
    takeText (es ++ '"' :: rest) = .ok (s, rest) ∧
    ∀ {run fs : List Char} {bs : List UInt8} {t : String}, WritesBytes run bs →
      SpellsText fs t.toList → takeText (es ++ run ++ fs ++ '"' :: rest) =
        .ok (s ++ .ofList (Utf8.decodeLossy bs) ++ t, rest) := by
  obtain ⟨ps, hps, -, hp⟩ := hs.pieces
  refine ⟨takeText_eq_ok_iff.mpr ⟨es, ps, hps, rfl, ?_⟩, ?_⟩
  · have hp := hp []
    rwa [List.append_nil, text_nil, List.append_nil, eq_comm] at hp
  · intro run fs bs t hrun ht
    obtain ⟨qs, hqs, hstart, hq⟩ := ht.pieces
    refine takeText_eq_ok_iff.mpr ⟨_, _, (hps.append hrun).append hqs, rfl, ?_⟩
    have hq := hq []
    rw [List.append_nil, text_nil, List.append_nil] at hq
    rw [List.append_assoc, hp, text_bytes_append bs hstart, hq]
    simp

theorem takeText_spelled_bytes :
    let es := ['\\', 'x', 'c', '3', '\\', 'x', 'A', '9', '\\', 'x', 'F', '0', '\\', 'x', '9', 'f',
      '\\', 'x', '9', '8', '\\', 'x', '8', '0', '\\', '\\', 'x', '\\', 's', '\\', 'u', '0', '0',
      'e', '9', '\\', 'u', '\x7b', '0', '2', '0', 'A', 'c', '\x7d']
    let s := String.ofList ['\u00e9', .ofNat 0x1f600, '\\', 'x', ' ', '\u00e9', '\u20ac']
    let rest := ['"', ']']
    SpellsText es s.toList ∧ takeText (es ++ '"' :: rest) = .ok (s, rest) ∧
      takeText (es ++ ['\\', 'x', 'e', '2'] ++ es ++ '"' :: rest) =
        .ok (s ++ .ofList ['\ufffd'] ++ s, rest) := by
  intro es s rest
  have hex : ∀ {ds : List Char}, ds.all isHexDigit → ∀ d ∈ ds, isHexDigit d :=
    fun h => List.all_eq_true.mp h
  have hbyte : ∀ (ds : List Char) {b es bs}, ds.length = 2 → ds.all isHexDigit →
      .ofNat (hexValue ds) = b → WritesBytes es bs →
      WritesBytes ('\\' :: 'x' :: ds ++ es) (b :: bs) := by
    rintro ds _ es bs hl hd rfl h
    exact .cons (.byte hl (hex hd)) h
  have htwo : WritesBytes ['\\', 'x', 'c', '3', '\\', 'x', 'A', '9']
      (String.utf8EncodeChar '\u00e9') :=
    hbyte ['c', '3'] rfl (by decide) rfl
      (hbyte ['A', '9'] rfl (by decide) rfl .nil)
  have hfour : WritesBytes ['\\', 'x', 'F', '0', '\\', 'x', '9', 'f', '\\', 'x', '9', '8', '\\',
      'x', '8', '0'] (String.utf8EncodeChar (.ofNat 0x1f600)) :=
    hbyte ['F', '0'] rfl (by decide) rfl (hbyte ['9', 'f'] rfl (by decide) rfl
      (hbyte ['9', '8'] rfl (by decide) rfl
        (hbyte ['8', '0'] rfl (by decide) rfl .nil)))
  have hrun : WritesBytes ['\\', 'x', 'e', '2'] [0xe2] :=
    hbyte ['e', '2'] rfl (by decide) rfl .nil
  have hacute : SpellsChar ['\\', 'u', '0', '0', 'e', '9'] '\u00e9' :=
    .four rfl (hex (by decide)) rfl
  have heuro : SpellsChar ('\\' :: 'u' :: '\x7b' :: (['0', '2', '0', 'A', 'c'] ++ ['\x7d']))
      '\u20ac' :=
    .braced nofun (hex (by decide)) rfl
  have hs : SpellsText es s.toList := by
    rw [String.toList_ofList]
    exact .cons (.bytes htwo) (.cons (.bytes hfour) (.cons (.escaped (by decide) (by decide)
      (by decide)) (.cons (.raw (by decide) (by decide)) (.cons (.letter (l := 's') (by decide))
      (.cons hacute (.cons heuro .nil))))))
  have hd : Utf8.decodeLossy [0xe2] = ['\ufffd'] := by
    simp [Utf8.decodeLossy, Utf8.units]
  obtain ⟨ht, hr⟩ := takeText_spelled hs rest
  exact ⟨hs, ht, hd ▸ hr hrun hs⟩

end TableGraph.Dump.Literal
