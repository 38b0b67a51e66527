import Mathlib.Data.List.Basic
import TableGraph.Proofs.Dump.ReadOn
import TableGraph.Proofs.Tree.Occurs
import TableGraph.Tree.Printer

namespace TableGraph.Dump

variable [Text.Printing]

theorem closed_writeRest (ts : List Tree) (rest : List Char) :
    Closed (Tree.writeRest ts ++ ']' :: rest) := by
  cases ts with
  | nil => exact closed_bracket rest
  | cons t ts => exact closed_comma _

namespace Progress

mutual

theorem readOn_write {t : Tree} (ht : t.Readable) (frames : List (List Tree)) {rest : List Char}
    (hr : Closed rest) :
    (before frames).readOn (t.write ++ rest) = (place t frames).readOn rest := by
  obtain ⟨⟨hf, hp, hl⟩, hc⟩ := Tree.everywhere_iff.mp ht
  cases t with
  | tagged tag children =>
    calc (before frames).readOn ((Tree.tagged tag children).write ++ rest)
        = (before frames).readOn
            ('[' :: ':' :: (tag.toList ++ (Tree.writeRest children ++ ']' :: rest))) := by
          simp [Tree.write]
      _ = (after [.symbol tag] frames).readOn (Tree.writeRest children ++ ']' :: rest) := by
          rw [readOn_openBracket, readOn_symbol hp _ (closed_writeRest children rest).endsWord]
          rfl
      _ = (place (.tagged tag children) frames).readOn rest :=
          readOn_writeRest hc [.symbol tag] frames hr
  | list items =>
    cases items with
    | nil =>
      exact (readOn_openBracket frames _).trans (readOn_of_take (Token.take_closeBracket rest) rfl)
    | cons t ts =>
      calc (before frames).readOn ((Tree.list (t :: ts)).write ++ rest)
          = (before frames).readOn ('[' :: (t.write ++ (Tree.writeRest ts ++ ']' :: rest))) := by
            simp [Tree.write, Tree.writeItems]
        _ = (after [t] frames).readOn (Tree.writeRest ts ++ ']' :: rest) := by
            rw [readOn_openBracket,
              readOn_write (hc t List.mem_cons_self) _ (closed_writeRest ts rest)]
            rfl
        _ = (place (.ofItems (t :: ts)) frames).readOn rest :=
            readOn_writeRest (fun c h => hc c (List.mem_cons_of_mem t h)) [t] frames hr
        _ = (place (.list (t :: ts)) frames).readOn rest := by rw [Tree.ofItems_eq_list hl]
  | symbol text => exact readOn_symbol hp frames hr.endsWord
  | str text =>
    exact readOn_of_take (Token.take_str (Literal.quotes_encode text) rest)
      (step_before_atom rfl frames)
  | int n => exact readOn_word (.int (Token.writesInt_writeInt n)) rfl frames hr.endsWord
  | float x => exact absurd trivial hf
  | bool b =>
    cases b with
    | true => exact readOn_word .true rfl frames hr.endsWord
    | false => exact readOn_word .false rfl frames hr.endsWord
  | nil => exact readOn_word .nil rfl frames hr.endsWord

theorem readOn_writeRest {ts : List Tree} (hts : ∀ t ∈ ts, t.Readable) (frame : List Tree)
    (frames : List (List Tree)) {rest : List Char} (hr : Closed rest) :
    (after frame frames).readOn (Tree.writeRest ts ++ ']' :: rest) =
      (place (.ofItems (frame.reverse ++ ts)) frames).readOn rest := by
  cases ts with
  | nil =>
    rw [List.append_nil]
    exact readOn_closeBracket frame frames rest
  | cons t ts =>
    calc (after frame frames).readOn (Tree.writeRest (t :: ts) ++ ']' :: rest)
        = (after frame frames).readOn
            (',' :: ' ' :: (t.write ++ (Tree.writeRest ts ++ ']' :: rest))) := by
          simp [Tree.writeRest]
      _ = (after (t :: frame) frames).readOn (Tree.writeRest ts ++ ']' :: rest) := by
          rw [readOn_comma, readOn_write (hts t List.mem_cons_self) _ (closed_writeRest ts rest)]
          rfl
      _ = (place (.ofItems ((t :: frame).reverse ++ ts)) frames).readOn rest :=
          readOn_writeRest (fun c h => hts c (List.mem_cons_of_mem t h)) (t :: frame) frames hr
      _ = (place (.ofItems (frame.reverse ++ t :: ts)) frames).readOn rest := by simp

end

end Progress

end TableGraph.Dump

namespace TableGraph.Tree

theorem parse_toText [Text.Printing] {t : Tree} (ht : t.Readable) : parse t.toText = .ok t := by
  rw [parse_eq_readOn, toText, String.toList_ofList, ← List.append_nil t.write,
    Dump.Progress.readOn_write ht [] Dump.closed_nil, Dump.Progress.readOn, Dump.tokens_nil]
  rfl

/-- The trees that may stand where the arrays `frames` are open in `root`. -/
def Within (root : Tree) : List (List Tree) → Tree → Prop
  | [], t => t = root
  | frame :: frames, t => ∃ later, Within root frames (.ofItems (frame.reverse ++ t :: later))

theorem ofItems_injective {items items' : List Tree} (h : ofItems items = ofItems items') :
    items = items' := by
  unfold ofItems at h
  split at h
  · split at h
    · cases h; rfl
    · cases h
  · split at h
    · cases h
    · cases h; rfl

theorem Within.unique {root : Tree} {frames : List (List Tree)} {t u : Tree}
    (ht : Within root frames t) (hu : Within root frames u) : t = u := by
  induction frames generalizing t u with
  | nil => exact ht.trans hu.symm
  | cons frame frames ih =>
    obtain ⟨ts, ht⟩ := ht
    obtain ⟨us, hu⟩ := hu
    exact (List.cons.inj (List.append_cancel_left (ofItems_injective (ih ht hu)))).1

end TableGraph.Tree

namespace TableGraph.Dump

open TableGraph.Tree (Within)

namespace Progress

theorem within_of_finish {t root : Tree} {frames : List (List Tree)} {ts : List Token}
    (h : (place t frames).finish ts = .ok root) : Within root frames t := by
  induction frames generalizing t ts with
  | nil =>
    cases ts with
    | nil => cases h
    | cons u us => cases u <;> cases h; rfl
  | cons frame frames ih =>
    obtain ⟨_, vs, items, _, _, h⟩ := (sound ts).2 (t :: frame) frames root h
    exact ⟨items, by simpa using ih h⟩

theorem within_of_readOn {t root : Tree} {frames : List (List Tree)} {cs : List Char}
    (h : (place t frames).readOn cs = .ok root) : Within root frames t := by
  rw [readOn] at h
  split at h
  · cases h
  · exact within_of_finish h

theorem readOn_writeItems [Text.Printing] {items : List Tree} (hi : items ≠ []) (frame : List Tree)
    (frames : List (List Tree)) (cs : List Char) :
    (after frame frames).readOn (Tree.writeRest items ++ cs) =
      (before (frame :: frames)).readOn (Tree.writeItems items ++ cs) := by
  cases items with
  | nil => exact absurd rfl hi
  | cons t ts => exact readOn_comma frame frames _

theorem plain_of_readOn {text : String} {frames : List (List Tree)} {rest : List Char}
    {root : Tree} (hr : Closed rest)
    (h : (before frames).readOn (':' :: (text.toList ++ rest)) = .ok root)
    (hw : ∀ s, Within root frames (.symbol s) → s = text) : IsPlain text := by
  have hk := Token.take_colon (text.toList ++ rest)
  cases ht : Token.takeSymbol (text.toList ++ rest) with
  | error e =>
    rw [ht] at hk
    rw [readOn, tokens_of_error hk] at h
    cases h
  | ok v =>
    rw [ht] at hk
    rw [readOn_of_take hk (step_before_atom rfl frames)] at h
    have hv : v.1 = text := hw v.1 (within_of_readOn h)
    exact Token.plain_of_takeSymbol hr (ht.trans (by rw [← hv]))

mutual

theorem plain_of_write [Text.Printing] {t root : Tree}
    (ht : t.Everywhere fun s => ¬s.IsFloat ∧ ¬s.LooksTagged) {frames : List (List Tree)}
    {rest : List Char} (hr : Closed rest) (hw : Within root frames t)
    (h : (before frames).readOn (t.write ++ rest) = .ok root) : t.Everywhere Tree.IsPlain := by
  obtain ⟨⟨_, hl⟩, hc⟩ := Tree.everywhere_iff.mp ht
  rw [Tree.everywhere_iff]
  cases t with
  | tagged tag children =>
    have hcs : Closed (Tree.writeRest children ++ ']' :: rest) := closed_writeRest children rest
    simp only [Tree.write, List.cons_append, List.append_assoc, List.nil_append] at h
    rw [readOn_openBracket] at h
    -- No tree but `t` fits in its place, so that its tag is the symbol that was read.
    have hp : IsPlain tag := by
      refine plain_of_readOn hcs h ?_
      intro s ⟨later, hs⟩
      cases hs.unique hw
      rfl
    rw [readOn_symbol hp _ hcs.endsWord] at h
    exact ⟨hp, plain_of_writeItems hc hr hw fun hn => (readOn_writeItems hn _ _ _).symm.trans h⟩
  | list items =>
    have hwi : Within root frames (.ofItems (List.reverse [] ++ items)) := by
      rw [List.reverse_nil, List.nil_append, Tree.ofItems_eq_list hl]
      exact hw
    simp only [Tree.write, List.cons_append, List.append_assoc, List.nil_append] at h
    rw [readOn_openBracket] at h
    exact ⟨trivial, plain_of_writeItems hc hr hwi fun _ => h⟩
  | symbol text =>
    refine ⟨plain_of_readOn hr h ?_, nofun⟩
    intro s hs
    cases hs.unique hw
    rfl
  | _ => exact ⟨trivial, nofun⟩

theorem plain_of_writeItems [Text.Printing] {items : List Tree} {root : Tree}
    (hi : ∀ t ∈ items, t.Everywhere fun s => ¬s.IsFloat ∧ ¬s.LooksTagged) {frame : List Tree}
    {frames : List (List Tree)} {rest : List Char} (hr : Closed rest)
    (hw : Within root frames (.ofItems (frame.reverse ++ items)))
    (h : items ≠ [] → (before (frame :: frames)).readOn (Tree.writeItems items ++ ']' :: rest) =
      .ok root) : ∀ t ∈ items, t.Everywhere Tree.IsPlain := by
  cases items with
  | nil => nofun
  | cons t ts =>
    have ht := hi t List.mem_cons_self
    have hcs : Closed (Tree.writeRest ts ++ ']' :: rest) := closed_writeRest ts rest
    have h := h (List.cons_ne_nil t ts)
    rw [Tree.writeItems, List.append_assoc] at h
    have hwt : Within root (frame :: frames) t := ⟨ts, hw⟩
    have hp : t.Everywhere Tree.IsPlain := plain_of_write ht hcs hwt h
    -- An item known to be readable ends where its text does, and the next begins there.
    rw [readOn_write (Tree.readable_of_plain ht hp) _ hcs] at h
    have hwts : Within root frames (.ofItems ((t :: frame).reverse ++ ts)) := by simpa using hw
    intro c hc
    cases hc with
    | head => exact hp
    | tail _ hc =>
      exact plain_of_writeItems (fun c hm => hi c (List.mem_cons_of_mem t hm)) hr hwts
        (fun hn => (readOn_writeItems hn _ _ _).symm.trans h) c hc

end

end Progress

end TableGraph.Dump

namespace TableGraph.Tree

open Dump.Progress in
theorem not_looksTagged_of_parse {text : String} {t : Tree} (h : parse text = .ok t) :
    t.Everywhere (¬·.LooksTagged) := by
  rw [parse] at h
  split at h
  · cases h
  · next ts _ =>
    cases (sound ts).1 [] t h with
    | inl h =>
      obtain ⟨us, vs, u, _, hu, h⟩ := h
      rw [← within_of_finish h]
      exact hu.not_looksTagged
    | inr h =>
      obtain ⟨_, _, _, hf, _⟩ := h
      cases hf

/-- A tree without floats is read back from its text just if its names need no quotes and no list
in it looks like a tagged tree. -/
theorem parse_toText_eq_ok_iff [Text.Printing] {t : Tree} (hf : t.Everywhere (¬·.IsFloat)) :
    parse t.toText = .ok t ↔ t.Everywhere IsPlain ∧ t.Everywhere (¬·.LooksTagged) := by
  constructor
  · intro h
    have hl : t.Everywhere (¬·.LooksTagged) := not_looksTagged_of_parse h
    rw [parse_eq_readOn, toText, String.toList_ofList, ← List.append_nil t.write] at h
    have hw : Within t [] t := rfl
    exact ⟨Dump.Progress.plain_of_write (everywhere_and.mpr ⟨hf, hl⟩) Dump.closed_nil hw h, hl⟩
  · intro ⟨hp, hl⟩
    exact parse_toText (readable_of_plain (everywhere_and.mpr ⟨hf, hl⟩) hp)

theorem parse_toText_element_assignment :
    let t : Tree := .tagged "[]=" [.list [.str "a, \"b\"", .int (-1)], .symbol "c", .nil]
    t.Everywhere (¬·.IsFloat) ∧ parse t.toText = .ok t := by
  intro t
  have hf : t.Everywhere (¬·.IsFloat) := by simp [t, IsFloat]
  have hp : t.Everywhere IsPlain := by simp +decide [t, IsPlain]
  have hl : t.Everywhere (¬·.LooksTagged) := by simp [t, LooksTagged, IsSymbol]
  exact ⟨hf, (parse_toText_eq_ok_iff hf).mpr ⟨hp, hl⟩⟩

end TableGraph.Tree
