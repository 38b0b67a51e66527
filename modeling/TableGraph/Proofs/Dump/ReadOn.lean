import TableGraph.Proofs.Dump.Grammar
import TableGraph.Proofs.Dump.Lexeme

namespace TableGraph.Dump

theorem tokens_of_take {cs rest : List Char} {t : Token}
    (h : Token.take cs = .ok (some (t, rest))) : tokens cs = (tokens rest).map (t :: ·) := by
  rw [tokens]
  split
  · next hk => cases h.symm.trans hk
  · next hk => cases h.symm.trans hk
  · next hk =>
    cases h.symm.trans hk
    cases tokens rest <;> rfl

theorem tokens_of_error {cs : List Char} {e : Token.Error} (h : Token.take cs = .error e) :
    tokens cs = .error e := by
  rw [tokens]
  split
  · next hk => cases h.symm.trans hk; rfl
  · next hk => cases h.symm.trans hk
  · next hk => cases h.symm.trans hk

theorem tokens_nil : tokens [] = .ok [.eof] := by
  rw [tokens]
  rfl

theorem tokens_blank {c : Char} (hc : Text.isBlank c) (cs : List Char) :
    tokens (c :: cs) = tokens cs := by
  rw [tokens.eq_def (c :: cs), tokens.eq_def cs, Token.take_blank hc]

namespace Progress

def readOn (p : Progress) (cs : List Char) : Except Error Tree :=
  match tokens cs with
  | .error e => .error (.token e)
  | .ok ts => p.finish ts

theorem readOn_of_take {p p' : Progress} {cs rest : List Char} {t : Token}
    (ht : Token.take cs = .ok (some (t, rest))) (hs : p.step t = .ok p') :
    p.readOn cs = p'.readOn rest := by
  rw [readOn, readOn, tokens_of_take ht]
  cases tokens rest with
  | error e => rfl
  | ok ts => exact finish_of_step hs ts

theorem readOn_blank (p : Progress) {c : Char} (hc : Text.isBlank c) (cs : List Char) :
    p.readOn (c :: cs) = p.readOn cs := by
  rw [readOn, readOn, tokens_blank hc]

theorem readOn_openBracket (frames : List (List Tree)) (cs : List Char) :
    (before frames).readOn ('[' :: cs) = (before ([] :: frames)).readOn cs :=
  readOn_of_take (Token.take_openBracket cs) rfl

theorem readOn_closeBracket (frame : List Tree) (frames : List (List Tree)) (cs : List Char) :
    (after frame frames).readOn (']' :: cs) = (close frame frames).readOn cs :=
  readOn_of_take (Token.take_closeBracket cs) rfl

theorem readOn_comma (frame : List Tree) (frames : List (List Tree)) (cs : List Char) :
    (after frame frames).readOn (',' :: ' ' :: cs) = (before (frame :: frames)).readOn cs := by
  rw [readOn_of_take (Token.take_comma _) rfl, readOn_blank _ (by decide)]

theorem readOn_word {w : List Char} {token : Token} (hw : WritesWord w token) {t : Tree}
    (ht : token.atom? = some t) (frames : List (List Tree)) {rest : List Char}
    (hr : EndsWord rest) : (before frames).readOn (w ++ rest) = (place t frames).readOn rest :=
  readOn_of_take (hw.take hr) (step_before_atom ht frames)

theorem readOn_symbol {text : String} (ht : IsPlain text) (frames : List (List Tree))
    {rest : List Char} (hr : EndsWord rest) :
    (before frames).readOn (':' :: (text.toList ++ rest)) =
      (place (.symbol text) frames).readOn rest :=
  readOn_word (.symbol ht) rfl frames hr

end Progress

end TableGraph.Dump

namespace TableGraph.Tree

theorem parse_eq_readOn (text : String) :
    parse text = (Dump.Progress.before []).readOn text.toList := rfl

end TableGraph.Tree
