import RubyBinding.Header.Grammar
import RubyBinding.Header.Reading

/-!
# Dividing a header

One way to divide a header by the grammar. Where it leaves the grammar, the lexeme that cannot be
read there is left out, and the rest is read as ever.
-/

namespace RubyBinding.Header

/-- Divide lexemes by the grammar, without those that cannot be read where they stand. What breaks
off in the middle is left out from its end. -/
def divideLexemes (lexemes : List Lexeme) : Parsed :=
  match treeOf lexemes with
  | .ok trees => ⟨lexemes.toArray, trees.flatMap Tree.children⟩
  | .error position =>
    if _h : lexemes = [] then ⟨#[], []⟩
    else divideLexemes (lexemes.eraseIdx (min position (lexemes.length - 1)))
termination_by lexemes.length
decreasing_by
  have := List.length_pos_iff.mpr _h
  rw [List.length_eraseIdx_of_lt (by omega)]
  omega

/-- Divide a header by the grammar. -/
def parse (source : String) : Parsed := divideLexemes (Lexeme.scan source.toList)

end RubyBinding.Header
