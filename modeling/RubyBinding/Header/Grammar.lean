import RubyBinding.Grammar.Reader
import RubyBinding.Header.Rules.Item
import RubyBinding.Header.Rules.Declarator
import RubyBinding.Header.Rules.TypeName
import RubyBinding.Header.Rules.Record
import RubyBinding.Header.Rules.Template
import RubyBinding.Header.Rules.Expression

/-!
# The grammar of headers

The grammar is that of C++ as far as declarations need it: function bodies, bracketed bounds and the
like are single tokens of which nothing more is read. `treeOf` gives what a header consists of.
-/

namespace RubyBinding.Header

/-- All rules, that of a whole header first. -/
def rules : List (Part × PartRule) :=
  itemRules ++ declaratorRules ++ typeRules ++ recordRules ++ templateRules ++ scopeRules ++
    expressionRules ++ nameRules

def layout : Grammar.Layout Terminal Part := .ofRules rules

/-- The marks that the rules are written with, longer ones first. -/
def marks : List String :=
  let texts := layout.numbering.tokens.list.toList.filterMap fun t =>
    match t with
    | .literal text => if text.toList.any Lexeme.inWord then none else some text
    | _ => none
  texts.mergeSort fun s t => t.length ≤ s.length

/-- The parts of a list from each of its positions on. -/
def suffixes {α : Type} : List α → List (List α)
  | [] => [[]]
  | a :: as => (a :: as) :: suffixes as

/-- What a header consists of. One that does not follow the grammar is an error at the lexeme that
cannot be read where it stands. -/
def treeOf (lexemes : List Lexeme) : Except Nat (List Tree) :=
  let rests := (suffixes lexemes).toArray
  layout.read Part.isHidden lexemes.length fun accepts position =>
    Terminal.choose marks accepts (rests.getD position [])

end RubyBinding.Header
