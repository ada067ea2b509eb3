import RubyBinding.Header.Part

/-!
# Rules: declarators

A declarator has what it declares innermost, with pointers and references in front of it and bounds
and parameter lists behind. Pointers, references and functions weigh more than other readings, and
parentheses less, so that `a(b)` is read as a function where it can be one.
-/

namespace RubyBinding.Header

open Header.Part Header.Family Grammar.Rule

/-- The pointer marks and what may qualify them. -/
def pointerMarks : PartRule := seq ["*", many pointerModifier, many qualifier]

/-- The rules of the forms that declarators share. -/
def declaratorForms : List (Part × PartRule) := [
  (grouped plain, weigh (-10) (seq ["(", optional callModifier, declarator plain, ")"])),
  (grouped member, weigh (-10) (seq ["(", optional callModifier, declarator member, ")"])),
  (grouped typedef, weigh (-10) (seq ["(", optional callModifier, declarator typedef, ")"])),
  (grouped abstract, level 1 (seq ["(", optional callModifier, declarator abstract, ")"])),
  (attributed plain, rightward (seq [declarator plain, many1 Terminal.attribute])),
  (attributed member, rightward (seq [declarator member, many1 Terminal.attribute])),
  (attributed typedef, rightward (seq [declarator typedef, many1 Terminal.attribute])),
  (pointer plain, weigh 1 (rightward (seq [optional based, pointerMarks, declarator plain]))),
  (pointer member, weigh 1 (rightward (seq [optional based, pointerMarks, declarator member]))),
  (pointer typedef, weigh 1 (rightward (seq [optional based, pointerMarks, declarator typedef]))),
  (pointer abstract, weigh 1 (rightward (seq [pointerMarks, optional (declarator abstract)]))),
  (function plain, weigh 1 (seq [declarator plain, functionTail])),
  (function member, weigh 1 (seq [declarator member, functionTail])),
  (function typedef, level 1 (seq [declarator typedef, parameters])),
  (function abstract, seq [optional (declarator abstract), functionTail]),
  (array plain, level 1 (seq [declarator plain, Terminal.brackets])),
  (array member, level 1 (seq [declarator member, Terminal.brackets])),
  (array typedef, level 1 (seq [declarator typedef, Terminal.brackets])),
  (array abstract, level 1 (seq [optional (declarator abstract), Terminal.brackets])),
  (reference plain, weigh 1 (rightward (seq [oneOf ["&", "&&"], declarator plain]))),
  (reference member, weigh 1 (rightward (seq [oneOf ["&", "&&"], declarator member]))),
  (reference typedef, weigh 1 (rightward (seq [oneOf ["&", "&&"], declarator typedef]))),
  (reference abstract, rightward (seq [oneOf ["&", "&&"], optional (declarator abstract)])),
  (binding, weigh (-1) Terminal.brackets)]

/-- The rules of declarators. -/
def declaratorRules : List (Part × PartRule) := [
  (declarator plain, choice [attributed plain, pointer plain, function plain, array plain,
    grouped plain, Terminal.word, reference plain, qualifiedName, templateFunction, operatorName,
    destructorName, binding]),
  (declarator member, choice [attributed member, pointer member, function member, array member,
    grouped member, Terminal.word, reference member, templateMethod, operatorName]),
  (declarator typedef, choice [attributed typedef, pointer typedef, function typedef, array typedef,
    grouped typedef, Terminal.word, oneOf ["signed", "unsigned", "long", "short"], Terminal.primitive,
    reference typedef]),
  (declarator abstract, choice [pointer abstract, function abstract, array abstract,
    grouped abstract, reference abstract])]
  ++ declaratorForms ++ [
  (functionTail, seq [parameters, optional tailQualifiers, optional refQualifier,
    optional exceptions, optional tailAttributes, optional trailingType, optional tailEnd]),
  (tailQualifiers, level 1 (choice [seq [many1 gnuAttribute, many qualifier],
    seq [many gnuAttribute, many1 qualifier]])),
  (refQualifier, oneOf ["&", "&&"]),
  (exceptions, choice [rightward (seq ["noexcept", optional Terminal.group]),
    seq ["throw", Terminal.group]]),
  (tailAttributes, rightward (seq [optional assembly, choice [
    seq [many1 gnuAttribute, many Terminal.attribute],
    seq [many gnuAttribute, many1 Terminal.attribute]]])),
  (trailingType, seq ["->", typeDescriptor]),
  (tailEnd, rightward (choice [many1 virtualSpecifier, requiresClause])),
  (virtualSpecifier, oneOf ["final", "override"]),
  (initDeclarator, choice [
    seq [declarator plain, "=", choice [Terminal.block, expression]],
    seq [declarator plain, choice [arguments, Terminal.block]]]),
  (parameters, seq ["(", separated "," (choice [parameter, selfParameter, optionalParameter,
    packParameter, "..."]), ")"]),
  (parameter, seq [specifiers, optional (choice [declarator plain, declarator abstract]),
    many gnuAttribute]),
  (selfParameter, seq ["this", parameter]),
  (optionalParameter, seq [specifiers,
    optional (choice [declarator plain, reference abstract]), "=", expression]),
  (packParameter, seq [specifiers, choice [packName, seq [oneOf ["&&", "&"], packName]]]),
  (packName, seq ["...", optional Terminal.word]),
  (functionBody, choice [Terminal.body, tryBlock]),
  (tryBlock, seq ["try", Terminal.body, many1 handler]),
  (handler, seq ["catch", Terminal.group, Terminal.body])]

end RubyBinding.Header
