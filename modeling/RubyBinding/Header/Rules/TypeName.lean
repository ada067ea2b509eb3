import RubyBinding.Header.Part

/-!
# Rules: types

What can stand for a type in front of a declarator, with the qualifiers and storage classes around
it. Sizes such as `unsigned long` may have a name or a builtin type among them, and where a size comes
first also qualifiers, which then belong to the spelling of the type.
-/

namespace RubyBinding.Header

open Header.Part Grammar.Rule

/-- A type that sizes may qualify. A name there weighs less than one that is declared. -/
def sizedBase : PartRule := optional (choice [weigh (-1) Terminal.word, Terminal.primitive])

/-- The rules of types that are named, and of enumerations. -/
def typeRules : List (Part × PartRule) := [
  (storage, oneOf ["extern", "static", "register", "inline", "__inline", "__inline__",
    "__forceinline", "thread_local", "__thread"]),
  (qualifier, choice [
    oneOf ["const", "constexpr", "volatile", "restrict", "__restrict__", "__extension__", "_Atomic",
      "_Noreturn", "noreturn", "_Nonnull", "mutable", "constinit", "consteval"],
    seq [oneOf ["alignas", "_Alignas"], Terminal.group]]),
  (typeSpecifier, choice [structType, unionType, enumeration, classType, sizedType,
    Terminal.primitive, templateType, dependentType, placeholder, decltypeType,
    rightward (choice [qualifiedType, Terminal.word])]),
  (sizedType, choice [
    seq [many sizeWord, sizedBase, many1 sizeWord],
    seq [many1 sizeWord, many qualifier, sizedBase, many sizeWord]]),
  (sizeWord, oneOf ["signed", "unsigned", "long", "short"]),
  (placeholder, level 1 (seq [optional typeSpecifier,
    choice ["auto", seq ["decltype", "(", "auto", ")"]]])),
  (decltypeType, seq ["decltype", Terminal.group]),
  (dependentType, weigh (-1) (rightward (seq ["typename", typeSpecifier]))),
  (enumeration, rightward (seq ["enum", optional (oneOf ["class", "struct"]),
    choice [seq [className, optional enumerationBase, optional enumerators], enumerators],
    optional gnuAttribute])),
  (enumerationBase, leftward (seq [":", choice [qualifiedType, Terminal.word, Terminal.primitive,
    sizedType]])),
  (enumerators, seq ["\x7b",
    many (choice [seq [enumerator, ","], seq [enumerator, line], line]), optional enumerator,
    "\x7d"]),
  (enumerator, seq [Terminal.word, optional (seq ["=", expression])])]

end RubyBinding.Header
