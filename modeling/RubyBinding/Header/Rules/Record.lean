import RubyBinding.Header.Part

/-!
# Rules: classes

The heads of classes, structs and unions, and what stands between their braces. Directives stand
among the members by themselves. A constructor is a function without a type, and a conversion a
function whose name is a type.
-/

namespace RubyBinding.Header

open Header.Part Header.Family Grammar.Rule

/-- What a member is initialised with. -/
def memberInitialiser : PartRule :=
  choice [seq [":", expression], Terminal.block,
    seq ["=", choice [expression, Terminal.block]]]

/-- The rules of classes and their members. -/
def recordRules : List (Part × PartRule) := [
  (classHead, seq [
    many (choice [gnuAttribute, seq [oneOf ["alignas", "_Alignas"], Terminal.group]]),
    optional declspec, many Terminal.attribute, classTail]),
  (classTail, rightward (seq [
    choice [className,
      seq [optional className, optional virtualSpecifier, optional baseClause, members]],
    optional gnuAttribute])),
  (structType, seq ["struct", classHead]),
  (unionType, seq ["union", classHead]),
  (classType, seq ["class", classHead]),
  (className, rightward (choice [Terminal.word, templateType, qualifiedType])),
  (baseClause, seq [":", separated1 "," (seq [many Terminal.attribute,
    optional (choice [seq [access, optional "virtual"], seq ["virtual", optional access]]),
    className, optional "..."])]),
  (access, oneOf ["public", "private", "protected"]),
  (members, seq ["\x7b", many Part.member, "\x7d"]),
  (Part.member, choice [line, field, templateDeclaration, methodDefinition, constructorDefinition,
    constructorDeclaration, conversionDefinition, conversionDeclaration, friendDeclaration,
    seq [access, ":"], aliasDeclaration, usingDeclaration, typedefDeclaration, staticAssert, ";"]),
  (field, seq [specifiers,
    separated "," (seq [declarator .member, optional memberInitialiser]), optional gnuAttribute,
    ";"]),
  (methodDefinition, seq [specifiers, declarator .member, choice [functionBody, defaulted]]),
  (defaulted, choice [seq ["=", "default", ";"], seq ["=", "delete", ";"]]),
  (pureMark, seq ["=", Terminal.number, ";"]),
  (constructorModifier, choice [modifier, explicitSpecifier]),
  (explicitSpecifier, choice ["explicit", level 15 (seq ["explicit", Terminal.group])]),
  (conversionDefinition, seq [many constructorModifier,
    choice [conversionName, qualifiedConversion], functionBody]),
  (conversionDeclaration, level 1 (seq [many constructorModifier,
    choice [conversionName, qualifiedConversion], optional (seq ["=", expression]), ";"])),
  (conversionName, bind 1 (some .right) (seq ["operator", specifiers, declarator abstract])),
  (qualifiedConversion, seq [scopePrefix, choice [qualifiedConversion, conversionName]]),
  (constructorDefinition, seq [many constructorModifier, function plain, choice [
    seq [optional initialisers, functionBody], constructorTry, defaulted, pureMark]]),
  (constructorTry, seq ["try", optional initialisers, Terminal.body, many1 handler]),
  (constructorDeclaration, seq [many constructorModifier, function plain, ";"]),
  (initialisers, seq [":", separated1 "," initialiser]),
  (initialiser, level 1 (seq [choice [Terminal.word, templateMethod, qualifiedField],
    choice [Terminal.block, arguments], optional "..."])),
  (friendDeclaration, seq [optional "constexpr", "friend", choice [declaration, functionDefinition,
    seq [optional (oneOf ["class", "struct", "union"]), className, ";"]]])]

end RubyBinding.Header
