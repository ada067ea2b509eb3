import RubyBinding.Header.Part

/-!
# Rules: items

What stands at the level of namespaces. A conditional section holds items between its directives; its
alternatives are nested in one another, the last one innermost.
-/

namespace RubyBinding.Header

open Header.Part Header.Family Grammar.Rule

/-- The rules of items. -/
def itemRules : List (Part × PartRule) := [
  (header, many topItem),
  (topItem, choice [entity, topStatement]),
  (item, choice [entity, statement]),
  (entity, choice [conditionalSection, Terminal.strayDirective, functionDefinition, linkage,
    declaration, typedefDeclaration, emptyDeclaration, nspace, conceptDefinition, nspaceAlias,
    usingDeclaration, aliasDeclaration, staticAssert, templateDeclaration, templateInstantiation,
    constructorDefinition, conversionDefinition, conversionDeclaration]),
  (conditionalSection, seq [Terminal.directive .opening, many item, optional alternative,
    Terminal.directive .closing]),
  (alternative, choice [elsePart, elifPart, elifdefPart]),
  (elsePart, seq [Terminal.directive .otherwise, many item]),
  (elifPart, seq [Terminal.directive .alternative, many item, optional alternative]),
  (elifdefPart, seq [Terminal.directive .alternativeDefined, many item, optional alternative]),
  (line, choice [Terminal.directive .opening, Terminal.directive .alternative,
    Terminal.directive .alternativeDefined, Terminal.directive .otherwise,
    Terminal.directive .closing]),
  (functionDefinition, seq [optional callModifier, specifiers, optional callModifier,
    declarator plain, functionBody]),
  (declaration, seq [specifiers,
    separated1 "," (choice [seq [declarator plain, optional assembly], initDeclarator]), ";"]),
  (typedefDeclaration, seq [optional "__extension__", "typedef", aliasedType, aliases,
    many gnuAttribute, ";"]),
  (aliasedType, seq [many qualifier, typeSpecifier, many qualifier]),
  (aliases, separated1 "," (declarator typedef)),
  (modifier, choice [storage, qualifier, gnuAttribute, Terminal.attribute, declspec, "virtual"]),
  (specifiers, rightward (seq [many modifier, typeSpecifier, many modifier])),
  (linkage, seq ["extern", Terminal.string, choice [functionDefinition, declaration, itemList]]),
  (gnuAttribute, seq [oneOf ["__attribute__", "__attribute"], Terminal.group]),
  (declspec, seq ["__declspec", Terminal.group]),
  (based, seq ["__based", Terminal.group]),
  (callModifier, oneOf ["__cdecl", "__clrcall", "__stdcall", "__fastcall", "__thiscall",
    "__vectorcall"]),
  (pointerModifier, oneOf ["__restrict", "__uptr", "__sptr", "_unaligned", "__unaligned"]),
  (itemList, seq ["\x7b", many item, "\x7d"])]

/-- The rules of namespaces, of names brought into them, and of statements, which declare nothing. -/
def scopeRules : List (Part × PartRule) := [
  (nspace, seq [optional "inline", "namespace", optional Terminal.attribute,
    optional (choice [Terminal.word, nestedName]), itemList]),
  (nspaceAlias, seq ["namespace", Terminal.word, "=", choice [Terminal.word, nestedName], ";"]),
  (nspacePart, seq [optional "inline", Terminal.word]),
  (nestedName, level 1 (seq [optional nspacePart, "::", choice [nestedName, nspacePart]])),
  (usingDeclaration, seq ["using", optional (oneOf ["namespace", "enum"]),
    choice [Terminal.word, qualifiedName], ";"]),
  (aliasDeclaration, seq ["using", Terminal.word, many Terminal.attribute, "=", typeDescriptor,
    ";"]),
  (staticAssert, seq ["static_assert", Terminal.group, ";"]),
  (conceptDefinition, seq ["concept", Terminal.word, "=", expression, ";"]),
  (emptyDeclaration, seq [typeSpecifier, ";"]),
  (statement, choice [
    seq [many Terminal.attribute, Terminal.word, ":", choice [declaration, statement]],
    seq [many Terminal.attribute, optional (choice [expression, commaExpression]), ";"],
    seq [many Terminal.attribute, Terminal.body]]),
  (topStatement, choice [
    seq [many Terminal.attribute, Terminal.word, ":", choice [declaration, statement]],
    seq [many Terminal.attribute, optional plainExpression, ";"],
    seq [many Terminal.attribute, Terminal.body]])]

end RubyBinding.Header
