import RubyBinding.Header.Part

/-!
# Rules: templates

Templates declare nothing that is entered, but their parameters and arguments have to be told from
comparisons. Of the readings of an argument that is a type weighs most.
-/

namespace RubyBinding.Header

open Header.Part Header.Family Grammar.Rule

/-- The rules of templates. -/
def templateRules : List (Part × PartRule) := [
  (templateDeclaration, seq ["template", templateParameters, optional requiresClause,
    choice [emptyDeclaration, aliasDeclaration, declaration, templateDeclaration,
      functionDefinition, conceptDefinition, friendDeclaration, constructorDeclaration,
      constructorDefinition, conversionDeclaration, conversionDefinition]]),
  (templateInstantiation, seq ["template", optional specifiers, declarator plain, ";"]),
  (templateParameters, seq ["<", separated "," (choice [parameter, optionalParameter,
    typeParameter, packParameter, packTypeParameter, optionalTypeParameter, templateParameter]),
    Terminal.closeAngle]),
  (typeParameter, level 1 (seq [oneOf ["typename", "class"], optional Terminal.word])),
  (packTypeParameter, level 1 (seq [oneOf ["typename", "class"], "...", optional Terminal.word])),
  (optionalTypeParameter, seq [oneOf ["typename", "class"], optional Terminal.word, "=",
    typeSpecifier]),
  (templateParameter, seq ["template", templateParameters,
    choice [typeParameter, packTypeParameter, optionalTypeParameter]]),
  (templateType, seq [Terminal.word, templateArguments]),
  (templateMethod, seq [Terminal.word, templateArguments]),
  (templateFunction, seq [Terminal.word, templateArguments]),
  (templateArguments, seq ["<", separated "," (choice [weigh 3 typeDescriptor,
    weigh 2 (seq [typeDescriptor, "..."]), weigh 1 expression]), Terminal.closeAngle])]

end RubyBinding.Header
