import RubyBinding.Header.Part

/-!
# Rules: expressions

Expressions are read to know where they end. The level of an operator is how tightly it holds its
operands.
-/

namespace RubyBinding.Header

open Header.Part Header.Family Grammar.Rule

/-- The operators between two expressions, with their levels. -/
def binaryOperators : List (String × Int) :=
  [("+", 10), ("-", 10), ("*", 11), ("/", 11), ("%", 11), ("||", 1), ("&&", 2), ("|", 3), ("^", 4),
    ("&", 5), ("==", 6), ("!=", 6), (">", 7), (">=", 7), ("<=", 7), ("<", 7), ("<<", 9), (">>", 9),
    ("<=>", 8), ("or", 1), ("and", 2), ("bitor", 3), ("xor", 4), ("bitand", 5), ("not_eq", 6)]

/-- An expression, an operator and an expression. -/
def binaryRule (operator : String × Int) : PartRule :=
  bind operator.2 (some .left) (seq [expression, operator.1, expression])

/-- What may stand between the brackets and the body of a function without a name. -/
def lambdaTailRule : PartRule := choice [
  seq [many Terminal.attribute, parameters, many lambdaSpecifier, optional exceptions,
    many Terminal.attribute, optional trailingType, optional requiresClause],
  seq [many Terminal.attribute, trailingType],
  seq [many Terminal.attribute, exceptions, many Terminal.attribute, optional trailingType],
  seq [many Terminal.attribute, many1 lambdaSpecifier, optional exceptions,
    many Terminal.attribute, optional trailingType]]

/-- The rules of expressions. -/
def expressionRules : List (Part × PartRule) := [
  (expression, choice [plainExpression, binary]),
  (plainExpression, choice [ternary, assignment, unary, update, typeCast, pointerExpression,
    sizeExpression, subscript, call, memberAccess, literalObject, Terminal.word, Terminal.number,
    stringConstant, Terminal.char, constant, parenthesised, assembly, extended, requiresExpression,
    requiresClause, templateFunction, qualifiedName, newExpression, deleteExpression, lambda,
    expansion, foldExpression, await]),
  (constant, oneOf ["true", "false", "TRUE", "FALSE", "NULL", "nullptr", "this"]),
  (stringConstant, rightward (choice [Terminal.string,
    seq [choice [Terminal.word, Terminal.string], Terminal.string,
      many (choice [Terminal.word, Terminal.string])]])),
  (commaExpression, seq [expression, ",", choice [expression, commaExpression]]),
  (ternary, bind (-1) (some .right) (seq [expression, "?",
    optional (choice [expression, commaExpression]), ":", expression])),
  (assignment, bind (-2) (some .right) (seq [expression,
    oneOf ["=", "*=", "/=", "%=", "+=", "-=", "<<=", ">>=", "&=", "^=", "|=", "and_eq", "or_eq",
      "xor_eq"],
    choice [expression, Terminal.block]])),
  (pointerExpression, bind 12 (some .left) (seq [oneOf ["*", "&"], expression])),
  (unary, bind 14 (some .left) (seq [oneOf ["!", "~", "-", "+", "not", "compl"], expression])),
  (binary, choice (binaryOperators.map binaryRule)),
  (update, bind 14 (some .right) (choice [seq [oneOf ["--", "++"], expression],
    seq [expression, oneOf ["--", "++"]]])),
  (typeCast, level 12 (seq ["(", typeDescriptor, ")", expression])),
  (typeDescriptor, rightward (seq [many qualifier, typeSpecifier, many qualifier,
    optional (declarator abstract)])),
  (sizeExpression, level 13 (choice [
    seq ["sizeof", choice [expression, seq ["(", typeDescriptor, ")"]]],
    seq [oneOf ["__alignof__", "__alignof", "_alignof", "alignof", "_Alignof", "offsetof",
      "_Generic"], Terminal.group]])),
  (subscript, level 17 (seq [expression, Terminal.brackets])),
  (call, choice [level 15 (seq [expression, arguments]), seq [Terminal.primitive, arguments]]),
  (assembly, level 15 (seq [oneOf ["asm", "__asm__", "__asm"],
    many (oneOf ["volatile", "__volatile__", "inline", "goto"]), Terminal.group])),
  (extended, seq ["__extension__", expression]),
  (arguments, seq ["(", separated "," (choice [expression, Terminal.block, Terminal.body]), ")"]),
  (memberAccess, seq [level 16 (seq [expression, oneOf [".", ".*", "->"]]),
    choice [Terminal.word, qualifiedField, destructorName, templateMethod, dependentMethod]]),
  (literalObject, choice [seq ["(", typeDescriptor, ")", Terminal.block],
    seq [choice [className, Terminal.primitive], Terminal.block]]),
  (parenthesised, seq ["(", choice [expression, commaExpression, Terminal.body], ")"]),
  (await, bind 14 (some .left) (seq ["co_await", expression])),
  (newExpression, bind 16 (some .right) (seq [optional "::", "new", optional arguments,
    typeSpecifier, optional newBounds, optional (choice [arguments, Terminal.block])])),
  (newBounds, rightward (seq [Terminal.brackets, optional newBounds])),
  (deleteExpression, seq [optional "::", "delete", optional Terminal.brackets, expression]),
  (requiresClause, seq ["requires", constraint]),
  (constraint, choice [oneOf ["true", "false", "TRUE", "FALSE"], className, foldExpression, lambda,
    requiresExpression, seq ["(", expression, ")"],
    bind 2 (some .left) (seq [constraint, oneOf ["&&", "and"], constraint]),
    bind 1 (some .left) (seq [constraint, oneOf ["||", "or"], constraint])]),
  (requiresExpression, seq ["requires", optional parameters, Terminal.body]),
  (lambda, seq [level 18 Terminal.brackets,
    optional (seq [templateParameters, optional requiresClause]), optional lambdaTail,
    Terminal.body]),
  (lambdaTail, lambdaTailRule),
  (lambdaSpecifier, oneOf ["static", "constexpr", "consteval", "mutable"]),
  (foldExpression, seq ["(", choice [seq [expression, foldOperator, "..."],
    seq ["...", foldOperator, expression],
    seq [expression, foldOperator, "...", foldOperator, expression]], ")"]),
  (foldOperator, oneOf ["+", "-", "*", "/", "%", "^", "&", "|", "=", "<", ">", "<<", ">>", "+=",
    "-=", "*=", "/=", "%=", "^=", "&=", "|=", ">>=", "<<=", "==", "!=", "<=", ">=", "&&", "||", ",",
    ".*", "->*", "or", "and", "bitor", "xor", "bitand", "not_eq"]),
  (expansion, level (-1) (seq [expression, "..."]))]

/-- The rules of names. -/
def nameRules : List (Part × PartRule) := [
  (destructorName, level 1 (seq ["~", Terminal.word])),
  (dependentName, seq ["template", templateFunction]),
  (dependentMethod, seq ["template", templateMethod]),
  (dependentTypeName, seq ["template", templateType]),
  (scopePrefix, level 1 (seq [
    optional (choice [Terminal.word, templateType, decltypeType, dependentTypeName]), "::"])),
  (qualifiedField, seq [scopePrefix, choice [dependentMethod, qualifiedField, templateMethod,
    weigh 1 Terminal.word]]),
  (qualifiedName, seq [scopePrefix, choice [dependentName, qualifiedName, templateFunction,
    seq [optional "template", Terminal.word], operatorName, destructorName, pointer typedef]]),
  (qualifiedType, seq [scopePrefix, choice [dependentTypeName, qualifiedType, templateType,
    Terminal.word]]),
  (operatorName, level 1 (seq ["operator", Terminal.operator]))]

end RubyBinding.Header
