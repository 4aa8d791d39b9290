/-
The rules of the script grammar, by name.
-/

namespace ScriptAudit

inductive Rule
  -- whole scripts and statements
  | program | statement | block | emptyStmt | semi
  -- modules
  | importDecl | importFrom | importBare | importClause | importDefaultNamed | importNamed
  | importSpec | importNamespace | exportDecl
  -- declarations
  | functionDecl | params | param | paramDefault | restElement | binding | arrayPattern
  | objectPattern | patternProp | patternKeyed | patternDefault | varStatement | varDecl | declarator
  -- statements by keyword
  | ifStmt | whileStmt | doWhileStmt | forStmt | forInit | forInOfStmt | forLeft | varHead | tryStmt
  | catchClause | finallyClause | returnStmt | breakStmt | continueStmt | throwStmt | exprStmt
  -- expressions
  | expr | assignExpr | assignment | arrowFunction | arrowParams | conditional
  | logicalOr | logicalAnd | bitOr | bitXor | bitAnd | equality | relational | shift | additive
  | multiplicative | exponent
  | unary | awaitExpr | prefixUpdate | prefixUnary | postfixExpr
  | callMember | callTail | arguments | argument | spreadElement | memberDot | memberIndex
  | optionalChain | newExpr | newCallee
  | primary | parenExpr | thisExpr | functionExpr | arrayLiteral | objectLiteral | objectMember
  | methodMember | keyedMember | propKey | computedKey
  | template | templatePart | templateSubst | templateChars
  -- operators
  | assignOp | orOp | andOp | bitOrOp | bitXorOp | bitAndOp | equalityOp | relationalOp | shiftOp
  | additiveOp | mulOp | expOp | updateOp | unaryOp
  -- literals
  | literal | number | string | boolean | null
  -- words
  | keyword | importWord | exportWord | defaultWord | fromWord | asWord | asyncWord | awaitWord
  | functionWord | varKind | ifWord | elseWord | whileWord | doWord | forWord | ofWord | inWord
  | tryWord | catchWord | finallyWord | returnWord | breakWord | continueWord | throwWord | newWord
  -- names and what stands between tokens
  | identifier | propertyName | trivia
  deriving DecidableEq, Hashable

namespace Rule

def name : Rule → String
  | program => "program"
  | statement => "statement"
  | block => "block"
  | emptyStmt => "empty_stmt"
  | semi => "semi"
  | importDecl => "import_decl"
  | importFrom => "import_from"
  | importBare => "import_bare"
  | importClause => "import_clause"
  | importDefaultNamed => "import_default_named"
  | importNamed => "import_named"
  | importSpec => "import_spec"
  | importNamespace => "import_namespace"
  | exportDecl => "export_decl"
  | functionDecl => "function_decl"
  | params => "params"
  | param => "param"
  | paramDefault => "param_default"
  | restElement => "rest_element"
  | binding => "binding"
  | arrayPattern => "array_pattern"
  | objectPattern => "object_pattern"
  | patternProp => "pattern_prop"
  | patternKeyed => "pattern_keyed"
  | patternDefault => "pattern_default"
  | varStatement => "var_statement"
  | varDecl => "var_decl"
  | declarator => "declarator"
  | ifStmt => "if_stmt"
  | whileStmt => "while_stmt"
  | doWhileStmt => "do_while_stmt"
  | forStmt => "for_stmt"
  | forInit => "for_init"
  | forInOfStmt => "for_in_of_stmt"
  | forLeft => "for_left"
  | varHead => "var_head"
  | tryStmt => "try_stmt"
  | catchClause => "catch_clause"
  | finallyClause => "finally_clause"
  | returnStmt => "return_stmt"
  | breakStmt => "break_stmt"
  | continueStmt => "continue_stmt"
  | throwStmt => "throw_stmt"
  | exprStmt => "expr_stmt"
  | expr => "expr"
  | assignExpr => "assign_expr"
  | assignment => "assignment"
  | arrowFunction => "arrow_function"
  | arrowParams => "arrow_params"
  | conditional => "conditional"
  | logicalOr => "logical_or"
  | logicalAnd => "logical_and"
  | bitOr => "bit_or"
  | bitXor => "bit_xor"
  | bitAnd => "bit_and"
  | equality => "equality"
  | relational => "relational"
  | shift => "shift"
  | additive => "additive"
  | multiplicative => "multiplicative"
  | exponent => "exponent"
  | unary => "unary"
  | awaitExpr => "await_expr"
  | prefixUpdate => "prefix_update"
  | prefixUnary => "prefix_unary"
  | postfixExpr => "postfix_expr"
  | callMember => "call_member"
  | callTail => "call_tail"
  | arguments => "arguments"
  | argument => "argument"
  | spreadElement => "spread_element"
  | memberDot => "member_dot"
  | memberIndex => "member_index"
  | optionalChain => "optional_chain"
  | newExpr => "new_expr"
  | newCallee => "new_callee"
  | primary => "primary"
  | parenExpr => "paren_expr"
  | thisExpr => "this_expr"
  | functionExpr => "function_expr"
  | arrayLiteral => "array_literal"
  | objectLiteral => "object_literal"
  | objectMember => "object_member"
  | methodMember => "method_member"
  | keyedMember => "keyed_member"
  | propKey => "prop_key"
  | computedKey => "computed_key"
  | template => "template"
  | templatePart => "template_part"
  | templateSubst => "template_subst"
  | templateChars => "template_chars"
  | assignOp => "assign_op"
  | orOp => "or_op"
  | andOp => "and_op"
  | bitOrOp => "bit_or_op"
  | bitXorOp => "bit_xor_op"
  | bitAndOp => "bit_and_op"
  | equalityOp => "equality_op"
  | relationalOp => "relational_op"
  | shiftOp => "shift_op"
  | additiveOp => "additive_op"
  | mulOp => "mul_op"
  | expOp => "exp_op"
  | updateOp => "update_op"
  | unaryOp => "unary_op"
  | literal => "literal"
  | number => "number"
  | string => "string"
  | boolean => "boolean"
  | null => "null"
  | keyword => "keyword"
  | importWord => "IMPORT"
  | exportWord => "EXPORT"
  | defaultWord => "DEFAULT"
  | fromWord => "FROM"
  | asWord => "AS"
  | asyncWord => "ASYNC"
  | awaitWord => "AWAIT"
  | functionWord => "FUNCTION"
  | varKind => "VAR_KIND"
  | ifWord => "IF"
  | elseWord => "ELSE"
  | whileWord => "WHILE"
  | doWord => "DO"
  | forWord => "FOR"
  | ofWord => "OF"
  | inWord => "IN"
  | tryWord => "TRY"
  | catchWord => "CATCH"
  | finallyWord => "FINALLY"
  | returnWord => "RETURN"
  | breakWord => "BREAK"
  | continueWord => "CONTINUE"
  | throwWord => "THROW"
  | newWord => "NEW"
  | identifier => "identifier"
  | propertyName => "property_name"
  | trivia => "_"

def all : List Rule :=
  [program, statement, block, emptyStmt, semi, importDecl, importFrom, importBare, importClause,
   importDefaultNamed, importNamed, importSpec, importNamespace, exportDecl, functionDecl, params,
   param, paramDefault, restElement, binding, arrayPattern, objectPattern, patternProp, patternKeyed,
   patternDefault, varStatement, varDecl, declarator, ifStmt, whileStmt, doWhileStmt, forStmt,
   forInit, forInOfStmt, forLeft, varHead, tryStmt, catchClause, finallyClause, returnStmt, breakStmt,
   continueStmt, throwStmt, exprStmt, expr, assignExpr, assignment, arrowFunction, arrowParams,
   conditional, logicalOr, logicalAnd, bitOr, bitXor, bitAnd, equality, relational, shift, additive,
   multiplicative, exponent, unary, awaitExpr, prefixUpdate, prefixUnary, postfixExpr, callMember,
   callTail, arguments, argument, spreadElement, memberDot, memberIndex, optionalChain, newExpr,
   newCallee, primary, parenExpr, thisExpr, functionExpr, arrayLiteral, objectLiteral, objectMember,
   methodMember, keyedMember, propKey, computedKey, template, templatePart, templateSubst,
   templateChars, assignOp, orOp, andOp, bitOrOp, bitXorOp, bitAndOp, equalityOp, relationalOp,
   shiftOp, additiveOp, mulOp, expOp, updateOp, unaryOp, literal, number, string, boolean, null,
   keyword, importWord, exportWord, defaultWord, fromWord, asWord, asyncWord, awaitWord, functionWord,
   varKind, ifWord, elseWord, whileWord, doWord, forWord, ofWord, inWord, tryWord, catchWord,
   finallyWord, returnWord, breakWord, continueWord, throwWord, newWord, identifier, propertyName,
   trivia]

end Rule

end ScriptAudit
