import BpmnLite.Collect
import BpmnLite.Dmn.Ast

/-!
# The parser of the decision language

A recursive-descent parser over tokens that reports errors and recovers. The state is the token looked
at and those behind it, of which the last one is never passed. Loops and nested predicates take fuel;
running out of it is reported like any other error, so a run without errors is one of the source.
-/

namespace BpmnLite.Dmn

open Collect (fail giveUp report attempt reportIf strictly listen)

inductive TokenKind where
  | lParen
  | rParen
  | lBracket
  | rBracket
  | dotDot
  | eq
  | notEq
  | lt
  | le
  | gt
  | ge
  | star
  | symbol (name : String)
  | strLit (value : String)
  | intLit (text : String)
  | decLit (text : String)
  | eof
  deriving DecidableEq

def TokenKind.description : TokenKind → String
  | lParen => "'('"
  | rParen => "')'"
  | lBracket => "'['"
  | rBracket => "']'"
  | dotDot => "'..'"
  | eq => "'='"
  | notEq => "'!='"
  | lt => "'<'"
  | le => "'<='"
  | gt => "'>'"
  | ge => "'>='"
  | star => "'*'"
  | symbol s => "'" ++ s ++ "'"
  | strLit _ => "string literal"
  | intLit s => "integer '" ++ s ++ "'"
  | decLit s => "decimal '" ++ s ++ "'"
  | eof => "end of input"

structure Token where
  kind : TokenKind
  span : SourceSpan
  deriving DecidableEq

/-- The errors of the parser; `outOfFuel` is not one of the source. -/
inductive ParseError where
  | unexpectedEof (expected : String) (span : SourceSpan)
  | unexpectedToken (expected found : String) (span : SourceSpan)
  | unknownHitPolicy (name : String) (span : SourceSpan)
  | unsupportedHitPolicy (name : String) (span : SourceSpan)
  | missingField (keyword : String) (span : SourceSpan)
  | emptySet (span : SourceSpan)
  | tooFewPredicates (combinator : String) (span : SourceSpan)
  | wildcardMixedWithPredicates (span : SourceSpan)
  | multipleCatchAllRules (span previous : SourceSpan)
  | multipleDecisions (span firstDecision : SourceSpan)
  | outOfFuel
  deriving DecidableEq

namespace Parser

structure Cursor where
  token : Token
  rest : List Token

def Cursor.advance (c : Cursor) : Cursor :=
  match c.rest with
  | [] => c
  | t :: ts => ⟨t, ts⟩

abbrev ParserM := Collect ParseError Cursor

section Tokens

def peek : ParserM Token := fun c => (some c.token, [], c)

def bump : ParserM Token := fun c => (some c.token, [], c.advance)

/-- Give up with the error that the token looked at is not what was expected. -/
def unexpected {α : Type} (expected : String) : ParserM α := do
  let token ← peek
  fail (.unexpectedToken expected token.kind.description token.span)

def expectKind (kind : TokenKind) (expected : String) : ParserM Token := do
  let token ← peek
  if token.kind = kind then bump else unexpected expected

def expectLParen (context : String) : ParserM Token := expectKind .lParen ("'(' for " ++ context)

def expectRParen (context : String) : ParserM Token := expectKind .rParen ("')' for " ++ context)

def expectDotDot : ParserM Token := expectKind .dotDot "'..' range separator"

def expectSymbol (context : String) : ParserM SymbolAst := do
  let token ← peek
  match token.kind with
  | .symbol name => do
    let _ ← bump
    return ⟨name, token.span⟩
  | _ => unexpected ("symbol (" ++ context ++ ")")

def expectSymbolNamed (name : String) : ParserM Token := do
  let token ← peek
  if token.kind = .symbol name then bump
  else if token.kind = .eof then fail (.unexpectedEof ("'" ++ name ++ "'") token.span)
  else unexpected ("'" ++ name ++ "'")

end Tokens

section Recovery

/-- The loop of `recover_to_paren_close`, with the tokens behind the one looked at. -/
def closeParen : Token → List Token → ℕ → Cursor
  | t, [], _ => ⟨t, []⟩
  | t, u :: us, depth =>
    match t.kind with
    | .eof => ⟨t, u :: us⟩
    | .lParen => closeParen u us (depth + 1)
    | .rParen => if depth = 1 then ⟨u, us⟩ else closeParen u us (depth - 1)
    | _ => closeParen u us depth

def recoverToParenClose (depth : ℕ) (c : Cursor) : Cursor := closeParen c.token c.rest depth

/-- Skip the tokens before one at which `stop` holds. -/
def skipTo (stop : TokenKind → Bool) : Token → List Token → Cursor
  | t, [] => ⟨t, []⟩
  | t, u :: us => if stop t.kind then ⟨t, u :: us⟩ else skipTo stop u us

def recoverPastCurrentParenClose (c : Cursor) : Cursor :=
  if c.token.kind = .lParen then recoverToParenClose 1 c
  else skipTo (fun kind => kind = .lParen ∨ kind = .rParen ∨ kind = .eof) c.token c.rest

def isKeyword : TokenKind → Bool
  | .symbol name => name.startsWith ":"
  | _ => false

def recoverToKeywordOrRParen (c : Cursor) : Cursor :=
  skipTo (fun kind => isKeyword kind ∨ kind = .rParen ∨ kind = .eof) c.token c.rest

/-- What `parse_rules_block` skips of a broken rule. -/
def recoverFromRule (c : Cursor) : Cursor :=
  let c := skipTo (fun kind => kind = .lParen ∨ kind = .rParen ∨ kind = .eof) c.token c.rest
  if c.token.kind = .lParen then recoverToParenClose 1 c else c

end Recovery

section Loops

def closes (token : Token) : Bool := token.kind = .rParen ∨ token.kind = .eof

def recoverIf (failed : Bool) (recover : Cursor → Cursor) : ParserM Unit :=
  Collect.update fun c => if failed then recover c else c

/-- Items up to a closing parenthesis; after one that fails, go on past it. -/
def parseItems {α : Type} (item : ParserM α) : ℕ → ParserM (List α)
  | 0 => fail .outOfFuel
  | fuel + 1 => do
    let token ← peek
    if closes token then return []
    else do
      let a ← attempt item
      recoverIf a.isNone recoverPastCurrentParenClose
      let as ← parseItems item fuel
      return a.toList ++ as

/-- A block in parentheses; it is empty if it does not open, and its end is not insisted on. -/
def parseBlock {α : Type} (keyword : String) (items : ParserM (List α)) : ParserM (List α) := do
  match ← attempt (expectLParen ("'(' for " ++ keyword)) with
  | none => return []
  | some _ => do
    let found ← items
    let _ ← attempt (expectRParen ("')' to close " ++ keyword))
    return found

end Loops

section Literals

def parseLiteral : ParserM LiteralAst := do
  let token ← peek
  match token.kind with
  | .symbol name => do
    let _ ← bump
    return if name = "true" then .boolean true token.span
      else if name = "false" then .boolean false token.span
      else .symbol ⟨name, token.span⟩
  | .strLit value => do
    let _ ← bump
    return .string ⟨value, token.span⟩
  | .intLit text => do
    let _ ← bump
    return .number ⟨text, .integer, token.span⟩
  | .decLit text => do
    let _ ← bump
    return .number ⟨text, .decimal, token.span⟩
  | _ => unexpected "literal (symbol, string, number, boolean)"

def parseNumericLiteral : ParserM NumberLitAst := do
  let token ← peek
  match token.kind with
  | .intLit text => do
    let _ ← bump
    return ⟨text, .integer, token.span⟩
  | .decLit text => do
    let _ ← bump
    return ⟨text, .decimal, token.span⟩
  | _ => unexpected "numeric literal"

def parseStringLit : ParserM StringLitAst := do
  let token ← peek
  match token.kind with
  | .strLit value => do
    let _ ← bump
    return ⟨value, token.span⟩
  | _ => unexpected "string literal"

end Literals

section Predicates

def parseRangeBound : ParserM RangeBound := do
  let token ← peek
  if token.kind = .star then do
    let _ ← bump
    return .unbounded token.span
  else do
    let n ← parseNumericLiteral
    return .value n

/-- One of two brackets; `true` for the inclusive one. -/
def parseBracket (inclusive exclusive : TokenKind) (expected : String) : ParserM Bool := do
  let token ← peek
  if token.kind = inclusive then do
    let _ ← bump
    return true
  else if token.kind = exclusive then do
    let _ ← bump
    return false
  else unexpected expected

def parseRange (start : ℕ) (field : SymbolAst) : ParserM PredicateAst := do
  let lowerInclusive ← parseBracket .lBracket .lParen "'[' or '(' for range"
  let lower ← parseRangeBound
  let _ ← expectDotDot
  let upper ← parseRangeBound
  let upperInclusive ← parseBracket .rBracket .rParen "']' or ')' to close range"
  let close ← expectRParen "')' to close range predicate"
  return .range field lower upper lowerInclusive upperInclusive ⟨start, close.span.stop⟩

/-- The members of a set; the first one that fails ends the loop. -/
def parseSetValues : ℕ → ParserM (List LiteralAst)
  | 0 => fail .outOfFuel
  | fuel + 1 => do
    let token ← peek
    if closes token then return []
    else do
      match ← attempt parseLiteral with
      | none => return []
      | some literal => do
        let literals ← parseSetValues fuel
        return literal :: literals

def parseEmptySet (start : ℕ) (field : SymbolAst) (openToken : Token) : ParserM PredicateAst := do
  let token ← peek
  report (.emptySet ⟨openToken.span.start, token.span.stop⟩)
  let _ ← bump
  let close ← expectRParen "')' to close predicate"
  return .inSet field [] ⟨start, close.span.stop⟩

def parseSetMembership (fuel start : ℕ) (field : SymbolAst) : ParserM PredicateAst := do
  let openToken ← expectLParen "'(' for set values"
  let token ← peek
  if token.kind = .rParen then parseEmptySet start field openToken
  else do
    let values ← parseSetValues fuel
    let _ ← attempt (expectRParen "')' to close set values")
    let close ← expectRParen "')' to close predicate"
    return .inSet field values ⟨start, close.span.stop⟩

/-- A number or star and then two dots: a range with an exclusive lower bound. -/
def peekIsRangeAfterLParen (c : Cursor) : Bool :=
  match c.rest with
  | inside :: after :: _ =>
    (match inside.kind with
      | .intLit _ | .decLit _ | .star => true
      | _ => false) && after.kind = .dotDot
  | _ => false

/-- Give up on a predicate and go to where it is closed. -/
def abandon {α : Type} (expected : String) : ParserM α := do
  let token ← peek
  report (.unexpectedToken expected token.kind.description token.span)
  Collect.update (recoverToParenClose 1)
  giveUp

def parseSetOrRange (fuel start : ℕ) (field : SymbolAst) : ParserM PredicateAst := do
  let c ← Collect.read
  match c.token.kind with
  | .lBracket => parseRange start field
  | .lParen =>
    if peekIsRangeAfterLParen c then parseRange start field
    else parseSetMembership fuel start field
  | _ => abandon "'(' for set or '['/('(' for range"

def parseEquality (make : LiteralAst → SourceSpan → PredicateAst) (start : ℕ) :
    ParserM PredicateAst := do
  let _ ← bump
  let value ← parseLiteral
  let close ← expectRParen "')' to close predicate"
  return make value ⟨start, close.span.stop⟩

/-- The right side of an ordered comparison must be a number. -/
def parseOrdered (make : NumberLitAst → SourceSpan → PredicateAst) (start : ℕ) :
    ParserM PredicateAst := do
  let _ ← bump
  let value ← parseNumericLiteral
  let close ← expectRParen "')' to close comparison"
  return make value ⟨start, close.span.stop⟩

def parseNullTest (make : SourceSpan → PredicateAst) (name : String) (start : ℕ) :
    ParserM PredicateAst := do
  let _ ← bump
  let close ← expectRParen ("')' to close '" ++ name ++ "'")
  return make ⟨start, close.span.stop⟩

/-- The part of `parse_predicate` behind the field. -/
def parseFieldPredicate (fuel start : ℕ) (field : SymbolAst) : ParserM PredicateAst := do
  let token ← peek
  match token.kind with
  | .eq => parseEquality (.eq field) start
  | .notEq => parseEquality (.notEq field) start
  | .lt => parseOrdered (.lt field) start
  | .le => parseOrdered (.le field) start
  | .gt => parseOrdered (.gt field) start
  | .ge => parseOrdered (.ge field) start
  | .symbol name =>
    if name = "in" then do
      let _ ← bump
      parseSetOrRange fuel start field
    else if name = "is-null" then parseNullTest (.isNull field) name start
    else if name = "is-not-null" then parseNullTest (.isNotNull field) name start
    else abandon "predicate operator (=, !=, <, <=, >, >=, in, is-null, is-not-null)"
  | _ => abandon "predicate operator (=, !=, <, <=, >, >=, in, is-null, is-not-null)"

def parseComparison (fuel start : ℕ) : ParserM PredicateAst := do
  match ← attempt (expectSymbol "field name in predicate") with
  | some field => parseFieldPredicate fuel start field
  | none => do
    Collect.update (recoverToParenClose 1)
    giveUp

def parseNot (predicate : ParserM PredicateAst) (start : ℕ) : ParserM PredicateAst := do
  let _ ← bump
  let inner ← predicate
  let close ← expectRParen "')' to close 'not'"
  return .not inner ⟨start, close.span.stop⟩

/-- Too few items are reported, but kept. -/
def parseCombinator (predicate : ParserM PredicateAst) (fuel start : ℕ) (combinator : String)
    (make : List PredicateAst → SourceSpan → PredicateAst) : ParserM PredicateAst := do
  let _ ← bump
  let items ← parseItems predicate fuel
  let token ← peek
  reportIf (items.length < 2)
    (.tooFewPredicates combinator ⟨start, token.span.stop⟩)
  let close ← expectRParen ("')' to close '" ++ combinator ++ "'")
  return make items ⟨start, close.span.stop⟩

def parsePredicate : ℕ → ParserM PredicateAst
  | 0 => fail .outOfFuel
  | fuel + 1 => do
    let openToken ← expectLParen "'(' to open predicate"
    let start := openToken.span.start
    let token ← peek
    if token.kind = .symbol "not" then parseNot (parsePredicate fuel) start
    else if token.kind = .symbol "and" then
      parseCombinator (parsePredicate fuel) fuel start "and" .and
    else if token.kind = .symbol "or" then
      parseCombinator (parsePredicate fuel) fuel start "or" .or
    else parseComparison fuel start

/-- The rest of a `:when` block behind its star. -/
def parseCatchAll (start : ℕ) : ParserM WhenAst := do
  let star ← bump
  let token ← peek
  if token.kind = .rParen then do
    let close ← expectRParen "')' to close catch-all :when"
    return .catchAll ⟨start, close.span.stop⟩
  else do
    report (.wildcardMixedWithPredicates star.span)
    Collect.update (recoverToParenClose 1)
    giveUp

/-- A predicate of a `:when` block; a star there is reported and passed. -/
def parseWhenItem (fuel : ℕ) : ParserM (Option PredicateAst) := do
  let token ← peek
  if token.kind = .star then do
    report (.wildcardMixedWithPredicates token.span)
    let _ ← bump
    return none
  else do
    let p ← parsePredicate fuel
    return some p

def parsePredicateBlock (fuel : ℕ) : ParserM WhenAst := do
  let openToken ← expectLParen "'(' for :when"
  let start := openToken.span.start
  let token ← peek
  if token.kind = .star then parseCatchAll start
  else do
    let preds ← parseItems (parseWhenItem fuel) fuel
    let close ← expectRParen "')' to close :when block"
    return .predicates preds.reduceOption ⟨start, close.span.stop⟩

end Predicates

section Rules

def parseAssignment : ParserM AssignmentAst := do
  let openToken ← expectLParen "'(' to open assignment"
  let output ← expectSymbol "output field name"
  let token ← peek
  if token.kind = .eq then do
    let _ ← bump
    let value ← parseLiteral
    let close ← expectRParen "')' to close assignment"
    return ⟨output, value, ⟨openToken.span.start, close.span.stop⟩⟩
  else abandon "'=' in assignment"

def parseAssignmentBlock (fuel : ℕ) : ParserM (List AssignmentAst) :=
  parseBlock ":then" (parseItems parseAssignment fuel)

def parseRule (fuel : ℕ) : ParserM RuleAst := do
  let openToken ← expectLParen "'(' to open rule"
  let _ ← expectSymbolNamed "rule"
  let id ← expectSymbol "rule identifier"
  let _ ← expectSymbolNamed ":when"
  let when ← parsePredicateBlock fuel
  let _ ← expectSymbolNamed ":then"
  let assigns ← parseAssignmentBlock fuel
  let close ← expectRParen "')' to close rule"
  return ⟨id, when, assigns, ⟨openToken.span.start, close.span.stop⟩⟩

/-- The span of the first catch-all, once there is one; a second one is reported. -/
def noteCatchAll (catchAll : Option SourceSpan) (rule : Option RuleAst) :
    ParserM (Option SourceSpan) :=
  match rule, catchAll with
  | some ⟨_, .catchAll span, _, _⟩, some previous => do
    report (.multipleCatchAllRules span previous)
    return some previous
  | some ⟨_, .catchAll span, _, _⟩, none => pure (some span)
  | _, _ => pure catchAll

def parseRules (rule : ParserM RuleAst) : ℕ → Option SourceSpan → ParserM (List RuleAst)
  | 0, _ => fail .outOfFuel
  | fuel + 1, catchAll => do
    let token ← peek
    if closes token then return []
    else do
      let r ← attempt rule
      recoverIf r.isNone recoverFromRule
      let catchAll ← noteCatchAll catchAll r
      let rs ← parseRules rule fuel catchAll
      return r.toList ++ rs

def parseRulesBlock (fuel : ℕ) : ParserM (List RuleAst) :=
  parseBlock ":rules" (parseRules (parseRule fuel) fuel none)

end Rules

section Decisions

def parseTypeRef : ParserM TypeRefAst := do
  let token ← peek
  match token.kind with
  | .symbol name => do
    let _ ← bump
    if name = "enum" then return .enum token.span
    else if name = "bool" then return .bool token.span
    else if name = "integer" then return .integer token.span
    else if name = "decimal" then return .decimal token.span
    else if name = "string" then return .string token.span
    else fail (.unexpectedToken "type keyword (enum, bool, integer, decimal, string)"
      ("'" ++ name ++ "'") token.span)
  | _ => unexpected "type keyword"

def parseFieldDeclInner : ParserM FieldDeclAst := do
  let openToken ← expectLParen "'(' to open field declaration"
  let name ← expectSymbol "field name"
  let _ ← expectSymbolNamed ":type"
  let typeRef ← parseTypeRef
  let _ ← expectSymbolNamed ":domain"
  let domainRef ← expectSymbol "domain name"
  let close ← expectRParen "')' to close field declaration"
  return ⟨name, typeRef, domainRef, ⟨openToken.span.start, close.span.stop⟩⟩

def parseInputsBlock (fuel : ℕ) : ParserM (List FieldDeclAst) :=
  parseBlock ":inputs" (parseItems parseFieldDeclInner fuel)

def parseOutputsBlock (fuel : ℕ) : ParserM (List FieldDeclAst) :=
  parseBlock ":outputs" (parseItems parseFieldDeclInner fuel)

def parseHitPolicyKind : ParserM HitPolicyAst := do
  let token ← peek
  match token.kind with
  | .symbol name => do
    let _ ← bump
    if name = "unique" then return .unique token.span
    else if name = "first" then return .first token.span
    else if name ∈ ["collect", "any", "rule_order", "rule-order"] then
      fail (.unsupportedHitPolicy name token.span)
    else fail (.unknownHitPolicy name token.span)
  | _ => unexpected "hit policy keyword ('unique' or 'first')"

/-- An attribute of a decision: its value if the keyword is there. -/
def parseAttribute {α : Type} (keyword : String) (value : ParserM α) : ParserM (Option α) := do
  let token ← peek
  if token.kind = .symbol keyword then do
    let _ ← bump
    attempt value
  else return none

/-- Report that a required attribute is missing, and skip to where one may begin. -/
def requireKeyword (keyword : String) (recover : Cursor → Cursor) : ParserM Unit := do
  let token ← peek
  reportIf (token.kind ≠ .symbol keyword) (.missingField keyword token.span)
  recoverIf (token.kind ≠ .symbol keyword) recover

def parseRequired {α : Type} (keyword : String) (value : ParserM α) : ParserM (Option α) := do
  requireKeyword keyword recoverToKeywordOrRParen
  parseAttribute keyword value

/-- The rules are not looked for again after recovery. -/
def parseRulesAttribute (fuel : ℕ) : ParserM (List RuleAst) := do
  let token ← peek
  if token.kind = .symbol ":rules" then do
    let _ ← bump
    parseRulesBlock fuel
  else do
    requireKeyword ":rules" (recoverToParenClose 1)
    return []

def parseDecision (fuel : ℕ) : ParserM DecisionAst := do
  let openToken ← expectLParen "'(define-decision ...'"
  let _ ← expectSymbolNamed "define-decision"
  let name ← expectSymbol "decision name"
  let decisionId ← parseAttribute ":decision-id" parseStringLit
  let hitPolicy ← parseRequired ":hit-policy" parseHitPolicyKind
  let inputs ← parseRequired ":inputs" (parseInputsBlock fuel)
  let outputs ← parseRequired ":outputs" (parseOutputsBlock fuel)
  let rules ← parseRulesAttribute fuel
  let close ← expectRParen "end of decision"
  let span := ⟨openToken.span.start, close.span.stop⟩
  return {
    name
    decisionId
    hitPolicy := hitPolicy.getD (.unique span)
    inputs := inputs.getD []
    outputs := outputs.getD []
    rules
    span }

def beginsDecision (c : Cursor) : Bool :=
  c.token.kind = .lParen && (c.rest.head?.map (·.kind)) = some (.symbol "define-decision")

/-- What is wrong with tokens behind the decision. -/
def trailingError (start : ℕ) (decision : Option DecisionAst) (c : Cursor) : ParseError :=
  if beginsDecision c then
    .multipleDecisions c.token.span ((decision.map (·.span)).getD ⟨start, start⟩)
  else .unexpectedToken "end of input after decision" c.token.kind.description c.token.span

def parseFirst (fuel : ℕ) : ParserM (Option DecisionAst) := do
  let token ← peek
  if token.kind = .eof then return none
  else attempt (parseDecision fuel)

def parseOnly (fuel : ℕ) : ParserM (Option DecisionAst) := do
  let first ← peek
  let decision ← parseFirst fuel
  let c ← Collect.read
  reportIf (c.token.kind ≠ .eof) (trailingError first.span.start decision c)
  return decision

/-- An empty source is an error only if nothing else was reported. -/
def parseSource (fuel : ℕ) : ParserM Source := do
  let first ← peek
  let (decision, errors) ← listen (parseOnly fuel)
  let decisions := decision.join.toList
  let last ← peek
  reportIf (decisions = [] ∧ errors = [])
    (.unexpectedEof "'(define-decision ...)'" last.span)
  return ⟨decisions, ⟨first.span.start, last.span.stop⟩⟩

end Decisions

end Parser

/-- The errors of a source, with the decision that could still be read. -/
structure ParseErrors where
  errors : List ParseError
  partialAst : Option Source

/-- `parse` behind the lexer: the tree, if nothing was reported. -/
def parse (fuel : ℕ) (tokens : Parser.Cursor) : Except ParseErrors Source :=
  match Parser.parseSource fuel tokens with
  | (some source, [], _) => .ok source
  | (source, errors, _) => .error ⟨errors, source.filter (·.decisions ≠ [])⟩

end BpmnLite.Dmn
