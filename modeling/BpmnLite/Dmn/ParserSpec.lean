import BpmnLite.Dmn.Parser

/-!
# What a source without errors says

A run of the parser that reports nothing returns a tree that prints back to the tokens it read
(`Reads`), whose `and` and `or` have two items or more, whose sets have members and which has at most
one catch-all rule.
-/

namespace BpmnLite.Dmn

variable {ps : List PredicateAst} {s t : Cursor} {expected context name keyword : String}
  {kind : TokenKind} {fuel : ℕ} {tokens : Parser.Cursor} {source : Source}

namespace PredicateAst

mutual

/-- Sets have members, `and` and `or` at least two items. -/
def WellFormed : PredicateAst → Prop
  | .inSet _ values _ => values ≠ []
  | .not inner _ => WellFormed inner
  | .and items _ => 2 ≤ items.length ∧ AllWellFormed items
  | .or items _ => 2 ≤ items.length ∧ AllWellFormed items
  | _ => True

def AllWellFormed : List PredicateAst → Prop
  | [] => True
  | p :: ps => WellFormed p ∧ AllWellFormed ps

end

theorem allWellFormed_iff : AllWellFormed ps ↔ ∀ p ∈ ps, WellFormed p := by
  induction ps with
  | nil => simp [AllWellFormed]
  | cons p ps ih => rw [AllWellFormed, ih, List.forall_mem_cons]

end PredicateAst

def WhenAst.WellFormed : WhenAst → Prop
  | .catchAll _ => True
  | .predicates preds _ => ∀ p ∈ preds, p.WellFormed

def WhenAst.isCatchAll : WhenAst → Bool
  | .catchAll _ => true
  | .predicates _ _ => false

structure DecisionAst.WellFormed (ast : DecisionAst) : Prop where
  rules : ∀ rule ∈ ast.rules, rule.when.WellFormed
  catchAll : ast.rules.countP (·.when.isCatchAll) ≤ 1

namespace Parser

open Collect

section Printing

def printNumber (n : NumberLitAst) : TokenKind :=
  match n.kind with
  | .integer => .intLit n.text
  | .decimal => .decLit n.text

def printLiteral : LiteralAst → TokenKind
  | .symbol s => .symbol s.name
  | .string s => .strLit s.value
  | .number n => printNumber n
  | .boolean true _ => .symbol "true"
  | .boolean false _ => .symbol "false"

def printBound : RangeBound → TokenKind
  | .unbounded _ => .star
  | .value n => printNumber n

def paren (text : List TokenKind) : List TokenKind := .lParen :: (text ++ [.rParen])

mutual

def printPredicate : PredicateAst → List TokenKind
  | .eq field value _ => paren [.symbol field.name, .eq, printLiteral value]
  | .notEq field value _ => paren [.symbol field.name, .notEq, printLiteral value]
  | .lt field value _ => paren [.symbol field.name, .lt, printNumber value]
  | .le field value _ => paren [.symbol field.name, .le, printNumber value]
  | .gt field value _ => paren [.symbol field.name, .gt, printNumber value]
  | .ge field value _ => paren [.symbol field.name, .ge, printNumber value]
  | .inSet field values _ =>
    paren ([.symbol field.name, .symbol "in"] ++ paren (values.map printLiteral))
  | .range field lower upper lowerInclusive upperInclusive _ =>
    paren [.symbol field.name, .symbol "in", if lowerInclusive then .lBracket else .lParen,
      printBound lower, .dotDot, printBound upper, if upperInclusive then .rBracket else .rParen]
  | .isNull field _ => paren [.symbol field.name, .symbol "is-null"]
  | .isNotNull field _ => paren [.symbol field.name, .symbol "is-not-null"]
  | .not inner _ => paren (.symbol "not" :: printPredicate inner)
  | .and items _ => paren (.symbol "and" :: printPredicates items)
  | .or items _ => paren (.symbol "or" :: printPredicates items)

def printPredicates : List PredicateAst → List TokenKind
  | [] => []
  | p :: ps => printPredicate p ++ printPredicates ps

end

theorem printPredicates_eq : printPredicates ps = ps.flatMap printPredicate := by
  induction ps with
  | nil => rw [printPredicates, List.flatMap_nil]
  | cons p ps ih => rw [printPredicates, ih, List.flatMap_cons]

def printWhen : WhenAst → List TokenKind
  | .catchAll _ => paren [.star]
  | .predicates preds _ => paren (preds.flatMap printPredicate)

def printAssignment (a : AssignmentAst) : List TokenKind :=
  paren [.symbol a.output.name, .eq, printLiteral a.value]

def printRule (rule : RuleAst) : List TokenKind :=
  paren ([.symbol "rule", .symbol rule.id.name, .symbol ":when"] ++ printWhen rule.when ++
    .symbol ":then" :: paren (rule.assigns.flatMap printAssignment))

def printTypeRef : TypeRefAst → TokenKind
  | .enum _ => .symbol "enum"
  | .bool _ => .symbol "bool"
  | .integer _ => .symbol "integer"
  | .decimal _ => .symbol "decimal"
  | .string _ => .symbol "string"

def printFieldDecl (decl : FieldDeclAst) : List TokenKind :=
  paren [.symbol decl.name.name, .symbol ":type", printTypeRef decl.typeRef, .symbol ":domain",
    .symbol decl.domainRef.name]

def printHitPolicy : HitPolicyAst → TokenKind
  | .unique _ => .symbol "unique"
  | .first _ => .symbol "first"

def printDecisionId : Option StringLitAst → List TokenKind
  | some s => [.symbol ":decision-id", .strLit s.value]
  | none => []

def printDecision (ast : DecisionAst) : List TokenKind :=
  paren ([.symbol "define-decision", .symbol ast.name.name] ++ printDecisionId ast.decisionId ++
    [.symbol ":hit-policy", printHitPolicy ast.hitPolicy] ++
    .symbol ":inputs" :: paren (ast.inputs.flatMap printFieldDecl) ++
    .symbol ":outputs" :: paren (ast.outputs.flatMap printFieldDecl) ++
    .symbol ":rules" :: paren (ast.rules.flatMap printRule))

end Printing

section Reading

def Cursor.kinds (c : Cursor) : List TokenKind := c.token.kind :: c.rest.map (·.kind)

/-- The end of the input is marked, and nowhere else. -/
def Terminated : Token → List Token → Prop
  | t, [] => t.kind = .eof
  | t, u :: us => t.kind ≠ .eof ∧ Terminated u us

instance decidableTerminated : ∀ (t : Token) (rest : List Token), Decidable (Terminated t rest)
  | t, [] => inferInstanceAs (Decidable (t.kind = .eof))
  | t, u :: us =>
    have := decidableTerminated u us
    inferInstanceAs (Decidable (t.kind ≠ .eof ∧ Terminated u us))

/-- Between the cursors lie these tokens, if the end of the input is marked as the lexer marks it. -/
def Reads (s : Cursor) (text : List TokenKind) (t : Cursor) : Prop :=
  Terminated s.token s.rest → Terminated t.token t.rest ∧ s.kinds = text ++ t.kinds

variable {u : Cursor} {text text' : List TokenKind}

theorem Reads.refl : Reads s [] s := fun h => ⟨h, rfl⟩

theorem Reads.trans (h : Reads s text t) (h' : Reads t text' u) : Reads s (text ++ text') u := by
  intro hs
  obtain ⟨ht, hst⟩ := h hs
  obtain ⟨hu, htu⟩ := h' ht
  refine ⟨hu, ?_⟩
  rw [hst, htu, List.append_assoc]

theorem reads_advance (h : s.token.kind ≠ .eof) : Reads s [s.token.kind] s.advance := by
  obtain ⟨token, rest⟩ := s
  intro hs
  cases rest with
  | nil => exact absurd hs h
  | cons u us => exact ⟨hs.2, rfl⟩

end Reading

section Tokens

variable {α : Type} {Q : α → Cursor → Prop}

theorem yields_peek {f : Token → ParserM α} (h : Yields (f s.token) s Q) : Yields (peek >>= f) s Q :=
  yields_bind fun _ => ⟨_, _, rfl, h⟩

theorem yields_bump {Q : Token → Cursor → Prop} (h : Q s.token s.advance) : Yields bump s Q :=
  fun _ => ⟨_, _, rfl, h⟩

theorem yields_bump_bind {f : Token → ParserM α} (h : Yields (f s.token) s.advance Q) :
    Yields (bump >>= f) s Q :=
  yields_bind (yields_bump h)

theorem yields_unexpected : Yields (unexpected expected) s Q := by
  apply yields_peek
  exact yields_fail

theorem yields_abandon : Yields (abandon expected) s Q := by
  apply yields_peek
  apply yields_bind
  exact yields_report

theorem yields_expectKind (hkind : kind ≠ .eof) :
    Yields (expectKind kind expected) s fun _ t => Reads s [kind] t := by
  apply yields_peek
  split
  case isTrue heq =>
    apply yields_bump
    rw [← heq]
    apply reads_advance
    rwa [heq]
  case isFalse => exact yields_unexpected

theorem yields_expectKind_of_ne {Q : Token → Cursor → Prop} (hne : s.token.kind ≠ kind) :
    Yields (expectKind kind expected) s Q := by
  apply yields_peek
  rw [if_neg hne]
  exact yields_unexpected

theorem yields_expectLParen : Yields (expectLParen context) s fun _ t => Reads s [.lParen] t :=
  yields_expectKind (by decide)

theorem yields_expectRParen : Yields (expectRParen context) s fun _ t => Reads s [.rParen] t :=
  yields_expectKind (by decide)

theorem yields_expectDotDot : Yields expectDotDot s fun _ t => Reads s [.dotDot] t :=
  yields_expectKind (by decide)

theorem reads_of_kind (hkind : s.token.kind = kind) (hne : kind ≠ .eof) :
    Reads s [kind] s.advance := by
  rw [← hkind]
  apply reads_advance
  rwa [hkind]

theorem yields_expectSymbol :
    Yields (expectSymbol context) s fun symbol t => Reads s [.symbol symbol.name] t := by
  apply yields_peek
  split
  case h_1 name hname =>
    apply yields_bump_bind
    exact yields_pure (reads_of_kind hname (by simp))
  case h_2 => exact yields_unexpected

theorem yields_expectSymbolNamed :
    Yields (expectSymbolNamed name) s fun _ t => Reads s [.symbol name] t := by
  apply yields_peek
  split
  case isTrue heq =>
    apply yields_bump
    exact reads_of_kind heq (by simp)
  case isFalse =>
    split
    case isTrue => exact yields_fail
    case isFalse => exact yields_unexpected

end Tokens

section Loops

variable {α : Type} {item : ParserM α} {print : α → List TokenKind} {good : α → Prop}

theorem yields_parseItems
    (hitem : ∀ s, Yields item s fun a t => Reads s (print a) t ∧ good a) (fuel : ℕ) (s : Cursor) :
    Yields (parseItems item fuel) s fun as t =>
      Reads s (as.flatMap print) t ∧ ∀ a ∈ as, good a := by
  induction fuel generalizing s with
  | zero => exact yields_fail
  | succ fuel ih =>
    apply yields_peek
    split
    case isTrue => exact yields_pure ⟨.refl, by simp⟩
    case isFalse =>
      apply yields_bind
      apply yields_attempt
      refine (hitem s).mono fun a t ha => ?_
      apply yields_bind
      apply yields_update
      refine (ih t).bind fun as u has => ?_
      refine yields_pure ⟨?_, ?_⟩
      · exact ha.1.trans has.1
      · exact List.forall_mem_cons.mpr ⟨ha.2, has.2⟩

theorem yields_parseBlock {items : ParserM (List α)} {P : List α → Prop}
    (hitems : ∀ s, Yields items s fun as t => Reads s (as.flatMap print) t ∧ P as) (s : Cursor) :
    Yields (parseBlock keyword items) s fun as t =>
      Reads s (paren (as.flatMap print)) t ∧ P as := by
  apply yields_bind
  apply yields_attempt
  refine yields_expectLParen.mono fun _ t ht => ?_
  refine (hitems t).bind fun as u has => ?_
  apply yields_bind
  apply yields_attempt
  refine yields_expectRParen.mono fun _ v hv => ?_
  exact yields_pure ⟨ht.trans (has.1.trans hv), has.2⟩

end Loops

section Literals

theorem yields_parseLiteral :
    Yields parseLiteral s fun literal t => Reads s [printLiteral literal] t := by
  apply yields_peek
  split
  case h_1 name hname =>
    apply yields_bump_bind
    apply yields_pure
    have hread := reads_of_kind hname (by simp)
    split
    case isTrue htrue =>
      rw [htrue] at hread
      exact hread
    case isFalse =>
      split
      case isTrue hfalse =>
        rw [hfalse] at hread
        exact hread
      case isFalse => exact hread
  case h_2 hkind | h_3 hkind | h_4 hkind =>
    have hread := reads_of_kind hkind (by simp)
    apply yields_bump_bind
    exact yields_pure hread
  case h_5 => exact yields_unexpected

theorem yields_parseNumericLiteral :
    Yields parseNumericLiteral s fun n t => Reads s [printNumber n] t := by
  apply yields_peek
  split
  case h_1 hkind | h_2 hkind =>
    have hread := reads_of_kind hkind (by simp)
    apply yields_bump_bind
    exact yields_pure hread
  case h_3 => exact yields_unexpected

theorem yields_parseStringLit :
    Yields parseStringLit s fun literal t => Reads s [.strLit literal.value] t := by
  apply yields_peek
  split
  case h_1 hkind =>
    have hread := reads_of_kind hkind (by simp)
    apply yields_bump_bind
    exact yields_pure hread
  case h_2 => exact yields_unexpected

theorem yields_parseRangeBound :
    Yields parseRangeBound s fun bound t => Reads s [printBound bound] t := by
  apply yields_peek
  split
  case isTrue hkind =>
    have hread := reads_of_kind hkind (by simp)
    apply yields_bump_bind
    exact yields_pure hread
  case isFalse =>
    refine yields_parseNumericLiteral.bind fun n t hn => ?_
    exact yields_pure hn

theorem yields_parseBracket {inclusive exclusive : TokenKind} (hinclusive : inclusive ≠ .eof)
    (hexclusive : exclusive ≠ .eof) :
    Yields (parseBracket inclusive exclusive expected) s fun isInclusive t =>
      Reads s [if isInclusive then inclusive else exclusive] t := by
  apply yields_peek
  split
  case isTrue hkind =>
    apply yields_bump_bind
    exact yields_pure (reads_of_kind hkind hinclusive)
  case isFalse =>
    split
    case isTrue hkind =>
      apply yields_bump_bind
      exact yields_pure (reads_of_kind hkind hexclusive)
    case isFalse => exact yields_unexpected

end Literals

section Predicates

/-- What a predicate parser says that has read `text` before: it prints back to the whole, and it is
well formed. -/
def PredicateRead (s : Cursor) (text : List TokenKind) (p : PredicateAst) (t : Cursor) : Prop :=
  (∀ c, Reads c text s → Reads c (printPredicate p) t) ∧ p.WellFormed

variable {field : SymbolAst} {start : ℕ}

theorem PredicateRead.of_reads {before after : List TokenKind} {p : PredicateAst}
    (hprint : printPredicate p = before ++ after) (hread : Reads s after t) (hwell : p.WellFormed) :
    PredicateRead s before p t := by
  refine ⟨fun c hc => ?_, hwell⟩
  rw [hprint]
  exact hc.trans hread

theorem yields_parseRange :
    Yields (parseRange start field) s fun p t =>
      PredicateRead s [.lParen, .symbol field.name, .symbol "in"] p t := by
  refine (yields_parseBracket (by decide) (by decide)).bind fun lowerInclusive t ht => ?_
  refine yields_parseRangeBound.bind fun lower u hu => ?_
  refine yields_expectDotDot.bind fun _ v hv => ?_
  refine yields_parseRangeBound.bind fun upper w hw => ?_
  refine (yields_parseBracket (by decide) (by decide)).bind fun upperInclusive x hx => ?_
  refine yields_expectRParen.bind fun _ y hy => ?_
  apply yields_pure
  refine .of_reads ?_ (ht.trans (hu.trans (hv.trans (hw.trans (hx.trans hy))))) ?_
  · simp [printPredicate, paren]
  · simp [PredicateAst.WellFormed]

theorem yields_parseSetValues :
    Yields (parseSetValues fuel) s fun values t =>
      Reads s (values.map printLiteral) t ∧ (values = [] → t = s) := by
  induction fuel generalizing s with
  | zero => exact yields_fail
  | succ fuel ih =>
    apply yields_peek
    split
    case isTrue => exact yields_pure ⟨.refl, fun _ => rfl⟩
    case isFalse =>
      apply yields_bind
      apply yields_attempt
      refine yields_parseLiteral.mono fun literal t ht => ?_
      refine ih.bind fun literals u hu => ?_
      exact yields_pure ⟨ht.trans hu.1, fun hnil => absurd hnil (List.cons_ne_nil _ _)⟩

theorem yields_parseSetMembership :
    Yields (parseSetMembership fuel start field) s fun p t =>
      PredicateRead s [.lParen, .symbol field.name, .symbol "in"] p t := by
  refine yields_expectLParen.bind fun openToken t ht => ?_
  apply yields_peek
  split
  case isTrue =>
    apply yields_peek
    apply yields_bind
    exact yields_report
  case isFalse hopen =>
    refine yields_parseSetValues.bind fun values u hu => ?_
    apply yields_bind
    apply yields_attempt
    by_cases hempty : values = []
    · -- nothing was read, so what is looked at is not the closing parenthesis
      rw [hu.2 hempty]
      exact yields_expectKind_of_ne hopen
    · refine yields_expectRParen.mono fun _ v hv => ?_
      refine yields_expectRParen.bind fun _ w hw => ?_
      apply yields_pure
      refine .of_reads ?_ (ht.trans (hu.1.trans (hv.trans hw))) hempty
      simp [printPredicate, paren]

theorem yields_parseSetOrRange :
    Yields (parseSetOrRange fuel start field) s fun p t =>
      PredicateRead s [.lParen, .symbol field.name, .symbol "in"] p t := by
  apply yields_bind
  apply yields_read
  split
  case h_1 => exact yields_parseRange
  case h_2 =>
    split
    case isTrue => exact yields_parseRange
    case isFalse => exact yields_parseSetMembership
  case h_3 => exact yields_abandon

theorem yields_operand {α : Type} {parse : ParserM α} {print : α → TokenKind}
    {make : α → SourceSpan → PredicateAst} {message : String}
    (hparse : ∀ {s}, Yields parse s fun value t => Reads s [print value] t)
    (hkind : s.token.kind ≠ .eof)
    (hmake : ∀ value span, (make value span).WellFormed ∧ printPredicate (make value span) =
      paren [.symbol field.name, s.token.kind, print value]) :
    Yields (do
      let _ ← bump
      let value ← parse
      let close ← expectRParen message
      return make value ⟨start, close.span.stop⟩) s fun p t =>
        PredicateRead s [.lParen, .symbol field.name] p t := by
  have hread := reads_advance hkind
  apply yields_bump_bind
  refine hparse.bind fun value t ht => ?_
  refine yields_expectRParen.bind fun _ u hu => ?_
  apply yields_pure
  refine .of_reads ?_ (hread.trans (ht.trans hu)) (hmake value _).1
  exact (hmake value _).2

theorem yields_parseNullTest {make : SourceSpan → PredicateAst} (hkind : s.token.kind ≠ .eof)
    (hmake : ∀ span, (make span).WellFormed ∧ printPredicate (make span) = paren [.symbol
      field.name, s.token.kind]) :
    Yields (parseNullTest make name start) s fun p t =>
      PredicateRead s [.lParen, .symbol field.name] p t := by
  have hread := reads_advance hkind
  apply yields_bump_bind
  refine yields_expectRParen.bind fun _ t ht => ?_
  apply yields_pure
  refine .of_reads ?_ (hread.trans ht) (hmake _).1
  exact (hmake _).2

theorem yields_parseFieldPredicate :
    Yields (parseFieldPredicate fuel start field) s fun p t =>
      PredicateRead s [.lParen, .symbol field.name] p t := by
  apply yields_peek
  split
  case h_1 hkind | h_2 hkind =>
    refine yields_operand yields_parseLiteral (by simp [hkind]) fun value span => ?_
    simp [hkind, printPredicate, PredicateAst.WellFormed]
  case h_3 hkind | h_4 hkind | h_5 hkind | h_6 hkind =>
    refine yields_operand yields_parseNumericLiteral (by simp [hkind]) fun value span => ?_
    simp [hkind, printPredicate, PredicateAst.WellFormed]
  case h_7 name hkind =>
    split
    case isTrue hname =>
      have hread := reads_of_kind hkind (by simp)
      apply yields_bump_bind
      refine yields_parseSetOrRange.mono fun p t hp => ⟨fun c hc => ?_, hp.2⟩
      rw [hname] at hread
      exact hp.1 c (hc.trans hread)
    case isFalse =>
      split
      case isTrue hname =>
        refine yields_parseNullTest (by simp [hkind]) fun span => ?_
        simp [hkind, hname, printPredicate, PredicateAst.WellFormed]
      case isFalse =>
        split
        case isTrue hname =>
          refine yields_parseNullTest (by simp [hkind]) fun span => ?_
          simp [hkind, hname, printPredicate, PredicateAst.WellFormed]
        case isFalse => exact yields_abandon
  case h_8 => exact yields_abandon

theorem yields_parseComparison :
    Yields (parseComparison fuel start) s fun p t => PredicateRead s [.lParen] p t := by
  apply yields_bind
  apply yields_attempt
  refine yields_expectSymbol.mono fun field t ht => ?_
  refine yields_parseFieldPredicate.mono fun p u hp => ⟨fun c hc => ?_, hp.2⟩
  exact hp.1 c (hc.trans ht)

theorem yields_parseNot {predicate : ParserM PredicateAst}
    (hpredicate : ∀ s, Yields predicate s fun p t =>
      Reads s (printPredicate p) t ∧ p.WellFormed)
    (hkind : s.token.kind = .symbol "not") :
    Yields (parseNot predicate start) s fun p t => PredicateRead s [.lParen] p t := by
  have hread := reads_of_kind hkind (by simp)
  apply yields_bump_bind
  refine (hpredicate _).bind fun inner t ht => ?_
  refine yields_expectRParen.bind fun _ u hu => ?_
  apply yields_pure
  refine .of_reads ?_ (hread.trans (ht.1.trans hu)) ?_
  · simp [printPredicate, paren]
  · rw [PredicateAst.WellFormed]
    exact ht.2

theorem yields_parseCombinator {predicate : ParserM PredicateAst} {combinator : String}
    {make : List PredicateAst → SourceSpan → PredicateAst}
    (hpredicate : ∀ s, Yields predicate s fun p t => Reads s (printPredicate p) t ∧ p.WellFormed)
    (hkind : s.token.kind = .symbol combinator)
    (hmake : ∀ items span, printPredicate (make items span) =
      paren (.symbol combinator :: printPredicates items) ∧
      ((make items span).WellFormed ↔ 2 ≤ items.length ∧ PredicateAst.AllWellFormed items)) :
    Yields (parseCombinator predicate fuel start combinator make) s fun p t =>
      PredicateRead s [.lParen] p t := by
  have hread := reads_of_kind hkind (by simp)
  apply yields_bump_bind
  refine (yields_parseItems hpredicate fuel _).bind fun items t ht => ?_
  apply yields_peek
  apply yields_bind
  apply yields_reportIf
  intro hmany
  refine yields_expectRParen.bind fun _ u hu => ?_
  apply yields_pure
  refine .of_reads ?_ (hread.trans (ht.1.trans hu)) ?_
  · rw [(hmake items _).1, printPredicates_eq]
    simp [paren]
  · rw [(hmake items _).2, PredicateAst.allWellFormed_iff]
    exact ⟨by omega, ht.2⟩

theorem yields_parsePredicate (fuel : ℕ) (s : Cursor) :
    Yields (parsePredicate fuel) s fun p t => Reads s (printPredicate p) t ∧ p.WellFormed := by
  induction fuel generalizing s with
  | zero => exact yields_fail
  | succ fuel ih =>
    rw [parsePredicate]
    refine yields_expectLParen.bind fun openToken t ht => ?_
    apply yields_peek
    -- the four forms read on from behind the opening parenthesis
    suffices h : ∀ {m : ParserM PredicateAst},
        (Yields m t fun p u => PredicateRead t [.lParen] p u) →
        Yields m t fun p u => Reads s (printPredicate p) u ∧ p.WellFormed by
      apply h
      split
      case isTrue hkind => exact yields_parseNot ih hkind
      case isFalse =>
        split
        case isTrue hkind =>
          refine yields_parseCombinator ih hkind fun items span => ?_
          simp [printPredicate, PredicateAst.WellFormed]
        case isFalse =>
          split
          case isTrue hkind =>
            refine yields_parseCombinator ih hkind fun items span => ?_
            simp [printPredicate, PredicateAst.WellFormed]
          case isFalse => exact yields_parseComparison
    intro m hm
    exact hm.mono fun p u hp => ⟨hp.1 s ht, hp.2⟩

theorem yields_parseCatchAll (hkind : s.token.kind = .star) :
    Yields (parseCatchAll start) s fun w t =>
      (∀ c, Reads c [.lParen] s → Reads c (printWhen w) t) ∧ w.WellFormed := by
  have hread := reads_of_kind hkind (by simp)
  apply yields_bump_bind
  apply yields_peek
  split
  case isTrue =>
    refine yields_expectRParen.bind fun _ t ht => ?_
    exact yields_pure ⟨fun c hc => hc.trans (hread.trans ht), trivial⟩
  case isFalse =>
    apply yields_bind
    exact yields_report

theorem yields_parseWhenItem (fuel : ℕ) (s : Cursor) :
    Yields (parseWhenItem fuel) s fun o t => Reads s (o.elim [] printPredicate) t ∧
      ∀ p ∈ o, p.WellFormed := by
  apply yields_peek
  split
  case isTrue =>
    apply yields_bind
    exact yields_report
  case isFalse =>
    refine (yields_parsePredicate fuel s).bind fun p t hp => ?_
    refine yields_pure ⟨hp.1, ?_⟩
    rintro q ⟨⟩
    exact hp.2

theorem flatMap_reduceOption (items : List (Option PredicateAst)) :
    items.reduceOption.flatMap printPredicate =
      items.flatMap fun o => o.elim [] printPredicate := by
  induction items with
  | nil => rfl
  | cons o items ih =>
    cases o with
    | none => simpa using ih
    | some p => simpa using ih

theorem yields_parsePredicateBlock :
    Yields (parsePredicateBlock fuel) s fun w t => Reads s (printWhen w) t ∧ w.WellFormed := by
  refine yields_expectLParen.bind fun openToken t ht => ?_
  apply yields_peek
  split
  case isTrue hkind =>
    exact (yields_parseCatchAll hkind).mono fun w u hw => ⟨hw.1 s ht, hw.2⟩
  case isFalse =>
    refine (yields_parseItems (yields_parseWhenItem fuel) fuel t).bind fun items u hu => ?_
    refine yields_expectRParen.bind fun _ v hv => ?_
    refine yields_pure ⟨?_, ?_⟩
    · rw [printWhen, flatMap_reduceOption]
      exact ht.trans (hu.1.trans hv)
    · intro p hp
      exact hu.2 (some p) (List.reduceOption_mem_iff.mp hp) p rfl

end Predicates

section Rules

theorem yields_parseAssignment (s : Cursor) :
    Yields parseAssignment s fun a t => Reads s (printAssignment a) t ∧ True := by
  refine yields_expectLParen.bind fun openToken t ht => ?_
  refine yields_expectSymbol.bind fun output u hu => ?_
  apply yields_peek
  split
  case isTrue hkind =>
    have hread := reads_of_kind hkind (by simp)
    apply yields_bump_bind
    refine yields_parseLiteral.bind fun value v hv => ?_
    refine yields_expectRParen.bind fun _ w hw => ?_
    exact yields_pure ⟨ht.trans (hu.trans (hread.trans (hv.trans hw))), trivial⟩
  case isFalse => exact yields_abandon

theorem yields_parseAssignmentBlock :
    Yields (parseAssignmentBlock fuel) s fun as t =>
      Reads s (paren (as.flatMap printAssignment)) t ∧ ∀ a ∈ as, True :=
  yields_parseBlock (yields_parseItems yields_parseAssignment fuel) s

theorem yields_parseRule (fuel : ℕ) (s : Cursor) :
    Yields (parseRule fuel) s fun rule t =>
      Reads s (printRule rule) t ∧ rule.when.WellFormed := by
  refine yields_expectLParen.bind fun openToken t ht => ?_
  refine yields_expectSymbolNamed.bind fun _ u hu => ?_
  refine yields_expectSymbol.bind fun id v hv => ?_
  refine yields_expectSymbolNamed.bind fun _ w hw => ?_
  refine yields_parsePredicateBlock.bind fun when x hx => ?_
  refine yields_expectSymbolNamed.bind fun _ y hy => ?_
  refine yields_parseAssignmentBlock.bind fun assigns z hz => ?_
  refine yields_expectRParen.bind fun _ stop hstop => ?_
  refine yields_pure ⟨?_, hx.2⟩
  have hread := ht.trans (hu.trans (hv.trans (hw.trans (hx.1.trans
    (hy.trans (hz.1.trans hstop))))))
  simpa [printRule, paren] using hread

theorem yields_noteCatchAll {catchAll : Option SourceSpan} {rule : RuleAst} :
    Yields (noteCatchAll catchAll (some rule)) s fun found t => t = s ∧
      (rule.when.isCatchAll = true → catchAll = none ∧ found ≠ none) ∧
      (rule.when.isCatchAll = false → found = catchAll) := by
  obtain ⟨id, when, assigns, span⟩ := rule
  cases when with
  | catchAll star =>
    cases catchAll with
    | none => exact yields_pure ⟨rfl, by simp, by simp [WhenAst.isCatchAll]⟩
    | some previous =>
      apply yields_bind
      exact yields_report
  | predicates preds span => exact yields_pure ⟨rfl, by simp [WhenAst.isCatchAll], by simp⟩

/-- What the loop over the rules establishes when `catchAll` was found before. -/
structure RulesRead (s : Cursor) (catchAll : Option SourceSpan) (rules : List RuleAst) (t : Cursor) :
    Prop where
  reads : Reads s (rules.flatMap printRule) t
  wellFormed : ∀ rule ∈ rules, rule.when.WellFormed
  catchAll : rules.countP (·.when.isCatchAll) ≤ if catchAll = none then 1 else 0

theorem yields_parseRules {rule : ParserM RuleAst}
    (hrule : ∀ s, Yields rule s fun r t => Reads s (printRule r) t ∧ r.when.WellFormed)
    (fuel : ℕ) (catchAll : Option SourceSpan) (s : Cursor) :
    Yields (parseRules rule fuel catchAll) s fun rules t => RulesRead s catchAll rules t := by
  induction fuel generalizing s catchAll with
  | zero => exact yields_fail
  | succ fuel ih =>
    apply yields_peek
    split
    case isTrue => exact yields_pure ⟨.refl, by simp, by simp⟩
    case isFalse =>
      apply yields_bind
      apply yields_attempt
      refine (hrule s).mono fun r t hr => ?_
      apply yields_bind
      apply yields_update
      refine yields_noteCatchAll.bind ?_
      rintro found t ⟨rfl, hfirst, hother⟩
      refine (ih found t).bind fun rs u hrs => ?_
      refine yields_pure ⟨hr.1.trans hrs.reads, List.forall_mem_cons.mpr ⟨hr.2, hrs.wellFormed⟩, ?_⟩
      have hcount := hrs.catchAll
      change (r :: rs).countP (·.when.isCatchAll) ≤ _
      rw [List.countP_cons]
      cases hcatch : r.when.isCatchAll with
      | true =>
        obtain ⟨hnone, hfound⟩ := hfirst hcatch
        rw [if_neg hfound] at hcount
        simp only [hnone, if_true]
        omega
      | false =>
        rw [hother hcatch] at hcount
        simpa using hcount

theorem yields_parseRulesBlock :
    Yields (parseRulesBlock fuel) s fun rules t =>
      Reads s (paren (rules.flatMap printRule)) t ∧ (∀ rule ∈ rules, rule.when.WellFormed) ∧
      rules.countP (·.when.isCatchAll) ≤ 1 := by
  refine yields_parseBlock (fun t => ?_) s
  refine (yields_parseRules (yields_parseRule fuel) fuel none t).mono fun rules u h => ?_
  exact ⟨h.reads, h.wellFormed, h.catchAll⟩

end Rules

section Decisions

theorem yields_parseTypeRef :
    Yields parseTypeRef s fun typeRef t => Reads s [printTypeRef typeRef] t := by
  apply yields_peek
  split
  case h_1 name hname =>
    have hread := reads_of_kind hname (by simp)
    apply yields_bump_bind
    split_ifs with henum hbool hinteger hdecimal hstring
    · rw [henum] at hread
      exact yields_pure hread
    · rw [hbool] at hread
      exact yields_pure hread
    · rw [hinteger] at hread
      exact yields_pure hread
    · rw [hdecimal] at hread
      exact yields_pure hread
    · rw [hstring] at hread
      exact yields_pure hread
    · exact yields_fail
  case h_2 => exact yields_unexpected

theorem yields_parseFieldDeclInner (s : Cursor) :
    Yields parseFieldDeclInner s fun decl t => Reads s (printFieldDecl decl) t ∧ True := by
  refine yields_expectLParen.bind fun openToken t ht => ?_
  refine yields_expectSymbol.bind fun name u hu => ?_
  refine yields_expectSymbolNamed.bind fun _ v hv => ?_
  refine yields_parseTypeRef.bind fun typeRef w hw => ?_
  refine yields_expectSymbolNamed.bind fun _ x hx => ?_
  refine yields_expectSymbol.bind fun domainRef y hy => ?_
  refine yields_expectRParen.bind fun _ z hz => ?_
  refine yields_pure ⟨?_, trivial⟩
  exact ht.trans (hu.trans (hv.trans (hw.trans (hx.trans (hy.trans hz)))))

theorem yields_parseDecls :
    Yields (parseBlock keyword (parseItems parseFieldDeclInner fuel)) s fun decls t =>
      Reads s (paren (decls.flatMap printFieldDecl)) t ∧ ∀ d ∈ decls, True :=
  yields_parseBlock (yields_parseItems yields_parseFieldDeclInner fuel) s

theorem yields_parseHitPolicyKind :
    Yields parseHitPolicyKind s fun policy t => Reads s [printHitPolicy policy] t := by
  apply yields_peek
  split
  case h_1 name hname =>
    have hread := reads_of_kind hname (by simp)
    apply yields_bump_bind
    split_ifs with hunique hfirst
    · rw [hunique] at hread
      exact yields_pure hread
    · rw [hfirst] at hread
      exact yields_pure hread
    · exact yields_fail
    · exact yields_fail
  case h_2 => exact yields_unexpected

theorem yields_parseAttribute {α : Type} {value : ParserM α} {Q : α → Cursor → Cursor → Prop}
    (hvalue : ∀ s, Yields value s fun a t => Q a s t) :
    Yields (parseAttribute keyword value) s fun o t =>
      (∀ a, o = some a → ∃ u, Reads s [.symbol keyword] u ∧ Q a u t) ∧
      (o = none → t = s ∧ s.token.kind ≠ .symbol keyword) := by
  apply yields_peek
  split
  case isTrue hkind =>
    have hread := reads_of_kind hkind (by simp)
    apply yields_bump_bind
    apply yields_attempt
    refine (hvalue _).mono fun a t ha => ⟨?_, by simp⟩
    rintro b ⟨⟩
    exact ⟨_, hread, ha⟩
  case isFalse hkind => exact yields_pure ⟨by simp, fun _ => ⟨rfl, hkind⟩⟩

theorem yields_parseRequired {α : Type} {value : ParserM α} {Q : α → Cursor → Cursor → Prop}
    (hvalue : ∀ s, Yields value s fun a t => Q a s t) :
    Yields (parseRequired keyword value) s fun o t =>
      ∃ a u, o = some a ∧ Reads s [.symbol keyword] u ∧ Q a u t := by
  apply yields_bind
  apply yields_peek
  apply yields_bind
  apply yields_reportIf
  intro hkind
  apply yields_update
  -- nothing was missing, so nothing was skipped
  rw [if_neg (by simpa using hkind)]
  refine (yields_parseAttribute hvalue).mono fun o t ho => ?_
  cases o with
  | none => exact absurd (ho.2 rfl).2 hkind
  | some a =>
    obtain ⟨u, hu, ha⟩ := ho.1 a rfl
    exact ⟨a, u, rfl, hu, ha⟩

theorem yields_parseRulesAttribute :
    Yields (parseRulesAttribute fuel) s fun rules t =>
      Reads s (.symbol ":rules" :: paren (rules.flatMap printRule)) t ∧
      (∀ rule ∈ rules, rule.when.WellFormed) ∧ rules.countP (·.when.isCatchAll) ≤ 1 := by
  apply yields_peek
  split
  case isTrue hkind =>
    have hread := reads_of_kind hkind (by simp)
    apply yields_bump_bind
    exact yields_parseRulesBlock.mono fun rules t h => ⟨hread.trans h.1, h.2⟩
  case isFalse hkind =>
    apply yields_bind
    apply yields_peek
    apply yields_bind
    exact yields_reportIf fun hnot => absurd hkind hnot

theorem yields_parseDecision :
    Yields (parseDecision fuel) s fun ast t =>
      Reads s (printDecision ast) t ∧ ast.WellFormed := by
  refine yields_expectLParen.bind fun openToken c₁ h₁ => ?_
  refine yields_expectSymbolNamed.bind fun _ c₂ h₂ => ?_
  refine yields_expectSymbol.bind fun name c₃ h₃ => ?_
  refine (yields_parseAttribute fun _ => yields_parseStringLit).bind fun decisionId c₄ hid => ?_
  have h₄ : Reads c₃ (printDecisionId decisionId) c₄ := by
    cases decisionId with
    | none =>
      rw [(hid.2 rfl).1]
      exact .refl
    | some literal =>
      obtain ⟨u, hu, hliteral⟩ := hid.1 literal rfl
      exact hu.trans hliteral
  refine (yields_parseRequired fun _ => yields_parseHitPolicyKind).bind ?_
  rintro _ c₅ ⟨hitPolicy, u₅, rfl, hkey₅, h₅⟩
  refine (yields_parseRequired fun _ => yields_parseDecls).bind ?_
  rintro _ c₆ ⟨inputs, u₆, rfl, hkey₆, h₆, -⟩
  refine (yields_parseRequired fun _ => yields_parseDecls).bind ?_
  rintro _ c₇ ⟨outputs, u₇, rfl, hkey₇, h₇, -⟩
  refine yields_parseRulesAttribute.bind fun rules c₈ h₈ => ?_
  refine yields_expectRParen.bind fun _ c₉ h₉ => ?_
  refine yields_pure ⟨?_, ⟨h₈.2.1, h₈.2.2⟩⟩
  have hread := h₁.trans (h₂.trans (h₃.trans (h₄.trans (hkey₅.trans (h₅.trans (hkey₆.trans
    (h₆.trans (hkey₇.trans (h₇.trans (h₈.1.trans h₉))))))))))
  simpa [printDecision, paren] using hread

theorem yields_parseFirst :
    Yields (parseFirst fuel) s fun o t =>
      ∀ ast, o = some ast → Reads s (printDecision ast) t ∧ ast.WellFormed := by
  apply yields_peek
  split
  case isTrue => exact yields_pure (by simp)
  case isFalse =>
    apply yields_attempt
    refine yields_parseDecision.mono fun ast t hast => ?_
    rintro _ ⟨⟩
    exact hast

theorem yields_parseOnly :
    Yields (parseOnly fuel) s fun o t => t.token.kind = .eof ∧
      ∀ ast, o = some ast → Reads s (printDecision ast) t ∧ ast.WellFormed := by
  apply yields_peek
  refine yields_parseFirst.bind fun o t ho => ?_
  apply yields_bind
  apply yields_read
  apply yields_bind
  apply yields_reportIf
  intro heof
  exact yields_pure ⟨not_not.mp heof, ho⟩

theorem yields_parseSource :
    Yields (parseSource fuel) s fun source t => ∃ ast, source.decisions = [ast] ∧
      ast.WellFormed ∧ Reads s (printDecision ast) t ∧ t.token.kind = .eof := by
  apply yields_peek
  apply yields_bind
  apply yields_listen
  refine yields_parseOnly.mono fun o t ho => ?_
  apply yields_peek
  apply yields_bind
  apply yields_reportIf
  intro hsome
  apply yields_pure
  cases o with
  | none => exact absurd ⟨rfl, rfl⟩ hsome
  | some ast =>
    obtain ⟨hread, hwell⟩ := ho.2 ast rfl
    exact ⟨ast, rfl, hwell, hread, ho.1⟩

end Decisions

end Parser

/-- What `parse` accepts is one well-formed decision, read up to the end of the input. -/
theorem parse_ok (h : parse fuel tokens = .ok source) :
    ∃ ast t, source.decisions = [ast] ∧ ast.WellFormed ∧
      Parser.Reads tokens (Parser.printDecision ast) t ∧ t.token.kind = .eof := by
  unfold parse at h
  split at h
  case h_1 found t hrun =>
    obtain rfl := Except.ok.inj h
    have hclean : (Parser.parseSource fuel tokens).2.1 = [] := by rw [hrun]
    obtain ⟨a, t, hrun', ast, hast, hread⟩ := Parser.yields_parseSource hclean
    rw [hrun'] at hrun
    obtain rfl : a = found := by simpa using congrArg Prod.fst hrun
    exact ⟨ast, t, hast, hread⟩
  case h_2 => cases h

def Source.print (source : Source) : List TokenKind :=
  source.decisions.flatMap Parser.printDecision ++ [.eof]

theorem print_of_parse_ok (hend : Parser.Terminated tokens.token tokens.rest)
    (h : parse fuel tokens = .ok source) : source.print = tokens.kinds := by
  obtain ⟨ast, ⟨token, rest⟩, hast, -, hread, heof⟩ := parse_ok h
  obtain ⟨hstop, hkinds⟩ := hread hend
  -- The token that stands for the end of the input is the last one.
  cases rest with
  | nil =>
    have hkind : token.kind = .eof := heof
    rw [hkinds, Source.print, hast, List.flatMap_singleton, Parser.Cursor.kinds, List.map_nil, hkind]
  | cons next rest => exact absurd heof hstop.1

/-- The tree of a source without errors prints back to the tokens of the source, so that sources that
differ in their tokens differ in their trees; and the tree is well formed. -/
theorem parse_lossless {fuel : ℕ} {tokens : Parser.Cursor} {source : Source}
    (hend : Parser.Terminated tokens.token tokens.rest) (h : parse fuel tokens = .ok source) :
    source.print = tokens.kinds ∧ (∀ ast ∈ source.decisions, ast.WellFormed) ∧
      ∀ (fuel' : ℕ) (tokens' : Parser.Cursor) (source' : Source),
        Parser.Terminated tokens'.token tokens'.rest → parse fuel' tokens' = .ok source' →
        tokens'.kinds ≠ tokens.kinds → source' ≠ source := by
  have hprint := print_of_parse_ok hend h
  refine ⟨hprint, fun ast hmem => ?_, fun fuel' tokens' source' hend' h' hdiffer hsame => hdiffer ?_⟩
  · obtain ⟨found, -, hfound, hwell, -⟩ := parse_ok h
    rw [hfound, List.mem_singleton] at hmem
    exact hmem ▸ hwell
  · rw [← print_of_parse_ok hend' h', hsame, hprint]

namespace Sample

/-- The tokens of a source that prints as `kinds`. -/
def cursor (kinds : List TokenKind) : Parser.Cursor :=
  ⟨⟨kinds.headD .eof, default⟩, (kinds.tail ++ [TokenKind.eof]).map fun kind => ⟨kind, default⟩⟩

/-- A decision with one rule, for the inputs that pass the test. -/
def testing (test : PredicateAst) : DecisionAst where
  name := ⟨"testing", default⟩
  decisionId := none
  hitPolicy := .first default
  inputs := []
  outputs := []
  rules := [⟨⟨"only", default⟩, .predicates [test] default, [], default⟩]
  span := default

theorem testing_lossless :
    let unset := PredicateAst.isNull ⟨"grade", default⟩ default
    let tokens := cursor (Parser.printDecision (testing (.or [unset, .not unset default] default)))
    let tokens' := cursor (Parser.printDecision (testing unset))
    ∃ source source', parse 20 tokens = .ok source ∧ source.print = tokens.kinds ∧
      parse 20 tokens' = .ok source' ∧ source' ≠ source := by
  intro unset tokens tokens'
  have hparses : ((parse 20 tokens).toOption.isSome && (parse 20 tokens').toOption.isSome) = true := by
    decide +kernel
  cases h : parse 20 tokens with
  | error => simp [h, Except.toOption] at hparses
  | ok source =>
    cases h' : parse 20 tokens' with
    | error => simp [h', Except.toOption] at hparses
    | ok source' =>
      obtain ⟨hprint, -, hdiffer⟩ := parse_lossless (by decide +kernel) h
      exact ⟨source, source', rfl, hprint, rfl,
        hdiffer 20 tokens' source' (by decide +kernel) h' (by decide +kernel)⟩

end Sample

end BpmnLite.Dmn
