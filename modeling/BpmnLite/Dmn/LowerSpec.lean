import BpmnLite.Dmn.Lower

/-!
# Lowering loses nothing

When `lower` reports no error, the typed decision has the tree of the source in another form: the
same rules with the same predicates, set members, bounds and assignments (`DecisionFor`), typed
against the schema, with ids that are positions.
-/

namespace BpmnLite.Dmn

open Collect Lower

variable {schema : List FieldSchema} {span : SourceSpan} {id : FieldId} {ty : ResolvedType}
  {values literals : List LiteralAst}
  {lo first : Option TypedValue} {assigns : List AssignmentAst} {rules : List RuleAst} {s : Notes}
  {literal : LiteralAst} {bound : RangeBound} {n : NumberLitAst} {decls : List FieldDeclAst}
  {idx : ℕ} {isInput : Bool} {seen : NameMap SourceSpan} {op : ComparisonOp}
  {ps : List PredicateAst} {after before assigned : List (FieldId × SourceSpan)}
  {policy : HitPolicy} {catchAll : Option SourceSpan} {ast : DecisionAst} {v : TypedValue}
  {field domainRef : SymbolAst} {name rule : String} {typed : List TypedAssignment}

section Relations

variable (R : Runtime) (catalogue : Catalogue)

def LiteralFor (ty : ResolvedType) : LiteralAst → TypedValue → Prop
  | .symbol s, .enum d v => ty = .enum d ∧
    ∃ domain, catalogue.findDomainById d = some domain ∧ domain.resolveValue s.name = some v
  | .boolean b _, .bool b' => ty = .bool ∧ b = b'
  | .number n, .integer i => ty = .integer ∧ n.kind = .integer ∧ parseI64 n.text = some i
  | .number n, .decimal f => ty = .decimal ∧ R.parseF64 n.text = some f
  | .string s, .str t => ty = .str ∧ s.value = t
  | _, _ => False

/-- A bound and its value; only an unbounded side has none. -/
def BoundFor (ty : ResolvedType) : RangeBound → Option TypedValue → Prop
  | .unbounded _, none => True
  | .value n, some v => LiteralFor R catalogue ty (.number n) v
  | _, _ => False

def FieldFor (schema : List FieldSchema) (name : String) (id : FieldId) (ty : ResolvedType) : Prop :=
  ∃ entry, schema[id]? = some entry ∧ entry.name = name ∧ entry.fieldType = ty

variable (schema : List FieldSchema)

inductive PredicateFor : PredicateAst → TypedPredicate → Prop
  | eq {field : SymbolAst} {value : LiteralAst} {span : SourceSpan} {id : FieldId}
    {ty : ResolvedType} {rhs : TypedValue} (hfield : FieldFor schema field.name id ty)
    (hvalue : LiteralFor R catalogue ty value rhs) :
    PredicateFor (.eq field value span) (.comparison id .eq rhs span)
  | notEq {field : SymbolAst} {value : LiteralAst} {span : SourceSpan} {id : FieldId}
    {ty : ResolvedType} {rhs : TypedValue} (hfield : FieldFor schema field.name id ty)
    (hvalue : LiteralFor R catalogue ty value rhs) :
    PredicateFor (.notEq field value span) (.comparison id .notEq rhs span)
  | lt {field : SymbolAst} {value : NumberLitAst} {span : SourceSpan} {id : FieldId}
    {ty : ResolvedType} {rhs : TypedValue} (hfield : FieldFor schema field.name id ty)
    (hnumeric : ty.isNumeric = true) (hvalue : LiteralFor R catalogue ty (.number value) rhs) :
    PredicateFor (.lt field value span) (.comparison id .lt rhs span)
  | le {field : SymbolAst} {value : NumberLitAst} {span : SourceSpan} {id : FieldId}
    {ty : ResolvedType} {rhs : TypedValue} (hfield : FieldFor schema field.name id ty)
    (hnumeric : ty.isNumeric = true) (hvalue : LiteralFor R catalogue ty (.number value) rhs) :
    PredicateFor (.le field value span) (.comparison id .le rhs span)
  | gt {field : SymbolAst} {value : NumberLitAst} {span : SourceSpan} {id : FieldId}
    {ty : ResolvedType} {rhs : TypedValue} (hfield : FieldFor schema field.name id ty)
    (hnumeric : ty.isNumeric = true) (hvalue : LiteralFor R catalogue ty (.number value) rhs) :
    PredicateFor (.gt field value span) (.comparison id .gt rhs span)
  | ge {field : SymbolAst} {value : NumberLitAst} {span : SourceSpan} {id : FieldId}
    {ty : ResolvedType} {rhs : TypedValue} (hfield : FieldFor schema field.name id ty)
    (hnumeric : ty.isNumeric = true) (hvalue : LiteralFor R catalogue ty (.number value) rhs) :
    PredicateFor (.ge field value span) (.comparison id .ge rhs span)
  | inSet {field : SymbolAst} {values : List LiteralAst} {span : SourceSpan} {id : FieldId}
    {ty : ResolvedType} {typed : List TypedValue} (hfield : FieldFor schema field.name id ty)
    (hvalues : List.Forall₂ (LiteralFor R catalogue ty) values typed) :
    PredicateFor (.inSet field values span) (.inSet id typed span)
  | range {field : SymbolAst} {lower upper : RangeBound} {lowerInclusive upperInclusive : Bool}
    {span : SourceSpan} {id : FieldId} {ty : ResolvedType} {lo hi : Option TypedValue}
    (hfield : FieldFor schema field.name id ty) (hnumeric : ty.isNumeric = true)
    (hlower : BoundFor R catalogue ty lower lo) (hupper : BoundFor R catalogue ty upper hi) :
    PredicateFor (.range field lower upper lowerInclusive upperInclusive span)
      (.range id lo hi lowerInclusive upperInclusive span)
  | isNull {field : SymbolAst} {span : SourceSpan} {id : FieldId} {ty : ResolvedType}
    (hfield : FieldFor schema field.name id ty) : PredicateFor (.isNull field span) (.isNull id span)
  | isNotNull {field : SymbolAst} {span : SourceSpan} {id : FieldId} {ty : ResolvedType}
    (hfield : FieldFor schema field.name id ty) :
    PredicateFor (.isNotNull field span) (.isNotNull id span)
  | not {inner : PredicateAst} {typed : TypedPredicate} {span : SourceSpan}
    (hinner : PredicateFor inner typed) : PredicateFor (.not inner span) (.not typed span)
  | and {items : List PredicateAst} {typed : List TypedPredicate} {span : SourceSpan}
    (hitems : List.Forall₂ PredicateFor items typed) : PredicateFor (.and items span) (.and typed span)
  | or {items : List PredicateAst} {typed : List TypedPredicate} {span : SourceSpan}
    (hitems : List.Forall₂ PredicateFor items typed) : PredicateFor (.or items span) (.or typed span)

def WhenFor : WhenAst → TypedWhen → Prop
  | .catchAll span, .catchAll span' => span = span'
  | .predicates preds span, .predicates typed span' =>
    List.Forall₂ (PredicateFor R catalogue schema) preds typed ∧ span = span'
  | _, _ => False

def AssignmentFor (outputs : List FieldSchema) (a : AssignmentAst) (t : TypedAssignment) : Prop :=
  (∃ ty, FieldFor outputs a.output.name t.outputField ty ∧ LiteralFor R catalogue ty a.value t.value) ∧
  t.sourceSpan = a.span

structure RuleFor (inputs outputs : List FieldSchema) (rule : RuleAst) (typed : TypedRule) :
    Prop where
  name : typed.ruleName = rule.id.name
  when : WhenFor R catalogue inputs rule.when typed.when
  assigns : List.Forall₂ (AssignmentFor R catalogue outputs) rule.assigns typed.assigns
  span : typed.sourceSpan = rule.span

def TypeFor (catalogue : Catalogue) (domainRef : SymbolAst) : TypeRefAst → ResolvedType → Prop
  | .enum _, .enum d => ∃ domain, catalogue.resolveDomain domainRef.name = some domain ∧
    domain.domainId = d
  | .bool _, .bool | .integer _, .integer | .decimal _, .decimal | .string _, .str => True
  | _, _ => False

structure DeclFor (catalogue : Catalogue) (decl : FieldDeclAst) (entry : FieldSchema) : Prop where
  name : entry.name = decl.name.name
  type : TypeFor catalogue decl.domainRef decl.typeRef entry.fieldType
  span : entry.sourceSpan = decl.span

structure DecisionFor (ast : DecisionAst) (typed : TypedDecision) : Prop where
  id : typed.decisionId = (ast.decisionId.map (·.value)).getD ast.name.name
  name : typed.name = ast.name.name
  span : typed.sourceSpan = ast.span
  hitPolicy : typed.hitPolicy = hitPolicyOf ast.hitPolicy
  inputs : List.Forall₂ (DeclFor catalogue) ast.inputs typed.inputSchema
  outputs : List.Forall₂ (DeclFor catalogue) ast.outputs typed.outputSchema
  rules : List.Forall₂ (RuleFor R catalogue typed.inputSchema typed.outputSchema) ast.rules
    typed.rules

end Relations

section Literals

variable {R : Runtime} {catalogue : Catalogue}

theorem isI64_of_parseI64 {text : String} {i : ℤ} (h : parseI64 text = some i) : IsI64 i := by
  simpa [IsI64] using (Option.filter_eq_some_iff.mp h).2

theorem LiteralFor.hasType (h : LiteralFor R catalogue ty literal v) : HasType catalogue v ty := by
  cases literal with
  | symbol symbol =>
    cases v with
    | enum d v =>
      obtain ⟨rfl, domain, hfind, hvalue⟩ := h
      exact ⟨rfl, domain, hfind, Domain.mem_of_resolveValue hvalue⟩
    | _ => exact h.elim
  | string literal =>
    cases v with
    | str t =>
      obtain ⟨rfl, -⟩ := h
      trivial
    | _ => exact h.elim
  | number n =>
    cases v with
    | integer i =>
      obtain ⟨rfl, -, hparse⟩ := h
      exact isI64_of_parseI64 hparse
    | decimal f =>
      obtain ⟨rfl, -⟩ := h
      trivial
    | _ => exact h.elim
  | boolean b span =>
    cases v with
    | bool b' =>
      obtain ⟨rfl, -⟩ := h
      trivial
    | _ => exact h.elim

theorem BoundFor.hasType (h : BoundFor R catalogue ty bound lo) (hv : v ∈ lo) :
    HasType catalogue v ty := by
  obtain rfl := Option.mem_def.mp hv
  cases bound with
  | unbounded => exact h.elim
  | value n => exact LiteralFor.hasType h

/-- A domain that is named as a field's type is in the catalogue. -/
def KnownType (catalogue : Catalogue) (ty : ResolvedType) : Prop :=
  ∀ d, ty = .enum d → ∃ domain, catalogue.findDomainById d = some domain

theorem yields_parseInteger (hkind : n.kind = .integer) :
    Yields (parseInteger n.text n.span) s
      fun v _ => LiteralFor R catalogue .integer (.number n) v := by
  unfold parseInteger
  split
  case h_1 i hi => exact yields_pure ⟨rfl, hkind, hi⟩
  case h_2 => exact yields_fail

theorem yields_parseDecimal :
    Yields (parseDecimal R n.text n.span) s
      fun v _ => LiteralFor R catalogue .decimal (.number n) v := by
  unfold parseDecimal
  split
  case h_1 f hf => exact yields_pure ⟨rfl, hf⟩
  case h_2 => exact yields_fail

theorem yields_lowerNumberForType (catalogue : Catalogue) (hnumeric : ty.isNumeric = true) :
    Yields (lowerNumberForType R n ty) s
      fun v _ => LiteralFor R catalogue ty (.number n) v := by
  cases ty with
  | integer =>
    dsimp only [lowerNumberForType]
    split
    case isTrue => exact yields_fail
    case isFalse hkind =>
      apply yields_parseInteger
      cases hn : n.kind with
      | integer => rfl
      | decimal => exact absurd hn hkind
  | decimal => exact yields_parseDecimal
  | enum | bool | str => simp [ResolvedType.isNumeric] at hnumeric

theorem yields_lowerLiteral {isAssignment : Bool} {field : String} (hknown : KnownType catalogue ty) :
    Yields (lowerLiteral R catalogue isAssignment literal ty field) s
      fun v _ => LiteralFor R catalogue ty literal v := by
  unfold lowerLiteral
  split
  case h_1 d symbol =>
    obtain ⟨domain, hdomain⟩ := hknown d rfl
    unfold lowerEnumLiteral
    rw [hdomain]
    dsimp only
    split
    case h_1 v hv =>
      apply yields_bind
      apply yields_update
      exact yields_pure ⟨rfl, domain, hdomain, hv⟩
    case h_2 => exact yields_fail
  case h_2 => exact yields_pure ⟨rfl, rfl⟩
  case h_3 n =>
    split
    case isTrue hkind => exact yields_parseInteger hkind
    case isFalse => exact yields_fail
  case h_4 => exact yields_parseDecimal
  case h_5 => exact yields_pure ⟨rfl, rfl⟩
  case h_6 => exact yields_fail

end Literals

section Schemas

variable {catalogue : Catalogue}

/-- Names lead to positions of the schema, and the types there are known. -/
structure Lower.Schemas.Sound (catalogue : Catalogue) (S : Schemas) : Prop where
  names : ∀ name id, S.nameMap.lookup name = some id →
    ∃ entry, S.schema[id]? = some entry ∧ entry.name = name
  known : ∀ entry ∈ S.schema, KnownType catalogue entry.fieldType

theorem yields_advisoryType {name : SymbolAst} {Q : ResolvedType → Notes → Prop} (h : ∀ t, Q ty t) :
    Yields (advisoryType catalogue name domainRef ty) s Q := by
  unfold advisoryType
  split
  case isTrue => exact yields_fail
  case isFalse =>
    apply yields_bind
    apply yields_update
    exact yields_pure (h _)

theorem yields_resolveFieldType {name : SymbolAst} {typeRef : TypeRefAst} :
    Yields (resolveFieldType catalogue name typeRef domainRef) s fun ty _ =>
      TypeFor catalogue domainRef typeRef ty ∧ KnownType catalogue ty := by
  cases typeRef with
  | enum span =>
    dsimp only [resolveFieldType]
    split
    case h_1 domain hdomain =>
      refine yields_pure ⟨⟨domain, hdomain, rfl⟩, ?_⟩
      rintro d ⟨⟩
      exact ⟨domain, Catalogue.findDomainById_of_resolveDomain hdomain⟩
    case h_2 => exact yields_fail
  | bool | integer | decimal | string =>
    exact yields_advisoryType fun _ => ⟨trivial, by rintro d ⟨⟩⟩

/-- What the loop over the declarations establishes from position `idx` on. -/
structure DeclsResolved (catalogue : Catalogue) (idx : ℕ) (decls : List FieldDeclAst)
    (schema : List FieldSchema) (nameMap : NameMap FieldId) : Prop where
  decls : List.Forall₂ (DeclFor catalogue) decls schema
  ids : ∀ i entry, schema[i]? = some entry → entry.fieldId = idx + i
  names : ∀ name id, nameMap.lookup name = some id →
    ∃ i entry, id = idx + i ∧ schema[i]? = some entry ∧ entry.name = name
  known : ∀ entry ∈ schema, KnownType catalogue entry.fieldType

theorem DeclsResolved.nil : DeclsResolved catalogue idx [] [] [] :=
  ⟨.nil, by simp, by simp, by simp⟩

theorem DeclsResolved.cons {decl : FieldDeclAst}
    {nameMap : NameMap FieldId} (htype : TypeFor catalogue decl.domainRef decl.typeRef ty)
    (hknown : KnownType catalogue ty) (h : DeclsResolved catalogue (idx + 1) decls schema nameMap) :
    DeclsResolved catalogue idx (decl :: decls) (⟨idx, decl.name.name, ty, decl.span⟩ :: schema)
      ((decl.name.name, idx) :: nameMap) := by
  refine ⟨.cons ⟨rfl, htype, rfl⟩ h.decls, ?_, ?_, List.forall_mem_cons.mpr ⟨hknown, h.known⟩⟩
  · intro i entry hentry
    cases i with
    | zero =>
      cases hentry
      rfl
    | succ i =>
      have := h.ids i entry hentry
      omega
  · intro name id hlookup
    rw [List.lookup_cons] at hlookup
    split at hlookup
    case h_1 heq =>
      obtain rfl := Option.some.inj hlookup
      exact ⟨0, _, rfl, rfl, (beq_iff_eq.mp heq).symm⟩
    case h_2 =>
      obtain ⟨i, entry, rfl, hentry, hname⟩ := h.names name id hlookup
      exact ⟨i + 1, entry, Nat.succ_add_eq_add_succ idx i, hentry, hname⟩

theorem yields_resolveDecls :
    Yields (resolveDecls catalogue isInput idx seen decls) s fun r _ =>
      (DeclsResolved catalogue idx decls r.1 r.2.1 ∧ r.2.2 = false) ∧
      (decls.map (·.name.name)).Nodup ∧ ∀ decl ∈ decls, seen.lookup decl.name.name = none := by
  induction decls generalizing idx seen s with
  | nil => exact yields_pure ⟨⟨.nil, rfl⟩, List.nodup_nil, by simp⟩
  | cons decl decls ih =>
    rw [resolveDecls]
    dsimp only
    split
    case h_1 =>
      apply yields_bind
      exact yields_report
    case h_2 hnew =>
      apply yields_bind
      apply yields_attempt
      refine yields_resolveFieldType.mono fun ty t hty => ?_
      refine ih.bind ?_
      rintro r u ⟨hr, hnodup, hfresh⟩
      have hother : ∀ other ∈ decls, other.name.name ≠ decl.name.name ∧
          seen.lookup other.name.name = none := by
        intro other hmem
        have hlookup := hfresh other hmem
        rw [List.lookup_cons] at hlookup
        split at hlookup
        case h_1 => cases hlookup
        case h_2 hne => exact ⟨by simpa using hne, hlookup⟩
      refine yields_pure ⟨⟨.cons hty.1 hty.2 hr.1, hr.2⟩, ?_, ?_⟩
      · rw [List.map_cons, List.nodup_cons]
        refine ⟨fun hmem => ?_, hnodup⟩
        obtain ⟨other, hother', heq⟩ := List.mem_map.mp hmem
        exact (hother other hother').1 heq
      · exact List.forall_mem_cons.mpr ⟨hnew, fun other hmem => (hother other hmem).2⟩

theorem DeclFor.names
    (h : List.Forall₂ (DeclFor catalogue) decls schema) :
    schema.map (·.name) = decls.map (·.name.name) := by
  induction h with
  | nil => rfl
  | cons hfirst _ ih => rw [List.map_cons, List.map_cons, ih, hfirst.1]

theorem yields_resolveFieldSchema :
    Yields (resolveFieldSchema catalogue isInput decls) s fun S _ =>
      S.Sound catalogue ∧ Dense S.schema ∧ List.Forall₂ (DeclFor catalogue) decls S.schema ∧
      (S.schema.map (·.name)).Nodup := by
  refine yields_resolveDecls.bind ?_
  rintro ⟨schema, nameMap, hadFatal⟩ t ⟨⟨h, rfl⟩, hnodup, -⟩
  refine yields_pure ⟨⟨?_, h.known⟩, ?_, h.decls, (DeclFor.names h.decls) ▸ hnodup⟩
  · intro name id hlookup
    obtain ⟨i, entry, rfl, hentry, hname⟩ := h.names name id hlookup
    exact ⟨entry, by rwa [Nat.zero_add], hname⟩
  · intro i entry hentry
    rw [h.ids i entry hentry, Nat.zero_add]

end Schemas

section Predicates

variable {R : Runtime} {catalogue : Catalogue} {inputs : Schemas}

theorem yields_lowerSetValues {field : String} (hknown : KnownType catalogue ty) {index : ℕ} :
    Yields (lowerSetValues R catalogue field ty index first literals) s fun values _ =>
      List.Forall₂ (LiteralFor R catalogue ty) literals values := by
  induction literals generalizing index first s with
  | nil => exact yields_pure .nil
  | cons literal literals ih =>
    rw [lowerSetValues]
    apply yields_bind
    apply yields_attempt
    refine (yields_lowerLiteral hknown).mono fun v t hv => ?_
    dsimp only
    -- whether or not the member is recorded again, the rest of the loop is the same
    have hrest : ∀ u, Yields (do
        Collect.reportIf (∃ w ∈ first, typeNameOf w ≠ typeNameOf v)
          (.setMemberTypeMismatch field ty.typeName (typeNameOf v) index literal.span)
        let rest ← lowerSetValues R catalogue field ty (index + 1) (first.or (some v)) literals
        return v :: rest) u fun values _ =>
          List.Forall₂ (LiteralFor R catalogue ty) (literal :: literals) values := by
      intro u
      apply yields_bind
      apply yields_reportIf
      intro _
      refine ih.bind fun values w hvalues => ?_
      exact yields_pure (.cons hv hvalues)
    split
    case h_1 =>
      apply yields_bind
      apply yields_update
      exact hrest _
    case h_2 => exact hrest _

theorem yields_lowerRangeBound (catalogue : Catalogue) (hnumeric : ty.isNumeric = true) :
    Yields (lowerRangeBound R bound ty) s fun v _ => BoundFor R catalogue ty bound v := by
  cases bound with
  | unbounded => exact yields_pure trivial
  | value n =>
    apply yields_attempt
    exact yields_lowerNumberForType catalogue hnumeric

theorem yields_lowerPredicates
    (h : ∀ p ∈ ps, ∀ s, Yields (lowerPredicate R catalogue inputs p) s fun q _ => PredicateFor R
      catalogue inputs.schema p q) :
    Yields (lowerPredicates R catalogue inputs ps) s fun qs _ =>
      List.Forall₂ (PredicateFor R catalogue inputs.schema) ps qs := by
  induction ps generalizing s with
  | nil =>
    rw [lowerPredicates]
    exact yields_pure .nil
  | cons p ps ih =>
    obtain ⟨hp, hps⟩ := List.forall_mem_cons.mp h
    rw [lowerPredicates]
    apply yields_bind
    apply yields_attempt
    refine (hp s).mono fun q t hq => ?_
    refine (ih hps).bind fun qs u hqs => ?_
    exact yields_pure (.cons hq hqs)

variable (hinputs : inputs.Sound catalogue)
include hinputs

theorem yields_resolveInputField :
    Yields (resolveInputField inputs field) s fun r _ =>
      FieldFor inputs.schema field.name r.1 r.2 ∧ KnownType catalogue r.2 := by
  unfold resolveInputField
  split
  case h_1 => exact yields_fail
  case h_2 id hid =>
    obtain ⟨entry, hentry, hname⟩ := hinputs.names _ id hid
    rw [hentry]
    exact yields_pure ⟨⟨entry, hentry, hname, rfl⟩,
      hinputs.known entry (List.mem_of_getElem? hentry)⟩

theorem yields_lowerLiteralComparison {value : LiteralAst} :
    Yields (lowerLiteralComparison R catalogue inputs field op value span) s fun q _ =>
      ∃ id ty rhs, FieldFor inputs.schema field.name id ty ∧
        LiteralFor R catalogue ty value rhs ∧ q = .comparison id op rhs span := by
  refine (yields_resolveInputField hinputs).bind fun r t hr => ?_
  refine (yields_lowerLiteral hr.2).bind fun rhs u hrhs => ?_
  exact yields_pure ⟨r.1, r.2, rhs, hr.1, hrhs, rfl⟩

theorem yields_lowerComparisonPred {value : NumberLitAst} :
    Yields (lowerComparisonPred R inputs field op value span) s fun q _ =>
      ∃ id ty rhs, FieldFor inputs.schema field.name id ty ∧ ty.isNumeric = true ∧
        LiteralFor R catalogue ty (.number value) rhs ∧ q = .comparison id op rhs span := by
  refine (yields_resolveInputField hinputs).bind ?_
  rintro ⟨id, ty⟩ t ⟨hfield, -⟩
  dsimp only
  split
  case isTrue hnumeric =>
    refine (yields_lowerNumberForType catalogue hnumeric).bind fun rhs u hrhs => ?_
    exact yields_pure ⟨id, ty, rhs, hfield, hnumeric, hrhs, rfl⟩
  case isFalse => exact yields_fail

theorem yields_lowerRange {lower upper : RangeBound}
    {lowerInclusive upperInclusive : Bool} :
    Yields (lowerRange R inputs field lower upper lowerInclusive upperInclusive span) s fun q _ =>
      PredicateFor R catalogue inputs.schema
        (.range field lower upper lowerInclusive upperInclusive span) q := by
  refine (yields_resolveInputField hinputs).bind ?_
  rintro ⟨id, ty⟩ t ⟨hfield, -⟩
  dsimp only
  split
  case isTrue hnumeric =>
    refine (yields_lowerRangeBound catalogue hnumeric).bind fun lo u hlo => ?_
    refine (yields_lowerRangeBound catalogue hnumeric).bind fun hi v hhi => ?_
    exact yields_pure (.range hfield hnumeric hlo hhi)
  case isFalse => exact yields_fail

theorem yields_lowerInSet :
    Yields (lowerInSet R catalogue inputs field values span) s fun q _ =>
      PredicateFor R catalogue inputs.schema (.inSet field values span) q := by
  refine (yields_resolveInputField hinputs).bind fun r t hr => ?_
  refine (yields_lowerSetValues hr.2).bind fun typed u htyped => ?_
  exact yields_pure (.inSet hr.1 htyped)

theorem yields_lowerPredicate (p : PredicateAst) (s : Notes) :
    Yields (lowerPredicate R catalogue inputs p) s fun q _ =>
      PredicateFor R catalogue inputs.schema p q := by
  induction p generalizing s with
  | eq field value span | notEq field value span =>
    rw [lowerPredicate]
    refine (yields_lowerLiteralComparison hinputs).mono ?_
    rintro q t ⟨id, ty, rhs, hfield, hvalue, rfl⟩
    constructor
    exacts [hfield, hvalue]
  | lt field value span | le field value span | gt field value span | ge field value span =>
    rw [lowerPredicate]
    refine (yields_lowerComparisonPred hinputs).mono ?_
    rintro q t ⟨id, ty, rhs, hfield, hnumeric, hvalue, rfl⟩
    constructor
    exacts [hfield, hnumeric, hvalue]
  | inSet field values span =>
    rw [lowerPredicate]
    exact yields_lowerInSet hinputs
  | range field lower upper lowerInclusive upperInclusive span =>
    rw [lowerPredicate]
    exact yields_lowerRange hinputs
  | isNull field span | isNotNull field span =>
    rw [lowerPredicate]
    refine (yields_resolveInputField hinputs).bind fun r t hr => yields_pure ?_
    constructor
    exact hr.1
  | not inner span ih =>
    rw [lowerPredicate]
    refine (ih s).bind fun q t hq => ?_
    exact yields_pure (.not hq)
  | and items span ih | or items span ih =>
    rw [lowerPredicate]
    refine (yields_lowerPredicates ih).bind fun qs t hqs => yields_pure ?_
    constructor
    exact hqs

theorem yields_lowerWhen {w : WhenAst} :
    Yields (lowerWhen R catalogue inputs w) s fun typed _ =>
      WhenFor R catalogue inputs.schema w typed := by
  cases w with
  | catchAll span => exact yields_pure rfl
  | predicates preds span =>
    refine (yields_lowerPredicates fun p _ => yields_lowerPredicate hinputs p).bind ?_
    intro typed t htyped
    exact yields_pure ⟨htyped, rfl⟩

end Predicates

section Rules

variable {R : Runtime} {catalogue : Catalogue} {inputs outputs : Schemas}

/-- What the loop over the assignments establishes when `before` were assigned ahead of it. -/
structure Assigned (R : Runtime) (catalogue : Catalogue) (outputs : List FieldSchema)
    (before : List (FieldId × SourceSpan)) (assigns : List AssignmentAst)
    (typed : List TypedAssignment) (after : List (FieldId × SourceSpan)) : Prop where
  assigns : List.Forall₂ (AssignmentFor R catalogue outputs) assigns typed
  nodup : (typed.map (·.outputField)).Nodup
  fresh : ∀ a ∈ typed, before.lookup a.outputField = none
  /-- Nothing else counts as assigned. -/
  after : ∀ id, after.lookup id ≠ none →
    before.lookup id ≠ none ∨ id ∈ typed.map (·.outputField)

theorem Assigned.nil : Assigned R catalogue outputs.schema before [] [] before :=
  ⟨.nil, .nil, by simp, fun _ h => .inl h⟩

theorem Assigned.cons {a : AssignmentAst}
    (hfor : AssignmentFor R catalogue outputs.schema a ⟨id, v, a.span⟩)
    (hfresh : before.lookup id = none)
    (h : Assigned R catalogue outputs.schema ((id, a.span) :: before) assigns typed after) :
    Assigned R catalogue outputs.schema before (a :: assigns) (⟨id, v, a.span⟩ :: typed) after := by
  have hlookup : ∀ other, List.lookup other ((id, a.span) :: before) =
      if other = id then some a.span else before.lookup other := by
    intro other
    rw [List.lookup_cons]
    by_cases heq : other = id
    · rw [if_pos heq, beq_iff_eq.mpr heq]
    · rw [if_neg heq, beq_eq_false_iff_ne.mpr heq]
  have hother : ∀ b ∈ typed, b.outputField ≠ id ∧ before.lookup b.outputField = none := by
    intro b hb
    have := h.fresh b hb
    rw [hlookup] at this
    split at this
    case isTrue => cases this
    case isFalse hne => exact ⟨hne, this⟩
  refine ⟨.cons hfor h.assigns, ?_, ?_, ?_⟩
  · rw [List.map_cons, List.nodup_cons]
    refine ⟨?_, h.nodup⟩
    intro hmem
    obtain ⟨b, hb, hid⟩ := List.mem_map.mp hmem
    exact (hother b hb).1 hid
  · exact List.forall_mem_cons.mpr ⟨hfresh, fun b hb => (hother b hb).2⟩
  · intro other hafter
    rw [List.map_cons, List.mem_cons]
    by_cases heq : other = id
    · exact .inr (.inl heq)
    · rcases h.after other hafter with hbefore | hmem
      · rw [hlookup, if_neg heq] at hbefore
        exact .inl hbefore
      · exact .inr (.inr hmem)

theorem yields_lowerAssignments (houtputs : outputs.Sound catalogue) :
    Yields (lowerAssignments R catalogue rule outputs before assigns) s fun r _ =>
      Assigned R catalogue outputs.schema before assigns r.1 r.2 := by
  induction assigns generalizing before s with
  | nil => exact yields_pure .nil
  | cons a assigns ih =>
    rw [lowerAssignments]
    split
    case h_1 =>
      apply yields_bind
      exact yields_report
    case h_2 id hid =>
      obtain ⟨entry, hentry, hname⟩ := houtputs.names _ id hid
      rw [hentry]
      dsimp only
      split
      case h_1 =>
        apply yields_bind
        exact yields_report
      case h_2 hfresh =>
        have hknown := houtputs.known entry (List.mem_of_getElem? hentry)
        apply yields_bind
        apply yields_attempt
        refine (yields_lowerLiteral hknown).mono fun v t hv => ?_
        refine ih.bind fun r u hr => ?_
        exact yields_pure (.cons ⟨⟨_, ⟨entry, hentry, hname, rfl⟩, hv⟩, rfl⟩ hfresh hr)

theorem yields_reportMissing {fields : List FieldSchema} :
    Yields (reportMissing rule span assigned fields) s fun _ _ =>
      ∀ field ∈ fields, assigned.lookup field.fieldId ≠ none := by
  induction fields generalizing s with
  | nil => exact yields_pure (by simp)
  | cons field fields ih =>
    apply yields_bind
    apply yields_reportIf
    intro hassigned
    refine ih.mono fun _ t hfields => ?_
    exact List.forall_mem_cons.mpr ⟨hassigned, hfields⟩

theorem Assigned.perm_range (hdense : Dense schema)
    (h : Assigned R catalogue schema [] assigns typed after)
    (hall : ∀ field ∈ schema, after.lookup field.fieldId ≠ none) :
    (typed.map (·.outputField)).Perm (List.range schema.length) := by
  rw [List.perm_ext_iff_of_nodup h.nodup List.nodup_range]
  intro id
  rw [List.mem_range]
  constructor
  · intro hmem
    obtain ⟨t, ht, rfl⟩ := List.mem_map.mp hmem
    obtain ⟨a, -, ⟨ty, ⟨entry, hentry, -⟩, -⟩, -⟩ := exists_of_forall₂_right h.assigns ht
    exact (List.getElem?_eq_some_iff.mp hentry).1
  · intro hid
    have hentry : schema[id]? = some schema[id] := List.getElem?_eq_getElem hid
    have hassigned := hall schema[id] (List.getElem_mem hid)
    rw [hdense id _ hentry] at hassigned
    rcases h.after id hassigned with hbefore | hmem
    · exact absurd rfl hbefore
    · exact hmem

theorem yields_lowerThen (houtputs : outputs.Sound catalogue) (hdense : Dense outputs.schema) :
    Yields (lowerThen R catalogue rule outputs assigns) s fun typed _ =>
      List.Forall₂ (AssignmentFor R catalogue outputs.schema) assigns typed ∧
      (typed.map (·.outputField)).Perm (List.range outputs.schema.length) := by
  refine (yields_lowerAssignments houtputs).bind fun r t hr => ?_
  refine yields_reportMissing.bind fun _ u hall => ?_
  exact yields_pure ⟨hr.assigns, hr.perm_range hdense hall⟩

theorem yields_checkRuleIds : Yields (checkRuleIds seen rules) s fun _ _ => True := by
  induction rules generalizing seen s with
  | nil => exact yields_pure trivial
  | cons rule rules ih =>
    rw [checkRuleIds]
    split
    case h_1 =>
      apply yields_bind
      exact yields_report
    case h_2 => exact ih

theorem yields_checkCatchAll {rule : RuleAst} :
    Yields (checkCatchAll policy catchAll rule) s fun _ _ => True := by
  unfold checkCatchAll
  split
  case h_1 =>
    apply yields_bind
    exact yields_report
  case h_2 => exact yields_pure trivial
  case h_3 =>
    apply yields_bind
    apply yields_reportIf
    intro _
    exact yields_pure trivial
  case h_4 => exact yields_pure trivial

/-- What the loop over the rules establishes from position `idx` on. -/
structure RulesLowered (R : Runtime) (catalogue : Catalogue) (inputs outputs : List FieldSchema)
    (idx : ℕ) (rules : List RuleAst) (typed : List TypedRule) : Prop where
  rules : List.Forall₂ (RuleFor R catalogue inputs outputs) rules typed
  ids : typed.map (·.ruleId) = List.range' idx typed.length
  outputs : ∀ rule ∈ typed, (rule.assigns.map (·.outputField)).Perm (List.range outputs.length)

theorem yields_lowerRules (hinputs : inputs.Sound catalogue) (houtputs : outputs.Sound catalogue)
    (hdense : Dense outputs.schema) :
    Yields (lowerRules R catalogue policy inputs outputs idx catchAll rules) s fun typed _ =>
      RulesLowered R catalogue inputs.schema outputs.schema idx rules typed := by
  induction rules generalizing idx catchAll s with
  | nil => exact yields_pure ⟨.nil, rfl, by simp⟩
  | cons rule rules ih =>
    rw [lowerRules]
    refine yields_checkCatchAll.bind fun found t _ => ?_
    refine (yields_lowerWhen hinputs).bind fun when u hwhen => ?_
    refine (yields_lowerThen houtputs hdense).bind fun assigns v hassigns => ?_
    refine ih.bind fun typed w htyped => ?_
    refine yields_pure ⟨.cons ⟨rfl, hwhen, hassigns.1, rfl⟩ htyped.rules, ?_, ?_⟩
    · rw [List.map_cons, htyped.ids, List.length_cons, List.range'_succ]
    · exact List.forall_mem_cons.mpr ⟨hassigns.2, htyped.outputs⟩

end Rules

section Decisions

variable {R : Runtime} {catalogue : Catalogue}

theorem yields_lowerSchemas :
    Yields (lowerSchemas catalogue ast) s fun r _ =>
      (r.1.Sound catalogue ∧ Dense r.1.schema ∧
        List.Forall₂ (DeclFor catalogue) ast.inputs r.1.schema ∧ (r.1.schema.map (·.name)).Nodup) ∧
      r.2.Sound catalogue ∧ Dense r.2.schema ∧
        List.Forall₂ (DeclFor catalogue) ast.outputs r.2.schema := by
  apply yields_bind
  apply yields_strictly
  refine yields_resolveFieldSchema.bind fun inputs t hinputs => ?_
  refine yields_resolveFieldSchema.bind fun outputs u houtputs => ?_
  apply yields_pure
  apply yields_bind
  apply yields_strictly
  apply yields_bind
  apply yields_reportIf
  intro _
  apply yields_reportIf
  intro _
  exact yields_pure ⟨hinputs, houtputs.1, houtputs.2.1, houtputs.2.2.1⟩

theorem FieldFor.lt_length (h : FieldFor schema name id ty) :
    id < schema.length := by
  obtain ⟨entry, hentry, -⟩ := h
  exact (List.getElem?_eq_some_iff.mp hentry).1

theorem FieldFor.orderedTyped {rhs : TypedValue}
    (hfield : FieldFor schema name id ty) (hnumeric : ty.isNumeric = true)
    (hvalue : LiteralFor R catalogue ty literal rhs) :
    (TypedPredicate.comparison id op rhs span).WellTyped catalogue schema := by
  obtain ⟨entry, hentry, -, rfl⟩ := hfield
  exact ⟨entry, hentry, hvalue.hasType, .inr (.inr hnumeric)⟩

theorem everyAll_of_forall₂ {leaf : TypedPredicate → Prop} {junction : List TypedPredicate → Prop}
    {P : PredicateAst → TypedPredicate → Prop} {qs : List TypedPredicate} (h : List.Forall₂ P ps qs)
    (hevery : ∀ p ∈ ps, ∀ q, P p q → TypedPredicate.Every leaf junction q) :
    TypedPredicate.EveryAll leaf junction qs := by
  refine TypedPredicate.everyAll_iff.mpr fun q hq => ?_
  obtain ⟨p, hp, hpq⟩ := exists_of_forall₂_right h hq
  exact hevery p hp q hpq

theorem PredicateFor.wellTyped {p : PredicateAst} {q : TypedPredicate}
    (h : PredicateFor R catalogue schema p q) : q.WellTyped catalogue schema := by
  induction p generalizing q with
  | eq field value span =>
    cases h with
    | eq hfield hvalue =>
      obtain ⟨entry, hentry, -, rfl⟩ := hfield
      exact ⟨entry, hentry, hvalue.hasType, .inl rfl⟩
  | notEq field value span =>
    cases h with
    | notEq hfield hvalue =>
      obtain ⟨entry, hentry, -, rfl⟩ := hfield
      exact ⟨entry, hentry, hvalue.hasType, .inr (.inl rfl)⟩
  | lt field value span | le field value span | gt field value span | ge field value span =>
    cases h
    case _ hnumeric hfield hvalue => exact hfield.orderedTyped hnumeric hvalue
  | inSet field values span =>
    cases h with
    | inSet hfield hvalues =>
      obtain ⟨entry, hentry, -, rfl⟩ := hfield
      refine ⟨entry, hentry, fun v hv => ?_⟩
      obtain ⟨literal, -, hliteral⟩ := exists_of_forall₂_right hvalues hv
      exact hliteral.hasType
  | range field lower upper lowerInclusive upperInclusive span =>
    cases h with
    | range hfield hnumeric hlower hupper =>
      obtain ⟨entry, hentry, -, rfl⟩ := hfield
      exact ⟨entry, hentry, hnumeric, fun v hv => hlower.hasType hv, fun v hv => hupper.hasType hv⟩
  | isNull field span | isNotNull field span =>
    cases h
    case _ hfield => exact hfield.lt_length
  | not inner span ih =>
    cases h with
    | not hinner =>
      have hwell := ih hinner
      exact hwell
  | and items span ih | or items span ih =>
    cases h
    case _ hitems => exact ⟨trivial, everyAll_of_forall₂ hitems fun p hp q => ih p hp⟩

theorem WhenFor.exists_of_mem {w : WhenAst} {typed : TypedWhen}
    (h : WhenFor R catalogue schema w typed) {q : TypedPredicate} (hq : q ∈ typed.preds) :
    ∃ preds span, w = .predicates preds span ∧ ∃ p ∈ preds, PredicateFor R catalogue schema p q := by
  cases w with
  | catchAll span =>
    cases typed with
    | catchAll => cases hq
    | predicates => exact h.elim
  | predicates preds span =>
    cases typed with
    | catchAll => cases hq
    | predicates typed _ => exact ⟨preds, span, rfl, exists_of_forall₂_right h.1 hq⟩

theorem WhenFor.wellTyped {w : WhenAst} {typed : TypedWhen}
    (h : WhenFor R catalogue schema w typed) : ∀ q ∈ typed.preds, q.WellTyped catalogue schema := by
  intro q hq
  obtain ⟨_, _, _, p, _, hpq⟩ := h.exists_of_mem hq
  exact hpq.wellTyped

theorem RulesLowered.wellTyped {inputs outputs : List FieldSchema} {typed : List TypedRule}
    (h : RulesLowered R catalogue inputs outputs idx rules typed) :
    ∀ rule ∈ typed, rule.WellTyped catalogue inputs outputs := by
  intro rule hrule
  obtain ⟨ast, -, hfor⟩ := exists_of_forall₂_right h.rules hrule
  refine ⟨hfor.when.wellTyped, fun a ha => ?_, h.outputs rule hrule⟩
  obtain ⟨_, -, ⟨ty, ⟨entry, hentry, -, rfl⟩, hvalue⟩, -⟩ := exists_of_forall₂_right hfor.assigns ha
  exact ⟨entry, hentry, hvalue.hasType⟩

theorem yields_lowerDecision :
    Yields (lowerDecision R catalogue ast) s fun typed _ =>
      DecisionFor R catalogue ast typed ∧ typed.WellTyped catalogue ∧
        (typed.inputSchema.map (·.name)).Nodup := by
  refine yields_lowerSchemas.bind ?_
  rintro ⟨inputs, outputs⟩ t
    ⟨⟨hinputs, hinputDense, hinputDecls, hnodup⟩, houtputs, hdense, houtputDecls⟩
  have hrest : ∀ u, Yields (do
      checkRuleIds [] ast.rules
      let policy := hitPolicyOf ast.hitPolicy
      let rules ← lowerRules R catalogue policy inputs outputs 0 none ast.rules
      let notes ← Collect.read
      return ({
        decisionId := (ast.decisionId.map (·.value)).getD ast.name.name
        name := ast.name.name
        hitPolicy := policy
        inputSchema := inputs.schema
        outputSchema := outputs.schema
        rules
        resolvedEntities := notes.entities
        sourceSpan := ast.span } : TypedDecision)) u fun typed _ =>
        DecisionFor R catalogue ast typed ∧ typed.WellTyped catalogue ∧
        (typed.inputSchema.map (·.name)).Nodup := by
    intro u
    refine yields_checkRuleIds.bind fun _ v _ => ?_
    refine (yields_lowerRules hinputs houtputs hdense).bind fun rules w hrules => ?_
    apply yields_bind
    apply yields_read
    refine yields_pure ⟨⟨rfl, rfl, rfl, rfl, hinputDecls, houtputDecls, hrules.rules⟩,
      ⟨hinputDense, hdense, ?_, hrules.wellTyped⟩, hnodup⟩
    rw [hrules.ids, List.range_eq_range']
  dsimp only
  split
  case isTrue =>
    apply yields_bind
    apply yields_update
    exact hrest _
  case isFalse => exact hrest _

/-- When no error is reported the typed decision is the source in another form, every literal has its
field's type, every rule assigns every output once, and ids are positions. -/
theorem lower_complete {ast : DecisionAst} (hclean : (lower R catalogue ast).errors = []) :
    ∃ typed, (lower R catalogue ast).decision = some typed ∧
      DecisionFor R catalogue ast typed ∧ typed.WellTyped catalogue := by
  obtain ⟨typed, notes, hrun, hfor, htyped, -⟩ := yields_lowerDecision hclean
  refine ⟨typed, ?_, hfor, htyped⟩
  rw [lower, hrun]

end Decisions

namespace Sample

def grades : Catalogue := ⟨[⟨1, "Grade", [⟨10, "A"⟩, ⟨11, "B"⟩, ⟨12, "C"⟩]⟩]⟩

def symbol (name : String) : SymbolAst := ⟨name, default⟩

def number (text : String) : NumberLitAst := ⟨text, .integer, default⟩

/-- A decision with nested predicates, a set and a range. -/
def grading : DecisionAst where
  name := symbol "grading"
  decisionId := none
  hitPolicy := .first default
  inputs := [⟨symbol "grade", .enum default, symbol "Grade", default⟩,
    ⟨symbol "score", .integer default, symbol "Grade", default⟩]
  outputs := [⟨symbol "passed", .bool default, symbol "Grade", default⟩]
  rules := [
    ⟨symbol "high", .predicates [.or [.eq (symbol "grade") (.symbol (symbol "A")) default,
        .and [.ge (symbol "score") (number "50") default,
          .not (.eq (symbol "grade") (.symbol (symbol "C")) default) default] default] default]
        default, [⟨symbol "passed", .boolean true default, default⟩], default⟩,
    ⟨symbol "low", .predicates [.inSet (symbol "grade")
        [.symbol (symbol "B"), .symbol (symbol "C")] default,
        .range (symbol "score") (.unbounded default) (.value (number "49")) true true default]
        default, [⟨symbol "passed", .boolean false default, default⟩], default⟩]
  span := default

theorem grading_lowered :
    (lower ⟨fun _ => 0, fun _ => none⟩ grades grading).errors = [] ∧
      ∃ typed, (lower ⟨fun _ => 0, fun _ => none⟩ grades grading).decision = some typed ∧
        DecisionFor ⟨fun _ => 0, fun _ => none⟩ grades grading typed ∧ typed.WellTyped grades :=
  ⟨by decide +kernel, lower_complete (by decide +kernel)⟩

end Sample

end BpmnLite.Dmn
