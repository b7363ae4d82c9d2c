import BpmnLite.Dmn.Types

/-!
# Catalogues and well-typed decisions

A catalogue of domains, and what it means for values, predicates and whole decisions to be typed
against a schema. Domains and values are looked up by name or id, and of several with one key the
last one declared is found, as in the hash maps of the source.
-/

namespace BpmnLite.Dmn

section Catalogues

structure DomainValue where
  valueId : ValueId
  symbol : String

structure Domain where
  domainId : DomainId
  name : String
  values : List DomainValue

def Domain.resolveValue (domain : Domain) (symbol : String) : Option ValueId :=
  (domain.values.reverse.find? (·.symbol = symbol)).map (·.valueId)

def Domain.valueIds (domain : Domain) : List ValueId := domain.values.map (·.valueId)

theorem Domain.mem_of_resolveValue {domain : Domain} {symbol : String} {v : ValueId}
    (h : domain.resolveValue symbol = some v) : v ∈ domain.valueIds := by
  obtain ⟨w, hw, rfl⟩ := Option.map_eq_some_iff.mp h
  exact List.mem_map.mpr ⟨w, List.mem_reverse.mp (List.mem_of_find?_eq_some hw), rfl⟩

structure Catalogue where
  domains : List Domain

namespace Catalogue

def findDomainById (catalogue : Catalogue) (id : DomainId) : Option Domain :=
  catalogue.domains.reverse.find? (·.domainId = id)

def resolveDomain (catalogue : Catalogue) (name : String) : Option Domain := do
  let named ← catalogue.domains.reverse.find? (·.name = name)
  catalogue.findDomainById named.domainId

theorem findDomainById_of_resolveDomain {catalogue : Catalogue} {name : String} {domain : Domain}
    (h : catalogue.resolveDomain name = some domain) :
    catalogue.findDomainById domain.domainId = some domain := by
  obtain ⟨named, -, hfind⟩ := Option.bind_eq_some_iff.mp h
  have hid : domain.domainId = named.domainId := by simpa using List.find?_some hfind
  rw [hid]
  exact hfind

end Catalogue

end Catalogues

section Typing

def IsI64 (i : ℤ) : Prop := -2 ^ 63 ≤ i ∧ i < 2 ^ 63

def HasType (catalogue : Catalogue) : TypedValue → ResolvedType → Prop
  | .enum d v, .enum domain =>
    d = domain ∧ ∃ found, catalogue.findDomainById d = some found ∧ v ∈ found.valueIds
  | .bool _, .bool => True
  | .integer i, .integer => IsI64 i
  | .decimal _, .decimal => True
  | .str _, .str => True
  | _, _ => False

namespace TypedPredicate

mutual

/-- Every test inside the predicate meets `leaf`, every list of items meets `junction`. -/
def Every (leaf : TypedPredicate → Prop) (junction : List TypedPredicate → Prop) :
    TypedPredicate → Prop
  | .not inner _ => Every leaf junction inner
  | .and items _ => junction items ∧ EveryAll leaf junction items
  | .or items _ => junction items ∧ EveryAll leaf junction items
  | .comparison field op rhs span => leaf (.comparison field op rhs span)
  | .inSet field values span => leaf (.inSet field values span)
  | .range field lower upper lowerInclusive upperInclusive span =>
    leaf (.range field lower upper lowerInclusive upperInclusive span)
  | .isNull field span => leaf (.isNull field span)
  | .isNotNull field span => leaf (.isNotNull field span)

def EveryAll (leaf : TypedPredicate → Prop) (junction : List TypedPredicate → Prop) :
    List TypedPredicate → Prop
  | [] => True
  | p :: ps => Every leaf junction p ∧ EveryAll leaf junction ps

end

variable {leaf leaf' : TypedPredicate → Prop} {junction junction' : List TypedPredicate → Prop}

theorem everyAll_iff {ps : List TypedPredicate} :
    EveryAll leaf junction ps ↔ ∀ p ∈ ps, Every leaf junction p := by
  induction ps with
  | nil => simp [EveryAll]
  | cons p ps ih => rw [EveryAll, ih, List.forall_mem_cons]

theorem Every.imp (hleaf : ∀ p, leaf p → leaf' p) (hjunction : ∀ ps, junction ps → junction' ps)
    {p : TypedPredicate} (h : Every leaf junction p) : Every leaf' junction' p := by
  induction p with
  | comparison | inSet | range | isNull | isNotNull => exact hleaf _ h
  | not inner span ih => exact ih h
  | and items span ih | or items span ih =>
    exact ⟨hjunction items h.1, everyAll_iff.mpr fun p hp => ih p hp (everyAll_iff.mp h.2 p hp)⟩

theorem Every.and {p : TypedPredicate} (h : Every leaf junction p) (h' : Every leaf' junction' p) :
    Every (fun q => leaf q ∧ leaf' q) (fun ps => junction ps ∧ junction' ps) p := by
  induction p with
  | comparison | inSet | range | isNull | isNotNull => exact ⟨h, h'⟩
  | not inner span ih => exact ih h h'
  | and items span ih | or items span ih =>
    refine ⟨⟨h.1, h'.1⟩, everyAll_iff.mpr fun p hp => ih p hp ?_ ?_⟩
    · exact everyAll_iff.mp h.2 p hp
    · exact everyAll_iff.mp h'.2 p hp

/-- A test of one field: its literals have the field's type, and only numbers are ordered. -/
def TestTyped (catalogue : Catalogue) (schema : List FieldSchema) : TypedPredicate → Prop
  | .comparison field op rhs _ => ∃ entry, schema[field]? = some entry ∧
      HasType catalogue rhs entry.fieldType ∧
      (op = .eq ∨ op = .notEq ∨ entry.fieldType.isNumeric = true)
  | .inSet field values _ => ∃ entry, schema[field]? = some entry ∧
      ∀ v ∈ values, HasType catalogue v entry.fieldType
  | .range field lower upper _ _ _ => ∃ entry, schema[field]? = some entry ∧
      entry.fieldType.isNumeric = true ∧ (∀ v ∈ lower, HasType catalogue v entry.fieldType) ∧
      ∀ v ∈ upper, HasType catalogue v entry.fieldType
  | .isNull field _ | .isNotNull field _ => field < schema.length
  | _ => True

def WellTyped (catalogue : Catalogue) (schema : List FieldSchema) (p : TypedPredicate) : Prop :=
  Every (TestTyped catalogue schema) (fun _ => True) p

def WellShaped (p : TypedPredicate) : Prop := Every (fun _ => True) (2 ≤ ·.length) p

end TypedPredicate

def TypedWhen.preds : TypedWhen → List TypedPredicate
  | .catchAll _ => []
  | .predicates preds _ => preds

def Dense (schema : List FieldSchema) : Prop :=
  ∀ (i : ℕ) (entry : FieldSchema), schema[i]? = some entry → entry.fieldId = i

structure TypedRule.WellTyped (catalogue : Catalogue) (inputs outputs : List FieldSchema)
    (rule : TypedRule) : Prop where
  preds : ∀ p ∈ rule.when.preds, p.WellTyped catalogue inputs
  values : ∀ a ∈ rule.assigns, ∃ entry, outputs[a.outputField]? = some entry ∧
    HasType catalogue a.value entry.fieldType
  /-- Every output is assigned exactly once. -/
  outputs : (rule.assigns.map (·.outputField)).Perm (List.range outputs.length)

structure TypedDecision.WellTyped (catalogue : Catalogue) (typed : TypedDecision) : Prop where
  inputs : Dense typed.inputSchema
  outputs : Dense typed.outputSchema
  ids : typed.rules.map (·.ruleId) = List.range typed.rules.length
  rules : ∀ rule ∈ typed.rules, rule.WellTyped catalogue typed.inputSchema typed.outputSchema

end Typing

end BpmnLite.Dmn
