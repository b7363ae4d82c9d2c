import BpmnLite.Dmn.Emit
import BpmnLite.Dmn.Typing

/-!
# What the emitter produces

The code of a decision as a function of its rules and of the final pools (`codeOf`, `rulesCode`).
Pools only grow and an entry is found by its key, so an index handed out once stays right; the
emitter's patches fill in the addresses `rulesCode` computes from the sizes of the rules.
-/

namespace BpmnLite.Dmn.Emit

variable {r : RangeEntry} {vs ws values : List TypedValue} {items preds : List TypedPredicate}
  {v : TypedValue} {p : TypedPredicate} {rule : TypedRule}

section Keys

def Fits : TypedValue → Prop
  | .integer i => IsI64 i
  | _ => True

theorem codec_le_inj {w a b : ℕ} (ha : a < 256 ^ w) (hb : b < 256 ^ w)
    (h : Codec.le w a = Codec.le w b) : a = b := by
  rw [← Codec.leValue_le ha, ← Codec.leValue_le hb, h]

theorem serializeTypedValue_inj {w : TypedValue} (hv : Fits v) (hw : Fits w)
    (h : serializeTypedValue v = serializeTypedValue w) : v = w := by
  cases v with
  | null => cases w <;> simp_all [serializeTypedValue]
  | bool a =>
    cases w with
    | bool b => cases a <;> cases b <;> simp_all [serializeTypedValue]
    | _ => simp [serializeTypedValue] at h
  | integer a =>
    cases w with
    | integer b =>
      simp only [serializeTypedValue, List.cons.injEq, true_and] at h
      have heq := codec_le_inj (by omega) (by omega) h
      simp only [Fits, IsI64] at hv hw
      simp only [TypedValue.integer.injEq]
      omega
    | _ => simp [serializeTypedValue] at h
  | decimal a =>
    cases w with
    | decimal b =>
      simp only [serializeTypedValue, List.cons.injEq, true_and] at h
      have hbits := UInt64.toNat_inj.mp
        (codec_le_inj (by exact a.bits.toNat_lt) (by exact b.bits.toNat_lt) h)
      obtain ⟨a⟩ := a
      obtain ⟨b⟩ := b
      exact congrArg (fun bits => TypedValue.decimal ⟨bits⟩) hbits
    | _ => simp [serializeTypedValue] at h
  | str a =>
    cases w with
    | str b =>
      simp only [serializeTypedValue, List.cons_append, List.cons.injEq, true_and] at h
      have hbytes : a.toUTF8 = b.toUTF8 :=
        ByteArray.ext (Array.toList_inj.mp (List.append_inj h (by simp)).2)
      rw [String.toUTF8_eq_toByteArray, String.toUTF8_eq_toByteArray] at hbytes
      rw [String.toByteArray_inj.mp hbytes]
    | _ => simp [serializeTypedValue] at h
  | enum d a =>
    cases w with
    | enum d' b =>
      simp only [serializeTypedValue, List.cons_append, List.cons.injEq, true_and] at h
      obtain ⟨hd, ha⟩ := List.append_inj h (by simp)
      have hd := codec_le_inj (by exact d.isLt) (by exact d'.isLt) (List.reverse_injective hd)
      have ha := codec_le_inj (by exact a.isLt) (by exact b.isLt) (List.reverse_injective ha)
      rw [BitVec.eq_of_toNat_eq hd, BitVec.eq_of_toNat_eq ha]
    | _ => simp [serializeTypedValue] at h

def NumericBound : Option TypedValue → Prop
  | none => True
  | some (.integer i) => Fits (.integer i)
  | some (.decimal _) => True
  | _ => False

theorem boundKey_append_inj {a b : Option TypedValue} {as bs : List UInt8} (ha : NumericBound a)
    (hb : NumericBound b) (h : boundKey a ++ as = boundKey b ++ bs) : a = b ∧ as = bs := by
  have hlen : ∀ v, NumericBound (some v) → (serializeTypedValue v).length = 9 := by
    intro v hv
    cases v <;> simp_all [NumericBound, serializeTypedValue]
  have hfits : ∀ v, NumericBound (some v) → Fits v := by
    intro v hv
    cases v <;> simp_all [NumericBound, Fits]
  cases a with
  | none =>
    cases b with
    | none => simpa [boundKey] using h
    | some w => simp [boundKey] at h
  | some v =>
    cases b with
    | none => simp [boundKey] at h
    | some w =>
      simp only [boundKey, List.cons_append, List.cons.injEq, true_and] at h
      obtain ⟨hkey, hrest⟩ := List.append_inj h (by rw [hlen v ha, hlen w hb])
      exact ⟨congrArg some (serializeTypedValue_inj (hfits v ha) (hfits w hb) hkey), hrest⟩

def NumericRange (r : RangeEntry) : Prop := NumericBound r.lower ∧ NumericBound r.upper

theorem rangeKey_inj {r' : RangeEntry} (hr : NumericRange r) (hr' : NumericRange r')
    (h : rangeKey r = rangeKey r') : r = r' := by
  obtain ⟨lower, upper, lowerInclusive, upperInclusive⟩ := r
  obtain ⟨lower', upper', lowerInclusive', upperInclusive'⟩ := r'
  simp only [rangeKey, List.cons.injEq] at h
  obtain ⟨hl, hu, hbounds⟩ := h
  obtain ⟨hlower, hupper⟩ := boundKey_append_inj hr.1 hr'.1 hbounds
  have hupper : boundKey upper ++ [] = boundKey upper' ++ [] := by rw [hupper]
  have hbit : ∀ a b : Bool, ((if a then 1 else 0 : UInt8) = if b then 1 else 0) → a = b := by
    decide
  rw [RangeEntry.mk.injEq]
  exact ⟨hlower, (boundKey_append_inj hr.2 hr'.2 hupper).1, hbit _ _ hl, hbit _ _ hu⟩

theorem map_serializeTypedValue_inj (hvs : ∀ v ∈ vs, Fits v) (hws : ∀ w ∈ ws, Fits w)
    (h : vs.map serializeTypedValue = ws.map serializeTypedValue) : vs = ws := by
  induction vs generalizing ws with
  | nil => simpa using h.symm
  | cons v vs ih =>
    cases ws with
    | nil => simp at h
    | cons w ws =>
      simp only [List.map_cons, List.cons.injEq] at h
      rw [serializeTypedValue_inj (hvs v (by simp)) (hws w (by simp)) h.1,
        ih (fun v hv => hvs v (by simp [hv])) (fun w hw => hws w (by simp [hw])) h.2]

end Keys

section Interning

variable {α κ : Type} [DecidableEq κ] {key : α → κ} {good : α → Prop}

/-- `v` stands in the pool, where its key is found first. -/
def Found (key : α → κ) (pool : List α) (v : α) : Prop :=
  pool[pool.findIdx fun w => key w = key v]? = some v

theorem findIdx_of_prefix {pool pool' : List α} {p : α → Bool} (hpool : pool <+: pool')
    (h : pool.findIdx p < pool.length) : pool'.findIdx p = pool.findIdx p := by
  obtain ⟨rest, rfl⟩ := hpool
  rw [List.findIdx_append, if_pos h]

theorem Found.lt {pool : List α} {v : α} (h : Found key pool v) :
    (pool.findIdx fun w => key w = key v) < pool.length :=
  (List.getElem?_eq_some_iff.mp h).1

theorem Found.mono {pool pool' : List α} {v : α} (h : Found key pool v) (hpool : pool <+: pool') :
    Found key pool' v := by
  have hidx := findIdx_of_prefix hpool h.lt
  obtain ⟨rest, rfl⟩ := hpool
  rw [Found, hidx, List.getElem?_append_left h.lt]
  exact h

theorem intern_spec {pool : List α} {v : α} (hpool : ∀ w ∈ pool, good w) (hv : good v)
    (hinj : ∀ v w, good v → good w → key v = key w → v = w) :
    pool <+: (intern key pool v).2 ∧ (∀ w ∈ (intern key pool v).2, good w) ∧
    Found key (intern key pool v).2 v ∧
    (intern key pool v).1 = (intern key pool v).2.findIdx fun w => key w = key v := by
  unfold intern
  split
  case h_1 idx hidx =>
    obtain ⟨hlt, heq, -⟩ := List.findIdx?_eq_some_iff_getElem.mp hidx
    have hfind : (pool.findIdx fun w => decide (key w = key v)) = idx :=
      (List.findIdx?_eq_some_iff_findIdx_eq.mp hidx).2
    refine ⟨List.prefix_rfl, hpool, ?_, hfind.symm⟩
    rw [Found, hfind, List.getElem?_eq_getElem hlt]
    exact congrArg some (hinj _ _ (hpool _ (List.getElem_mem hlt)) hv (of_decide_eq_true heq))
  case h_2 hnone =>
    have hnone := List.findIdx?_eq_none_iff.mp hnone
    have hlen : (pool.findIdx fun w => decide (key w = key v)) = pool.length :=
      List.findIdx_eq_length.mpr hnone
    have hfind : ((pool ++ [v]).findIdx fun w => decide (key w = key v)) = pool.length := by
      rw [List.findIdx_append, hlen, if_neg (lt_irrefl _)]
      simp
    refine ⟨List.prefix_append _ _, ?_, ?_, hfind.symm⟩
    · simp only [List.mem_append, List.mem_singleton]
      rintro w (hw | rfl)
      · exact hpool w hw
      · exact hv
    · rw [Found, hfind]
      simp

end Interning

section Sets

theorem mem_dedupAfter {last : TypedValue} (hlast : Fits last) (hvs : ∀ w ∈ vs, Fits w) :
    v ∈ last :: dedupAfter last vs ↔ v ∈ last :: vs := by
  induction vs generalizing last with
  | nil => rfl
  | cons w vs ih =>
    have hw := hvs w (by simp)
    have hrest : ∀ u ∈ vs, Fits u := fun u hu => hvs u (by simp [hu])
    rw [dedupAfter]
    split
    case isTrue hkey =>
      obtain rfl := serializeTypedValue_inj hw hlast hkey
      rw [ih hlast hrest]
      simp
    case isFalse =>
      rw [List.mem_cons, ih hw hrest, List.mem_cons (l := w :: vs)]

theorem mem_canonicalSet (hvs : ∀ w ∈ vs, Fits w) : v ∈ canonicalSet vs ↔ v ∈ vs := by
  have hsort := List.perm_insertionSort
    (fun a b => serializeTypedValue a ≤ serializeTypedValue b) vs
  unfold canonicalSet
  split
  case h_1 hnil =>
    rw [hnil] at hsort
    rw [hsort.symm.eq_nil]
  case h_2 w ws hcons =>
    rw [hcons] at hsort
    have hfits : ∀ u ∈ w :: ws, Fits u := fun u hu => hvs u (hsort.mem_iff.mp hu)
    rw [mem_dedupAfter (hfits w (by simp)) (fun u hu => hfits u (by simp [hu])), hsort.mem_iff]

end Sets

section Pools

structure Pools where
  consts : List TypedValue
  sets : List (List TypedValue)
  ranges : List RangeEntry

namespace Pools

def const (P : Pools) (v : TypedValue) : ConstId :=
  P.consts.findIdx fun w => serializeTypedValue w = serializeTypedValue v

def set (P : Pools) (vs : List TypedValue) : ConstSetId :=
  P.sets.findIdx fun ws =>
    ws.map serializeTypedValue = (canonicalSet vs).map serializeTypedValue

def range (P : Pools) (r : RangeEntry) : RangeId :=
  P.ranges.findIdx fun r' => rangeKey r' = rangeKey r

structure Le (P Q : Pools) : Prop where
  consts : P.consts <+: Q.consts
  sets : P.sets <+: Q.sets
  ranges : P.ranges <+: Q.ranges

theorem Le.refl (P : Pools) : Le P P := ⟨List.prefix_rfl, List.prefix_rfl, List.prefix_rfl⟩

theorem Le.trans {P Q S : Pools} (h : Le P Q) (h' : Le Q S) : Le P S :=
  ⟨h.consts.trans h'.consts, h.sets.trans h'.sets, h.ranges.trans h'.ranges⟩

/-- Entries that are told apart by their keys. -/
structure Good (P : Pools) : Prop where
  consts : ∀ v ∈ P.consts, Fits v
  sets : ∀ vs ∈ P.sets, ∀ v ∈ vs, Fits v
  ranges : ∀ r ∈ P.ranges, NumericRange r

end Pools

end Pools

section Code

variable (P : Pools)

mutual

def codeOf : TypedPredicate → List Instr
  | .comparison field op rhs _ => [.loadField field, .pushConst (P.const rhs), comparisonInstr op]
  | .inSet field values _ => [.loadField field, .pushConstSet (P.set values), .inSet]
  | .range field lower upper lowerInclusive upperInclusive _ =>
    [.loadField field, .rangeCheck (P.range ⟨lower, upper, lowerInclusive, upperInclusive⟩)]
  | .isNull field _ => [.loadField field, .isNull]
  | .isNotNull field _ => [.loadField field, .isNotNull]
  | .not inner _ => codeOf inner ++ [.not]
  | .and items _ => junctionCode .and items
  | .or items _ => junctionCode .or items

def junctionCode (instr : Instr) : List TypedPredicate → List Instr
  | [] => []
  | first :: items => codeOf first ++ operandsCode instr items

def operandsCode (instr : Instr) : List TypedPredicate → List Instr
  | [] => []
  | item :: items => codeOf item ++ instr :: operandsCode instr items

end

/-- The constant, set or range a test refers to is in the pools. -/
def HoldsTest : TypedPredicate → Prop
  | .comparison _ _ rhs _ => Found serializeTypedValue P.consts rhs
  | .inSet _ values _ => Found (List.map serializeTypedValue) P.sets (canonicalSet values)
  | .range _ lower upper lowerInclusive upperInclusive _ =>
    Found rangeKey P.ranges ⟨lower, upper, lowerInclusive, upperInclusive⟩
  | _ => True

def Holds (p : TypedPredicate) : Prop := p.Every (HoldsTest P) (fun _ => True)

/-- The literals of a test are told apart by their keys. -/
def TestFits : TypedPredicate → Prop
  | .comparison _ _ rhs _ => Fits rhs
  | .inSet _ values _ => ∀ v ∈ values, Fits v
  | .range _ lower upper _ _ _ => NumericBound lower ∧ NumericBound upper
  | _ => True

/-- What the emitter takes: distinguishable literals, and two items in every combinator. -/
def Ready (p : TypedPredicate) : Prop := p.Every TestFits (2 ≤ ·.length)

end Code

section Stability

variable {P Q : Pools}

theorem HoldsTest.mono (hle : P.Le Q) (h : HoldsTest P p) : HoldsTest Q p := by
  cases p with
  | comparison => exact Found.mono h hle.consts
  | inSet => exact Found.mono h hle.sets
  | range => exact Found.mono h hle.ranges
  | _ => trivial

theorem Holds.mono (hle : P.Le Q) (h : Holds P p) : Holds Q p :=
  TypedPredicate.Every.imp (fun _ => HoldsTest.mono hle) (fun _ => id) h

theorem const_eq (hle : P.Le Q) (h : Found serializeTypedValue P.consts v) :
    Q.const v = P.const v :=
  findIdx_of_prefix hle.consts h.lt

theorem set_eq (hle : P.Le Q) (h : Found (List.map serializeTypedValue) P.sets (canonicalSet vs)) :
    Q.set vs = P.set vs :=
  findIdx_of_prefix hle.sets h.lt

theorem range_eq (hle : P.Le Q) (h : Found rangeKey P.ranges r) : Q.range r = P.range r :=
  findIdx_of_prefix hle.ranges h.lt

end Stability

section Contexts

def EmitContext.pools (ctx : EmitContext) : Pools := ⟨ctx.constPool, ctx.constSetPool, ctx.rangePool⟩

/-- `ctx'` is `ctx` with code appended, whatever the pools become later. -/
structure Appends (ctx ctx' : EmitContext) (code : Pools → List Instr) : Prop where
  pools : ctx.pools.Le ctx'.pools
  good : ctx'.pools.Good
  instructions : ∀ Q, ctx'.pools.Le Q → ctx'.instructions = ctx.instructions ++ code Q
  spans : ctx.sourceSpans.length = ctx.instructions.length →
    ctx'.sourceSpans.length = ctx'.instructions.length
  ruleMap : ctx'.ruleMap = ctx.ruleMap
  patchesEnd : ctx'.patchesEnd = ctx.patchesEnd

variable {ctx ctx' ctx'' : EmitContext} {code code' : Pools → List Instr}

theorem Appends.trans (h : Appends ctx ctx' code) (h' : Appends ctx' ctx'' code') :
    Appends ctx ctx'' (fun Q => code Q ++ code' Q) where
  pools := h.pools.trans h'.pools
  good := h'.good
  instructions := fun Q hQ => by
    rw [h'.instructions Q hQ, h.instructions Q (h'.pools.trans hQ), List.append_assoc]
  spans := fun hspans => h'.spans (h.spans hspans)
  ruleMap := h'.ruleMap.trans h.ruleMap
  patchesEnd := h'.patchesEnd.trans h.patchesEnd

theorem Appends.recode (h : Appends ctx ctx' code) (hcode : ∀ Q, ctx'.pools.Le Q → code Q = code' Q) :
    Appends ctx ctx' code' :=
  { h with instructions := fun Q hQ => hcode Q hQ ▸ h.instructions Q hQ }

theorem appends_pools (hpools : ctx.pools.Le ctx'.pools) (hgood : ctx'.pools.Good)
    (hinstrs : ctx'.instructions = ctx.instructions) (hspans : ctx'.sourceSpans = ctx.sourceSpans)
    (hrules : ctx'.ruleMap = ctx.ruleMap) (hpatches : ctx'.patchesEnd = ctx.patchesEnd) :
    Appends ctx ctx' (fun _ => []) where
  pools := hpools
  good := hgood
  instructions := fun _ _ => by rw [hinstrs, List.append_nil]
  spans := fun h => by rw [hspans, hinstrs, h]
  ruleMap := hrules
  patchesEnd := hpatches

/-- The code of `ctx'` is that of `ctx` followed by the code of `p`, whose literals are interned. -/
structure EmitsTest (ctx ctx' : EmitContext) (p : TypedPredicate) : Prop where
  appends : Appends ctx ctx' (codeOf · p)
  holds : Holds ctx'.pools p

section
variable (hgood : ctx.pools.Good)
include hgood

theorem appends_nil : Appends ctx ctx (fun _ => []) where
  pools := .refl _
  good := hgood
  instructions := fun _ _ => (List.append_nil _).symm
  spans := id
  ruleMap := rfl
  patchesEnd := rfl

theorem appends_emit (instr : Instr) (span : SourceSpan) :
    Appends ctx (ctx.emit instr span) (fun _ => [instr]) where
  pools := .refl _
  good := hgood
  instructions := fun _ _ => rfl
  spans := fun h => by simp [EmitContext.emit, h]
  ruleMap := rfl
  patchesEnd := rfl

theorem internConst_spec (hv : Fits v) :
    Appends ctx (ctx.internConst v).2 (fun _ => []) ∧
    Found serializeTypedValue (ctx.internConst v).2.constPool v ∧
    ∀ Q, (ctx.internConst v).2.pools.Le Q → (ctx.internConst v).1 = Q.const v := by
  obtain ⟨hle, hall, hfound, hidx⟩ :=
    intern_spec hgood.consts hv fun v w => serializeTypedValue_inj
  refine ⟨appends_pools ⟨hle, List.prefix_rfl, List.prefix_rfl⟩
    ⟨hall, hgood.sets, hgood.ranges⟩ rfl rfl rfl rfl, hfound, fun Q hQ => ?_⟩
  exact hidx.trans (const_eq hQ hfound).symm

theorem internConstSet_spec (hvs : ∀ v ∈ vs, Fits v) :
    Appends ctx (ctx.internConstSet vs).2 (fun _ => []) ∧
    Found (List.map serializeTypedValue) (ctx.internConstSet vs).2.constSetPool (canonicalSet vs) ∧
    ∀ Q, (ctx.internConstSet vs).2.pools.Le Q → (ctx.internConstSet vs).1 = Q.set vs := by
  have hcanonical : ∀ v ∈ canonicalSet vs, Fits v := fun v hv => hvs v ((mem_canonicalSet hvs).mp hv)
  obtain ⟨hle, hall, hfound, hidx⟩ :=
    intern_spec hgood.sets hcanonical fun v w => map_serializeTypedValue_inj
  refine ⟨appends_pools ⟨List.prefix_rfl, hle, List.prefix_rfl⟩
    ⟨hgood.consts, hall, hgood.ranges⟩ rfl rfl rfl rfl, hfound, fun Q hQ => ?_⟩
  exact hidx.trans (set_eq hQ hfound).symm

theorem internRange_spec (hr : NumericRange r) :
    Appends ctx (ctx.internRange r).2 (fun _ => []) ∧
    Found rangeKey (ctx.internRange r).2.rangePool r ∧
    ∀ Q, (ctx.internRange r).2.pools.Le Q → (ctx.internRange r).1 = Q.range r := by
  obtain ⟨hle, hall, hfound, hidx⟩ := intern_spec hgood.ranges hr fun v w => rangeKey_inj
  refine ⟨appends_pools ⟨List.prefix_rfl, List.prefix_rfl, hle⟩
    ⟨hgood.consts, hgood.sets, hall⟩ rfl rfl rfl rfl, hfound, fun Q hQ => ?_⟩
  exact hidx.trans (range_eq hQ hfound).symm

theorem emitComparison_spec (field : FieldId) (op : ComparisonOp)
    {rhs : TypedValue} (hrhs : Fits rhs) (span : SourceSpan) :
    EmitsTest ctx (emitComparison ctx field op rhs span) (.comparison field op rhs span) := by
  have hload := appends_emit hgood (.loadField field) span
  obtain ⟨hintern, hfound, hidx⟩ := internConst_spec hload.good hrhs
  have hpush := appends_emit hintern.good (.pushConst
    ((ctx.emit (.loadField field) span).internConst rhs).1) span
  have hop := appends_emit hpush.good (comparisonInstr op) span
  have hall := ((hload.trans hintern).trans hpush).trans hop
  refine ⟨hall.recode fun Q hQ => ?_, hfound⟩
  rw [codeOf, hidx Q hQ]
  rfl

theorem emitInSet_spec (field : FieldId) (hvalues : ∀ v ∈ values, Fits v)
    (span : SourceSpan) :
    EmitsTest ctx (emitInSet ctx field values span) (.inSet field values span) := by
  have hload := appends_emit hgood (.loadField field) span
  obtain ⟨hintern, hfound, hidx⟩ := internConstSet_spec hload.good hvalues
  have hpush := appends_emit hintern.good (.pushConstSet
    ((ctx.emit (.loadField field) span).internConstSet values).1) span
  have htest := appends_emit hpush.good .inSet span
  have hall := ((hload.trans hintern).trans hpush).trans htest
  refine ⟨hall.recode fun Q hQ => ?_, hfound⟩
  rw [codeOf, hidx Q hQ]
  rfl

theorem emitRange_spec (field : FieldId) {range : RangeEntry}
    (hrange : NumericRange range) (span : SourceSpan) :
    EmitsTest ctx (emitRange ctx field range span) (.range field range.lower range.upper
      range.lowerInclusive range.upperInclusive span) := by
  have hload := appends_emit hgood (.loadField field) span
  obtain ⟨hintern, hfound, hidx⟩ := internRange_spec hload.good hrange
  have hcheck := appends_emit hintern.good (.rangeCheck
    ((ctx.emit (.loadField field) span).internRange range).1) span
  have hall := (hload.trans hintern).trans hcheck
  refine ⟨hall.recode fun Q hQ => ?_, hfound⟩
  rw [codeOf, hidx Q hQ]
  rfl

end

theorem emitOperands_spec (hgood : ctx.pools.Good) (instr : Instr) (span : SourceSpan)
    (hitems : ∀ p ∈ items, ∀ ctx : EmitContext, ctx.pools.Good →
      ∃ ctx', emitPredicateNested p ctx = some ctx' ∧ EmitsTest ctx ctx' p) :
    ∃ ctx', emitOperands instr span items ctx = some ctx' ∧
      Appends ctx ctx' (operandsCode · instr items) ∧ ∀ p ∈ items, Holds ctx'.pools p := by
  induction items generalizing ctx with
  | nil => exact ⟨ctx, rfl, appends_nil hgood, by simp⟩
  | cons item items ih =>
    obtain ⟨mid, hmid, hemits⟩ := hitems item (by simp) ctx hgood
    have hop := appends_emit hemits.appends.good instr span
    obtain ⟨ctx', hctx', hrest, hholds⟩ := ih hop.good fun p hp => hitems p (by simp [hp])
    refine ⟨ctx', by rw [emitOperands, hmid]; exact hctx', ?_, ?_⟩
    · exact ((hemits.appends.trans hop).trans hrest).recode fun Q _ => by simp [operandsCode]
    · exact List.forall_mem_cons.mpr ⟨hemits.holds.mono (hop.trans hrest).pools, hholds⟩

theorem emitJunction_spec (hgood : ctx.pools.Good) (instr : Instr) (span : SourceSpan)
    (hlen : 2 ≤ items.length)
    (hitems : ∀ p ∈ items, ∀ ctx : EmitContext, ctx.pools.Good →
      ∃ ctx', emitPredicateNested p ctx = some ctx' ∧ EmitsTest ctx ctx' p) :
    ∃ ctx', emitJunction instr span items ctx = some ctx' ∧
      Appends ctx ctx' (junctionCode · instr items) ∧ ∀ p ∈ items, Holds ctx'.pools p := by
  cases items with
  | nil => simp at hlen
  | cons first items =>
    have hne : items ≠ [] := by
      rintro rfl
      simp at hlen
    obtain ⟨mid, hmid, hemits⟩ := hitems first (by simp) ctx hgood
    have hitems := (List.forall_mem_cons.mp hitems).2
    obtain ⟨ctx', hctx', hrest, hholds⟩ :=
      emitOperands_spec hemits.appends.good instr span hitems
    refine ⟨ctx', by rw [emitJunction, if_neg hne, hmid]; exact hctx', hemits.appends.trans hrest, ?_⟩
    exact List.forall_mem_cons.mpr ⟨hemits.holds.mono hrest.pools, hholds⟩

theorem emitPredicateNested_spec (hready : Ready p) (hgood : ctx.pools.Good) :
    ∃ ctx', emitPredicateNested p ctx = some ctx' ∧ EmitsTest ctx ctx' p := by
  induction p generalizing ctx with
  | comparison field op rhs span => exact ⟨_, rfl, emitComparison_spec hgood field op hready span⟩
  | inSet field values span => exact ⟨_, rfl, emitInSet_spec hgood field hready span⟩
  | range field lower upper lowerInclusive upperInclusive span =>
    have hrange : NumericRange ⟨lower, upper, lowerInclusive, upperInclusive⟩ := hready
    exact ⟨_, rfl, emitRange_spec hgood field hrange span⟩
  | isNull field span | isNotNull field span =>
    have hload := appends_emit hgood (.loadField field) span
    exact ⟨_, rfl, hload.trans (appends_emit hload.good _ span), trivial⟩
  | not inner span ih =>
    obtain ⟨mid, hmid, hemits⟩ := ih hready hgood
    refine ⟨mid.emit .not span, by rw [emitPredicateNested, hmid]; rfl, ?_, ?_⟩
    · exact hemits.appends.trans (appends_emit hemits.appends.good .not span)
    · exact hemits.holds
  | and items span ih =>
    obtain ⟨ctx', hctx', happends, hholds⟩ := emitJunction_spec hgood .and span hready.1
      fun p hp ctx => ih p hp (TypedPredicate.everyAll_iff.mp hready.2 p hp)
    exact ⟨ctx', hctx', happends, trivial, TypedPredicate.everyAll_iff.mpr hholds⟩
  | or items span ih =>
    obtain ⟨ctx', hctx', happends, hholds⟩ := emitJunction_spec hgood .or span hready.1
      fun p hp ctx => ih p hp (TypedPredicate.everyAll_iff.mp hready.2 p hp)
    exact ⟨ctx', hctx', happends, trivial, TypedPredicate.everyAll_iff.mpr hholds⟩

end Contexts

section Layout

def testsCode (Q : Pools) (next : ℕ) (preds : List TypedPredicate) : List Instr :=
  preds.flatMap fun p => codeOf Q p ++ [.brFalse next]

def storesCode (Q : Pools) (assigns : List TypedAssignment) : List Instr :=
  assigns.flatMap fun a => [.pushConst (Q.const a.value), .storeOutputTos a.outputField]

def exitCode : HitPolicy → ℕ → List Instr
  | .first, stop => [.br stop]
  | .unique, _ => []

def ruleCode (Q : Pools) (policy : HitPolicy) (rule : TypedRule) (next stop : ℕ) : List Instr :=
  testsCode Q next rule.when.preds ++
    (storesCode Q rule.assigns ++ .ruleMatched rule.ruleId :: exitCode policy stop)

/-- The length of a rule's code does not depend on addresses. -/
def ruleSize (Q : Pools) (policy : HitPolicy) (rule : TypedRule) : ℕ :=
  (ruleCode Q policy rule 0 0).length

/-- The code of rules that begin at `start`; a match leaves for `stop` under FIRST. -/
def rulesCode (Q : Pools) (policy : HitPolicy) (stop : ℕ) : ℕ → List TypedRule → List Instr
  | _, [] => []
  | start, rule :: rules =>
    ruleCode Q policy rule (start + ruleSize Q policy rule) stop ++
      rulesCode Q policy stop (start + ruleSize Q policy rule) rules

def ruleEntries (Q : Pools) (policy : HitPolicy) : ℕ → List TypedRule → List RuleMapEntry
  | _, [] => []
  | start, rule :: rules =>
    ⟨rule.ruleId, rule.ruleName, start, rule.sourceSpan⟩ ::
      ruleEntries Q policy (start + ruleSize Q policy rule) rules

structure RuleHolds (Q : Pools) (rule : TypedRule) : Prop where
  preds : ∀ p ∈ rule.when.preds, Holds Q p
  values : ∀ a ∈ rule.assigns, Found serializeTypedValue Q.consts a.value

structure RuleReady (rule : TypedRule) : Prop where
  preds : ∀ p ∈ rule.when.preds, Ready p
  values : ∀ a ∈ rule.assigns, Fits a.value

theorem length_testsCode (Q : Pools) (next : ℕ) (preds : List TypedPredicate) :
    (testsCode Q next preds).length = (testsCode Q 0 preds).length := by
  simp [testsCode, List.length_flatMap]

theorem length_ruleCode (Q : Pools) (policy : HitPolicy) (rule : TypedRule) (next stop : ℕ) :
    (ruleCode Q policy rule next stop).length = ruleSize Q policy rule := by
  cases policy <;> simp [ruleSize, ruleCode, exitCode, length_testsCode Q next]

theorem RuleHolds.mono {P Q : Pools} (hle : P.Le Q) (h : RuleHolds P rule) : RuleHolds Q rule :=
  ⟨fun p hp => (h.preds p hp).mono hle, fun a ha => (h.values a ha).mono hle.consts⟩

theorem patchBrFalse_append (pre post : List Instr) (target addr : ℕ) :
    patchBrFalse addr (pre ++ .brFalse target :: post) pre.length =
      pre ++ .brFalse addr :: post := by
  simp [patchBrFalse]

theorem patchBr_append (pre post : List Instr) (target addr : ℕ) :
    patchBr addr (pre ++ .br target :: post) pre.length = pre ++ .br addr :: post := by
  simp [patchBr]

variable {ctx : EmitContext}

theorem emitTests_spec (hready : ∀ p ∈ preds, Ready p) (hgood : ctx.pools.Good) :
    ∃ ctx' patches, emitTests preds ctx = some (ctx', patches) ∧
      Appends ctx ctx' (testsCode · placeholder preds) ∧ (∀ p ∈ preds, Holds ctx'.pools p) ∧
      ∀ Q, ctx'.pools.Le Q → ∀ (addr : ℕ) (pre post : List Instr),
        pre.length = ctx.instructions.length →
        patches.foldl (patchBrFalse addr) (pre ++ (testsCode Q placeholder preds ++ post)) =
          pre ++ (testsCode Q addr preds ++ post) := by
  induction preds generalizing ctx with
  | nil => exact ⟨ctx, [], rfl, appends_nil hgood, by simp, fun _ _ _ _ _ _ => rfl⟩
  | cons p preds ih =>
    obtain ⟨mid, hmid, hemits⟩ := emitPredicateNested_spec (hready p (by simp)) hgood
    have hbr := appends_emit hemits.appends.good (.brFalse placeholder) (predSpan p)
    obtain ⟨ctx', patches, hctx', hrest, hholds, hpatch⟩ :=
      ih (fun q hq => hready q (by simp [hq])) hbr.good
    have hall := (hemits.appends.trans hbr).trans hrest
    refine ⟨ctx', mid.pc :: patches, by rw [emitTests, hmid]; simp [hctx'], hall,
      List.forall_mem_cons.mpr ⟨hemits.holds.mono (hbr.trans hrest).pools, hholds⟩, ?_⟩
    intro Q hQ addr pre post hpre
    have hmidlen : (pre ++ codeOf Q p).length = mid.pc := by
      rw [EmitContext.pc, hemits.appends.instructions Q ((hbr.trans hrest).pools.trans hQ),
        List.length_append, List.length_append, hpre]
    have hnext : (pre ++ codeOf Q p ++ [Instr.brFalse addr]).length =
        (mid.emit (.brFalse placeholder) (predSpan p)).instructions.length := by
      rw [List.length_append, hmidlen]
      simp [EmitContext.emit, EmitContext.pc]
    have hshape : ∀ addr, pre ++ (testsCode Q addr (p :: preds) ++ post) =
        pre ++ codeOf Q p ++ .brFalse addr :: (testsCode Q addr preds ++ post) := by
      intro addr
      simp [testsCode]
    have hsplit : ∀ rest : List Instr, pre ++ codeOf Q p ++ .brFalse addr :: rest =
        pre ++ codeOf Q p ++ [.brFalse addr] ++ rest := by
      intro rest
      simp
    have hfirst : patchBrFalse addr (pre ++ (testsCode Q placeholder (p :: preds) ++ post)) mid.pc =
        pre ++ codeOf Q p ++ [.brFalse addr] ++ (testsCode Q placeholder preds ++ post) := by
      rw [hshape, ← hmidlen, patchBrFalse_append, hsplit]
    rw [List.foldl_cons, hfirst, hpatch Q hQ addr _ post hnext, hshape]
    exact (hsplit _).symm

theorem emitAssignments_spec {assigns : List TypedAssignment}
    (hfits : ∀ a ∈ assigns, Fits a.value) (hgood : ctx.pools.Good) :
    Appends ctx (emitAssignments ctx assigns) (storesCode · assigns) ∧
    ∀ a ∈ assigns, Found serializeTypedValue (emitAssignments ctx assigns).constPool a.value := by
  induction assigns generalizing ctx with
  | nil => exact ⟨appends_nil hgood, by simp⟩
  | cons a assigns ih =>
    obtain ⟨hintern, hfound, hidx⟩ := internConst_spec hgood (hfits a (by simp))
    have hpush := appends_emit hintern.good (.pushConst (ctx.internConst a.value).1) a.sourceSpan
    have hstore := appends_emit hpush.good (.storeOutputTos a.outputField) a.sourceSpan
    obtain ⟨hrest, hholds⟩ := ih (fun b hb => hfits b (by simp [hb])) hstore.good
    have hlater := (hpush.trans hstore).trans hrest
    have hall := hintern.trans hlater
    refine ⟨hall.recode fun Q hQ => ?_, ?_⟩
    · rw [hidx Q (hlater.pools.trans hQ)]
      simp [storesCode]
    · exact List.forall_mem_cons.mpr ⟨hfound.mono hlater.pools.consts, hholds⟩

theorem emitWhen_spec {w : TypedWhen} (hready : ∀ p ∈ w.preds, Ready p) (hgood : ctx.pools.Good) :
    ∃ ctx' patches, emitWhen ctx w = some (ctx', patches) ∧
      Appends ctx ctx' (testsCode · placeholder w.preds) ∧ (∀ p ∈ w.preds, Holds ctx'.pools p) ∧
      ∀ Q, ctx'.pools.Le Q → ∀ (addr : ℕ) (pre post : List Instr),
        pre.length = ctx.instructions.length →
        patches.foldl (patchBrFalse addr) (pre ++ (testsCode Q placeholder w.preds ++ post)) =
          pre ++ (testsCode Q addr w.preds ++ post) := by
  cases w with
  | catchAll span =>
    exact ⟨ctx, [], rfl, appends_nil hgood, by simp [TypedWhen.preds], fun _ _ _ _ _ _ => rfl⟩
  | predicates preds span => exact emitTests_spec hready hgood

theorem emitExit_spec (policy : HitPolicy) (span : SourceSpan) (hgood : ctx.pools.Good) :
    ∃ patches, (emitExit policy ctx span).patchesEnd = ctx.patchesEnd ++ patches ∧
      (emitExit policy ctx span).pools = ctx.pools ∧
      (emitExit policy ctx span).instructions = ctx.instructions ++ exitCode policy placeholder ∧
      (ctx.sourceSpans.length = ctx.instructions.length →
        (emitExit policy ctx span).sourceSpans.length =
          (emitExit policy ctx span).instructions.length) ∧
      (emitExit policy ctx span).ruleMap = ctx.ruleMap ∧
      ∀ (addr : ℕ) (pre post : List Instr), pre.length = ctx.instructions.length →
        patches.foldl (patchBr addr) (pre ++ (exitCode policy placeholder ++ post)) =
          pre ++ (exitCode policy addr ++ post) := by
  cases policy with
  | unique => exact ⟨[], by simp [emitExit], rfl, by simp [emitExit, exitCode], id, rfl,
      fun _ _ _ _ => rfl⟩
  | first =>
    refine ⟨[ctx.pc], rfl, rfl, rfl, (appends_emit hgood _ span).spans, rfl, ?_⟩
    intro addr pre post hpre
    rw [EmitContext.pc, ← hpre]
    exact patchBr_append pre post placeholder addr

theorem emitRule_spec (policy : HitPolicy) (hready : RuleReady rule) (hgood : ctx.pools.Good) :
    ∃ ctx' patches, emitRule policy ctx rule = some ctx' ∧ ctx.pools.Le ctx'.pools ∧
      ctx'.pools.Good ∧ RuleHolds ctx'.pools rule ∧
      (ctx.sourceSpans.length = ctx.instructions.length →
        ctx'.sourceSpans.length = ctx'.instructions.length) ∧
      ctx'.ruleMap = ctx.ruleMap ++ [⟨rule.ruleId, rule.ruleName, ctx.pc, rule.sourceSpan⟩] ∧
      ctx'.patchesEnd = ctx.patchesEnd ++ patches ∧
      ∀ Q, ctx'.pools.Le Q →
        ctx'.instructions = ctx.instructions ++
          ruleCode Q policy rule (ctx.pc + ruleSize Q policy rule) placeholder ∧
        ∀ (next addr : ℕ) (pre post : List Instr), pre.length = ctx.pc →
          patches.foldl (patchBr addr) (pre ++ (ruleCode Q policy rule next placeholder ++ post)) =
            pre ++ (ruleCode Q policy rule next addr ++ post) := by
  -- the rule map entry changes nothing the code depends on
  let entered : EmitContext := { ctx with
    ruleMap := ctx.ruleMap ++ [⟨rule.ruleId, rule.ruleName, ctx.pc, rule.sourceSpan⟩] }
  have hentered : entered.pools.Good := hgood
  obtain ⟨tested, patches, htested, htests, hpreds, hpatch⟩ := emitWhen_spec hready.preds hentered
  obtain ⟨hstores, hvalues⟩ := emitAssignments_spec hready.values htests.good
  have hmatched := appends_emit hstores.good (.ruleMatched rule.ruleId) rule.sourceSpan
  have hbody := (htests.trans hstores).trans hmatched
  obtain ⟨exits, hexits, hpools, hinstrs, hspans, hrules, hexit⟩ :=
    emitExit_spec policy rule.sourceSpan hmatched.good
  generalize hexited : emitExit policy _ rule.sourceSpan = exited at hexits hpools hinstrs hspans hrules
  have hcode : ∀ Q, exited.pools.Le Q → exited.instructions = ctx.instructions ++
      (testsCode Q placeholder rule.when.preds ++ (storesCode Q rule.assigns ++
        .ruleMatched rule.ruleId :: exitCode policy placeholder)) := by
    intro Q hQ
    rw [hpools] at hQ
    rw [hinstrs, hbody.instructions Q hQ]
    simp [entered]
  have hpc : ∀ Q, exited.pools.Le Q → exited.pc = ctx.pc + ruleSize Q policy rule := by
    intro Q hQ
    rw [← length_ruleCode Q policy rule placeholder placeholder, EmitContext.pc, hcode Q hQ,
      List.length_append]
    rfl
  have hpatched : ∀ Q, exited.pools.Le Q →
      patches.foldl (patchBrFalse exited.pc) exited.instructions = ctx.instructions ++
        ruleCode Q policy rule (ctx.pc + ruleSize Q policy rule) placeholder := by
    intro Q hQ
    have hle : tested.pools.Le Q := (hstores.trans hmatched).pools.trans (hpools ▸ hQ)
    rw [hcode Q hQ, hpatch Q hle exited.pc ctx.instructions _ rfl, hpc Q hQ]
    rfl
  refine ⟨{ exited with instructions := patches.foldl (patchBrFalse exited.pc) exited.instructions },
    exits, ?_, ?_, ?_, ?_, ?_, ?_, ?_, fun Q hQ => ⟨hpatched Q hQ, ?_⟩⟩
  · simp only [emitRule]
    rw [htested]
    simp only [Option.bind_eq_bind, Option.bind_some, hexited]
    rfl
  · exact hpools ▸ hbody.pools
  · exact hpools ▸ hmatched.good
  · have hholds : RuleHolds (emitAssignments tested rule.assigns).pools rule :=
      ⟨fun p hp => (hpreds p hp).mono hstores.pools, hvalues⟩
    exact hpools ▸ hholds
  · intro hctx
    have hlen := hspans (hbody.spans hctx)
    have heq := congrArg List.length (hpatched exited.pools (.refl _))
    rw [List.length_append, length_ruleCode] at heq
    have hpc := hpc exited.pools (.refl _)
    simp only [EmitContext.pc] at hpc heq
    simp only [heq, EmitContext.pc]
    omega
  · exact hrules.trans hbody.ruleMap
  · rw [← hbody.patchesEnd]
    exact hexits
  · intro next addr pre post hpre
    have hle := hpools ▸ hQ
    have hbefore : (pre ++ testsCode Q next rule.when.preds ++ storesCode Q rule.assigns ++
        [Instr.ruleMatched rule.ruleId]).length = ((emitAssignments tested rule.assigns).emit
          (.ruleMatched rule.ruleId) rule.sourceSpan).instructions.length := by
      rw [hbody.instructions Q hle]
      simp only [List.length_append, length_testsCode Q next, length_testsCode Q placeholder, hpre]
      have hstart : entered.instructions.length = ctx.pc := rfl
      omega
    have hshape : ∀ stop, pre ++ (ruleCode Q policy rule next stop ++ post) =
        pre ++ testsCode Q next rule.when.preds ++ storesCode Q rule.assigns ++
          [Instr.ruleMatched rule.ruleId] ++ (exitCode policy stop ++ post) := by
      intro stop
      simp [ruleCode]
    rw [hshape, hshape, hexit addr _ post hbefore]

theorem emitRules_spec (policy : HitPolicy) {rules : List TypedRule}
    (hready : ∀ rule ∈ rules, RuleReady rule) (hgood : ctx.pools.Good) :
    ∃ ctx' patches, rules.foldlM (emitRule policy) ctx = some ctx' ∧ ctx.pools.Le ctx'.pools ∧
      (∀ rule ∈ rules, RuleHolds ctx'.pools rule) ∧
      (ctx.sourceSpans.length = ctx.instructions.length →
        ctx'.sourceSpans.length = ctx'.instructions.length) ∧
      ctx'.patchesEnd = ctx.patchesEnd ++ patches ∧
      ∀ Q, ctx'.pools.Le Q →
        ctx'.ruleMap = ctx.ruleMap ++ ruleEntries Q policy ctx.pc rules ∧
        ctx'.instructions = ctx.instructions ++ rulesCode Q policy placeholder ctx.pc rules ∧
        ∀ (addr : ℕ) (pre post : List Instr), pre.length = ctx.pc →
          patches.foldl (patchBr addr)
              (pre ++ (rulesCode Q policy placeholder ctx.pc rules ++ post)) =
            pre ++ (rulesCode Q policy addr ctx.pc rules ++ post) := by
  induction rules generalizing ctx with
  | nil =>
    exact ⟨ctx, [], rfl, .refl _, by simp, id, by simp, fun Q _ => ⟨by simp [ruleEntries],
      by simp [rulesCode], fun _ _ _ _ => rfl⟩⟩
  | cons rule rules ih =>
    obtain ⟨mid, exits, hmid, hle, hgood', hholds, hspans, hmap, hexits, hcode⟩ :=
      emitRule_spec policy (hready rule (by simp)) hgood
    obtain ⟨ctx', patches, hctx', hle', hholds', hspans', hpatches, hrest⟩ :=
      ih (fun r hr => hready r (by simp [hr])) hgood'
    refine ⟨ctx', exits ++ patches, by rw [List.foldlM_cons, hmid]; exact hctx', hle.trans hle',
      List.forall_mem_cons.mpr ⟨hholds.mono hle', hholds'⟩, fun h => hspans' (hspans h),
      by rw [hpatches, hexits, List.append_assoc], fun Q hQ => ?_⟩
    obtain ⟨hinstrs, hexit⟩ := hcode Q (hle'.trans hQ)
    obtain ⟨hmap', hinstrs', hpatch⟩ := hrest Q hQ
    have hpc : mid.pc = ctx.pc + ruleSize Q policy rule := by
      rw [EmitContext.pc, hinstrs, List.length_append, length_ruleCode]
      rfl
    rw [hpc] at hmap' hinstrs' hpatch
    refine ⟨?_, ?_, fun addr pre post hpre => ?_⟩
    · rw [hmap', hmap, List.append_assoc]
      rfl
    · rw [hinstrs', hinstrs, List.append_assoc]
      rfl
    · rw [List.foldl_append, rulesCode, List.append_assoc, hexit _ addr pre _ hpre,
        ← List.append_assoc, hpatch addr _ post
          (by rw [List.length_append, length_ruleCode, hpre]), rulesCode, List.append_assoc,
        List.append_assoc]

/-- What the emitter returns, told by the rules and the final pools. -/
structure Emitted (typed : TypedDecision) (compiled : CompiledDecision) (Q : Pools) : Prop where
  pools : Q = ⟨compiled.constPool, compiled.constSetPool, compiled.rangePool⟩
  holds : ∀ rule ∈ typed.rules, RuleHolds Q rule
  spans : compiled.instructions.length = compiled.sourceSpans.length
  ruleMap : compiled.ruleMap = ruleEntries Q typed.hitPolicy 0 typed.rules
  instructions : ∃ stop, stop = (rulesCode Q typed.hitPolicy stop 0 typed.rules).length ∧
    compiled.instructions = rulesCode Q typed.hitPolicy stop 0 typed.rules ++ [.endDecision]
  hitPolicy : compiled.hitPolicy = typed.hitPolicy
  inputSchema : compiled.inputSchema = typed.inputSchema
  outputSchema : compiled.outputSchema = typed.outputSchema

theorem length_rulesCode (Q : Pools) (policy : HitPolicy) (stop stop' start : ℕ)
    (rules : List TypedRule) :
    (rulesCode Q policy stop start rules).length = (rulesCode Q policy stop' start rules).length := by
  induction rules generalizing start with
  | nil => rfl
  | cons rule rules ih =>
    rw [rulesCode, rulesCode, List.length_append, List.length_append, length_ruleCode,
      length_ruleCode, ih]

theorem emit_spec {typed : TypedDecision} (hready : ∀ rule ∈ typed.rules, RuleReady rule) :
    ∃ compiled Q, emit typed = some compiled ∧ Emitted typed compiled Q := by
  have hgood : EmitContext.new.pools.Good := ⟨by simp [EmitContext.pools, EmitContext.new],
    by simp [EmitContext.pools, EmitContext.new], by simp [EmitContext.pools, EmitContext.new]⟩
  obtain ⟨ctx, patches, hctx, -, hholds, hspans, hpatches, hrest⟩ :=
    emitRules_spec typed.hitPolicy hready hgood
  obtain ⟨hmap, hinstrs, hpatch⟩ := hrest ctx.pools (.refl _)
  have hpc : EmitContext.new.pc = 0 := rfl
  rw [hpc] at hmap hinstrs hpatch
  have hnil : EmitContext.new.instructions = [] := rfl
  have hnone : EmitContext.new.patchesEnd = [] := rfl
  rw [hnil, List.nil_append] at hinstrs
  rw [hnone, List.nil_append] at hpatches
  have hfinal : ctx.patchesEnd.foldl (patchBr ctx.pc) (ctx.instructions ++ [.endDecision]) =
      rulesCode ctx.pools typed.hitPolicy ctx.pc 0 typed.rules ++ [.endDecision] := by
    rw [hpatches, hinstrs]
    exact hpatch ctx.pc [] [.endDecision] rfl
  have hlen : ctx.pc = (rulesCode ctx.pools typed.hitPolicy ctx.pc 0 typed.rules).length := by
    rw [length_rulesCode _ _ _ placeholder, ← hinstrs]
    rfl
  refine ⟨_, ctx.pools, by rw [emit, hctx]; rfl, rfl, hholds, ?_, hmap, ⟨ctx.pc, hlen, hfinal⟩, rfl,
    rfl, rfl⟩
  have hsame := hspans rfl
  have hcount := congrArg List.length hfinal
  rw [List.length_append, ← hlen] at hcount
  refine hcount.trans ?_
  simp [EmitContext.emit, EmitContext.pc, hsame]

end Layout

end BpmnLite.Dmn.Emit
