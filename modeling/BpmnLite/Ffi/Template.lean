import BpmnLite.Canonical.StateHash

/-!
# Template identities

The id of an FFI template is the digest of its canonical bytes: the owner type, the two schemas
sorted by field name, the idempotency and the owner's metadata. The bytes determine what they were
written of, and where the names are distinct they do not depend on the order of declaration.
-/

namespace BpmnLite.Ffi

open Codec Canonical

inductive SchemaKind where
  | bool
  | i64
  | f64
  | string
  | semOsDomain (domainId : Uuid) (versionHash : Digest)
  | opaqueBytes (ownerFormat : String) (ownerSchema : Bytes)
  deriving DecidableEq

structure FieldSchema where
  name : String
  kind : SchemaKind
  required : Bool
  deriving DecidableEq

inductive Idempotency where
  | idempotent
  | nonIdempotent
  | idempotentWithKey (selector : String)
  deriving DecidableEq

structure FfiTemplate where
  ownerType : String
  ownerMetadata : Bytes
  inputSchema : List FieldSchema
  outputSchema : List FieldSchema
  idempotency : Idempotency

def encodeSchemaKind : SchemaKind → Bytes
  | .bool => writeU8 0x00
  | .i64 => writeU8 0x01
  | .f64 => writeU8 0x02
  | .string => writeU8 0x03
  | .semOsDomain domainId versionHash =>
    writeU8 0x04 ++ (uuid.canonicalEncode domainId ++ writeBytesFixed 32 versionHash)
  | .opaqueBytes ownerFormat ownerSchema =>
    writeU8 0x05 ++ (writeStr ownerFormat ++ writeBytes ownerSchema)

def encodeField (f : FieldSchema) : Bytes :=
  writeStr f.name ++ (writeBool f.required ++ encodeSchemaKind f.kind)

def encodeIdempotency : Idempotency → Bytes
  | .idempotent => writeU8 0x00
  | .nonIdempotent => writeU8 0x01
  | .idempotentWithKey selector => writeU8 0x02 ++ writeStr selector

/-- The sort is stable, as `sort_by` is. -/
def sortedByName (fields : List FieldSchema) : List FieldSchema :=
  fields.mergeSort fun a b => a.name ≤ b.name

def encodeTemplate (t : FfiTemplate) : Bytes :=
  writeStr t.ownerType ++ (writeSeq (sortedByName t.inputSchema) encodeField ++
    (writeSeq (sortedByName t.outputSchema) encodeField ++
      (encodeIdempotency t.idempotency ++ t.ownerMetadata)))

def computeTemplateId (blake3 : Bytes → Digest) (t : FfiTemplate) : Digest :=
  blake3 (encodeTemplate t)

def KindFits : SchemaKind → Prop
  | .bool | .i64 | .f64 | .string => True
  | .semOsDomain domainId versionHash => UuidFits domainId ∧ DigestFits versionHash
  | .opaqueBytes ownerFormat ownerSchema => StrFits ownerFormat ∧ ownerSchema.length < 2 ^ 32

def FieldFits (f : FieldSchema) : Prop := StrFits f.name ∧ KindFits f.kind

def FieldsFit (fields : List FieldSchema) : Prop :=
  fields.length < 2 ^ 32 ∧ ∀ f ∈ fields, FieldFits f

def IdempotencyFits : Idempotency → Prop
  | .idempotent | .nonIdempotent => True
  | .idempotentWithKey selector => StrFits selector

/-- Every string and list has a length below `2 ^ 32`. -/
structure FfiTemplate.Fits (t : FfiTemplate) : Prop where
  ownerType : StrFits t.ownerType
  inputs : FieldsFit t.inputSchema
  outputs : FieldsFit t.outputSchema
  idempotency : IdempotencyFits t.idempotency

theorem delimits_schemaKind : Delimits KindFits encodeSchemaKind := by
  have hdomain := delimits_uuid.append delimits_digest
  have hopaque := delimits_str.append lawful_bytes.delimits
  intro k k' r r' hk hk' heq
  -- kinds with different tags differ in the first byte
  cases k <;> cases k' <;> simp [encodeSchemaKind, writeU8, le, List.append_assoc] at heq
  case semOsDomain.semOsDomain d v d' v' =>
    obtain ⟨hsame, hrest⟩ := hdomain (d, v) (d', v') r r' hk hk' (by simpa using heq)
    cases hsame
    exact ⟨rfl, hrest⟩
  case opaqueBytes.opaqueBytes f s f' s' =>
    obtain ⟨hsame, hrest⟩ := hopaque (f, s) (f', s') r r' hk hk' (by simpa using heq)
    cases hsame
    exact ⟨rfl, hrest⟩
  all_goals exact ⟨rfl, heq⟩

theorem delimits_field : Delimits FieldFits encodeField := by
  have hparts := delimits_str.append (lawful_bool.delimits.append delimits_schemaKind)
  refine hparts.map (fun f => (f.name, f.required, f.kind)) (fun _ => rfl)
    (fun f hf => ⟨hf.1, trivial, hf.2⟩) fun f g _ _ hfg => ?_
  cases f
  cases g
  simp_all

theorem delimits_idempotency : Delimits IdempotencyFits encodeIdempotency := by
  intro i i' r r' hi hi' heq
  cases i <;> cases i' <;> simp [encodeIdempotency, writeU8, le] at heq
  case idempotentWithKey.idempotentWithKey s s' =>
    obtain ⟨rfl, hrest⟩ := delimits_str s s' r r' hi hi' heq
    exact ⟨rfl, hrest⟩
  all_goals exact ⟨rfl, heq⟩

variable {fields fields' : List FieldSchema}

theorem fits_sorted (h : FieldsFit fields) : FieldsFit (sortedByName fields) :=
  ⟨(List.length_mergeSort fields).trans_lt h.1, fun f hf => h.2 f (List.mem_mergeSort.mp hf)⟩

theorem pairwise_sortedByName (fields : List FieldSchema) :
    (sortedByName fields).Pairwise fun a b => a.name ≤ b.name := by
  refine List.Pairwise.imp of_decide_eq_true (List.pairwise_mergeSort ?_ ?_ fields)
  · intro a b c
    simpa using le_trans
  · intro a b
    simpa using le_total a.name b.name

theorem sortedByName_congr (hnames : (fields.map (·.name)).Nodup) (h : fields.Perm fields') :
    sortedByName fields = sortedByName fields' := by
  have hperm : (sortedByName fields).Perm (sortedByName fields') :=
    (List.mergeSort_perm _ _).trans (h.trans (List.mergeSort_perm _ _).symm)
  refine List.Perm.eq_of_pairwise (fun f g hf hg hfg hgf => ?_) (pairwise_sortedByName fields)
    (pairwise_sortedByName fields') hperm
  have hf : f ∈ fields := List.mem_mergeSort.mp hf
  have hg : g ∈ fields := h.mem_iff.mpr (List.mem_mergeSort.mp hg)
  exact List.inj_on_of_nodup_map hnames hf hg (le_antisymm hfg hgf)

/-- Template ids identify templates up to the order of their fields. -/
theorem template_id_identifies (blake3 : Bytes → Digest) (t u : FfiTemplate) :
    (t.Fits → u.Fits → (encodeTemplate t = encodeTemplate u ↔
      t.ownerType = u.ownerType ∧ t.idempotency = u.idempotency ∧
        t.ownerMetadata = u.ownerMetadata ∧
        sortedByName t.inputSchema = sortedByName u.inputSchema ∧
        sortedByName t.outputSchema = sortedByName u.outputSchema)) ∧
    (t.ownerType = u.ownerType → t.idempotency = u.idempotency →
      t.ownerMetadata = u.ownerMetadata → (t.inputSchema.map (·.name)).Nodup →
      (t.outputSchema.map (·.name)).Nodup → t.inputSchema.Perm u.inputSchema →
      t.outputSchema.Perm u.outputSchema →
      computeTemplateId blake3 t = computeTemplateId blake3 u) ∧
    ((blake3 (encodeTemplate t) = blake3 (encodeTemplate u) → encodeTemplate t = encodeTemplate u) →
      (computeTemplateId blake3 t = computeTemplateId blake3 u ↔
        encodeTemplate t = encodeTemplate u)) := by
  have hfields := delimits_seq delimits_field
  refine ⟨fun ht hu => ⟨fun h => ?_, ?_⟩, ?_, fun hcollision => ⟨hcollision, congrArg blake3⟩⟩
  · obtain ⟨howner, h⟩ := delimits_str _ _ _ _ ht.ownerType hu.ownerType h
    obtain ⟨hinputs, h⟩ := hfields _ _ _ _ (fits_sorted ht.inputs) (fits_sorted hu.inputs) h
    obtain ⟨houtputs, h⟩ := hfields _ _ _ _ (fits_sorted ht.outputs) (fits_sorted hu.outputs) h
    obtain ⟨hidempotency, hmetadata⟩ :=
      delimits_idempotency _ _ _ _ ht.idempotency hu.idempotency h
    exact ⟨howner, hidempotency, hmetadata, hinputs, houtputs⟩
  · rintro ⟨howner, hidempotency, hmetadata, hinputs, houtputs⟩
    rw [encodeTemplate, howner, hidempotency, hmetadata, hinputs, houtputs]
    rfl
  · intro howner hidempotency hmetadata hinputs houtputs hin hout
    rw [computeTemplateId, encodeTemplate, howner, hidempotency, hmetadata,
      sortedByName_congr hinputs hin, sortedByName_congr houtputs hout]
    rfl

namespace Sample

def amount : FieldSchema := ⟨"amount", .i64, true⟩

def grade : FieldSchema := ⟨"grade", .string, false⟩

def rating (inputs : List FieldSchema) : FfiTemplate := ⟨"", [7], inputs, [], .idempotent⟩

theorem rating_fits (hname : StrFits f.name) (hkind : KindFits f.kind) : (rating [f]).Fits := by
  refine ⟨by simp [rating, StrFits], ⟨by simp [rating], ?_⟩, ⟨by simp [rating], ?_⟩, trivial⟩
  · simpa [rating] using ⟨hname, hkind⟩
  · simp [rating]

theorem rating_identified :
    encodeTemplate (rating [amount]) ≠ encodeTemplate (rating [grade]) ∧
    computeTemplateId leValue (rating [amount, grade]) =
      computeTemplateId leValue (rating [grade, amount]) := by
  have hnames : StrFits amount.name ∧ StrFits grade.name := by
    unfold StrFits
    decide +kernel
  refine ⟨fun h => ?_, (template_id_identifies leValue _ _).2.1 rfl rfl rfl (by decide) (by decide)
    (.swap _ _ _) (.refl _)⟩
  have hsame := ((template_id_identifies leValue _ _).1 (rating_fits hnames.1 trivial)
    (rating_fits hnames.2 trivial)).mp h
  simpa [rating, sortedByName, amount, grade] using hsame.2.2.2.1

end Sample

end BpmnLite.Ffi
