import BpmnLite.Kernel.Reference

/-!
# What the outputs of an FFI call change

The output bindings are written one after another into the flags and the domain document. Each
binding shows at its target and nowhere else: what is neither written, nor part of what is written,
nor around it, stays as it was.
-/

namespace BpmnLite

variable {key : String} {value : Json} {fields : List (String × Json)} {path other : List String}
  {root root' output : Json} {state state' : BTreeMap FlagKey Value × Json}

theorem lookup_cons_eq (key' : String) :
    ((key, value) :: fields).lookup key' = if key' = key then some value else fields.lookup key' := by
  by_cases hkey : key' = key
  · simp [hkey]
  · simp [List.lookup, beq_false_of_ne hkey, hkey]

theorem lookup_insertField (key' : String) :
    (Json.insertField key value fields).lookup key' =
      if key' = key then some value else fields.lookup key' := by
  induction fields with
  | nil => exact lookup_cons_eq key'
  | cons field fields ih =>
    obtain ⟨k, v⟩ := field
    rw [Json.insertField]
    cases horder : compare key k with
    | lt => exact lookup_cons_eq key'
    | eq =>
      obtain rfl := Std.LawfulEqOrd.eq_of_compare horder
      simp only [lookup_cons_eq]
      split <;> rfl
    | gt =>
      have hne : key ≠ k := by
        rintro rfl
        simp at horder
      simp only [lookup_cons_eq, ih]
      grind

theorem writeJsonPath_cons {segment : String}
    (h : writeJsonPath value root (segment :: path) = .ok root') :
    ∃ fields child', root = .object fields ∧
      root' = .object (Json.insertField segment child' fields) ∧
      (path = [] ∧ child' = value ∨
        ∃ child, fields.lookup segment = some child ∧ writeJsonPath value child path = .ok child') := by
  cases root with
  | object fields =>
    cases path with
    | nil => exact ⟨fields, value, rfl, (Except.ok.inj h).symm, .inl ⟨rfl, rfl⟩⟩
    | cons next path =>
      simp only [writeJsonPath, Json.asObject] at h
      split at h
      · simp at h
      · rename_i child hchild
        obtain ⟨child', hwrite, h⟩ := Maps.bind_eq_ok.mp h
        rw [Maps.pure_eq_ok] at h
        exact ⟨fields, child', rfl, h.symm, .inr ⟨child, hchild, hwrite⟩⟩
  | _ => cases path <;> simp [writeJsonPath, Json.asObject] at h

theorem readJsonPath_write (h : writeJsonPath value root path = .ok root') :
    readJsonPath root' path = some value := by
  induction path generalizing root root' with
  | nil => simp [writeJsonPath] at h
  | cons segment path ih =>
    obtain ⟨fields, child', rfl, rfl, hchild⟩ := writeJsonPath_cons h
    have hread : (Json.object (Json.insertField segment child' fields)).get segment = some child' := by
      simp [Json.get, Json.asObject, lookup_insertField]
    rw [readJsonPath, hread]
    rcases hchild with ⟨rfl, rfl⟩ | ⟨child, -, hwrite⟩
    · rfl
    · exact ih hwrite

theorem readJsonPath_write_of_apart (h : writeJsonPath value root path = .ok root')
    (hbelow : ¬ path <+: other) (habove : ¬ other <+: path) :
    readJsonPath root' other = readJsonPath root other := by
  induction path generalizing root root' other with
  | nil => simp at hbelow
  | cons segment path ih =>
    cases other with
    | nil => simp at habove
    | cons segment' other =>
      obtain ⟨fields, child', rfl, rfl, hchild⟩ := writeJsonPath_cons h
      simp only [readJsonPath, Json.get, Json.asObject, Option.bind_some, lookup_insertField]
      by_cases hsame : segment' = segment
      · subst hsame
        -- Both paths go into the same field, so it was there before.
        rw [List.cons_prefix_cons, not_and] at hbelow habove
        rcases hchild with ⟨rfl, -⟩ | ⟨child, hlookup, hwrite⟩
        · exact absurd List.nil_prefix (hbelow rfl)
        · rw [if_pos rfl, hlookup]
          exact ih hwrite (hbelow rfl) (habove rfl)
      · rw [if_neg hsame]

namespace BindingTarget

/-- Writing one of the two can be seen at the other. -/
def Related : BindingTarget → BindingTarget → Prop
  | .flagWrite key, .flagWrite key' => key = key'
  | .domainPayloadWrite path, .domainPayloadWrite path' => path <+: path' ∨ path' <+: path
  | _, _ => False

def reads (state : BTreeMap FlagKey Value × Json) : BindingTarget → Option (Value ⊕ Json)
  | .flagWrite key => state.1[key]?.map .inl
  | .domainPayloadWrite path => (readJsonPath state.2 path).map .inr

/-- What is there to read after the output value is bound: a flag holds a bool or an integer. -/
def shows (value : Json) : BindingTarget → Option (Value ⊕ Json)
  | .flagWrite _ =>
    match value with
    | .bool b => some (.inl (.bool b))
    | .int n => some (.inl (.i64 n))
    | _ => none
  | .domainPayloadWrite _ => some (.inr value)

end BindingTarget

open BindingTarget

theorem applyFfiOutput_frame {binding : CompiledFfiOutputBinding}
    (h : applyFfiOutput output state binding = .ok state') :
    (∃ value, output.get binding.sourceField = some value ∧
      binding.target.reads state' = binding.target.shows value) ∧
    ∀ target, ¬ Related target binding.target → target.reads state' = target.reads state := by
  unfold applyFfiOutput at h
  obtain ⟨value, hvalue⟩ : ∃ value, output.get binding.sourceField = some value := by
    cases hget : output.get binding.sourceField with
    | none => simp [hget] at h
    | some value => exact ⟨value, rfl⟩
  rw [hvalue] at h
  cases htarget : binding.target with
  | flagWrite key =>
    obtain ⟨flag, hstate, hshows⟩ : ∃ flag, state' = (state.1.insert key flag, state.2) ∧
        shows value (.flagWrite key) = some (.inl flag) := by
      rw [htarget] at h
      cases value with
      | bool b => exact ⟨_, (Except.ok.inj h).symm, rfl⟩
      | int n =>
        simp only at h
        split at h
        · exact ⟨_, (Except.ok.inj h).symm, rfl⟩
        · simp at h
      | _ => simp at h
    subst hstate
    refine ⟨⟨value, hvalue, by simp [reads, hshows]⟩, fun target hapart => ?_⟩
    cases target with
    | flagWrite key' =>
      have hne : key ≠ key' := fun h => hapart h.symm
      simp [reads, Maps.getElem?_insert, hne]
    | domainPayloadWrite => rfl
  | domainPayloadWrite path =>
    rw [htarget] at h
    obtain ⟨domain, hwrite, h⟩ := Maps.bind_eq_ok.mp h
    rw [Maps.pure_eq_ok] at h
    subst h
    refine ⟨⟨value, hvalue, by simp [reads, shows, readJsonPath_write hwrite]⟩,
      fun target hapart => ?_⟩
    cases target with
    | flagWrite => rfl
    | domainPayloadWrite other =>
      obtain ⟨habove, hbelow⟩ := not_or.mp hapart
      simp [reads, readJsonPath_write_of_apart hwrite hbelow habove]

/-- Each binding that no later one touches shows at its target; what none touches is unchanged. -/
structure Written (output : Json) (bindings : List CompiledFfiOutputBinding)
    (state state' : BTreeMap FlagKey Value × Json) : Prop where
  bound : ∀ before binding after, bindings = before ++ binding :: after →
    (∀ later ∈ after, ¬ Related binding.target later.target) →
    ∃ value, output.get binding.sourceField = some value ∧
      binding.target.reads state' = binding.target.shows value
  kept : ∀ target, (∀ binding ∈ bindings, ¬ Related target binding.target) →
    target.reads state' = target.reads state

theorem foldlM_written {bindings : List CompiledFfiOutputBinding}
    (h : bindings.foldlM (applyFfiOutput output) state = .ok state') :
    Written output bindings state state' := by
  induction bindings generalizing state with
  | nil =>
    obtain rfl := Except.ok.inj h
    exact ⟨fun before _ _ hsplit => by simp at hsplit, fun _ _ => rfl⟩
  | cons first bindings ih =>
    rw [List.foldlM_cons] at h
    obtain ⟨middle, hfirst, h⟩ := Maps.bind_eq_ok.mp h
    obtain ⟨⟨value, hvalue, hshows⟩, hkept⟩ := applyFfiOutput_frame hfirst
    obtain ⟨hbound, hrest⟩ := ih h
    refine ⟨fun before binding after hsplit hapart => ?_, fun target hapart => ?_⟩
    · cases before with
      | nil =>
        obtain ⟨rfl, rfl⟩ := List.cons.inj hsplit
        exact ⟨value, hvalue, (hrest _ hapart).trans hshows⟩
      | cons _ before => exact hbound before binding after (List.cons.inj hsplit).2 hapart
    · obtain ⟨hapart, hothers⟩ := List.forall_mem_cons.mp hapart
      exact (hrest target hothers).trans (hkept target hapart)

/-- The outputs of an FFI call change only what they bind, the payload hash is that of the new
payload, and the rest of the instance is as before. -/
theorem applyFfiOutputs_frame (H : Host) (inst inst' : ProcessInstance) (declaration : FfiTaskDecl)
    (bytes : Bytes) (h : applyFfiOutputs H inst declaration bytes = .ok inst')
    (hround : ∀ doc, H.jsonToText doc = inst'.domainPayload →
      H.jsonOfText inst'.domainPayload = .ok doc) :
    ∃ output doc doc', H.jsonOfBytes bytes = .ok output ∧
      H.jsonOfText inst.domainPayload = .ok doc ∧ H.jsonOfText inst'.domainPayload = .ok doc' ∧
      Written output declaration.outputs (inst.flags, doc) (inst'.flags, doc') ∧
      inst'.domainPayloadHash = H.contentHash inst'.domainPayload ∧
      inst' = { inst with
        flags := inst'.flags
        domainPayload := inst'.domainPayload
        domainPayloadHash := inst'.domainPayloadHash } := by
  obtain ⟨output, houtput, h⟩ := Maps.bind_eq_ok.mp h
  obtain ⟨doc, hdoc, h⟩ := Maps.bind_eq_ok.mp h
  obtain ⟨⟨flags, doc'⟩, hfold, h⟩ := Maps.bind_eq_ok.mp h
  rw [Maps.pure_eq_ok] at h
  subst h
  exact ⟨output, doc, doc', Maps.mapError_eq_ok.mp houtput, Maps.mapError_eq_ok.mp hdoc,
    hround doc' rfl, foldlM_written hfold, rfl, rfl⟩

namespace Reference

/-- The text of the document `{"a":…,"b":1}`. -/
def payloadText (a : Bool) : String :=
  if a then "\x7b\"a\":true,\"b\":1\x7d" else "\x7b\"a\":false,\"b\":1\x7d"

/-- The text of the document `{"n":7,"r":true}`. -/
def resultText : String := "\x7b\"n\":7,\"r\":true\x7d"

/-- A host that reads and prints these documents as JSON, and reads no others. -/
def bindingHost : Host where
  __ := host
  jsonOfText text :=
    if text = payloadText true then .ok (.object [("a", .bool true), ("b", .int 1)])
    else if text = payloadText false then .ok (.object [("a", .bool false), ("b", .int 1)])
    else .error "expected value at line 1 column 1"
  jsonToText
    | .object [("a", .bool a), ("b", .int 1)] => payloadText a
    | _ => "null"
  jsonOfBytes bytes :=
    if bytes = resultText.toUTF8.toList then .ok (.object [("n", .int 7), ("r", .bool true)])
    else .error "expected value at line 1 column 1"

def unbound : ProcessInstance :=
  { inst with
    domainPayload := payloadText false
    flags := (∅ : BTreeMap FlagKey Value).insert 0 (.bool false) |>.insert 1 (.bool true) }

def bothBindings : FfiTaskDecl :=
  ⟨0, [], [⟨"r", .domainPayloadWrite ["a"]⟩, ⟨"n", .flagWrite 0⟩]⟩

/-- A payload path and a flag are bound; the other path, the other flag and the rest are kept. -/
theorem bound_output_frame : ∃ inst' doc',
    applyFfiOutputs bindingHost unbound bothBindings resultText.toUTF8.toList = .ok inst' ∧
    bindingHost.jsonOfText inst'.domainPayload = .ok doc' ∧
    readJsonPath doc' ["a"] = some (.bool true) ∧ readJsonPath doc' ["b"] = some (.int 1) ∧
    inst'.flags[(0 : FlagKey)]? = some (.i64 7) ∧ inst'.flags[(1 : FlagKey)]? = some (.bool true) ∧
    inst'.domainPayloadHash = bindingHost.contentHash inst'.domainPayload ∧
    inst' = { unbound with
      flags := inst'.flags
      domainPayload := inst'.domainPayload
      domainPayloadHash := inst'.domainPayloadHash } := by
  obtain ⟨inst', hok, htext⟩ := ok_of_check (x := applyFfiOutputs bindingHost unbound bothBindings
    resultText.toUTF8.toList) (fun inst' => inst'.domainPayload = payloadText true)
    (by decide +kernel)
  obtain ⟨output, doc, doc', houtput, hdoc, hdoc', hwritten, hhash, hrest⟩ :=
    applyFfiOutputs_frame bindingHost unbound inst' bothBindings _ hok fun doc hprints => by
      rw [of_decide_eq_true htext] at hprints ⊢
      simp only [bindingHost] at hprints ⊢
      split at hprints
      · rename_i a
        cases a with
        | true => rfl
        | false => exact absurd hprints (by decide)
      · exact absurd hprints (by decide)
  obtain rfl : output = .object [("n", .int 7), ("r", .bool true)] :=
    (Except.ok.inj (houtput.symm.trans (if_pos rfl)))
  obtain rfl : doc = .object [("a", .bool false), ("b", .int 1)] := by
    have hother : payloadText false ≠ payloadText true := by decide
    simpa [bindingHost, unbound, hother] using hdoc.symm
  obtain ⟨value, hvalue, hpath⟩ := hwritten.bound [] _ _ rfl (by simp [Related])
  obtain rfl : value = .bool true := Option.some.inj hvalue.symm
  obtain ⟨value, hvalue, hflag⟩ := hwritten.bound [_] _ [] rfl (by simp)
  obtain rfl : value = .int 7 := Option.some.inj hvalue.symm
  have hkeptPath := hwritten.kept (.domainPayloadWrite ["b"]) (by simp [bothBindings, Related])
  have hkeptFlag := hwritten.kept (.flagWrite 1) (by simp [bothBindings, Related])
  refine ⟨inst', doc', hok, hdoc', ?_, ?_, ?_, ?_, hhash, hrest⟩
  · simpa [reads, shows] using hpath
  · have hold : readJsonPath (.object [("a", .bool false), ("b", .int 1)]) ["b"] =
        some (.int 1) := rfl
    simpa [reads, hold] using hkeptPath
  · simpa [reads, shows] using hflag
  · simpa [reads, unbound, Maps.getElem?_insert] using hkeptFlag

end Reference

end BpmnLite
