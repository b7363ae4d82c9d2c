import BpmnLite.Canonical.TypeLaws

/-!
# Round trips of the canonical encoding

`CanonicalType` lists the types that have an encoding, with options and sequences of them. A value
that fits its machine types, and whose tables file each record under its own id, is read back from
its bytes when all values in it pass the check of their arrays; otherwise its bytes are refused.

In the other direction the readers collect the entries of sets, maps and tables without looking at
their order. The bytes that were read are those of the value exactly when the entries stand in them in
strictly ascending order.
-/

namespace BpmnLite.Canonical

open Codec Maps

section Collections

variable {ν : Type} {ids : List Uuid} {entries : List (ℕ × ν)}

theorem pairwise_toList_set (s : BTreeSet ℕ) : s.toList.Pairwise (· < ·) := by
  have hordered := s.ordered_toList
  simpa only [Nat.compare_eq_lt] using hordered

theorem collectSet_toList (s : BTreeSet Uuid) : collectSet s.toList = s := foldl_insert_toList s

theorem toList_collectSet (h : ids.Pairwise (· < ·)) : (collectSet ids).toList = ids := by
  refine toList_foldl_insert ?_
  simpa only [Nat.compare_eq_lt] using h

theorem mem_toList_collectSet {id : Uuid} (h : id ∈ (collectSet ids).toList) : id ∈ ids := by
  rw [Std.ExtTreeSet.mem_toList, collectSet, mem_foldl_insert] at h
  simpa using h

theorem length_collectSet_le : (collectSet ids).toList.length ≤ ids.length :=
  length_toList_foldl_insert_le ids

theorem pairwise_toList_map (m : BTreeMap ℕ ν) : m.toList.Pairwise (fun a b => a.1 < b.1) := by
  have hordered := m.ordered_keys_toList
  simpa only [Nat.compare_eq_lt] using hordered

theorem collectMap_toList (m : BTreeMap ℕ ν) : collectMap m.toList = m := foldl_put_toList m

theorem toList_collectMap (h : entries.Pairwise (fun a b => a.1 < b.1)) :
    (collectMap entries).toList = entries := by
  have hsorted : entries.Pairwise (fun a b => compare a.1 b.1 = .lt) := by
    simpa only [Nat.compare_eq_lt] using h
  exact (toList_foldl_put Prod.fst Prod.snd hsorted).trans (List.map_id entries)

theorem mem_toList_collectMap {entry : ℕ × ν} (h : entry ∈ (collectMap entries).toList) :
    entry ∈ entries := by
  obtain ⟨x, hx, hkey, hval⟩ := exists_of_getElem?_foldl_put Prod.fst Prod.snd
    (Std.ExtTreeMap.mem_toList_iff_getElem?_eq_some.mp h)
  obtain rfl : x = entry := Prod.ext hkey hval
  exact hx

theorem length_collectMap_le : (collectMap entries).toList.length ≤ entries.length :=
  length_toList_foldl_put_le Prod.fst Prod.snd entries

theorem map_collectMap_toList (o : Option (BTreeMap ℕ ν)) : (o.map (·.toList)).map collectMap = o := by
  cases o with
  | none => rfl
  | some m => exact congrArg some (collectMap_toList m)

theorem map_toList_collectMap {o : Option (List (ℕ × ν))}
    (h : ∀ entries ∈ o, entries.Pairwise (fun a b => a.1 < b.1)) :
    (o.map collectMap).map (·.toList) = o := by
  cases o with
  | none => rfl
  | some entries => exact congrArg some (toList_collectMap (h entries rfl))

theorem exists_of_mem_collectMap {o : Option (List (ℕ × ν))}
    (h : entries ∈ (o.map collectMap).map (·.toList)) :
    ∃ given ∈ o, entries.length ≤ given.length ∧ entries ⊆ given := by
  cases o with
  | none => cases h
  | some given =>
    obtain rfl := Option.some.inj h
    exact ⟨given, rfl, length_collectMap_le, fun entry => mem_toList_collectMap⟩

end Collections

section Records

/-- The fields of a record are in the range of their machine types. -/
structure RecordFits (record : WireRecord) : Prop where
  id : UuidFits record.id
  members : record.members.length < 2 ^ 32 ∧ ∀ id ∈ record.members, UuidFits id
  handler : ∀ a ∈ record.handler, AddrFits a
  counters : CountersFit record.counters
  rollbackDomainPayload : ∀ s ∈ record.rollbackDomainPayload, StrFits s
  rollbackDomainPayloadHash : ∀ digest ∈ record.rollbackDomainPayloadHash, DigestFits digest
  rollbackFlags : ∀ flags ∈ record.rollbackFlags, flags.length < 2 ^ 32 ∧
    ∀ entry ∈ flags, entry.1 < 2 ^ 32 ∧ ValueFits entry.2
  rollbackJoinExpected : ∀ joins ∈ record.rollbackJoinExpected, joins.length < 2 ^ 32 ∧
    ∀ entry ∈ joins, entry.1 < 2 ^ 32 ∧ entry.2 < 2 ^ 16
  rollbackSessionStack : ∀ s ∈ record.rollbackSessionStack, StrFits s
  openedAt : ∀ a ∈ record.openedAt, AddrFits a
  errorRoutes : record.errorRoutes.length < 2 ^ 32 ∧
    ∀ route ∈ record.errorRoutes, (∀ s ∈ route.1, StrFits s) ∧ AddrFits route.2

def WireRecord.values (record : WireRecord) : List Value :=
  (record.rollbackFlags.getD []).map Prod.snd

theorem lawful_flags : Lawful
    (fun flags => ∀ entries ∈ flags, entries.length < 2 ^ 32 ∧
      ∀ entry ∈ entries, entry.1 < 2 ^ 32 ∧ ValueFits entry.2)
    (fun flags => ∀ v ∈ (flags.getD []).map Prod.snd, v.checkArrayLimits = .ok ())
    (writeOption · (writeSeq · fun entry => writeU32 entry.1 ++ value.canonicalEncode entry.2))
    (readOption (readSeq do
      let k ← readU32
      let v ← value.canonicalDecode
      return (k, v))) := by
  refine (lawful_option (lawful_seq (lawful_pair lawful_u32 lawful_value))).congr
    (fun _ => Iff.rfl) fun flags => ?_
  cases flags with
  | none => simp
  | some entries =>
    simp only [Option.mem_def, Option.some.injEq, forall_eq', true_and, Option.getD_some,
      List.forall_mem_map]

theorem lawful_wireRecord : Lawful RecordFits
    (fun record => ∀ v ∈ record.values, v.checkArrayLimits = .ok ())
    wireRecord.canonicalEncode wireRecord.canonicalDecode := by
  have hjoins := lawful_option (lawful_seq (lawful_pair lawful_u32 lawful_u16))
  have hroutes := lawful_seq (lawful_pair (lawful_option lawful_str) lawful_addr)
  refine ⟨fun record h => ?_, Consumes.sound ?_⟩
  · refine (lawful_recordId.answers _ h.id).after ?_
    refine (lawful_recordKind.answers _ trivial).after ?_
    refine ((lawful_seq lawful_uuid).reads h.members (by simp)).after ?_
    refine ((lawful_option lawful_addr).reads h.handler (by simp)).after ?_
    refine (lawful_recordState.answers _ trivial).after ?_
    refine (lawful_recordCounters.answers _ h.counters).after ?_
    refine ((lawful_option lawful_str).reads h.rollbackDomainPayload (by simp)).after ?_
    refine ((lawful_option lawful_digest).reads h.rollbackDomainPayloadHash (by simp)).after ?_
    refine ((lawful_flags.answers _ h.rollbackFlags).bind (q := True) ?_).congr
      (by simp [WireRecord.values])
    refine (hjoins.reads h.rollbackJoinExpected (by simp)).after ?_
    refine ((lawful_option lawful_str).reads h.rollbackSessionStack (by simp)).after ?_
    refine ((lawful_option lawful_addr).reads h.openedAt (by simp)).after ?_
    exact (hroutes.reads h.errorRoutes (by simp)).pack fun errorRoutes =>
      { record with errorRoutes := errorRoutes }
  · refine lawful_recordId.consumes fun id h₁ _ => ?_
    refine lawful_recordKind.consumes fun kind _ _ => ?_
    refine (lawful_seq lawful_uuid).consumes fun members h₃ _ => ?_
    refine (lawful_option lawful_addr).consumes fun handler h₄ _ => ?_
    refine lawful_recordState.consumes fun state _ _ => ?_
    refine lawful_recordCounters.consumes fun counters h₆ _ => ?_
    refine (lawful_option lawful_str).consumes fun payload h₇ _ => ?_
    refine (lawful_option lawful_digest).consumes fun hash h₈ _ => ?_
    refine lawful_flags.consumes fun flags h₉ hgood => ?_
    refine hjoins.consumes fun joins h₁₀ _ => ?_
    refine (lawful_option lawful_str).consumes fun session h₁₁ _ => ?_
    refine (lawful_option lawful_addr).consumes fun openedAt h₁₂ _ => ?_
    refine hroutes.consumes_last fun routes h₁₃ _ => ?_
    exact ⟨⟨⟨h₁, h₃, h₄, h₆, h₇, h₈, h₉, h₁₀, h₁₁, h₁₂, h₁₃⟩, hgood⟩, rfl⟩

end Records

/-- A type with an encoding, and what stands in its bytes: the entries of sets, maps and tables as
lists. -/
structure Format where
  Carrier : Type
  impl : CanonicalEncode Carrier
  Wire : Type
  wire : CanonicalEncode Wire
  /-- The value a reader builds from the entries. -/
  collect : Wire → Carrier
  /-- The entries a writer writes for a value. -/
  entries : Carrier → Wire
  /-- All numbers are in the range of their machine types and all lengths fit `u32`. -/
  WireFits : Wire → Prop
  wireValues : Wire → List Value
  /-- Every table files each record under its own id. -/
  Filed : Carrier → Prop
  /-- Sets, maps and tables stand in the bytes in strictly ascending order, nothing twice. -/
  Ascending : Wire → Prop

namespace Format

/-- A type that holds no set, map or table. -/
def plain {α : Type} (impl : CanonicalEncode α) (Fits : α → Prop) (values : α → List Value) :
    Format where
  Carrier := α
  impl := impl
  Wire := α
  wire := impl
  collect := id
  entries := id
  WireFits := Fits
  wireValues := values
  Filed _ := True
  Ascending _ := True

def record : Format where
  Carrier := ConcurrencyRecord
  impl := concurrencyRecord
  Wire := WireRecord
  wire := wireRecord
  collect := WireRecord.collect
  entries := recordEntries
  WireFits := RecordFits
  wireValues := WireRecord.values
  Filed _ := True
  Ascending w := w.members.Pairwise (· < ·) ∧
    (∀ flags ∈ w.rollbackFlags, flags.Pairwise (fun a b => a.1 < b.1)) ∧
    ∀ joins ∈ w.rollbackJoinExpected, joins.Pairwise (fun a b => a.1 < b.1)

def collectTable (ws : List WireRecord) : ConcurrencyTable :=
  ws.foldl (fun table w => table.insert w.id w.collect) ∅

def tableEntries (table : ConcurrencyTable) : List WireRecord := table.values.map recordEntries

def table : Format where
  Carrier := ConcurrencyTable
  impl := concurrencyTable
  Wire := List WireRecord
  wire := ⟨(writeSeq · wireRecord.canonicalEncode), readSeq wireRecord.canonicalDecode⟩
  collect := collectTable
  entries := tableEntries
  WireFits ws := ws.length < 2 ^ 32 ∧ ∀ w ∈ ws, RecordFits w
  wireValues ws := ws.flatMap WireRecord.values
  Filed table := Keyed ConcurrencyRecord.id table
  Ascending ws := ws.Pairwise (fun a b => a.id < b.id) ∧ ∀ w ∈ ws, record.Ascending w

def effectIdSet : Format where
  Carrier := BTreeSet EffectId
  impl := effectIds
  Wire := List EffectId
  wire := ⟨(writeSeq · effectId.canonicalEncode), readSeq effectId.canonicalDecode⟩
  collect := collectSet
  entries ids := ids.toList
  WireFits ids := ids.length < 2 ^ 32 ∧ ∀ id ∈ ids, UuidFits id
  wireValues _ := []
  Filed _ := True
  Ascending ids := ids.Pairwise (· < ·)

def option (F : Format) : Format where
  Carrier := Option F.Carrier
  impl := ⟨(writeOption · F.impl.canonicalEncode), readOption F.impl.canonicalDecode⟩
  Wire := Option F.Wire
  wire := ⟨(writeOption · F.wire.canonicalEncode), readOption F.wire.canonicalDecode⟩
  collect := Option.map F.collect
  entries := Option.map F.entries
  WireFits o := ∀ w ∈ o, F.WireFits w
  wireValues o := o.toList.flatMap F.wireValues
  Filed o := ∀ x ∈ o, F.Filed x
  Ascending o := ∀ w ∈ o, F.Ascending w

def seq (F : Format) : Format where
  Carrier := List F.Carrier
  impl := ⟨(writeSeq · F.impl.canonicalEncode), readSeq F.impl.canonicalDecode⟩
  Wire := List F.Wire
  wire := ⟨(writeSeq · F.wire.canonicalEncode), readSeq F.wire.canonicalDecode⟩
  collect := List.map F.collect
  entries := List.map F.entries
  WireFits ws := ws.length < 2 ^ 32 ∧ ∀ w ∈ ws, F.WireFits w
  wireValues ws := ws.flatMap F.wireValues
  Filed xs := ∀ x ∈ xs, F.Filed x
  Ascending ws := ∀ w ∈ ws, F.Ascending w

variable (F : Format)

def Fits (x : F.Carrier) : Prop := F.WireFits (F.entries x)

def values (x : F.Carrier) : List Value := F.wireValues (F.entries x)

def Limited (w : F.Wire) : Prop := ∀ v ∈ F.wireValues w, v.checkArrayLimits = .ok ()

structure Exact : Prop where
  lawful : Lawful F.WireFits F.Limited F.wire.canonicalEncode F.wire.canonicalDecode
  encode : ∀ x, F.impl.canonicalEncode x = F.wire.canonicalEncode (F.entries x)
  decode : F.impl.canonicalDecode = F.wire.canonicalDecode >>= fun w => pure (F.collect w)
  collect_entries : ∀ x, F.Filed x → F.collect (F.entries x) = x
  filed_collect : ∀ w, F.Filed (F.collect w)
  ascending_entries : ∀ x, F.Filed x → F.Ascending (F.entries x)
  entries_collect : ∀ w, F.Ascending w → F.entries (F.collect w) = w
  fits_collect : ∀ w, F.WireFits w → F.WireFits (F.entries (F.collect w))
  limited_collect : ∀ w, F.Limited w → F.Limited (F.entries (F.collect w))

theorem exact_plain {α : Type} {impl : CanonicalEncode α} {Fits : α → Prop}
    {values : α → List Value}
    (h : Lawful Fits (fun x => ∀ v ∈ values x, v.checkArrayLimits = .ok ()) impl.canonicalEncode
      impl.canonicalDecode) : (plain impl Fits values).Exact where
  lawful := h
  encode _ := rfl
  decode := (bind_pure _).symm
  collect_entries _ _ := rfl
  filed_collect _ := trivial
  ascending_entries _ _ := trivial
  entries_collect _ _ := rfl
  fits_collect _ hw := hw
  limited_collect _ hw := hw

section Containers

variable {F}

theorem writeOption_map {α β : Type} (o : Option α) (f : α → β) (enc : β → Bytes) :
    writeOption (o.map f) enc = writeOption o fun x => enc (f x) := by
  cases o <;> rfl

theorem readOption_map {α β : Type} (d : CanonicalReader α) (f : α → β) :
    readOption (d >>= fun x => pure (f x)) = readOption d >>= fun o => pure (o.map f) := by
  unfold readOption
  refine Eq.trans ?_ (bind_assoc ..).symm
  refine bind_congr fun tag => ?_
  split
  · simp
  · simp
  · rfl

theorem readSeq_map {α β : Type} (d : CanonicalReader α) (f : α → β) :
    readSeq (d >>= fun x => pure (f x)) = readSeq d >>= fun xs => pure (xs.map f) := by
  simp only [readSeq, items_map, bind_assoc]

theorem writeSeq_map {α β : Type} (xs : List α) (f : α → β) (enc : β → Bytes) :
    writeSeq (xs.map f) enc = writeSeq xs fun x => enc (f x) := by
  simp [writeSeq, List.flatMap_map]

theorem limited_flatMap {α : Type} {vals : α → List Value} {xs : List α} :
    (∀ v ∈ xs.flatMap vals, v.checkArrayLimits = .ok ()) ↔
      ∀ x ∈ xs, ∀ v ∈ vals x, v.checkArrayLimits = .ok () := by
  simp only [List.mem_flatMap]
  constructor
  · exact fun h x hx v hv => h v ⟨x, hx, hv⟩
  · rintro h v ⟨x, hx, hv⟩
    exact h x hx v hv

theorem Exact.option (h : F.Exact) : F.option.Exact where
  lawful := by
    refine (lawful_option h.lawful).congr (fun _ => Iff.rfl) fun o => ?_
    cases o with
    | none => simp [Limited, Format.option]
    | some w => simp [Limited, Format.option]
  encode o := by
    have hencode : F.impl.canonicalEncode = fun x => F.wire.canonicalEncode (F.entries x) :=
      funext h.encode
    simp only [Format.option, hencode]
    exact (writeOption_map o F.entries F.wire.canonicalEncode).symm
  decode := by
    simp only [Format.option, h.decode, readOption_map]
  collect_entries o ho := by
    cases o with
    | none => rfl
    | some x => exact congrArg some (h.collect_entries x (ho x rfl))
  filed_collect o := by
    intro x hx
    obtain ⟨w, -, rfl⟩ := Option.map_eq_some_iff.mp hx
    exact h.filed_collect w
  ascending_entries o ho := by
    intro w hw
    obtain ⟨x, hx, rfl⟩ := Option.map_eq_some_iff.mp hw
    exact h.ascending_entries x (ho x hx)
  entries_collect o ho := by
    cases o with
    | none => rfl
    | some w => exact congrArg some (h.entries_collect w (ho w rfl))
  fits_collect o ho := by
    cases o with
    | none => exact ho
    | some w =>
      rintro _ ⟨rfl⟩
      exact h.fits_collect w (ho w rfl)
  limited_collect o ho := by
    cases o with
    | none => exact ho
    | some w =>
      have hw : F.Limited w := by simpa [Limited, Format.option] using ho
      have hcollect := h.limited_collect w hw
      simpa [Limited, Format.option] using hcollect

theorem Exact.seq (h : F.Exact) : F.seq.Exact where
  lawful := by
    refine (lawful_seq h.lawful).congr (fun _ => Iff.rfl) fun ws => ?_
    exact limited_flatMap.symm
  encode xs := by
    have hencode : F.impl.canonicalEncode = fun x => F.wire.canonicalEncode (F.entries x) :=
      funext h.encode
    simp only [Format.seq, hencode]
    exact (writeSeq_map xs F.entries F.wire.canonicalEncode).symm
  decode := by
    simp only [Format.seq, h.decode, readSeq_map]
  collect_entries xs hxs := by
    refine (List.map_map ..).trans ?_
    refine (List.map_congr_left fun x hx => h.collect_entries x (hxs x hx)).trans ?_
    exact List.map_id xs
  filed_collect ws := by
    intro x hx
    obtain ⟨w, -, rfl⟩ := List.mem_map.mp hx
    exact h.filed_collect w
  ascending_entries xs hxs := by
    intro w hw
    obtain ⟨x, hx, rfl⟩ := List.mem_map.mp hw
    exact h.ascending_entries x (hxs x hx)
  entries_collect ws hws := by
    refine (List.map_map ..).trans ?_
    refine (List.map_congr_left fun w hw => h.entries_collect w (hws w hw)).trans ?_
    exact List.map_id ws
  fits_collect ws hws := by
    refine ⟨?_, ?_⟩
    · rw [show (F.seq.entries (F.seq.collect ws)).length = ws.length from
        (List.length_map _).trans (List.length_map _)]
      exact hws.1
    · intro w hw
      obtain ⟨x, hx, rfl⟩ := List.mem_map.mp hw
      obtain ⟨w', hw', rfl⟩ := List.mem_map.mp hx
      exact h.fits_collect w' (hws.2 w' hw')
  limited_collect ws hws := by
    refine limited_flatMap.mpr fun w hw => ?_
    obtain ⟨x, hx, rfl⟩ := List.mem_map.mp hw
    obtain ⟨w', hw', rfl⟩ := List.mem_map.mp hx
    exact h.limited_collect w' (limited_flatMap.mp hws w' hw')

end Containers

section Sets

theorem exact_effectIdSet : effectIdSet.Exact where
  lawful := (lawful_seq lawful_effectId).congr (fun _ => Iff.rfl) (by simp [Limited, effectIdSet])
  encode _ := rfl
  decode := rfl
  collect_entries ids _ := collectSet_toList ids
  filed_collect _ := trivial
  ascending_entries ids _ := pairwise_toList_set ids
  entries_collect _ hids := toList_collectSet hids
  fits_collect _ hids :=
    ⟨length_collectSet_le.trans_lt hids.1, fun id hid => hids.2 id (mem_toList_collectSet hid)⟩
  limited_collect _ hw := hw

theorem exact_record : record.Exact where
  lawful := lawful_wireRecord
  encode _ := rfl
  decode := rfl
  collect_entries r _ := by
    simp only [record, WireRecord.collect, recordEntries, collectSet_toList, map_collectMap_toList]
    rfl
  filed_collect _ := trivial
  ascending_entries r _ := by
    refine ⟨pairwise_toList_set r.members, fun flags hflags => ?_, fun joins hjoins => ?_⟩
    · obtain ⟨m, -, rfl⟩ := Option.map_eq_some_iff.mp hflags
      exact pairwise_toList_map m
    · obtain ⟨m, -, rfl⟩ := Option.map_eq_some_iff.mp hjoins
      exact pairwise_toList_map m
  entries_collect w hw := by
    obtain ⟨hmembers, hflags, hjoins⟩ := hw
    simp only [record, WireRecord.collect, recordEntries, toList_collectSet hmembers,
      map_toList_collectMap hflags, map_toList_collectMap hjoins]
    rfl
  fits_collect w h := by
    refine ⟨h.id, ⟨length_collectSet_le.trans_lt h.members.1, fun id hid =>
      h.members.2 id (mem_toList_collectSet hid)⟩, h.handler, h.counters, h.rollbackDomainPayload,
      h.rollbackDomainPayloadHash, fun flags hflags => ?_, fun joins hjoins => ?_,
      h.rollbackSessionStack, h.openedAt, h.errorRoutes⟩
    · obtain ⟨given, hgiven, hlength, hsubset⟩ := exists_of_mem_collectMap hflags
      obtain ⟨hfew, hall⟩ := h.rollbackFlags given hgiven
      exact ⟨hlength.trans_lt hfew, fun entry hentry => hall entry (hsubset hentry)⟩
    · obtain ⟨given, hgiven, hlength, hsubset⟩ := exists_of_mem_collectMap hjoins
      obtain ⟨hfew, hall⟩ := h.rollbackJoinExpected given hgiven
      exact ⟨hlength.trans_lt hfew, fun entry hentry => hall entry (hsubset hentry)⟩
  limited_collect w h := by
    intro v hv
    cases hflags : w.rollbackFlags with
    | none => simp [record, WireRecord.values, recordEntries, WireRecord.collect, hflags] at hv
    | some flags =>
      simp only [record, WireRecord.values, recordEntries, WireRecord.collect, hflags,
        Option.map_some, Option.getD_some] at hv
      obtain ⟨entry, hentry, rfl⟩ := List.mem_map.mp hv
      refine h entry.2 ?_
      simp only [record, WireRecord.values, hflags, Option.getD_some]
      exact List.mem_map_of_mem (mem_toList_collectMap hentry)

theorem exists_of_mem_table {ws : List WireRecord} {w : WireRecord}
    (h : w ∈ tableEntries (collectTable ws)) : ∃ given ∈ ws, w = recordEntries given.collect := by
  obtain ⟨r, hr, rfl⟩ := List.mem_map.mp h
  obtain ⟨k, hk⟩ := mem_values.mp hr
  obtain ⟨given, hgiven, -, rfl⟩ := exists_of_getElem?_foldl_put WireRecord.id WireRecord.collect hk
  exact ⟨given, hgiven, rfl⟩

theorem length_tableEntries_le (ws : List WireRecord) :
    (tableEntries (collectTable ws)).length ≤ ws.length := by
  have hlength : (collectTable ws).toList.length ≤ ws.length :=
    length_toList_foldl_put_le WireRecord.id WireRecord.collect ws
  rwa [tableEntries, values_eq_map_toList, List.length_map, List.length_map]

theorem pairwise_tableEntries {t : ConcurrencyTable} (ht : Keyed ConcurrencyRecord.id t) :
    (tableEntries t).Pairwise (fun a b => a.id < b.id) := by
  rw [tableEntries, values_eq_map_toList, List.map_map, List.pairwise_map]
  refine t.ordered_keys_toList.imp_of_mem fun {a b} ha hb hlt => ?_
  have hida : a.2.id = a.1 := ht a.1 a.2 (Std.ExtTreeMap.mem_toList_iff_getElem?_eq_some.mp ha)
  have hidb : b.2.id = b.1 := ht b.1 b.2 (Std.ExtTreeMap.mem_toList_iff_getElem?_eq_some.mp hb)
  change a.2.id < b.2.id
  rw [hida, hidb]
  exact Nat.compare_eq_lt.mp hlt

theorem tableEntries_collectTable {ws : List WireRecord} (hws : table.Ascending ws) :
    tableEntries (collectTable ws) = ws := by
  have hsorted : ws.Pairwise (fun a b => compare a.id b.id = .lt) := by
    simpa only [Nat.compare_eq_lt] using hws.1
  have hlist := toList_foldl_put WireRecord.id WireRecord.collect hsorted
  rw [tableEntries, values_eq_map_toList, collectTable, hlist, List.map_map, List.map_map]
  refine (List.map_congr_left fun w hw => ?_).trans (List.map_id ws)
  exact exact_record.entries_collect w (hws.2 w hw)

theorem exact_table : table.Exact where
  lawful := (lawful_seq lawful_wireRecord).congr (fun _ => Iff.rfl) fun _ => limited_flatMap.symm
  encode _ := (writeSeq_map _ recordEntries wireRecord.canonicalEncode).symm
  decode := by
    simp only [table, concurrencyTable, concurrencyRecord, readSeq_map, bind_assoc, pure_bind,
      List.foldl_map]
    rfl
  collect_entries t ht := by
    have hback : ∀ r, (recordEntries r).collect = r := fun r => exact_record.collect_entries r trivial
    simp only [table, tableEntries, collectTable, List.foldl_map, hback]
    exact foldl_insert_values ht
  filed_collect ws := by
    intro k r hr
    obtain ⟨w, -, hkey, rfl⟩ := exists_of_getElem?_foldl_put WireRecord.id WireRecord.collect hr
    exact hkey
  ascending_entries t ht := by
    refine ⟨pairwise_tableEntries ht, fun w hw => ?_⟩
    obtain ⟨r, -, rfl⟩ := List.mem_map.mp hw
    exact exact_record.ascending_entries r trivial
  entries_collect _ hws := tableEntries_collectTable hws
  fits_collect ws hws := by
    refine ⟨(length_tableEntries_le ws).trans_lt hws.1, fun w hw => ?_⟩
    obtain ⟨given, hgiven, rfl⟩ := exists_of_mem_table hw
    exact exact_record.fits_collect given (hws.2 given hgiven)
  limited_collect ws hws := by
    refine limited_flatMap.mpr fun w hw => ?_
    obtain ⟨given, hgiven, rfl⟩ := exists_of_mem_table hw
    exact exact_record.limited_collect given (limited_flatMap.mp hws given hgiven)

end Sets

end Format

/-- The types with an encoding, and the options and sequences of them. -/
inductive CanonicalType where
  | uuid | addr | recordId | effectId | recordKind | recordState | recordCounters
  | concurrencyRecord | concurrencyTable | effectIds | value | v2RaceArm | waitState | processState
  | errorClass | incident | fiber | sessionWorkspaceKind | sessionScopeState
  | option (T : CanonicalType)
  | seq (T : CanonicalType)

namespace CanonicalType

def format : CanonicalType → Format
  | uuid => .plain Canonical.uuid UuidFits fun _ => []
  | addr => .plain Canonical.addr AddrFits fun _ => []
  | recordId => .plain Canonical.recordId UuidFits fun _ => []
  | effectId => .plain Canonical.effectId UuidFits fun _ => []
  | recordKind => .plain Canonical.recordKind Always fun _ => []
  | recordState => .plain Canonical.recordState Always fun _ => []
  | recordCounters => .plain Canonical.recordCounters CountersFit fun _ => []
  | concurrencyRecord => .record
  | concurrencyTable => .table
  | effectIds => .effectIdSet
  | value => .plain Canonical.value ValueFits fun v => [v]
  | v2RaceArm => .plain Canonical.v2RaceArm ArmFits fun _ => []
  | waitState => .plain Canonical.waitState WaitFits fun _ => []
  | processState => .plain Canonical.processState StateFits fun _ => []
  | errorClass => .plain Canonical.errorClass ClassFits fun _ => []
  | incident => .plain Canonical.incident IncidentFits fun _ => []
  | fiber => .plain Canonical.fiber FiberFits Fiber.stack
  | sessionWorkspaceKind => .plain Canonical.sessionWorkspaceKind Always fun _ => []
  | sessionScopeState => .plain Canonical.sessionScopeState ScopeFits fun _ => []
  | option T => T.format.option
  | seq T => T.format.seq

variable (T : CanonicalType)

abbrev Carrier : Type := T.format.Carrier

def toCanonicalBytes (x : T.Carrier) : Bytes := T.format.impl.toCanonicalBytes x

def fromCanonicalBytes (b : Bytes) : Except CanonicalDecodeError T.Carrier :=
  T.format.impl.fromCanonicalBytes b

theorem exact_plain_of_always {α : Type} {impl : CanonicalEncode α} {P : α → Prop}
    (h : Lawful P Always impl.canonicalEncode impl.canonicalDecode) :
    (Format.plain impl P fun _ => []).Exact :=
  Format.exact_plain (h.congr (fun _ => Iff.rfl) (by simp))

theorem exact : T.format.Exact := by
  induction T with
  | uuid => exact exact_plain_of_always lawful_uuid
  | addr => exact exact_plain_of_always lawful_addr
  | recordId => exact exact_plain_of_always lawful_recordId
  | effectId => exact exact_plain_of_always lawful_effectId
  | recordKind => exact exact_plain_of_always lawful_recordKind
  | recordState => exact exact_plain_of_always lawful_recordState
  | recordCounters => exact exact_plain_of_always lawful_recordCounters
  | concurrencyRecord => exact Format.exact_record
  | concurrencyTable => exact Format.exact_table
  | effectIds => exact Format.exact_effectIdSet
  | value => exact Format.exact_plain (lawful_value.congr (fun _ => Iff.rfl) (by simp))
  | v2RaceArm => exact exact_plain_of_always lawful_v2RaceArm
  | waitState => exact exact_plain_of_always lawful_waitState
  | processState => exact exact_plain_of_always lawful_processState
  | errorClass => exact exact_plain_of_always lawful_errorClass
  | incident => exact exact_plain_of_always lawful_incident
  | fiber => exact Format.exact_plain lawful_fiber
  | sessionWorkspaceKind => exact exact_plain_of_always lawful_sessionWorkspaceKind
  | sessionScopeState => exact exact_plain_of_always lawful_sessionScopeState
  | option T ih => exact ih.option
  | seq T ih => exact ih.seq

end CanonicalType

section RoundTrip

variable {T : CanonicalType} {x : T.Carrier} {b : Bytes}

theorem answers_canonical (hfits : T.format.Fits x) (hfiled : T.format.Filed x) :
    Answers (∀ v ∈ T.format.values x, v.checkArrayLimits = .ok ()) T.format.impl.canonicalDecode
      (T.toCanonicalBytes x) x := by
  have hanswers := (T.exact.lawful.answers (T.format.entries x) hfits).pack T.format.collect
  rw [T.exact.collect_entries x hfiled, ← T.exact.decode, ← T.exact.encode] at hanswers
  exact hanswers

/-- Values that fit their types and whose tables are filed by id are read back from their bytes, with
whatever follows left over, exactly when all values inside pass the check of their arrays. -/
theorem canonical_round_trip (T : CanonicalType) (x : T.Carrier) (hfits : T.format.Fits x)
    (hfiled : T.format.Filed x) :
    ((∀ v ∈ T.format.values x, v.checkArrayLimits = .ok ()) →
      T.fromCanonicalBytes (T.toCanonicalBytes x) = .ok x ∧
      ∀ suffix, T.format.impl.canonicalDecode ⟨T.toCanonicalBytes x ++ suffix, 0⟩ =
        .ok x ⟨suffix, (T.toCanonicalBytes x).length⟩) ∧
    ((∃ v ∈ T.format.values x, v.checkArrayLimits ≠ .ok ()) →
      ∃ error, T.fromCanonicalBytes (T.toCanonicalBytes x) = .error error) := by
  have hanswers := answers_canonical hfits hfiled
  constructor
  · intro hlimits
    have hread : ∀ suffix, T.format.impl.canonicalDecode ⟨T.toCanonicalBytes x ++ suffix, 0⟩ =
        .ok x ⟨suffix, (T.toCanonicalBytes x).length⟩ := by
      intro suffix
      have hsuffix := (hanswers suffix 0).1 hlimits
      rwa [Nat.zero_add] at hsuffix
    refine ⟨?_, hread⟩
    have hwhole := hread []
    rw [List.append_nil] at hwhole
    simp only [CanonicalType.fromCanonicalBytes, CanonicalEncode.fromCanonicalBytes, hwhole, if_pos]
  · rintro ⟨v, hv, hbeyond⟩
    obtain ⟨error, c, hstops⟩ := (hanswers [] 0).2 fun hlimits => hbeyond (hlimits v hv)
    rw [List.append_nil] at hstops
    refine ⟨error, ?_⟩
    simp only [CanonicalType.fromCanonicalBytes, CanonicalEncode.fromCanonicalBytes, hstops]

end RoundTrip

/-- A fibre with an array on its stack. -/
def loadedFiber : Fiber := { fiberId := 1, pc := 0, stack := [.array [.bool true, .i64 (-1)]] }

theorem loadedFiber_read_back :
    CanonicalType.fiber.fromCanonicalBytes (CanonicalType.fiber.toCanonicalBytes loadedFiber) =
      .ok loadedFiber := by
  have hstack : ∀ v ∈ loadedFiber.stack, ValueFits v := by
    simp [loadedFiber, ValueFits, ValuesFit]
  have hfits : FiberFits loadedFiber :=
    ⟨by simp [UuidFits, loadedFiber], by simp [AddrFits, loadedFiber], ⟨by decide, hstack⟩, trivial,
      by decide, by decide, by simp [loadedFiber]⟩
  exact ((canonical_round_trip .fiber loadedFiber hfits trivial).1 (by decide)).1

/-- A table that files a record under another id. -/
def misfiledTable : ConcurrencyTable :=
  (∅ : ConcurrencyTable).insert 1 (ConcurrencyRecord.new 2 .race)

theorem misfiledTable_fits : CanonicalType.concurrencyTable.format.Fits misfiledTable := by
  have hfew : (Format.tableEntries misfiledTable).length < 2 ^ 32 := by decide +kernel
  refine ⟨hfew, fun w hw => ?_⟩
  obtain ⟨record, hrecord, rfl⟩ := List.mem_map.mp hw
  obtain ⟨k, hk⟩ := mem_values.mp hrecord
  rw [misfiledTable, getElem?_insert] at hk
  split at hk
  · obtain rfl := Option.some.inj hk
    constructor <;> simp [recordEntries, ConcurrencyRecord.new, UuidFits, CountersFit]
  · simp at hk

/-- The id under which a record is filed is not written. -/
theorem misfiledTable_not_read_back :
    CanonicalType.concurrencyTable.format.Fits misfiledTable ∧
    CanonicalType.concurrencyTable.format.values misfiledTable = [] ∧
      CanonicalType.concurrencyTable.fromCanonicalBytes
          (CanonicalType.concurrencyTable.toCanonicalBytes misfiledTable) ≠ .ok misfiledTable := by
  have hvalues : (Format.tableEntries misfiledTable).flatMap WireRecord.values = [] := by
    decide +kernel
  have hread : ((concurrencyTable.fromCanonicalBytes
      (concurrencyTable.toCanonicalBytes misfiledTable)).toOption.map (·.keys)) = some [2] := by
    decide +kernel
  have hkeys : misfiledTable.keys = [1] := by decide +kernel
  refine ⟨misfiledTable_fits, hvalues, fun hback => ?_⟩
  change concurrencyTable.fromCanonicalBytes (concurrencyTable.toCanonicalBytes misfiledTable) =
    .ok misfiledTable at hback
  rw [hback] at hread
  simp [Except.toOption, hkeys] at hread

section Uniqueness

/-- In the bytes the ids of every set, the keys of every map and the ids of the records of every table
stand in strictly ascending order. -/
def CanonicalType.Ascending (T : CanonicalType) (b : Bytes) : Prop :=
  ∀ w, T.format.wire.fromCanonicalBytes b = .ok w → T.format.Ascending w

theorem fromCanonicalBytes_eq_ok {α : Type} {C : CanonicalEncode α} {b : Bytes} {x : α} :
    C.fromCanonicalBytes b = .ok x ↔ ∃ pos, C.canonicalDecode ⟨b, 0⟩ = .ok x ⟨[], pos⟩ := by
  unfold CanonicalEncode.fromCanonicalBytes
  cases hread : C.canonicalDecode ⟨b, 0⟩ with
  | error error c => simp
  | ok y c =>
    obtain ⟨rest, pos⟩ := c
    cases rest with
    | nil => simp
    | cons byte rest => simp

theorem exists_wire {T : CanonicalType} {b : Bytes} {x : T.Carrier}
    (h : T.fromCanonicalBytes b = .ok x) : ∃ w, T.format.wire.fromCanonicalBytes b = .ok w ∧
      x = T.format.collect w ∧ (T.format.WireFits w ∧ T.format.Limited w) ∧
      T.format.wire.canonicalEncode w = b := by
  obtain ⟨pos, hread⟩ := fromCanonicalBytes_eq_ok.mp h
  rw [T.exact.decode] at hread
  obtain ⟨w, c, hw, hlast⟩ := Abort.bind_eq_ok.mp hread
  obtain ⟨rfl, rfl⟩ := EStateM.Result.ok.inj hlast
  obtain ⟨hfits, hbytes⟩ := T.exact.lawful.sound _ _ _ hw
  rw [List.append_nil] at hbytes
  exact ⟨w, fromCanonicalBytes_eq_ok.mpr ⟨pos, hw⟩, rfl, hfits, hbytes.symm⟩

theorem fromCanonicalBytes_of_decodes {α : Type} {C : CanonicalEncode α} {b : Bytes} {x : α}
    (h : Decodes C.canonicalDecode b x) : C.fromCanonicalBytes b = .ok x := by
  have hwhole := (h [] 0).1 trivial
  rw [List.append_nil] at hwhole
  exact fromCanonicalBytes_eq_ok.mpr ⟨_, hwhole⟩

theorem reads_entries {T : CanonicalType} {w : T.format.Wire} (hfits : T.format.WireFits w)
    (hlimited : T.format.Limited w) :
    T.fromCanonicalBytes (T.format.wire.canonicalEncode w) = .ok (T.format.collect w) := by
  have hread := (T.exact.lawful.reads hfits hlimited).pack T.format.collect
  rw [← T.exact.decode] at hread
  exact fromCanonicalBytes_of_decodes hread

theorem ascending_iff {T : CanonicalType} {w : T.format.Wire} (hfits : T.format.WireFits w)
    (hlimited : T.format.Limited w) :
    T.Ascending (T.format.wire.canonicalEncode w) ↔ T.format.Ascending w := by
  have hread := fromCanonicalBytes_of_decodes (T.exact.lawful.reads hfits hlimited)
  constructor
  · exact fun h => h w hread
  · intro h w' hread'
    obtain rfl : w = w' := Except.ok.inj (hread.symm.trans hread')
    exact h

/-- The bytes a value was read from are its own exactly when sets, maps and tables stand in them in
strictly ascending order. -/
theorem canonical_bytes_iff_ascending (T : CanonicalType) (b : Bytes) (x : T.Carrier)
    (h : T.fromCanonicalBytes b = .ok x) : T.toCanonicalBytes x = b ↔ T.Ascending b := by
  obtain ⟨w, hread, rfl, ⟨hfits, hlimited⟩, rfl⟩ := exists_wire h
  have hencode : T.toCanonicalBytes (T.format.collect w) =
      T.format.wire.canonicalEncode (T.format.entries (T.format.collect w)) := T.exact.encode _
  rw [hencode]
  constructor
  · intro hbytes w' hread'
    obtain rfl : w = w' := Except.ok.inj (hread.symm.trans hread')
    -- Both lists of entries are read back from the same bytes.
    have hsame := T.exact.lawful.injective (T.exact.fits_collect w hfits) hfits
      (T.exact.limited_collect w hlimited) hlimited hbytes
    have hascending := T.exact.ascending_entries _ (T.exact.filed_collect w)
    rwa [hsame] at hascending
  · intro hascending
    rw [T.exact.entries_collect w (hascending w hread)]

end Uniqueness

def idBytes (ids : List EffectId) : Bytes := writeSeq ids effectId.canonicalEncode

theorem fits_ids : CanonicalType.effectIds.format.WireFits [1, 2] ∧
    CanonicalType.effectIds.format.WireFits [2, 1] :=
  ⟨⟨by decide, by simp [UuidFits]⟩, ⟨by decide, by simp [UuidFits]⟩⟩

theorem limited_ids (ids : List EffectId) : CanonicalType.effectIds.format.Limited ids :=
  fun _ hv => absurd hv List.not_mem_nil

theorem ascending_ids_unique :
    CanonicalType.effectIds.fromCanonicalBytes (idBytes [1, 2]) = .ok (collectSet [1, 2]) ∧
      CanonicalType.effectIds.toCanonicalBytes (collectSet [1, 2]) = idBytes [1, 2] := by
  have hread := reads_entries fits_ids.1 (limited_ids _)
  have hascending : CanonicalType.effectIds.format.Ascending [1, 2] :=
    show List.Pairwise (· < ·) [1, 2] by decide
  refine ⟨hread, (canonical_bytes_iff_ascending .effectIds _ _ hread).mpr ?_⟩
  exact (ascending_iff fits_ids.1 (limited_ids _)).mpr hascending

/-- Two ids are read in either order, and written in one. -/
theorem descending_ids_accepted :
    CanonicalType.effectIds.fromCanonicalBytes (idBytes [2, 1]) = .ok (collectSet [1, 2]) ∧
      CanonicalType.effectIds.fromCanonicalBytes (idBytes [1, 2]) = .ok (collectSet [1, 2]) ∧
      CanonicalType.effectIds.toCanonicalBytes (collectSet [1, 2]) ≠ idBytes [2, 1] := by
  have hsame : collectSet [2, 1] = collectSet [1, 2] := by decide +kernel
  have hbytes : effectIds.toCanonicalBytes (collectSet [1, 2]) ≠ idBytes [2, 1] := by decide +kernel
  refine ⟨?_, reads_entries fits_ids.1 (limited_ids _), hbytes⟩
  rw [← hsame]
  exact reads_entries fits_ids.2 (limited_ids _)

end BpmnLite.Canonical
