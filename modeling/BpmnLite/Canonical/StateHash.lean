import BpmnLite.Canonical.HashDomain
import BpmnLite.Canonical.RoundTrip
import BpmnLite.Kernel.Reference

/-!
# What equal state hashes mean

Every section of the bytes that a state hash is taken of shows its own end, also where a value is
beyond the limits of the readers, and the canonical form of JSON determines the document. Two
envelopes with the same bytes therefore agree in all that is written: everything but the ABI of the
artifact, the integrity hash of the instance and the text of the domain payload, of which only the
document it denotes counts.
-/

namespace BpmnLite.Canonical

open Codec Maps

section Sections

variable {α : Type} {P : α → Prop} {enc : α → Bytes}

theorem delimits_u8 : Delimits (· < 2 ^ 8) writeU8 := lawful_u8.delimits

theorem delimits_u32 : Delimits (· < 2 ^ 32) writeU32 := lawful_u32.delimits

theorem delimits_u64 : Delimits (· < 2 ^ 64) writeU64 := lawful_u64.delimits

theorem delimits_uuid : Delimits UuidFits uuid.canonicalEncode := lawful_uuid.delimits

theorem delimits_digest : Delimits DigestFits (writeBytesFixed 32) := lawful_digest.delimits

theorem delimits_str : Delimits StrFits writeStr := lawful_str.delimits

theorem delimits_time : Delimits TimestampFits fun t => writeU64 (asU64 t) := lawful_i64.delimits

theorem delimits_option (h : Delimits P enc) :
    Delimits (fun o => ∀ x ∈ o, P x) (writeOption · enc) := by
  intro o o' r r' ho ho' heq
  cases o with
  | none =>
    cases o' with
    | none => exact ⟨rfl, (delimits_u8 0 0 r r' (by decide) (by decide) heq).2⟩
    | some y =>
      simp only [writeOption, List.append_assoc] at heq
      have htag := (delimits_u8 0 1 _ _ (by decide) (by decide) heq).1
      cases htag
  | some x =>
    cases o' with
    | none =>
      simp only [writeOption, List.append_assoc] at heq
      have htag := (delimits_u8 1 0 _ _ (by decide) (by decide) heq).1
      cases htag
    | some y =>
      simp only [writeOption, List.append_assoc] at heq
      have hrest := (delimits_u8 1 1 _ _ (by decide) (by decide) heq).2
      obtain ⟨hxy, hend⟩ := h x y r r' (ho x rfl) (ho' y rfl) hrest
      exact ⟨by rw [hxy], hend⟩

theorem delimits_seq (h : Delimits P enc) :
    Delimits (fun xs => xs.length < 2 ^ 32 ∧ ∀ x ∈ xs, P x) (writeSeq · enc) := by
  intro xs ys r r' hxs hys heq
  simp only [writeSeq, List.append_assoc] at heq
  obtain ⟨hlength, heq⟩ := delimits_u32 _ _ _ _ hxs.1 hys.1 heq
  exact h.items hlength hxs.2 hys.2 heq

end Sections

section Values

def valueTag : Value → ℕ
  | .bool _ => 0
  | .i64 _ => 1
  | .str _ => 2
  | .ref _ => 3
  | .array _ => 4

def valueBody : Value → Bytes
  | .bool b => writeBool b
  | .i64 n => writeU64 (asU64 n)
  | .str id => writeU32 id
  | .ref id => writeU32 id
  | .array items => writeU32 items.length ++ encodeValues items

theorem encodeValue_eq (v : Value) : encodeValue v = writeU8 (valueTag v) ++ valueBody v := by
  cases v <;> simp only [encodeValue, valueTag, valueBody]

theorem valueTag_lt (v : Value) : valueTag v < 2 ^ 8 := by
  cases v <;> simp [valueTag]

mutual

theorem delimits_value : ∀ (v w : Value) (r r' : Bytes), ValueFits v → ValueFits w →
    encodeValue v ++ r = encodeValue w ++ r' → v = w ∧ r = r' := by
  intro v w r r' hv hw heq
  simp only [encodeValue_eq, List.append_assoc] at heq
  obtain ⟨htag, hrest⟩ := delimits_u8 _ _ _ _ (valueTag_lt v) (valueTag_lt w) heq
  cases v <;> cases w
  case bool.bool b b' =>
    obtain ⟨hb, hend⟩ := lawful_bool.delimits b b' r r' trivial trivial hrest
    exact ⟨by rw [hb], hend⟩
  case i64.i64 n n' =>
    rw [ValueFits] at hv hw
    obtain ⟨hn, hend⟩ := lawful_i64.delimits n n' r r' hv hw hrest
    exact ⟨by rw [hn], hend⟩
  case str.str id id' | ref.ref id id' =>
    rw [ValueFits] at hv hw
    obtain ⟨hid, hend⟩ := delimits_u32 id id' r r' hv hw hrest
    exact ⟨by rw [hid], hend⟩
  case array.array items items' =>
    rw [ValueFits] at hv hw
    simp only [valueBody, List.append_assoc] at hrest
    obtain ⟨hlength, hrest⟩ := delimits_u32 _ _ _ _ hv.1 hw.1 hrest
    obtain ⟨hitems, hend⟩ := delimits_values items items' r r' hlength hv.2 hw.2 hrest
    exact ⟨by rw [hitems], hend⟩
  all_goals cases htag

theorem delimits_values : ∀ (vs ws : List Value) (r r' : Bytes), vs.length = ws.length →
    ValuesFit vs → ValuesFit ws → encodeValues vs ++ r = encodeValues ws ++ r' → vs = ws ∧ r = r' := by
  intro vs ws r r' hlength hvs hws heq
  cases vs with
  | nil =>
    obtain rfl := List.eq_nil_of_length_eq_zero hlength.symm
    exact ⟨rfl, heq⟩
  | cons v vs =>
    cases ws with
    | nil => simp at hlength
    | cons w ws =>
      simp only [encodeValues, List.append_assoc] at heq
      obtain ⟨hvw, hrest⟩ := delimits_value v w _ _ hvs.1 hws.1 heq
      obtain ⟨hitems, hend⟩ := delimits_values vs ws r r' (by simpa using hlength) hvs.2 hws.2 hrest
      exact ⟨by rw [hvw, hitems], hend⟩

end

theorem delimits_flagEntries : Delimits
    (fun entries => entries.length < 2 ^ 32 ∧ ∀ entry ∈ entries, entry.1 < 2 ^ 32 ∧ ValueFits entry.2)
    (writeSeq · fun entry : FlagKey × Value => writeU32 entry.1 ++ value.canonicalEncode entry.2) :=
  delimits_seq (delimits_u32.append delimits_value)

theorem delimits_joinEntries : Delimits
    (fun entries => entries.length < 2 ^ 32 ∧ ∀ entry ∈ entries, entry.1 < 2 ^ 32 ∧ entry.2 < 2 ^ 16)
    (writeSeq · fun entry : JoinId × ℕ => writeU32 entry.1 ++ writeU16 entry.2) :=
  delimits_seq (delimits_u32.append lawful_u16.delimits)

theorem delimits_fiber : Delimits FiberFits fiber.canonicalEncode :=
  (delimits_uuid.append <| lawful_addr.delimits.append <| (delimits_seq delimits_value).append <|
    lawful_waitState.delimits.append <| delimits_u32.append <|
    delimits_seq lawful_recordId.delimits).map
    (fun f => (f.fiberId, f.pc, f.stack, f.wait, f.loopEpoch, f.controlStack))
    (fun _ => rfl)
    (fun f h => ⟨h.fiberId, h.pc, h.stack, h.wait, h.loopEpoch, h.controlStack⟩)
    (fun f g _ _ h => by
      cases f
      cases g
      simpa using h)

theorem delimits_wireRecord : Delimits RecordFits wireRecord.canonicalEncode :=
  (lawful_recordId.delimits.append <| lawful_recordKind.delimits.append <|
    (delimits_seq delimits_uuid).append <| (delimits_option lawful_addr.delimits).append <|
    lawful_recordState.delimits.append <| lawful_recordCounters.delimits.append <|
    (delimits_option delimits_str).append <| (delimits_option delimits_digest).append <|
    (delimits_option delimits_flagEntries).append <| (delimits_option delimits_joinEntries).append <|
    (delimits_option delimits_str).append <| (delimits_option lawful_addr.delimits).append <|
    delimits_seq ((delimits_option delimits_str).append lawful_addr.delimits)).map
    (fun w => (w.id, w.kind, w.members, w.handler, w.state, w.counters, w.rollbackDomainPayload,
      w.rollbackDomainPayloadHash, w.rollbackFlags, w.rollbackJoinExpected, w.rollbackSessionStack,
      w.openedAt, w.errorRoutes))
    (fun _ => rfl)
    (fun w h => ⟨h.id, trivial, h.members, h.handler, trivial, h.counters, h.rollbackDomainPayload,
      h.rollbackDomainPayloadHash, h.rollbackFlags, h.rollbackJoinExpected, h.rollbackSessionStack,
      h.openedAt, h.errorRoutes⟩)
    (fun w v _ _ h => by
      cases w
      cases v
      simpa using h)

structure TableFits (table : ConcurrencyTable) : Prop where
  length : (Format.tableEntries table).length < 2 ^ 32
  records : ∀ w ∈ Format.tableEntries table, RecordFits w
  filed : Keyed ConcurrencyRecord.id table

theorem delimits_table : Delimits TableFits concurrencyTable.canonicalEncode := by
  refine (delimits_seq delimits_wireRecord).map Format.tableEntries Format.exact_table.encode
    (fun t h => ⟨h.length, h.records⟩) fun t u ht hu h => ?_
  calc t = Format.collectTable (Format.tableEntries t) :=
        (Format.exact_table.collect_entries t ht.filed).symm
    _ = Format.collectTable (Format.tableEntries u) := congrArg Format.collectTable h
    _ = u := Format.exact_table.collect_entries u hu.filed

theorem delimits_effectIds : Delimits
    (fun ids : BTreeSet EffectId => ids.toList.length < 2 ^ 32 ∧ ∀ id ∈ ids.toList, UuidFits id)
    effectIds.canonicalEncode := by
  refine (delimits_seq lawful_effectId.delimits).map (·.toList) (fun _ => rfl) (fun _ h => h)
    fun s t _ _ h => ?_
  rw [← collectSet_toList s, ← collectSet_toList t, h]

theorem delimits_map {ν : Type} {P : List (ℕ × ν) → Prop} {enc : List (ℕ × ν) → Bytes}
    (h : Delimits P enc) : Delimits (fun m : BTreeMap ℕ ν => P m.toList) (fun m => enc m.toList) := by
  refine h.map (·.toList) (fun _ => rfl) (fun _ h => h) fun m m' _ _ hentries => ?_
  rw [← collectMap_toList m, ← collectMap_toList m', hentries]

end Values

section Documents

mutual

/-- The bits of every double are those of 64 bits. -/
def JsonFits : Json → Prop
  | .float x => x.bits < 2 ^ 64
  | .array items => JsonsFit items
  | .object fields => FieldsFit fields
  | _ => True

def JsonsFit : List Json → Prop
  | [] => True
  | item :: items => JsonFits item ∧ JsonsFit items

def FieldsFit : List (String × Json) → Prop
  | [] => True
  | (_, item) :: fields => JsonFits item ∧ FieldsFit fields

end

inductive JsonBody : Json → ℕ → Bytes → Prop
  | null : JsonBody .null 0 []
  | bool (b : Bool) : JsonBody (.bool b) 1 (writeBool b)
  | signed {n : ℤ} (h : -2 ^ 63 ≤ n ∧ n < 2 ^ 63) : JsonBody (.int n) 2 (writeU64 (asU64 n))
  | unsigned {n : ℤ} (h : 0 ≤ n ∧ n < 2 ^ 64) : JsonBody (.int n) 3 (writeU64 n.toNat)
  | float (x : F64) : JsonBody (.float x) 4 (writeU64 x.bits)
  | string {s : String} (h : StrFits s) : JsonBody (.string s) 5 (writeStr s)
  | array {items : List Json} {bytes : Bytes} (hlength : items.length < 2 ^ 32)
      (h : encodeJsonItems items = .ok bytes) :
      JsonBody (.array items) 6 (writeU32 items.length ++ bytes)
  | object {fields : List (String × Json)} {bytes : Bytes} (hlength : fields.length < 2 ^ 32)
      (h : encodeJsonFields fields = .ok bytes) :
      JsonBody (.object fields) 7 (writeU32 fields.length ++ bytes)

theorem checkedLenU32_eq_ok {len n : ℕ} {kind : String} (h : checkedLenU32 len kind = .ok n) :
    n = len ∧ len < 2 ^ 32 := by
  unfold checkedLenU32 at h
  split at h
  · exact ⟨(Except.ok.inj h).symm, by assumption⟩
  · cases h

theorem exists_jsonBody {v : Json} {b : Bytes} (h : encodeCanonicalJson v = .ok b) :
    ∃ tag body, JsonBody v tag body ∧ tag < 2 ^ 8 ∧ b = writeU8 tag ++ body := by
  cases v with
  | null =>
    simp only [encodeCanonicalJson, Except.ok.injEq] at h
    exact ⟨0, [], .null, by decide, h.symm⟩
  | bool x =>
    simp only [encodeCanonicalJson, Except.ok.injEq] at h
    exact ⟨1, _, .bool x, by decide, h.symm⟩
  | int n =>
    simp only [encodeCanonicalJson] at h
    split at h
    · exact ⟨2, _, .signed (by assumption), by decide, (Except.ok.inj h).symm⟩
    · split at h
      · exact ⟨3, _, .unsigned (by assumption), by decide, (Except.ok.inj h).symm⟩
      · cases h
  | float x =>
    simp only [encodeCanonicalJson] at h
    split at h
    · exact ⟨4, _, .float x, by decide, (Except.ok.inj h).symm⟩
    · cases h
  | string s =>
    rw [encodeCanonicalJson] at h
    obtain ⟨n, hn, h⟩ := bind_eq_ok.mp h
    obtain ⟨-, hlength⟩ := checkedLenU32_eq_ok hn
    exact ⟨5, _, .string hlength, by decide, (Except.ok.inj h).symm⟩
  | array items =>
    rw [encodeCanonicalJson] at h
    obtain ⟨n, hn, h⟩ := bind_eq_ok.mp h
    obtain ⟨bytes, hbytes, h⟩ := bind_eq_ok.mp h
    obtain ⟨rfl, hlength⟩ := checkedLenU32_eq_ok hn
    exact ⟨6, _, .array hlength hbytes, by decide, (Except.ok.inj h).symm⟩
  | object fields =>
    rw [encodeCanonicalJson] at h
    obtain ⟨n, hn, h⟩ := bind_eq_ok.mp h
    obtain ⟨bytes, hbytes, h⟩ := bind_eq_ok.mp h
    obtain ⟨rfl, hlength⟩ := checkedLenU32_eq_ok hn
    exact ⟨7, _, .object hlength hbytes, by decide, (Except.ok.inj h).symm⟩

mutual

theorem delimits_json : ∀ (v w : Json) (b b' r r' : Bytes), JsonFits v → JsonFits w →
    encodeCanonicalJson v = .ok b → encodeCanonicalJson w = .ok b' → b ++ r = b' ++ r' →
    v = w ∧ r = r' := by
  intro v w b b' r r' hv hw hb hb' heq
  obtain ⟨tag, body, hbody, htag, rfl⟩ := exists_jsonBody hb
  obtain ⟨tag', body', hbody', htag', rfl⟩ := exists_jsonBody hb'
  rw [List.append_assoc, List.append_assoc] at heq
  obtain ⟨rfl, hrest⟩ := delimits_u8 _ _ _ _ htag htag' heq
  cases v with
  | null =>
    cases hbody
    cases hbody'
    exact ⟨rfl, hrest⟩
  | bool x =>
    cases hbody
    cases hbody' with
    | bool y =>
      obtain ⟨hxy, hend⟩ := lawful_bool.delimits x y r r' trivial trivial hrest
      exact ⟨by rw [hxy], hend⟩
  | int n =>
    cases hbody with
    | signed hn =>
      cases hbody' with
      | @signed m hm =>
        obtain ⟨hnm, hend⟩ := lawful_i64.delimits n m r r' hn hm hrest
        exact ⟨by rw [hnm], hend⟩
    | unsigned hn =>
      cases hbody' with
      | @unsigned m hm =>
        obtain ⟨hnm, hend⟩ := delimits_u64 n.toNat m.toNat r r' (by omega) (by omega) hrest
        have heq : n = m := by omega
        exact ⟨by rw [heq], hend⟩
  | float x =>
    cases hbody
    cases hbody' with
    | float y =>
      rw [JsonFits] at hv hw
      obtain ⟨hbits, hend⟩ := delimits_u64 _ _ _ _ hv hw hrest
      have hxy : x = y := congrArg F64.mk hbits
      exact ⟨by rw [hxy], hend⟩
  | string s =>
    cases hbody with
    | string hs =>
      cases hbody' with
      | string ht =>
        obtain ⟨hst, hend⟩ := delimits_str _ _ _ _ hs ht hrest
        exact ⟨by rw [hst], hend⟩
  | array items =>
    cases hbody with
    | array hlength hitems =>
      cases hbody' with
      | array hlength' hitems' =>
        rw [JsonFits] at hv hw
        rw [List.append_assoc, List.append_assoc] at hrest
        obtain ⟨hcount, hrest⟩ := delimits_u32 _ _ _ _ hlength hlength' hrest
        obtain ⟨hall, hend⟩ := delimits_jsonItems items _ _ _ _ _ hcount hv hw hitems hitems' hrest
        exact ⟨by rw [hall], hend⟩
  | object fields =>
    cases hbody with
    | object hlength hfields =>
      cases hbody' with
      | object hlength' hfields' =>
        rw [JsonFits] at hv hw
        rw [List.append_assoc, List.append_assoc] at hrest
        obtain ⟨hcount, hrest⟩ := delimits_u32 _ _ _ _ hlength hlength' hrest
        obtain ⟨hall, hend⟩ := delimits_jsonFields fields _ _ _ _ _ hcount hv hw hfields hfields' hrest
        exact ⟨by rw [hall], hend⟩

theorem delimits_jsonItems : ∀ (vs ws : List Json) (b b' r r' : Bytes), vs.length = ws.length →
    JsonsFit vs → JsonsFit ws → encodeJsonItems vs = .ok b → encodeJsonItems ws = .ok b' →
    b ++ r = b' ++ r' → vs = ws ∧ r = r' := by
  intro vs ws b b' r r' hlength hvs hws hb hb' heq
  cases vs with
  | nil =>
    obtain rfl := List.eq_nil_of_length_eq_zero hlength.symm
    rw [hb] at hb'
    obtain rfl := Except.ok.inj hb'
    exact ⟨rfl, List.append_cancel_left heq⟩
  | cons v vs =>
    cases ws with
    | nil => simp at hlength
    | cons w ws =>
      rw [encodeJsonItems] at hb hb'
      obtain ⟨bv, hbv, hb⟩ := bind_eq_ok.mp hb
      obtain ⟨bvs, hbvs, hb⟩ := bind_eq_ok.mp hb
      obtain ⟨bw, hbw, hb'⟩ := bind_eq_ok.mp hb'
      obtain ⟨bws, hbws, hb'⟩ := bind_eq_ok.mp hb'
      obtain rfl := Except.ok.inj hb
      obtain rfl := Except.ok.inj hb'
      rw [List.append_assoc, List.append_assoc] at heq
      rw [JsonsFit] at hvs hws
      obtain ⟨hvw, hrest⟩ := delimits_json v w _ _ _ _ hvs.1 hws.1 hbv hbw heq
      obtain ⟨hall, hend⟩ := delimits_jsonItems vs ws _ _ _ _ (by simpa using hlength) hvs.2 hws.2
        hbvs hbws hrest
      exact ⟨by rw [hvw, hall], hend⟩

theorem delimits_jsonFields : ∀ (vs ws : List (String × Json)) (b b' r r' : Bytes),
    vs.length = ws.length → FieldsFit vs → FieldsFit ws → encodeJsonFields vs = .ok b →
    encodeJsonFields ws = .ok b' → b ++ r = b' ++ r' → vs = ws ∧ r = r' := by
  intro vs ws b b' r r' hlength hvs hws hb hb' heq
  cases vs with
  | nil =>
    obtain rfl := List.eq_nil_of_length_eq_zero hlength.symm
    rw [hb] at hb'
    obtain rfl := Except.ok.inj hb'
    exact ⟨rfl, List.append_cancel_left heq⟩
  | cons field vs =>
    cases ws with
    | nil => simp at hlength
    | cons field' ws =>
      cases field with
      | mk k v =>
      cases field' with
      | mk k' w =>
      rw [encodeJsonFields] at hb hb'
      obtain ⟨n, hn, hb⟩ := bind_eq_ok.mp hb
      obtain ⟨bv, hbv, hb⟩ := bind_eq_ok.mp hb
      obtain ⟨bvs, hbvs, hb⟩ := bind_eq_ok.mp hb
      obtain ⟨n', hn', hb'⟩ := bind_eq_ok.mp hb'
      obtain ⟨bw, hbw, hb'⟩ := bind_eq_ok.mp hb'
      obtain ⟨bws, hbws, hb'⟩ := bind_eq_ok.mp hb'
      obtain rfl := Except.ok.inj hb
      obtain rfl := Except.ok.inj hb'
      simp only [List.append_assoc] at heq
      rw [FieldsFit] at hvs hws
      obtain ⟨hkey, hrest⟩ := delimits_str k k' _ _ (checkedLenU32_eq_ok hn).2
        (checkedLenU32_eq_ok hn').2 heq
      obtain ⟨hvw, hrest⟩ := delimits_json v w _ _ _ _ hvs.1 hws.1 hbv hbw hrest
      obtain ⟨hall, hend⟩ := delimits_jsonFields vs ws _ _ _ _ (by simpa using hlength) hvs.2 hws.2
        hbvs hbws hrest
      exact ⟨by rw [hkey, hvw, hall], hend⟩

end

end Documents

section States

structure SessionFits (session : SessionStackState) : Prop where
  sessionId : UuidFits session.sessionId
  scope : ∀ scope ∈ session.scope, ScopeFits scope
  workspaceStack : JsonsFit session.workspaceStack
  traceSequence : session.traceSequence < 2 ^ 64

theorem delimits_sessionStack : DelimitsOk SessionFits encodeSessionStack := by
  intro s t b b' r r' hs ht hb hb' heq
  obtain ⟨n, hn, hb⟩ := bind_eq_ok.mp hb
  obtain ⟨frames, hframes, hb⟩ := bind_eq_ok.mp hb
  obtain ⟨n', hn', hb'⟩ := bind_eq_ok.mp hb'
  obtain ⟨frames', hframes', hb'⟩ := bind_eq_ok.mp hb'
  obtain ⟨rfl, hlength⟩ := checkedLenU32_eq_ok hn
  obtain ⟨rfl, hlength'⟩ := checkedLenU32_eq_ok hn'
  obtain rfl := Except.ok.inj hb
  obtain rfl := Except.ok.inj hb'
  simp only [List.append_assoc] at heq
  obtain ⟨hid, heq⟩ := delimits_uuid _ _ _ _ hs.sessionId ht.sessionId heq
  obtain ⟨hscope, heq⟩ := delimits_option lawful_sessionScopeState.delimits _ _ _ _ hs.scope ht.scope heq
  obtain ⟨hactive, heq⟩ := delimits_option lawful_sessionWorkspaceKind.delimits _ _ _ _
    (fun _ _ => trivial) (fun _ _ => trivial) heq
  obtain ⟨hcount, heq⟩ := delimits_u32 _ _ _ _ hlength hlength' heq
  obtain ⟨hstack, heq⟩ := delimits_jsonItems _ _ _ _ _ _ hcount hs.workspaceStack ht.workspaceStack
    hframes hframes' heq
  obtain ⟨htrace, heq⟩ := delimits_u64 _ _ _ _ hs.traceSequence ht.traceSequence heq
  refine ⟨?_, heq⟩
  cases s
  cases t
  simp only [SessionStackState.mk.injEq]
  exact ⟨hid, hscope, hactive, hstack, htrace⟩

theorem delimits_jsonOption : DelimitsOk (fun o => ∀ v ∈ o, JsonFits v) encodeJsonOption := by
  intro o o' b b' r r' ho ho' hb hb' heq
  cases o with
  | none =>
    obtain rfl := Except.ok.inj hb
    cases o' with
    | none =>
      obtain rfl := Except.ok.inj hb'
      exact ⟨rfl, List.append_cancel_left heq⟩
    | some w =>
      obtain ⟨bw, hbw, hb'⟩ := bind_eq_ok.mp hb'
      obtain rfl := Except.ok.inj hb'
      rw [List.append_assoc] at heq
      cases (delimits_u8 0 1 _ _ (by decide) (by decide) heq).1
  | some v =>
    obtain ⟨bv, hbv, hb⟩ := bind_eq_ok.mp hb
    obtain rfl := Except.ok.inj hb
    rw [List.append_assoc] at heq
    cases o' with
    | none =>
      obtain rfl := Except.ok.inj hb'
      cases (delimits_u8 1 0 _ _ (by decide) (by decide) heq).1
    | some w =>
      obtain ⟨bw, hbw, hb'⟩ := bind_eq_ok.mp hb'
      obtain rfl := Except.ok.inj hb'
      rw [List.append_assoc] at heq
      have hrest := (delimits_u8 1 1 _ _ (by decide) (by decide) heq).2
      obtain ⟨hvw, hend⟩ := delimits_json v w _ _ _ _ (ho v rfl) (ho' w rfl) hbv hbw hrest
      exact ⟨by rw [hvw], hend⟩

/-- The fields of an instance are in the range of their machine types; the doubles are so also in the
document its payload text denotes. -/
structure InstanceFits (H : Host) (inst : ProcessInstance) : Prop where
  instanceId : UuidFits inst.instanceId
  tenantId : StrFits inst.tenantId
  processKey : StrFits inst.processKey
  bytecodeVersion : DigestFits inst.bytecodeVersion
  domainPayload : ∀ v, H.jsonOfText inst.domainPayload = .ok v → JsonFits v
  domainPayloadHash : DigestFits inst.domainPayloadHash
  sessionStack : SessionFits inst.sessionStack
  flags : inst.flags.toList.length < 2 ^ 32 ∧
    ∀ entry ∈ inst.flags.toList, entry.1 < 2 ^ 32 ∧ ValueFits entry.2
  counters : inst.counters.toList.length < 2 ^ 32 ∧
    ∀ entry ∈ inst.counters.toList, entry.1 < 2 ^ 32 ∧ entry.2 < 2 ^ 32
  joinExpected : inst.joinExpected.toList.length < 2 ^ 32 ∧
    ∀ entry ∈ inst.joinExpected.toList, entry.1 < 2 ^ 32 ∧ entry.2 < 2 ^ 16
  state : StateFits inst.state
  correlationId : StrFits inst.correlationId
  entryId : UuidFits inst.entryId
  runbookId : UuidFits inst.runbookId
  createdAt : TimestampFits inst.createdAt
  quarantineState : ∀ s ∈ inst.quarantineState, StrFits s
  planHash : ∀ digest ∈ inst.planHash, DigestFits digest
  currentNodeId : ∀ s ∈ inst.currentNodeId, StrFits s
  placeholderValues : ∀ v ∈ inst.placeholderValues, JsonFits v

/-- Two instances that differ at most in the integrity hash and in the text of the payload, whose
texts denote one document. -/
def SameInstance (H : Host) (inst inst' : ProcessInstance) : Prop :=
  H.jsonOfText inst.domainPayload = H.jsonOfText inst'.domainPayload ∧
  { inst with integrityHash := inst'.integrityHash, domainPayload := inst'.domainPayload } = inst'

theorem sameInstance_of_bytes {H : Host} {inst inst' : ProcessInstance} {b : Bytes}
    (hfits : InstanceFits H inst) (hfits' : InstanceFits H inst')
    (hb : inst.tryCanonicalHashBytes H = .ok b) (hb' : inst'.tryCanonicalHashBytes H = .ok b) :
    SameInstance H inst inst' := by
  obtain ⟨v, hv, hb⟩ := bind_eq_ok.mp hb
  obtain ⟨payload, hpayload, hb⟩ := bind_eq_ok.mp hb
  obtain ⟨session, hsession, hb⟩ := bind_eq_ok.mp hb
  obtain ⟨placeholders, hplaceholders, hb⟩ := bind_eq_ok.mp hb
  obtain ⟨v', hv', hb'⟩ := bind_eq_ok.mp hb'
  obtain ⟨payload', hpayload', hb'⟩ := bind_eq_ok.mp hb'
  obtain ⟨session', hsession', hb'⟩ := bind_eq_ok.mp hb'
  obtain ⟨placeholders', hplaceholders', hb'⟩ := bind_eq_ok.mp hb'
  have hdoc := mapError_eq_ok.mp hv
  have hdoc' := mapError_eq_ok.mp hv'
  have heq := (Except.ok.inj hb).trans (Except.ok.inj hb').symm
  obtain ⟨h₁, heq⟩ := delimits_uuid _ _ _ _ hfits.instanceId hfits'.instanceId heq
  obtain ⟨h₂, heq⟩ := delimits_str _ _ _ _ hfits.tenantId hfits'.tenantId heq
  obtain ⟨h₃, heq⟩ := delimits_str _ _ _ _ hfits.processKey hfits'.processKey heq
  obtain ⟨h₄, heq⟩ := delimits_digest _ _ _ _ hfits.bytecodeVersion hfits'.bytecodeVersion heq
  obtain ⟨h₅, heq⟩ := delimits_json _ _ _ _ _ _ (hfits.domainPayload v hdoc)
    (hfits'.domainPayload v' hdoc') hpayload hpayload' heq
  obtain ⟨h₆, heq⟩ := delimits_digest _ _ _ _ hfits.domainPayloadHash hfits'.domainPayloadHash heq
  obtain ⟨h₇, heq⟩ := delimits_sessionStack _ _ _ _ _ _ hfits.sessionStack hfits'.sessionStack hsession
    hsession' heq
  obtain ⟨h₈, heq⟩ := delimits_map delimits_flagEntries _ _ _ _ hfits.flags hfits'.flags heq
  obtain ⟨h₉, heq⟩ := delimits_map (delimits_seq (delimits_u32.append delimits_u32)) _ _ _ _ hfits.counters
    hfits'.counters heq
  obtain ⟨h₁₀, heq⟩ := delimits_map delimits_joinEntries _ _ _ _ hfits.joinExpected hfits'.joinExpected heq
  obtain ⟨h₁₁, heq⟩ := lawful_processState.delimits _ _ _ _ hfits.state hfits'.state heq
  obtain ⟨h₁₂, heq⟩ := delimits_str _ _ _ _ hfits.correlationId hfits'.correlationId heq
  obtain ⟨h₁₃, heq⟩ := delimits_uuid _ _ _ _ hfits.entryId hfits'.entryId heq
  obtain ⟨h₁₄, heq⟩ := delimits_uuid _ _ _ _ hfits.runbookId hfits'.runbookId heq
  obtain ⟨h₁₅, heq⟩ := delimits_time _ _ _ _ hfits.createdAt hfits'.createdAt heq
  obtain ⟨h₁₆, heq⟩ := delimits_option delimits_str _ _ _ _ hfits.quarantineState
    hfits'.quarantineState heq
  obtain ⟨h₁₇, heq⟩ := delimits_option delimits_digest _ _ _ _ hfits.planHash hfits'.planHash heq
  obtain ⟨h₁₈, heq⟩ := delimits_option delimits_str _ _ _ _ hfits.currentNodeId hfits'.currentNodeId heq
  rw [← List.append_nil placeholders, ← List.append_nil placeholders'] at heq
  have h₁₉ := (delimits_jsonOption _ _ _ _ _ _ hfits.placeholderValues hfits'.placeholderValues
    hplaceholders hplaceholders' heq).1
  refine ⟨by rw [hdoc, hdoc', h₅], ?_⟩
  cases inst
  cases inst'
  simp only [ProcessInstance.mk.injEq]
  exact ⟨h₁, h₂, h₃, h₄, trivial, h₆, h₇, h₈, h₉, h₁₀, h₁₁, h₁₂, h₁₃, h₁₄, h₁₅, trivial, h₁₆, h₁₇,
    h₁₈, h₁₉⟩

/-- All fields that are written are in the range of their machine types, and all lengths fit `u32`. -/
structure PersistedFits (H : Host) (state : PersistedSnapshotState) : Prop where
  inst : InstanceFits H state.inst
  instanceBytes : ∀ b, state.inst.tryCanonicalHashBytes H = .ok b → b.length < 2 ^ 32
  joinCounts : state.joinCounts.toList.length < 2 ^ 32 ∧
    ∀ entry ∈ state.joinCounts.toList, entry.1 < 2 ^ 32 ∧ entry.2 < 2 ^ 16
  incidents : state.incidents.toList.length < 2 ^ 32 ∧
    ∀ entry ∈ state.incidents.toList, UuidFits entry.1 ∧ IncidentFits entry.2
  fibers : state.fibers.toList.length < 2 ^ 32 ∧
    ∀ entry ∈ state.fibers.toList, UuidFits entry.1 ∧ FiberFits entry.2

/-- Two states that agree in the instance, the joins, the incidents and the fibres. -/
structure SameWritten (H : Host) (s t : PersistedSnapshotState) : Prop where
  inst : SameInstance H s.inst t.inst
  joinCounts : s.joinCounts = t.joinCounts
  incidents : s.incidents = t.incidents
  fibers : s.fibers = t.fibers

theorem sameWritten_of_bytes {H : Host} {s t : PersistedSnapshotState} {b b' r r' : Bytes}
    (hs : PersistedFits H s) (ht : PersistedFits H t) (hb : s.tryCanonicalHashBytes H = .ok b)
    (hb' : t.tryCanonicalHashBytes H = .ok b') (heq : b ++ r = b' ++ r') :
    SameWritten H s t ∧ r = r' := by
  obtain ⟨bytes, hbytes, hb⟩ := bind_eq_ok.mp hb
  obtain ⟨bytes', hbytes', hb'⟩ := bind_eq_ok.mp hb'
  have hinst := mapError_eq_ok.mp hbytes
  have hinst' := mapError_eq_ok.mp hbytes'
  obtain rfl := Except.ok.inj hb
  obtain rfl := Except.ok.inj hb'
  simp only [List.append_assoc] at heq
  obtain ⟨hsame, heq⟩ := lawful_bytes.delimits _ _ _ _ (hs.instanceBytes bytes hinst)
    (ht.instanceBytes bytes' hinst') heq
  obtain ⟨hjoins, heq⟩ := delimits_map delimits_joinEntries _ _ _ _ hs.joinCounts ht.joinCounts heq
  obtain ⟨hincidents, heq⟩ := delimits_map (delimits_seq (delimits_uuid.append lawful_incident.delimits))
    _ _ _ _ hs.incidents ht.incidents heq
  obtain ⟨hfibers, heq⟩ := delimits_map (delimits_seq (delimits_uuid.append delimits_fiber)) _ _ _ _
    hs.fibers ht.fibers heq
  rw [← hsame] at hinst'
  exact ⟨⟨sameInstance_of_bytes hs.inst ht.inst hinst hinst', hjoins, hincidents, hfibers⟩, heq⟩

structure EnvelopeFits (H : Host) (envelope : SnapshotEnvelope) : Prop where
  state : PersistedFits H envelope.state
  concurrencyTable : TableFits envelope.state.concurrencyTable
  pendingEffects : envelope.state.pendingEffects.toList.length < 2 ^ 32 ∧
    ∀ id ∈ envelope.state.pendingEffects.toList, UuidFits id
  revision : envelope.revision < 2 ^ 64
  artifactHash : DigestFits envelope.artifactHash

/-- Two envelopes that agree in everything but the ABI of the artifact, the integrity hash and the
text of the payload. -/
structure SameDurable (H : Host) (e f : SnapshotEnvelope) : Prop where
  written : SameWritten H e.state f.state
  concurrencyTable : e.state.concurrencyTable = f.state.concurrencyTable
  pendingEffects : e.state.pendingEffects = f.state.pendingEffects
  revision : e.revision = f.revision
  artifactHash : e.artifactHash = f.artifactHash

theorem sameDurable_of_input {H : Host} {e f : SnapshotEnvelope} {b : Bytes}
    (he : EnvelopeFits H e) (hf : EnvelopeFits H f) (hb : e.hashInput H = .ok b)
    (hb' : f.hashInput H = .ok b) : SameDurable H e f := by
  obtain ⟨bytes, hbytes, hb⟩ := bind_eq_ok.mp hb
  obtain ⟨bytes', hbytes', hb'⟩ := bind_eq_ok.mp hb'
  have heq := (Except.ok.inj hb).trans (Except.ok.inj hb').symm
  obtain ⟨hwritten, heq⟩ := sameWritten_of_bytes he.state hf.state hbytes hbytes' heq
  obtain ⟨htable, heq⟩ := delimits_table _ _ _ _ he.concurrencyTable hf.concurrencyTable heq
  obtain ⟨heffects, heq⟩ := delimits_effectIds _ _ _ _ he.pendingEffects hf.pendingEffects heq
  obtain ⟨hrevision, heq⟩ := delimits_u64 _ _ _ _ he.revision hf.revision heq
  have hartifact := lawful_digest.injective he.artifactHash hf.artifactHash trivial trivial heq
  exact ⟨hwritten, htable, heffects, hrevision, hartifact⟩

/-- Equal bytes of two states mean equal fibres, joins, incidents and instances; equal state hashes,
where the hash does not collide, mean equal concurrency tables, pending effects, revisions and artifact
hashes as well. Only the integrity hash and the text of the payload are free. -/
theorem equal_hash_same_durable (H : Host) (blake3 : Bytes → Digest) (e f : SnapshotEnvelope) :
    (PersistedFits H e.state → PersistedFits H f.state → ∀ b,
      e.state.tryCanonicalHashBytes H = .ok b → f.state.tryCanonicalHashBytes H = .ok b →
      SameWritten H e.state f.state) ∧
    (EnvelopeFits H e → EnvelopeFits H f →
      (∀ b b', e.hashInput H = .ok b → f.hashInput H = .ok b' → blake3 b = blake3 b' → b = b') →
      ∀ digest, e.stateHash H blake3 = .ok digest → f.stateHash H blake3 = .ok digest →
      SameDurable H e f) := by
  constructor
  · intro he hf b hb hb'
    exact (sameWritten_of_bytes he hf hb hb' (rfl : b ++ [] = b ++ [])).1
  · intro he hf hcollision digest hdigest hdigest'
    obtain ⟨b, hb, hdigest⟩ := bind_eq_ok.mp hdigest
    obtain ⟨b', hb', hdigest'⟩ := bind_eq_ok.mp hdigest'
    have hsame : blake3 b = blake3 b' := (Except.ok.inj hdigest).trans (Except.ok.inj hdigest').symm
    obtain rfl := hcollision b b' hb hb' hsame
    exact sameDurable_of_input he hf hb hb'

end States

end BpmnLite.Canonical

namespace BpmnLite.Reference

open Canonical

def persisted (payload : String) (table : ConcurrencyTable) : PersistedSnapshotState where
  inst := { inst with domainPayload := payload }
  fibers := (∅ : BTreeMap Uuid Fiber).insert 1 (Fiber.new 1 0)
  joinCounts := ∅
  incidents := ∅
  concurrencyTable := table
  pendingEffects := ∅

def persistedEnvelope (artifactAbi : ℕ) (payload : String) : SnapshotEnvelope where
  artifactAbi
  artifactHash := 0
  revision := 1
  state := persisted payload ∅

theorem inst_fits (payload : String) : InstanceFits host { inst with domainPayload := payload } := by
  have huuid : UuidFits 0 := by simp [UuidFits]
  have hdigest : DigestFits 0 := by simp [DigestFits]
  have htext : StrFits "" := by simp [StrFits]
  have htime : TimestampFits 0 := by simp [TimestampFits]
  refine ⟨huuid, htext, htext, hdigest, ?_, hdigest, ?_, ?_, ?_, ?_, trivial, htext, huuid, huuid, htime,
    ?_, ?_, ?_, ?_⟩
  · intro v hv
    obtain rfl := Except.ok.inj hv
    simp [JsonFits, FieldsFit]
  · exact ⟨huuid, by simp [inst], trivial, by simp [inst]⟩
  all_goals simp [inst]

theorem persistedEnvelope_fits (artifactAbi : ℕ) (payload : String) :
    EnvelopeFits host (persistedEnvelope artifactAbi payload) := by
  have hbytes : ∀ b, inst.tryCanonicalHashBytes host = .ok b → b.length < 2 ^ 32 := by
    intro b hb
    have hlength : (inst.tryCanonicalHashBytes host).toOption.all (·.length < 2 ^ 32) = true := by
      decide +kernel
    rw [hb] at hlength
    simpa [Except.toOption] using hlength
  have hid : UuidFits 1 := by simp [UuidFits]
  have hfew : ((∅ : BTreeMap Uuid Fiber).insert 1 (Fiber.new 1 0)).toList.length < 2 ^ 32 := by
    decide +kernel
  have hvalues : (∅ : ConcurrencyTable).values = [] := by decide +kernel
  have hfiber : FiberFits (Fiber.new 1 0) :=
    ⟨hid, by simp [AddrFits, Fiber.new], by simp [Fiber.new], trivial, by simp [Fiber.new],
      by simp [Fiber.new]⟩
  refine ⟨⟨inst_fits payload, hbytes, ?_, ?_, ⟨hfew, ?_⟩⟩, ⟨?_, ?_, ?_⟩, ?_,
    by simp [persistedEnvelope], by simp [DigestFits, persistedEnvelope]⟩
  · simp [persistedEnvelope, persisted]
  · simp [persistedEnvelope, persisted]
  · intro entry hentry
    have hfound := Std.ExtTreeMap.mem_toList_iff_getElem?_eq_some.mp hentry
    simp only [persistedEnvelope, persisted, Maps.getElem?_insert] at hfound
    split at hfound
    · rename_i hkey
      obtain hvalue := Option.some.inj hfound
      rw [← hkey, ← hvalue]
      exact ⟨hid, hfiber⟩
    · simp at hfound
  · simp [persistedEnvelope, persisted, Format.tableEntries, hvalues]
  · simp [persistedEnvelope, persisted, Format.tableEntries, hvalues]
  · simp [persistedEnvelope, persisted, Maps.Keyed]
  · simp [persistedEnvelope, persisted]

/-- Two payload texts of one document, and two ABIs, under one hash. -/
theorem respelled_payload_same_durable :
    (persistedEnvelope 1 "\x7b\x7d").stateHash host Codec.leValue =
      (persistedEnvelope 2 "\x7b \x7d").stateHash host Codec.leValue ∧
    SameDurable host (persistedEnvelope 1 "\x7b\x7d") (persistedEnvelope 2 "\x7b \x7d") := by
  refine ⟨rfl, ?_⟩
  have hcollision : ∀ b b', (persistedEnvelope 1 "\x7b\x7d").hashInput host = .ok b →
      (persistedEnvelope 2 "\x7b \x7d").hashInput host = .ok b' → Codec.leValue b = Codec.leValue b' →
      b = b' := by
    intro b b' hb hb' _
    exact Except.ok.inj (hb.symm.trans hb')
  have hhash : ((persistedEnvelope 1 "\x7b\x7d").stateHash host Codec.leValue).isOk = true := by
    decide +kernel
  cases hdigest : (persistedEnvelope 1 "\x7b\x7d").stateHash host Codec.leValue with
  | error e =>
    rw [hdigest] at hhash
    cases hhash
  | ok digest =>
    exact (equal_hash_same_durable host Codec.leValue _ _).2 (persistedEnvelope_fits 1 "\x7b\x7d")
      (persistedEnvelope_fits 2 "\x7b \x7d") hcollision digest hdigest hdigest

def raceTable : ConcurrencyTable := (∅ : ConcurrencyTable).insert 1 (ConcurrencyRecord.new 1 .race)

/-- The bytes of a state say nothing of its concurrency table. -/
theorem table_not_in_bytes :
    ((persisted "\x7b\x7d" ∅).tryCanonicalHashBytes host).isOk = true ∧
    (persisted "\x7b\x7d" ∅).tryCanonicalHashBytes host =
      (persisted "\x7b\x7d" raceTable).tryCanonicalHashBytes host ∧
    (persisted "\x7b\x7d" ∅).concurrencyTable ≠ (persisted "\x7b\x7d" raceTable).concurrencyTable := by
  refine ⟨by decide +kernel, rfl, fun heq => ?_⟩
  have hkeys : (∅ : ConcurrencyTable).keys = [] := by decide +kernel
  have hkeys' : raceTable.keys = [1] := by decide +kernel
  have hsame : (∅ : ConcurrencyTable).keys = raceTable.keys := congrArg Std.ExtTreeMap.keys heq
  rw [hkeys, hkeys'] at hsame
  cases hsame

end BpmnLite.Reference
