import BpmnLite.Canonical.Encode
import BpmnLite.Maps

/-!
# Primitives and values of the canonical encoding

Each reader of the format fits its writer: numbers in the range of their machine type, strings and
sequences whose length fits `u32` are read back, and what a reader returns is what was written. A
value with arrays is read back exactly when it passes `checkArrayLimits`, and refused otherwise.
-/

namespace BpmnLite.Canonical

open Codec

variable {u depth : ℕ} {items : List Value} {array : CanonicalReader Value}

section Primitives

variable {α β : Type}

abbrev Always : α → Prop := fun _ => True

theorem decodes_take (b : Bytes) : Decodes (take b.length) b b := by
  apply decodes_of
  intro rest pos
  have hlong : ¬ (b ++ rest).length < b.length := by
    rw [List.length_append]
    omega
  simp only [take, if_neg hlong, List.take_left, List.drop_left]

theorem sound_take (n : ℕ) : Sound (fun b => b.length = n) id (take n) := by
  intro c b c' hread
  unfold take at hread
  split at hread
  · cases hread
  · rename_i hlong
    obtain ⟨rfl, rfl⟩ := EStateM.Result.ok.inj hread
    refine ⟨?_, (List.take_append_drop n c.rest).symm⟩
    change (c.rest.take n).length = n
    rw [List.length_take]
    omega

theorem lawful_take (n : ℕ) : Lawful (fun b => b.length = n) Always id (take n) := by
  refine ⟨fun b hb => ?_, fun c b c' hread => ?_⟩
  · subst hb
    exact decodes_take b
  · obtain ⟨hlength, hbytes⟩ := sound_take n c b c' hread
    exact ⟨⟨hlength, trivial⟩, hbytes⟩

theorem lawful_le (w : ℕ) :
    Lawful (· < 256 ^ w) Always (le w) (do return leValue (← take w)) := by
  refine ⟨fun n hn => ?_, Consumes.sound ?_⟩
  · have htake := (lawful_take w).answers (le w n) (length_le w n)
    have hpack := htake.pack leValue
    rw [leValue_le hn] at hpack
    exact hpack
  · refine (lawful_take w).consumes_last fun b hlength _ => ?_
    subst hlength
    exact ⟨⟨leValue_lt b, trivial⟩, (le_leValue b).symm⟩

theorem lawful_u8 : Lawful (· < 2 ^ 8) Always writeU8 readU8 := lawful_le 1

theorem answers_tag (tag : Fin 256) : Decodes readU8 (writeU8 tag) (tag : ℕ) :=
  lawful_u8.answers tag tag.isLt

theorem lawful_u16 : Lawful (· < 2 ^ 16) Always writeU16 readU16 := lawful_le 2

theorem lawful_u32 : Lawful (· < 2 ^ 32) Always writeU32 readU32 := lawful_le 4

theorem lawful_u64 : Lawful (· < 2 ^ 64) Always writeU64 readU64 := lawful_le 8

theorem asI64_asU64 {v : ℤ} (hlow : -2 ^ 63 ≤ v) (hhigh : v < 2 ^ 63) : asI64 (asU64 v) = v := by
  unfold asI64 asU64
  split <;> omega

theorem asU64_lt (v : ℤ) : asU64 v < 2 ^ 64 := by
  unfold asU64
  omega

theorem asU64_asI64 (h : u < 2 ^ 64) :
    asU64 (asI64 u) = u ∧ -2 ^ 63 ≤ asI64 u ∧ asI64 u < 2 ^ 63 := by
  unfold asI64 asU64
  split <;> omega

theorem lawful_i64 : Lawful (fun v => -2 ^ 63 ≤ v ∧ v < 2 ^ 63) Always
    (fun v => writeU64 (asU64 v)) (do return asI64 (← readU64)) := by
  refine ⟨fun v hv => ?_, Consumes.sound ?_⟩
  · have hpack := (lawful_u64.answers (asU64 v) (asU64_lt v)).pack asI64
    rw [asI64_asU64 hv.1 hv.2] at hpack
    exact hpack
  · refine lawful_u64.consumes_last fun u hu _ => ?_
    obtain ⟨hback, hrange⟩ := asU64_asI64 hu
    exact ⟨⟨hrange, trivial⟩, by rw [hback]⟩

theorem lawful_bytesFixed (w : ℕ) :
    Lawful (· < 256 ^ w) Always (writeBytesFixed w) (readBytesFixed w) := by
  refine ⟨fun n hn => ?_, Consumes.sound ?_⟩
  · have hlength : (writeBytesFixed w n).length = w := by simp [writeBytesFixed]
    have hpack := ((lawful_take w).answers _ hlength).pack fun b => leValue b.reverse
    have hback : leValue (writeBytesFixed w n).reverse = n := by
      rw [writeBytesFixed, List.reverse_reverse, leValue_le hn]
    rw [hback] at hpack
    exact hpack
  · refine (lawful_take w).consumes_last fun b hlength _ => ?_
    have hlength' : b.reverse.length = w := by rw [List.length_reverse, hlength]
    have hback : writeBytesFixed w (leValue b.reverse) = b := by
      rw [writeBytesFixed, ← hlength', le_leValue, List.reverse_reverse]
    exact ⟨⟨hlength' ▸ leValue_lt _, trivial⟩, hback.symm⟩

theorem lawful_bool : Lawful Always Always writeBool readBool := by
  refine ⟨fun b _ => ?_, Consumes.sound ?_⟩
  · cases b with
    | false => exact (answers_tag 0).last (decodes_pure false)
    | true => exact (answers_tag 1).last (decodes_pure true)
  · refine lawful_u8.consumes fun tag _ _ => ?_
    split
    iterate 2 exact consumes_pure ⟨⟨trivial, trivial⟩, rfl⟩
    exact consumes_throw _

theorem lawful_bytes : Lawful (fun b => b.length < 2 ^ 32) Always writeBytes readBytes := by
  refine ⟨fun b hb => ?_, Consumes.sound ?_⟩
  · exact (lawful_u32.answers b.length hb).after (decodes_take b)
  · refine lawful_u32.consumes fun len hlen _ => (sound_take len).consumes ?_
    rintro b rfl
    exact ⟨⟨hlen, trivial⟩, rfl⟩

theorem fromUTF8?_toUTF8 (s : String) : String.fromUTF8? s.toUTF8 = some s := by
  unfold String.fromUTF8?
  rw [String.toUTF8_eq_toByteArray, dif_pos s.isValidUTF8]
  rfl

theorem toUTF8_of_fromUTF8? {b : ByteArray} {s : String} (h : String.fromUTF8? b = some s) :
    s.toUTF8 = b := by
  unfold String.fromUTF8? at h
  split at h
  · obtain rfl := Option.some.inj h
    rfl
  · cases h

/-- A string whose bytes are counted by a `u32`. -/
def StrFits (s : String) : Prop := s.toUTF8.data.toList.length < 2 ^ 32

theorem lawful_str : Lawful StrFits Always writeStr readStr := by
  refine ⟨fun s hs => ?_, Consumes.sound ?_⟩
  · have hread := lawful_bytes.answers s.toUTF8.data.toList hs
    have hback : String.fromUTF8? ⟨s.toUTF8.data.toList.toArray⟩ = some s := fromUTF8?_toUTF8 s
    refine hread.last ?_
    simp only [fromUtf8, hback]
    exact decodes_pure s
  · refine lawful_bytes.consumes fun b hb _ => ?_
    cases hs : String.fromUTF8? ⟨b.toArray⟩ with
    | none =>
      simp only [fromUtf8, hs]
      exact consumes_throw _
    | some s =>
      have hback : s.toUTF8.data.toList = b := by rw [toUTF8_of_fromUTF8? hs]
      simp only [fromUtf8, hs]
      exact consumes_pure ⟨⟨by rwa [StrFits, hback], trivial⟩, by rw [writeStr, hback, List.append_nil]⟩

variable {P good : α → Prop} {enc : α → Bytes} {d : CanonicalReader α}

theorem lawful_option (h : Lawful P good enc d) :
    Lawful (fun o => ∀ x ∈ o, P x) (fun o => ∀ x ∈ o, good x) (writeOption · enc) (readOption d) := by
  refine ⟨fun o ho => ?_, Consumes.sound ?_⟩
  · cases o with
    | none =>
      refine (answers_tag 0).last ?_
      exact (decodes_pure none).congr (by simp)
    | some x =>
      have hx := (h.answers x (ho x rfl)).pack some
      refine (answers_tag 1).after ?_
      exact hx.congr (by simp)
  · refine lawful_u8.consumes fun tag _ _ => ?_
    split
    · exact consumes_pure ⟨⟨by simp, by simp⟩, rfl⟩
    · exact h.consumes_last fun x hP hgood => ⟨⟨by simpa using hP, by simpa using hgood⟩, rfl⟩
    · exact consumes_throw _

theorem lawful_seq (h : Lawful P good enc d) :
    Lawful (fun xs => xs.length < 2 ^ 32 ∧ ∀ x ∈ xs, P x) (fun xs => ∀ x ∈ xs, good x)
      (writeSeq · enc) (readSeq d) := by
  refine ⟨fun xs hxs => ?_, Consumes.sound ?_⟩
  · have hitems := answers_items xs fun x hx => h.answers x (hxs.2 x hx)
    exact (lawful_u32.answers xs.length hxs.1).after hitems
  · refine lawful_u32.consumes fun len hlen _ => (sound_items h.sound len).consumes ?_
    rintro xs ⟨rfl, hall⟩
    exact ⟨⟨⟨hlen, fun x hx => (hall x hx).1⟩, fun x hx => (hall x hx).2⟩, rfl⟩

theorem lawful_pair {P' good' : β → Prop} {enc' : β → Bytes} {d' : CanonicalReader β}
    (h : Lawful P good enc d) (h' : Lawful P' good' enc' d') :
    Lawful (fun x => P x.1 ∧ P' x.2) (fun x => good x.1 ∧ good' x.2)
      (fun x => enc x.1 ++ enc' x.2) (do let x ← d; let y ← d'; return (x, y)) := by
  refine ⟨fun x hx => ?_, Consumes.sound ?_⟩
  · exact (h.answers x.1 hx.1).bind ((h'.answers x.2 hx.2).pack (x.1, ·))
  · refine h.consumes fun a hP hgood => ?_
    exact h'.consumes_last fun b hP' hgood' => ⟨⟨⟨hP, hP'⟩, hgood, hgood'⟩, rfl⟩

end Primitives

section Values

mutual

/-- The numbers and lengths of a value are those its machine types hold. -/
def ValueFits : Value → Prop
  | .bool _ => True
  | .i64 v => -2 ^ 63 ≤ v ∧ v < 2 ^ 63
  | .str id | .ref id => id < 2 ^ 32
  | .array items => items.length < 2 ^ 32 ∧ ValuesFit items

def ValuesFit : List Value → Prop
  | [] => True
  | item :: items => ValueFits item ∧ ValuesFit items

end

theorem valuesFit_iff : ValuesFit items ↔ ∀ v ∈ items, ValueFits v := by
  induction items with
  | nil => simp [ValuesFit]
  | cons item items ih => simp [ValuesFit, ih]

theorem encodeValues_eq (items : List Value) : encodeValues items = items.flatMap encodeValue := by
  induction items with
  | nil => rfl
  | cons item items ih => rw [encodeValues, ih, List.flatMap_cons]

/-- The limits hold for a value below `depth` arrays. -/
def Within (depth : ℕ) (v : Value) : Prop := v.checkArrayLimitsAtDepth depth = .ok ()

theorem within_items :
    Value.checkArrayLimitsItems items depth = .ok () ↔ ∀ v ∈ items, Within depth v := by
  induction items with
  | nil => simp [Value.checkArrayLimitsItems]
  | cons item items ih =>
    rw [Value.checkArrayLimitsItems, Maps.bind_eq_ok, List.forall_mem_cons, ← ih]
    constructor
    · rintro ⟨⟨⟩, hitem, hitems⟩
      exact ⟨hitem, hitems⟩
    · rintro ⟨hitem, hitems⟩
      exact ⟨(), hitem, hitems⟩

theorem within_array :
    Within depth (.array items) ↔
      depth < maxValueArrayDepth ∧ items.length ≤ maxValueArrayLen ∧
        ∀ v ∈ items, Within (depth + 1) v := by
  unfold Within
  rw [Value.checkArrayLimitsAtDepth]
  split
  · simp
    omega
  · split
    · simp
      omega
    · rw [within_items]
      constructor
      · exact fun h => ⟨by omega, by omega, h⟩
      · exact fun h => h.2.2

theorem answers_tagged {p : Prop}
    (h : Answers p array (writeU32 items.length ++ encodeValues items) (.array items)) :
    Answers p (decodeTagged array) (encodeValue (.array items)) (.array items) := by
  rw [encodeValue]
  exact (answers_tag 4).after h

theorem answers_scalar (array : CanonicalReader Value) (depth : ℕ) {v : Value} (hfits : ValueFits v)
    (hv : ∀ items, v ≠ .array items) :
    Answers (Within depth v) (decodeTagged array) (encodeValue v) v := by
  have hwithin : Within depth v := by
    cases v with
    | array items => exact absurd rfl (hv items)
    | _ => simp [Within, Value.checkArrayLimitsAtDepth]
  have hreads : Decodes (decodeTagged array) (encodeValue v) v := by
    cases v with
    | bool b =>
      have hb := (lawful_bool.answers b trivial).pack Value.bool
      exact (answers_tag 0).after hb
    | i64 n =>
      have hn := (lawful_u64.answers (asU64 n) (asU64_lt n)).pack fun u => Value.i64 (asI64 u)
      rw [ValueFits] at hfits
      simp only [asI64_asU64 hfits.1 hfits.2] at hn
      exact (answers_tag 1).after hn
    | str id =>
      rw [ValueFits] at hfits
      exact (answers_tag 2).after ((lawful_u32.answers id hfits).pack Value.str)
    | ref id =>
      rw [ValueFits] at hfits
      exact (answers_tag 3).after ((lawful_u32.answers id hfits).pack Value.ref)
    | array items => exact absurd rfl (hv items)
  exact hreads.congr (by simp [hwithin])

theorem answers_value {left : ℕ} (hdepth : depth + left = maxValueArrayDepth) {v : Value}
    (hfits : ValueFits v) : Answers (Within depth v) (decodeValue left) (encodeValue v) v := by
  induction left generalizing depth v with
  | zero =>
    cases v with
    | array items =>
      refine answers_tagged (answers_throw _ fun hwithin => ?_)
      have hlt := (within_array.mp hwithin).1
      omega
    | _ => exact answers_scalar _ depth hfits (by simp)
  | succ left ih =>
    cases v with
    | array items =>
      rw [ValueFits, valuesFit_iff] at hfits
      refine answers_tagged ?_
      refine (lawful_u32.answers items.length hfits.1).after ?_
      by_cases hlong : maxValueArrayLen < items.length
      · have hbeyond : ¬ Within depth (.array items) := fun hwithin => by
          have hle := (within_array.mp hwithin).2.1
          omega
        simp only [if_pos hlong]
        exact answers_throw _ hbeyond
      · simp only [if_neg hlong]
        rw [encodeValues_eq]
        have hdeeper : depth + 1 + left = maxValueArrayDepth := by omega
        have hitems := answers_items items fun v hv => ih hdeeper (hfits.2 v hv)
        refine (hitems.pack Value.array).congr ?_
        rw [within_array]
        constructor
        · exact fun h => ⟨by omega, by omega, h⟩
        · exact fun h => h.2.2
    | _ => exact answers_scalar _ depth hfits (by simp)

theorem consumes_tagged
    (harray : Consumes (fun v b => (ValueFits v ∧ Within depth v) ∧
      writeU8 4 ++ b = encodeValue v) array) :
    Consumes (fun v b => (ValueFits v ∧ Within depth v) ∧ b = encodeValue v)
      (decodeTagged array) := by
  refine lawful_u8.consumes fun tag _ _ => ?_
  split
  · exact lawful_bool.consumes_last fun _ _ _ => ⟨⟨trivial, rfl⟩, rfl⟩
  · refine lawful_u64.consumes_last fun u hu _ => ?_
    obtain ⟨hback, hrange⟩ := asU64_asI64 hu
    exact ⟨⟨hrange, rfl⟩, by rw [encodeValue, hback]⟩
  iterate 2 exact lawful_u32.consumes_last fun _ h _ => ⟨⟨h, rfl⟩, rfl⟩
  · exact harray
  · exact consumes_throw _

theorem sound_value {left : ℕ} (hdepth : depth + left = maxValueArrayDepth) :
    Sound (fun v => ValueFits v ∧ Within depth v) encodeValue (decodeValue left) := by
  induction left generalizing depth with
  | zero => exact (consumes_tagged (consumes_throw _)).sound
  | succ left ih =>
    refine (consumes_tagged (lawful_u32.consumes fun len hlen _ => ?_)).sound
    split
    · exact consumes_throw _
    · have hdeeper : depth + 1 + left = maxValueArrayDepth := by omega
      refine (sound_items (ih hdeeper) len).bind fun items hitems => consumes_pure ?_
      obtain ⟨rfl, hall⟩ := hitems
      rw [ValueFits, valuesFit_iff, within_array, encodeValue, encodeValues_eq, List.append_nil]
      exact ⟨⟨⟨hlen, fun v hv => (hall v hv).1⟩, by omega, by omega, fun v hv => (hall v hv).2⟩, rfl⟩

theorem lawful_value : Lawful ValueFits (fun v => v.checkArrayLimits = .ok ())
    value.canonicalEncode value.canonicalDecode :=
  ⟨fun _ hv => answers_value (Nat.zero_add _) hv, sound_value (Nat.zero_add _)⟩

end Values

end BpmnLite.Canonical
