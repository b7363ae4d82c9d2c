import Mathlib

/-!
# Values, instructions and static tables of the BPMN-Lite machine

The instruction set, the operand values and the binding declarations an executable artifact
carries. Uuids, interned names, digests and addresses are natural numbers; the source's `u32`
and `u64` bounds appear where an operation of the machine checks them. Ordered maps and sets are
the extensional tree maps of the standard library, so iteration is by increasing key as in the
source.
-/

namespace BpmnLite

abbrev BTreeMap (κ : Type) [Ord κ] (ν : Type) := Std.ExtTreeMap κ ν compare
abbrev BTreeSet (κ : Type) [Ord κ] := Std.ExtTreeSet κ compare

abbrev Uuid := ℕ
abbrev Addr := ℕ
abbrev JoinId := ℕ
abbrev WaitId := ℕ
abbrev FlagKey := ℕ
abbrev Digest := ℕ
abbrev Timestamp := ℤ
abbrev RecordId := Uuid
abbrev Handle := RecordId
abbrev EffectId := Uuid
abbrev Bytes := List UInt8

/-- A compact value on the operand stack or in the flags. -/
inductive Value where
  | bool (b : Bool)
  | i64 (n : ℤ)
  | str (id : ℕ)
  | ref (id : ℕ)
  | array (items : List Value)

namespace Value

mutual

def decEq : (a b : Value) → Decidable (a = b)
  | .bool a, .bool b | .i64 a, .i64 b | .str a, .str b | .ref a, .ref b =>
    if h : a = b then isTrue (h ▸ rfl) else isFalse (fun e => h (by injection e))
  | .array a, .array b =>
    match decEqList a b with
    | isTrue h => isTrue (h ▸ rfl)
    | isFalse h => isFalse (fun e => h (by injection e))
  | .bool _, .i64 _ | .bool _, .str _ | .bool _, .ref _ | .bool _, .array _
  | .i64 _, .bool _ | .i64 _, .str _ | .i64 _, .ref _ | .i64 _, .array _
  | .str _, .bool _ | .str _, .i64 _ | .str _, .ref _ | .str _, .array _
  | .ref _, .bool _ | .ref _, .i64 _ | .ref _, .str _ | .ref _, .array _
  | .array _, .bool _ | .array _, .i64 _ | .array _, .str _ | .array _, .ref _ =>
    isFalse (fun e => by injection e)

def decEqList : (as bs : List Value) → Decidable (as = bs)
  | [], [] => isTrue rfl
  | [], _ :: _ | _ :: _, [] => isFalse (fun e => by injection e)
  | a :: as, b :: bs =>
    match decEq a b, decEqList as bs with
    | isTrue h, isTrue h' => isTrue (h ▸ h' ▸ rfl)
    | isFalse h, _ => isFalse (fun e => h (by injection e))
    | _, isFalse h => isFalse (fun e => h (by injection e))

end

instance : DecidableEq Value := decEq

end Value

def maxValueArrayLen : ℕ := 4096
def maxValueArrayDepth : ℕ := 8

inductive ValueLimitError where
  | tooDeep (max : ℕ)
  | tooLong (actual max : ℕ)
  deriving DecidableEq

namespace Value

mutual

def checkArrayLimitsAtDepth : Value → ℕ → Except ValueLimitError Unit
  | .array items, depth =>
    if maxValueArrayDepth ≤ depth then .error (.tooDeep maxValueArrayDepth)
    else if maxValueArrayLen < items.length then
      .error (.tooLong items.length maxValueArrayLen)
    else checkArrayLimitsItems items (depth + 1)
  | .bool _, _ | .i64 _, _ | .str _, _ | .ref _, _ => .ok ()

def checkArrayLimitsItems : List Value → ℕ → Except ValueLimitError Unit
  | [], _ => .ok ()
  | item :: items, depth => do
    checkArrayLimitsAtDepth item depth
    checkArrayLimitsItems items depth

end

def checkArrayLimits (v : Value) : Except ValueLimitError Unit := v.checkArrayLimitsAtDepth 0

end Value

structure PayloadRouteBranch where
  placeholder : String
  expectedValue : String
  target : Addr
  deriving DecidableEq

inductive Instr where
  | jump (target : Addr)
  | brIf (target : Addr)
  | brIfNot (target : Addr)
  | pushBool (b : Bool)
  | pushI64 (n : ℤ)
  | pop
  | loadFlag (key : FlagKey)
  | storeFlag (key : FlagKey)
  | execNative (taskType argc retc : ℕ)
  | execDslTask (taskType : ℕ) (staticArgs : BTreeMap String String)
      (producesPlaceholder : Option String)
  | routePayload (branches : List PayloadRouteBranch) (defaultTarget : Option Addr)
  | execFfi (templateId : Digest) (argc retc : ℕ)
  | publishMessage (name : ℕ)
  | cancelWait (waitId : WaitId)
  | incCounter (counterId : ℕ)
  | brCounterLt (counterId limit : ℕ) (target : Addr)
  | end
  | endTerminate
  | fail (code : ℕ)
  | v2Guard (handler : Addr)
  | v2GuardEnd
  | v2GuardN (handler : Addr)
  | v2GuardNEnd
  | v2GuardR
  | v2GuardREnd
  | v2GuardArmTimer
  | v2GuardTimerCycle (maxFires : ℕ)
  | v2GuardArmError (errorCode : Option String) (handler : Addr)
  | v2RaceOpen (armCount : ℕ)
  | v2ArmTimer (target : Addr)
  | v2ArmMsg (target : Addr) (name : ℕ)
  | v2ArmEffect (target : Addr) (templateId : Digest) (argc retc : ℕ)
  | v2RaceClose
  | v2Fork (targets : List Addr) (pairing : Addr)
  | v2Join (pairing : Addr)
  | v2WaitFor
  | v2WaitUntil
  | v2WaitMsg (name : ℕ)
  | v2AwaitEffect (templateId : Digest) (argc retc : ℕ)
  | v2CancelScope
  | v2LoadPlaceholderMatch (placeholder expectedValue : String)
  | v2RouteZeroMatch
  | v2MiIndexLive (collectionFlag : FlagKey) (index : ℕ)
  | v2MiLoadElement (collectionFlag : FlagKey) (index : ℕ)
  | v2MiArityCheck (collectionFlag : FlagKey) (max : ℕ)
  deriving DecidableEq

end BpmnLite
