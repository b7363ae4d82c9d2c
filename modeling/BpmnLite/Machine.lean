import BpmnLite.Kernel.Run

/-!
# The scope machine

What a run of the kernel does to fibres, scopes and records, with payloads, jobs and timestamps
left out. A configuration maps ids to live fibres and to records. It also keeps the ids handed out
so far, the race arms of the fibre being ticked, the race timers scheduled, where each record was
opened, and the executions of `V2Join`. `Step` has one constructor for each way a configuration
changes: the instructions of the fibre in focus first, then the other commands.
-/

namespace BpmnLite

open Function (update)

structure Config where
  fibers : Uuid → Option Fiber
  table : RecordId → Option ConcurrencyRecord
  old : Set Uuid
  focus : Option Uuid
  arms : List V2RaceArm
  timers : List (Uuid × RecordId × Addr)
  opened : List (RecordId × Addr)
  /-- Every executed `V2Join`: its barrier, the fibre, and whether it released the barrier. -/
  joins : List (RecordId × Uuid × Bool)

/-- The addresses a tick may go on at after an instruction. -/
def Instr.flow (address : Addr) : Instr → List Addr
  | .jump target => [target]
  | .brIf target | .brIfNot target | .brCounterLt _ _ target => [target, address + 1]
  | .routePayload branches defaultTarget => branches.map (·.target) ++ defaultTarget.toList
  | .fail _ | .v2RouteZeroMatch => []
  | _ => [address + 1]

def Instr.isNative : Instr → Bool
  | .execNative .. => true
  | _ => false

def Instr.closesGuard : Instr → Bool
  | .v2GuardEnd | .v2GuardNEnd | .v2GuardREnd => true
  | _ => false

/-- Instructions that touch nothing but the fibre's address and operands. -/
def Instr.isPlain : Instr → Bool
  | .v2Guard _ | .v2GuardN _ | .v2GuardR | .v2RaceOpen _ | .v2Fork .. | .v2Join _ | .v2RaceClose
  | .v2GuardEnd | .v2GuardNEnd | .v2GuardREnd | .v2ArmTimer _ | .v2ArmMsg .. | .v2ArmEffect ..
  | .v2GuardArmError .. | .v2CancelScope | .end | .endTerminate => false
  | _ => true

def V2RaceArm.target : V2RaceArm → Addr
  | .timer target | .msg target .. | .effect target .. => target

/-- The fibre stays in its scopes and goes on. -/
structure Fiber.Moves (instruction : Instr) (f f' : Fiber) : Prop where
  fiberId : f'.fiberId = f.fiberId
  wait : f'.wait = .running
  controlStack : f'.controlStack = f.controlStack
  pc : f'.pc ∈ instruction.flow f.pc
  enough : (stackEffect instruction).1 ≤ f.stack.length
  height : f'.stack.length = f.stack.length - (stackEffect instruction).1 +
    (stackEffect instruction).2

/-- The ways an instruction parks the fibre outside barriers and races. -/
inductive Fiber.Parks (own : Uuid → Addr → EffectId) (f : Fiber) : Instr → Fiber → Prop
  | native (taskType argc retc : ℕ) (jobKey : JobKey) :
      f.Parks own (.execNative taskType argc retc) { f with wait := .job jobKey }
  | dsl (taskType : ℕ) (args : BTreeMap String String) (produces : Option String)
      (jobKey : JobKey) : f.Parks own (.execDslTask taskType args produces)
        { f with wait := .job jobKey }
  | ffi (templateId : Digest) (argc retc : ℕ) : f.Parks own (.execFfi templateId argc retc)
        { f with wait := .effect (own f.fiberId f.pc) }
  | await (templateId : Digest) (argc retc : ℕ) : f.Parks own (.v2AwaitEffect templateId argc retc)
        { f with wait := .effect (own f.fiberId f.pc) }
  | timer {instruction : Instr} (h : instruction = .v2WaitFor ∨ instruction = .v2WaitUntil)
      {stack : List Value} {value : Value} (hstack : f.stack = stack ++ [value])
      (deadlineMs : ℕ) : f.Parks own instruction
        { f with stack, pc := f.pc + 1, wait := .timer deadlineMs }
  | msg (name : ℕ) (corrKey : String) : f.Parks own (.v2WaitMsg name)
        { f with pc := f.pc + 1, wait := .msg 0 name corrKey }
  | incident {instruction : Instr} (incidentId : Uuid)
      (h : instruction.isPlain ∧ stackEffect instruction = (0, 0)) : f.Parks own instruction
        { f with wait := .incident incidentId }

/-- The arm an arming instruction adds to the race being built, and the race timers it
schedules. -/
inductive Fiber.Arms (own : Uuid → Addr → EffectId) (f : Fiber) :
    Instr → V2RaceArm → List (Uuid × RecordId × Addr) → Prop
  | timer {top : RecordId} (htop : f.controlStack.getLast? = some top) (target : Addr) :
      f.Arms own (.v2ArmTimer target) (.timer target) [(f.fiberId, top, target)]
  | msg (target : Addr) (name : ℕ) (corrKey : String) :
      f.Arms own (.v2ArmMsg target name) (.msg target name corrKey) []
  | effect (target : Addr) (templateId : Digest) (argc retc : ℕ) :
      f.Arms own (.v2ArmEffect target templateId argc retc)
        (.effect target (own f.fiberId f.pc) templateId) []

def Fiber.Awaits (f : Fiber) : Prop :=
  (∃ jobKey, f.wait = .job jobKey) ∨ ∃ effectId, f.wait = .effect effectId

/-- The record an opening instruction at `pc` creates for the fibre `i`. -/
def Instr.Opens (pc : Addr) (i : Uuid) (record : ConcurrencyRecord) : Instr → Prop
  | .v2Guard handler => record = { ConcurrencyRecord.new record.id (.guard true) with
      handler := some handler, openedAt := some pc, members := (∅ : BTreeSet Uuid).insert i }
  | .v2GuardN handler => record = { ConcurrencyRecord.new record.id (.guard false) with
      handler := some handler, openedAt := some pc, members := (∅ : BTreeSet Uuid).insert i }
  | .v2GuardR => ∃ payload hash flags joinExpected session, record =
      { ConcurrencyRecord.new record.id (.guard true) with
        rollbackDomainPayload := some payload, rollbackDomainPayloadHash := some hash
        rollbackFlags := some flags, rollbackJoinExpected := some joinExpected
        rollbackSessionStack := some session
        openedAt := some pc, members := (∅ : BTreeSet Uuid).insert i }
  | .v2RaceOpen armCount => record = { ConcurrencyRecord.new record.id .race with
      counters := ⟨armCount, armCount⟩, members := (∅ : BTreeSet Uuid).insert i }
  | _ => False

/-- Equal but for the members and the state. -/
def ConcurrencyRecord.SameScope (r r' : ConcurrencyRecord) : Prop :=
  r' = { r with members := r'.members, state := r'.state }

/-- A rewriting of the records of a configuration: those of `dead` are retired, and of the live
members of the others those of `gone` leave and those of `added` join. -/
structure Rewrites (live : Uuid → Prop) (dead : RecordId → Prop)
    (gone added : RecordId → Uuid → Prop) (T T' : RecordId → Option ConcurrencyRecord) : Prop where
  absent : ∀ y, T y = none → T' y = none
  present : ∀ y r, T y = some r → ∃ r', T' y = some r' ∧ r.SameScope r' ∧
    (dead y → r'.state = .retired) ∧ (¬ dead y → r'.state = r.state) ∧
    (∀ m ∈ r'.members, m ∈ r.members ∨ added y m) ∧
    (r'.state = .armed →
      (∀ m ∈ r'.members, (m ∈ r.members ∧ ¬ gone y m) ∨ added y m) ∧
      (∀ m ∈ r.members, live m → ¬ gone y m → m ∈ r'.members) ∧
      ∀ m, added y m → m ∈ r'.members)

/-- The scopes above `r` on a fibre's chain. -/
def Above (f : Fiber) (r y : RecordId) : Prop :=
  ∃ p q, effectiveControlStack f = p ++ r :: q ∧ y ∈ q

def chains (fibers : Uuid → Option Fiber) : Set (List RecordId) :=
  {s | ∃ m f, fibers m = some f ∧ s = effectiveControlStack f}

namespace Config

variable (c : Config)

def Live (i : Uuid) : Prop := ∃ f, c.fibers i = some f

def set (i : Uuid) (f : Fiber) : Uuid → Option Fiber := update c.fibers i (some f)

/-- The fibre in focus is about to execute the instruction. -/
structure Exec (P : List Instr) (i : Uuid) (f : Fiber) (instruction : Instr) : Prop where
  focus : c.focus = some i
  live : c.fibers i = some f
  running : f.wait = .running
  fetch : P[f.pc]? = some instruction

/-- The scopes cancelled with `r`: `r`, everything above it, and nothing a fibre outside `r` or the
fibre `i` still holds. -/
structure Cancels (i : Option Uuid) (kept : List RecordId) (r : RecordId)
    (dead : RecordId → Prop) : Prop where
  self : dead r
  above : ∀ m g y, some m ≠ i → c.fibers m = some g → Above g r y → dead y
  inside : ∀ m g y, some m ≠ i → c.fibers m = some g → dead y → y ∈ effectiveControlStack g →
    r ∈ effectiveControlStack g
  kept : ∀ y ∈ kept, ¬ dead y

/-- Leaves the records of its control stack. -/
def Leaves (m : Uuid) (y : RecordId) : Prop := ∃ g, c.fibers m = some g ∧ y ∈ g.controlStack

def Holds (m : Uuid) (r : RecordId) : Prop := ∃ g, c.fibers m = some g ∧ r ∈ effectiveControlStack g

end Config

/-- What the machine does: an instruction of the fibre in focus, or a command. A native task whose
completion is cached is told apart from one that is handed to a worker. -/
inductive Act where
  | select (i : Uuid)
  | exec (i : Uuid)
  | cached (i : Uuid)
  | wake (i : Uuid)
  | complete (i : Uuid)
  | fail (i : Uuid)
  | win (i : Uuid) (target : Addr)
  | expire (i : Uuid) (target : Addr)
  | trigger (r : RecordId) (target : Addr)
  | rollback (r : RecordId) (i : Uuid)
  | clear
  | age

/-- The scopes a handler of the guard `r` starts in. -/
def Config.HandlerStack (c : Config) (r : RecordId) (interrupting : Bool) (stack : List RecordId) :
    Prop :=
  (∃ m g p q, c.fibers m = some g ∧ g.controlStack = p ++ r :: q ∧
    stack = p ++ if interrupting then [] else [r]) ∨
  ((∀ m g, c.fibers m = some g → r ∉ g.controlStack) ∧ stack = [])

open Classical in
inductive Step (P : List Instr) (own : Uuid → Addr → EffectId) : Config → Act → Config → Prop
  | select {c : Config} {i : Uuid} {f : Fiber} (hfocus : c.focus = none)
      (hlive : c.fibers i = some f) (hrun : f.wait = .running) :
      Step P own c (.select i) { c with focus := some i, arms := [] }
  | plain {c : Config} {i : Uuid} {f f' : Fiber} {instruction : Instr}
      (h : c.Exec P i f instruction) (hplain : instruction.isPlain)
      (hnative : ¬ instruction.isNative) (hf : f.Moves instruction f') :
      Step P own c (.exec i) { c with fibers := c.set i f' }
  -- The results are pushed, but the arguments stay.
  | cached {c : Config} {i : Uuid} {f : Fiber} {taskType argc retc : ℕ} {results : List Value}
      (h : c.Exec P i f (.execNative taskType argc retc)) (hresults : results.length = retc) :
      Step P own c (.cached i) { c with
        fibers := c.set i { f with stack := f.stack ++ results, pc := f.pc + 1 } }
  | arm {c : Config} {i : Uuid} {f f' : Fiber} {instruction : Instr} {arm : V2RaceArm}
      {timers : List (Uuid × RecordId × Addr)} (h : c.Exec P i f instruction)
      (hf : f.Moves instruction f') (harm : f.Arms own instruction arm timers) :
      Step P own c (.exec i) { c with
        fibers := c.set i f', arms := c.arms ++ [arm], timers := c.timers ++ timers }
  | armError {c : Config} {i : Uuid} {f f' : Fiber} {errorCode : Option String} {handler : Addr}
      {r : RecordId} {record : ConcurrencyRecord}
      (h : c.Exec P i f (.v2GuardArmError errorCode handler))
      (hf : f.Moves (.v2GuardArmError errorCode handler) f')
      (htop : f.controlStack.getLast? = some r) (hrecord : c.table r = some record) :
      Step P own c (.exec i) { c with
        fibers := c.set i f'
        table := update c.table r (some { record with
          errorRoutes := insertErrorRoute (errorCode, handler) record.errorRoutes }) }
  | open {c : Config} {i : Uuid} {f : Fiber} {instruction : Instr} {record : ConcurrencyRecord}
      (h : c.Exec P i f instruction) (hopen : instruction.Opens f.pc i record)
      (hnew : record.id ∉ c.old) :
      Step P own c (.exec i) { c with
        fibers := c.set i
          { f with controlStack := f.controlStack ++ [record.id], pc := f.pc + 1 }
        table := update c.table record.id (some record)
        old := insert record.id c.old
        arms := if record.kind = .race then [] else c.arms
        opened := c.opened ++ [(record.id, f.pc)] }
  | close {c : Config} {i : Uuid} {f : Fiber} {instruction : Instr} {below : List RecordId}
      {r : RecordId} {table : RecordId → Option ConcurrencyRecord}
      (h : c.Exec P i f instruction) (hclose : instruction.closesGuard)
      (hstack : f.controlStack = below ++ [r])
      (htable : Rewrites c.Live (· = r) (fun _ _ => False) (fun _ _ => False) c.table table) :
      Step P own c (.exec i) { c with
        fibers := c.set i { f with controlStack := below, pc := f.pc + 1 }, table }
  | release {c : Config} {i : Uuid} {f : Fiber} {pairing : Addr} {below : List RecordId}
      {r : RecordId} {record : ConcurrencyRecord} {table : RecordId → Option ConcurrencyRecord}
      (h : c.Exec P i f (.v2Join pairing)) (hstack : f.controlStack = below ++ [r])
      (hrecord : c.table r = some record) (hcount : record.counters.count ≤ 1)
      (htable : Rewrites c.Live (· = r)
        (fun y m => m ∈ record.members ∧ m ≠ i ∧ c.Leaves m y) (fun _ _ => False) c.table table) :
      Step P own c (.exec i) { c with
        fibers := update (fun m => if m ∈ record.members then none else c.fibers m) i
          (some { f with controlStack := below, pc := f.pc + 1 })
        table
        joins := c.joins ++ [(r, i, true)] }
  | arrive {c : Config} {i : Uuid} {f : Fiber} {pairing : Addr} {below : List RecordId}
      {r : RecordId} {record : ConcurrencyRecord}
      (h : c.Exec P i f (.v2Join pairing)) (hstack : f.controlStack = below ++ [r])
      (hrecord : c.table r = some record) (hcount : 2 ≤ record.counters.count) :
      Step P own c (.exec i) { c with
        fibers := c.set i { f with controlStack := below, wait := .v2Barrier r }
        table := update c.table r (some { record with
          counters := { record.counters with count := record.counters.count - 1 } })
        focus := none
        arms := []
        joins := c.joins ++ [(r, i, false)] }
  | cancel {c : Config} {i : Uuid} {f : Fiber} {below : List RecordId} {r : RecordId}
      {record : ConcurrencyRecord} {dead : RecordId → Prop}
      {table : RecordId → Option ConcurrencyRecord}
      (h : c.Exec P i f .v2CancelScope) (hstack : f.controlStack = below ++ [r])
      (hrecord : c.table r = some record) (hrollback : record.rollbackDomainPayload.isSome)
      (hdead : c.Cancels (some i) below r dead)
      (htable : Rewrites c.Live dead (fun y m => m ≠ i ∧ c.Holds m r ∧ c.Leaves m y)
        (fun _ _ => False) c.table table) :
      Step P own c (.exec i) { c with
        fibers := update (fun m => if c.Holds m r then none else c.fibers m) i
          (some { f with controlStack := below, pc := f.pc + 1 })
        table }
  | park {c : Config} {i : Uuid} {f f' : Fiber} {instruction : Instr}
      (h : c.Exec P i f instruction) (hf : f.Parks own instruction f') :
      Step P own c (.exec i) { c with fibers := c.set i f', focus := none, arms := [] }
  | raceClose {c : Config} {i : Uuid} {f : Fiber} {below : List RecordId} {r : RecordId}
      (h : c.Exec P i f .v2RaceClose) (hstack : f.controlStack = below ++ [r]) :
      Step P own c (.exec i) { c with
        fibers := c.set i { f with controlStack := below, wait := .v2Race r c.arms }
        focus := none
        arms := [] }
  | finish {c : Config} {i : Uuid} {f : Fiber} (h : c.Exec P i f .end) :
      Step P own c (.exec i) { c with
        fibers := update c.fibers i none, focus := none, arms := [] }
  | fork {c : Config} {i : Uuid} {f : Fiber} {targets : List Addr} {pairing : Addr} {r : RecordId}
      {ids : List Uuid} {record : ConcurrencyRecord}
      {table : RecordId → Option ConcurrencyRecord}
      (h : c.Exec P i f (.v2Fork targets pairing)) (hids : ids.length = targets.length)
      (hnodup : (r :: ids).Nodup) (hnew : ∀ a ∈ r :: ids, a ∉ c.old)
      (hrecord : record = { ConcurrencyRecord.new r .barrier with
        counters := ⟨targets.length, targets.length⟩, members := record.members })
      (hmembers : ∀ m, m ∈ record.members ↔ m ∈ ids)
      (htable : Rewrites (fun m => c.Live m ∨ m ∈ ids) (fun _ => False)
        (fun y m => y ∈ f.controlStack ∧ m = i) (fun y m => y ∈ f.controlStack ∧ m ∈ ids)
        (update c.table r (some record)) table) :
      Step P own c (.exec i) { c with
        fibers := fun m => if m = i then none
          else match (ids.zip targets).find? (·.1 = m) with
            | some child => some { Fiber.new child.1 child.2 with
                controlStack := f.controlStack ++ [r] }
            | none => c.fibers m
        table
        old := c.old ∪ {a | a ∈ r :: ids}
        focus := none
        arms := []
        opened := c.opened ++ [(r, f.pc)] }
  | wake {c : Config} {i : Uuid} {f : Fiber} (hfocus : c.focus = none)
      (hlive : c.fibers i = some f)
      (hwait : (∃ deadlineMs, f.wait = .timer deadlineMs) ∨
        (∃ waitId name corrKey, f.wait = .msg waitId name corrKey) ∨
        ∃ incidentId, f.wait = .incident incidentId) :
      Step P own c (.wake i) { c with fibers := c.set i { f with wait := .running } }
  | complete {c : Config} {i : Uuid} {f : Fiber} (hfocus : c.focus = none)
      (hlive : c.fibers i = some f) (hwait : f.Awaits) :
      Step P own c (.complete i) { c with
        fibers := c.set i { f with pc := f.pc + 1, wait := .running } }
  | fail {c : Config} {i : Uuid} {f : Fiber} {incidentId : Uuid} (hfocus : c.focus = none)
      (hlive : c.fibers i = some f) (hwait : f.Awaits) :
      Step P own c (.fail i) { c with fibers := c.set i { f with wait := .incident incidentId } }
  | win {c : Config} {i : Uuid} {f : Fiber} {r : RecordId} {arms : List V2RaceArm} {target : Addr}
      {table : RecordId → Option ConcurrencyRecord} (hfocus : c.focus = none)
      (hlive : c.fibers i = some f) (hwait : f.wait = .v2Race r arms)
      (htarget : ∃ arm ∈ arms, arm.target = target)
      (htable : Rewrites c.Live (· = r) (fun _ _ => False) (fun _ _ => False) c.table table) :
      Step P own c (.win i target) { c with
        fibers := c.set i { f with pc := target, wait := .running }, table }
  -- The address comes with the timer.
  | expire {c : Config} {i : Uuid} {f : Fiber} {r : RecordId} {arms : List V2RaceArm}
      {target : Addr} {table : RecordId → Option ConcurrencyRecord} (hfocus : c.focus = none)
      (hlive : c.fibers i = some f) (hwait : f.wait = .v2Race r arms)
      (htable : Rewrites c.Live (· = r) (fun _ _ => False) (fun _ _ => False) c.table table) :
      Step P own c (.expire i target) { c with
        fibers := c.set i { f with pc := target, wait := .running }, table }
  | triggerN {c : Config} {r : RecordId} {record : ConcurrencyRecord} {target : Addr} {h : Uuid}
      {stack : List RecordId} {table : RecordId → Option ConcurrencyRecord}
      (hfocus : c.focus = none) (hrecord : c.table r = some record) (harmed : record.state = .armed)
      (hkind : record.kind = .guard false)
      (htarget : record.handler = some target ∨ ∃ code, (code, target) ∈ record.errorRoutes)
      (hnew : h ∉ c.old) (hstack : c.HandlerStack r false stack)
      (htable : Rewrites c.Live (fun _ => False) (fun _ _ => False) (fun y m => y ∈ stack ∧ m = h)
        c.table table) :
      Step P own c (.trigger r target) { c with
        fibers := c.set h { Fiber.new h target with controlStack := stack }
        table
        old := insert h c.old }
  | trigger {c : Config} {r : RecordId} {record : ConcurrencyRecord} {target : Addr} {h : Uuid}
      {stack : List RecordId} {dead : RecordId → Prop}
      {table : RecordId → Option ConcurrencyRecord}
      (hfocus : c.focus = none) (hrecord : c.table r = some record) (harmed : record.state = .armed)
      (hkind : record.kind = .guard true)
      (htarget : record.handler = some target ∨ ∃ code, (code, target) ∈ record.errorRoutes)
      (hnew : h ∉ c.old) (hstack : c.HandlerStack r true stack)
      (hdead : c.Cancels none stack r dead)
      (htable : Rewrites c.Live dead (fun y m => c.Holds m r ∧ c.Leaves m y)
        (fun y m => y ∈ stack ∧ m = h) c.table table) :
      Step P own c (.trigger r target) { c with
        fibers := update (fun m => if c.Holds m r then none else c.fibers m) h
          (some { Fiber.new h target with controlStack := stack })
        table
        old := insert h c.old }
  | rollback {c : Config} {r : RecordId} {i : Uuid} {record : ConcurrencyRecord}
      {dead : RecordId → Prop} {table : RecordId → Option ConcurrencyRecord}
      (hfocus : c.focus = none) (hrecord : c.table r = some record) (harmed : record.state = .armed)
      (hkind : ∃ interrupting, record.kind = .guard interrupting)
      (hrollback : record.rollbackDomainPayload.isSome) (hcaller : c.Holds i r)
      (hothers : ∃ m, c.Live m ∧ ¬ c.Holds m r)
      (hdead : c.Cancels none [] r dead)
      (htable : Rewrites c.Live dead (fun y m => c.Holds m r ∧ c.Leaves m y)
        (fun _ _ => False) c.table table) :
      Step P own c (.rollback r i) { c with
        fibers := fun m => if c.Holds m r then none else c.fibers m
        table }
  | repark {c : Config} {r : RecordId} {i : Uuid} {f : Fiber} {record : ConcurrencyRecord}
      {below above : List RecordId} {openedAt : Addr} {incidentId : Uuid} {dead : RecordId → Prop}
      {table : RecordId → Option ConcurrencyRecord}
      (hfocus : c.focus = none) (hrecord : c.table r = some record) (harmed : record.state = .armed)
      (hkind : ∃ interrupting, record.kind = .guard interrupting)
      (hrollback : record.rollbackDomainPayload.isSome)
      (hopened : record.openedAt = some openedAt) (hlive : c.fibers i = some f)
      (hstack : effectiveControlStack f = below ++ r :: above)
      (hothers : ∀ m, c.Live m → c.Holds m r)
      (hdead : c.Cancels none below r dead)
      (htable : Rewrites c.Live dead (fun y m => c.Holds m r ∧ c.Leaves m y)
        (fun y m => y ∈ below ∧ m = i) c.table table) :
      Step P own c (.rollback r i) { c with
        fibers := update (fun _ => none) i (some { f with
          controlStack := below, pc := openedAt, wait := .incident incidentId })
        table }
  | clear {c : Config} {table : RecordId → Option ConcurrencyRecord}
      (htable : Rewrites c.Live (fun _ => True) (fun _ _ => False) (fun _ _ => False)
        c.table table) :
      Step P own c .clear { c with fibers := fun _ => none, table, focus := none, arms := [] }
  | age {c : Config} {old : Set Uuid} (h : c.old ⊆ old) (hfocus : c.focus = none) :
      Step P own c .age { c with old }

/-- Acts that no condition is put on. -/
def Act.isFree : Act → Prop
  | .select _ | .clear | .age => True
  | _ => False

/-- A run of the machine all of whose acts meet the condition `C`. -/
def Path (C : Config → Act → Prop) (P : List Instr) (own : Uuid → Addr → EffectId) :
    Config → Config → Prop :=
  Relation.ReflTransGen (fun c c' => ∃ act, (act.isFree ∨ C c act) ∧ Step P own c act c')

theorem Path.preserves {C : Config → Act → Prop} {P : List Instr} {own : Uuid → Addr → EffectId}
    {I : Config → Prop}
    (hstep : ∀ {c c' act}, I c → (act.isFree ∨ C c act) → Step P own c act c' → I c')
    {c c' : Config} (h : Path C P own c c') (hc : I c) : I c' := by
  induction h with
  | refl => exact hc
  | tail _ hlast ih =>
    obtain ⟨act, hact, hlast⟩ := hlast
    exact hstep ih hact hlast

end BpmnLite
