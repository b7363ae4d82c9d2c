import BpmnLite.Isa

/-!
# Execution plans

The nodes of a compiled workflow with the edges between them, as the validations of the plan walk
over them.
-/

namespace BpmnLite.Dsl

inductive DeliveryMode where
  | blocking
  | guaranteedAsync
  | bestEffort
  deriving DecidableEq

structure GuardExecSpec where
  escapeEntry : String
  deriving DecidableEq

structure TaskExecNode where
  plug : String
  deliveryMode : DeliveryMode
  next : String
  guards : List GuardExecSpec
  deriving DecidableEq

structure SplitExecFlow where
  next : String
  deriving DecidableEq

inductive ExecutionNode where
  | start (next : String)
  | task (t : TaskExecNode)
  | split (flows : List SplitExecFlow)
  | join (next : String)
  | loop (body : List String) (next : String)
  | wait (next : String)
  | messageWait (next : String)
  | end
  deriving DecidableEq

namespace ExecutionNode

def flowSuccessors : ExecutionNode → List String
  | start next | join next | wait next | messageWait next => [next]
  | task t => [t.next]
  | split flows => flows.map (·.next)
  | loop body next => next :: body.head?.toList
  | .end => []

def guardEscapeEntries : ExecutionNode → List String
  | task t => t.guards.map (·.escapeEntry)
  | _ => []

end ExecutionNode

structure WorkflowExecutionPlan where
  nodes : BTreeMap String ExecutionNode
  startNode : String

end BpmnLite.Dsl
