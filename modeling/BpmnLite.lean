import BpmnLite.BindingFrame
import BpmnLite.Canonical.StateHash
import BpmnLite.Dmn.IntervalAlgebra
import BpmnLite.Dmn.Safety
import BpmnLite.Dmn.Services
import BpmnLite.Dmn.Unreachable
import BpmnLite.Dsl.Closure
import BpmnLite.Dsl.Dag
import BpmnLite.Ffi.Template
import BpmnLite.Kernel.Dedupe
import BpmnLite.Kernel.Incidents
import BpmnLite.Kernel.Payloads
import BpmnLite.Kernel.RecordLifecycle
import BpmnLite.Kernel.Reached
import BpmnLite.Kernel.Terminal
import BpmnLite.Kernel.Waits
import BpmnLite.Store.Folds
import BpmnLite.Store.Journal
import BpmnLite.Store.Scheduler
