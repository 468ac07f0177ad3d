import IoTware.Micro.Pointers
import IoTware.Micro.Report

/-!
# The dispatcher of requests

`lwmsg_dist_task` and its handlers. A request is answered by a handler itself,
which then returns 300, or by the dispatcher with the code that the handler
returns. The send queue takes every message.
-/

namespace IoTware.Dist

open CText LwMsg Micro Loops

inductive LwmIf
  | devTaskInfoRequest
  | msCreation | msRun | msOutputParamRead | msStop | msDelete
  | taskOn | taskParamSet | taskParamRead | taskParamReadAll | taskOff
  | other
  deriving DecidableEq

def LwmIf.ofInt (interfaceId : Int32) : LwmIf :=
  if interfaceId = 3 then .devTaskInfoRequest
  else if interfaceId = 10 then .msCreation
  else if interfaceId = 11 then .msRun
  else if interfaceId = 13 then .msOutputParamRead
  else if interfaceId = 15 then .msStop
  else if interfaceId = 16 then .msDelete
  else if interfaceId = 20 then .taskOn
  else if interfaceId = 21 then .taskParamSet
  else if interfaceId = 22 then .taskParamRead
  else if interfaceId = 23 then .taskParamReadAll
  else if interfaceId = 24 then .taskOff
  else .other

structure Device where
  services : List MicroService
  sendQueue : List LWMessage

def responseLwmsg (d : Device) (msg : LWMessage) : Device := { d with sendQueue := msg :: d.sendQueue }

def getMicroServiceInfoById (services : List MicroService) :
    Option Text → Option (MicroService × Nat)
  | none => none
  | some msId => if msId = [] then none else services.zipIdx.find? fun ms => msId = ms.1.msId

-- ---------------------------------------------------------------------------
-- `_lwmsg_operation`
-- ---------------------------------------------------------------------------

def operation (inits : Inits) (interfaceId : LwmIf) (ms : MicroService) :
    Except Fault (MicroService × Bool) :=
  match interfaceId with
  | .msCreation => Pointers.createMicroService ms
  | .msRun => Pointers.runMicroService inits ms
  | .msStop => Pointers.stopMicroService ms
  | .msDelete => .ok (delMicroService ms)
  | _ => .error .nullPointer

def operationStep (inits : Nat → Inits) (interfaceId : LwmIf) (s : List MicroService × UInt32)
    (msid : LWMObject) : Except Fault (List MicroService × UInt32) :=
  match getMicroServiceInfoById s.1 msid.stringValue with
  | none => .ok (s.1, 404)
  | some (ms, i) => do
    let (ms, success) ← operation (inits i) interfaceId ms
    return (s.1.set i ms, if success then 200 else s.2)

def lwmsgOperation (inits : Nat → Inits) (interfaceId : LwmIf) (services : List MicroService)
    (msg : LWMessage) : Except Fault (List MicroService × UInt32) := do
  match ← getLwmObjectFromDict msg.body "mis".toList with
  | some (.array mis) => mis.foldlM (operationStep inits interfaceId) (services, 400)
  | _ => return (services, 400)

-- ---------------------------------------------------------------------------
-- `_lwmsg_param_set`
-- ---------------------------------------------------------------------------

/-- A node of the list `fp` is read as a key and a value, also where it is an
object of an array. -/
inductive FpEntry
  | kvo (key : Option Text) (value : LWMObject)
  | object (obj : LWMObject)

def fpEntries : LWMObject → Except Fault (List FpEntry)
  | .dictionary entries => .ok (entries.map fun kv => .kvo kv.1 kv.2)
  | .array items => .ok (items.map .object)
  | .string none => .error .nullPointer
  | .string (some _) | .number _ => .error .notAList

/-- The key of a node: the value of an object stands where the key is
expected. -/
def FpEntry.key (pf : Platform) : FpEntry → Option Text
  | .kvo key _ => key
  | .object (.string text) => text
  | .object obj => some (pf.textAt obj)

/-- `GET_LWM_STRING_VALUE` of the value of a node: in an object of an array its
type stands where the value is expected. -/
def FpEntry.stringValue : FpEntry → Except Fault (Option Text)
  | .kvo _ value => .ok value.stringValue
  | .object _ => .error .wildPointer

def replaceParam (aliasName : Text) (new : Parameter) : List Parameter → List Parameter
  | [] => []
  | param :: params =>
    if param.aliasName = aliasName then new :: params
    else param :: replaceParam aliasName new params

/-- The loop body over `fp`: the flexible parameters of the task, which may be
NULL, and `atleastFound`. -/
def fpStep (pf : Platform) (s : Option (List Parameter) × Bool) (entry : FpEntry) :
    Except Fault (Option (List Parameter) × Bool) :=
  match s.1 with
  | none => .error .nullPointer
  | some params => do
    match getParameterFromParamList params (entry.key pf) with
    | none => return s
    | some param =>
      let new ← parameterSetByString pf param (← entry.stringValue)
      return (some (replaceParam param.aliasName new params), true)

def taskIndex (obj : LWMObject) : Except Fault UInt32 := do
  return (← atoi obj.stringValue).toUInt32

/-- The loop body over `tis`: the microservice, `atleastFound` and `rsc`. -/
def paramSetTask (pf : Platform) (body : LWMDictionary) (s : MicroService × Bool × UInt32)
    (obj : LWMObject) : Except Fault ((MicroService × Bool × UInt32) × Bool) := do
  match ← getLwmObjectFromDict body "fp".toList with
  | none => return ((s.1, s.2.1, 400), true)
  | some fp =>
    let ti := getTaskInfoByIdx s.1 (← taskIndex obj)
    let (params, found) ←
      (← fpEntries fp).foldlM (fpStep pf) (ti.map TaskInfo.flexibleParams, s.2.1)
    let ms :=
      match ti, params with
      | some ti, some params => s.1.updateTask ti.id (setFlexibleParams params)
      | _, _ => s.1
    return ((ms, found, if found then 200 else 404), false)

def paramSetStep (pf : Platform) (body : LWMDictionary) (s : List MicroService × UInt32)
    (msid : LWMObject) : Except Fault ((List MicroService × UInt32) × Bool) :=
  match getMicroServiceInfoById s.1 msid.stringValue with
  | none => .ok (s, false)
  | some (ms, i) => do
    match ← getLwmObjectFromDict body "tis".toList with
    | some (.array tis) =>
      let ((ms, _, rsc), returned) ← loop (paramSetTask pf body) (ms, false, s.2) tis
      return ((s.1.set i ms, rsc), returned)
    | _ => return ((s.1, 400), false)

def lwmsgParamSet (pf : Platform) (services : List MicroService) (msg : LWMessage) :
    Except Fault (List MicroService × UInt32) := do
  match ← getLwmObjectFromDict msg.body "mis".toList with
  | some (.array mis) =>
    if nodeNum mis = 1 then
      return (← loop (paramSetStep pf msg.body) (services, 400) mis).1
    else return (services, 400)
  | _ => return (services, 400)

-- ---------------------------------------------------------------------------
-- `_lwmsg_param_read`
-- ---------------------------------------------------------------------------

/-- The names in `fps` or `sps`. A node of a dictionary is read as an object,
whose type then is no string. -/
def paramNames : LWMObject → Except Fault (List (Option Text))
  | .array items => .ok (items.map LWMObject.stringValue)
  | .dictionary entries => .ok (entries.map fun _ => none)
  | .string none => .error .nullPointer
  | .string (some _) | .number _ => .error .notAList

/-- The loop body over the names: `cp_dict`, and whether this name was found. -/
def nameStep (pf : Platform) (params : Option (List Parameter)) (s : LWMDictionary × Bool)
    (name : Option Text) : Except Fault (LWMDictionary × Bool) :=
  match params with
  | none => .error .nullPointer
  | some params =>
    match getParameterFromParamList params name with
    | none => .ok (s.1, false)
    | some param => do
      let dict ← setLwmObject s.1 param.aliasName
        (newLwmObjectFromTypeValue pf param.type param.value)
      return (dict, true)

/-- What is read of a request for parameters: `fps` and `sps` are not both
there, and `tis` is counted as one index. -/
structure ReadRequest where
  dri : Option Text
  isAll : Bool
  cfp : Option LWMObject
  csp : Option LWMObject

def readAll (pf : Platform) (dri : Option Text) (d : Device) (ti : Option TaskInfo) :
    Except Fault (Device × UInt32) := do
  let res ← newLwmRespMessage dri 200
  match ti with
  | none => .error .nullPointer
  | some ti =>
    let fpDict ← paramDict pf ti.flexibleParams
    let spDict ← paramDict pf ti.staticParams
    let res ← setLwmBodyObject res "fp".toList (some (.dictionary fpDict))
    let res ← setLwmBodyObject res "sp".toList (some (.dictionary spDict))
    return (responseLwmsg d res, 300)

/-- The answer with the parameters that `fps` or `sps` names, if the last one
was found. -/
def readNamed (pf : Platform) (req : ReadRequest) (d : Device) (ti : Option TaskInfo) :
    Except Fault (Device × UInt32) := do
  match req.cfp.or req.csp with
  | none => .error .nullPointer
  | some cp =>
    let params := ti.map fun ti => if req.cfp.isSome then ti.flexibleParams else ti.staticParams
    let (cpDict, found) ← (← paramNames cp).foldlM (nameStep pf params) ([], false)
    if found then
      let res ← newLwmRespMessage req.dri 200
      let res ← setLwmBodyObject res (if req.cfp.isSome then "fp".toList else "sp".toList)
        (some (.dictionary cpDict))
      return (responseLwmsg d res, 300)
    else return (d, 404)

def paramReadTask (pf : Platform) (req : ReadRequest) (ms : MicroService) (s : Device × UInt32)
    (obj : LWMObject) : Except Fault (Device × UInt32) := do
  let ti := getTaskInfoByIdx ms (← taskIndex obj)
  if req.isAll then readAll pf req.dri s.1 ti else readNamed pf req s.1 ti

def paramReadStep (pf : Platform) (isAll : Bool) (dri : Option Text) (body : LWMDictionary)
    (s : Device × UInt32) (msid : LWMObject) : Except Fault ((Device × UInt32) × Bool) :=
  match getMicroServiceInfoById s.1.services msid.stringValue with
  | none => .ok ((s.1, 404), false)
  | some (ms, _) =>
    if ms.state ≠ .running then .ok ((s.1, 403), false)
    else do
      let cti ← getLwmObjectFromDict body "tis".toList
      let cfp ← getLwmObjectFromDict body "fps".toList
      let csp ← getLwmObjectFromDict body "sps".toList
      match cti with
      | some (.array tis) =>
        if nodeNum tis ≠ 1 ∨ (cfp.isSome ∧ csp.isSome) then return (s, true)
        else
          let s ← tis.foldlM (paramReadTask pf ⟨dri, isAll, cfp, csp⟩ ms) s
          return (s, false)
      | _ => return (s, true)

def lwmsgParamRead (pf : Platform) (isAll : Bool) (dri : Option Text) (d : Device)
    (msg : LWMessage) : Except Fault (Device × UInt32) := do
  match ← getLwmObjectFromDict msg.body "mis".toList with
  | some (.array mis) =>
    if nodeNum mis = 1 then
      return (← loop (paramReadStep pf isAll dri msg.body) (d, 400) mis).1
    else return (d, 400)
  | _ => return (d, 400)

-- ---------------------------------------------------------------------------
-- `_lwmsg_output_param_read`
-- ---------------------------------------------------------------------------

def isTasksRunning (ms : MicroService) : Bool :=
  ms.state = .running ∧ ms.tasks.nodes.any fun ti =>
    ti.taskFn ≠ .baseTaskType3 ∧ ti.taskFn ≠ .baseTaskType4 ∧ ti.state = .running

/-- The request goes to the tasks; a queue that is NULL, or a `dri`, is a
fault. -/
def forwardOutputRead (ms : MicroService) (dri : Option Text) : Except Fault MicroService :=
  if ms.tasks.nodes.any fun ti => ti.lwmsgInputPort.isSome ∧ ti.lwmsgQueue = none then
    .error .nullPointer
  else
    match dri with
    | none => .error .nullPointer
    | some dri => .ok (sendOutputRead ms dri)

def answerOutput (pf : Platform) (dri : Option Text) (d : Device) (param : OutputParam) :
    Except Fault Device :=
  match param.value with
  | none => .ok d
  | some value => do
    let opDict ← setLwmObject [] param.name (newLwmObjectFromTypeValue pf param.type value)
    let res ← newLwmRespMessage dri 200
    let res ← setLwmBodyObject res "op".toList (some (.dictionary opDict))
    return responseLwmsg d res

def outputReadStep (pf : Platform) (dri : Option Text) (s : Device × UInt32) (msid : LWMObject) :
    Except Fault (Device × UInt32) :=
  match getMicroServiceInfoById s.1.services msid.stringValue with
  | none => .ok (s.1, 404)
  | some (ms, i) =>
    if ms.state = .running then
      if isTasksRunning ms then do
        match dri with
        | none => .error .nullPointer
        | some text =>
          if ms.latestDri = text then return (← answerOutput pf dri s.1 ms.outputParam, 300)
          else return (s.1, 400)
      else do
        let ms ← forwardOutputRead ms dri
        let d := { s.1 with services := s.1.services.set i ms }
        return (← answerOutput pf dri d ms.outputParam, 300)
    else .ok (s.1, 400)

def lwmsgOutputParamRead (pf : Platform) (dri : Option Text) (d : Device) (msg : LWMessage) :
    Except Fault (Device × UInt32) := do
  match ← getLwmObjectFromDict msg.body "mis".toList with
  | some (.array mis) => mis.foldlM (outputReadStep pf dri) (d, 400)
  | _ => return (d, 400)

-- ---------------------------------------------------------------------------
-- `_lwmsg_offloarding`
-- ---------------------------------------------------------------------------

def offloardingTask (onoff : Bool) (s : MicroService × UInt32) (obj : LWMObject) :
    Except Fault ((MicroService × UInt32) × Bool) := do
  match getTaskInfoByIdx s.1 (← taskIndex obj) with
  | none => return ((s.1, 404), true)
  | some ti =>
    let (ms, success) ← Pointers.taskOnoff s.1 ti.id onoff
    if success then return ((ms, 200), false) else return ((ms, 400), true)

def offloardingStep (onoff : Bool) (body : LWMDictionary) (s : List MicroService × UInt32)
    (msid : LWMObject) : Except Fault (List MicroService × UInt32) := do
  match getMicroServiceInfoById s.1 msid.stringValue, ← getLwmObjectFromDict body "tis".toList with
  | some (ms, i), some (.array tis) =>
    let ((ms, rsc), _) ← loop (offloardingTask onoff) (ms, s.2) tis
    return (s.1.set i ms, rsc)
  | _, _ => return (s.1, 404)

def lwmsgOffloarding (onoff : Bool) (services : List MicroService) (msg : LWMessage) :
    Except Fault (List MicroService × UInt32) := do
  match ← getLwmObjectFromDict msg.body "mis".toList with
  | some (.array mis) =>
    if nodeNum mis = 1 then mis.foldlM (offloardingStep onoff msg.body) (services, 400)
    else return (services, 400)
  | _ => return (services, 400)

-- ---------------------------------------------------------------------------
-- The dispatcher
-- ---------------------------------------------------------------------------

def handleRequest (pf : Platform) (inits : Nat → Inits) (interfaceId : LwmIf) (dri : Option Text)
    (d : Device) (msg : LWMessage) : Except Fault (Device × UInt32) :=
  let onServices (result : Except Fault (List MicroService × UInt32)) :
      Except Fault (Device × UInt32) := do
    let (services, rsc) ← result
    return ({ d with services := services }, rsc)
  match interfaceId with
  | .devTaskInfoRequest => do
    let (services, res) ← Pointers.makeDeviceInformationLwmsg2 pf d.services dri 200
    return (responseLwmsg { d with services := services } res, 300)
  | .msCreation | .msRun | .msStop | .msDelete =>
    onServices (lwmsgOperation inits interfaceId d.services msg)
  | .taskParamSet => onServices (lwmsgParamSet pf d.services msg)
  | .taskParamRead => lwmsgParamRead pf false dri d msg
  | .taskParamReadAll => lwmsgParamRead pf true dri d msg
  | .msOutputParamRead => lwmsgOutputParamRead pf dri d msg
  | .taskOn => onServices (lwmsgOffloarding true d.services msg)
  | .taskOff => onServices (lwmsgOffloarding false d.services msg)
  | .other => .ok (d, 400)

/-- The loop body of `lwmsg_dist_task` behind the handlers. -/
def finishRequest (dri : Option Text) (s : Device × UInt32) : Except Fault Device :=
  if s.2 = 300 then .ok s.1
  else
    match dri with
    | none => .ok s.1
    | some _ => do return responseLwmsg s.1 (← newLwmRespMessage dri s.2)

/-- The loop body of `lwmsg_dist_task` for a message. -/
def lwmsgDist (pf : Platform) (inits : Nat → Inits) (d : Device) (msg : LWMessage) :
    Except Fault Device := do
  if nodeNum msg.header > 0 then
    let cif ← getLwmObjectFromDict msg.header "if".toList
    let cdri ← getLwmObjectFromDict msg.header "dri".toList
    let _ ← getLwmObjectFromDict msg.header "rsc".toList
    match cif, cdri with
    | some cif, some cdri =>
      let interfaceId ← atoi cif.stringValue
      let dri := cdri.stringValue
      finishRequest dri (← handleRequest pf inits (.ofInt interfaceId) dri d msg)
    | _, _ => return d
  else return d

end IoTware.Dist
