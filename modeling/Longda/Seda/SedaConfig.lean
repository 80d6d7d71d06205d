import Longda.Conf.Ini
import Longda.Lib.Walk

/-!
# The configuration of the stages

`SedaConfig` makes the thread pools and the stages that the global properties name, links the stages
and connects them. A pool and a stage are known by the number of the `new` that made them. What can
go wrong outside of it (a pool, a stage or a link that throws, a stage that does not initialize) is
given by the environment, and so is whether assertions are compiled in: if so, a failed one ends the
process. `none` is the end of the process.
-/

namespace Longda

open Lib

/-- What a factory function comes to. -/
inductive Made where
  | object
  | null
  | thrown
  deriving DecidableEq

/-- The outcomes by the number of pools, stages or links made before. -/
structure SedaEnv where
  asserts : Bool := true
  poolThrows : ℕ → Bool := fun _ => false
  /-- The factory list, from its head. -/
  factories : List (Str × (ℕ → Made))
  pushThrows : ℕ → Bool := fun _ => false
  /-- Whether `initialize` of the stage succeeds. -/
  ready : Str → Bool := fun _ => true

/-- `StageFactory::makeInstance`, before its assertion. -/
def SedaEnv.makeInstance (env : SedaEnv) (n : ℕ) (tag : Str) : Made :=
  match env.factories.find? (·.1 = tag) with
  | none => .null
  | some (_, factFunc) => factFunc n

inductive SedaStatus where
  | SUCCESS
  | INITFAIL
  | PARSEFAIL
  deriving DecidableEq

/-- How a loop is left. -/
inductive SedaExit where
  /-- By a `return INITFAIL`. -/
  | ret
  | thrown
  /-- With the process. -/
  | aborted
  deriving DecidableEq

/-- What a configured stage is known by. -/
structure SedaConfig.Stage where
  id : ℕ
  thPool : Option ℕ
  nextStageList : List (Option ℕ) := []
  qlen : ℕ := 0
  connected : Bool := false
  deriving DecidableEq

/-- A null pointer in a map is `some none`. -/
structure SedaConfig where
  mThreadPools : OrderedMap Str (Option ℕ) := .empty
  mStages : OrderedMap Str (Option SedaConfig.Stage) := .empty
  mStageNames : List Str := []

namespace SedaConfig

open CIni (CFG_DELIMIT_TAG)

def SEDA_BASE_NAME : Str := ascii "SEDA_BASE"
def THREAD_POOLS_NAME : Str := ascii "ThreadPools"

/-- `operator[]`, which puts a null pointer where there is no entry. -/
def lookupPool (cfg : SedaConfig) (name : Str) : SedaConfig :=
  { cfg with mThreadPools := cfg.mThreadPools.insert name none }

def lookupStage (cfg : SedaConfig) (name : Str) : SedaConfig :=
  { cfg with mStages := cfg.mStages.insert name none }

/-- The pool under the name, if it is not null. -/
def pool (cfg : SedaConfig) (name : Str) : Option ℕ := (cfg.mThreadPools.find? name).join

def stage (cfg : SedaConfig) (name : Str) : Option Stage := (cfg.mStages.find? name).join

def setStage (cfg : SedaConfig) (name : Str) (stage : Stage) : SedaConfig :=
  { cfg with mStages := cfg.mStages.set name (some stage) }

def clearconfig (env : SedaEnv) (cfg : SedaConfig) : Option SedaConfig :=
  if env.asserts ∧ cfg.mStages.entries.any (fun e => e.2.any (·.connected)) then none
  else some { cfg with mStages := .empty, mThreadPools := .empty }

/-- `clearconfig(); return INITFAIL`. -/
def fail (env : SedaEnv) (cfg : SedaConfig) : Option (SedaStatus × SedaConfig) :=
  (cfg.clearconfig env).map fun cfg => (.INITFAIL, cfg)

section Init

variable (env : SedaEnv) (props : CIni)

def threadCount (threadName : Str) : ℤ :=
  (CLstring.strToVal (props.get (ascii "count") (ascii "4") threadName)).2

/-- A turn of the loop of `initThreadPool`, with `n` pools made. -/
def newThreadpool (n : ℕ) (threadName : Str) (cfg : SedaConfig) : Turn SedaExit SedaConfig :=
  if threadCount props threadName < 1 then .exit .ret cfg
  else if env.poolThrows n then .exit .thrown cfg
  else .next { cfg with mThreadPools := cfg.mThreadPools.set threadName (some n) }

/-- What is returned for a count that is too small is returned without a `clearconfig`. -/
def initThreadPool (cfg : SedaConfig) : Option (SedaStatus × SedaConfig) :=
  match (props.getSection SEDA_BASE_NAME).find? THREAD_POOLS_NAME with
  | none => some (.INITFAIL, cfg)
  | some poolNames =>
    match walk (newThreadpool env props) 0 (CLstring.splitString poolNames CFG_DELIMIT_TAG) cfg with
    | .exit .ret cfg => some (.INITFAIL, cfg)
    | .exit .thrown cfg => cfg.fail env
    | .exit .aborted _ => none
    | .next cfg => if cfg.mThreadPools.size < 1 then cfg.fail env else some (.SUCCESS, cfg)

/-- A turn of the loop of `initStages`, with `n` stages made. -/
def newStage (n : ℕ) (stageName : Str) (cfg : SedaConfig) : Turn SedaExit SedaConfig :=
  match (props.getSection stageName).find? (ascii "ThreadId") with
  | none => .exit .ret cfg
  | some threadName =>
    if threadName = [] then .exit .ret cfg
    else
      let cfg := cfg.lookupPool threadName
      match env.makeInstance n stageName with
      | .null => .exit (if env.asserts then .aborted else .ret) cfg
      | .thrown => .exit .thrown cfg
      | .object =>
        let t := cfg.pool threadName
        let cfg := cfg.setStage stageName { id := n, thPool := t }
        -- `setPool` asserts that there is a pool
        if env.asserts ∧ t = none then .exit .aborted cfg else .next cfg

def initStages (cfg : SedaConfig) : Option (SedaStatus × SedaConfig) :=
  match (props.getSection SEDA_BASE_NAME).find? (ascii "STAGES") with
  | none => cfg.fail env
  | some stageNames =>
    let cfg := { cfg with
      mStageNames := cfg.mStageNames ++ CLstring.splitString stageNames CFG_DELIMIT_TAG }
    match walk (newStage env props) 0 cfg.mStageNames cfg with
    | .exit .aborted _ => none
    | .exit _ cfg => cfg.fail env
    | .next cfg => if cfg.mStages.size < 1 then cfg.fail env else some (.SUCCESS, cfg)

/-- The names of the stages next to a stage. -/
def nextStageNames (stageName : Str) : List Str :=
  match (props.getSection stageName).find? (ascii "NextStages") with
  | none => []
  | some nextStageNames => CLstring.splitString nextStageNames CFG_DELIMIT_TAG

/-- A turn of the inner loop of `genNextStages`, which links the first stage to the second, with `n`
links made. -/
def pushStage (n : ℕ) (link : Str × Str) (cfg : SedaConfig) : Turn SedaExit SedaConfig :=
  let cfg := cfg.lookupStage link.2
  let nextStage := cfg.stage link.2
  match cfg.stage link.1 with
  | none => .exit .aborted cfg
  | some stage =>
    -- `pushStage` asserts that there is a stage to push
    if env.asserts ∧ (nextStage = none ∨ stage.connected) then .exit .aborted cfg
    else if env.pushThrows n then .exit .thrown cfg
    else .next (cfg.setStage link.1
      { stage with nextStageList := stage.nextStageList ++ [nextStage.map (·.id)] })

/-- The outer loop of `genNextStages`. -/
def linkStages : ℕ → List Str → SedaConfig → Turn SedaExit SedaConfig
  | _, [], cfg => .next cfg
  | n, stageName :: rest, cfg =>
    let links := (nextStageNames props stageName).map fun next => (stageName, next)
    match walk (pushStage env) n links (cfg.lookupStage stageName) with
    | .next cfg => linkStages (n + links.length) rest cfg
    | .exit e cfg => .exit e cfg

def genNextStages (cfg : SedaConfig) : Option (SedaStatus × SedaConfig) :=
  match linkStages env props 0 cfg.mStageNames cfg with
  | .exit .aborted _ => none
  | .exit _ cfg => cfg.fail env
  | .next cfg => some (.SUCCESS, cfg)

/-- One step after the other, as long as they succeed. -/
def andThen (res : Option (SedaStatus × SedaConfig))
    (step : SedaConfig → Option (SedaStatus × SedaConfig)) : Option (SedaStatus × SedaConfig) :=
  res.bind fun (status, cfg) => if status = .SUCCESS then step cfg else some (status, cfg)

/-- What `initEventHistory` sets is not read here. -/
def instantiate (cfg : SedaConfig) : Option (SedaStatus × SedaConfig) :=
  andThen (andThen (cfg.initThreadPool env props) (initStages env props)) (genNextStages env props)

/-- `disconnect`, of a stage that is connected. -/
def Stage.disconnect (stage : Stage) : Stage :=
  if stage.connected then { stage with connected := false, thPool := none, nextStageList := [] }
  else stage

def cleanup (cfg : SedaConfig) : Option SedaConfig :=
  { cfg with mStages := cfg.mStages.mapVals fun _ stage => stage.map Stage.disconnect }.clearconfig
    env

/-- A turn of the loop of `start`, which connects a stage. One without a pool cannot schedule what
it has in its queue. -/
def connect (_ : ℕ) (entry : Str × Option Stage) (cfg : SedaConfig) : Turn SedaExit SedaConfig :=
  match entry with
  | (_, none) => .next cfg
  | (name, some stage) =>
    if env.asserts ∧ (stage.connected ∨ stage.thPool = none) then .exit .aborted cfg
    else if env.ready name then
      if stage.qlen ≠ 0 ∧ stage.thPool = none then .exit .aborted cfg
      else .next (cfg.setStage name { stage with connected := true })
    else .exit .ret cfg

def start (cfg : SedaConfig) : Option (SedaStatus × SedaConfig) :=
  if env.asserts ∧ cfg.mThreadPools.size = 0 then none
  else match walk (connect env) 0 cfg.mStages.entries cfg with
    | .exit .aborted _ => none
    | .exit _ cfg => (cfg.cleanup env).map fun cfg => (.INITFAIL, cfg)
    | .next cfg => some (.SUCCESS, cfg)

def init (cfg : SedaConfig) : Option (SedaStatus × SedaConfig) :=
  if env.asserts ∧ ¬(cfg.mStages.size = 0 ∧ cfg.mThreadPools.size = 0) then none
  else andThen (cfg.instantiate env props) (start env)

end Init

/-- The lengths of the queues, unless there is a stage that is null. -/
def getStageQueueStatus (cfg : SedaConfig) : Option (List ℕ) :=
  cfg.mStages.entries.mapM fun e => e.2.map (·.qlen)

end SedaConfig

end Longda
