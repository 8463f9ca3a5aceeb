import AgentWorx.Core.RedisKeys
import AgentWorx.Infra.World

/-!
# The operational state of an agent type

The functions of `infra/redis_client.py` that the modelled requests use. A pipeline is one call: its
commands take effect together.
-/

namespace AgentWorx

def agentStateKey (agentType : String) : String := s!"agent:{agentType}:state"

def readinessKey (agentType : String) : String := s!"agent:{agentType}:readiness"

def contextStreamKey (agentType : String) : String := s!"agent:{agentType}:context"

/-- `float(text)` of a value read from Redis. -/
def RedisValue.toFloat : RedisValue → Except Exn ℚ
  | .float q => .ok q
  | .text s => .error (.valueError s!"could not convert string to float: '{s}'")

/-- `value or default` for a value read from Redis: an empty text counts as absent. -/
def RedisValue.orDefault (value : Option RedisValue) (default : RedisValue) : RedisValue :=
  match value with
  | none | some (.text "") => default
  | some v => v

def redisGet (key : String) : Py (Option RedisValue) :=
  fun w => w.call .redis fun w => (.ok (w.redis key), w)

def redisSet (key : String) (value : RedisValue) : Py Unit :=
  fun w => w.call .redis fun w => (.ok (), w.setRedis key (some value))

def redisDelete (key : String) : Py Unit :=
  fun w => w.call .redis fun w => (.ok (), w.setRedis key none)

/-- The dict returned by `get_agent_state`. -/
structure AgentState where
  phase : RedisValue
  learningRate : ℚ
  readinessScore : ℚ
  proposalReady : Bool
  certReady : Bool

/-- The phase that `get_agent_state` reads: a missing key reads as apprentice. -/
def readPhase (redis : String → Option RedisValue) (agentType : String) : RedisValue :=
  RedisValue.orDefault (redis (agentPhaseKey agentType)) (.text Phase.apprentice.value)

/-- The learning rate that `get_agent_state` reads. -/
def readLearningRate (redis : String → Option RedisValue) (agentType : String) : Except Exn ℚ :=
  (RedisValue.orDefault (redis (agentLearningRateKey agentType)) (.float 1)).toFloat

/-- What `get_agent_state` makes of the values in Redis. -/
def readAgentState (redis : String → Option RedisValue) (agentType : String) :
    Except Exn AgentState := do
  let score := RedisValue.orDefault (redis (agentReadinessScoreKey agentType)) (.float 0)
  return {
    phase := readPhase redis agentType
    learningRate := ← readLearningRate redis agentType
    readinessScore := ← score.toFloat
    proposalReady := redis (agentProposalReadyKey agentType) = some (.text "true")
    certReady := redis (agentCertReadyKey agentType) = some (.text "true") }

def getAgentState (agentType : String) : Py AgentState :=
  fun w => w.call .redis fun w => (readAgentState w.redis agentType, w)

/-- The two commands of the pipeline of `set_agent_phase`. -/
def World.setPhase (w : World) (agentType : String) (phase : Phase) (learningRate : ℚ) : World :=
  (w.setRedis (agentPhaseKey agentType) (some (.text phase.value))).setRedis
    (agentLearningRateKey agentType) (some (.float learningRate))

def setAgentPhase (agentType : String) (phase : Phase) (learningRate : ℚ) : Py Unit :=
  fun w => w.call .redis fun w => (.ok (), w.setPhase agentType phase learningRate)

/-- `Phase(value)` -/
def RedisValue.toPhase : RedisValue → Except Exn Phase
  | .text s =>
    match Phase.ofValue s with
    | some p => .ok p
    | none => .error (.valueError s!"'{s}' is not a valid Phase")
  | .float _ => .error (.valueError "a number is not a valid Phase")

end AgentWorx
