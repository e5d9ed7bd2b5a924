import CatalystNode.ConsensusPhases
import CatalystNode.WireDecode

namespace CatalystNode

open ByteVector HexCodec CanonicalList

inductive MessageType where
  | producerQuantity
  | producerCandidate
  | producerVote
  | producerOutput
  | consensusSync
  deriving DecidableEq, Repr

structure MessageEnvelope where
  messageType : MessageType
  payload : Bytes
  deriving DecidableEq

inductive Phase where
  | construction
  | campaigning
  | voting
  | synchronization
  deriving DecidableEq, Repr

def Phase.name : Phase → String
  | .construction => "construction"
  | .campaigning => "campaigning"
  | .voting => "voting"
  | .synchronization => "synchronization"

structure ConsensusConfig where
  constructionPhaseMs : UInt64
  campaigningPhaseMs : UInt64
  votingPhaseMs : UInt64
  synchronizationPhaseMs : UInt64

def ConsensusConfig.phaseMs (config : ConsensusConfig) : Phase → UInt64
  | .construction => config.constructionPhaseMs
  | .campaigning => config.campaigningPhaseMs
  | .voting => config.votingPhaseMs
  | .synchronization => config.synchronizationPhaseMs

/-- What a node meets in one cycle: its settings, the envelopes buffered before it and received in
each collection window, its clock, and which phases time out or cannot send. -/
structure NodeCycle where
  config : ConsensusConfig
  rewardConfig : RewardConfig
  networkReceiver : Bool
  pendingEnvelopes : List MessageEnvelope
  quantityWindow : List MessageEnvelope
  candidateWindow : List MessageEnvelope
  voteWindow : List MessageEnvelope
  nowMs : Phase → UInt64
  timedOut : Phase → Bool
  sendError : Phase → Option String
  lsuSendError : Option String

def maxPendingEnvelopes : Nat := 10000

/-- A full buffer drops its oldest envelope. -/
def pushPendingBounded (pending : List MessageEnvelope) (env : MessageEnvelope) :
    List MessageEnvelope :=
  (if maxPendingEnvelopes ≤ pending.length then pending.drop 1 else pending) ++ [env]

def drainPendingByType (want : MessageType) (pending : List MessageEnvelope) :
    List MessageEnvelope × List MessageEnvelope :=
  pending.partition (fun env => env.messageType = want)

structure PhaseBody (α : Type) where
  messageType : MessageType
  cycleNumber : α → UInt64
  producerId : α → ProducerId

def quantityBody : PhaseBody ProducerQuantity :=
  ⟨.producerQuantity, ProducerQuantity.cycleNumber, ProducerQuantity.producerId⟩

def candidateBody : PhaseBody ProducerCandidate :=
  ⟨.producerCandidate, ProducerCandidate.cycleNumber, ProducerCandidate.producerId⟩

def voteBody : PhaseBody ProducerVote :=
  ⟨.producerVote, ProducerVote.cycleNumber, ProducerVote.producerId⟩

section Collect

variable {α : Type} [CatalystDeserialize α] (body : PhaseBody α) (currentCycle : UInt64)

def readMessage (env : MessageEnvelope) : Option α :=
  (deserialize env.payload).filter (fun a => body.cycleNumber a = currentCycle)

def acceptMessage (out : Std.ExtTreeMap ProducerId α) (env : MessageEnvelope) :
    Std.ExtTreeMap ProducerId α :=
  match readMessage body currentCycle env with
  | none => out
  | some a => out.insert (body.producerId a) a

/-- Envelopes of another type are buffered for a later phase. -/
def receiveMessage (s : Std.ExtTreeMap ProducerId α × List MessageEnvelope)
    (env : MessageEnvelope) : Std.ExtTreeMap ProducerId α × List MessageEnvelope :=
  if env.messageType = body.messageType then (acceptMessage body currentCycle s.1 env, s.2)
  else (s.1, pushPendingBounded s.2 env)

def collectMessages (networkReceiver : Bool) (pending window : List MessageEnvelope) :
    List α × List MessageEnvelope :=
  if networkReceiver then
    let drained := drainPendingByType body.messageType pending
    let out := drained.1.foldl (acceptMessage body currentCycle) ∅
    let s := window.foldl (receiveMessage body currentCycle) (out, drained.2)
    (s.1.toList.map Prod.snd, s.2)
  else ([], pending)

def dedupByProducerId (messages : List α) : List α :=
  (collectById body.producerId messages).toList.map Prod.snd

end Collect

def collectProducerQuantities := collectMessages quantityBody

def collectProducerCandidates := collectMessages candidateBody

def collectProducerVotes := collectMessages voteBody

def NodeCycle.runPhase {α : Type} (net : NodeCycle) (phase : Phase)
    (result : Except ConsensusError α) : Except ConsensusError α :=
  if net.timedOut phase then .error (.phaseTimeout phase.name (net.config.phaseMs phase))
  else match result with
    | .error e => .error e
    | .ok a => match net.sendError phase with
      | some message => .error (.network message)
      | none => .ok a

section Run

variable (blake2b512 : Bytes → ByteVec 64) (currentCycle : UInt64) (net : NodeCycle)

def executeCampaigningPhase (p : Producer) (quantities : List ProducerQuantity) :
    Except ConsensusError (Producer × ProducerCandidate) :=
  findMajorityCandidate blake2b512 p (collectById ProducerQuantity.producerId quantities)
    p.requiredMajority (net.nowMs .campaigning)

def executeVotingPhase (p : Producer) (candidates : List ProducerCandidate) :
    Except ConsensusError (Producer × ProducerVote) :=
  createFinalLedgerUpdate blake2b512 p (collectById ProducerCandidate.producerId candidates)
    p.requiredMajority net.rewardConfig (net.nowMs .voting)

def executeSynchronizationPhase (p : Producer) (votes : List ProducerVote) :
    Except ConsensusError ProducerOutput :=
  finalizeLedgerUpdate blake2b512 p (collectById ProducerVote.producerId votes) p.requiredMajority
    (net.nowMs .synchronization)

def runToVote (p : Producer) (transactions : List TransactionEntry) :
    Except ConsensusError ((Producer × ProducerVote) × List MessageEnvelope) := do
  let built ← net.runPhase .construction
    (.ok (buildPartialUpdate blake2b512 p transactions (net.nowMs .construction)))
  let heard := collectProducerQuantities currentCycle net.networkReceiver net.pendingEnvelopes
    net.quantityWindow
  let campaigned ← net.runPhase .campaigning (executeCampaigningPhase blake2b512 net built.1
    (dedupByProducerId quantityBody (heard.1 ++ [built.2])))
  let heard := collectProducerCandidates currentCycle net.networkReceiver heard.2 net.candidateWindow
  let voted ← net.runPhase .voting (executeVotingPhase blake2b512 net campaigned.1
    (dedupByProducerId candidateBody (heard.1 ++ [campaigned.2])))
  return (voted, heard.2)

def runFourPhaseConsensus (p : Producer) (transactions : List TransactionEntry) :
    Except ConsensusError (Option LedgerStateUpdate) := do
  let voted ← runToVote blake2b512 currentCycle net p transactions
  let heard := collectProducerVotes currentCycle net.networkReceiver voted.2 net.voteWindow
  let _ ← net.runPhase .synchronization (executeSynchronizationPhase blake2b512 net voted.1.1
    (dedupByProducerId voteBody (heard.1 ++ [voted.1.2])))
  match voted.1.1.ledgerUpdate, net.lsuSendError with
  | some _, some message => .error (.network message)
  | ledgerUpdate, _ => .ok ledgerUpdate

end Run

end CatalystNode
