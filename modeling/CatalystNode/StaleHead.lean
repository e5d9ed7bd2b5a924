import CatalystNode.InboundSync

namespace CatalystNode

open MachineInt FoldTrace

structure LsuRangeResponse where
  requester : String
  refs : List LsuCidGossip

/-- How far the network is ahead, as far as the peers' messages tell, and since when nothing was applied. -/
structure CatchupState where
  observedHeadCycle : UInt64 := 0
  staleLastHead : UInt64 := 0
  staleSinceMs : Option UInt64 := none
  confirmedNextCycle : Option UInt64 := none

structure CatchupConfig where
  producerIdSelf : String
  gossipCycleMs : UInt64
  lsuWallLeadCap : UInt64
  staleObservedHeadResetMs : UInt64
  staleObservedHeadMaxForgivableGap : UInt64

def shouldResetStaleObservedHead (elapsedMs budgetMs : UInt64) (peerConfirmedReachable : Bool)
    (gap maxForgivableGap : UInt64) : Bool :=
  if maxForgivableGap < gap then false
  else
    let effectiveBudgetMs := if peerConfirmedReachable then saturatingMulU64 budgetMs 5 else budgetMs
    effectiveBudgetMs < elapsedMs

namespace CatchupState

def tick (config : CatchupConfig) (state : CatchupState) (nowMs head : UInt64) : CatchupState :=
  if head < state.observedHeadCycle then
    if state.staleLastHead ≠ head then { state with staleLastHead := head, staleSinceMs := some nowMs }
    else
      let since := state.staleSinceMs.getD nowMs
      let peerConfirmedReachable := state.confirmedNextCycle = some (saturatingAddU64 head 1)
      let gap := saturatingSubU64 state.observedHeadCycle head
      if shouldResetStaleObservedHead (saturatingSubU64 nowMs since) config.staleObservedHeadResetMs
          peerConfirmedReachable gap config.staleObservedHeadMaxForgivableGap then
        { state with observedHeadCycle := head, staleSinceMs := some nowMs, confirmedNextCycle := none }
      else { state with staleSinceMs := some since }
  else { state with staleLastHead := head, staleSinceMs := none }

/-- A reference to an update of the cycle has come in, or a gap was found below an applied head. -/
def observe (state : CatchupState) (cycle : UInt64) : CatchupState :=
  { state with observedHeadCycle := max state.observedHeadCycle cycle }

/-- The first half of the handler of a response, under its own lock: the admissible references raise the
head. -/
def observeResponse (config : CatchupConfig) (state : CatchupState) (nowMs : UInt64)
    (resp : LsuRangeResponse) : CatchupState :=
  if resp.requester ≠ config.producerIdSelf then state
  else match ((resp.refs.map (·.cycle)).filter (fun cycle => p2pLsuCycleWithinWallLead cycle nowMs
      config.gossipCycleMs config.lsuWallLeadCap)).max? with
    | none => state
    | some maxCycle => state.observe maxCycle

/-- The second half, under a lock taken anew: a reference to the next cycle confirms it. -/
def confirmResponse (config : CatchupConfig) (state : CatchupState) (applied : UInt64)
    (resp : LsuRangeResponse) : CatchupState :=
  let need := saturatingAddU64 applied 1
  if resp.requester = config.producerIdSelf ∧ resp.refs.any (·.cycle = need) then
    { state with confirmedNextCycle := some need }
  else state

end CatchupState

/-- What happens to the catch-up state. The halves of a response are two events, between which others may
come, and the second finds the applied head of its own moment. -/
inductive CatchupEvent where
  | tick (nowMs head : UInt64)
  | observe (cycle : UInt64)
  | observeResponse (nowMs : UInt64) (resp : LsuRangeResponse)
  | confirmResponse (applied : UInt64) (resp : LsuRangeResponse)

def CatchupState.step (config : CatchupConfig) (state : CatchupState) : CatchupEvent → CatchupState
  | .tick nowMs head => state.tick config nowMs head
  | .observe cycle => state.observe cycle
  | .observeResponse nowMs resp => state.observeResponse config nowMs resp
  | .confirmResponse applied resp => state.confirmResponse config applied resp

structure TickRecord where
  nowMs : UInt64
  head : UInt64
  observed : UInt64

def TickRecord.of : CatchupState × CatchupEvent → Option TickRecord
  | (state, .tick nowMs head) => some ⟨nowMs, head, state.observedHeadCycle⟩
  | _ => none

def catchUp (config : CatchupConfig) (events : List CatchupEvent) : CatchupState :=
  events.foldl (CatchupState.step config) {}

def tickRecords (config : CatchupConfig) (events : List CatchupEvent) : List TickRecord :=
  (foldSteps (CatchupState.step config) {} events).filterMap TickRecord.of

/-- The last ticks of a run, from one at the given time on, all found the head applied and a higher one
observed; the ticks before them were no later. -/
def BehindSince (records : List TickRecord) (since head : UInt64) : Prop :=
  ∃ earlier first rest, records = earlier ++ first :: rest ∧ first.nowMs = since ∧
    (∀ record ∈ earlier, record.nowMs ≤ since) ∧
    ∀ record ∈ first :: rest, record.head = head ∧ head < record.observed

/-- What a tick can do: find the node caught up, start the timer, let it run on, or give up the observed
head. -/
inductive Ticked (config : CatchupConfig) (state : CatchupState) (nowMs head : UInt64) :
    CatchupState → Prop
  | caughtUp (upTo : state.observedHeadCycle ≤ head) :
    Ticked config state nowMs head { state with staleLastHead := head, staleSinceMs := none }
  | started (behind : head < state.observedHeadCycle) :
    Ticked config state nowMs head { state with staleLastHead := head, staleSinceMs := some nowMs }
  | waited (behind : head < state.observedHeadCycle) (same : state.staleLastHead = head)
      (running : state.staleSinceMs.isSome = true) : Ticked config state nowMs head state
  | reset (since : UInt64) (behind : head < state.observedHeadCycle) (same : state.staleLastHead = head)
      (running : state.staleSinceMs = some since)
      (allowed : shouldResetStaleObservedHead (saturatingSubU64 nowMs since)
        config.staleObservedHeadResetMs (state.confirmedNextCycle = some (saturatingAddU64 head 1))
        (saturatingSubU64 state.observedHeadCycle head)
        config.staleObservedHeadMaxForgivableGap = true) :
    Ticked config state nowMs head
      { state with observedHeadCycle := head, staleSinceMs := some nowMs, confirmedNextCycle := none }

section Timer

variable {config : CatchupConfig} {state after : CatchupState} {nowMs head since : UInt64}
  {records : List TickRecord}

theorem budget_lt_of_shouldReset {elapsedMs budgetMs gap maxForgivableGap : UInt64} {confirmed : Bool}
    (allowed : shouldResetStaleObservedHead elapsedMs budgetMs confirmed gap maxForgivableGap = true) :
    gap ≤ maxForgivableGap ∧ budgetMs.toNat < elapsedMs.toNat ∧
      (confirmed = true → 5 * budgetMs.toNat < elapsedMs.toNat) := by
  unfold shouldResetStaleObservedHead at allowed
  split at allowed
  next => cases allowed
  next small =>
    refine ⟨UInt64.not_lt.mp small, ?_⟩
    have elapsed := UInt64.lt_iff_toNat_lt.mp (of_decide_eq_true allowed)
    have bound := elapsedMs.toNat_lt
    cases confirmed with
    | false => exact ⟨elapsed, fun false => by cases false⟩
    | true =>
      rw [if_pos rfl, toNat_saturatingMulU64] at elapsed
      have five : (5 : UInt64).toNat = 5 := rfl
      rw [five] at elapsed
      omega

theorem ticked_tick (config : CatchupConfig) (state : CatchupState) (nowMs head : UInt64) :
    Ticked config state nowMs head (state.tick config nowMs head) := by
  unfold CatchupState.tick
  split
  next behind =>
    split
    next => exact .started behind
    next same =>
      have same : state.staleLastHead = head := not_not.mp same
      dsimp only
      cases running : state.staleSinceMs with
      | none =>
        have elapsed : (saturatingSubU64 nowMs nowMs).toNat = 0 := by
          rw [toNat_saturatingSubU64, Nat.sub_self]
        rw [Option.getD_none]
        split
        next allowed =>
          -- A timer that starts here has not run at all.
          have ran := (budget_lt_of_shouldReset allowed).2.1
          omega
        next =>
          have started : Ticked config state nowMs head
              { state with staleLastHead := head, staleSinceMs := some nowMs } := .started behind
          rw [← same] at started ⊢
          exact started
      | some since =>
        rw [Option.getD_some]
        split
        next allowed => exact .reset since behind same running allowed
        next =>
          rw [← running]
          exact .waited behind same (by rw [running]; rfl)
  next upTo => exact .caughtUp (UInt64.not_lt.mp upTo)

theorem BehindSince.append (behind : BehindSince records since head) {record : TickRecord}
    (same : record.head = head) (above : head < record.observed) :
    BehindSince (records ++ [record]) since head := by
  obtain ⟨earlier, first, rest, rfl, atFirst, before, stretch⟩ := behind
  refine ⟨earlier, first, rest ++ [record], by simp, atFirst, before, ?_⟩
  intro other listed
  rw [← List.cons_append] at listed
  rcases List.mem_append.mp listed with listed | listed
  · exact stretch other listed
  · rw [List.mem_singleton.mp listed]
    exact ⟨same, above⟩

theorem behindSince_last {record : TickRecord} (before : ∀ other ∈ records, other.nowMs ≤ record.nowMs)
    (above : record.head < record.observed) :
    BehindSince (records ++ [record]) record.nowMs record.head := by
  refine ⟨records, record, [], rfl, rfl, before, ?_⟩
  intro other listed
  rw [List.mem_singleton.mp listed]
  exact ⟨rfl, above⟩

def TimerHolds (records : List TickRecord) (state : CatchupState) : Prop :=
  ∀ since, state.staleSinceMs = some since → BehindSince records since state.staleLastHead

theorem TimerHolds.tick (holds : TimerHolds records state)
    (clock : ∀ record ∈ records, record.nowMs ≤ nowMs) :
    TimerHolds (records ++ [⟨nowMs, head, state.observedHeadCycle⟩]) (state.tick config nowMs head) := by
  have ticked := ticked_tick config state nowMs head
  generalize state.tick config nowMs head = after at ticked
  intro since running
  cases ticked with
  | caughtUp => cases running
  | started behind =>
    cases Option.some.inj running
    exact behindSince_last clock behind
  | waited behind same =>
    rw [same]
    exact (same ▸ holds since running).append rfl behind
  | reset _ behind same =>
    cases Option.some.inj running
    dsimp only
    rw [same]
    exact behindSince_last clock behind

theorem TimerHolds.congr (holds : TimerHolds records state)
    (sinceMs : after.staleSinceMs = state.staleSinceMs) (lastHead : after.staleLastHead = state.staleLastHead) :
    TimerHolds records after := by
  intro since running
  rw [lastHead]
  exact holds since (sinceMs ▸ running)

/-- Only ticks move the timer. -/
theorem TimerHolds.step (holds : TimerHolds records state) {event : CatchupEvent}
    (other : TickRecord.of (state, event) = none) : TimerHolds records (state.step config event) := by
  cases event with
  | tick => cases other
  | observe cycle => exact holds.congr rfl rfl
  | observeResponse nowMs resp =>
    rw [CatchupState.step, CatchupState.observeResponse]
    split
    next => exact holds
    next => split <;> exact holds.congr rfl rfl
  | confirmResponse applied resp =>
    rw [CatchupState.step, CatchupState.confirmResponse]
    split <;> exact holds.congr rfl rfl

theorem tickRecords_concat (config : CatchupConfig) (events : List CatchupEvent) (event : CatchupEvent) :
    tickRecords config (events ++ [event]) =
      tickRecords config events ++ (TickRecord.of (catchUp config events, event)).toList := by
  unfold tickRecords catchUp
  rw [foldSteps_append, List.filterMap_append]
  cases of : TickRecord.of (events.foldl (CatchupState.step config) {}, event) with
  | none => simp [foldSteps, of]
  | some record => simp [foldSteps, of]

theorem timerHolds_catchUp {events : List CatchupEvent}
    (clock : (tickRecords config events).Pairwise (·.nowMs ≤ ·.nowMs)) :
    TimerHolds (tickRecords config events) (catchUp config events) := by
  induction events using List.reverseRecOn with
  | nil =>
    intro since running
    cases running
  | append_singleton events event ih =>
    rw [tickRecords_concat] at clock ⊢
    have before := ih (List.pairwise_append.mp clock).1
    have stepped : catchUp config (events ++ [event]) = (catchUp config events).step config event :=
      List.foldl_append
    rw [stepped]
    cases of : TickRecord.of (catchUp config events, event) with
    | none =>
      rw [Option.toList_none, List.append_nil]
      exact before.step of
    | some record =>
      cases event with
      | tick nowMs head =>
        cases Option.some.inj of
        refine before.tick (fun record listed => ?_)
        exact (List.pairwise_append.mp clock).2.2 record listed _ List.mem_cons_self
      | observe | observeResponse | confirmResponse => cases of

end Timer

/-- A tick that lowers the observed head lowers it to the applied head, by no more than may be forgiven, after
more than the budget, and more than five times the budget if a peer has confirmed the next cycle, in which
every tick found this head applied and a higher one observed. -/
theorem lowered_justified (config : CatchupConfig) (events : List CatchupEvent) (nowMs head : UInt64)
    (clock : (tickRecords config (events ++ [.tick nowMs head])).Pairwise (·.nowMs ≤ ·.nowMs))
    (lowered : ((catchUp config events).tick config nowMs head).observedHeadCycle <
      (catchUp config events).observedHeadCycle) :
    ((catchUp config events).tick config nowMs head).observedHeadCycle = head ∧
      (catchUp config events).observedHeadCycle.toNat - head.toNat ≤
        config.staleObservedHeadMaxForgivableGap.toNat ∧
      ∃ since, BehindSince (tickRecords config (events ++ [.tick nowMs head])) since head ∧
        config.staleObservedHeadResetMs.toNat < nowMs.toNat - since.toNat ∧
        ((catchUp config events).confirmedNextCycle = some (head + 1) →
          5 * config.staleObservedHeadResetMs.toNat < nowMs.toNat - since.toNat) := by
  rw [tickRecords_concat] at clock ⊢
  have holds := timerHolds_catchUp (List.pairwise_append.mp clock).1
  have ticked := ticked_tick config (catchUp config events) nowMs head
  generalize (catchUp config events).tick config nowMs head = after at ticked lowered ⊢
  cases ticked with
  | caughtUp | started | waited => exact absurd lowered (UInt64.lt_irrefl _)
  | reset since behind same running allowed =>
    obtain ⟨small, budget, fivefold⟩ := budget_lt_of_shouldReset allowed
    rw [toNat_saturatingSubU64] at budget fivefold
    have next : saturatingAddU64 head 1 = head + 1 := by
      have below := UInt64.lt_iff_toNat_lt.mp behind
      have bound := (catchUp config events).observedHeadCycle.toNat_lt
      have one : (1 : UInt64).toNat = 1 := rfl
      rw [← UInt64.toNat_inj, toNat_saturatingAddU64, UInt64.toNat_add, one]
      omega
    refine ⟨rfl, ?_, since, ?_, budget, ?_⟩
    · have fits := UInt64.le_iff_toNat_le.mp small
      rwa [toNat_saturatingSubU64] at fits
    · exact (same ▸ holds since running).append rfl behind
    · intro confirmed
      exact fivefold (decide_eq_true (by rw [next]; exact confirmed))

def sampleCatchup : CatchupConfig := ⟨"self", 20000, 8, 60000, 3⟩

/-- A head that nobody serves is given up after a minute. -/
theorem lowered_justified_minute :
    ((catchUp sampleCatchup [.observe 1, .tick 0 0]).tick sampleCatchup 60001 0).observedHeadCycle = 0 :=
  (lowered_justified sampleCatchup [.observe 1, .tick 0 0] 60001 0 (by decide) (by decide)).1

end CatalystNode
