import CatalystNode.HexCodec
import CatalystNode.FoldTrace

namespace CatalystNode

open ByteVector HexCodec FoldTrace

abbrev Uuid := BitVec 128

def uuidText (id : Uuid) : String :=
  let digits := (encodeString (beBytes 16 id.toNat).toList).toList
  String.ofList (digits.take 8 ++ '-' :: (digits.drop 8).take 4 ++ '-' :: (digits.drop 12).take 4 ++
    '-' :: (digits.drop 16).take 4 ++ '-' :: digits.drop 20)

inductive EventType where
  | blockFinalized
  | transactionConfirmed
  | transactionPending
  | contractEvent
  | tokenTransfer
  | balanceUpdate
  | consensusPhase
  | peerConnected
  | peerDisconnected
  | networkStats
  | custom (name : String)
  deriving DecidableEq

structure BlockchainEvent where
  id : Uuid
  eventType : EventType
  blockNumber : UInt64
  contractAddress : Option (ByteVec 21)
  addresses : List (ByteVec 21)
  timestamp : UInt64
  topics : List String
  deriving DecidableEq

structure EventFilter where
  eventTypes : Option (List EventType)
  addresses : Option (List (ByteVec 21))
  contracts : Option (List (ByteVec 21))
  topics : Option (List String)
  fromBlock : Option UInt64
  toBlock : Option UInt64
  fromTimestamp : Option UInt64
  toTimestamp : Option UInt64
  deriving DecidableEq

def EventFilter.new : EventFilter := ⟨none, none, none, none, none, none, none, none⟩

def BlockchainEvent.matchesFilter (event : BlockchainEvent) (filter : EventFilter) : Bool :=
  filter.eventTypes.all (fun types => event.eventType ∈ types) &&
    filter.addresses.all (fun listed => event.addresses.any (· ∈ listed)) &&
    filter.contracts.all (fun contracts => event.contractAddress.any (· ∈ contracts)) &&
    filter.topics.all (fun listed => event.topics.any (· ∈ listed)) &&
    filter.fromBlock.all (· ≤ event.blockNumber) && filter.toBlock.all (event.blockNumber ≤ ·) &&
    filter.fromTimestamp.all (· ≤ event.timestamp) && filter.toTimestamp.all (event.timestamp ≤ ·)

structure EventSubscription where
  id : Uuid
  filter : EventFilter
  active : Bool
  connectionId : String
  deriving DecidableEq

structure ReplayBuffer where
  blocks : List (UInt64 × List BlockchainEvent)
  distinct : (blocks.map Prod.fst).Nodup
  filed : ∀ block ∈ blocks, ∀ event ∈ block.2, event.blockNumber = block.1

def ReplayBuffer.empty : ReplayBuffer := ⟨[], List.nodup_nil, fun _ listed => by cases listed⟩

/-- The maps of the engine, which records no events while replay is off. -/
structure FilterEngine where
  subscriptions : Uuid → Option EventSubscription
  replayBuffer : ReplayBuffer
  broadcasters : Finset Uuid
  maxFiltersPerConnection : Nat
  enableReplay : Bool
  replayBufferSize : Nat
  connectionSubscriptions : String → Option (List Uuid)
  idle : enableReplay = false → replayBuffer.blocks = []

inductive BusError where
  | invalid (message : String)
  | notFound (message : String)
  | missingParameter (message : String)
  deriving DecidableEq

def FilterEngine.new (maxFiltersPerConnection : Nat) (enableReplay : Bool) (replayBufferSize : Nat) :
    FilterEngine where
  subscriptions _ := none
  replayBuffer := .empty
  broadcasters := ∅
  maxFiltersPerConnection := maxFiltersPerConnection
  enableReplay := enableReplay
  replayBufferSize := min replayBufferSize 10000
  connectionSubscriptions _ := none
  idle _ := rfl

namespace FilterEngine

def listed (engine : FilterEngine) (connectionId : String) : List Uuid :=
  (engine.connectionSubscriptions connectionId).getD []

def setConnection (engine : FilterEngine) (connectionId : String) (ids : Option (List Uuid)) : FilterEngine :=
  { engine with connectionSubscriptions := Function.update engine.connectionSubscriptions connectionId ids }

def putSubscription (engine : FilterEngine) (id : Uuid) (subscription : EventSubscription) : FilterEngine :=
  { engine with
    subscriptions := Function.update engine.subscriptions id (some subscription)
    broadcasters := insert id engine.broadcasters }

def dropSubscription (engine : FilterEngine) (id : Uuid) : FilterEngine :=
  { engine with
    subscriptions := Function.update engine.subscriptions id none
    broadcasters := engine.broadcasters.erase id }

/-- A connection at its limit keeps its list, which is made if there was none. -/
def addSubscription (engine : FilterEngine) (id : Uuid) (connectionId : String) (filter : EventFilter) :
    FilterEngine × Except BusError Uuid :=
  let subs := engine.listed connectionId
  let limit := engine.maxFiltersPerConnection
  if limit ≤ subs.length then
    (engine.setConnection connectionId (some subs),
      .error (.invalid s!"Connection {connectionId} has reached maximum filter limit of {limit}"))
  else
    ((engine.putSubscription id ⟨id, filter, true, connectionId⟩).setConnection connectionId
      (some (subs ++ [id])), .ok id)

def removeSubscription (engine : FilterEngine) (id : Uuid) (connectionId : String) : FilterEngine :=
  (engine.dropSubscription id).setConnection connectionId
    ((engine.connectionSubscriptions connectionId).map (·.filter (· ≠ id)))

def removeConnectionSubscriptions (engine : FilterEngine) (connectionId : String) : FilterEngine :=
  match engine.connectionSubscriptions connectionId with
  | none => engine
  | some ids => ids.foldl dropSubscription (engine.setConnection connectionId none)

def updateSubscriptionFilter (engine : FilterEngine) (id : Uuid) (newFilter : EventFilter) :
    FilterEngine × Except BusError Unit :=
  match engine.subscriptions id with
  | some subscription =>
    ({ engine with subscriptions :=
        Function.update engine.subscriptions id (some { subscription with filter := newFilter }) }, .ok ())
  | none => (engine, .error (.notFound s!"Subscription {uuidText id} not found"))

/-- The REST handler, which refuses a request that names no connection. -/
def deleteSubscription (engine : FilterEngine) (id : Uuid) (connectionId : Option String) :
    FilterEngine × Except BusError Unit :=
  match connectionId with
  | none => (engine, .error (.missingParameter "connection_id parameter required"))
  | some connectionId => (engine.removeSubscription id connectionId, .ok ())

end FilterEngine

inductive SubscriptionCall where
  | add (id : Uuid) (connectionId : String) (filter : EventFilter)
  | remove (id : Uuid) (connectionId : String)
  | delete (id : Uuid) (connectionId : Option String)
  | removeConnection (connectionId : String)
  | updateFilter (id : Uuid) (newFilter : EventFilter)

namespace SubscriptionCall

def run (engine : FilterEngine) : SubscriptionCall → FilterEngine
  | .add id connectionId filter => (engine.addSubscription id connectionId filter).1
  | .remove id connectionId => engine.removeSubscription id connectionId
  | .delete id connectionId => (engine.deleteSubscription id connectionId).1
  | .removeConnection connectionId => engine.removeConnectionSubscriptions connectionId
  | .updateFilter id newFilter => (engine.updateSubscriptionFilter id newFilter).1

def drawn : SubscriptionCall → Option Uuid
  | .add id _ _ => some id
  | _ => none

def removesFor : SubscriptionCall → Option String
  | .remove _ connectionId | .removeConnection connectionId => some connectionId
  | .delete _ connectionId => connectionId
  | _ => none

def NamesOwner (engine : FilterEngine) : SubscriptionCall → Prop
  | .remove id connectionId | .delete id (some connectionId) =>
    ∀ subscription, engine.subscriptions id = some subscription → subscription.connectionId = connectionId
  | _ => True

def RemovesOwn (engine : FilterEngine) (call : SubscriptionCall) : Prop :=
  ∀ id subscription, engine.subscriptions id = some subscription →
    (call.run engine).subscriptions id = none → call.removesFor = some subscription.connectionId

end SubscriptionCall

structure Consistent (engine : FilterEngine) : Prop where
  listed : ∀ connectionId id, id ∈ engine.listed connectionId ↔
    ∃ subscription, engine.subscriptions id = some subscription ∧ subscription.connectionId = connectionId
  nodup : ∀ connectionId, (engine.listed connectionId).Nodup
  heard : ∀ id, (engine.subscriptions id).isSome = true → id ∈ engine.broadcasters

structure Owned (calls : List SubscriptionCall) (engine : FilterEngine) : Prop extends Consistent engine where
  created : ∀ id subscription, engine.subscriptions id = some subscription →
    ∃ filter, SubscriptionCall.add id subscription.connectionId filter ∈ calls

section Steps

variable {engine : FilterEngine}

theorem Consistent.same {after : FilterEngine} (consistent : Consistent engine)
    (subscriptions : after.subscriptions = engine.subscriptions)
    (listed : ∀ connectionId, after.listed connectionId = engine.listed connectionId)
    (broadcasters : after.broadcasters = engine.broadcasters) : Consistent after where
  listed connectionId id := by
    rw [listed, subscriptions]
    exact consistent.listed connectionId id
  nodup connectionId := by
    rw [listed]
    exact consistent.nodup connectionId
  heard id live := by
    rw [subscriptions] at live
    rw [broadcasters]
    exact consistent.heard id live

theorem listed_setConnection (connectionId other : String) (ids : Option (List Uuid)) :
    (engine.setConnection connectionId ids).listed other =
      if other = connectionId then ids.getD [] else engine.listed other := by
  unfold FilterEngine.listed FilterEngine.setConnection
  dsimp only
  split
  next same => rw [same, Function.update_self]
  next different => rw [Function.update_of_ne different]

theorem subscriptions_putSubscription (id other : Uuid) (subscription : EventSubscription) :
    (engine.putSubscription id subscription).subscriptions other =
      if other = id then some subscription else engine.subscriptions other :=
  Function.update_apply _ _ _ _

theorem subscriptions_dropSubscription (id other : Uuid) :
    (engine.dropSubscription id).subscriptions other =
      if other = id then none else engine.subscriptions other :=
  Function.update_apply _ _ _ _

theorem consistent_add {id : Uuid} (fresh : engine.subscriptions id = none) (connectionId : String)
    (filter : EventFilter) (consistent : Consistent engine) :
    Consistent (engine.addSubscription id connectionId filter).1 := by
  unfold FilterEngine.addSubscription
  dsimp only
  split
  next =>
    refine consistent.same rfl (fun other => ?_) rfl
    rw [listed_setConnection]
    split
    next same => rw [same, Option.getD_some]
    next => rfl
  next =>
    have unlisted : ∀ other, id ∉ engine.listed other := by
      intro other inside
      obtain ⟨subscription, live, -⟩ := (consistent.listed other id).mp inside
      rw [fresh] at live
      cases live
    constructor
    · intro other id'
      rw [listed_setConnection]
      change _ ↔ ∃ subscription, (engine.putSubscription id _).subscriptions id' = some subscription ∧ _
      rw [subscriptions_putSubscription]
      by_cases same : id' = id
      · subst same
        rw [if_pos rfl]
        constructor
        · intro inside
          split at inside
          next here => exact ⟨_, rfl, here.symm⟩
          next => exact absurd inside (unlisted other)
        · rintro ⟨subscription, live, owner⟩
          cases Option.some.inj live
          rw [if_pos owner.symm]
          exact List.mem_append_right _ (List.mem_singleton_self _)
      · rw [if_neg same, ← consistent.listed]
        split
        next here =>
          rw [here]
          change id' ∈ engine.listed connectionId ++ [id] ↔ _
          rw [List.mem_append, List.mem_singleton, or_iff_left same]
        next => rfl
    · intro other
      rw [listed_setConnection]
      split
      next =>
        rw [Option.getD_some, ← List.concat_eq_append]
        exact (consistent.nodup connectionId).concat (unlisted connectionId)
      next => exact consistent.nodup other
    · intro other live
      change ((engine.putSubscription id _).subscriptions other).isSome = true at live
      rw [subscriptions_putSubscription] at live
      split at live
      next same =>
        rw [same]
        exact Finset.mem_insert_self _ _
      next => exact Finset.mem_insert_of_mem (consistent.heard other live)

theorem listed_removeSubscription (id : Uuid) (connectionId other : String) :
    (engine.removeSubscription id connectionId).listed other =
      if other = connectionId then (engine.listed connectionId).filter (· ≠ id)
      else engine.listed other := by
  rw [FilterEngine.removeSubscription, listed_setConnection]
  split
  next =>
    unfold FilterEngine.listed
    cases engine.connectionSubscriptions connectionId <;> rfl
  next => rfl

theorem subscriptions_removeSubscription (id other : Uuid) (connectionId : String) :
    (engine.removeSubscription id connectionId).subscriptions other =
      if other = id then none else engine.subscriptions other :=
  subscriptions_dropSubscription id other

/-- A subscription that is removed for another connection stays in the list of its own. -/
theorem consistent_remove_iff (id : Uuid) (connectionId : String) (consistent : Consistent engine) :
    Consistent (engine.removeSubscription id connectionId) ↔
      ∀ subscription, engine.subscriptions id = some subscription → subscription.connectionId = connectionId := by
  constructor
  · intro after subscription live
    by_contra other
    have inside : id ∈ (engine.removeSubscription id connectionId).listed subscription.connectionId := by
      rw [listed_removeSubscription, if_neg other]
      exact (consistent.listed _ id).mpr ⟨subscription, live, rfl⟩
    obtain ⟨left, gone, -⟩ := (after.listed _ id).mp inside
    rw [subscriptions_removeSubscription, if_pos rfl] at gone
    cases gone
  · intro owner
    constructor
    · intro other id'
      rw [listed_removeSubscription, subscriptions_removeSubscription]
      by_cases same : id' = id
      · subst same
        rw [if_pos rfl]
        refine iff_of_false (fun inside => ?_) (fun ⟨_, gone, _⟩ => by cases gone)
        split at inside
        next => exact absurd rfl (of_decide_eq_true (List.mem_filter.mp inside).2)
        next different =>
          obtain ⟨subscription, live, its⟩ := (consistent.listed other id').mp inside
          exact different (its.symm.trans (owner subscription live))
      · rw [if_neg same, ← consistent.listed]
        split
        next here => rw [here, List.mem_filter, and_iff_left (decide_eq_true same)]
        next => rfl
    · intro other
      rw [listed_removeSubscription]
      split
      next => exact (consistent.nodup connectionId).filter _
      next => exact consistent.nodup other
    · intro other live
      rw [subscriptions_removeSubscription] at live
      split at live
      next => cases live
      next different => exact Finset.mem_erase.mpr ⟨different, consistent.heard other live⟩

theorem foldl_dropSubscription (ids : List Uuid) (engine : FilterEngine) :
    (∀ id, (ids.foldl FilterEngine.dropSubscription engine).subscriptions id =
        if id ∈ ids then none else engine.subscriptions id) ∧
      (∀ id, id ∈ (ids.foldl FilterEngine.dropSubscription engine).broadcasters ↔
        id ∈ engine.broadcasters ∧ id ∉ ids) ∧
      ∀ connectionId, (ids.foldl FilterEngine.dropSubscription engine).listed connectionId =
        engine.listed connectionId := by
  induction ids generalizing engine with
  | nil => simp
  | cons first ids ih =>
    obtain ⟨subscriptions, broadcasters, listed⟩ := ih (engine.dropSubscription first)
    refine ⟨fun id => (subscriptions id).trans ?_, fun id => (broadcasters id).trans ?_, listed⟩
    · rw [subscriptions_dropSubscription]
      simp only [List.mem_cons]
      split_ifs <;> first | rfl | tauto
    · rw [FilterEngine.dropSubscription, Finset.mem_erase, List.mem_cons, not_or]
      tauto

theorem removeConnectionSubscriptions_spec (connectionId : String) (engine : FilterEngine) :
    (∀ id, (engine.removeConnectionSubscriptions connectionId).subscriptions id =
        if id ∈ engine.listed connectionId then none else engine.subscriptions id) ∧
      (∀ id, id ∈ (engine.removeConnectionSubscriptions connectionId).broadcasters ↔
        id ∈ engine.broadcasters ∧ id ∉ engine.listed connectionId) ∧
      ∀ other, (engine.removeConnectionSubscriptions connectionId).listed other =
        if other = connectionId then [] else engine.listed other := by
  unfold FilterEngine.removeConnectionSubscriptions
  split
  next missing =>
    have empty : engine.listed connectionId = [] := by
      rw [FilterEngine.listed, missing, Option.getD_none]
    refine ⟨fun id => by rw [empty, if_neg List.not_mem_nil], fun id => by rw [empty]; simp, fun other => ?_⟩
    split
    next same => rw [same, empty]
    next => rfl
  next ids held =>
    have own : engine.listed connectionId = ids := by
      rw [FilterEngine.listed, held, Option.getD_some]
    obtain ⟨subscriptions, broadcasters, listed⟩ :=
      foldl_dropSubscription ids (engine.setConnection connectionId none)
    rw [own]
    refine ⟨subscriptions, broadcasters, fun other => (listed other).trans ?_⟩
    rw [listed_setConnection, Option.getD_none]

theorem consistent_removeConnection (connectionId : String) (consistent : Consistent engine) :
    Consistent (engine.removeConnectionSubscriptions connectionId) := by
  obtain ⟨subscriptions, broadcasters, listed⟩ := removeConnectionSubscriptions_spec connectionId engine
  constructor
  · intro other id
    rw [listed, subscriptions]
    by_cases own : id ∈ engine.listed connectionId
    · rw [if_pos own]
      refine iff_of_false (fun inside => ?_) (fun ⟨_, gone, _⟩ => by cases gone)
      split at inside
      next => cases inside
      next different =>
        obtain ⟨subscription, live, owner⟩ := (consistent.listed _ id).mp own
        obtain ⟨subscription', live', owner'⟩ := (consistent.listed _ id).mp inside
        cases Option.some.inj (live.symm.trans live')
        exact different (owner'.symm.trans owner)
    · rw [if_neg own, ← consistent.listed]
      split
      next same =>
        rw [same]
        exact iff_of_false List.not_mem_nil own
      next => rfl
  · intro other
    rw [listed]
    split
    next => exact List.nodup_nil
    next => exact consistent.nodup other
  · intro id live
    rw [subscriptions] at live
    split at live
    next => cases live
    next own => exact (broadcasters id).mpr ⟨consistent.heard id live, own⟩

theorem subscriptions_updateFilter (id : Uuid) (newFilter : EventFilter) (other : Uuid) :
    ((engine.updateSubscriptionFilter id newFilter).1.subscriptions other).map EventSubscription.connectionId =
      (engine.subscriptions other).map EventSubscription.connectionId := by
  unfold FilterEngine.updateSubscriptionFilter
  split
  next subscription live =>
    dsimp only
    rw [Function.update_apply]
    split
    next same =>
      rw [same, live]
      rfl
    next => rfl
  next => rfl

theorem consistent_updateFilter (id : Uuid) (newFilter : EventFilter) (consistent : Consistent engine) :
    Consistent (engine.updateSubscriptionFilter id newFilter).1 := by
  have owners := @subscriptions_updateFilter engine id newFilter
  have listed : ∀ connectionId, (engine.updateSubscriptionFilter id newFilter).1.listed connectionId =
      engine.listed connectionId := by
    intro connectionId
    unfold FilterEngine.updateSubscriptionFilter
    split <;> rfl
  have broadcasters : (engine.updateSubscriptionFilter id newFilter).1.broadcasters = engine.broadcasters := by
    unfold FilterEngine.updateSubscriptionFilter
    split <;> rfl
  constructor
  · intro connectionId other
    rw [listed, consistent.listed, ← Option.map_eq_some_iff, ← Option.map_eq_some_iff, owners]
  · intro connectionId
    rw [listed]
    exact consistent.nodup connectionId
  · intro other live
    rw [broadcasters]
    refine consistent.heard other ?_
    rw [← Option.isSome_map, ← owners, Option.isSome_map]
    exact live

/-- One call keeps the maps consistent exactly if it names the owner of what it removes. -/
theorem consistent_run_iff {call : SubscriptionCall}
    (fresh : ∀ id, call.drawn = some id → engine.subscriptions id = none) (consistent : Consistent engine) :
    Consistent (call.run engine) ↔ call.NamesOwner engine := by
  cases call with
  | add id connectionId filter =>
    exact iff_of_true (consistent_add (fresh id rfl) connectionId filter consistent) trivial
  | remove id connectionId => exact consistent_remove_iff id connectionId consistent
  | delete id connectionId =>
    cases connectionId with
    | none => exact iff_of_true consistent trivial
    | some connectionId => exact consistent_remove_iff id connectionId consistent
  | removeConnection connectionId => exact iff_of_true (consistent_removeConnection connectionId consistent) trivial
  | updateFilter id newFilter => exact iff_of_true (consistent_updateFilter id newFilter consistent) trivial

/-- What a call does to the subscription of an id: it keeps its owner, or removes it, or creates it. -/
theorem run_cases (engine : FilterEngine) (call : SubscriptionCall) (id : Uuid) :
    ((call.run engine).subscriptions id).map EventSubscription.connectionId =
        (engine.subscriptions id).map EventSubscription.connectionId ∨
      ((call.run engine).subscriptions id = none ∧ ∃ connectionId, call.removesFor = some connectionId ∧
        (Consistent engine → call.NamesOwner engine → ∀ subscription, engine.subscriptions id = some subscription →
          subscription.connectionId = connectionId)) ∨
      ∃ connectionId filter, call = .add id connectionId filter ∧
        (call.run engine).subscriptions id = some ⟨id, filter, true, connectionId⟩ := by
  have removed : ∀ other connectionId,
      (engine.removeSubscription other connectionId).subscriptions id = engine.subscriptions id ∨
        (engine.removeSubscription other connectionId).subscriptions id = none ∧ other = id := by
    intro other connectionId
    rw [subscriptions_removeSubscription]
    split
    next same => exact .inr ⟨rfl, same.symm⟩
    next => exact .inl rfl
  cases call with
  | add drawn connectionId filter =>
    rw [SubscriptionCall.run, FilterEngine.addSubscription]
    split
    next => exact .inl rfl
    next =>
      change Option.map _ ((engine.putSubscription drawn _).subscriptions id) = _ ∨ _ ∨
        ∃ _ _, _ ∧ (engine.putSubscription drawn _).subscriptions id = _
      rw [subscriptions_putSubscription]
      split
      next same => exact .inr (.inr ⟨connectionId, filter, by rw [same], by rw [same]⟩)
      next => exact .inl rfl
  | remove other connectionId =>
    rcases removed other connectionId with kept | ⟨gone, rfl⟩
    · exact .inl (congrArg _ kept)
    · exact .inr (.inl ⟨gone, connectionId, rfl, fun _ owner => owner⟩)
  | delete other connectionId =>
    cases connectionId with
    | none => exact .inl rfl
    | some connectionId =>
      rcases removed other connectionId with kept | ⟨gone, rfl⟩
      · exact .inl (congrArg _ kept)
      · exact .inr (.inl ⟨gone, connectionId, rfl, fun _ owner => owner⟩)
  | removeConnection connectionId =>
    have after := (removeConnectionSubscriptions_spec connectionId engine).1 id
    by_cases inside : id ∈ engine.listed connectionId
    · rw [if_pos inside] at after
      refine .inr (.inl ⟨after, connectionId, rfl, fun consistent _ subscription live => ?_⟩)
      obtain ⟨own, held, owner⟩ := (consistent.listed connectionId id).mp inside
      cases Option.some.inj (live.symm.trans held)
      exact owner
    · rw [if_neg inside] at after
      exact .inl (congrArg _ after)
  | updateFilter other newFilter => exact .inl (subscriptions_updateFilter other newFilter id)

/-- A call that names the owner of what it removes removes nothing else. -/
theorem removesOwn_of_namesOwner {call : SubscriptionCall} (consistent : Consistent engine)
    (owner : call.NamesOwner engine) : call.RemovesOwn engine := by
  intro id subscription live gone
  rcases run_cases engine call id with kept | ⟨-, connectionId, removes, owned⟩ | ⟨_, _, -, added⟩
  · rw [live, gone] at kept
    cases kept
  · rw [removes, owned consistent owner subscription live]
  · rw [gone] at added
    cases added

theorem created_run (calls : List SubscriptionCall) {start : FilterEngine}
    (empty : ∀ id, start.subscriptions id = none) {id : Uuid} {subscription : EventSubscription}
    (live : (calls.foldl SubscriptionCall.run start).subscriptions id = some subscription) :
    ∃ filter, SubscriptionCall.add id subscription.connectionId filter ∈ calls := by
  induction calls using List.reverseRecOn generalizing subscription with
  | nil =>
    rw [List.foldl_nil, empty] at live
    cases live
  | append_singleton calls call ih =>
    rw [List.foldl_concat] at live
    rcases run_cases (calls.foldl SubscriptionCall.run start) call id with
      kept | ⟨gone, -⟩ | ⟨connectionId, filter, rfl, added⟩
    · rw [live, Option.map_some] at kept
      obtain ⟨earlier, held, same⟩ := Option.map_eq_some_iff.mp kept.symm
      obtain ⟨filter, listed⟩ := ih held
      rw [same] at listed
      exact ⟨filter, List.mem_append_left _ listed⟩
    · rw [gone] at live
      cases live
    · rw [added] at live
      cases live
      exact ⟨filter, List.mem_append_right _ (List.mem_singleton_self _)⟩

end Steps

theorem consistent_new (maxFilters : Nat) (enableReplay : Bool) (bufferSize : Nat) :
    Consistent (FilterEngine.new maxFilters enableReplay bufferSize) where
  listed _ _ := iff_of_false List.not_mem_nil (fun ⟨_, live, _⟩ => by cases live)
  nodup _ := List.nodup_nil
  heard _ live := by cases live

/-- In every sequence of calls with fresh ids the subscriptions belong to their connections after each call, and
disappear only through calls that name them, exactly if each call names the owner of the subscription that it
removes. -/
theorem subscriptions_owned_iff (maxFilters : Nat) (enableReplay : Bool) (bufferSize : Nat)
    (calls : List SubscriptionCall) (fresh : (calls.filterMap SubscriptionCall.drawn).Nodup) :
    ((∀ before after, calls = before ++ after → Owned before
        (before.foldl SubscriptionCall.run (.new maxFilters enableReplay bufferSize))) ∧
      ∀ p ∈ foldSteps SubscriptionCall.run (.new maxFilters enableReplay bufferSize) calls,
        p.2.RemovesOwn p.1) ↔
      ∀ p ∈ foldSteps SubscriptionCall.run (.new maxFilters enableReplay bufferSize) calls,
        p.2.NamesOwner p.1 := by
  have start := consistent_new maxFilters enableReplay bufferSize
  have created : ∀ (before : List SubscriptionCall) (id : Uuid) (subscription : EventSubscription),
      (before.foldl SubscriptionCall.run (.new maxFilters enableReplay bufferSize)).subscriptions id =
        some subscription →
      ∃ filter, SubscriptionCall.add id subscription.connectionId filter ∈ before :=
    fun before _ _ live => created_run before (fun _ => rfl) live
  -- an id that a call draws is not live, since no earlier call has drawn it
  have drawsFresh : ∀ p ∈ foldSteps SubscriptionCall.run (.new maxFilters enableReplay bufferSize) calls,
      ∀ id, p.2.drawn = some id → p.1.subscriptions id = none := by
    rintro ⟨engine, call⟩ listed id draws
    obtain ⟨before, after, rfl, rfl⟩ := exists_of_mem_foldSteps listed
    rw [Option.eq_none_iff_forall_ne_some]
    intro subscription live
    obtain ⟨filter, earlier⟩ := created before id subscription live
    rw [List.filterMap_append, List.nodup_append] at fresh
    have first : id ∈ before.filterMap SubscriptionCall.drawn := List.mem_filterMap.mpr ⟨_, earlier, rfl⟩
    have again : id ∈ (call :: after).filterMap SubscriptionCall.drawn :=
      List.mem_filterMap.mpr ⟨call, List.mem_cons_self, draws⟩
    exact fresh.2.2 id first id again rfl
  have reached := forall_reached_iff start
    (fun p listed => @consistent_run_iff p.1 p.2 (drawsFresh p listed))
  constructor
  · rintro ⟨owned, -⟩
    exact reached.mp (fun before after split => (owned before after split).toConsistent)
  · intro owner
    have consistent := reached.mpr owner
    refine ⟨fun before after split => ⟨consistent before after split, created before⟩, fun p listed => ?_⟩
    obtain ⟨before, after, split, here⟩ := exists_of_mem_foldSteps listed
    refine removesOwn_of_namesOwner ?_ (owner p listed)
    rw [here]
    exact consistent before _ split

/-- Two connections subscribe, and one of them removes its own. -/
theorem subscriptions_owned_two :
    let calls : List SubscriptionCall := [.add 1 "a" .new, .add 2 "b" .new, .remove 1 "a"]
    Owned calls (calls.foldl SubscriptionCall.run (.new 5 true 100)) := by
  refine ((subscriptions_owned_iff 5 true 100 [.add 1 "a" .new, .add 2 "b" .new, .remove 1 "a"]
    (by decide)).mpr ?_).1 _ [] rfl
  intro p listed
  simp only [foldSteps, List.mem_cons, List.not_mem_nil, or_false] at listed
  rcases listed with rfl | rfl | rfl
  · trivial
  · trivial
  · intro subscription live
    have owner := congrArg (Option.map EventSubscription.connectionId) live
    rw [Option.map_some] at owner
    exact (Option.some.inj owner).symm

/-- A connection removes the subscription of another one, which still has it listed. -/
theorem subscription_removed_by_other :
    let calls : List SubscriptionCall := [.add 1 "a" .new, .remove 1 "b"]
    ¬Owned calls (calls.foldl SubscriptionCall.run (.new 5 true 100)) ∧
      ∃ p ∈ foldSteps SubscriptionCall.run (.new 5 true 100) calls, ¬p.2.RemovesOwn p.1 := by
  refine ⟨fun owned => ?_, ((.new 5 true 100 : FilterEngine).addSubscription 1 "a" .new |>.1, .remove 1 "b"),
    List.mem_cons_of_mem _ List.mem_cons_self, fun own => ?_⟩
  · obtain ⟨subscription, live, -⟩ := (owned.listed "a" 1).mp List.mem_cons_self
    cases live
  · exact absurd (Option.some.inj (own 1 ⟨1, .new, true, "a"⟩ rfl rfl)) (by decide)

end CatalystNode
