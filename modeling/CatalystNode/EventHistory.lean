import CatalystNode.FilterEngine
import CatalystNode.PrefixPages

namespace CatalystNode

open PrefixPages

namespace ReplayBuffer

def file (event : BlockchainEvent) (block : UInt64 × List BlockchainEvent) : UInt64 × List BlockchainEvent :=
  if block.1 = event.blockNumber then (block.1, block.2 ++ [event]) else block

theorem fst_file (event : BlockchainEvent) (block : UInt64 × List BlockchainEvent) :
    (file event block).1 = block.1 := by
  unfold file
  split <;> rfl

def push (buffer : ReplayBuffer) (event : BlockchainEvent) : ReplayBuffer :=
  if known : event.blockNumber ∈ buffer.blocks.map Prod.fst then
    { blocks := buffer.blocks.map (file event)
      distinct := by
        rw [List.map_map, show Prod.fst ∘ file event = Prod.fst from funext (fst_file event)]
        exact buffer.distinct
      filed := by
        intro block listed e inside
        obtain ⟨before, held, rfl⟩ := List.mem_map.mp listed
        rw [fst_file]
        unfold file at inside
        split at inside
        next same =>
          rcases List.mem_append.mp inside with old | new
          · exact buffer.filed before held e old
          · rw [List.mem_singleton.mp new, same]
        next => exact buffer.filed before held e inside }
  else
    { blocks := buffer.blocks ++ [(event.blockNumber, [event])]
      distinct := by
        rw [List.map_append, List.map_singleton, ← List.concat_eq_append]
        exact buffer.distinct.concat known
      filed := by
        intro block listed e inside
        rcases List.mem_append.mp listed with old | new
        · exact buffer.filed block old e inside
        · cases List.mem_singleton.mp new
          rw [List.mem_singleton.mp inside] }

def remove (buffer : ReplayBuffer) (number : UInt64) : ReplayBuffer where
  blocks := buffer.blocks.filter (fun block => block.1 ≠ number)
  distinct := buffer.distinct.sublist (List.filter_sublist.map _)
  filed block listed := buffer.filed block (List.mem_of_mem_filter listed)

/-- A buffer of more blocks than it may have loses its oldest one. -/
def add (size : Nat) (buffer : ReplayBuffer) (event : BlockchainEvent) : ReplayBuffer :=
  let pushed := buffer.push event
  if size < pushed.blocks.length then
    match (pushed.blocks.map Prod.fst).min? with
    | some oldest => pushed.remove oldest
    | none => pushed
  else pushed

end ReplayBuffer

namespace FilterEngine

def processEvent (engine : FilterEngine) (event : BlockchainEvent) : FilterEngine :=
  if on : engine.enableReplay = true then
    { engine with
      replayBuffer := engine.replayBuffer.add engine.replayBufferSize event
      idle := fun off => absurd on (by rw [off]; decide) }
  else engine

end FilterEngine

section Scan

variable (filter : EventFilter) (limit : Nat)

def scanBlock : List BlockchainEvent → List BlockchainEvent → List BlockchainEvent
  | events, [] => events
  | events, event :: rest =>
    if event.matchesFilter filter then
      let events := events ++ [event]
      if limit ≤ events.length then events else scanBlock events rest
    else scanBlock events rest

def scanBlocks : List BlockchainEvent → List (UInt64 × List BlockchainEvent) → List BlockchainEvent
  | events, [] => events
  | events, (number, block) :: rest =>
    let events := if filter.fromBlock.getD 0 ≤ number ∧ number ≤ filter.toBlock.getD 18446744073709551615 then
      scanBlock filter limit events block else events
    if limit ≤ events.length then events else scanBlocks events rest

end Scan

def BlockchainEvent.time (event : BlockchainEvent) : Nat := event.timestamp.toNat

/-- Events are sorted after the scan has been cut off. -/
def FilterEngine.getHistoricalEvents (engine : FilterEngine) (filter : EventFilter) (limit : Option Nat) :
    List BlockchainEvent :=
  if engine.enableReplay = false then []
  else sortBy BlockchainEvent.time
    (scanBlocks filter (min (limit.getD 1000) 10000) [] engine.replayBuffer.blocks)

structure EventHistoryResponse where
  events : List BlockchainEvent
  totalCount : Nat
  hasMore : Bool

def getEventHistory (engine : FilterEngine) (filter : EventFilter) (limit offset : Option Nat) :
    EventHistoryResponse :=
  let limit := min (limit.getD 100) 1000
  let offset := offset.getD 0
  let allEvents := engine.getHistoricalEvents filter (some (limit + offset + 1))
  let totalCount := allEvents.length
  let rest := if offset < allEvents.length then allEvents.drop (min offset allEvents.length) else []
  { events := if limit < rest.length then rest.take limit else rest
    totalCount := totalCount
    hasMore := limit + offset < totalCount }

def readHistory (engine : FilterEngine) (filter : EventFilter) (size fuel : Nat) :
    Option (List BlockchainEvent) :=
  readFrom (fun offset => (getEventHistory engine filter (some size) (some offset)).events)
    (fun offset => (getEventHistory engine filter (some size) (some offset)).hasMore) size fuel 0

def matchingEvents (engine : FilterEngine) (filter : EventFilter) : List BlockchainEvent :=
  engine.replayBuffer.blocks.flatMap (fun block => block.2.filter (·.matchesFilter filter))

/-- The pages have every matching event once, in the order of time. -/
def HistoryTiles (engine : FilterEngine) (filter : EventFilter) (size : Nat) : Prop :=
  ∃ fuel events, readHistory engine filter size fuel = some events ∧
    events.Perm (matchingEvents engine filter) ∧ events.Pairwise (fun a b => a.timestamp < b.timestamp)

section Pages

variable {filter : EventFilter} {limit : Nat}

theorem scanBlock_eq {events : List BlockchainEvent} (room : events.length < limit)
    (block : List BlockchainEvent) :
    scanBlock filter limit events block =
      events ++ (block.filter (·.matchesFilter filter)).take (limit - events.length) := by
  induction block generalizing events with
  | nil => simp [scanBlock]
  | cons event rest ih =>
    rw [scanBlock]
    split
    next hit =>
      rw [List.filter_cons, if_pos hit]
      dsimp only
      split
      next full =>
        rw [List.length_append, List.length_singleton] at full
        rw [show limit - events.length = 1 by omega, List.take_succ_cons, List.take_zero]
      next more =>
        rw [List.length_append, List.length_singleton] at more
        rw [ih (by rw [List.length_append, List.length_singleton]; omega), List.length_append,
          List.length_singleton, show limit - events.length = limit - (events.length + 1) + 1 by omega,
          List.take_succ_cons, List.append_assoc, List.singleton_append]
    next miss => rw [List.filter_cons, if_neg miss, ih room]

theorem blockNumber_of_matchesFilter {event : BlockchainEvent} (hit : event.matchesFilter filter = true) :
    filter.fromBlock.getD 0 ≤ event.blockNumber ∧
      event.blockNumber ≤ filter.toBlock.getD 18446744073709551615 := by
  simp only [BlockchainEvent.matchesFilter, Bool.and_eq_true] at hit
  obtain ⟨⟨⟨⟨-, from'⟩, to'⟩, -⟩, -⟩ := hit
  constructor
  · cases start : filter.fromBlock with
    | none => exact UInt64.zero_le
    | some number =>
      rw [start] at from'
      exact of_decide_eq_true from'
  · cases stop : filter.toBlock with
    | none => exact UInt64.le_iff_toNat_le.mpr (Nat.le_of_lt_succ event.blockNumber.toNat_lt)
    | some number =>
      rw [stop] at to'
      exact of_decide_eq_true to'

theorem scanBlocks_eq {events : List BlockchainEvent} (room : events.length < limit)
    {blocks : List (UInt64 × List BlockchainEvent)}
    (filed : ∀ block ∈ blocks, ∀ event ∈ block.2, event.blockNumber = block.1) :
    scanBlocks filter limit events blocks = events ++
      (blocks.flatMap (fun block => block.2.filter (·.matchesFilter filter))).take (limit - events.length) := by
  induction blocks generalizing events with
  | nil => simp [scanBlocks]
  | cons block rest ih =>
    obtain ⟨number, block⟩ := block
    have later : ∀ block ∈ rest, ∀ event ∈ block.2, event.blockNumber = block.1 :=
      fun block listed => filed block (List.mem_cons_of_mem _ listed)
    -- a block outside the range has no matching event
    have scanned : (if filter.fromBlock.getD 0 ≤ number ∧
          number ≤ filter.toBlock.getD 18446744073709551615 then scanBlock filter limit events block else events) =
        events ++ (block.filter (·.matchesFilter filter)).take (limit - events.length) := by
      split
      next => exact scanBlock_eq room block
      next outside =>
        have none : block.filter (·.matchesFilter filter) = [] := by
          refine List.filter_eq_nil_iff.mpr (fun event listed hit => outside ?_)
          have own : event.blockNumber = number := filed (number, block) List.mem_cons_self event listed
          rw [← own]
          exact blockNumber_of_matchesFilter hit
        rw [none, List.take_nil, List.append_nil]
    rw [scanBlocks, scanned, List.flatMap_cons]
    dsimp only
    generalize block.filter (·.matchesFilter filter) = hits
    by_cases full : limit - events.length ≤ hits.length
    · rw [List.take_append_of_le_length full, if_pos (by
        rw [List.length_append, List.length_take]
        omega)]
    · have all : hits.take (limit - events.length) = hits := List.take_of_length_le (by omega)
      rw [all, if_neg (by rw [List.length_append]; omega), ih (by rw [List.length_append]; omega) later,
        List.take_append, all, List.append_assoc, List.length_append, Nat.sub_sub]

variable {engine : FilterEngine}

theorem getHistoricalEvents_eq (engine : FilterEngine) (filter : EventFilter) {limit : Nat} (positive : 0 < limit) :
    engine.getHistoricalEvents filter (some limit) =
      sortBy BlockchainEvent.time ((matchingEvents engine filter).take (min limit 10000)) := by
  rw [FilterEngine.getHistoricalEvents, matchingEvents]
  split
  next off =>
    rw [engine.idle off, List.flatMap_nil, List.take_nil, sortBy, List.mergeSort_nil]
  next =>
    rw [Option.getD_some, scanBlocks_eq (by rw [List.length_nil]; omega) engine.replayBuffer.filed,
      List.nil_append, List.length_nil, Nat.sub_zero]

theorem getEventHistory_eq (engine : FilterEngine) (filter : EventFilter) {size : Nat} (small : size ≤ 1000)
    (offset : Nat) :
    let found := sortBy BlockchainEvent.time
      ((matchingEvents engine filter).take (min (size + offset + 1) 10000))
    (getEventHistory engine filter (some size) (some offset)).events = (found.drop offset).take size ∧
      ((getEventHistory engine filter (some size) (some offset)).hasMore = true ↔
        size + offset < min (min (size + offset + 1) 10000) (matchingEvents engine filter).length) := by
  intro found
  have limit : min ((some size).getD 100) 1000 = size := Nat.min_eq_left small
  have answer := getHistoricalEvents_eq engine filter (Nat.succ_pos (size + offset))
  constructor
  · unfold getEventHistory
    dsimp only
    rw [limit, Option.getD_some, answer]
    change (if size < List.length (if offset < found.length then found.drop (min offset found.length) else [])
      then _ else _) = _
    have dropped : (if offset < found.length then found.drop (min offset found.length) else []) =
        found.drop offset := by
      split
      next inside => rw [Nat.min_eq_left inside.le]
      next outside => rw [List.drop_eq_nil_of_le (not_lt.mp outside)]
    rw [dropped]
    split
    next => rfl
    next short => rw [List.take_of_length_le (not_lt.mp short)]
  · unfold getEventHistory
    dsimp only
    rw [limit, Option.getD_some, answer, decide_eq_true_eq, length_sortBy, List.length_take]

theorem nodup_time {events : List BlockchainEvent}
    (distinct : (events.map BlockchainEvent.timestamp).Nodup) : (events.map BlockchainEvent.time).Nodup := by
  have times : events.map BlockchainEvent.time = (events.map BlockchainEvent.timestamp).map UInt64.toNat := by
    rw [List.map_map]
    rfl
  rw [times]
  exact distinct.map (fun _ _ same => UInt64.toNat_inj.mp same)

theorem rank_time (events : List BlockchainEvent) (event : BlockchainEvent) :
    rank BlockchainEvent.time events event = events.countP (fun e => e.timestamp < event.timestamp) := by
  refine List.countP_congr (fun e _ => ?_)
  rw [decide_eq_true_eq, decide_eq_true_eq, UInt64.lt_iff_toNat_lt]
  rfl

theorem historyTiles_iff_read (distinct : ((matchingEvents engine filter).map BlockchainEvent.timestamp).Nodup)
    (size : Nat) : HistoryTiles engine filter size ↔
      ∃ fuel, readHistory engine filter size fuel =
        some (sortBy BlockchainEvent.time (matchingEvents engine filter)) := by
  have listing : ∀ events : List BlockchainEvent, (events.Perm (matchingEvents engine filter) ∧
      events.Pairwise (fun a b => a.timestamp < b.timestamp)) ↔
        events = sortBy BlockchainEvent.time (matchingEvents engine filter) := by
    intro events
    rw [← eq_sortBy_iff (nodup_time distinct)]
    simp only [UInt64.lt_iff_toNat_lt, BlockchainEvent.time]
  simp only [HistoryTiles, listing, exists_eq_right]

/-- The pages tile the history exactly if each one that is not the last is its part of the history. -/
theorem historyTiles_iff_pages {size : Nat} (positive : 1 ≤ size) (small : size ≤ 1000)
    (few : (matchingEvents engine filter).length ≤ 10000)
    (distinct : ((matchingEvents engine filter).map BlockchainEvent.timestamp).Nodup) :
    HistoryTiles engine filter size ↔
      ∀ k, k * size + size < (matchingEvents engine filter).length →
        ∀ event ∈ (matchingEvents engine filter).drop (k * size + size + 1),
          k * size + size ≤ rank BlockchainEvent.time (matchingEvents engine filter) event := by
  have pages := fun offset => getEventHistory_eq engine filter small offset
  have total := length_sortBy BlockchainEvent.time (matchingEvents engine filter)
  have mores : ∀ offset, (getEventHistory engine filter (some size) (some offset)).hasMore = true ↔
      offset + size < (sortBy BlockchainEvent.time (matchingEvents engine filter)).length := by
    intro offset
    rw [(pages offset).2, total]
    omega
  rw [historyTiles_iff_read distinct]
  have reading := @exists_readFrom_iff _
    (fun offset => (getEventHistory engine filter (some size) (some offset)).events)
    (fun offset => (getEventHistory engine filter (some size) (some offset)).hasMore) size
    (sortBy BlockchainEvent.time (matchingEvents engine filter)) positive mores ?_ ?_ 0
  · rw [List.drop_zero] at reading
    refine reading.trans (forall_congr' (fun k => ?_))
    rw [Nat.zero_add, total]
    refine imp_congr_right (fun inside => ?_)
    rw [(pages (k * size)).1, Nat.min_eq_left (by omega), Nat.add_comm size,
      page_take_eq_iff (nodup_time distinct) positive inside]
  · intro offset more
    have inside := (mores offset).mp more
    rw [(pages offset).1, List.length_take, List.length_drop, length_sortBy, List.length_take]
    omega
  · intro offset none
    have outside : ¬offset + size < (sortBy BlockchainEvent.time (matchingEvents engine filter)).length := by
      intro inside
      rw [(mores offset).mpr inside] at none
      cases none
    rw [(pages offset).1, List.take_of_length_le (i := min (size + offset + 1) 10000) (by omega),
      List.take_of_length_le (by rw [List.length_drop]; omega)]

end Pages

/-- The pages of a size tile the history exactly if no event is scanned too late: the event at a place of the scan
has at least as many events before it in time as fit on the whole pages in front of that place. -/
theorem historyTiles_iff (engine : FilterEngine) (filter : EventFilter) (size : Nat) (positive : 1 ≤ size)
    (small : size ≤ 1000) (few : (matchingEvents engine filter).length ≤ 10000)
    (distinct : ((matchingEvents engine filter).map BlockchainEvent.timestamp).Nodup) :
    HistoryTiles engine filter size ↔
      ∀ i event, (matchingEvents engine filter)[i]? = some event →
        (i - 1) / size * size ≤ (matchingEvents engine filter).countP (fun e => e.timestamp < event.timestamp) := by
  rw [historyTiles_iff_pages positive small few distinct]
  simp only [← rank_time]
  constructor
  · intro pages i event here
    obtain ⟨inside, -⟩ := List.getElem?_eq_some_iff.mp here
    have fits := Nat.div_mul_le_self (i - 1) size
    cases whole : (i - 1) / size with
    | zero =>
      rw [Nat.zero_mul]
      exact Nat.zero_le _
    | succ k =>
      rw [whole, Nat.succ_mul] at fits
      rw [Nat.succ_mul]
      refine pages k (by omega) event (List.mem_of_getElem? (i := i - (k * size + size + 1)) ?_)
      rw [List.getElem?_drop, Nat.add_sub_of_le (by omega)]
      exact here
  · intro early k inside event later
    obtain ⟨j, here⟩ := List.getElem?_of_mem later
    rw [List.getElem?_drop] at here
    refine le_trans ?_ (early _ event here)
    have pages : k + 1 ≤ (k * size + size + 1 + j - 1) / size := by
      rw [Nat.le_div_iff_mul_le positive, Nat.succ_mul]
      omega
    exact (Nat.succ_mul k size).symm.le.trans (Nat.mul_le_mul_right size pages)

section Samples

def sampleEvent (time : UInt64) : BlockchainEvent := ⟨0, .blockFinalized, time, none, [], time, []⟩

def recorded (times : List UInt64) : FilterEngine :=
  (times.map sampleEvent).foldl FilterEngine.processEvent (.new 5 true 100)

end Samples

/-- Events that came in the order of time are read one by one. -/
theorem historyTiles_ordered : HistoryTiles (recorded [1, 2, 3]) .new 1 := by
  have scan : matchingEvents (recorded [1, 2, 3]) .new = [1, 2, 3].map sampleEvent := by decide
  refine (historyTiles_iff (recorded [1, 2, 3]) .new 1 le_rfl (by decide) ?_ ?_).mpr ?_
  · rw [scan]
    decide
  · rw [scan]
    decide
  · rw [scan]
    intro i event here
    obtain ⟨inside, rfl⟩ := List.getElem?_eq_some_iff.mp here
    have each : ∀ i : Fin 3, (i.val - 1) / 1 * 1 ≤ ([1, 2, 3].map sampleEvent).countP
        (fun e => e.timestamp < (([1, 2, 3].map sampleEvent).get i).timestamp) := by decide
    exact each ⟨i, inside⟩

/-- Of three events that the map yields from the latest to the earliest, the second page repeats the first. -/
theorem historyTiles_reversed :
    (matchingEvents (recorded [3, 2, 1]) .new).length ≤ 10000 ∧
    ((matchingEvents (recorded [3, 2, 1]) .new).map BlockchainEvent.timestamp).Nodup ∧
    ¬HistoryTiles (recorded [3, 2, 1]) .new 1 := by
  have scan : matchingEvents (recorded [3, 2, 1]) .new = [3, 2, 1].map sampleEvent := by decide
  have few : (matchingEvents (recorded [3, 2, 1]) .new).length ≤ 10000 := by
    rw [scan]
    decide
  have distinct : ((matchingEvents (recorded [3, 2, 1]) .new).map BlockchainEvent.timestamp).Nodup := by
    rw [scan]
    decide
  refine ⟨few, distinct, fun tiles => ?_⟩
  have pages := (historyTiles_iff_pages le_rfl (by decide) few distinct).mp tiles 0
  rw [scan] at pages
  exact absurd (pages (by decide) (sampleEvent 1) (by decide)) (by decide)

end CatalystNode
