import CatalystNode.CycleHistory
import CatalystNode.InboundSync
import CatalystNode.CanonicalSlot
import CatalystNode.LockedThreads
import CatalystNode.WireCaps

namespace CatalystNode

open ByteVector MachineInt LockedThreads HexCodec Store

structure RetriedFetch extends PendingLsuFetch where
  attempts : ℕ
  nextRetryAtMs : UInt64

namespace RetriedFetch

def due (now : UInt64) (info : RetriedFetch) : Bool :=
  info.nextRetryAtMs ≤ now ∧ info.attempts < 20

/-- After one more request, with a delay that doubles up to five seconds. -/
def retried (now : UInt64) (info : RetriedFetch) : RetriedFetch :=
  let attempts := info.attempts + 1
  { info with
    attempts
    nextRetryAtMs := saturatingAddU64 now (.ofNat (min (500 * 2 ^ (attempts - 1)) 5000)) }

theorem attempts_retried (now : UInt64) (info : RetriedFetch) :
    (info.retried now).attempts = info.attempts + 1 := rfl

end RetriedFetch

structure FetchState where
  pending : Std.ExtTreeMap String RetriedFetch
  dfs : Option ContentStore

namespace FetchState

def has (shared : FetchState) (cid : String) : Bool := (shared.dfs.bind (· cid)).isSome

def due (shared : FetchState) (now : UInt64) : List String :=
  shared.pending.keys.filter (fun cid => (shared.pending[cid]?).any (·.due now))

def remove (shared : FetchState) (cid : String) : FetchState :=
  { shared with pending := shared.pending.erase cid }

def retry (shared : FetchState) (now : UInt64) (cid : String) : FetchState :=
  match shared.pending[cid]? with
  | none => shared
  | some info => { shared with pending := shared.pending.insert cid (info.retried now) }

def retain (shared : FetchState) : FetchState :=
  { shared with pending := shared.pending.filter (fun _ info => info.attempts < 20) }

def put (shared : FetchState) (contentId : Bytes → String) (bytes : Bytes) : FetchState :=
  { shared with dfs := shared.dfs.map (fun dfs => putContent contentId dfs bytes) }

end FetchState

/-- A tick of the retry loop: when it is, and in which order the hash map yields its keys. -/
structure RetryTick where
  now : UInt64
  order : List String → List String
  perm : ∀ cids, (order cids).Perm cids

inductive FetchTask where
  | retry
  | inbound
  deriving DecidableEq

instance : Fintype FetchTask where
  elems := {.retry, .inbound}
  complete := by
    intro task
    cases task <;> decide

inductive FetchPlace where
  | reading
  | checking (cid : String) (rest : List String)
  | removing (cid : String) (rest : List String)
  | backingOff (cid : String) (rest : List String)
  | retaining
  | waiting
  | storing
  | taking
  | dropped
  | persisting (offer : OfferedLsu)

def FetchPlace.visit : List String → FetchPlace
  | [] => .retaining
  | cid :: rest => .checking cid rest

section Model

variable {F G : Type} (env : InboundEnv F G) (tick : RetryTick) (resp : FileResponseMsg)

def RetriedFetch.answered (info : RetriedFetch) : FetchPlace :=
  if ¬env.withinLead info.cycle then .dropped
  else match env.lsuWithHash info.lsuHash resp.bytes with
    | none => .dropped
    | some lsu => .persisting (info.offer lsu resp)

def fetchStep : FetchPlace → FetchState → Option (FetchPlace × FetchState)
  | .reading, shared => some (.visit (tick.order (shared.due tick.now)), shared)
  | .checking cid rest, shared =>
    some (if shared.has cid then .removing cid rest else .backingOff cid rest, shared)
  | .removing cid rest, shared => some (.visit rest, shared.remove cid)
  | .backingOff cid rest, shared => some (.visit rest, shared.retry tick.now cid)
  | .retaining, shared => some (.waiting, shared.retain)
  | .storing, shared =>
    if resp.requester ≠ env.producerIdSelf then some (.dropped, shared)
    else some (.taking, shared.put env.contentId resp.bytes)
  | .taking, shared =>
    match shared.pending[resp.cid]? with
    | none => some (.dropped, shared)
    | some info => some (info.answered env resp, shared.remove resp.cid)
  | .waiting, _ | .dropped, _ | .persisting _, _ => none

/-- The two tasks share no lock beyond the one that each operation takes by itself. -/
def fetchRace : System FetchTask FetchPlace FetchState where
  step _ := fetchStep env tick resp
  holds _ := false

def fetchTasks : FetchTask → FetchPlace
  | .retry => .reading
  | .inbound => .storing

/-- The response is for this node and holds the update that the fetch is for, of an admissible cycle. -/
structure RetriedFetch.Answers (info : RetriedFetch) (lsu : LedgerStateUpdate) : Prop where
  requested : resp.requester = env.producerIdSelf
  admissible : env.withinLead info.cycle = true
  decoded : env.lsuWithHash info.lsuHash resp.bytes = some lsu

/-- However a tick and the handler of a response interleave, if the response finds its fetch pending and
answers it, then the handler gets to persist the update. -/
def NoFetchLost (shared : FetchState) : Prop :=
  ∀ before arrived, run (fetchRace env tick resp) ⟨fetchTasks, shared⟩ before = some arrived →
    .inbound ∉ before → ∀ info lsu, arrived.shared.pending[resp.cid]? = some info →
      info.Answers env resp lsu →
        ∀ later after, run (fetchRace env tick resp) arrived later = some after →
          later.count .inbound = 2 → after.threads .inbound = .persisting (info.offer lsu resp)

/-- A tick can find the content of the response, at the latest once the handler has stored it. -/
def FetchState.MayHave (shared : FetchState) : Prop :=
  shared.dfs.isSome = true ∧ (shared.has resp.cid = true ∨ env.contentId resp.bytes = resp.cid)

/-- A tick leaves the fetch pending: it is not tried once too often, and a tick that visits it does not
find the content. -/
def FetchState.Spares (shared : FetchState) (info : RetriedFetch) : Prop :=
  if info.due tick.now then info.attempts + 1 < 20 ∧ ¬shared.MayHave env resp
  else info.attempts < 20

end Model

namespace FetchState

variable {shared : FetchState}

theorem pending_remove (c cid : String) :
    (shared.remove c).pending[cid]? = if c = cid then none else shared.pending[cid]? := by
  simp [remove, Std.ExtTreeMap.getElem?_erase]

theorem pending_retry (now : UInt64) (c cid : String) :
    (shared.retry now c).pending[cid]? =
      if c = cid then (shared.pending[cid]?).map (·.retried now) else shared.pending[cid]? := by
  unfold retry
  split
  next missing =>
    split
    next same => rw [← same, missing, Option.map_none]
    next => rfl
  next info held =>
    simp only [Std.ExtTreeMap.getElem?_insert, compare_eq_iff_eq]
    split
    next same => rw [← same, held, Option.map_some]
    next => rfl

theorem pending_retain (cid : String) :
    shared.retain.pending[cid]? = (shared.pending[cid]?).filter (fun info => info.attempts < 20) :=
  Std.ExtTreeMap.getElem?_filter'

@[simp]
theorem dfs_retry (now : UInt64) (cid : String) : (shared.retry now cid).dfs = shared.dfs := by
  unfold retry
  split <;> rfl

theorem dfs_isSome_of_has {cid : String} (found : shared.has cid = true) : shared.dfs.isSome = true := by
  unfold has at found
  cases held : shared.dfs with
  | none => rw [held] at found; cases found
  | some dfs => rfl

theorem has_put (contentId : Bytes → String) (bytes : Bytes) (cid : String) :
    (shared.put contentId bytes).has cid = true ↔
      shared.dfs.isSome = true ∧ (shared.has cid = true ∨ contentId bytes = cid) := by
  unfold has put putContent
  cases shared.dfs with
  | none => simp
  | some dfs =>
    by_cases same : contentId bytes = cid
    · subst same
      by_cases held : (dfs (contentId bytes)).isSome = true <;> simp [held]
    · by_cases held : (dfs (contentId bytes)).isSome = true
      · simp [held, same]
      · simp [held, same, Function.update_of_ne (Ne.symm same)]

theorem count_due (now : UInt64) (cid : String) :
    (shared.due now).count cid = if (shared.pending[cid]?).any (·.due now) then 1 else 0 := by
  have distinct : (shared.due now).Nodup := Std.ExtTreeMap.nodup_keys.filter _
  rw [distinct.count]
  refine if_congr ?_ rfl rfl
  rw [due, List.mem_filter, Std.ExtTreeMap.mem_keys, and_iff_right_iff_imp]
  intro found
  by_contra missing
  rw [Std.ExtTreeMap.getElem?_eq_none missing] at found
  cases found

end FetchState

section Handler

variable {F G : Type}

section Answers

variable {env : InboundEnv F G} {resp : FileResponseMsg} {info other : RetriedFetch}
  {lsu : LedgerStateUpdate}

theorem RetriedFetch.Answers.of_same (answers : info.Answers env resp lsu)
    (same : other.toPendingLsuFetch = info.toPendingLsuFetch) : other.Answers env resp lsu where
  requested := answers.requested
  admissible := by rw [same]; exact answers.admissible
  decoded := by rw [same]; exact answers.decoded

theorem RetriedFetch.Answers.answered_eq (answers : info.Answers env resp lsu) :
    info.answered env resp = .persisting (info.offer lsu resp) := by
  rw [RetriedFetch.answered, answers.admissible, if_neg (not_not.mpr rfl), answers.decoded]

end Answers

variable [Field F] [AddCommGroup G] [Module F G] [DecidableEq G]

/-- The shared state as the inbound handlers see it, who take no account of the retries. -/
def FetchState.toNode (shared : FetchState) (state : NodeState) : NodeState :=
  { state with
    dfs := shared.dfs
    pendingLsuFetch := shared.pending.map (fun _ info => info.toPendingLsuFetch) }

def FetchPlace.finish (env : InboundEnv F G) (dfs : Option ContentStore) (db : Database) :
    FetchPlace → Database
  | .persisting offer => (env.syncLsu dfs offer db).1
  | _ => db

theorem FetchState.toNode_remove (shared : FetchState) (state : NodeState) (cid : String) :
    (shared.remove cid).toNode state =
      { shared.toNode state with
        pendingLsuFetch := (shared.toNode state).pendingLsuFetch.erase cid } := by
  have pending : (shared.remove cid).pending.map (fun _ info => info.toPendingLsuFetch) =
      (shared.pending.map (fun _ info => info.toPendingLsuFetch)).erase cid := by
    refine Std.ExtTreeMap.ext_getElem? (fun other => ?_)
    rw [Std.ExtTreeMap.getElem?_map, FetchState.pending_remove, Std.ExtTreeMap.getElem?_erase,
      Std.ExtTreeMap.getElem?_map]
    simp only [compare_eq_iff_eq]
    split <;> rfl
  rw [FetchState.toNode, pending]
  rfl

/-- By itself the handler does what the whole of it does to a response. -/
theorem alone_onFileResponse (env : InboundEnv F G) (tick : RetryTick) (resp : FileResponseMsg)
    (shared : FetchState) (state : NodeState) :
    ∃ n place after, alone (fetchRace env tick resp) .inbound n (.storing, shared) = some (place, after) ∧
      env.onFileResponse (shared.toNode state) resp =
        { after.toNode state with db := place.finish env after.dfs state.db } := by
  unfold InboundEnv.onFileResponse
  by_cases requested : resp.requester = env.producerIdSelf
  · have stored : fetchStep env tick resp .storing shared =
        some (.taking, shared.put env.contentId resp.bytes) := by
      rw [fetchStep, if_neg (not_not.mpr requested)]
    have pending : (shared.toNode state).pendingLsuFetch[resp.cid]? =
        (shared.pending[resp.cid]?).map (·.toPendingLsuFetch) := Std.ExtTreeMap.getElem?_map
    rw [if_neg (not_not.mpr requested), pending]
    cases held : shared.pending[resp.cid]? with
    | none =>
      have taken : fetchStep env tick resp .taking (shared.put env.contentId resp.bytes) =
          some (.dropped, shared.put env.contentId resp.bytes) := by
        simp only [fetchStep, FetchState.put, held]
      refine ⟨2, .dropped, shared.put env.contentId resp.bytes, ?_, rfl⟩
      simp only [alone, fetchRace, stored, taken, Option.bind_some]
    | some info =>
      have taken : fetchStep env tick resp .taking (shared.put env.contentId resp.bytes) =
          some (info.answered env resp, (shared.put env.contentId resp.bytes).remove resp.cid) := by
        simp only [fetchStep, FetchState.put, held]
      refine ⟨2, info.answered env resp, (shared.put env.contentId resp.bytes).remove resp.cid, ?_, ?_⟩
      · simp only [alone, fetchRace, stored, taken, Option.bind_some]
      · rw [FetchState.toNode_remove]
        by_cases admissible : env.withinLead info.cycle = true
        · simp only [RetriedFetch.answered, Option.map_some, if_neg (not_not.mpr admissible)]
          cases env.lsuWithHash info.lsuHash resp.bytes <;> rfl
        · simp only [RetriedFetch.answered, Option.map_some, if_pos admissible]
          rfl
  · have stored : fetchStep env tick resp .storing shared = some (.dropped, shared) := by
      rw [fetchStep, if_pos requested]
    refine ⟨1, .dropped, shared, ?_, ?_⟩
    · simp only [alone, fetchRace, stored, Option.bind_some]
    · rw [if_pos requested]
      rfl

end Handler

section Spared

variable {F G : Type} {env : InboundEnv F G} {tick : RetryTick} {resp : FileResponseMsg}
  {shared shared' : FetchState} {place next : FetchPlace} {info : RetriedFetch} {lsu : LedgerStateUpdate}

theorem FetchState.mayHave_of_has (found : shared.has resp.cid = true) : shared.MayHave env resp :=
  ⟨dfs_isSome_of_has found, .inl found⟩

theorem FetchState.mayHave_congr (same : shared'.dfs = shared.dfs) :
    shared'.MayHave env resp ↔ shared.MayHave env resp := by
  unfold FetchState.MayHave FetchState.has
  rw [same]

theorem FetchState.mayHave_put :
    (shared.put env.contentId resp.bytes).MayHave env resp ↔ shared.MayHave env resp := by
  have kept : (shared.put env.contentId resp.bytes).dfs.isSome = shared.dfs.isSome :=
    Option.isSome_map
  unfold FetchState.MayHave
  rw [kept, FetchState.has_put]
  tauto

def SparedBy (env : InboundEnv F G) (resp : FileResponseMsg) (shared : FetchState) (attempts : ℕ)
    (cids : List String) : Prop :=
  attempts + cids.count resp.cid < 20 ∧ (resp.cid ∈ cids → ¬shared.MayHave env resp)

def FetchPlace.Spares (env : InboundEnv F G) (tick : RetryTick) (resp : FileResponseMsg)
    (shared : FetchState) (attempts : ℕ) : FetchPlace → Prop
  | .reading => SparedBy env resp shared attempts (tick.order (shared.due tick.now))
  | .checking cid rest => SparedBy env resp shared attempts (cid :: rest)
  | .removing cid rest => cid ≠ resp.cid ∧ SparedBy env resp shared attempts rest
  | .backingOff cid rest =>
    attempts + (cid :: rest).count resp.cid < 20 ∧ (resp.cid ∈ rest → ¬shared.MayHave env resp)
  | .retaining => attempts < 20
  | .waiting => True
  | .storing | .taking | .dropped | .persisting _ => False

theorem SparedBy.congr {attempts : ℕ} {cids : List String} (same : shared'.dfs = shared.dfs)
    (spared : SparedBy env resp shared attempts cids) : SparedBy env resp shared' attempts cids :=
  ⟨spared.1, fun visited => mt (FetchState.mayHave_congr same).mp (spared.2 visited)⟩

theorem SparedBy.visit {attempts : ℕ} {cids : List String}
    (spared : SparedBy env resp shared attempts cids) :
    (FetchPlace.visit cids).Spares env tick resp shared attempts := by
  cases cids with
  | nil => exact spared.1
  | cons cid rest => exact spared

/-- Storing the content of the response changes nothing about what a tick will do. -/
theorem FetchPlace.Spares.put {attempts : ℕ} (spares : place.Spares env tick resp shared attempts) :
    place.Spares env tick resp (shared.put env.contentId resp.bytes) attempts := by
  have kept : ¬shared.MayHave env resp → ¬(shared.put env.contentId resp.bytes).MayHave env resp :=
    mt FetchState.mayHave_put.mp
  cases place with
  | reading | checking => exact ⟨spares.1, fun visited => kept (spares.2 visited)⟩
  | removing => exact ⟨spares.1, spares.2.1, fun visited => kept (spares.2.2 visited)⟩
  | backingOff => exact ⟨spares.1, fun visited => kept (spares.2 visited)⟩
  | retaining | waiting => exact spares
  | storing | taking | dropped | persisting => exact spares.elim

/-- A step of a tick that spares the fetch leaves it pending, and the rest of the tick spares it too. -/
theorem FetchPlace.Spares.step (spares : place.Spares env tick resp shared info.attempts)
    (held : shared.pending[resp.cid]? = some info)
    (stepped : fetchStep env tick resp place shared = some (next, shared')) :
    ∃ info', shared'.pending[resp.cid]? = some info' ∧
      info'.toPendingLsuFetch = info.toPendingLsuFetch ∧
      next.Spares env tick resp shared' info'.attempts := by
  cases place with
  | reading =>
    cases Option.some.inj stepped
    exact ⟨info, held, rfl, SparedBy.visit spares⟩
  | checking cid rest =>
    cases Option.some.inj stepped
    refine ⟨info, held, rfl, ?_⟩
    split
    next found =>
      refine ⟨?_, ?_, fun visited => spares.2 (List.mem_cons_of_mem _ visited)⟩
      · rintro rfl
        exact spares.2 List.mem_cons_self (FetchState.mayHave_of_has found)
      · exact lt_of_le_of_lt (Nat.add_le_add_left List.count_le_count_cons _) spares.1
    next => exact ⟨spares.1, fun visited => spares.2 (List.mem_cons_of_mem _ visited)⟩
  | removing cid rest =>
    cases Option.some.inj stepped
    refine ⟨info, ?_, rfl, SparedBy.visit (spares.2.congr rfl)⟩
    rw [FetchState.pending_remove, if_neg spares.1, held]
  | backingOff cid rest =>
    cases Option.some.inj stepped
    have unchanged : (shared.retry tick.now cid).dfs = shared.dfs := FetchState.dfs_retry tick.now cid
    rw [FetchState.pending_retry, held]
    obtain ⟨few, unfound⟩ := spares
    by_cases same : cid = resp.cid
    · rw [if_pos same]
      refine ⟨info.retried tick.now, rfl, rfl, SparedBy.visit (SparedBy.congr unchanged ⟨?_, unfound⟩)⟩
      rw [same, List.count_cons_self] at few
      rw [RetriedFetch.attempts_retried]
      omega
    · rw [if_neg same]
      refine ⟨info, rfl, rfl, SparedBy.visit (SparedBy.congr unchanged ⟨?_, unfound⟩)⟩
      rwa [List.count_cons_of_ne same] at few
  | retaining =>
    cases Option.some.inj stepped
    refine ⟨info, ?_, rfl, trivial⟩
    rw [FetchState.pending_retain, held]
    exact Option.filter_some_pos (decide_eq_true spares)
  | waiting => cases stepped
  | storing | taking | dropped | persisting => exact spares.elim

theorem fetchStep_storing (stepped : fetchStep env tick resp .storing shared = some (next, shared')) :
    resp.requester ≠ env.producerIdSelf ∧ next = .dropped ∧ shared' = shared ∨
      resp.requester = env.producerIdSelf ∧ next = .taking ∧
        shared' = shared.put env.contentId resp.bytes := by
  rw [fetchStep] at stepped
  split at stepped
  next other => cases Option.some.inj stepped; exact .inl ⟨other, rfl, rfl⟩
  next own => cases Option.some.inj stepped; exact .inr ⟨not_not.mp own, rfl, rfl⟩

theorem fetchStep_taking (stepped : fetchStep env tick resp .taking shared = some (next, shared')) :
    shared.pending[resp.cid]? = none ∧ next = .dropped ∧ shared' = shared ∨
      ∃ info, shared.pending[resp.cid]? = some info ∧ next = info.answered env resp ∧
        shared' = shared.remove resp.cid := by
  rw [fetchStep] at stepped
  split at stepped
  next missing => cases Option.some.inj stepped; exact .inl ⟨missing, rfl, rfl⟩
  next info held => cases Option.some.inj stepped; exact .inr ⟨info, held, rfl, rfl⟩

theorem pending_of_fetchStep (stepped : fetchStep env tick resp place shared = some (next, shared'))
    (held : shared'.pending[resp.cid]? = some info) :
    ∃ before, shared.pending[resp.cid]? = some before ∧
      info.toPendingLsuFetch = before.toPendingLsuFetch := by
  cases place with
  | reading | checking => cases Option.some.inj stepped; exact ⟨info, held, rfl⟩
  | removing cid rest =>
    cases Option.some.inj stepped
    rw [FetchState.pending_remove] at held
    split at held
    next => cases held
    next => exact ⟨info, held, rfl⟩
  | backingOff cid rest =>
    cases Option.some.inj stepped
    rw [FetchState.pending_retry] at held
    split at held
    next =>
      obtain ⟨before, found, rfl⟩ := Option.map_eq_some_iff.mp held
      exact ⟨before, found, rfl⟩
    next => exact ⟨info, held, rfl⟩
  | retaining =>
    cases Option.some.inj stepped
    rw [FetchState.pending_retain] at held
    exact ⟨info, (Option.filter_eq_some_iff.mp held).1, rfl⟩
  | storing =>
    obtain ⟨-, -, rfl⟩ | ⟨-, -, rfl⟩ := fetchStep_storing stepped <;> exact ⟨info, held, rfl⟩
  | taking =>
    obtain ⟨-, -, rfl⟩ | ⟨_, -, -, rfl⟩ := fetchStep_taking stepped
    · exact ⟨info, held, rfl⟩
    · rw [FetchState.pending_remove, if_pos rfl] at held
      cases held
  | waiting | dropped | persisting => cases stepped

theorem pending_of_run {state after : State FetchTask FetchPlace FetchState} {schedule : List FetchTask}
    (ran : run (fetchRace env tick resp) state schedule = some after)
    (held : after.shared.pending[resp.cid]? = some info) :
    ∃ before, state.shared.pending[resp.cid]? = some before ∧
      info.toPendingLsuFetch = before.toPendingLsuFetch := by
  induction schedule generalizing state with
  | nil => exact ⟨info, Option.some.inj ran ▸ held, rfl⟩
  | cons task schedule ih =>
    obtain ⟨between, advanced, ran⟩ := Option.bind_eq_some_iff.mp ran
    obtain ⟨there, stepped, -⟩ := advance_eq_some advanced
    obtain ⟨later, found, same⟩ := ih ran
    obtain ⟨before, found, same'⟩ := pending_of_fetchStep stepped found
    exact ⟨before, found, same.trans same'⟩

def FetchPlace.toGo : FetchPlace → ℕ
  | .storing => 2
  | .taking => 1
  | _ => 0

theorem toGo_visit (cids : List String) : (FetchPlace.visit cids).toGo = 0 := by
  cases cids <;> rfl

theorem toGo_fetchStep (stepped : fetchStep env tick resp place shared = some (next, shared')) :
    next.toGo ≤ place.toGo - 1 := by
  cases place with
  | reading | removing | backingOff => cases Option.some.inj stepped; exact (toGo_visit _).le
  | checking =>
    cases Option.some.inj stepped
    split <;> exact le_rfl
  | retaining => cases Option.some.inj stepped; exact le_rfl
  | storing =>
    obtain ⟨-, rfl, -⟩ | ⟨-, rfl, -⟩ := fetchStep_storing stepped
    · exact Nat.zero_le _
    · exact le_rfl
  | taking =>
    obtain ⟨-, rfl, -⟩ | ⟨info, -, rfl, -⟩ := fetchStep_taking stepped
    · exact le_rfl
    · unfold RetriedFetch.answered
      split
      next => exact le_rfl
      next => split <;> exact le_rfl
  | waiting | dropped | persisting => cases stepped

theorem toGo_run {state after : State FetchTask FetchPlace FetchState} {schedule : List FetchTask}
    (ran : run (fetchRace env tick resp) state schedule = some after) :
    (after.threads .inbound).toGo ≤ (state.threads .inbound).toGo - schedule.count .inbound := by
  induction schedule generalizing state with
  | nil => exact Option.some.inj ran ▸ le_rfl
  | cons task schedule ih =>
    obtain ⟨between, advanced, ran⟩ := Option.bind_eq_some_iff.mp ran
    obtain ⟨there, stepped, places⟩ := advance_eq_some advanced
    have later := ih ran
    rw [places] at later
    cases task with
    | retry =>
      rw [Function.update_of_ne (by decide)] at later
      rwa [List.count_cons_of_ne (by decide)]
    | inbound =>
      rw [Function.update_self] at later
      have fewer := toGo_fetchStep stepped
      rw [List.count_cons_self]
      omega

end Spared

section Interleaving

variable {F G : Type} {env : InboundEnv F G} {tick : RetryTick} {resp : FileResponseMsg}
  {shared : FetchState} {info : RetriedFetch} {lsu : LedgerStateUpdate}

/-- The update is about to be persisted, or its fetch is still pending and what is left of the tick
spares it. -/
def NotLost (env : InboundEnv F G) (tick : RetryTick) (resp : FileResponseMsg) (info : RetriedFetch)
    (lsu : LedgerStateUpdate) (state : State FetchTask FetchPlace FetchState) : Prop :=
  state.threads .inbound = .persisting (info.offer lsu resp) ∨
    (state.threads .inbound = .storing ∨ state.threads .inbound = .taking) ∧
    ∃ current, state.shared.pending[resp.cid]? = some current ∧
      current.toPendingLsuFetch = info.toPendingLsuFetch ∧
      (state.threads .retry).Spares env tick resp state.shared current.attempts

theorem notLost_start (held : shared.pending[resp.cid]? = some info)
    (spares : shared.Spares env tick resp info) :
    NotLost env tick resp info lsu ⟨fetchTasks, shared⟩ := by
  refine .inr ⟨.inl rfl, info, held, rfl, ?_⟩
  have visits : (tick.order (shared.due tick.now)).count resp.cid = if info.due tick.now then 1 else 0 := by
    rw [(tick.perm _).count_eq, FetchState.count_due, held, Option.any_some]
  unfold FetchState.Spares at spares
  split at spares
  next due =>
    rw [if_pos due] at visits
    exact ⟨by rw [visits]; exact spares.1, fun _ => spares.2⟩
  next notDue =>
    rw [if_neg notDue] at visits
    exact ⟨by rw [visits]; exact spares, fun visited => absurd visited (List.count_eq_zero.mp visits)⟩

theorem notLost_advance (answers : info.Answers env resp lsu)
    {state after : State FetchTask FetchPlace FetchState} {task : FetchTask}
    (kept : NotLost env tick resp info lsu state)
    (advanced : advance (fetchRace env tick resp) state task = some after) :
    NotLost env tick resp info lsu after := by
  obtain ⟨there, stepped, places⟩ := advance_eq_some advanced
  have stepped : fetchStep env tick resp (state.threads task) state.shared = some (there, after.shared) :=
    stepped
  cases task with
  | retry =>
    have inbound : after.threads .inbound = state.threads .inbound := by
      rw [places, Function.update_of_ne (by decide)]
    have retry : after.threads .retry = there := by rw [places, Function.update_self]
    obtain persisting | ⟨handling, current, held, same, spares⟩ := kept
    · exact .inl (inbound.trans persisting)
    · obtain ⟨later, held', same', spares'⟩ := spares.step held stepped
      refine .inr ⟨?_, later, held', same'.trans same, ?_⟩
      · rw [inbound]
        exact handling
      · rw [retry]
        exact spares'
  | inbound =>
    have inbound : after.threads .inbound = there := by rw [places, Function.update_self]
    have retry : after.threads .retry = state.threads .retry := by
      rw [places, Function.update_of_ne (by decide)]
    obtain persisting | ⟨storing | taking, current, held, same, spares⟩ := kept
    · -- A handler that persists has left the race.
      rw [persisting] at stepped
      cases stepped
    · rw [storing] at stepped
      obtain ⟨other, -, -⟩ | ⟨-, next, stored⟩ := fetchStep_storing stepped
      · exact absurd answers.requested other
      · refine .inr ⟨.inr (inbound.trans next), current, ?_, same, ?_⟩
        · rw [stored]
          exact held
        · rw [stored, retry]
          exact spares.put
    · rw [taking] at stepped
      obtain ⟨missing, -, -⟩ | ⟨taken, held', next, -⟩ := fetchStep_taking stepped
      · rw [held] at missing
        cases missing
      · cases Option.some.inj (held.symm.trans held')
        rw [(answers.of_same same).answered_eq, same] at next
        exact .inl (inbound.trans next)

/-- What a tick spares is persisted in every interleaving. -/
theorem noFetchLost_of_spares
    (spared : ∀ info lsu, shared.pending[resp.cid]? = some info → info.Answers env resp lsu →
      shared.Spares env tick resp info) : NoFetchLost env tick resp shared := by
  intro before arrived ranBefore _ info lsu held answers later after ranLater both
  obtain ⟨first, found, same⟩ := pending_of_run ranBefore held
  have firstAnswers : first.Answers env resp lsu := answers.of_same same.symm
  have invariant : ∀ state task after, NotLost env tick resp first lsu state →
      advance (fetchRace env tick resp) state task = some after →
      NotLost env tick resp first lsu after :=
    fun _ _ _ kept advanced => notLost_advance firstAnswers kept advanced
  have start : NotLost env tick resp first lsu ⟨fetchTasks, shared⟩ :=
    notLost_start found (spared first lsu found firstAnswers)
  have ended := run_invariant invariant (run_invariant invariant start ranBefore) ranLater
  have finished : (after.threads .inbound).toGo = 0 := by
    have atArrival := toGo_run ranBefore
    have atEnd := toGo_run ranLater
    have whole : (fetchTasks .inbound).toGo = 2 := rfl
    dsimp only at atArrival
    omega
  rw [same]
  obtain persisting | ⟨storing | taking, -⟩ := ended
  · exact persisting
  · rw [storing] at finished
    cases finished
  · rw [taking] at finished
    cases finished

/-- By itself, a tick that finds the content of a fetch or tries it once too often drops it. -/
theorem alone_visit (resp : FileResponseMsg) (cids : List String) {cid : String}
    (lost : ∀ info, shared.pending[cid]? = some info →
      cid ∈ cids ∧ shared.has cid = true ∨ 20 ≤ info.attempts + cids.count cid) :
    ∃ n after, alone (fetchRace env tick resp) .retry n (.visit cids, shared) = some (.waiting, after) ∧
      after.pending[cid]? = none := by
  induction cids generalizing shared with
  | nil =>
    refine ⟨1, shared.retain, rfl, ?_⟩
    rw [FetchState.pending_retain]
    cases held : shared.pending[cid]? with
    | none => rfl
    | some info =>
      obtain ⟨visited, -⟩ | tried := lost info held
      · cases visited
      · exact Option.filter_some_neg (by simpa using tried)
  | cons c rest ih =>
    have passed : ∀ {info}, c ≠ cid → shared.pending[cid]? = some info →
        cid ∈ rest ∧ shared.has cid = true ∨ 20 ≤ info.attempts + rest.count cid := by
      intro info other held
      rw [← List.count_cons_of_ne other]
      exact (lost info held).imp_left
        (And.imp_left fun visited => (List.mem_cons.mp visited).resolve_left (Ne.symm other))
    by_cases found : shared.has c = true
    · -- The content is at hand: the visit removes the fetch.
      have visit : ∀ n, alone (fetchRace env tick resp) .retry (n + 2) (.visit (c :: rest), shared) =
          alone (fetchRace env tick resp) .retry n (.visit rest, shared.remove c) := by
        intro n
        simp only [alone, fetchRace, FetchPlace.visit, fetchStep, found, if_true, Option.bind_some]
      have rest' : ∀ info, (shared.remove c).pending[cid]? = some info →
          cid ∈ rest ∧ (shared.remove c).has cid = true ∨ 20 ≤ info.attempts + rest.count cid := by
        intro info held
        rw [FetchState.pending_remove] at held
        split at held
        next => cases held
        next other => exact passed other held
      obtain ⟨n, after, ran, gone⟩ := ih rest'
      exact ⟨n + 2, after, (visit n).trans ran, gone⟩
    · have visit : ∀ n, alone (fetchRace env tick resp) .retry (n + 2) (.visit (c :: rest), shared) =
          alone (fetchRace env tick resp) .retry n (.visit rest, shared.retry tick.now c) := by
        intro n
        simp only [alone, fetchRace, FetchPlace.visit, fetchStep, found, Bool.false_eq_true, if_false,
          Option.bind_some]
      have sameHas : (shared.retry tick.now c).has cid = shared.has cid := by
        unfold FetchState.has
        rw [FetchState.dfs_retry]
      have rest' : ∀ info, (shared.retry tick.now c).pending[cid]? = some info →
          cid ∈ rest ∧ (shared.retry tick.now c).has cid = true ∨ 20 ≤ info.attempts + rest.count cid := by
        intro info held
        rw [FetchState.pending_retry] at held
        rw [sameHas]
        split at held
        next same =>
          obtain ⟨previous, found', rfl⟩ := Option.map_eq_some_iff.mp held
          obtain ⟨-, has⟩ | tried := lost previous found'
          · exact absurd (same ▸ has) found
          · rw [same, List.count_cons_self] at tried
            rw [RetriedFetch.attempts_retried]
            exact .inr (by omega)
        next other => exact passed other held
      obtain ⟨n, after, ran, gone⟩ := ih rest'
      exact ⟨n + 2, after, (visit n).trans ran, gone⟩

/-- A whole tick between the two operations of the handler drops what it does not spare. -/
theorem not_noFetchLost (held : shared.pending[resp.cid]? = some info)
    (answers : info.Answers env resp lsu) (unspared : ¬shared.Spares env tick resp info) :
    ¬NoFetchLost env tick resp shared := by
  intro noneLost
  let stored := shared.put env.contentId resp.bytes
  have lost : ∀ current, stored.pending[resp.cid]? = some current →
      resp.cid ∈ tick.order (stored.due tick.now) ∧ stored.has resp.cid = true ∨
        20 ≤ current.attempts + (tick.order (stored.due tick.now)).count resp.cid := by
    intro current held'
    cases Option.some.inj (held.symm.trans held')
    have visits : (tick.order (stored.due tick.now)).count resp.cid =
        if info.due tick.now then 1 else 0 := by
      rw [(tick.perm _).count_eq, FetchState.count_due, held', Option.any_some]
    rw [visits]
    unfold FetchState.Spares at unspared
    split at unspared
    next due =>
      rw [if_pos due] at visits ⊢
      by_cases found : shared.MayHave env resp
      · exact .inl ⟨List.count_pos_iff.mp (by omega),
          (FetchState.has_put env.contentId resp.bytes resp.cid).mpr found⟩
      · exact .inr (by by_contra few; exact unspared ⟨by omega, found⟩)
    next notDue =>
      rw [if_neg notDue]
      exact .inr (by omega)
  obtain ⟨n, after, visited, gone⟩ := alone_visit resp (tick.order (stored.due tick.now)) lost
  have stores : alone (fetchRace env tick resp) .inbound 1 (.storing, shared) = some (.taking, stored) := by
    simp only [alone, fetchRace, fetchStep, answers.requested, ne_eq, not_true_eq_false, if_false,
      Option.bind_some]
    rfl
  have ticks : alone (fetchRace env tick resp) .retry (1 + n) (.reading, stored) = some (.waiting, after) :=
    (alone_add rfl n).trans visited
  have takes : alone (fetchRace env tick resp) .inbound 1 (.taking, after) = some (.dropped, after) := by
    simp only [alone, fetchRace, fetchStep, gone, Option.bind_some]
  -- Store, a whole tick, take.
  let arrived : State FetchTask FetchPlace FetchState := ⟨fetchTasks, shared⟩
  let taking : State FetchTask FetchPlace FetchState :=
    ⟨Function.update arrived.threads .inbound .taking, stored⟩
  let ticked : State FetchTask FetchPlace FetchState :=
    ⟨Function.update taking.threads .retry .waiting, after⟩
  let ended : State FetchTask FetchPlace FetchState :=
    ⟨Function.update ticked.threads .inbound .dropped, after⟩
  have ranStores : run (fetchRace env tick resp) arrived (List.replicate 1 .inbound) = some taking :=
    run_alone rfl (fun _ _ => rfl) stores
  have ranTicks : run (fetchRace env tick resp) taking (List.replicate (1 + n) .retry) = some ticked :=
    run_alone rfl (fun _ _ => rfl) ticks
  have ranTakes : run (fetchRace env tick resp) ticked (List.replicate 1 .inbound) = some ended :=
    run_alone rfl (fun _ _ => rfl) takes
  let schedule : List FetchTask :=
    List.replicate 1 .inbound ++ (List.replicate (1 + n) .retry ++ List.replicate 1 .inbound)
  have ran : run (fetchRace env tick resp) arrived schedule = some ended := by
    rw [run_append ranStores, run_append ranTicks, ranTakes]
  have both : schedule.count .inbound = 2 := by
    simp [schedule, List.count_replicate]
  have persisted := noneLost [] arrived rfl List.not_mem_nil info lsu held answers schedule ended ran both
  have dropped : ended.threads .inbound = .dropped := Function.update_self .inbound .dropped ticked.threads
  rw [dropped] at persisted
  cases persisted

end Interleaving

/-- In every interleaving of a tick with the handler the update that a response brings is persisted, if and
only if the tick spares the fetch it answers. -/
theorem noFetchLost_iff {F G : Type} (env : InboundEnv F G) (tick : RetryTick) (resp : FileResponseMsg)
    (shared : FetchState) :
    NoFetchLost env tick resp shared ↔
      ∀ info lsu, shared.pending[resp.cid]? = some info → info.Answers env resp lsu →
        shared.Spares env tick resp info :=
  ⟨fun noneLost _ _ held answers => by_contra (fun unspared => not_noFetchLost held answers unspared noneLost),
    noFetchLost_of_spares⟩

section Samples

def sampleInboundEnv : InboundEnv (ZMod 13) (ZMod 13) :=
  { sampleCertifiedEnv with
    encodeFinalityCert := fun _ => []
    encodeStateRootCert := fun _ => []
    contentId := fun _ => ""
    isContentId := fun _ => true
    decodeProofBundle := fun _ => none
    calculateEthereumCreateAddress := fun address _ => address
    producerIdSelf := "self"
    gossipCycleMs := 0
    lsuWallLeadCap := 8
    requireLsuFinality := true
    requireStateRootFinality := false }

def sampleReference (cycle : UInt64) : LsuCidGossip where
  cycle := cycle
  lsuHash := hashData checksum (sampleVoted 1 3)
  cid := "update"
  prevStateRoot := zeros 32
  stateRoot := zeros 32
  proofCid := ""
  finalityCid := ""
  stateRootCid := ""

def sampleFetchEnv : InboundEnv (ZMod 13) (ZMod 13) :=
  { sampleInboundEnv with contentId := fun _ => "update" }

def sampleFetchState : FetchState where
  pending := (∅ : Std.ExtTreeMap String RetriedFetch).insert "update"
    { (sampleReference 1).toPending with attempts := 0, nextRetryAtMs := 0 }
  dfs := some (fun _ => none)

def sampleFetchTick : RetryTick := ⟨250, id, fun _ => .refl _⟩

def sampleFetchResponse : FileResponseMsg := ⟨"self", "update", serialize (sampleVoted 1 3)⟩

end Samples

/-- A tick between the store and the take of the handler drops the fetch, and the update with it. -/
theorem noFetchLost_stored :
    ¬NoFetchLost sampleFetchEnv sampleFetchTick sampleFetchResponse sampleFetchState := by
  have decoded : (deserialize (serialize (sampleVoted 1 3)) : Option LedgerStateUpdate) =
      some (sampleVoted 1 3) := deserialize_serialize (by decide)
  have answers : RetriedFetch.Answers sampleFetchEnv sampleFetchResponse
      { (sampleReference 1).toPending with attempts := 0, nextRetryAtMs := 0 } (sampleVoted 1 3) := by
    refine ⟨rfl, rfl, ?_⟩
    have own : hashData checksum (sampleVoted 1 3) = hashData checksum (sampleVoted 1 3) := rfl
    rw [InboundEnv.lsuWithHash, sampleFetchResponse, decoded]
    exact Option.filter_eq_some_iff.mpr ⟨rfl, decide_eq_true own⟩
  refine not_noFetchLost Std.ExtTreeMap.getElem?_insert_self answers ?_
  intro spared
  exact spared.2 ⟨rfl, .inr rfl⟩

end CatalystNode
