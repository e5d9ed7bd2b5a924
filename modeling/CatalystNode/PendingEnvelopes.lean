import CatalystNode.FourPhase
import CatalystNode.ArrivalOrder

namespace CatalystNode

open ArrivalOrder

namespace PendingEnvelopes

/- Of an envelope only its type is read here. -/
variable {Env Kind : Type} [DecidableEq Kind] (messageType : Env → Kind)

def pushBounded (pending : List Env) (env : Env) : List Env :=
  (if maxPendingEnvelopes ≤ pending.length then pending.tail else pending) ++ [env]

def drainLoop (want : Kind) : List Env → List Env → List Env → List Env × List Env
  | [], keep, out => (out, keep)
  | env :: pending, keep, out =>
    if messageType env = want then drainLoop want pending keep (out ++ [env])
    else drainLoop want pending (keep ++ [env]) out

def drainByType (want : Kind) (pending : List Env) : List Env × List Env :=
  if pending.isEmpty then ([], pending) else drainLoop messageType want pending [] []

theorem drainLoop_eq (want : Kind) (pending keep out : List Env) :
    drainLoop messageType want pending keep out =
      (out ++ pending.filter (fun env => messageType env = want),
        keep ++ pending.filter (fun env => messageType env ≠ want)) := by
  induction pending generalizing keep out with
  | nil => rw [drainLoop, List.filter_nil, List.filter_nil, List.append_nil, List.append_nil]
  | cons env pending ih =>
    rw [drainLoop]
    by_cases wanted : messageType env = want
    · rw [if_pos wanted, ih, List.filter_cons_of_pos (by simpa using wanted),
        List.filter_cons_of_neg (by simpa using wanted), List.append_assoc, List.singleton_append]
    · rw [if_neg wanted, ih, List.filter_cons_of_neg (by simpa using wanted),
        List.filter_cons_of_pos (by simpa using wanted), List.append_assoc, List.singleton_append]

theorem drainByType_eq (want : Kind) (pending : List Env) : drainByType messageType want pending =
    (pending.filter (fun env => messageType env = want), pending.filter (fun env => messageType env ≠ want)) := by
  rw [drainByType, drainLoop_eq, List.nil_append, List.nil_append]
  split
  next empty =>
    rw [List.isEmpty_iff.mp empty]
    rfl
  next => rfl

/-- The engine's own queue is one of these. -/
theorem pushPendingBounded_eq : pushPendingBounded = pushBounded := by
  funext pending env
  rw [pushPendingBounded, pushBounded, List.drop_one]

theorem drainPendingByType_eq (want : MessageType) (pending : List MessageEnvelope) :
    drainPendingByType want pending = drainByType MessageEnvelope.messageType want pending := by
  rw [drainPendingByType, List.partition_eq_filter_filter, drainByType_eq]
  simp only [ne_eq, decide_not]
  rfl

inductive Call (Env Kind : Type) where
  | push (env : Env)
  | drain (want : Kind)

def Call.applyTo (pending : List Env) : Call Env Kind → List Env × List Env
  | .push env => ([], pushBounded pending env)
  | .drain want => drainByType messageType want pending

def queueAfter (calls : List (Call Env Kind)) : List Env :=
  calls.foldl (fun pending call => (call.applyTo messageType pending).2) []

def Call.numbered (n : ℕ) : Call Env Kind → Call (ℕ × Env) Kind
  | .push env => .push (n, env)
  | .drain want => .drain want

def pendingAt (calls : List (Call Env Kind)) : ℕ → List (ℕ × Env)
  | 0 => []
  | n + 1 => calls[n]?.elim (pendingAt calls n)
    (fun call => ((call.numbered n).applyTo (fun item => messageType item.2) (pendingAt calls n)).2)

/-- A queue of bounded length in the order of arrival, drained by type, that loses an envelope only when
it is the oldest one of a full queue. -/
structure Faithful (calls : List (Call Env Kind)) : Prop where
  /-- The numbers are those of the calls; without them this is the queue of the engine. -/
  erased : ∀ n ≤ calls.length, (pendingAt messageType calls n).map Prod.snd = queueAfter messageType (calls.take n)
  arrived : ∀ n, ∀ item ∈ pendingAt messageType calls n, item.1 < n ∧ calls[item.1]? = some (.push item.2)
  bounded : ∀ n, (pendingAt messageType calls n).length ≤ maxPendingEnvelopes
  ordered : ∀ n, ((pendingAt messageType calls n).map Prod.fst).Pairwise (· < ·)
  drained : ∀ n want, calls[n]? = some (.drain want) →
    (drainByType messageType want (queueAfter messageType (calls.take n))).1 =
      ((pendingAt messageType calls n).filter (fun item => messageType item.2 = want)).map Prod.snd ∧
    pendingAt messageType calls (n + 1) =
      (pendingAt messageType calls n).filter (fun item => messageType item.2 ≠ want)
  /-- What left the queue never returns to it. -/
  once : ∀ m n item, item.1 < m → m ≤ n → item ∈ pendingAt messageType calls n →
    item ∈ pendingAt messageType calls m
  accounted : ∀ n i env, i < n → calls[i]? = some (.push env) → (i, env) ∉ pendingAt messageType calls n →
    ∃ m, i < m ∧ m < n ∧ (i, env) ∈ pendingAt messageType calls m ∧
      (calls[m]? = some (.drain (messageType env)) ∨
        (∃ other, calls[m]? = some (.push other)) ∧
          (pendingAt messageType calls m).length = maxPendingEnvelopes ∧
          (pendingAt messageType calls m).head? = some (i, env))

section Run

variable {messageType} {calls : List (Call Env Kind)} {n : ℕ}

theorem pendingAt_push {env : Env} (called : calls[n]? = some (.push env)) :
    pendingAt messageType calls (n + 1) = pushBounded (pendingAt messageType calls n) (n, env) := by
  rw [pendingAt, called]
  rfl

theorem pendingAt_drain {want : Kind} (called : calls[n]? = some (.drain want)) :
    pendingAt messageType calls (n + 1) =
      (pendingAt messageType calls n).filter (fun item => messageType item.2 ≠ want) := by
  rw [pendingAt, called]
  exact congrArg Prod.snd (drainByType_eq _ want _)

theorem pendingAt_end (past : calls[n]? = none) :
    pendingAt messageType calls (n + 1) = pendingAt messageType calls n := by
  rw [pendingAt, past]
  rfl

theorem arrivals_pendingAt (calls : List (Call Env Kind)) : Arrivals (pendingAt messageType calls) where
  start := rfl
  step n := by
    cases called : calls[n]? with
    | none => exact ⟨_, List.Sublist.refl _, .inl (pendingAt_end called)⟩
    | some call =>
      cases call with
      | push env =>
        refine ⟨_, ?_, .inr ⟨env, pendingAt_push called⟩⟩
        split
        · exact List.tail_sublist _
        · exact List.Sublist.refl _
      | drain want => exact ⟨_, List.filter_sublist, .inl (pendingAt_drain called)⟩

theorem length_pushBounded_le {pending : List Env} (env : Env) (bounded : pending.length ≤ maxPendingEnvelopes) :
    (pushBounded pending env).length ≤ maxPendingEnvelopes := by
  rw [pushBounded, List.length_append, List.length_singleton]
  split
  next full =>
    rw [List.length_tail]
    have positive : 0 < maxPendingEnvelopes := by decide
    omega
  next room => omega

theorem length_pendingAt_le (n : ℕ) : (pendingAt messageType calls n).length ≤ maxPendingEnvelopes := by
  induction n with
  | zero => exact Nat.zero_le _
  | succ n ih =>
    cases called : calls[n]? with
    | none => rwa [pendingAt_end called]
    | some call =>
      cases call with
      | push env =>
        rw [pendingAt_push called]
        exact length_pushBounded_le _ ih
      | drain want =>
        rw [pendingAt_drain called]
        exact (List.length_filter_le _ _).trans ih

theorem push_of_mem_pendingAt {item : ℕ × Env} (held : item ∈ pendingAt messageType calls n) :
    calls[item.1]? = some (.push item.2) := by
  induction n with
  | zero => cases held
  | succ n ih =>
    cases called : calls[n]? with
    | none => exact ih (pendingAt_end called ▸ held)
    | some call =>
      cases call with
      | push env =>
        rw [pendingAt_push called, pushBounded, List.mem_append, List.mem_singleton] at held
        rcases held with held | rfl
        · refine ih ?_
          split at held
          · exact List.mem_of_mem_tail held
          · exact held
        · exact called
      | drain want =>
        rw [pendingAt_drain called] at held
        exact ih (List.mem_of_mem_filter held)

theorem mem_pendingAt_push {env : Env} (called : calls[n]? = some (.push env)) :
    (n, env) ∈ pendingAt messageType calls (n + 1) := by
  rw [pendingAt_push called, pushBounded]
  exact List.mem_append_right _ List.mem_cons_self

theorem map_pendingAt (h : n ≤ calls.length) :
    (pendingAt messageType calls n).map Prod.snd = queueAfter messageType (calls.take n) := by
  induction n with
  | zero => rfl
  | succ n ih =>
    have called : calls[n]? = some calls[n] := List.getElem?_eq_getElem h
    rw [List.take_add_one, called, Option.toList_some, queueAfter, List.foldl_append, ← queueAfter,
      ← ih (by omega), List.foldl_cons, List.foldl_nil]
    cases same : calls[n] with
    | push env =>
      rw [pendingAt_push (same ▸ called), Call.applyTo, pushBounded, pushBounded, List.map_append,
        List.length_map]
      split
      · rw [List.map_tail]
        rfl
      · rfl
    | drain want =>
      rw [pendingAt_drain (same ▸ called), Call.applyTo, drainByType_eq]
      change _ = List.filter (fun env => messageType env ≠ want) _
      rw [List.filter_map]
      rfl

/-- An envelope leaves at a drain of its type, or as the oldest of a full queue. -/
theorem left_cases {item : ℕ × Env} (held : item ∈ pendingAt messageType calls n)
    (left : item ∉ pendingAt messageType calls (n + 1)) :
    calls[n]? = some (.drain (messageType item.2)) ∨
      (∃ other, calls[n]? = some (.push other)) ∧
        (pendingAt messageType calls n).length = maxPendingEnvelopes ∧
        (pendingAt messageType calls n).head? = some item := by
  cases called : calls[n]? with
  | none => exact absurd (pendingAt_end called ▸ held) left
  | some call =>
    cases call with
    | push env =>
      refine .inr ⟨⟨env, rfl⟩, ?_⟩
      rw [pendingAt_push called, pushBounded, List.mem_append, not_or] at left
      split at left
      next full =>
        refine ⟨Nat.le_antisymm (length_pendingAt_le n) full, ?_⟩
        cases shape : pendingAt messageType calls n with
        | nil =>
          rw [shape] at held
          cases held
        | cons oldest rest =>
          rw [shape] at held left
          rcases List.mem_cons.mp held with rfl | later
          · rfl
          · exact absurd later left.1
      next room => exact absurd held left.1
    | drain want =>
      rw [pendingAt_drain called, List.mem_filter, not_and] at left
      have wanted : messageType item.2 = want := by simpa using left held
      exact .inl (by rw [wanted])

end Run

/-- Every sequence of calls on the queue of a new engine. -/
theorem pendingEnvelopes_faithful (messageType : Env → Kind) (calls : List (Call Env Kind)) :
    Faithful messageType calls where
  erased _ h := map_pendingAt h
  arrived n item held := ⟨(arrivals_pendingAt calls).lt_of_mem held, push_of_mem_pendingAt held⟩
  bounded := length_pendingAt_le
  ordered := (arrivals_pendingAt calls).ordered
  drained n want called := by
    have inside : n ≤ calls.length := by
      by_contra past
      rw [List.getElem?_eq_none (by omega)] at called
      cases called
    refine ⟨?_, pendingAt_drain called⟩
    rw [← map_pendingAt inside, drainByType_eq, List.filter_map]
    rfl
  once m n item joined h later := (arrivals_pendingAt calls).mem_of_mem_later joined h later
  accounted n i env h called gone := by
    obtain ⟨m, low, high, held, left⟩ := Arrivals.exists_left (mem_pendingAt_push called) h gone
    exact ⟨m, low, high, held, left_cases held left⟩

end PendingEnvelopes

end CatalystNode
