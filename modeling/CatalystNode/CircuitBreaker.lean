import CatalystNode.Eviction
import CatalystNode.FoldTrace
import CatalystNode.Reconcile

namespace CatalystNode

open MachineInt FoldTrace Eviction

def clearReconcileFailure (localCycle : UInt64) (tracker : ReconcileFailureTracker) :
    ReconcileFailureTracker :=
  tracker.erase localCycle

inductive BreakerCall where
  | failed (nowMs localCycle : UInt64) (rank : UInt64 → Nat)
  | cleared (localCycle : UInt64)

def BreakerCall.run (threshold : UInt32) (windowMs : UInt64) (tracker : ReconcileFailureTracker) :
    BreakerCall → ReconcileFailureTracker
  | .failed nowMs localCycle rank =>
    recordReconcileFailure threshold windowMs nowMs localCycle rank tracker
  | .cleared localCycle => clearReconcileFailure localCycle tracker

def runBreaker (threshold : UInt32) (windowMs : UInt64) (tracker : ReconcileFailureTracker)
    (calls : List BreakerCall) : ReconcileFailureTracker :=
  calls.foldl (BreakerCall.run threshold windowMs) tracker

namespace ReconcileFailureTracker

def recent (tracker : ReconcileFailureTracker) (nowMs : UInt64) : ReconcileFailureTracker :=
  tracker.filter (fun _ e => e.broken ∨ saturatingSubU64 nowMs (10 * 60 * 1000) ≤ e.lastSeenMs)

/-- How many entries come before the one of a cycle: they failed last before it, or at the same time
and are listed earlier. -/
def seenBefore (rank : UInt64 → Nat) (tracker : ReconcileFailureTracker) (c : UInt64) : Nat :=
  match tracker[c]? with
  | none => 0
  | some own => (tracker.toList.filter (fun entry => Before (fun entry => entry.2.lastSeenMs.toNat)
      (Before (fun entry => rank entry.1) (fun a b => a.1 < b.1)) entry (c, own))).length

/-- A pruning has room for the entry of a cycle: there are no more entries than the tracker may hold,
or enough older ones to drop. -/
def HasRoom (rank : UInt64 → Nat) (tracker : ReconcileFailureTracker) (c : UInt64) : Prop :=
  tracker.size ≤ 2000 ∨ tracker.size - 1500 ≤ tracker.seenBefore rank c

instance instDecidableHasRoom (rank : UInt64 → Nat) (tracker : ReconcileFailureTracker) (c : UInt64) :
    Decidable (tracker.HasRoom rank c) :=
  inferInstanceAs (Decidable (_ ∨ _))

end ReconcileFailureTracker

section Prune

variable {rank : UInt64 → Nat} {tracker : ReconcileFailureTracker} {nowMs c : UInt64}

theorem pairwise_listing (rank : UInt64 → Nat) (tracker : ReconcileFailureTracker) :
    (listing rank tracker).Pairwise (Before (fun entry => rank entry.1) (fun a b => a.1 < b.1)) :=
  pairwise_sortByKey
    (Std.ExtTreeMap.ordered_keys_toList.imp (fun less => Std.compare_eq_lt.mp less))

def ReconcileFailureTracker.oldest (rank : UInt64 → Nat) (tracker : ReconcileFailureTracker) :
    List (UInt64 × ReconcileFailureEntry) :=
  (sortByKey (fun entry => entry.2.lastSeenMs.toNat) (listing rank tracker)).take (tracker.size - 1500)

theorem prune_eq (rank : UInt64 → Nat) (tracker : ReconcileFailureTracker) (nowMs : UInt64) :
    tracker.prune rank nowMs = if (tracker.recent nowMs).size ≤ 2000 then tracker.recent nowMs
      else ((tracker.recent nowMs).oldest rank).foldl (fun tracker entry => tracker.erase entry.1)
        (tracker.recent nowMs) :=
  rfl

theorem mem_oldest_fst_iff {own : ReconcileFailureEntry} (held : tracker[c]? = some own) :
    c ∈ (tracker.oldest rank).map Prod.fst ↔ tracker.seenBefore rank c < tracker.size - 1500 := by
  have listed : (c, own) ∈ listing rank tracker := (perm_listing rank tracker).mem_iff.mpr
    (Std.ExtTreeMap.mem_toList_iff_getElem?_eq_some.mpr held)
  rw [ReconcileFailureTracker.seenBefore, held]
  dsimp only
  rw [← ((perm_listing rank tracker).filter _).length_eq, ← mem_take_sortByKey_iff
    (before_asymm (fun _ _ => UInt64.lt_asymm)) (pairwise_listing rank tracker) listed]
  constructor
  · intro mapped
    obtain ⟨⟨c', other⟩, mem, rfl⟩ := List.mem_map.mp mapped
    have held' := Std.ExtTreeMap.mem_toList_iff_getElem?_eq_some.mp
      (((perm_sortByKey _).trans (perm_listing rank tracker)).mem_iff.mp (List.mem_of_mem_take mem))
    cases held.symm.trans held'
    exact mem
  · exact fun mem => List.mem_map.mpr ⟨_, mem, rfl⟩

theorem getElem?_prune (rank : UInt64 → Nat) (tracker : ReconcileFailureTracker) (nowMs c : UInt64) :
    (tracker.prune rank nowMs)[c]? =
      if (tracker.recent nowMs).HasRoom rank c then (tracker.recent nowMs)[c]? else none := by
  rw [prune_eq]
  generalize tracker.recent nowMs = recent
  split
  next small =>
    have room : recent.HasRoom rank c := .inl small
    rw [if_pos room]
  next large =>
    rw [Eviction.getElem?_foldl_erase]
    cases held : recent[c]? with
    | none => simp
    | some own =>
      simp only [ReconcileFailureTracker.HasRoom, mem_oldest_fst_iff held, large, false_or]
      by_cases few : recent.size - 1500 ≤ recent.seenBefore rank c
      · rw [if_pos few, if_neg (not_lt.mpr few)]
      · rw [if_neg few, if_pos (not_le.mp few)]

theorem size_prune_le (rank : UInt64 → Nat) (tracker : ReconcileFailureTracker) (nowMs : UInt64) :
    (tracker.prune rank nowMs).size ≤ 2000 := by
  rw [prune_eq]
  generalize tracker.recent nowMs = recent
  split
  next small => exact small
  next large =>
    have sorted := (perm_sortByKey (f := fun entry => entry.2.lastSeenMs.toNat)
      (listing rank recent)).trans (perm_listing rank recent)
    rw [ReconcileFailureTracker.oldest, size_erase_listed sorted (List.take_sublist _ _),
      List.length_take, sorted.length_eq, Std.ExtTreeMap.length_toList]
    omega

theorem recent_of_broken (broken : reconcileCircuitIsBroken tracker c = true) :
    ∃ own, (tracker.recent nowMs)[c]? = some own ∧ own.broken = true := by
  unfold reconcileCircuitIsBroken at broken
  cases held : tracker[c]? with
  | none => simp [held] at broken
  | some own =>
    have tripped : own.broken = true := by simpa [held] using broken
    refine ⟨own, ?_, tripped⟩
    refine Std.ExtTreeMap.getElem?_filter'.trans ?_
    rw [held]
    simp only [Option.filter, tripped, true_or, decide_true, if_true]

end Prune

section Calls

variable {threshold : UInt32} {windowMs : UInt64} {tracker : ReconcileFailureTracker} {c : UInt64}

/-- A call spares the entry of a cycle if its pruning has room for the entry, or if the call is about
that cycle and one failure is enough to trip the breaker again. -/
def BreakerCall.Spares (threshold : UInt32) (tracker : ReconcileFailureTracker) (c : UInt64) :
    BreakerCall → Prop
  | .failed nowMs localCycle rank =>
    (tracker.recent nowMs).HasRoom rank c ∨ localCycle = c ∧ threshold ≤ 1
  | .cleared _ => True

instance instDecidableSpares (threshold : UInt32) (tracker : ReconcileFailureTracker) (c : UInt64)
    (call : BreakerCall) : Decidable (call.Spares threshold tracker c) :=
  match call with
  | .failed _ _ _ => inferInstanceAs (Decidable (_ ∨ _ ∧ _))
  | .cleared _ => inferInstanceAs (Decidable True)

theorem reconcileCircuitIsBroken_insert (entry : ReconcileFailureEntry) (localCycle : UInt64) :
    reconcileCircuitIsBroken (tracker.insert localCycle entry) c =
      if localCycle = c then entry.broken else reconcileCircuitIsBroken tracker c := by
  rw [reconcileCircuitIsBroken, Std.ExtTreeMap.getElem?_insert]
  by_cases here : localCycle = c
  · simp [here]
  · simp [here, reconcileCircuitIsBroken]

/-- A tripped breaker survives a failure exactly if the failure spares its entry. -/
theorem broken_failed_iff (broken : reconcileCircuitIsBroken tracker c = true)
    (nowMs localCycle : UInt64) (rank : UInt64 → Nat) :
    reconcileCircuitIsBroken
        (recordReconcileFailure threshold windowMs nowMs localCycle rank tracker) c = true ↔
      (BreakerCall.failed nowMs localCycle rank).Spares threshold tracker c := by
  obtain ⟨own, held, tripped⟩ := @recent_of_broken tracker nowMs c broken
  have left := getElem?_prune rank tracker nowMs c
  rw [held] at left
  unfold recordReconcileFailure BreakerCall.Spares
  dsimp only
  rw [reconcileCircuitIsBroken_insert]
  by_cases room : (tracker.recent nowMs).HasRoom rank c
  · rw [if_pos room] at left
    split
    next here =>
      subst here
      simp [left, tripped, room]
    next => simp [reconcileCircuitIsBroken, left, tripped, room]
  · rw [if_neg room] at left
    split
    next here =>
      subst here
      simp [left, room, saturatingSubU64]
    next other => simp [reconcileCircuitIsBroken, left, other, room]

theorem broken_run_iff (broken : reconcileCircuitIsBroken tracker c = true) {call : BreakerCall}
    (kept : call ≠ .cleared c) :
    reconcileCircuitIsBroken (call.run threshold windowMs tracker) c = true ↔
      call.Spares threshold tracker c := by
  cases call with
  | failed nowMs localCycle rank => exact broken_failed_iff broken nowMs localCycle rank
  | cleared localCycle =>
    have other : localCycle ≠ c := fun same => kept (congrArg BreakerCall.cleared same)
    simp only [BreakerCall.run, clearReconcileFailure, BreakerCall.Spares, iff_true]
    rw [reconcileCircuitIsBroken, Std.ExtTreeMap.getElem?_erase]
    simpa [other, reconcileCircuitIsBroken] using broken

theorem size_run_le (small : tracker.size ≤ 2001) (call : BreakerCall) :
    (call.run threshold windowMs tracker).size ≤ 2001 := by
  cases call with
  | failed nowMs localCycle rank =>
    have pruned := size_prune_le rank tracker nowMs
    exact Std.ExtTreeMap.size_insert_le.trans (by omega)
  | cleared localCycle => exact Std.ExtTreeMap.size_erase_le.trans small

end Calls

/-- Over any calls the tracker holds at most 2001 entries, and a breaker that has tripped and is not
cleared stays tripped exactly if every later failure spares its entry. -/
theorem tripped_stays_iff (threshold : UInt32) (windowMs : UInt64) (calls : List BreakerCall) :
    (runBreaker threshold windowMs ∅ calls).size ≤ 2001 ∧
    ∀ c before later, calls = before ++ later → .cleared c ∉ later →
      reconcileCircuitIsBroken (runBreaker threshold windowMs ∅ before) c = true →
      ((∀ next rest, later = next ++ rest →
          reconcileCircuitIsBroken (runBreaker threshold windowMs ∅ (before ++ next)) c = true) ↔
        ∀ p ∈ foldSteps (BreakerCall.run threshold windowMs) (runBreaker threshold windowMs ∅ before)
          later, p.2.Spares threshold p.1 c) := by
  constructor
  · exact foldl_invariant (P := fun tracker : ReconcileFailureTracker => tracker.size ≤ 2001)
      (by simp) (fun tracker call _ small => size_run_le small call)
  · intro c before later _ kept broken
    simp only [runBreaker, List.foldl_append]
    refine forall_reached_iff (P := fun tracker => reconcileCircuitIsBroken tracker c = true)
      (Q := fun tracker call => BreakerCall.Spares threshold tracker c call) broken (fun p listed tripped => ?_)
    exact broken_run_iff tripped (fun same => kept (same ▸ mem_of_mem_foldSteps listed))

section Samples

def sampleTripped (localCycle : UInt64) : List BreakerCall :=
  List.replicate 5 (.failed 0 localCycle UInt64.toNat)

/-- A later failure at another head, when the entry is too old for any but a tripped breaker. -/
theorem tripped_stays_iff_old :
    reconcileCircuitIsBroken (runBreaker 5 30000 ∅ (sampleTripped 7 ++ [.failed 900000 8 UInt64.toNat])) 7 =
      true := by
  have stays := (tripped_stays_iff 5 30000 (sampleTripped 7 ++ [.failed 900000 8 UInt64.toNat])).2 7
    (sampleTripped 7) [.failed 900000 8 UInt64.toNat] rfl (by simp) (by decide +kernel)
  exact stays.mpr (by decide +kernel) [.failed 900000 8 UInt64.toNat] [] rfl

def BreakerCall.time : BreakerCall → Option UInt64
  | .failed nowMs _ _ => some nowMs
  | .cleared _ => none

def sampleCrowd (n : Nat) : List BreakerCall :=
  sampleTripped 0 ++ (List.range n).map (fun i => .failed 1 (UInt64.ofNat (i + 1)) UInt64.toNat)

theorem rising_sampleCrowd (n : Nat) :
    ((sampleCrowd n).filterMap BreakerCall.time).Pairwise (· ≤ ·) := by
  have others : BreakerCall.time ∘ (fun i => .failed 1 (UInt64.ofNat (i + 1)) UInt64.toNat) = fun _ => some 1 := rfl
  have times : (sampleCrowd n).filterMap BreakerCall.time =
      List.replicate 5 0 ++ List.replicate n 1 := by
    rw [sampleCrowd, List.filterMap_append, List.filterMap_map, others]
    simp [sampleTripped, BreakerCall.time]
  rw [times, List.pairwise_append]
  simp

theorem recent_one (tracker : ReconcileFailureTracker) : tracker.recent 1 = tracker := by
  refine Std.ExtTreeMap.filter_eq_self_iff.mpr (fun k held => decide_eq_true (.inr ?_))
  have start : saturatingSubU64 1 (10 * 60 * 1000) = 0 := by decide
  rw [start]
  exact UInt64.zero_le

theorem runBreaker_sampleCrowd_succ (n : Nat) :
    runBreaker 5 30000 ∅ (sampleCrowd (n + 1)) =
      recordReconcileFailure 5 30000 1 (UInt64.ofNat (n + 1)) UInt64.toNat
        (runBreaker 5 30000 ∅ (sampleCrowd n)) := by
  simp only [runBreaker, sampleCrowd, List.range_succ, List.map_append, List.foldl_append,
    List.map_cons, List.map_nil, List.foldl_cons, List.foldl_nil, BreakerCall.run]

theorem runBreaker_sampleCrowd {n : Nat} (fits : n ≤ 2000) :
    (runBreaker 5 30000 ∅ (sampleCrowd n)).size = n + 1 ∧
    (∀ k ∈ runBreaker 5 30000 ∅ (sampleCrowd n), k.toNat ≤ n) ∧
    (runBreaker 5 30000 ∅ (sampleCrowd n))[(0 : UInt64)]? = some ⟨5, 0, true⟩ := by
  induction n with
  | zero =>
    have evaluated : (runBreaker 5 30000 ∅ (sampleCrowd 0)).toList = [(0, ⟨5, 0, true⟩)] := by
      decide +kernel
    refine ⟨?_, fun k held => ?_, ?_⟩
    · rw [← Std.ExtTreeMap.length_toList, evaluated]
      rfl
    · obtain ⟨own, found⟩ :=
        Option.isSome_iff_exists.mp (Std.ExtTreeMap.mem_iff_isSome_getElem?.mp held)
      have listed := Std.ExtTreeMap.mem_toList_iff_getElem?_eq_some.mpr found
      rw [evaluated, List.mem_singleton] at listed
      cases listed
      exact Nat.le_refl 0
    · refine Std.ExtTreeMap.mem_toList_iff_getElem?_eq_some.mp ?_
      rw [evaluated]
      exact List.mem_singleton.mpr rfl
  | succ n ih =>
    obtain ⟨size, keys, first⟩ := ih (Nat.le_of_succ_le fits)
    have number : (UInt64.ofNat (n + 1)).toNat = n + 1 := UInt64.toNat_ofNat_of_lt' (by
      have : UInt64.size = 18446744073709551616 := rfl
      omega)
    have small : (runBreaker 5 30000 ∅ (sampleCrowd n)).size ≤ 2000 := by omega
    rw [runBreaker_sampleCrowd_succ]
    generalize runBreaker 5 30000 ∅ (sampleCrowd n) = tracker at size keys first small
    have fresh : ¬tracker.contains (UInt64.ofNat (n + 1)) = true := fun held => by
      have := keys _ held
      omega
    have other : UInt64.ofNat (n + 1) ≠ 0 := fun same => by
      have := congrArg UInt64.toNat same
      rw [number] at this
      cases this
    unfold recordReconcileFailure
    rw [prune_eq, recent_one, if_pos small]
    dsimp only
    refine ⟨?_, fun k held => ?_, ?_⟩
    · rw [Std.ExtTreeMap.size_insert, if_neg fresh, size]
    · rcases Std.ExtTreeMap.mem_insert.mp held with here | before
      · rw [← Std.LawfulEqCmp.eq_of_compare here, number]
      · exact (keys k before).trans (Nat.le_succ n)
    · rw [Std.ExtTreeMap.getElem?_insert, if_neg, first]
      rwa [Std.LawfulEqCmp.compare_eq_iff_eq]

/-- A breaker that tripped first and then failed no more is the oldest of 2001 entries, and a failure at
yet another head drops it. -/
theorem tripped_crowded_out :
    reconcileCircuitIsBroken (runBreaker 5 30000 ∅ (sampleTripped 0)) 0 = true ∧
    sampleTripped 0 <+: sampleCrowd 2001 ∧ .cleared 0 ∉ sampleCrowd 2001 ∧
    ((sampleCrowd 2001).filterMap BreakerCall.time).Pairwise (· ≤ ·) ∧
    reconcileCircuitIsBroken (runBreaker 5 30000 ∅ (sampleCrowd 2001)) 0 = false := by
  refine ⟨by decide +kernel, List.prefix_append _ _, ?_, ?_, ?_⟩
  · simp [sampleCrowd, sampleTripped]
  · exact rising_sampleCrowd 2001
  · obtain ⟨size, -, first⟩ := runBreaker_sampleCrowd (Nat.le_refl 2000)
    rw [runBreaker_sampleCrowd_succ]
    generalize runBreaker 5 30000 ∅ (sampleCrowd 2000) = tracker at size first
    have broken : reconcileCircuitIsBroken tracker 0 = true := by
      simp [reconcileCircuitIsBroken, first]
    refine Bool.eq_false_iff.mpr (fun stays => ?_)
    rcases (broken_failed_iff broken 1 _ _).mp stays with room | ⟨same, -⟩
    · have none : tracker.seenBefore UInt64.toNat 0 = 0 := by
        rw [ReconcileFailureTracker.seenBefore, first]
        simp [Before]
      rw [recent_one, ReconcileFailureTracker.HasRoom, none, size] at room
      omega
    · exact absurd same (by decide)

end Samples

end CatalystNode
