import CatalystNode.Eviction

namespace CatalystNode

open Eviction

structure RelayCacheCfg where
  maxEntries : Nat
  targetEntries : Nat
  retentionMs : Nat

/-- The fields of a message envelope that `should_relay` reads. -/
structure RelayEnvelope where
  id : String
  target : Option String
  timestamp : UInt64
  ttl : UInt32

def RelayEnvelope.isExpired (env : RelayEnvelope) (now : UInt64) : Bool :=
  env.timestamp + env.ttl.toUInt64 * 1000 < now

namespace RelayCache

def retain (cfg : RelayCacheCfg) (seen : Std.ExtTreeMap String Nat) (nowMs : Nat) :
    Std.ExtTreeMap String Nat :=
  seen.filter (fun _ ts => decide (nowMs - cfg.retentionMs ≤ ts))

def byTime (rank : String → Nat) (seen : Std.ExtTreeMap String Nat) : List (String × Nat) :=
  sortByKey Prod.snd (listing rank seen)

def capSize (rank : String → Nat) (cfg : RelayCacheCfg) (seen : Std.ExtTreeMap String Nat) :
    Std.ExtTreeMap String Nat :=
  if seen.size > cfg.maxEntries then
    ((byTime rank seen).take ((byTime rank seen).length - cfg.targetEntries)).foldl
      (fun seen entry => seen.erase entry.1) seen
  else seen

/-- The answer, and the ids seen after the call. `clock` is the reading that `is_expired` takes
itself. -/
def shouldRelay (rank : String → Nat) (cfg : RelayCacheCfg) (seen : Std.ExtTreeMap String Nat)
    (env : RelayEnvelope) (clock : UInt64) (nowMs : Nat) : Bool × Std.ExtTreeMap String Nat :=
  if env.isExpired clock then (false, seen)
  else if env.target.isSome then (false, seen)
  else if seen.contains env.id then (false, seen)
  else (true, capSize rank cfg (retain cfg (seen.insert env.id nowMs) nowMs))

structure Call where
  env : RelayEnvelope
  clock : UInt64
  nowMs : Nat
  rank : String → Nat

structure Run where
  seen : Std.ExtTreeMap String Nat
  relayed : List (String × Nat)

def step (cfg : RelayCacheCfg) (s : Run) (call : Call) : Run :=
  let (relay, seen) := shouldRelay call.rank cfg s.seen call.env call.clock call.nowMs
  ⟨seen, if relay then s.relayed ++ [(call.env.id, call.nowMs)] else s.relayed⟩

def run (cfg : RelayCacheCfg) (calls : List Call) : Run :=
  calls.foldl (step cfg) ⟨∅, []⟩

/-- The ids relayed in a window of `width` milliseconds. -/
def relayedWithin (relayed : List (String × Nat)) (start width : Nat) : Finset String :=
  ((relayed.filter (fun e => start ≤ e.2 ∧ e.2 < start + width)).map Prod.fst).toFinset

section Eviction

variable {rank : String → Nat} {cfg : RelayCacheCfg} {seen : Std.ExtTreeMap String Nat} {id : String}
  {t nowMs : Nat}

theorem byTime_perm : (byTime rank seen).Perm seen.toList :=
  (perm_sortByKey _).trans (perm_listing rank seen)

theorem mem_byTime_iff : (id, t) ∈ byTime rank seen ↔ seen[id]? = some t :=
  byTime_perm.mem_iff.trans Std.ExtTreeMap.mem_toList_iff_getElem?_eq_some

theorem byTime_sorted : (byTime rank seen).Pairwise (fun a b => a.2 ≤ b.2) := sorted_sortByKey _

theorem byTime_keys : ((byTime rank seen).map Prod.fst).Nodup :=
  (byTime_perm.map Prod.fst).nodup_iff.mpr (nodup_keys_toList seen)

theorem size_capSize_le (fits : cfg.targetEntries ≤ cfg.maxEntries) :
    (capSize rank cfg seen).size ≤ cfg.maxEntries := by
  unfold capSize
  split
  next =>
    rw [size_erase_listed byTime_perm (List.take_sublist _ _), List.length_take,
      byTime_perm.length_eq, Std.ExtTreeMap.length_toList]
    omega
  next small => exact not_lt.mp small

theorem getElem?_of_capSize (found : (capSize rank cfg seen)[id]? = some t) :
    seen[id]? = some t := by
  unfold capSize at found
  split at found
  next =>
    rw [Eviction.getElem?_foldl_erase] at found
    split at found
    · cases found
    · exact found
  next => exact found

/-- An entry stays if fewer than `target_entries` ids have been seen since. -/
theorem getElem?_capSize {since : Finset String} (found : seen[id]? = some t)
    (few : since.card < cfg.targetEntries)
    (counted : ∀ id' t', seen[id']? = some t' → t ≤ t' → id' ∈ since) :
    (capSize rank cfg seen)[id]? = some t := by
  unfold capSize
  split
  next =>
    rw [Eviction.getElem?_foldl_erase, if_neg, found]
    intro dropped
    obtain ⟨⟨_, t'⟩, early, rfl⟩ := List.mem_map.mp dropped
    cases found.symm.trans (mem_byTime_iff.mp (List.mem_of_mem_take early))
    have count := length_sub_le_card byTime_sorted byTime_keys early
      (fun e listed => counted e.1 e.2 (mem_byTime_iff.mp listed))
    have dropping := List.length_pos_of_mem early
    rw [List.length_take] at dropping
    omega
  next => exact found

theorem getElem?_retain :
    (retain cfg seen nowMs)[id]? = some t ↔ seen[id]? = some t ∧ nowMs ≤ t + cfg.retentionMs := by
  have filtered : (retain cfg seen nowMs)[id]? =
      seen[id]?.filter (fun ts => decide (nowMs - cfg.retentionMs ≤ ts)) :=
    Std.ExtTreeMap.getElem?_filter'
  rw [filtered, Option.filter_eq_some_iff, decide_eq_true_eq, Nat.sub_le_iff_le_add]

end Eviction

section Runs

variable {cfg : RelayCacheCfg} {s : Run} {call : Call} {width now now' : Nat}

theorem step_cases (cfg : RelayCacheCfg) (s : Run) (call : Call) :
    step cfg s call = s ∨ s.seen[call.env.id]? = none ∧ step cfg s call =
      ⟨capSize call.rank cfg (retain cfg (s.seen.insert call.env.id call.nowMs) call.nowMs),
        s.relayed ++ [(call.env.id, call.nowMs)]⟩ := by
  unfold step shouldRelay
  split_ifs with expired addressed known
  · exact .inl rfl
  · exact .inl rfl
  · exact .inl rfl
  · refine .inr ⟨Std.ExtTreeMap.getElem?_eq_none ?_, rfl⟩
    rwa [Std.ExtTreeMap.mem_iff_contains]

/-- What has been relayed until `now`, and that the cache still knows what was relayed in the last
`width` milliseconds. -/
structure Remembers (width now : Nat) (s : Run) : Prop where
  held : ∀ id t, s.seen[id]? = some t → (id, t) ∈ s.relayed
  kept : ∀ id t, (id, t) ∈ s.relayed → now < t + width → s.seen[id]? = some t
  past : ∀ e ∈ s.relayed, e.2 ≤ now
  spaced : s.relayed.Pairwise (fun first again => first.1 = again.1 → first.2 + width ≤ again.2)

theorem Remembers.later (known : Remembers width now s) (passed : now ≤ now') :
    Remembers width now' s where
  held := known.held
  kept := fun id t listed recent => known.kept id t listed (by omega)
  past := fun e listed => (known.past e listed).trans passed
  spaced := known.spaced

theorem getElem?_insert_eq_some {seen : Std.ExtTreeMap String Nat} {id id' : String} {t t' : Nat} :
    (seen.insert id t)[id']? = some t' ↔ (id = id' ∧ t = t') ∨ (id ≠ id' ∧ seen[id']? = some t') := by
  rw [Std.ExtTreeMap.getElem?_insert]
  by_cases same : id = id' <;> simp [same]

/-- A call keeps the memory, as long as few ids have been relayed in the window that ends with it. -/
theorem Remembers.step (wide : width ≤ cfg.retentionMs + 1) (known : Remembers width call.nowMs s)
    (few : ∀ start, (relayedWithin (step cfg s call).relayed start width).card <
      cfg.targetEntries) :
    Remembers width call.nowMs (step cfg s call) := by
  rcases step_cases cfg s call with same | ⟨fresh, relays⟩
  · rwa [same]
  rw [relays] at few ⊢
  generalize call.env.id = id, call.nowMs = now at *
  have held : ∀ id' t, (retain cfg (s.seen.insert id now) now)[id']? = some t →
      (id', t) ∈ s.relayed ++ [(id, now)] := by
    intro id' t found
    rcases getElem?_insert_eq_some.mp (getElem?_retain.mp found).1 with ⟨rfl, rfl⟩ | ⟨-, old⟩
    · simp
    · exact List.mem_append_left _ (known.held id' t old)
  have past : ∀ e ∈ s.relayed ++ [(id, now)], e.2 ≤ now := by
    intro e listed
    rcases List.mem_append.mp listed with old | new
    · exact known.past e old
    · rw [List.mem_singleton.mp new]
  refine ⟨fun id' t found => held id' t (getElem?_of_capSize found), ?_, past, ?_⟩
  · intro id' t listed recent
    have noLater : t ≤ now := past (id', t) listed
    have found : (retain cfg (s.seen.insert id now) now)[id']? = some t := by
      refine getElem?_retain.mpr ⟨getElem?_insert_eq_some.mpr ?_, by omega⟩
      rcases List.mem_append.mp listed with old | new
      · have before := known.kept id' t old recent
        refine .inr ⟨?_, before⟩
        rintro rfl
        rw [fresh] at before
        cases before
      · cases List.mem_singleton.mp new
        exact .inl ⟨rfl, rfl⟩
    refine getElem?_capSize found (few t) ?_
    intro other t' seen after
    have relayed := held other t' seen
    have noLater' : t' ≤ now := past (other, t') relayed
    refine List.mem_toFinset.mpr (List.mem_map.mpr ⟨(other, t'), ?_, rfl⟩)
    exact List.mem_filter.mpr ⟨relayed, decide_eq_true ⟨after, by omega⟩⟩
  · refine List.pairwise_append.mpr ⟨known.spaced, List.pairwise_singleton _ _, ?_⟩
    rintro ⟨id', t⟩ old ⟨_, _⟩ new same
    cases List.mem_singleton.mp new
    by_contra close
    have before := known.kept id' t old (not_le.mp close)
    rw [show id' = id from same, fresh] at before
    cases before

theorem relayed_step_subset : s.relayed ⊆ (step cfg s call).relayed := by
  rcases step_cases cfg s call with same | ⟨-, relays⟩
  · rw [same]
    exact List.Subset.refl _
  · rw [relays]
    exact List.subset_append_left _ _

theorem card_relayedWithin_le {l l' : List (String × Nat)} (more : l ⊆ l') (start width : Nat) :
    (relayedWithin l start width).card ≤ (relayedWithin l' start width).card := by
  refine Finset.card_le_card (fun id mem => ?_)
  obtain ⟨e, listed, rfl⟩ := List.mem_map.mp (List.mem_toFinset.mp mem)
  obtain ⟨old, inside⟩ := List.mem_filter.mp listed
  exact List.mem_toFinset.mpr (List.mem_map.mpr ⟨e, List.mem_filter.mpr ⟨more old, inside⟩, rfl⟩)

theorem Remembers.run (wide : width ≤ cfg.retentionMs + 1) {calls : List Call}
    (clock : calls.Pairwise (fun a b => a.nowMs ≤ b.nowMs)) (latest : ∀ call ∈ calls, call.nowMs ≤ now)
    (few : ∀ start, (relayedWithin (run cfg calls).relayed start width).card <
      cfg.targetEntries) :
    Remembers width now (run cfg calls) := by
  induction calls using List.reverseRecOn generalizing now with
  | nil => exact ⟨by simp [RelayCache.run], by simp [RelayCache.run], by simp [RelayCache.run], .nil⟩
  | append_singleton calls call ih =>
    obtain ⟨before, -, across⟩ := List.pairwise_append.mp clock
    have unfolded : RelayCache.run cfg (calls ++ [call]) =
        RelayCache.step cfg (RelayCache.run cfg calls) call := List.foldl_concat ..
    rw [unfolded] at few ⊢
    have known := @ih call.nowMs before (fun c listed => across c listed call (by simp))
      (fun start => (card_relayedWithin_le relayed_step_subset start width).trans_lt (few start))
    exact (known.step wide few).later (latest call (by simp))

theorem size_run_le (fits : cfg.targetEntries ≤ cfg.maxEntries)
    (calls : List Call) : (run cfg calls).seen.size ≤ cfg.maxEntries := by
  induction calls using List.reverseRecOn with
  | nil => exact Nat.zero_le _
  | append_singleton calls call ih =>
    rw [RelayCache.run, List.foldl_concat]
    rcases step_cases cfg (run cfg calls) call with same | ⟨-, relays⟩
    · exact same.symm ▸ ih
    · exact relays.symm ▸ size_capSize_le fits

/-- The cache is bounded. If fewer than `target_entries` ids are relayed in every window of the
retention time, no id is relayed twice within it; windows and gaps of `retention_ms` are both
counted with their last millisecond (`width = retention_ms + 1`) or both without it. -/
theorem shouldRelay_once (cfg : RelayCacheCfg)
    (fits : cfg.targetEntries ≤ cfg.maxEntries) (calls : List Call)
    (clock : calls.Pairwise (fun a b => a.nowMs ≤ b.nowMs)) :
    (∀ before after, calls = before ++ after →
      (run cfg before).seen.size ≤ cfg.maxEntries) ∧
    ∀ width ≤ cfg.retentionMs + 1,
      (∀ start, (relayedWithin (run cfg calls).relayed start width).card <
        cfg.targetEntries) →
      (run cfg calls).relayed.Pairwise
        (fun first again => first.1 = again.1 → first.2 + width ≤ again.2) := by
  refine ⟨fun before _ _ => size_run_le fits before, fun width wide few => ?_⟩
  have latest : ∀ call ∈ calls, call.nowMs ≤ (calls.map Call.nowMs).sum :=
    fun call listed => List.le_sum_of_mem (List.mem_map_of_mem listed)
  exact (Remembers.run wide clock latest few).spaced

/-- A broadcast heard three times, in the same millisecond as another one the last time. -/
def heardAgain : List Call :=
  let heard (id : String) (nowMs : Nat) : Call := ⟨⟨id, none, 0, 60⟩, 0, nowMs, fun _ => 0⟩
  [heard "a" 0, heard "a" 10, heard "b" 11, heard "a" 11]

theorem shouldRelay_once_again :
    (run ⟨4, 3, 10⟩ heardAgain).relayed = [("a", 0), ("b", 11), ("a", 11)] ∧
    (run ⟨4, 3, 10⟩ heardAgain).relayed.Pairwise
      (fun first again => first.1 = again.1 → first.2 + 11 ≤ again.2) := by
  have relayed : (run ⟨4, 3, 10⟩ heardAgain).relayed = [("a", 0), ("b", 11), ("a", 11)] := by
    decide +kernel
  refine ⟨relayed, (shouldRelay_once ⟨4, 3, 10⟩ (by decide) heardAgain (by decide)).2 11
    (le_refl _) (fun start => ?_)⟩
  have ids : relayedWithin (run ⟨4, 3, 10⟩ heardAgain).relayed start 11 ⊆ {"a", "b"} := by
    rw [relayed]
    intro id mem
    obtain ⟨e, listed, rfl⟩ := List.mem_map.mp (List.mem_toFinset.mp mem)
    have one := (List.mem_filter.mp listed).1
    revert one
    simp only [List.mem_cons, List.not_mem_nil, or_false]
    rintro (rfl | rfl | rfl) <;> decide
  exact (Finset.card_le_card ids).trans_lt (by decide)

end Runs

end RelayCache

end CatalystNode
