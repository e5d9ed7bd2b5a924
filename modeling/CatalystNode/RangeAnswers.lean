import CatalystNode.CatchUp

namespace CatalystNode

open ByteVector HexCodec MachineInt Store

section Model

variable {F G : Type} (env : NodeEnv F G) (store : Store)

def probeRoot : Nat → UInt64 → Hash
  | 0, _ => zeros 32
  | steps + 1, probe => match meta32 store (lsuStateRootKey probe) with
    | some root => root
    | none => if probe = 0 then zeros 32 else probeRoot steps (probe - 1)

def rangeRef (cycle : UInt64) (carryPrevRoot : Hash) : Option LsuCidGossip := do
  let cid ← metaString env store (lsuCidKey cycle)
  let lsuHash ← meta32 store (lsuHashKey cycle)
  let stateRoot ← meta32 store (lsuStateRootKey cycle)
  some {
    cycle := cycle
    lsuHash := lsuHash
    cid := cid
    prevStateRoot := if cycle = 0 then zeros 32 else carryPrevRoot
    stateRoot := stateRoot
    proofCid := ""
    finalityCid := (metaString env store (lsuFinalityCidKey cycle)).getD ""
    stateRootCid := (metaString env store (lsuStateRootCidKey cycle)).getD "" }

def scanRefs : List UInt64 → Hash → List LsuCidGossip
  | [], _ => []
  | cycle :: cycles, carryPrevRoot => match rangeRef env store cycle carryPrevRoot with
    | none => scanRefs cycles carryPrevRoot
    | some ref => ref :: scanRefs cycles ref.stateRoot

def buildLsuRangeRefs (startCycle : UInt64) (count : UInt32) : List LsuCidGossip :=
  let carryPrevRoot := if 0 < startCycle then probeRoot store 256 (startCycle - 1) else zeros 32
  scanRefs env store ((List.range (min count.toNat 256)).map (fun i =>
    saturatingAddU64 startCycle (UInt64.ofNat i))) carryPrevRoot

end Model

section Roots

variable {F G : Type} {env : NodeEnv F G} {store : Store}

/-- The root recorded for the greatest of the given cycles below a bound, or zero. -/
def rootBelow (store : Store) (looksAt : UInt64 → Bool) : Nat → Hash
  | 0 => zeros 32
  | n + 1 => if looksAt (UInt64.ofNat n) then
      (meta32 store (lsuStateRootKey (UInt64.ofNat n))).getD (zeros 32)
    else rootBelow store looksAt n

def hasRoot (store : Store) (cycle : UInt64) : Bool := (meta32 store (lsuStateRootKey cycle)).isSome

def fullyRecorded (env : NodeEnv F G) (store : Store) (cycle : UInt64) : Bool :=
  (metaString env store (lsuCidKey cycle)).isSome ∧ (meta32 store (lsuHashKey cycle)).isSome ∧
    hasRoot store cycle

/-- The cycles whose roots an answer takes up: in its range those that are fully recorded, and before
it those with a root that are at most 256 cycles back. -/
def takesUp (env : NodeEnv F G) (store : Store) (startCycle cycle : UInt64) : Bool :=
  if cycle < startCycle then startCycle.toNat ≤ cycle.toNat + 256 ∧ hasRoot store cycle
  else fullyRecorded env store cycle

theorem rootBelow_of_none {looksAt : UInt64 → Bool} {n : Nat}
    (none : ∀ i < n, looksAt (UInt64.ofNat i) = false) : rootBelow store looksAt n = zeros 32 := by
  induction n with
  | zero => rfl
  | succ n ih =>
    rw [rootBelow, none n (Nat.lt_succ_self n)]
    exact ih (fun i below => none i (Nat.lt_succ_of_lt below))

theorem takesUp_before {startCycle cycle : UInt64} (before : cycle < startCycle) :
    takesUp env store startCycle cycle =
      (decide (startCycle.toNat ≤ cycle.toNat + 256) && hasRoot store cycle) := by
  rw [takesUp, if_pos before]
  simp

theorem takesUp_inside {startCycle cycle : UInt64} (inside : startCycle ≤ cycle) :
    takesUp env store startCycle cycle = fullyRecorded env store cycle :=
  if_neg (UInt64.not_lt.mpr inside)

theorem toNat_ofNat_of_lt {n : Nat} (small : n < 2 ^ 64) : (UInt64.ofNat n).toNat = n :=
  UInt64.toNat_ofNat_of_lt' small

theorem ofNat_sub_one {n : Nat} (positive : 0 < n) (small : n < 2 ^ 64) :
    UInt64.ofNat n - 1 = UInt64.ofNat (n - 1) := by
  have number := toNat_ofNat_of_lt small
  have one : (1 : UInt64) ≤ UInt64.ofNat n := by
    rw [UInt64.le_iff_toNat_le, number]
    exact positive
  apply UInt64.toNat_inj.mp
  rw [UInt64.toNat_sub_of_le _ _ one, number, toNat_ofNat_of_lt (by omega)]
  rfl

/-- The walk down finds what lies at most 256 cycles before the range. -/
theorem probeRoot_eq {startCycle : UInt64} {steps n : Nat} (below : n ≤ startCycle.toNat)
    (left : startCycle.toNat + steps = n + 256) (positive : 0 < n) :
    probeRoot store steps (UInt64.ofNat (n - 1)) =
      rootBelow store (takesUp env store startCycle) n := by
  have bound := startCycle.toNat_lt
  induction steps generalizing n with
  | zero =>
    symm
    apply rootBelow_of_none
    intro i inside
    have number := toNat_ofNat_of_lt (show i < 2 ^ 64 by omega)
    have before : UInt64.ofNat i < startCycle := by
      rw [UInt64.lt_iff_toNat_lt, number]
      omega
    rw [takesUp_before before, number, decide_eq_false (by omega), Bool.false_and]
  | succ steps ih =>
    obtain ⟨m, rfl⟩ := Nat.exists_eq_succ_of_ne_zero (Nat.ne_of_gt positive)
    have number := toNat_ofNat_of_lt (show m < 2 ^ 64 by omega)
    have before : UInt64.ofNat m < startCycle := by
      rw [UInt64.lt_iff_toNat_lt, number]
      omega
    rw [Nat.succ_sub_one, probeRoot, rootBelow, takesUp_before before, number,
      decide_eq_true (by omega), Bool.true_and, hasRoot]
    cases meta32 store (lsuStateRootKey (UInt64.ofNat m)) with
    | some root => rfl
    | none =>
      dsimp only [Option.isSome_none]
      rw [if_neg Bool.false_ne_true]
      by_cases zero : m = 0
      · subst zero
        rfl
      · have nonzero : UInt64.ofNat m ≠ 0 := by
          intro same
          exact zero (by rw [← number, same]; rfl)
        rw [if_neg nonzero, ofNat_sub_one (Nat.pos_of_ne_zero zero) (by omega)]
        exact ih (by omega) (by omega) (Nat.pos_of_ne_zero zero)

theorem rangeRef_isSome (cycle : UInt64) (carry : Hash) :
    (rangeRef env store cycle carry).isSome = fullyRecorded env store cycle := by
  unfold rangeRef fullyRecorded hasRoot
  cases metaString env store (lsuCidKey cycle) <;> cases meta32 store (lsuHashKey cycle) <;>
    cases meta32 store (lsuStateRootKey cycle) <;> rfl

theorem rangeRef_eq_some {cycle : UInt64} {carry : Hash} {ref : LsuCidGossip}
    (found : rangeRef env store cycle carry = some ref) :
    ref.cycle = cycle ∧ meta32 store (lsuStateRootKey cycle) = some ref.stateRoot ∧
      ref.prevStateRoot = if cycle = 0 then zeros 32 else carry := by
  unfold rangeRef at found
  cases cid : metaString env store (lsuCidKey cycle) with
  | none => simp [cid] at found
  | some cid' =>
    cases hash : meta32 store (lsuHashKey cycle) with
    | none => simp [cid, hash] at found
    | some hash' =>
      cases root : meta32 store (lsuStateRootKey cycle) with
      | none => simp [cid, hash, root] at found
      | some root' =>
        simp only [cid, hash, root, Option.bind_eq_bind, Option.bind_some, Option.some.injEq] at found
        subst found
        exact ⟨rfl, rfl, rfl⟩

/-- A scan gives every cycle the root that the answer has taken up last. -/
theorem scanRefs_eq {startCycle : UInt64} (n : Nat) {first : Nat} (after : startCycle.toNat ≤ first)
    (room : first + n ≤ 2 ^ 64) :
    scanRefs env store ((List.range' first n).map UInt64.ofNat)
        (rootBelow store (takesUp env store startCycle) first) =
      ((List.range' first n).map UInt64.ofNat).filterMap (fun cycle =>
        rangeRef env store cycle (rootBelow store (takesUp env store startCycle) cycle.toNat)) := by
  induction n generalizing first with
  | zero => rfl
  | succ n ih =>
    have number := toNat_ofNat_of_lt (show first < 2 ^ 64 by omega)
    have inside : startCycle ≤ UInt64.ofNat first := by
      rw [UInt64.le_iff_toNat_le, number]
      exact after
    have rest := @ih (first + 1) (by omega) (by omega)
    rw [rootBelow, takesUp_inside inside, ← rangeRef_isSome (UInt64.ofNat first)
      (rootBelow store (takesUp env store startCycle) first)] at rest
    rw [List.range'_succ, List.map_cons, scanRefs, List.filterMap_cons, number]
    cases found : rangeRef env store (UInt64.ofNat first)
        (rootBelow store (takesUp env store startCycle) first) with
    | none =>
      rw [found, if_neg (by simp)] at rest
      exact rest
    | some ref =>
      obtain ⟨-, rooted, -⟩ := rangeRef_eq_some found
      rw [found, if_pos (by simp), rooted, Option.getD_some] at rest
      exact congrArg (ref :: ·) rest

theorem filterMap_eq_iff {α β : Type} {f g : α → Option β} {l : List α}
    (same : ∀ a ∈ l, (f a).isSome = (g a).isSome) :
    l.filterMap f = l.filterMap g ↔ ∀ a ∈ l, f a = g a := by
  induction l with
  | nil => simp
  | cons a l ih =>
    have here := same a List.mem_cons_self
    have rest := ih (fun b listed => same b (List.mem_cons_of_mem a listed))
    rw [List.filterMap_cons, List.filterMap_cons, List.forall_mem_cons, ← rest]
    cases first : f a <;> cases second : g a <;> simp_all

def rangeCycles (startCycle : UInt64) (count : Nat) : List UInt64 :=
  (List.range' startCycle.toNat count).map UInt64.ofNat

theorem buildLsuRangeRefs_eq (env : NodeEnv F G) (store : Store) {startCycle : UInt64} {count : UInt32}
    (room : startCycle.toNat + count.toNat < 2 ^ 64) :
    buildLsuRangeRefs env store startCycle count =
      (rangeCycles startCycle (min count.toNat 256)).filterMap (fun cycle =>
        rangeRef env store cycle (rootBelow store (takesUp env store startCycle) cycle.toNat)) := by
  have cycles : (List.range (min count.toNat 256)).map (fun i =>
      saturatingAddU64 startCycle (UInt64.ofNat i)) = rangeCycles startCycle (min count.toNat 256) := by
    rw [rangeCycles, List.range'_eq_map_range, List.map_map]
    apply List.map_congr_left
    intro i inside
    rw [List.mem_range] at inside
    apply UInt64.toNat_inj.mp
    rw [toNat_saturatingAddU64, toNat_ofNat_of_lt (by omega), Function.comp_apply,
      toNat_ofNat_of_lt (by omega)]
    omega
  have seed : (if 0 < startCycle then probeRoot store 256 (startCycle - 1) else zeros 32) =
      rootBelow store (takesUp env store startCycle) startCycle.toNat := by
    have sign : 0 < startCycle ↔ 0 < startCycle.toNat := UInt64.lt_iff_toNat_lt
    by_cases positive : 0 < startCycle.toNat
    · have down := ofNat_sub_one positive startCycle.toNat_lt
      rw [UInt64.ofNat_toNat] at down
      rw [if_pos (sign.mpr positive), down]
      exact probeRoot_eq (Nat.le_refl _) rfl positive
    · have zero : startCycle.toNat = 0 := by omega
      rw [if_neg (mt sign.mp positive), zero]
      rfl
  unfold buildLsuRangeRefs
  dsimp only
  rw [cycles, seed]
  exact scanRefs_eq _ (Nat.le_refl _) (by omega)

theorem rangeRef_eq_iff {cycle : UInt64} {carry carry' : Hash} (first : cycle = 0 → carry = carry') :
    rangeRef env store cycle carry = rangeRef env store cycle carry' ↔
      (fullyRecorded env store cycle = true → carry = carry') := by
  constructor
  · intro same full
    by_cases zero : cycle = 0
    · exact first zero
    · rw [← rangeRef_isSome cycle carry] at full
      obtain ⟨ref, found⟩ := Option.isSome_iff_exists.mp full
      have prev := (rangeRef_eq_some found).2.2
      have prev' := (rangeRef_eq_some (same ▸ found)).2.2
      rw [if_neg zero] at prev prev'
      exact prev.symm.trans prev'
  · intro agree
    by_cases full : fullyRecorded env store cycle = true
    · rw [agree full]
    · have missing : ∀ carry, rangeRef env store cycle carry = none := by
        intro carry
        rw [← rangeRef_isSome cycle carry, Bool.not_eq_true, Option.isSome_eq_false_iff,
          Option.isNone_iff_eq_none] at full
        exact full
      rw [missing, missing]

/-- The references carry the right root exactly if what the answer takes up has it. -/
theorem refs_chain_iff {startCycle : UInt64} {count : UInt32}
    (room : startCycle.toNat + count.toNat < 2 ^ 64) :
    (∀ ref ∈ buildLsuRangeRefs env store startCycle count,
      ref.prevStateRoot = rootBelow store (hasRoot store) ref.cycle.toNat) ↔
      ∀ cycle ∈ rangeCycles startCycle (min count.toNat 256), fullyRecorded env store cycle = true →
        rootBelow store (takesUp env store startCycle) cycle.toNat =
          rootBelow store (hasRoot store) cycle.toNat := by
  rw [buildLsuRangeRefs_eq env store room]
  have prev : ∀ (cycle : UInt64) (ref : LsuCidGossip), rangeRef env store cycle
      (rootBelow store (takesUp env store startCycle) cycle.toNat) = some ref →
      ref.cycle = cycle ∧
        ref.prevStateRoot = rootBelow store (takesUp env store startCycle) cycle.toNat := by
    intro cycle ref found
    obtain ⟨numbered, -, prev⟩ := rangeRef_eq_some found
    refine ⟨numbered, prev.trans ?_⟩
    split
    next zero =>
      rw [zero]
      rfl
    next => rfl
  constructor
  · intro chain cycle inside full
    rw [← rangeRef_isSome cycle (rootBelow store (takesUp env store startCycle) cycle.toNat)] at full
    obtain ⟨ref, found⟩ := Option.isSome_iff_exists.mp full
    obtain ⟨numbered, own⟩ := prev cycle ref found
    have right := chain ref (List.mem_filterMap.mpr ⟨cycle, inside, found⟩)
    rw [numbered, own] at right
    exact right
  · intro agree ref listed
    obtain ⟨cycle, inside, found⟩ := List.mem_filterMap.mp listed
    obtain ⟨numbered, own⟩ := prev cycle ref found
    rw [numbered, own]
    refine agree cycle inside ?_
    rw [← rangeRef_isSome cycle (rootBelow store (takesUp env store startCycle) cycle.toNat), found]
    rfl

/-- An answer can be split exactly if its second part takes up the same roots on its own. -/
theorem refs_split_iff {startCycle : UInt64} {a b count : UInt32}
    (room : startCycle.toNat + count.toNat < 2 ^ 64) (small : count.toNat ≤ 256)
    (sum : a.toNat + b.toNat = count.toNat) :
    buildLsuRangeRefs env store startCycle count = buildLsuRangeRefs env store startCycle a ++
        buildLsuRangeRefs env store (startCycle + UInt64.ofNat a.toNat) b ↔
      ∀ cycle ∈ rangeCycles (startCycle + UInt64.ofNat a.toNat) b.toNat,
        fullyRecorded env store cycle = true →
        rootBelow store (takesUp env store startCycle) cycle.toNat =
          rootBelow store (takesUp env store (startCycle + UInt64.ofNat a.toNat)) cycle.toNat := by
  have second : (startCycle + UInt64.ofNat a.toNat).toNat = startCycle.toNat + a.toNat := by
    rw [UInt64.toNat_add, toNat_ofNat_of_lt (by omega), Nat.mod_eq_of_lt (by omega)]
  have whole : rangeCycles startCycle count.toNat = rangeCycles startCycle a.toNat ++
      rangeCycles (startCycle + UInt64.ofNat a.toNat) b.toNat := by
    rw [rangeCycles, rangeCycles, rangeCycles, second, ← List.map_append, ← sum,
      ← List.range'_append_1]
  rw [buildLsuRangeRefs_eq env store room, buildLsuRangeRefs_eq env store (by omega),
    buildLsuRangeRefs_eq env store (by rw [second]; omega), Nat.min_eq_left small,
    Nat.min_eq_left (show a.toNat ≤ 256 by omega), Nat.min_eq_left (show b.toNat ≤ 256 by omega),
    whole, List.filterMap_append, List.append_cancel_left_eq, filterMap_eq_iff]
  · refine forall_congr' (fun cycle => forall_congr' (fun _ => rangeRef_eq_iff ?_))
    rintro rfl
    rfl
  · intro cycle _
    rw [rangeRef_isSome, rangeRef_isSome]

end Roots

/-- An answer to a range of cycles gives every reference the recorded root of the greatest lower cycle
that has one, and can be split anywhere, exactly if for every fully recorded cycle the roots that the
answer and its second parts take up are the right ones. -/
theorem rangeAnswers_iff {F G : Type} (env : NodeEnv F G) (store : Store) (startCycle : UInt64)
    (count : UInt32) (room : startCycle.toNat + count.toNat < 2 ^ 64) :
    ((∀ ref ∈ buildLsuRangeRefs env store startCycle count,
        ref.prevStateRoot = rootBelow store (hasRoot store) ref.cycle.toNat) ∧
      (count.toNat ≤ 256 → ∀ a b : UInt32, a.toNat + b.toNat = count.toNat →
        buildLsuRangeRefs env store startCycle count = buildLsuRangeRefs env store startCycle a ++
          buildLsuRangeRefs env store (startCycle + UInt64.ofNat a.toNat) b)) ↔
      (∀ cycle ∈ rangeCycles startCycle (min count.toNat 256), fullyRecorded env store cycle = true →
        rootBelow store (takesUp env store startCycle) cycle.toNat =
          rootBelow store (hasRoot store) cycle.toNat) ∧
      (count.toNat ≤ 256 → ∀ a b : UInt32, a.toNat + b.toNat = count.toNat →
        ∀ cycle ∈ rangeCycles (startCycle + UInt64.ofNat a.toNat) b.toNat,
          fullyRecorded env store cycle = true →
          rootBelow store (takesUp env store startCycle) cycle.toNat =
            rootBelow store (takesUp env store (startCycle + UInt64.ofNat a.toNat)) cycle.toNat) := by
  refine and_congr (refs_chain_iff room) (forall_congr' (fun small => forall_congr' (fun a =>
    forall_congr' (fun b => forall_congr' (fun sum => ?_)))))
  exact refs_split_iff room small sum

def samplePartlyRecorded : Store :=
  let recorded := fun (store : Store) (cycle : UInt64) => (store.setMetadata (lsuCidKey cycle)
    [0x62]).setMetadata (lsuHashKey cycle) (zeros 32).toList
  let rooted := fun (store : Store) (cycle : UInt64) =>
    store.setMetadata (lsuStateRootKey cycle) (List.replicate 32 cycle.toUInt8)
  [1, 2, 3].foldl rooted ([1, 3].foldl recorded .empty)

def sampleReadingEnv : NodeEnv (ZMod 13) (ZMod 13) :=
  { sampleEnv outsiderCertificate with fromUtf8Lossy := fun _ => "b" }

/-- The reference to cycle 3 passes over the root of cycle 2, unless cycle 3 is asked for on its own. -/
theorem rangeAnswers_partlyRecorded :
    let answer := buildLsuRangeRefs sampleReadingEnv samplePartlyRecorded
    (answer 1 3).map (fun ref => (ref.cycle, ref.prevStateRoot.toList)) =
      [(1, List.replicate 32 0), (3, List.replicate 32 1)] ∧
    (rootBelow samplePartlyRecorded (hasRoot samplePartlyRecorded) 3).toList = List.replicate 32 2 ∧
    answer 1 3 ≠ answer 1 2 ++ answer 3 1 := by
  refine ⟨by decide +kernel, by decide +kernel, fun same => ?_⟩
  have roots := congrArg (List.map (fun ref => ref.prevStateRoot.toList)) same
  revert roots
  decide +kernel

/-- Asked for on its own, cycle 3 is answered with the root of cycle 2. -/
theorem rangeAnswers_iff_single :
    fullyRecorded sampleReadingEnv samplePartlyRecorded 3 = true ∧
    ∀ ref ∈ buildLsuRangeRefs sampleReadingEnv samplePartlyRecorded 3 1, ref.prevStateRoot =
      rootBelow samplePartlyRecorded (hasRoot samplePartlyRecorded) ref.cycle.toNat := by
  refine ⟨by decide +kernel,
    ((rangeAnswers_iff sampleReadingEnv samplePartlyRecorded 3 1 (by decide)).mpr ⟨?_, ?_⟩).1⟩
  · intro cycle inside _
    have only : cycle = 3 := List.mem_singleton.mp inside
    subst only
    decide +kernel
  · intro _ a b sum cycle inside _
    have one : (1 : UInt32).toNat = 1 := rfl
    by_cases none : b.toNat = 0
    · rw [none] at inside
      exact absurd inside List.not_mem_nil
    · have first : a = 0 := UInt32.toNat_inj.mp (show a.toNat = 0 by omega)
      subst first
      rfl

end CatalystNode
