import CatalystNode.CanonicalSlot
import CatalystNode.InboundSync

namespace CatalystNode

open ByteVector

/-- Candidates of one cycle, each hash with one tier and one state-root flag. -/
structure AgreeingCandidates (cycle : UInt64) (candidates : Set ForkChoiceCandidate) : Prop where
  ofCycle : ∀ c ∈ candidates, c.cycle = cycle
  agree : ∀ a ∈ candidates, ∀ b ∈ candidates, a.lsuHash = b.lsuHash →
    a.tier = b.tier ∧ a.stateRootCertified = b.stateRootCertified

namespace AgreeingCandidates

variable {cycle : UInt64} {candidates : Set ForkChoiceCandidate}
  (agreeing : AgreeingCandidates cycle candidates) {a b : ForkChoiceCandidate}
  (ha : a ∈ candidates) (hb : b ∈ candidates)

include agreeing ha hb

theorem eq_of_lsuHash_eq (same : a.lsuHash = b.lsuHash) : a = b := by
  have cycles := (agreeing.ofCycle a ha).trans (agreeing.ofCycle b hb).symm
  obtain ⟨tier, root⟩ := agreeing.agree a ha b hb same
  cases a
  cases b
  simp_all

theorem eq_of_strength_eq (same : a.strength = b.strength) : a = b := by
  have parts := congrArg (fun s => (ofLex (ofLex s).2).2) same
  exact agreeing.eq_of_lsuHash_eq ha hb (OrderDual.toDual_inj.mp parts)

/-- On agreeing candidates fork choice is the order of strength. -/
theorem forkChoicePrefer_eq_right : forkChoicePrefer a b = .right ↔ a.strength < b.strength := by
  refine ⟨strength_lt_of_forkChoicePrefer_right, fun below => ?_⟩
  cases answer : forkChoicePrefer a b with
  | right => rfl
  | tie =>
    have same := agreeing.eq_of_lsuHash_eq ha hb (forkChoicePrefer_eq_tie.mp answer)
    exact absurd below (same ▸ lt_irrefl _)
  | left =>
    exact absurd below
      (strength_lt_of_forkChoicePrefer_right (forkChoicePrefer_swap.mp answer)).not_gt

theorem forkChoicePrefer_eq_left : forkChoicePrefer a b = .left ↔ b.strength < a.strength :=
  forkChoicePrefer_swap.trans (agreeing.forkChoicePrefer_eq_right hb ha)

end AgreeingCandidates

def replaceIfBeaten (stored incoming : ForkChoiceCandidate) : ForkChoiceCandidate :=
  if incomingBeatsStored incoming stored then incoming else stored

/-- Replacing the stored candidate whenever it is beaten keeps the strongest of all arrivals. -/
theorem AgreeingCandidates.argmax_strength {cycle : UInt64}
    {candidates : Set ForkChoiceCandidate} (agreeing : AgreeingCandidates cycle candidates)
    {first : ForkChoiceCandidate} {rest : List ForkChoiceCandidate}
    (known : ∀ c ∈ first :: rest, c ∈ candidates) :
    (first :: rest).argmax ForkChoiceCandidate.strength =
      some (rest.foldl replaceIfBeaten first) := by
  induction rest using List.reverseRecOn with
  | nil => rfl
  | append_singleton rest c ih =>
    have before : ∀ c ∈ first :: rest, c ∈ candidates := fun c hc =>
      known c (List.mem_append_left [_] hc)
    have stored := List.argmax_mem (ih before)
    have beats : incomingBeatsStored c (rest.foldl replaceIfBeaten first) ↔
        (rest.foldl replaceIfBeaten first).strength < c.strength := by
      rw [incomingBeatsStored, decide_eq_true_eq]
      exact agreeing.forkChoicePrefer_eq_left (known c (by simp)) (before _ stored)
    rw [← List.cons_append, List.argmax_concat, ih before, List.foldl_append, List.foldl_cons,
      List.foldl_nil, replaceIfBeaten]
    dsimp only
    by_cases stronger : (rest.foldl replaceIfBeaten first).strength < c.strength
    · rw [if_pos stronger, if_pos (beats.mpr stronger)]
    · rw [if_neg stronger, if_neg (mt beats.mp stronger)]

/-- On agreeing candidates of one cycle fork choice is a strict total order, and the candidate left
after replacing the stored one whenever it is beaten is the strongest, in whatever order and however
often the candidates arrive. -/
theorem forkChoicePrefer_uniqueWinner (cycle : UInt64) (candidates : Set ForkChoiceCandidate)
    (agreeing : AgreeingCandidates cycle candidates) :
    (∀ a ∈ candidates, ∀ b ∈ candidates,
      (forkChoicePrefer a b = .left ↔ forkChoicePrefer b a = .right) ∧
      (forkChoicePrefer a b = .tie ↔ a.lsuHash = b.lsuHash)) ∧
    (∀ a ∈ candidates, ∀ b ∈ candidates, ∀ c ∈ candidates, forkChoicePrefer a b = .left →
      forkChoicePrefer b c = .left → forkChoicePrefer a c = .left) ∧
    ∀ finite : Finset ForkChoiceCandidate, finite.Nonempty → ↑finite ⊆ candidates →
      ∃ winner ∈ finite, (∀ c ∈ finite, c ≠ winner → forkChoicePrefer winner c = .left) ∧
        ∀ (first : ForkChoiceCandidate) (rest : List ForkChoiceCandidate),
          (∀ c, c ∈ first :: rest ↔ c ∈ finite) → rest.foldl replaceIfBeaten first = winner := by
  refine ⟨fun a _ b _ => ⟨forkChoicePrefer_swap, forkChoicePrefer_eq_tie⟩, ?_, ?_⟩
  · intro a ha b hb c hc ab bc
    rw [agreeing.forkChoicePrefer_eq_left ha hb] at ab
    rw [agreeing.forkChoicePrefer_eq_left hb hc] at bc
    exact (agreeing.forkChoicePrefer_eq_left ha hc).mpr (bc.trans ab)
  · intro finite nonempty known
    obtain ⟨winner, hw, strongest⟩ := finite.exists_max_image ForkChoiceCandidate.strength nonempty
    refine ⟨winner, hw, ?_, ?_⟩
    · intro c hc other
      rw [agreeing.forkChoicePrefer_eq_left (known hw) (known hc)]
      exact lt_of_le_of_ne (strongest c hc) (fun same =>
        other (agreeing.eq_of_strength_eq (known hc) (known hw) same))
    · intro first rest arrivals
      have kept := agreeing.argmax_strength (fun c hc => known ((arrivals c).mp hc))
      have member := (arrivals _).mp (List.argmax_mem kept)
      refine agreeing.eq_of_strength_eq (known member) (known hw) (le_antisymm ?_ ?_)
      · exact strongest _ member
      · exact List.le_of_mem_argmax ((arrivals winner).mpr hw) kept

def sampleCandidate (first : UInt8) (tier : ForkChoiceTier) : ForkChoiceCandidate :=
  ⟨7, padTo 32 [first], tier, false⟩

theorem forkChoicePrefer_uniqueWinner_two :
    ∃ winner ∈ ({sampleCandidate 1 .none, sampleCandidate 2 .certified} :
        Finset ForkChoiceCandidate),
      ∀ (first : ForkChoiceCandidate) (rest : List ForkChoiceCandidate),
        (∀ c, c ∈ first :: rest ↔ c ∈ ({sampleCandidate 1 .none, sampleCandidate 2 .certified} :
          Finset ForkChoiceCandidate)) → rest.foldl replaceIfBeaten first = winner := by
  have agreeing : AgreeingCandidates 7
      ↑({sampleCandidate 1 .none, sampleCandidate 2 .certified} : Finset ForkChoiceCandidate) := by
    constructor
    · simp only [Finset.mem_coe]
      decide
    · simp only [Finset.mem_coe]
      decide
  obtain ⟨winner, hw, -, same⟩ := (forkChoicePrefer_uniqueWinner 7 _ agreeing).2.2 _ (by simp)
    (Set.Subset.refl _)
  exact ⟨winner, hw, same⟩

end CatalystNode
