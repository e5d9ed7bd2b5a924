import CatalystNode.FoldTrace

namespace CatalystNode

open FoldTrace

structure DialBackoff where
  attempts : Nat
  nextAt : Nat
  deriving DecidableEq

def DialBackoff.canAttempt (st : DialBackoff) (now : Nat) : Bool := st.nextAt ≤ now

def computeBackoff (base attempts maxMs : Nat) : Nat := min (base * 2 ^ min (attempts - 1) 10) maxMs

structure DialConfig (Peer : Type) where
  bootstrap : List Peer
  maxAttempts : Nat
  baseBackoff : Nat
  dialBackoffMaxMs : Nat
  dialJitterMaxMs : Nat
  hash : Peer → Nat → Nat

def jitterMs {Peer : Type} (config : DialConfig Peer) (peer : Peer) (attempts : Nat) : Nat :=
  if config.dialJitterMaxMs = 0 then 0 else config.hash peer attempts % (config.dialJitterMaxMs + 1)

def catalystIdentifyProtocolMajorOk (version : String) : Bool :=
  if "catalyst/".toList.isPrefixOf version.toList then
    let rest := version.toList.drop "catalyst/".length
    let major := rest.takeWhile (fun c => ¬(c = '.' ∨ c = '-' ∨ c = '/'))
    let digits := if major.head? = some '+' then major.tail else major
    digits ≠ [] ∧ digits.all Char.isDigit = true ∧ Nat.ofDigitChars 10 digits 0 = 1
  else false

structure SwarmLoop (Peer : Type) where
  explicitPeers : Finset Peer
  peerConns : Peer → Option Nat
  dialBackoff : Peer → Option DialBackoff
  incompatible : Finset Peer
  connections : Peer → Nat

inductive SwarmEvent (Peer : Type) where
  | bootstrapTick (now : Nat)
  | mdnsDiscovered (peers : List Peer)
  | mdnsExpired (peers : List Peer)
  | identifyReceived (peer : Peer) (protocolVersion : String)
  | connectionEstablished (peer : Peer)
  | connectionClosed (peer : Peer)

section Model

variable {Peer : Type} [DecidableEq Peer]

def SwarmLoop.start : SwarmLoop Peer := ⟨∅, fun _ => none, fun _ => none, ∅, fun _ => 0⟩

def SwarmLoop.isConnected (s : SwarmLoop Peer) (peer : Peer) : Bool := 0 < s.connections peer

def SwarmLoop.addExplicitPeer (s : SwarmLoop Peer) (peer : Peer) : SwarmLoop Peer :=
  { s with explicitPeers := insert peer s.explicitPeers }

def SwarmLoop.removeExplicitPeer (s : SwarmLoop Peer) (peer : Peer) : SwarmLoop Peer :=
  { s with explicitPeers := s.explicitPeers.erase peer }

/-- Whether a peer that is still backing off, or out of attempts, is left alone. -/
def waits (config : DialConfig Peer) (now : Nat) (st : DialBackoff) : Bool :=
  ¬st.canAttempt now ∨ (0 < config.maxAttempts ∧ config.maxAttempts ≤ st.attempts)

def tickPeer (config : DialConfig Peer) (now : Nat) (s : SwarmLoop Peer) (pid : Peer) : SwarmLoop Peer :=
  if pid ∈ s.incompatible then s
  else if s.isConnected pid then { s with dialBackoff := Function.update s.dialBackoff pid none }
  else if (s.dialBackoff pid).any (waits config now) then s
  else
    let attempts := ((s.dialBackoff pid).map DialBackoff.attempts).getD 0 + 1
    let backoff := computeBackoff config.baseBackoff attempts config.dialBackoffMaxMs
    let next : DialBackoff := ⟨attempts, now + backoff + jitterMs config pid attempts⟩
    SwarmLoop.addExplicitPeer { s with dialBackoff := Function.update s.dialBackoff pid (some next) } pid

def onEstablished (s : SwarmLoop Peer) (peer : Peer) : SwarmLoop Peer :=
  { s.addExplicitPeer peer with
    dialBackoff := Function.update s.dialBackoff peer none
    peerConns := Function.update s.peerConns peer (some ((s.peerConns peer).getD 0 + 1))
    connections := Function.update s.connections peer (s.connections peer + 1) }

def onClosed (s : SwarmLoop Peer) (peer : Peer) : SwarmLoop Peer :=
  { s.removeExplicitPeer peer with
    peerConns := Function.update s.peerConns peer
      ((s.peerConns peer).bind (fun c => if c - 1 = 0 then none else some (c - 1)))
    connections := Function.update s.connections peer (s.connections peer - 1) }

def swarmStep (config : DialConfig Peer) (s : SwarmLoop Peer) : SwarmEvent Peer → SwarmLoop Peer
  | .bootstrapTick now => config.bootstrap.foldl (tickPeer config now) s
  | .mdnsDiscovered peers => peers.foldl SwarmLoop.addExplicitPeer s
  | .mdnsExpired peers => peers.foldl SwarmLoop.removeExplicitPeer s
  | .identifyReceived peer version =>
    if catalystIdentifyProtocolMajorOk version then s else { s with incompatible := insert peer s.incompatible }
  | .connectionEstablished peer => onEstablished s peer
  | .connectionClosed peer => onClosed s peer

/-- A connection that closes was open, and no peer gets more than two. -/
def SwarmEvent.Possible (s : SwarmLoop Peer) : SwarmEvent Peer → Prop
  | .connectionEstablished peer => s.connections peer < 2
  | .connectionClosed peer => 0 < s.connections peer
  | _ => True

def ConnectedExplicit (s : SwarmLoop Peer) : Prop := ∀ peer, 0 < s.connections peer → peer ∈ s.explicitPeers

/-- The event takes its status from no peer that stays connected. -/
def SwarmEvent.SparesConnected (s : SwarmLoop Peer) : SwarmEvent Peer → Prop
  | .connectionClosed peer => s.connections peer = 1
  | .mdnsExpired peers => ∀ peer ∈ peers, s.connections peer = 0
  | _ => True

end Model

section Steps

variable {Peer : Type} [DecidableEq Peer] {config : DialConfig Peer} {s : SwarmLoop Peer}

theorem connections_tickPeer (now : Nat) (pid : Peer) :
    (tickPeer config now s pid).connections = s.connections := by
  unfold tickPeer
  split_ifs <;> rfl

theorem connections_onEstablished (peer : Peer) : (onEstablished s peer).connections =
    Function.update s.connections peer (s.connections peer + 1) := rfl

theorem connections_onClosed (peer : Peer) : (onClosed s peer).connections =
    Function.update s.connections peer (s.connections peer - 1) := rfl

/-- The loop's own counts are the open connections. -/
def CountsConnections (s : SwarmLoop Peer) : Prop := ∀ peer, (s.peerConns peer).getD 0 = s.connections peer

theorem countsConnections_tickPeer (now : Nat) (pid : Peer) (counts : CountsConnections s) :
    CountsConnections (tickPeer config now s pid) := by
  unfold tickPeer
  split_ifs <;> exact counts

theorem countsConnections_swarmStep {event : SwarmEvent Peer} (counts : CountsConnections s) :
    CountsConnections (swarmStep config s event) := by
  cases event with
  | bootstrapTick now =>
    exact foldl_invariant counts (fun _ _ _ counts => countsConnections_tickPeer now _ counts)
  | mdnsDiscovered peers => exact foldl_invariant counts (fun _ _ _ counts => counts)
  | mdnsExpired peers => exact foldl_invariant counts (fun _ _ _ counts => counts)
  | identifyReceived peer version =>
    rw [swarmStep]
    split <;> exact counts
  | connectionEstablished peer =>
    intro other
    have before := counts other
    simp only [swarmStep, onEstablished, Function.update_apply]
    split
    next same => rw [Option.getD_some, ← same, before]
    next => exact before
  | connectionClosed peer =>
    intro other
    have before := counts other
    simp only [swarmStep, onClosed, Function.update_apply]
    split
    next same =>
      subst same
      cases known : s.peerConns other with
      | none =>
        rw [known] at before
        simp [← before]
      | some c =>
        rw [known, Option.getD_some] at before
        rw [Option.bind_some, ← before]
        split
        next last => rw [Option.getD_none, last]
        next => rfl
    next => exact before

theorem countsConnections_run (events : List (SwarmEvent Peer)) :
    CountsConnections (events.foldl (swarmStep config) .start) :=
  foldl_invariant (fun _ => rfl) (fun _ _ _ counts => countsConnections_swarmStep counts)

theorem subset_tickPeer (now : Nat) (pid : Peer) :
    s.explicitPeers ⊆ (tickPeer config now s pid).explicitPeers := by
  unfold tickPeer
  split_ifs
  · exact Finset.Subset.refl _
  · exact Finset.Subset.refl _
  · exact Finset.Subset.refl _
  · exact Finset.subset_insert _ _

omit [DecidableEq Peer] in
theorem ConnectedExplicit.grow {t : SwarmLoop Peer} (explicit : ConnectedExplicit s)
    (connections : t.connections = s.connections) (grown : s.explicitPeers ⊆ t.explicitPeers) :
    ConnectedExplicit t := by
  intro peer connected
  rw [connections] at connected
  exact grown (explicit peer connected)

theorem connectedExplicit_bootstrap (now : Nat) (peers : List Peer) (explicit : ConnectedExplicit s) :
    ConnectedExplicit (peers.foldl (tickPeer config now) s) :=
  foldl_invariant explicit
    (fun _ _ _ explicit => explicit.grow (connections_tickPeer now _) (subset_tickPeer now _))

theorem connectedExplicit_discovered (peers : List Peer) (explicit : ConnectedExplicit s) :
    ConnectedExplicit (peers.foldl SwarmLoop.addExplicitPeer s) :=
  foldl_invariant explicit (fun _ _ _ explicit => explicit.grow rfl (Finset.subset_insert _ _))

theorem foldl_removeExplicitPeer (peers : List Peer) (s : SwarmLoop Peer) :
    (peers.foldl SwarmLoop.removeExplicitPeer s).connections = s.connections ∧
      ∀ peer, peer ∈ (peers.foldl SwarmLoop.removeExplicitPeer s).explicitPeers ↔
        peer ∈ s.explicitPeers ∧ peer ∉ peers := by
  induction peers generalizing s with
  | nil => simp
  | cons first peers ih =>
    obtain ⟨connections, members⟩ := ih (s.removeExplicitPeer first)
    refine ⟨connections, fun peer => (members peer).trans ?_⟩
    rw [SwarmLoop.removeExplicitPeer, Finset.mem_erase, List.mem_cons, not_or]
    tauto

theorem connectedExplicit_expired_iff (peers : List Peer) (explicit : ConnectedExplicit s) :
    ConnectedExplicit (peers.foldl SwarmLoop.removeExplicitPeer s) ↔
      ∀ peer ∈ peers, s.connections peer = 0 := by
  obtain ⟨connections, members⟩ := foldl_removeExplicitPeer peers s
  rw [ConnectedExplicit, connections]
  constructor
  · intro spared peer listed
    by_contra connected
    exact ((members peer).mp (spared peer (Nat.pos_of_ne_zero connected))).2 listed
  · intro spared peer connected
    refine (members peer).mpr ⟨explicit peer connected, fun listed => ?_⟩
    exact absurd (spared peer listed) (Nat.pos_iff_ne_zero.mp connected)

theorem connectedExplicit_established (peer : Peer) (explicit : ConnectedExplicit s) :
    ConnectedExplicit (onEstablished s peer) := by
  intro other connected
  by_cases same : other = peer
  · rw [same]
    exact Finset.mem_insert_self _ _
  · rw [connections_onEstablished, Function.update_of_ne same] at connected
    exact Finset.mem_insert_of_mem (explicit other connected)

theorem connectedExplicit_closed_iff {peer : Peer} (opened : 0 < s.connections peer)
    (explicit : ConnectedExplicit s) : ConnectedExplicit (onClosed s peer) ↔ s.connections peer = 1 := by
  constructor
  · intro spared
    by_contra more
    have left : 0 < (onClosed s peer).connections peer := by
      rw [connections_onClosed, Function.update_self]
      omega
    exact (Finset.mem_erase.mp (spared peer left)).1 rfl
  · intro last other connected
    by_cases same : other = peer
    · rw [same, connections_onClosed, Function.update_self, last] at connected
      exact absurd connected (Nat.lt_irrefl 0)
    · rw [connections_onClosed, Function.update_of_ne same] at connected
      exact Finset.mem_erase.mpr ⟨same, explicit other connected⟩

/-- One event keeps every connected peer explicit exactly if it spares those that stay connected. -/
theorem connectedExplicit_swarmStep_iff {event : SwarmEvent Peer} (possible : event.Possible s)
    (explicit : ConnectedExplicit s) :
    ConnectedExplicit (swarmStep config s event) ↔ event.SparesConnected s := by
  cases event with
  | bootstrapTick now => exact iff_of_true (connectedExplicit_bootstrap now _ explicit) trivial
  | mdnsDiscovered peers => exact iff_of_true (connectedExplicit_discovered peers explicit) trivial
  | mdnsExpired peers => exact connectedExplicit_expired_iff peers explicit
  | identifyReceived peer version =>
    refine iff_of_true ?_ trivial
    rw [swarmStep]
    split
    next => exact explicit
    next => exact explicit.grow rfl (Finset.Subset.refl _)
  | connectionEstablished peer => exact iff_of_true (connectedExplicit_established peer explicit) trivial
  | connectionClosed peer => exact connectedExplicit_closed_iff possible explicit

/-- In a run of possible events every connected peer is explicit after each event exactly if no event takes the
status of a peer that stays connected. -/
theorem connectedExplicit_iff (config : DialConfig Peer) (s : SwarmLoop Peer) (start : ConnectedExplicit s)
    (events : List (SwarmEvent Peer))
    (possible : ∀ p ∈ foldSteps (swarmStep config) s events, p.2.Possible p.1) :
    (∀ before after, events = before ++ after → ConnectedExplicit (before.foldl (swarmStep config) s)) ↔
      ∀ p ∈ foldSteps (swarmStep config) s events, p.2.SparesConnected p.1 :=
  forall_reached_iff start (fun p listed => connectedExplicit_swarmStep_iff (possible p listed))

end Steps

def sampleDialConfig : DialConfig Nat := ⟨[1, 2], 0, 0, 0, 0, fun _ _ => 0⟩

/-- A peer that is dialed, connects and disconnects, while another one expires. -/
theorem connectedExplicit_iff_dialed :
    ConnectedExplicit ([.bootstrapTick 0, .connectionEstablished 1, .mdnsExpired [2]].foldl
      (swarmStep sampleDialConfig) .start) := by
  have start : ConnectedExplicit (SwarmLoop.start : SwarmLoop Nat) :=
    fun _ connected => absurd connected (Nat.lt_irrefl 0)
  refine (connectedExplicit_iff sampleDialConfig .start start
    [.bootstrapTick 0, .connectionEstablished 1, .mdnsExpired [2], .connectionClosed 1] ?_).mpr ?_
    [.bootstrapTick 0, .connectionEstablished 1, .mdnsExpired [2]] [.connectionClosed 1] rfl
  · intro p listed
    simp only [foldSteps, List.mem_cons, List.not_mem_nil, or_false] at listed
    rcases listed with rfl | rfl | rfl | rfl
    · trivial
    · exact Nat.zero_lt_two
    · trivial
    · exact Nat.zero_lt_one
  · intro p listed
    simp only [foldSteps, List.mem_cons, List.not_mem_nil, or_false] at listed
    rcases listed with rfl | rfl | rfl | rfl
    · trivial
    · trivial
    · intro peer listed
      rw [List.mem_singleton.mp listed]
      rfl
    · rfl

/-- A peer with two connections that loses one of them is connected and no explicit peer. -/
theorem connectedExplicit_one_of_two :
    let events : List (SwarmEvent Nat) :=
      [.connectionEstablished 1, .connectionEstablished 1, .connectionClosed 1]
    (∀ p ∈ foldSteps (swarmStep sampleDialConfig) .start events, p.2.Possible p.1) ∧
      ¬ConnectedExplicit (events.foldl (swarmStep sampleDialConfig) .start) := by
  refine ⟨fun p listed => ?_, fun explicit => ?_⟩
  · simp only [foldSteps, List.mem_cons, List.not_mem_nil, or_false] at listed
    rcases listed with rfl | rfl | rfl
    · exact Nat.zero_lt_two
    · exact Nat.one_lt_two
    · exact Nat.zero_lt_two
  · exact absurd (explicit 1 Nat.zero_lt_one) (by decide)

end CatalystNode
