import CatalystNode.LsuHistory

namespace PinnedBucket

/-- Parameters, once some are known, and one value for each sender. -/
structure Bucket (P V : Type) where
  pinned : Option P
  values : Std.ExtTreeMap String V

end PinnedBucket

namespace CatalystNode

open ByteVector HexCodec PinnedBucket

def lsuFinalityCidKey (cycle : UInt64) : String := s!"consensus:lsu_finality_cid:{cycle}"

def lsuStateRootCidKey (cycle : UInt64) : String := s!"consensus:lsu_state_root_cid:{cycle}"

/-- What a finality bucket is for; the fields are only ever set together. -/
structure FinalityBucketParams where
  chainId : UInt64
  genesisHash : Hash
  committeeHash : Hash
  voteListHash : Hash
  deriving DecidableEq

structure StateRootBucketParams where
  chainId : UInt64
  genesisHash : Hash
  committeeHash : Hash
  deriving DecidableEq

abbrev FinalityAttestationBucket := Bucket FinalityBucketParams Bytes

abbrev StateRootAttestationBucket := Bucket StateRootBucketParams Bytes

def voteEntries (lsu : LedgerStateUpdate) (votes : Std.ExtTreeMap String Bytes) :
    List ProducerFinalityVote :=
  (votes.toList.filter (fun vote =>
    vote.2.length = 64 ∧ vote.1 ∈ lsu.voteList ∧ vote.1 ∈ lsu.producerList)).map
    (fun vote => ⟨vote.1, vote.2⟩)

def putContent (contentId : Bytes → String) (dfs : ContentStore) (bytes : Bytes) : ContentStore :=
  if (dfs (contentId bytes)).isSome then dfs
  else Function.update dfs (contentId bytes) (some bytes)

end CatalystNode
