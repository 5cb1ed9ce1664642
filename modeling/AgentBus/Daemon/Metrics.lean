import AgentBus.Lib.Histogram

/-!
# Cumulative tallies

`BusTally` holds the histograms of the whole bus, `PartitionTally` the counters
of one partition. They never decrease. The source counts in `u64`: the natural
numbers here are its counters as long as none of them reaches `2 ^ 64`.
-/

namespace AgentBus

open Lib

/-! ## Histograms -/

def latencyBucketsMs : List ℕ :=
  [0, 10, 25, 50, 100, 250, 500, 1000, 2500, 5000, 10000, 30000, 60000]

def sizeBucketsBytes : List ℕ :=
  [0, 32, 64, 128, 256, 512, 1024, 4096, 16384, 65536, 262144, 1048576, 4194304]

/-- The cells are `u64` in the source, and assumed to stay below `2 ^ 64`. -/
structure BusTally where
  latencyHist : Histogram latencyBucketsMs
  sizeHist : Histogram sizeBucketsBytes

namespace BusTally

def new : BusTally := ⟨.new, .new⟩

def recordPost (t : BusTally) (bodyBytes : ℕ) : BusTally :=
  { t with sizeHist := t.sizeHist.record bodyBytes }

def recordDelivery (t : BusTally) (latencyMs : ℕ) : BusTally :=
  { t with latencyHist := t.latencyHist.record latencyMs }

/-- No cell of either histogram is smaller. -/
structure Le (t t' : BusTally) : Prop where
  latencies : t.latencyHist.Le t'.latencyHist
  sizes : t.sizeHist.Le t'.sizeHist

theorem Le.refl (t : BusTally) : t.Le t := ⟨.refl _, .refl _⟩

theorem Le.trans {t t' t'' : BusTally} (h : t.Le t') (h' : t'.Le t'') : t.Le t'' :=
  ⟨h.latencies.trans h'.latencies, h.sizes.trans h'.sizes⟩

theorem le_recordPost (t : BusTally) (bodyBytes : ℕ) : t.Le (t.recordPost bodyBytes) :=
  ⟨.refl _, t.sizeHist.le_record bodyBytes⟩

theorem le_recordDelivery (t : BusTally) (latencyMs : ℕ) : t.Le (t.recordDelivery latencyMs) :=
  ⟨t.latencyHist.le_record latencyMs, .refl _⟩

end BusTally

/-! ## Counters -/

/-- The counters are `u64` in the source, and assumed to stay below `2 ^ 64`. -/
structure PartitionTally where
  posts : ℕ
  deliveries : ℕ
  bytes : ℕ
  postsHigh : ℕ
  postsBroadcast : ℕ
  pruned : ℕ
  snapped : ℕ

namespace PartitionTally

def new : PartitionTally := ⟨0, 0, 0, 0, 0, 0, 0⟩

def recordPost (t : PartitionTally) (bodyBytes : ℕ) (high broadcast : Bool) : PartitionTally :=
  { t with
    posts := t.posts + 1
    bytes := t.bytes + bodyBytes
    postsHigh := if high then t.postsHigh + 1 else t.postsHigh
    postsBroadcast := if broadcast then t.postsBroadcast + 1 else t.postsBroadcast }

def recordDeliveries (t : PartitionTally) (count : ℕ) : PartitionTally :=
  { t with deliveries := t.deliveries + count }

def recordPrune (t : PartitionTally) (removed snapped : ℕ) : PartitionTally :=
  { t with pruned := t.pruned + removed, snapped := t.snapped + snapped }

/-- No counter is smaller. -/
structure Le (t t' : PartitionTally) : Prop where
  posts : t.posts ≤ t'.posts
  deliveries : t.deliveries ≤ t'.deliveries
  bytes : t.bytes ≤ t'.bytes
  postsHigh : t.postsHigh ≤ t'.postsHigh
  postsBroadcast : t.postsBroadcast ≤ t'.postsBroadcast
  pruned : t.pruned ≤ t'.pruned
  snapped : t.snapped ≤ t'.snapped

theorem Le.refl (t : PartitionTally) : t.Le t := by
  constructor <;> exact Nat.le_refl _

theorem Le.trans {t t' t'' : PartitionTally} (h : t.Le t') (h' : t'.Le t'') : t.Le t'' :=
  ⟨h.posts.trans h'.posts, h.deliveries.trans h'.deliveries, h.bytes.trans h'.bytes,
    h.postsHigh.trans h'.postsHigh, h.postsBroadcast.trans h'.postsBroadcast,
    h.pruned.trans h'.pruned, h.snapped.trans h'.snapped⟩

theorem le_recordPost (t : PartitionTally) (bodyBytes : ℕ) (high broadcast : Bool) :
    t.Le (t.recordPost bodyBytes high broadcast) := by
  have hflag : ∀ (flag : Bool) (n : ℕ), n ≤ if flag then n + 1 else n := by
    intro flag n
    split <;> omega
  exact ⟨Nat.le_succ _, Nat.le_refl _, Nat.le_add_right .., hflag .., hflag .., Nat.le_refl _,
    Nat.le_refl _⟩

theorem le_recordDeliveries (t : PartitionTally) (count : ℕ) : t.Le (t.recordDeliveries count) := by
  constructor <;> simp only [recordDeliveries, le_refl]
  omega

theorem le_recordPrune (t : PartitionTally) (removed snapped : ℕ) :
    t.Le (t.recordPrune removed snapped) := by
  constructor <;> simp only [recordPrune, le_refl]
  all_goals omega

end PartitionTally

end AgentBus
