import DashInfer.Cache.Span
import DashInfer.Lib.OrderedSet

/-!
Prefix nodes and the order in which they are evicted. A node holds, per layer,
the K and the V span of one block of tokens. The order compares the mutable
`lastAccessTime` first, so whether a set of nodes is ordered depends on the
nodes as they stand.
-/

namespace DashInfer.Cache

open Lib

abbrev NodeId := Nat

/-- The ten zero-padded digits of a 32-bit hash, compared as the number. -/
abbrev Hash := Nat

structure PrefixNode where
  kCache : List SpanId
  vCache : List SpanId
  refCnt : Int
  prefixLen : Nat
  lastAccessTime : Nat
  hash : Hash
  isReady : Bool

namespace PrefixNode

def cacheNum (node : PrefixNode) : Nat := node.kCache.length

/-- K and V span of every layer, in the order in which the copy workspace lays
them out and in which they are released. -/
def spans (node : PrefixNode) : List SpanId :=
  (node.kCache.zip node.vCache).flatMap (fun kv => [kv.1, kv.2])

/-- The timestamp only moves forward. -/
def touch (node : PrefixNode) (ts : Nat) : PrefixNode :=
  if node.lastAccessTime < ts then { node with lastAccessTime := ts } else node

/-- What no reference or access changes: everything but the two counters. -/
def still (node : PrefixNode) : PrefixNode := { node with refCnt := 0, lastAccessTime := 0 }

@[simp] theorem touch_refCnt (node : PrefixNode) (ts : Nat) :
    (node.touch ts).refCnt = node.refCnt := by
  unfold touch
  split <;> rfl

@[simp] theorem touch_still (node : PrefixNode) (ts : Nat) :
    (node.touch ts).still = node.still := by
  unfold touch
  split <;> rfl

/-- `operator<`: smaller nodes are more likely to be evicted. -/
def lt (node other : PrefixNode) : Bool :=
  if node.lastAccessTime ≠ other.lastAccessTime then
    node.lastAccessTime < other.lastAccessTime
  else if node.prefixLen ≠ other.prefixLen then node.prefixLen > other.prefixLen
  else node.hash < other.hash

theorem lt_iff (node other : PrefixNode) :
    node.lt other = true ↔
      node.lastAccessTime < other.lastAccessTime ∨
        node.lastAccessTime = other.lastAccessTime ∧
          (other.prefixLen < node.prefixLen ∨
            node.prefixLen = other.prefixLen ∧ node.hash < other.hash) := by
  unfold lt
  split
  · next h =>
      simp only [decide_eq_true_eq]
      exact ⟨Or.inl, fun hlt => hlt.resolve_right (fun heq => h heq.1)⟩
  · next h =>
      have heq := not_not.mp h
      split
      · next hlen =>
          simp only [decide_eq_true_eq]
          refine ⟨fun hlt => Or.inr ⟨heq, Or.inl hlt⟩, ?_⟩
          rintro (hlt | ⟨_, hlt | ⟨hsame, _⟩⟩)
          · exact absurd heq (Nat.ne_of_lt hlt)
          · exact hlt
          · exact absurd hsame hlen
      · next hlen =>
          have hsame := not_not.mp hlen
          simp only [decide_eq_true_eq]
          refine ⟨fun hlt => Or.inr ⟨heq, Or.inr ⟨hsame, hlt⟩⟩, ?_⟩
          rintro (hlt | ⟨_, hlt | ⟨_, hlt⟩⟩)
          · exact absurd heq (Nat.ne_of_lt hlt)
          · exact absurd hsame.symm (Nat.ne_of_lt hlt)
          · exact hlt

/-- Only nodes with the same hash are equivalent. -/
theorem hash_eq_of_not_lt {node other : PrefixNode} (h : node.lt other = false)
    (h' : other.lt node = false) : node.hash = other.hash := by
  have hlt : ¬ node.lt other = true := by simp [h]
  have hlt' : ¬ other.lt node = true := by simp [h']
  rw [lt_iff] at hlt hlt'
  change (node.hash : Nat) = other.hash
  grind

theorem spans_length (node : PrefixNode) (h : node.vCache.length = node.kCache.length) :
    node.spans.length = 2 * node.cacheNum := by
  unfold spans cacheNum
  rw [List.length_flatMap]
  simp [h, Nat.mul_comm]

/-- The spans of a node are those of its K and of its V cache. -/
theorem spans_perm (node : PrefixNode) (h : node.vCache.length = node.kCache.length) :
    node.spans.Perm (node.kCache ++ node.vCache) := by
  obtain ⟨kCache, vCache, _⟩ := node
  unfold spans
  dsimp only at h ⊢
  induction kCache generalizing vCache with
  | nil => simp_all
  | cons k ks ih =>
      cases vCache with
      | nil => simp at h
      | cons v vs =>
          simp only [List.length_cons, Nat.add_right_cancel_iff] at h
          have hrest := ih vs h
          simp only [List.zip_cons_cons, List.flatMap_cons, List.cons_append, List.nil_append]
          refine List.Perm.cons k ?_
          exact (List.Perm.cons v hrest).trans List.perm_middle.symm

end PrefixNode

/-- The comparator of the evictor's set, over the nodes behind the handles. -/
def nodeComparator (nodes : NodeId → PrefixNode) (lhs rhs : NodeId) : Bool :=
  (nodes lhs).lt (nodes rhs)

theorem nodeComparator_strictWeak (nodes : NodeId → PrefixNode) :
    StrictWeak (nodeComparator nodes) where
  irrefl a := by
    rw [nodeComparator, Bool.eq_false_iff, ne_eq, PrefixNode.lt_iff]
    simp
  trans a b c hab hbc := by
    simp only [nodeComparator, PrefixNode.lt_iff] at hab hbc ⊢
    grind
  apart a b c hac := by
    simp only [nodeComparator, PrefixNode.lt_iff] at hac ⊢
    grind

end DashInfer.Cache
