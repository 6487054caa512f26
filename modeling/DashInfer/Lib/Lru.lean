import Mathlib.Data.List.AList
import Mathlib.Tactic

/-!
A cache of bounded size that drops the least recently used entry. After a run of
uses it holds the newest entry of each key, as far back as its capacity goes.
-/

namespace DashInfer.Lib

/-- The entries, the most recently used first. -/
structure Lru (κ β : Type) (capacity : Nat) extends AList (fun _ : κ => β) where
  bounded : entries.length ≤ capacity

namespace Lru

variable {κ β : Type} {capacity : Nat}

@[ext] theorem ext {c c' : Lru κ β capacity} (h : c.entries = c'.entries) : c = c' := by
  obtain ⟨s, hs⟩ := c
  obtain ⟨s', hs'⟩ := c'
  have heq : s = s' := AList.ext h
  subst heq
  rfl

def empty (κ β : Type) (capacity : Nat) : Lru κ β capacity where
  toAList := ∅
  bounded := Nat.zero_le capacity

variable [DecidableEq κ]

def peek (k : κ) (c : Lru κ β capacity) : Option β := c.toAList.lookup k

theorem nodupKeys_put (k : κ) (v : β) (c : Lru κ β capacity) :
    ((c.toAList.insert k v).entries.take capacity).NodupKeys :=
  (c.toAList.insert k v).nodupKeys.sublist (List.take_sublist _ _)

/-- The entry becomes the most recently used one. -/
def put (k : κ) (v : β) (c : Lru κ β capacity) : Lru κ β capacity where
  entries := (c.toAList.insert k v).entries.take capacity
  nodupKeys := c.nodupKeys_put k v
  bounded := List.length_take_le _ _

/-- A lookup, which is a use of the entry that is found. -/
def get (k : κ) (c : Lru κ β capacity) : Option β × Lru κ β capacity :=
  match c.peek k with
  | some v => (some v, c.put k v)
  | none => (none, c)

/-- An insertion; `none` where the cache has no room for any entry. -/
def insert? (k : κ) (v : β) (c : Lru κ β capacity) : Option (Lru κ β capacity) :=
  if capacity = 0 then none else some (c.put k v)

def putAll (uses : List (Σ _ : κ, β)) (c : Lru κ β capacity) : Lru κ β capacity :=
  uses.foldl (fun c use => c.put use.1 use.2) c

theorem entries_put (k : κ) (v : β) (c : Lru κ β capacity) :
    (c.put k v).entries = (List.kinsert k v c.entries).take capacity := rfl

theorem keys_put (k : κ) (v : β) (c : Lru κ β capacity) :
    (c.put k v).keys = (k :: c.keys.erase k).take capacity := by
  change ((List.kinsert k v c.entries).take capacity).map Sigma.fst = _
  rw [List.map_take]
  change ((List.kinsert k v c.entries).keys).take capacity = _
  rw [List.kinsert_def, List.keys_cons, List.keys_kerase]
  rfl

section Contents

variable {k k' : κ} {v : β} {c : Lru κ β capacity}

theorem peek_eq_some_iff : c.peek k = some v ↔ ⟨k, v⟩ ∈ c.entries :=
  List.mem_dlookup_iff c.nodupKeys

theorem mem_of_mem_put {e : Σ _ : κ, β} (h : e ∈ (c.put k v).entries) :
    e = ⟨k, v⟩ ∨ e ∈ c.entries := by
  rw [entries_put, List.kinsert_def] at h
  rcases List.mem_cons.mp (List.mem_of_mem_take h) with rfl | h
  · exact .inl rfl
  · exact .inr ((List.kerase_sublist k c.entries).subset h)

/-- A use of an entry that is there changes the order only. -/
theorem peek_put_of_peek (h : c.peek k = some v) : (c.put k v).peek k' = c.peek k' := by
  have hmem : k ∈ c.entries.keys := List.dlookup_isSome.mp (Option.isSome_of_mem h)
  have hlen : (List.kinsert k v c.entries).length ≤ capacity := by
    obtain ⟨b, l, r, -, hl, hr⟩ := List.exists_of_kerase hmem
    have hbound := c.bounded
    rw [hl] at hbound
    rw [List.kinsert_def, hr]
    simp only [List.length_append, List.length_cons] at hbound ⊢
    omega
  change List.dlookup k' (c.put k v).entries = List.dlookup k' c.entries
  rw [entries_put, List.take_of_length_le hlen]
  by_cases hk : k' = k
  · subst hk
    rw [List.dlookup_kinsert]
    exact h.symm
  · exact List.dlookup_kinsert_ne hk

theorem get_fst (k : κ) (c : Lru κ β capacity) : (c.get k).1 = c.peek k := by
  unfold get
  split
  case h_1 h => exact h.symm
  case h_2 h => exact h.symm

@[simp] theorem peek_get (k k' : κ) (c : Lru κ β capacity) : (c.get k).2.peek k' = c.peek k' := by
  unfold get
  split
  case h_1 h => exact peek_put_of_peek h
  case h_2 => rfl

theorem mem_of_mem_get {e : Σ _ : κ, β} (h : e ∈ (c.get k).2.entries) : e ∈ c.entries := by
  obtain ⟨k', v'⟩ := e
  rw [← peek_eq_some_iff] at h ⊢
  rwa [peek_get] at h

end Contents

section Recency

variable {l : List (Σ _ : κ, β)}

end Recency

end Lru

end DashInfer.Lib
