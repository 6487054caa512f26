import DashInfer.Memory.Blocks

/-!
`MemoryReuser::binding_with_algo_0`: the tensors of a graph are bound to blocks
in the order of its operators, and a block is freed behind the last operator
that visits its tensor. The blocks have no size yet; `SetShape` gives it to
them later.
-/

namespace DashInfer.Memory

open Lib

/-- Names of tensors whose memory is not reused. -/
def noreused : List String :=
  ["cross_attention.key_value.out", "input_ids", "attention_mask", "fusion_input_ids",
    "fusion_attention_mask", "fusion_relative_position", "batch_offset", "transmask.out",
    "max_dec_ids", "generated_ids_global", "dec_ids", "next_beam_id", "hyps_ids",
    "hyps_beam_score"]

def checknoused (name : String) : Bool :=
  noreused.any fun s => decide (s.toList <:+: name.toList)

/-- The tensors of a graph, by their pointers: the bytes of their shape and the
block they are bound to. -/
structure Tensors where
  name : Nat → String
  nbytes : Nat → Nat
  block : Nat → Option Nat

structure Reuser (S : OrderedSet Nat) where
  blocks : Blocks S
  tensors : Tensors
  binded : Finset Nat
  vis : Nat → Int

namespace Reuser

variable {S : OrderedSet Nat}

/-- A tensor of an operator: it is bound on its first visit. -/
def visit (heap : Heap) (m : Reuser S) (t : Nat) : Reuser S :=
  if checknoused (m.tensors.name t) then m
  else
    let m : Reuser S :=
      if t ∈ m.binded then m
      else
        let taken := m.blocks.alloc heap 0
        { m with
          blocks := taken.2
          tensors.block := Function.update m.tensors.block t (some taken.1)
          binded := insert t m.binded }
    { m with vis := Function.update m.vis t (m.vis t - 1) }

/-- An entry of `vis` behind an operator. -/
def retire (m : Reuser S) (t : Nat) : Reuser S :=
  if m.vis t = 0 then
    { m with
      blocks := m.blocks.release (m.tensors.block t)
      vis := Function.update m.vis t (-1) }
  else m

def bindOperator (heap : Heap) (order : List Nat) (m : Reuser S) (op : List Nat) : Reuser S :=
  order.foldl retire (op.foldl (visit heap) m)

end Reuser

/-- `order` is the order in which the hash table `vis` is walked. -/
def bindingWithAlgo0 {S : OrderedSet Nat} (heap : Heap) (order : List Nat)
    (visitList : List (List Nat)) (tensors : Tensors) (blocks : Blocks S) : Reuser S :=
  let vis : Nat → Int := fun t => visitList.flatten.count t
  visitList.foldl (Reuser.bindOperator heap order) ⟨blocks, tensors, ∅, vis⟩

namespace Reuser

/-- `AsTensor::SetShape` to a number of bytes, of a bound or an unbound tensor. -/
def setShape {S : OrderedSet Nat} (m : Reuser S) (t n : Nat) : Reuser S :=
  let m : Reuser S :=
    match m.tensors.block t with
    | some block => { m with blocks := m.blocks.resize block n }
    | none => m
  { m with tensors.nbytes := Function.update m.tensors.nbytes t n }

end Reuser

/-- Operator `i` reads or writes the tensor. -/
def Uses (visitList : List (List Nat)) (t i : Nat) : Prop :=
  ∃ op, visitList[i]? = some op ∧ t ∈ op

/-- The live ranges, from the first to the last use, are disjoint. -/
def DisjointRanges (visitList : List (List Nat)) (t u : Nat) : Prop :=
  (∀ i j, Uses visitList t i → Uses visitList u j → i < j) ∨
    ∀ i j, Uses visitList t i → Uses visitList u j → j < i

theorem DisjointRanges.symm {visitList : List (List Nat)} {t u : Nat}
    (h : DisjointRanges visitList t u) : DisjointRanges visitList u t := by
  rcases h with h | h
  · exact Or.inr fun i j hi hj => h j i hj hi
  · exact Or.inl fun i j hi hj => h j i hj hi

section Invariant

variable {S : OrderedSet Nat} {visitList : List (List Nat)}

/-- The state while operator `i` is bound: `seen` of its tensors are behind,
`remaining` are the visits ahead, and the retired tensors are those whose uses
end before `bound`. -/
structure Binding (visitList : List (List Nat)) (i bound : Nat) (seen remaining : List Nat)
    (m : Reuser S) : Prop where
  sound : m.blocks.Sound
  count : ∀ t, checknoused (m.tensors.name t) = false → m.vis t = -1 ∨ m.vis t = remaining.count t
  kept : ∀ t, checknoused (m.tensors.name t) = true → m.vis t = visitList.flatten.count t
  retired : ∀ t, m.vis t = -1 → ∀ j, Uses visitList t j → j < bound
  unbound : ∀ t, checknoused (m.tensors.name t) = false → t ∉ m.binded →
    m.vis t ≠ -1 ∧ t ∉ seen ∧ ∀ j < i, ¬ Uses visitList t j
  binded : ∀ t b, m.tensors.block t = some b → t ∈ m.binded
  block : ∀ t ∈ m.binded, ∃ b, m.tensors.block t = some b ∧ (m.vis t ≠ -1 → b ∈ m.blocks.allocated)
  owner : ∀ t u b, m.tensors.block t = some b → m.tensors.block u = some b →
    m.vis t ≠ -1 → m.vis u ≠ -1 → t = u
  disjoint : ∀ t u b, m.tensors.block t = some b → m.tensors.block u = some b → t ≠ u →
    DisjointRanges visitList t u

/-- A tensor that is not reused is passed over. -/
theorem Binding.skip {i : Nat} {seen rest : List Nat} {t : Nat} {m : Reuser S}
    (h : Binding visitList i i seen (t :: rest) m) (ht : checknoused (m.tensors.name t) = true) :
    Binding visitList i i (seen ++ [t]) rest m := by
  have hne : ∀ u, checknoused (m.tensors.name u) = false → u ≠ t := by
    rintro u hu rfl
    rw [ht] at hu
    cases hu
  refine ⟨h.sound, fun u hu => ?_, h.kept, h.retired, fun u hu hub => ?_, h.binded, h.block,
    h.owner, h.disjoint⟩
  · have hcount := h.count u hu
    rwa [List.count_cons_of_ne (hne u hu).symm] at hcount
  · obtain ⟨hvis, hseen, hbefore⟩ := h.unbound u hu hub
    refine ⟨hvis, fun hmem => ?_, hbefore⟩
    rcases List.mem_append.mp hmem with hmem | hmem
    · exact hseen hmem
    · exact hne u hu (List.mem_singleton.mp hmem)

/-- The visit of a bound tensor counts down. -/
theorem Binding.countDown {i : Nat} {seen rest : List Nat} {t : Nat} {m : Reuser S}
    (h : Binding visitList i i seen (t :: rest) m) (huse : Uses visitList t i)
    (ht : checknoused (m.tensors.name t) = false) (hbound : t ∈ m.binded) :
    Binding visitList i i (seen ++ [t]) rest
      { m with vis := Function.update m.vis t (m.vis t - 1) } := by
  have hlive : m.vis t ≠ -1 := fun hvis => Nat.lt_irrefl i (h.retired t hvis i huse)
  have hvis : m.vis t = (t :: rest).count t := (h.count t ht).resolve_left hlive
  rw [List.count_cons_self] at hvis
  have hstill : ∀ u, Function.update m.vis t (m.vis t - 1) u = -1 ↔ m.vis u = -1 := by
    intro u
    by_cases hu : u = t
    · subst hu
      rw [Function.update_self]
      omega
    · rw [Function.update_of_ne hu]
  refine ⟨h.sound, fun u hu => ?_, fun u hu => ?_, fun u hu => h.retired u ((hstill u).mp hu),
    fun u hu hub => ?_, h.binded, fun u hu => ?_, fun u v b hu hv hlu hlv => ?_, h.disjoint⟩
  · by_cases hut : u = t
    · subst hut
      right
      dsimp only
      rw [Function.update_self, hvis]
      omega
    · have hcount := h.count u hu
      rw [List.count_cons_of_ne (Ne.symm hut)] at hcount
      dsimp only
      rw [Function.update_of_ne hut]
      exact hcount
  · have hut : u ≠ t := by
      rintro rfl
      rw [ht] at hu
      cases hu
    dsimp only
    rw [Function.update_of_ne hut]
    exact h.kept u hu
  · obtain ⟨hvis, hseen, hbefore⟩ := h.unbound u hu hub
    refine ⟨fun hgone => hvis ((hstill u).mp hgone), fun hmem => ?_, hbefore⟩
    rcases List.mem_append.mp hmem with hmem | hmem
    · exact hseen hmem
    · obtain rfl := List.mem_singleton.mp hmem
      exact hub hbound
  · obtain ⟨b, hb, halloc⟩ := h.block u hu
    exact ⟨b, hb, fun hlu => halloc fun hgone => hlu ((hstill u).mpr hgone)⟩
  · exact h.owner u v b hu hv (fun hgone => hlu ((hstill u).mpr hgone))
      fun hgone => hlv ((hstill v).mpr hgone)

/-- The first visit of a tensor binds it to a block that no live tensor has. -/
theorem Binding.bind {i : Nat} {seen remaining : List Nat} {t : Nat} {m : Reuser S} (heap : Heap)
    (h : Binding visitList i i seen remaining m) (ht : checknoused (m.tensors.name t) = false)
    (hbound : t ∉ m.binded) :
    Binding visitList i i seen remaining
      { m with
        blocks := (m.blocks.alloc heap 0).2
        tensors.block := Function.update m.tensors.block t (some (m.blocks.alloc heap 0).1)
        binded := insert t m.binded } := by
  obtain ⟨hsound, hfresh, halloc, -⟩ := Blocks.taken_alloc heap h.sound
  obtain ⟨hlive, -, hbefore⟩ := h.unbound t ht hbound
  -- a tensor that had the block is retired, so its uses are over
  have hformer : ∀ u, u ≠ t → m.tensors.block u = some (m.blocks.alloc heap 0).1 →
      m.vis u = -1 ∧ DisjointRanges visitList u t := by
    intro u hut hu
    obtain ⟨b, hb, hmem⟩ := h.block u (h.binded u _ hu)
    obtain rfl := Option.some.inj (hu.symm.trans hb)
    have hgone : m.vis u = -1 := by
      by_contra hlu
      exact hfresh (hmem hlu)
    refine ⟨hgone, Or.inl fun j k hj hk => ?_⟩
    have hjlt := h.retired u hgone j hj
    have hkge : i ≤ k := by
      by_contra hlt
      exact hbefore k (by omega) hk
    omega
  refine ⟨hsound, h.count, h.kept, h.retired, fun u hu hub => ?_, fun u b hu => ?_,
    fun u hu => ?_, fun u v b hu hv hlu hlv => ?_, fun u v b hu hv hne => ?_⟩
  · exact h.unbound u hu fun hmem => hub (Finset.mem_insert_of_mem hmem)
  · by_cases hut : u = t
    · rw [hut]
      exact Finset.mem_insert_self t _
    · dsimp only at hu
      rw [Function.update_of_ne hut] at hu
      exact Finset.mem_insert_of_mem (h.binded u b hu)
  · dsimp only
    rw [halloc]
    by_cases hut : u = t
    · subst hut
      exact ⟨_, Function.update_self .., fun _ => Finset.mem_insert_self _ _⟩
    · obtain ⟨b, hb, hmem⟩ := h.block u (Finset.mem_of_mem_insert_of_ne hu hut)
      exact ⟨b, by rw [Function.update_of_ne hut, hb],
        fun hlu => Finset.mem_insert_of_mem (hmem hlu)⟩
  · dsimp only at hu hv hlu hlv
    by_cases hut : u = t
    · by_cases hvt : v = t
      · rw [hut, hvt]
      · rw [hut, Function.update_self] at hu
        rw [Function.update_of_ne hvt, ← hu] at hv
        exact absurd (hformer v hvt hv).1 hlv
    · rw [Function.update_of_ne hut] at hu
      by_cases hvt : v = t
      · rw [hvt, Function.update_self] at hv
        rw [← hv] at hu
        exact absurd (hformer u hut hu).1 hlu
      · rw [Function.update_of_ne hvt] at hv
        exact h.owner u v b hu hv hlu hlv
  · dsimp only at hu hv
    by_cases hut : u = t
    · have hvt : v ≠ t := fun hvt => hne (hut.trans hvt.symm)
      rw [hut, Function.update_self] at hu
      rw [Function.update_of_ne hvt, ← hu] at hv
      rw [hut]
      exact (hformer v hvt hv).2.symm
    · rw [Function.update_of_ne hut] at hu
      by_cases hvt : v = t
      · rw [hvt, Function.update_self] at hv
        rw [← hv] at hu
        rw [hvt]
        exact (hformer u hut hu).2
      · rw [Function.update_of_ne hvt] at hv
        exact h.disjoint u v b hu hv hne

theorem Binding.visit {i : Nat} {seen rest : List Nat} {t : Nat} {m : Reuser S} (heap : Heap)
    (h : Binding visitList i i seen (t :: rest) m) (huse : Uses visitList t i) :
    Binding visitList i i (seen ++ [t]) rest (m.visit heap t) := by
  rw [Reuser.visit]
  cases ht : checknoused (m.tensors.name t) with
  | true => exact h.skip ht
  | false =>
      simp only [Bool.false_eq_true, if_false]
      by_cases hbound : t ∈ m.binded
      · rw [if_pos hbound]
        exact h.countDown huse ht hbound
      · rw [if_neg hbound]
        exact (h.bind heap ht hbound).countDown huse ht (Finset.mem_insert_self t _)

/-- The visits of one operator. -/
theorem Binding.visits {i : Nat} {seen op later : List Nat} {m : Reuser S} (heap : Heap)
    (h : Binding visitList i i seen (op ++ later) m) (huse : ∀ t ∈ op, Uses visitList t i) :
    Binding visitList i i (seen ++ op) later (op.foldl (Reuser.visit heap) m) := by
  induction op generalizing seen m with
  | nil => rwa [List.append_nil]
  | cons t rest ih =>
      obtain ⟨ht, hrest⟩ := List.forall_mem_cons.mp huse
      have hstep := ih (h.visit heap ht) hrest
      rwa [List.append_assoc, List.singleton_append] at hstep

/-- Behind an operator, a tensor without visits ahead gives its block back. -/
theorem Binding.retire {i : Nat} {seen later : List Nat} {t : Nat} {m : Reuser S}
    (h : Binding visitList i (i + 1) seen later m)
    (hseen : ∀ u, Uses visitList u i → u ∈ seen)
    (hlater : ∀ u j, Uses visitList u j → i < j → u ∈ later) (ht : t ∈ visitList.flatten) :
    Binding visitList i (i + 1) seen later (m.retire t) := by
  rw [Reuser.retire]
  split
  case isFalse => exact h
  case isTrue hzero =>
      have hreused : checknoused (m.tensors.name t) = false := by
        by_contra hkeep
        have hkept := h.kept t (Bool.not_eq_false _ ▸ hkeep)
        have hpos := List.count_pos_iff.mpr ht
        omega
      have hlive : m.vis t ≠ -1 := by omega
      have hcount : later.count t = 0 := by
        have hvis := (h.count t hreused).resolve_left hlive
        omega
      have hover : ∀ j, Uses visitList t j → j < i + 1 := by
        intro j hj
        by_contra hlt
        exact List.count_eq_zero.mp hcount (hlater t j hj (by omega))
      have hbound : t ∈ m.binded := by
        by_contra hnot
        obtain ⟨-, hnew, hbefore⟩ := h.unbound t hreused hnot
        obtain ⟨op, hop, hmem⟩ := List.mem_flatten.mp ht
        obtain ⟨j, hj⟩ := List.mem_iff_getElem?.mp hop
        have huse : Uses visitList t j := ⟨op, hj, hmem⟩
        rcases Nat.lt_or_eq_of_le (Nat.lt_succ_iff.mp (hover j huse)) with hlt | rfl
        · exact hbefore j hlt huse
        · exact hnew (hseen t huse)
      obtain ⟨b, hb, hmem⟩ := h.block t hbound
      obtain ⟨hsound, halloc⟩ := h.sound.release (hmem hlive)
      have hlive' : ∀ u, Function.update m.vis t (-1) u ≠ -1 → u ≠ t ∧ m.vis u ≠ -1 := by
        intro u hu
        have hut : u ≠ t := by
          rintro rfl
          exact hu (Function.update_self ..)
        rw [Function.update_of_ne hut] at hu
        exact ⟨hut, hu⟩
      rw [hb]
      refine ⟨hsound, fun u hu => ?_, fun u hu => ?_, fun u hu => ?_, fun u hu hub => ?_,
        h.binded, fun u hu => ?_, fun u v c hu hv hlu hlv => ?_, h.disjoint⟩
      · by_cases hut : u = t
        · exact Or.inl (hut ▸ Function.update_self ..)
        · dsimp only
          rw [Function.update_of_ne hut]
          exact h.count u hu
      · have hut : u ≠ t := by
          rintro rfl
          rw [hreused] at hu
          cases hu
        dsimp only
        rw [Function.update_of_ne hut]
        exact h.kept u hu
      · by_cases hut : u = t
        · exact hut ▸ hover
        · dsimp only at hu
          rw [Function.update_of_ne hut] at hu
          exact h.retired u hu
      · have hut : u ≠ t := fun hut => hub (hut ▸ hbound)
        dsimp only
        rw [Function.update_of_ne hut]
        exact h.unbound u hu hub
      · obtain ⟨c, hc, hcmem⟩ := h.block u hu
        refine ⟨c, hc, fun hlu => ?_⟩
        obtain ⟨hut, hluOld⟩ := hlive' u hlu
        rw [halloc]
        refine Finset.mem_erase.mpr ⟨?_, hcmem hluOld⟩
        rintro rfl
        exact hut (h.owner u t c hc hb hluOld hlive)
      · exact h.owner u v c hu hv (hlive' u hlu).2 (hlive' v hlv).2

theorem Binding.retireAll {i : Nat} {seen later order : List Nat} {m : Reuser S}
    (h : Binding visitList i (i + 1) seen later m)
    (hseen : ∀ u, Uses visitList u i → u ∈ seen)
    (hlater : ∀ u j, Uses visitList u j → i < j → u ∈ later)
    (horder : ∀ t ∈ order, t ∈ visitList.flatten) :
    Binding visitList i (i + 1) seen later (order.foldl Reuser.retire m) := by
  induction order generalizing m with
  | nil => exact h
  | cons t rest ih =>
      obtain ⟨ht, hrest⟩ := List.forall_mem_cons.mp horder
      exact ih (h.retire hseen hlater ht) hrest

theorem Binding.bindOperator {i : Nat} {op later order : List Nat} {m : Reuser S} (heap : Heap)
    (h : Binding visitList i i [] (op ++ later) m) (hop : visitList[i]? = some op)
    (hlater : ∀ u j, Uses visitList u j → i < j → u ∈ later)
    (horder : ∀ t ∈ order, t ∈ visitList.flatten) :
    Binding visitList (i + 1) (i + 1) [] later (m.bindOperator heap order op) := by
  have huses : ∀ u, Uses visitList u i ↔ u ∈ op := by
    intro u
    constructor
    · rintro ⟨op', hop', hmem⟩
      rw [hop] at hop'
      exact Option.some.inj hop' ▸ hmem
    · exact fun hmem => ⟨op, hop, hmem⟩
  have hvisits := h.visits heap fun t ht => (huses t).mpr ht
  rw [List.nil_append] at hvisits
  have hwider : Binding visitList i (i + 1) op later (op.foldl (Reuser.visit heap) m) :=
    { hvisits with retired := fun t ht j hj => Nat.lt_succ_of_lt (hvisits.retired t ht j hj) }
  have hretired := hwider.retireAll (fun u hu => (huses u).mp hu) hlater horder
  refine { hretired with unbound := fun t ht hbound => ?_ }
  obtain ⟨hlive, hnew, hbefore⟩ := hretired.unbound t ht hbound
  refine ⟨hlive, List.not_mem_nil, fun j hj huse => ?_⟩
  rcases Nat.lt_or_eq_of_le (Nat.lt_succ_iff.mp hj) with hlt | rfl
  · exact hbefore j hlt huse
  · exact hnew ((huses t).mp huse)

/-- The operators from position `i` on. -/
theorem Binding.bindOperators {i : Nat} {later : List (List Nat)} {order : List Nat}
    {m : Reuser S} (heap : Heap) (h : Binding visitList i i [] later.flatten m)
    (hdrop : visitList.drop i = later) (horder : ∀ t ∈ order, t ∈ visitList.flatten) :
    Binding visitList visitList.length visitList.length [] []
      (later.foldl (Reuser.bindOperator heap order) m) := by
  induction later generalizing i m with
  | nil =>
      have hle := List.drop_eq_nil_iff.mp hdrop
      refine { h with
        retired := fun t ht j hj => ?_
        unbound := fun t ht hbound => ?_ }
      · obtain ⟨op, hop, -⟩ := hj
        exact (List.getElem?_eq_some_iff.mp hop).choose
      · obtain ⟨hlive, hnew, hbefore⟩ := h.unbound t ht hbound
        exact ⟨hlive, hnew, fun j hj => hbefore j (by omega)⟩
  | cons op rest ih =>
      have hop : visitList[i]? = some op := by
        rw [← List.head?_drop, hdrop]
        rfl
      have hrest : visitList.drop (i + 1) = rest := by
        rw [← List.tail_drop, hdrop]
        rfl
      refine ih (h.bindOperator heap hop ?_ horder) hrest
      rintro u j ⟨op', hop', hmem⟩ hij
      refine List.mem_flatten.mpr ⟨op', ?_, hmem⟩
      rw [← hrest]
      refine List.mem_iff_getElem?.mpr ⟨j - (i + 1), ?_⟩
      rw [List.getElem?_drop, ← hop']
      congr 1
      omega

/-- The bindings the algorithm makes, for tensors that have no block yet. -/
theorem binding_bindingWithAlgo0 {heap : Heap} {order : List Nat} {tensors : Tensors}
    {blocks : Blocks S} (hblocks : blocks.Sound) (hfresh : ∀ t, tensors.block t = none)
    (horder : order.Perm visitList.flatten.dedup) :
    Binding visitList visitList.length visitList.length [] []
      (bindingWithAlgo0 heap order visitList tensors blocks) := by
  have hstart : Binding visitList 0 0 [] visitList.flatten
      ⟨blocks, tensors, ∅, fun t => visitList.flatten.count t⟩ := by
    refine ⟨hblocks, fun t _ => Or.inr rfl, fun t _ => rfl, fun t ht => ?_, fun t _ _ => ?_,
      fun t b hb => ?_, fun t ht => ?_, fun t u b hb => ?_, fun t u b hb => ?_⟩
    · dsimp only at ht
      omega
    · exact ⟨by dsimp only; omega, List.not_mem_nil, fun j hj => absurd hj (Nat.not_lt_zero j)⟩
    · rw [hfresh t] at hb
      cases hb
    · exact absurd ht (Finset.notMem_empty t)
    · rw [hfresh t] at hb
      cases hb
    · rw [hfresh t] at hb
      cases hb
  exact hstart.bindOperators heap rfl fun t ht => List.mem_dedup.mp (horder.subset ht)

end Invariant

section Names

variable {S : OrderedSet Nat}

theorem name_foldl {α : Type} {f : Reuser S → α → Reuser S}
    (hf : ∀ m a, (f m a).tensors.name = m.tensors.name) (l : List α) (m : Reuser S) :
    (l.foldl f m).tensors.name = m.tensors.name := by
  induction l generalizing m with
  | nil => rfl
  | cons a rest ih => exact (ih (f m a)).trans (hf m a)

theorem name_visit (heap : Heap) (m : Reuser S) (t : Nat) :
    (m.visit heap t).tensors.name = m.tensors.name := by
  rw [Reuser.visit]
  split
  · rfl
  · dsimp only
    split <;> rfl

theorem name_retire (m : Reuser S) (t : Nat) : (m.retire t).tensors.name = m.tensors.name := by
  rw [Reuser.retire]
  split <;> rfl

theorem name_bindingWithAlgo0 (heap : Heap) (order : List Nat) (visitList : List (List Nat))
    (tensors : Tensors) (blocks : Blocks S) :
    (bindingWithAlgo0 heap order visitList tensors blocks).tensors.name = tensors.name :=
  name_foldl (fun m op => (name_foldl name_retire order _).trans
    (name_foldl (name_visit heap) op m)) visitList _

end Names

section Sizes

variable {S : OrderedSet Nat} {m : Reuser S}

theorem block_setShape (t n : Nat) : (m.setShape t n).tensors.block = m.tensors.block := by
  rw [Reuser.setShape]
  cases m.tensors.block t <;> rfl

def Reuser.setShapes (m : Reuser S) (calls : List (Nat × Nat)) : Reuser S :=
  calls.foldl (fun m c => m.setShape c.1 c.2) m

theorem block_setShapes (calls : List (Nat × Nat)) :
    (m.setShapes calls).tensors.block = m.tensors.block := by
  induction calls generalizing m with
  | nil => rfl
  | cons c rest ih => exact ih.trans (block_setShape c.1 c.2)

/-- What is true of a tensor that has just been set, and stays so. -/
def Roomy (set : Finset Nat) (m : Reuser S) : Prop :=
  ∀ t ∈ set, ∀ b, m.tensors.block t = some b → m.tensors.nbytes t ≤ m.blocks.size b

theorem Roomy.setShape {set : Finset Nat} (h : Roomy set m) (t n : Nat) :
    Roomy (insert t set) (m.setShape t n) := by
  intro u hu b hb
  rw [block_setShape] at hb
  rw [Reuser.setShape]
  by_cases hut : u = t
  · subst hut
    rw [hb]
    dsimp only
    rw [Function.update_self]
    exact Blocks.le_size_resize
  · have hle := h u (Finset.mem_of_mem_insert_of_ne hu hut) b hb
    cases m.tensors.block t with
    | none =>
        dsimp only
        rwa [Function.update_of_ne hut]
    | some d =>
        dsimp only
        rw [Function.update_of_ne hut]
        exact le_trans hle (Blocks.size_le_resize b)

theorem Roomy.setShapes {set : Finset Nat} (h : Roomy set m) (calls : List (Nat × Nat)) :
    Roomy (set ∪ (calls.map Prod.fst).toFinset) (m.setShapes calls) := by
  induction calls generalizing m set with
  | nil =>
      rw [List.map_nil, List.toFinset_nil, Finset.union_empty]
      exact h
  | cons c rest ih =>
      have hrest := ih (h.setShape c.1 c.2)
      rw [Finset.insert_union, ← Finset.union_insert] at hrest
      rw [List.map_cons, List.toFinset_cons]
      exact hrest

end Sizes

/-- Every tensor that may be reused is bound, tensors that share a block have
disjoint live ranges, and through any `SetShape` calls a block is large enough
for each of its tensors whose shape has been set. -/
theorem memoryReuse_safe {S : OrderedSet Nat} {heap : Heap} {order : List Nat}
    {visitList : List (List Nat)} {tensors : Tensors} {blocks : Blocks S} (hblocks : blocks.Sound)
    (hfresh : ∀ t, tensors.block t = none) (horder : order.Perm visitList.flatten.dedup)
    (calls : List (Nat × Nat)) {m : Reuser S}
    (hm : m = (bindingWithAlgo0 heap order visitList tensors blocks).setShapes calls) :
    (∀ t ∈ visitList.flatten, checknoused (tensors.name t) = false →
        ∃ b, m.tensors.block t = some b) ∧
      (∀ t u b, m.tensors.block t = some b → m.tensors.block u = some b → t ≠ u →
        DisjointRanges visitList t u) ∧
      ∀ t ∈ calls.map Prod.fst, ∀ b, m.tensors.block t = some b →
        m.tensors.nbytes t ≤ m.blocks.size b := by
  subst hm
  have hbinding := @binding_bindingWithAlgo0 S visitList heap order tensors blocks hblocks hfresh
    horder
  rw [block_setShapes]
  refine ⟨fun t ht hreused => ?_, hbinding.disjoint, fun t ht b hb => ?_⟩
  · by_cases hbound : t ∈ (bindingWithAlgo0 heap order visitList tensors blocks).binded
    · obtain ⟨b, hb, -⟩ := hbinding.block t hbound
      exact ⟨b, hb⟩
    · rw [← name_bindingWithAlgo0 heap order visitList tensors blocks] at hreused
      obtain ⟨-, -, hunused⟩ := hbinding.unbound t hreused hbound
      obtain ⟨op, hop, hmem⟩ := List.mem_flatten.mp ht
      obtain ⟨j, hj⟩ := List.mem_iff_getElem?.mp hop
      exact absurd ⟨op, hj, hmem⟩ (hunused j (List.getElem?_eq_some_iff.mp hj).choose)
  · have hnone : Roomy ∅ (bindingWithAlgo0 heap order visitList tensors blocks) :=
      fun t ht => absurd ht (Finset.notMem_empty t)
    rw [← block_setShapes calls] at hb
    refine hnone.setShapes calls t ?_ b hb
    rw [Finset.empty_union, List.mem_toFinset]
    exact ht

/-- A device context that has allocated nothing. -/
def noBlocks : Blocks (listSet Nat) := ⟨fun _ => 0, [], ∅, ∅⟩

theorem sound_noBlocks : noBlocks.Sound :=
  ⟨List.Pairwise.nil, fun _ hb => (by cases hb), fun _ hb => (by cases hb),
    fun b hb => absurd hb (Finset.notMem_empty b)⟩

/-- Tensors of four bytes each. -/
def fourByteTensors : Tensors := ⟨fun t => "hidden" ++ String.ofList (List.replicate t 'x'),
  fun _ => 4, fun _ => none⟩

/-- Three operators in a row, and two shapes set afterwards. -/
def chainReuse : Reuser (listSet Nat) :=
  (bindingWithAlgo0 bumpHeap [3, 2, 1, 0] [[0, 1], [1, 2], [2, 3]] fourByteTensors
    noBlocks).setShapes [(0, 16), (2, 4)]

theorem memoryReuse_safe_chain :
    (∀ t ∈ [[0, 1], [1, 2], [2, 3]].flatten, checknoused (fourByteTensors.name t) = false →
        ∃ b, chainReuse.tensors.block t = some b) ∧
      (∀ t u b, chainReuse.tensors.block t = some b → chainReuse.tensors.block u = some b →
        t ≠ u → DisjointRanges [[0, 1], [1, 2], [2, 3]] t u) ∧
      ∀ t ∈ [(0, 16), (2, 4)].map Prod.fst, ∀ b, chainReuse.tensors.block t = some b →
        chainReuse.tensors.nbytes t ≤ chainReuse.blocks.size b :=
  memoryReuse_safe sound_noBlocks (fun _ => rfl) (by decide) [(0, 16), (2, 4)] rfl

/-- The first tensor's block serves the third one. -/
example : chainReuse.tensors.block 0 = chainReuse.tensors.block 2 := by decide +kernel

/-- A tensor that has its shape before it is bound gets a block without a
size. -/
theorem bound_before_sized :
    ∃ b, (bindingWithAlgo0 bumpHeap [0] [[0]] fourByteTensors noBlocks).tensors.block 0 = some b ∧
      (bindingWithAlgo0 bumpHeap [0] [[0]] fourByteTensors noBlocks).blocks.size b <
        (bindingWithAlgo0 bumpHeap [0] [[0]] fourByteTensors noBlocks).tensors.nbytes 0 :=
  ⟨_, rfl, by decide +kernel⟩

end DashInfer.Memory
