import DashInfer.Lib.Text
import DashInfer.Weight.Entries
import DashInfer.Weight.NegativeGroup
import DashInfer.Weight.Splitter
import Mathlib

/-!
The split modes of the factors of an adapter, from the split map of the base
model. A factor's name is the base weight's with `.lora_A` or `.lora_B` in front
of the ending, so the entries of two base weights never meet.
-/

namespace DashInfer.Lora

open Lib Weight

abbrev WeightName := List UInt8

/-- Keys of a Python `dict`, in the order they were first set. -/
abbrev SplitMap := List (WeightName × SplitMode)

inductive Factor
  | a | b
deriving DecidableEq, Repr

def Factor.tag : Factor → WeightName
  | .a => text ".lora_A"
  | .b => text ".lora_B"

/-- Where `\.(weight|bias)$` matches; `$` also stands in front of a final
newline. -/
def endings : List WeightName := [text ".weight", text ".bias", text ".weight\n", text ".bias\n"]

/-- `re.sub(r'(?=\.(weight|bias)$)', tag, k)`. -/
def Factor.key (f : Factor) (k : WeightName) : WeightName :=
  match endings.find? (·.isSuffixOf k) with
  | some ending => k.take (k.length - ending.length) ++ f.tag ++ ending
  | none => k

/-- The mode of a factor. -/
def Factor.splitMode : Factor → SplitMode → SplitMode
  | .a, v => if v ∈ [.vSplit, .qkvSplit, .groupVSplit] then .noSplit else v
  | .b, v => if v = .hSplit then .noSplit else v

/-- One entry of the base model's map. -/
def setFactors (m : WeightName → Option SplitMode) (e : WeightName × SplitMode) :
    WeightName → Option SplitMode :=
  let m := Function.update m (Factor.a.key e.1) (some (Factor.a.splitMode e.2))
  Function.update m (Factor.b.key e.1) (some (Factor.b.splitMode e.2))

/-- `_make_lora_split_map`, for one adapter. -/
def makeLoraSplitMap (splitMap : SplitMap) : WeightName → Option SplitMode :=
  splitMap.foldl setFactors fun _ => none

/-- The mode a weight is written with. -/
def writtenMode (m : WeightName → Option SplitMode) (k : WeightName) : SplitMode :=
  (m k).getD .noSplit

theorem length_tag (f : Factor) : f.tag.length = 7 := by
  cases f with
  | a => simp [Factor.tag, text]
  | b => simp [Factor.tag, text]

theorem tag_injective {f g : Factor} (h : f.tag = g.tag) : f = g := by
  cases f with
  | a =>
      cases g with
      | a => rfl
      | b => simp [Factor.tag, text] at h
  | b =>
      cases g with
      | a => simp [Factor.tag, text] at h
      | b => rfl

/-- Only one of the endings ends a name that ends in `.weight`. -/
theorem ending_eq {k e : WeightName} (he : e ∈ endings) (hk : e <:+ k)
    (hweight : text ".weight" <:+ k) : e = text ".weight" := by
  have hlast : e.getLast? = (text ".weight").getLast? := by
    obtain ⟨s, rfl⟩ := hk
    obtain ⟨t, ht⟩ := hweight
    have hends := congrArg List.getLast? ht
    have hne : e ≠ [] := by
      rintro rfl
      simp [endings, text] at he
    have hweightNe : text ".weight" ≠ [] := by simp [text]
    rw [List.getLast?_append_of_ne_nil _ hne, List.getLast?_append_of_ne_nil _ hweightNe] at hends
    exact hends.symm
  simp only [endings, List.mem_cons, List.not_mem_nil, or_false] at he
  rcases he with rfl | rfl | rfl | rfl
  · rfl
  · simp [text] at hlast
  · simp [text] at hlast
  · simp [text] at hlast

/-- The name of a factor of a weight matrix. -/
theorem key_weight (f : Factor) (stem : WeightName) :
    f.key (stem ++ text ".weight") = stem ++ f.tag ++ text ".weight" := by
  have hsuffix : text ".weight" <:+ stem ++ text ".weight" := List.suffix_append _ _
  have hfind : endings.find? (·.isSuffixOf (stem ++ text ".weight")) = some (text ".weight") := by
    rw [endings, List.find?_cons_of_pos]
    exact List.isSuffixOf_iff_suffix.mpr hsuffix
  rw [Factor.key, hfind]
  dsimp only
  rw [List.length_append, Nat.add_sub_cancel, List.take_left]

/-- No other weight has a factor of this name. -/
theorem eq_of_key_eq {f g : Factor} {k stem : WeightName}
    (h : g.key k = stem ++ f.tag ++ text ".weight") : g = f ∧ k = stem ++ text ".weight" := by
  have hweight : text ".weight" <:+ g.key k := ⟨_, h.symm⟩
  rw [Factor.key] at h hweight
  cases hfind : endings.find? (·.isSuffixOf k) with
  | none =>
      -- the name would have been changed
      rw [hfind] at hweight
      have hno := List.find?_eq_none.mp hfind (text ".weight") List.mem_cons_self
      exact absurd (List.isSuffixOf_iff_suffix.mpr hweight) hno
  | some e =>
      rw [hfind] at h hweight
      dsimp only at h hweight
      have hfound := List.find?_some hfind
      obtain ⟨s, hs⟩ := List.isSuffixOf_iff_suffix.mp hfound
      obtain rfl := ending_eq (List.mem_of_find?_eq_some hfind) (List.suffix_append _ _) hweight
      have hstem := List.append_cancel_right h
      obtain ⟨hk, htag⟩ := List.append_inj' hstem ((length_tag g).trans (length_tag f).symm)
      refine ⟨tag_injective htag, ?_⟩
      rw [← hs, List.length_append, Nat.add_sub_cancel, List.take_left] at hk
      rw [← hs, hk]

/-- Entries of other weights leave the factors of a weight alone. -/
theorem foldl_setFactors_of_ne {stem : WeightName} {entries : SplitMap}
    (hne : ∀ e ∈ entries, e.1 ≠ stem ++ text ".weight") (m : WeightName → Option SplitMode)
    (f : Factor) :
    entries.foldl setFactors m (stem ++ f.tag ++ text ".weight") =
      m (stem ++ f.tag ++ text ".weight") := by
  induction entries generalizing m with
  | nil => rfl
  | cons e rest ih =>
      have hkey : ∀ g : Factor, stem ++ f.tag ++ text ".weight" ≠ g.key e.1 :=
        fun g heq => hne e List.mem_cons_self (eq_of_key_eq heq.symm).2
      rw [List.foldl_cons, ih fun d hd => hne d (List.mem_cons_of_mem _ hd), setFactors,
        Function.update_of_ne (hkey .b), Function.update_of_ne (hkey .a)]

theorem setFactors_self (m : WeightName → Option SplitMode) (stem : WeightName) (v : SplitMode)
    (f : Factor) :
    setFactors m (stem ++ text ".weight", v) (stem ++ f.tag ++ text ".weight") =
      some (f.splitMode v) := by
  rw [setFactors, ← key_weight]
  cases f with
  | a =>
      have hne : Factor.a.key (stem ++ text ".weight") ≠ Factor.b.key (stem ++ text ".weight") := by
        rw [key_weight .b]
        exact fun heq => Factor.noConfusion (eq_of_key_eq heq).1
      rw [Function.update_of_ne hne, Function.update_self]
  | b => rw [Function.update_self]

/-- The factors of a weight matrix are written with the modes derived from the
matrix's own. -/
theorem makeLoraSplitMap_factor {splitMap : SplitMap} (hkeys : (splitMap.map Prod.fst).Nodup)
    {stem : WeightName} {v : SplitMode} (hmem : (stem ++ text ".weight", v) ∈ splitMap)
    (f : Factor) :
    makeLoraSplitMap splitMap (f.key (stem ++ text ".weight")) = some (f.splitMode v) := by
  obtain ⟨before, after, rfl⟩ := List.append_of_mem hmem
  rw [List.map_append, List.map_cons, List.nodup_append, List.nodup_cons] at hkeys
  obtain ⟨-, ⟨hafter, -⟩, -⟩ := hkeys
  have hne : ∀ e ∈ after, e.1 ≠ stem ++ text ".weight" :=
    fun e he heq => hafter (List.mem_map.mpr ⟨e, he, heq⟩)
  rw [makeLoraSplitMap, key_weight, List.foldl_append, List.foldl_cons,
    foldl_setFactors_of_ne hne, setFactors_self]

theorem writtenMode_factor {splitMap : SplitMap} (hkeys : (splitMap.map Prod.fst).Nodup)
    {stem : WeightName} {v : SplitMode} (hmem : (stem ++ text ".weight", v) ∈ splitMap)
    (f : Factor) :
    writtenMode (makeLoraSplitMap splitMap) (f.key (stem ++ text ".weight")) = f.splitMode v := by
  rw [writtenMode, makeLoraSplitMap_factor hkeys hmem]
  rfl

end DashInfer.Lora

/-!
The factors of an adapter on several ranks. Every rank multiplies its part of
the input by its parts of both factors, and the outputs combine the way those
of the base weight do: side by side for a mode that divides columns, by a sum
for HSPLIT. That is the whole product as long as no rank lacks columns of the
first factor.
-/

namespace DashInfer.Lora

open Lib Weight
open scoped BigOperators

variable {R : Type}

/-- A base weight and the factors of an adapter for it, by their headers. -/
structure Adapter where
  inputs : Nat
  rank : Nat
  outputs : Nat
  base : TensorInfo
  a : TensorInfo
  b : TensorInfo
  base_typed : WellTyped base (.matrix inputs outputs)
  a_typed : WellTyped a (.matrix inputs rank)
  b_typed : WellTyped b (.matrix rank outputs)
  b_groups : b.groupList = base.groupList

/-- The rows of the first factor a rank holds. -/
def heldInputs (mode : SplitMode) (ranks inputs : Nat) : Nat :=
  if mode = .hSplit then inputs / ranks else inputs

/-- The column groups of the base weight. -/
def Adapter.strips (p : Adapter) (mode : SplitMode) (ranks : Nat) : List Strip :=
  mode.strips ranks p.base (.matrix p.inputs p.outputs)

/-- The columns of the output a rank computes. -/
def Adapter.heldOutputs (p : Adapter) (mode : SplitMode) (ranks : Nat) : Nat :=
  if mode = .hSplit then p.outputs else shardPitch (p.strips mode ranks)

/-- How the outputs of the ranks make up the whole one; `layer h v r` is what
rank `r` does with an input of `h` columns to get an output of `v` columns. -/
def Combines [Semiring R] (mode : SplitMode) (ranks : Nat) (strips : List Strip) {n m w : Nat}
    (x : Matrix (Fin n) (Fin m) R)
    (layer : (h v : Nat) → Nat → Matrix (Fin n) (Fin h) R → Matrix (Fin n) (Fin v) R)
    (y : Matrix (Fin n) (Fin w) R) : Prop :=
  match mode with
  | .hSplit =>
      ∑ r ∈ Finset.range ranks,
        layer (m / ranks) w r (columnBlock x (r * (m / ranks)) (m / ranks)) = y
  | _ => Concatenates ranks strips (fun r => layer m (shardPitch strips) r x) y

/-- Every rank gets parts that multiply, and the products combine to the whole
one. -/
def SplitsLikeWhole [Semiring R] (value : DataType → List UInt8 → R) (p : Adapter)
    (mode : SplitMode) (ranks : Nat) (sa sb : WeightSplitter) (A B : AsTensor)
    (garbage : Factor → Nat → Nat → UInt8) {n : Nat} (x : Matrix (Fin n) (Fin p.inputs) R) : Prop :=
  ∃ a b : Nat → AsTensor,
    (∀ r < ranks, sa.shard ⟨r, ranks⟩ p.a A (garbage .a r) = .ok (a r) ∧
      (a r).shape = (Plane.matrix (heldInputs mode ranks p.inputs) p.rank).shape) ∧
    (∀ r < ranks, sb.shard ⟨r, ranks⟩ p.b B (garbage .b r) = .ok (b r) ∧
      (b r).shape = (Plane.matrix p.rank (p.heldOutputs mode ranks)).shape) ∧
    Combines mode ranks (p.strips mode ranks) x
      (fun h v r xr => xr * (a r).matrix value h p.rank * (b r).matrix value p.rank v)
      (x * A.matrix value p.inputs p.rank * B.matrix value p.rank p.outputs)

/-- The columns of the first factor that its mode divides among the ranks. -/
def dividedColumns (mode : SplitMode) (info : TensorInfo) (rank : Nat) : Nat :=
  match mode with
  | .kvSplit => rank
  | .mqaVSplit => (info.groupList.getD 0 0).toNat
  | _ => 0

/-- No group has a negative width, and either there is one rank or no columns
of the first factor are divided. -/
structure Aligned (p : Adapter) (mode : SplitMode) (ranks : Nat) : Prop where
  a_groups : (Factor.a.splitMode mode).ProperGroups p.a
  b_groups : (Factor.b.splitMode mode).ProperGroups p.b
  undivided : ranks = 1 ∨ dividedColumns mode p.a p.rank = 0

/-- The strips of a factor's mode; NOSPLIT shares all columns. -/
def heldStrips (mode : SplitMode) (ranks : Nat) (info : TensorInfo) (p : Plane) : List Strip :=
  if mode = .noSplit then [⟨p.width, true⟩] else mode.strips ranks info p

section Factors

variable {place : Placement} {mode : SplitMode} {splitter : WeightSplitter} {ranks : Nat}
  {info : TensorInfo} {q : Plane} {whole : AsTensor} (garbage : Nat → Nat → UInt8)

/-- NOSPLIT gives every rank the whole tensor. -/
theorem holds_noSplit (hwhole : IsWhole info q whole) :
    Holds ⟨NoSplit.isSplittable, NoSplit.setShape, NoSplit.copyWeight⟩ ranks info q
      [⟨q.width, true⟩] whole garbage fun _ => whole.data := by
  obtain ⟨hshape, hdtype, hdata⟩ := hwhole
  have hpitch : shardPitch [⟨q.width, true⟩] = q.width := by simp
  constructor
  · intro r _
    have hwhole : whole = ⟨q.shape, whole.dtype, whole.data⟩ := by rw [← hshape]
    rw [hpitch]
    exact congrArg Except.ok hwhole
  · intro r _
    rw [hpitch, hdtype, hdata]
  · intro r _ c hc
    simp only [List.map_cons, List.map_nil, stripRegions, List.append_nil, Strip.regions] at hc
    obtain ⟨i, -, rfl⟩ := List.mem_map.mp hc
    simp [scale, Strip.start, Strip.whole]

/-- The parts of a factor whose mode does not divide rows. -/
theorem exists_holds (hmode : mode = .noSplit ∨ mode.Planar ∧ mode ≠ .hSplit)
    (hget : getSplitterByMode place mode = .ok splitter) (hn : 0 < ranks)
    (ht : WellTyped info q) (hacc : splitter.isSplittable ⟨0, ranks⟩ info = .ok true)
    (hproper : mode.ProperGroups info) (hwhole : IsWhole info q whole) :
    wholePitch ranks (heldStrips mode ranks info q) = q.width ∧
      ∃ parts, Holds splitter ranks info q (heldStrips mode ranks info q) whole garbage parts := by
  rcases hmode with rfl | ⟨hplanar, hne⟩
  · obtain rfl := Except.ok.inj hget
    rw [heldStrips, if_pos rfl]
    exact ⟨by simp [Strip.whole], _, holds_noSplit garbage hwhole⟩
  · have hdivides := divides_of_properGroups hplanar hne hget hn ht.shape ht.sized hacc hproper
    have hno : mode ≠ .noSplit := by
      rintro rfl
      exact hplanar
    obtain ⟨hshape, hdtype, hdata⟩ := hwhole
    rw [heldStrips, if_neg hno]
    exact ⟨hdivides.pitch, hdivides.holds hn ht.sized hshape hdtype hdata garbage⟩

end Factors

section Columns

variable {place : Placement} {mode : SplitMode} {ranks : Nat} {p : Adapter}
  {sa sb : WeightSplitter} {A B : AsTensor} {garbage : Factor → Nat → Nat → UInt8}

/-- The factor modes of a mode that divides columns. -/
theorem factor_modes (hmode : mode.Planar) (hne : mode ≠ .hSplit) :
    (Factor.a.splitMode mode = .noSplit ∨
      (Factor.a.splitMode mode).Planar ∧ Factor.a.splitMode mode ≠ .hSplit) ∧
      Factor.b.splitMode mode = mode := by
  cases mode <;> simp_all [Factor.splitMode, SplitMode.Planar]

/-- The second factor has the column groups of the base weight. -/
theorem Adapter.strips_b (p : Adapter) (hmode : mode.Planar) :
    heldStrips mode ranks p.b (.matrix p.rank p.outputs) = p.strips mode ranks := by
  cases mode with
  | noSplit => exact absurd hmode id
  | groupVSplit => simp [heldStrips, Adapter.strips, SplitMode.strips, p.b_groups]
  | mqaVSplit => simp [heldStrips, Adapter.strips, SplitMode.strips, p.b_groups]
  | _ => rfl

theorem two_div_eq_iff {n k : Nat} (hdvd : 2 * n ∣ k) (hn : 0 < n) :
    2 * (k / (2 * n)) = k ↔ n = 1 ∨ k = 0 := by
  obtain ⟨t, rfl⟩ := hdvd
  rw [Nat.mul_div_cancel_left t (Nat.mul_pos (by decide) hn)]
  constructor
  · intro h
    rcases Nat.eq_zero_or_pos t with rfl | ht
    · exact Or.inr (Nat.mul_zero _)
    · have hcancel : 1 * (2 * t) = n * (2 * t) := by
        rw [Nat.one_mul, ← Nat.mul_assoc, Nat.mul_comm n 2]
        exact h
      exact Or.inl (Nat.eq_of_mul_eq_mul_right (by omega) hcancel).symm
  · rintro (rfl | h)
    · rfl
    · rw [h]
      obtain h | h := Nat.mul_eq_zero.mp h
      · omega
      · omega

theorem div_eq_self_iff {n q : Nat} (hdvd : n ∣ q) (hn : 0 < n) : q / n = q ↔ n = 1 ∨ q = 0 := by
  obtain ⟨t, rfl⟩ := hdvd
  rw [Nat.mul_div_cancel_left t hn]
  constructor
  · intro h
    rcases Nat.eq_zero_or_pos t with rfl | ht
    · exact Or.inr (Nat.mul_zero _)
    · have hcancel : n * t = 1 * t := by omega
      exact Or.inl (Nat.eq_of_mul_eq_mul_right ht hcancel)
  · rintro (rfl | h)
    · exact (Nat.one_mul t).symm
    · rcases Nat.mul_eq_zero.mp h with h | h
      · omega
      · rw [h, Nat.mul_zero]

/-- The parts of the first factor are as wide as the factor exactly when there
is one rank or nothing is divided. -/
theorem shardPitch_a_iff (hmode : mode.Planar) (hn : 0 < ranks)
    (hget : getSplitterByMode place (Factor.a.splitMode mode) = .ok sa)
    (hacc : sa.isSplittable ⟨0, ranks⟩ p.a = .ok true)
    (hproper : (Factor.a.splitMode mode).ProperGroups p.a) (hne : mode ≠ .hSplit) :
    shardPitch (heldStrips (Factor.a.splitMode mode) ranks p.a (.matrix p.inputs p.rank)) =
        p.rank ↔ ranks = 1 ∨ dividedColumns mode p.a p.rank = 0 := by
  cases mode with
  | vSplit => simp [Factor.splitMode, heldStrips, dividedColumns, Plane.width]
  | qkvSplit => simp [Factor.splitMode, heldStrips, dividedColumns, Plane.width]
  | groupVSplit => simp [Factor.splitMode, heldStrips, dividedColumns, Plane.width]
  | hSplit => exact absurd rfl hne
  | kvSplit =>
      have hsame : Factor.a.splitMode .kvSplit = .kvSplit := rfl
      rw [hsame] at hget ⊢
      obtain rfl := Except.ok.inj hget
      have hdvd := accepted_batchGemm p.a_typed.shape hacc
      have hpitch : shardPitch (heldStrips .kvSplit ranks p.a (.matrix p.inputs p.rank)) =
          2 * (p.rank / (2 * ranks)) := by
        simp [heldStrips, SplitMode.strips, shardPitch, Plane.width, Nat.two_mul]
      rw [hpitch, dividedColumns]
      exact two_div_eq_iff hdvd hn
  | mqaVSplit =>
      have hsame : Factor.a.splitMode .mqaVSplit = .mqaVSplit := rfl
      rw [hsame] at hget hproper ⊢
      obtain rfl := Except.ok.inj hget
      obtain ⟨q, k, v, hgs, hrem, ht⟩ := accepted_mqaVSplit p.a_typed.shape hacc
      have hnonneg := hproper (Or.inr rfl)
      rw [hgs] at hnonneg
      obtain ⟨a, rfl⟩ := Int.eq_ofNat_of_zero_le (hnonneg q (by simp))
      obtain ⟨b, rfl⟩ := Int.eq_ofNat_of_zero_le (hnonneg k (by simp))
      obtain ⟨c, rfl⟩ := Int.eq_ofNat_of_zero_le (hnonneg v (by simp))
      have hsum : a + b + c = p.rank := by
        have htotal := totalLen_eq ht
        simp only [List.sum_cons, List.sum_nil, Plane.width] at htotal
        omega
      have hpitch : shardPitch (heldStrips .mqaVSplit ranks p.a (.matrix p.inputs p.rank)) =
          a / ranks + b + c := by
        simp [heldStrips, SplitMode.strips, mqaStrips, hgs, Nat.add_assoc]
      have hdivided : dividedColumns .mqaVSplit p.a p.rank = a := by
        simp [dividedColumns, hgs]
      have hdvd : ranks ∣ a := dvd_of_rem hrem
      rw [hpitch, hdivided, ← div_eq_self_iff hdvd hn]
      omega
  | noSplit => exact absurd hmode id
  | hSplitQuantize => exact absurd hmode id
  | batchVSplit => exact absurd hmode id
  | batchHSplit => exact absurd hmode id
  | batchKVSplit => exact absurd hmode id

end Columns

section Combination

variable [Semiring R] {place : Placement} {mode : SplitMode} {ranks : Nat} {p : Adapter}
  {sa sb : WeightSplitter} {A B : AsTensor} {garbage : Factor → Nat → Nat → UInt8}
  {value : DataType → List UInt8 → R} {n : Nat} {x : Matrix (Fin n) (Fin p.inputs) R}

theorem combines_columns_iff (hne : mode ≠ .hSplit) (strips : List Strip) {m w : Nat}
    (x : Matrix (Fin n) (Fin m) R)
    (layer : (h v : Nat) → Nat → Matrix (Fin n) (Fin h) R → Matrix (Fin n) (Fin v) R)
    (y : Matrix (Fin n) (Fin w) R) :
    Combines mode ranks strips x layer y ↔
      Concatenates ranks strips (fun r => layer m (shardPitch strips) r x) y := by
  cases mode with
  | hSplit => exact absurd rfl hne
  | _ => rfl

/-- With the whole first factor on every rank, the products are the column
groups of the whole product. -/
theorem splitsLikeWhole_columns (hne : mode ≠ .hSplit) (hn : 0 < ranks) {la : List Strip}
    {pa pb : Nat → List UInt8}
    (ha : Holds sa ranks p.a (.matrix p.inputs p.rank) la A (garbage .a) pa)
    (hb : Holds sb ranks p.b (.matrix p.rank p.outputs) (p.strips mode ranks) B (garbage .b) pb)
    (hla : wholePitch ranks la = p.rank) (hlb : wholePitch ranks (p.strips mode ranks) = p.outputs)
    (hpitch : shardPitch la = p.rank) :
    SplitsLikeWhole value p mode ranks sa sb A B garbage x := by
  refine ⟨fun r => ⟨(Plane.matrix p.inputs p.rank).shapeOf (shardPitch la), A.dtype, pa r⟩,
    fun r => ⟨(Plane.matrix p.rank p.outputs).shapeOf (shardPitch (p.strips mode ranks)), B.dtype,
      pb r⟩, fun r hr => ⟨ha.shard r hr, ?_⟩, fun r hr => ⟨hb.shard r hr, ?_⟩, ?_⟩
  · rw [heldInputs, if_neg hne, hpitch]
    rfl
  · rw [Adapter.heldOutputs, if_neg hne]
    rfl
  · apply (combines_columns_iff hne _ _ _ _).mpr
    apply concatenates_of_columns hn hlb
    intro r hr i j hj
    rw [ha.matrix_eq value hla hpitch hr]
    apply mul_column
    intro q j hj
    exact hb.matrix_apply value hlb hr _ q j hj

/-- With rows of the first factor on every rank and the whole second one, the
products add up to the whole product. -/
theorem splitsLikeWhole_rows (hn : 0 < ranks)
    (hacc : HorizontalSplit.isSplittable ⟨0, ranks⟩ p.a = .ok true)
    (hA : IsWhole p.a (.matrix p.inputs p.rank) A) (hB : IsWhole p.b (.matrix p.rank p.outputs) B) :
    SplitsLikeWhole value p .hSplit ranks horizontalSplitter
      ⟨NoSplit.isSplittable, NoSplit.setShape, NoSplit.copyWeight⟩ A B garbage x := by
  have hdvd := accepted_hSplit p.a_typed.shape hacc
  rw [dim_first_matrix p.a_typed.shape] at hdvd
  have hdvd : ranks ∣ p.inputs := Int.natCast_dvd_natCast.mp hdvd
  obtain ⟨pa, hshard, hlen, hjoin⟩ := hSplit_matrix hn p.a_typed.shape p.a_typed.sized hdvd
    hA.shape hA.dtype hA.data (garbage .a)
  refine ⟨fun r => ⟨(Plane.matrix (p.inputs / ranks) p.rank).shape, p.a.dtype, pa r⟩, fun _ => B,
    fun r hr => ⟨hshard r hr, ?_⟩, fun r _ => ⟨rfl, ?_⟩, ?_⟩
  · rfl
  · rw [Adapter.heldOutputs, if_pos rfl]
    exact hB.shape
  · rw [← hA.dtype] at hlen ⊢
    have hinputs : p.inputs = ranks * (p.inputs / ranks) := (Nat.mul_div_cancel' hdvd).symm
    rw [Combines, ← Matrix.sum_mul, sum_columnBlock_mul hinputs x]
    intro r hr i j hi
    exact matrix_rows_apply value hlen hjoin hr _ i j hi

/-- The outputs of the base weight's own parts combine to its output. -/
theorem baseOutputs_combine {sw : WeightSplitter} {W : AsTensor} {garbage : Nat → Nat → UInt8}
    (hmode : mode.Planar) (hget : getSplitterByMode place mode = .ok sw) (hn : 0 < ranks)
    (hacc : sw.isSplittable ⟨0, ranks⟩ p.base = .ok true) (hproper : mode.ProperGroups p.base)
    (hW : IsWhole p.base (.matrix p.inputs p.outputs) W) :
    ∃ w : Nat → AsTensor,
      (∀ r < ranks, sw.shard ⟨r, ranks⟩ p.base W (garbage r) = .ok (w r)) ∧
      Combines mode ranks (p.strips mode ranks) x (fun h v r xr => xr * (w r).matrix value h v)
        (x * W.matrix value p.inputs p.outputs) := by
  by_cases hne : mode = .hSplit
  case neg =>
    have hdivides := divides_of_properGroups hmode hne hget hn p.base_typed.shape
      p.base_typed.sized hacc hproper
    obtain ⟨parts, hparts⟩ := hdivides.holds hn p.base_typed.sized hW.shape hW.dtype hW.data garbage
    refine ⟨_, hparts.shard, (combines_columns_iff hne _ _ _ _).mpr ?_⟩
    apply concatenates_of_columns hn hdivides.pitch
    intro r hr i j hj
    apply mul_column
    intro q j hj
    exact hparts.matrix_apply value hdivides.pitch hr _ q j hj
  case pos =>
    subst hne
    obtain rfl := Except.ok.inj hget
    have hdvd := accepted_hSplit p.base_typed.shape hacc
    rw [dim_first_matrix p.base_typed.shape] at hdvd
    have hdvd : ranks ∣ p.inputs := Int.natCast_dvd_natCast.mp hdvd
    obtain ⟨parts, hshard, hlen, hjoin⟩ := hSplit_matrix hn p.base_typed.shape p.base_typed.sized
      hdvd hW.shape hW.dtype hW.data garbage
    have hinputs : p.inputs = ranks * (p.inputs / ranks) := (Nat.mul_div_cancel' hdvd).symm
    rw [← hW.dtype] at hshard hlen
    refine ⟨_, hshard, ?_⟩
    rw [Combines, sum_columnBlock_mul hinputs x]
    intro r hr i j hi
    exact matrix_rows_apply value hlen hjoin hr _ i j hi

end Combination

section Claim

variable [Semiring R] {place : Placement} {mode : SplitMode} {ranks : Nat} {p : Adapter}
  {sa sb : WeightSplitter} {A B : AsTensor} {garbage : Factor → Nat → Nat → UInt8}
  {value : DataType → List UInt8 → R} {n : Nat} {x : Matrix (Fin n) (Fin p.inputs) R}

/-- Aligned factors split like the whole. -/
theorem splitsLikeWhole_of_aligned (hmode : mode.Planar)
    (hsa : getSplitterByMode place (Factor.a.splitMode mode) = .ok sa)
    (hsb : getSplitterByMode place (Factor.b.splitMode mode) = .ok sb) (hn : 0 < ranks)
    (hacca : sa.isSplittable ⟨0, ranks⟩ p.a = .ok true)
    (haccb : sb.isSplittable ⟨0, ranks⟩ p.b = .ok true)
    (hA : IsWhole p.a (.matrix p.inputs p.rank) A) (hB : IsWhole p.b (.matrix p.rank p.outputs) B)
    (h : Aligned p mode ranks) : SplitsLikeWhole value p mode ranks sa sb A B garbage x := by
  by_cases hne : mode = .hSplit
  case pos =>
    subst hne
    obtain rfl := Except.ok.inj hsa
    obtain rfl := Except.ok.inj hsb
    exact splitsLikeWhole_rows hn hacca hA hB
  case neg =>
    obtain ⟨hmodeA, hmodeB⟩ := factor_modes hmode hne
    have hmodeB' : Factor.b.splitMode mode = .noSplit ∨
        (Factor.b.splitMode mode).Planar ∧ Factor.b.splitMode mode ≠ .hSplit := by
      rw [hmodeB]
      exact Or.inr ⟨hmode, hne⟩
    have hpitch := (shardPitch_a_iff hmode hn hsa hacca h.a_groups hne).mpr h.undivided
    obtain ⟨hla, pa, ha⟩ := exists_holds (garbage .a) hmodeA hsa hn p.a_typed hacca
      h.a_groups hA
    obtain ⟨hlb, pb, hb⟩ := exists_holds (garbage .b) hmodeB' hsb hn p.b_typed haccb
      h.b_groups hB
    rw [hmodeB, p.strips_b hmode] at hlb hb
    exact splitsLikeWhole_columns hne hn ha hb hla hlb hpitch

/-- Factors that split like the whole are aligned. -/
theorem aligned_of_splitsLikeWhole (hmode : mode.Planar)
    (hsa : getSplitterByMode place (Factor.a.splitMode mode) = .ok sa)
    (hsb : getSplitterByMode place (Factor.b.splitMode mode) = .ok sb) (hn : 0 < ranks)
    (hn31 : ranks < 2 ^ 31) (hacca : sa.isSplittable ⟨0, ranks⟩ p.a = .ok true)
    (haccb : sb.isSplittable ⟨0, ranks⟩ p.b = .ok true)
    (hA : IsWhole p.a (.matrix p.inputs p.rank) A) (hB : IsWhole p.b (.matrix p.rank p.outputs) B)
    (hneA : Weight.Nonempty p.a (.matrix p.inputs p.rank))
    (hneB : Weight.Nonempty p.b (.matrix p.rank p.outputs))
    (h : SplitsLikeWhole value p mode ranks sa sb A B garbage x) : Aligned p mode ranks := by
  obtain ⟨a, b, ha, hb, -⟩ := h
  have hgroupsA := properGroups_of_shard hsa hn hn31 p.a_typed hA hneA hacca (ha 0 hn).1
  have hgroupsB := properGroups_of_shard hsb hn hn31 p.b_typed hB hneB haccb (hb 0 hn).1
  refine ⟨hgroupsA, hgroupsB, ?_⟩
  by_cases hne : mode = .hSplit
  case pos => exact Or.inr (by rw [hne]; rfl)
  case neg =>
    obtain ⟨hmodeA, -⟩ := factor_modes hmode hne
    obtain ⟨-, pa, hholds⟩ := exists_holds (garbage .a) hmodeA hsa hn p.a_typed hacca
      hgroupsA hA
    have hsame := Except.ok.inj ((hholds.shard 0 hn).symm.trans (ha 0 hn).1)
    have hshape := (ha 0 hn).2
    rw [← hsame, heldInputs, if_neg hne] at hshape
    simp only [Plane.shape, Plane.shapeOf, List.cons.injEq, Nat.cast_inj, and_true, true_and,
      Plane.width] at hshape
    exact (shardPitch_a_iff hmode hn hsa hacca hgroupsA hne).mp hshape

/-- With the factors split by the modes derived from the base weight's, the
products of the ranks combine to the whole product when the factors are
aligned, and for factors that hold something only then. -/
theorem splitLora_iff {splitMap : SplitMap} (hkeys : (splitMap.map Prod.fst).Nodup)
    {stem : WeightName} (hmem : (stem ++ text ".weight", mode) ∈ splitMap) (hmode : mode.Planar)
    (hsa : getSplitterByMode place (writtenMode (makeLoraSplitMap splitMap)
      (Factor.a.key (stem ++ text ".weight"))) = .ok sa)
    (hsb : getSplitterByMode place (writtenMode (makeLoraSplitMap splitMap)
      (Factor.b.key (stem ++ text ".weight"))) = .ok sb)
    (hn : 0 < ranks) (hn31 : ranks < 2 ^ 31)
    (hacca : sa.isSplittable ⟨0, ranks⟩ p.a = .ok true)
    (haccb : sb.isSplittable ⟨0, ranks⟩ p.b = .ok true)
    (hA : IsWhole p.a (.matrix p.inputs p.rank) A)
    (hB : IsWhole p.b (.matrix p.rank p.outputs) B) :
    (Aligned p mode ranks → SplitsLikeWhole value p mode ranks sa sb A B garbage x) ∧
      (Weight.Nonempty p.a (.matrix p.inputs p.rank) →
        Weight.Nonempty p.b (.matrix p.rank p.outputs) →
        (SplitsLikeWhole value p mode ranks sa sb A B garbage x ↔ Aligned p mode ranks)) := by
  rw [writtenMode_factor hkeys hmem] at hsa hsb
  have hmpr : Aligned p mode ranks → SplitsLikeWhole value p mode ranks sa sb A B garbage x :=
    splitsLikeWhole_of_aligned hmode hsa hsb hn hacca haccb hA hB
  refine ⟨hmpr, fun hneA hneB => ⟨?_, hmpr⟩⟩
  exact aligned_of_splitsLikeWhole hmode hsa hsb hn hn31 hacca haccb hA hB hneA hneB

end Claim

/-- A matrix of bytes as a header. -/
def byteHeader (h w : Nat) (mode : SplitMode) : TensorInfo :=
  ⟨(Plane.matrix h w).shape, .int8, .dense, mode, 0, []⟩

theorem byteHeader_typed {h w : Nat} (hh : h < 2 ^ 31) (hw : w < 2 ^ 31) (mode : SplitMode) :
    WellTyped (byteHeader h w mode) (.matrix h w) := by
  refine ⟨rfl, ⟨hh, hw, ?_⟩, by simp [byteHeader]⟩
  have hmul : h * w ≤ 2 ^ 31 * 2 ^ 31 := Nat.mul_le_mul hh.le hw.le
  simp only [Plane.height, Plane.width, byteHeader, sizeofType, Nat.mul_one]
  omega

/-- An adapter of rank 4 for a weight of one row and four columns. -/
def smallAdapter (mode : SplitMode) : Adapter where
  inputs := 1
  rank := 4
  outputs := 4
  base := byteHeader 1 4 mode
  a := byteHeader 1 4 (Factor.a.splitMode mode)
  b := byteHeader 4 4 (Factor.b.splitMode mode)
  base_typed := byteHeader_typed (Nat.le_of_ble_eq_true rfl) (Nat.le_of_ble_eq_true rfl) _
  a_typed := byteHeader_typed (Nat.le_of_ble_eq_true rfl) (Nat.le_of_ble_eq_true rfl) _
  b_typed := byteHeader_typed (Nat.le_of_ble_eq_true rfl) (Nat.le_of_ble_eq_true rfl) _
  b_groups := rfl

def firstByte (_ : DataType) (bytes : List UInt8) : Int := (bytes.headD 0).toNat

def smallA : AsTensor := ⟨[1, 4], .int8, [1, 2, 3, 4]⟩

def smallB : AsTensor :=
  ⟨[4, 4], .int8, [1, 0, 0, 0, 0, 1, 0, 0, 0, 0, 1, 0, 0, 0, 0, 1]⟩

def smallInput : Matrix (Fin 1) (Fin 1) Int := fun _ _ => 1

def noGarbage (_ : Factor) (_ _ : Nat) : UInt8 := 0

def wholeSplitter : WeightSplitter :=
  ⟨NoSplit.isSplittable, NoSplit.setShape, NoSplit.copyWeight⟩

def columnSplitter : WeightSplitter :=
  ⟨VerticalSplit.isSplittable, VerticalSplit.setShape, VerticalSplit.copyWeight⟩

def kvSplitter : WeightSplitter :=
  ⟨VSplitBatchGEMM.isSplittable 2, VSplitBatchGEMM.setShape, VSplitBatchGEMM.copyWeight 2⟩

theorem baseOutputs_combine_vSplit :
    ∃ w : Nat → AsTensor,
      (∀ r < 2, columnSplitter.shard ⟨r, 2⟩ (smallAdapter .vSplit).base smallA (noGarbage .a r) =
        .ok (w r)) ∧
      Combines .vSplit 2 ((smallAdapter .vSplit).strips .vSplit 2) smallInput
        (fun h v r xr => xr * (w r).matrix firstByte h v) (smallInput * smallA.matrix firstByte 1 4) :=
  @baseOutputs_combine Int _ ⟨.cpu, .cpu⟩ .vSplit 2 (smallAdapter .vSplit) firstByte 1 smallInput
    columnSplitter smallA (noGarbage .a) trivial rfl (by decide) (by decide)
    (fun _ => List.forall_mem_nil _) ⟨rfl, rfl, rfl⟩

theorem splitLora_iff_vSplit :
    (Aligned (smallAdapter .vSplit) .vSplit 2 →
      SplitsLikeWhole firstByte (smallAdapter .vSplit) .vSplit 2 wholeSplitter columnSplitter
        smallA smallB noGarbage smallInput) ∧
      (Weight.Nonempty (smallAdapter .vSplit).a (.matrix 1 4) →
        Weight.Nonempty (smallAdapter .vSplit).b (.matrix 4 4) →
        (SplitsLikeWhole firstByte (smallAdapter .vSplit) .vSplit 2 wholeSplitter columnSplitter
          smallA smallB noGarbage smallInput ↔ Aligned (smallAdapter .vSplit) .vSplit 2)) :=
  @splitLora_iff Int _ ⟨.cpu, .cpu⟩ .vSplit 2 (smallAdapter .vSplit) _ _ smallA smallB noGarbage
    firstByte 1 smallInput [(text "dense" ++ text ".weight", .vSplit)] (by simp) (text "dense")
    (by simp) trivial (by rw [writtenMode_factor (by simp) List.mem_cons_self]; rfl)
    (by rw [writtenMode_factor (by simp) List.mem_cons_self]; rfl) (by decide) (by decide)
    (by decide) (by decide) ⟨rfl, rfl, rfl⟩ ⟨rfl, rfl, rfl⟩

/-- A base model with one KVSPLIT weight. -/
def kvSplitMap : SplitMap := [(text "kv" ++ text ".weight", .kvSplit)]

/-- Under KVSPLIT two ranks hold two columns each of a first factor of rank 4
and all four rows of the second, so their parts do not multiply. -/
theorem kvSplit_not_splitsLikeWhole :
    writtenMode (makeLoraSplitMap kvSplitMap) (Factor.a.key (text "kv" ++ text ".weight")) =
        .kvSplit ∧
      writtenMode (makeLoraSplitMap kvSplitMap) (Factor.b.key (text "kv" ++ text ".weight")) =
        .kvSplit ∧
      kvSplitter.isSplittable ⟨0, 2⟩ (smallAdapter .kvSplit).base = .ok true ∧
      kvSplitter.isSplittable ⟨0, 2⟩ (smallAdapter .kvSplit).a = .ok true ∧
      kvSplitter.isSplittable ⟨0, 2⟩ (smallAdapter .kvSplit).b = .ok true ∧
      (kvSplitter.shard ⟨0, 2⟩ (smallAdapter .kvSplit).a smallA fun _ => 0) =
        .ok ⟨[1, 2], .int8, [1, 3]⟩ ∧
      (kvSplitter.shard ⟨0, 2⟩ (smallAdapter .kvSplit).b smallB fun _ => 0) =
        .ok ⟨[4, 2], .int8, [1, 0, 0, 0, 0, 1, 0, 0]⟩ ∧
      ¬ SplitsLikeWhole firstByte (smallAdapter .kvSplit) .kvSplit 2 kvSplitter kvSplitter
        smallA smallB noGarbage smallInput := by
  refine ⟨writtenMode_factor (by simp) List.mem_cons_self .a,
    writtenMode_factor (by simp) List.mem_cons_self .b, by decide, by decide,
    by decide, by decide, by decide, fun h => ?_⟩
  have haligned := @aligned_of_splitsLikeWhole Int _ ⟨.cpu, .cpu⟩ .kvSplit 2
    (smallAdapter .kvSplit) _ _ smallA smallB noGarbage firstByte 1 smallInput trivial rfl rfl
    (by decide) (by decide) (by decide) (by decide) ⟨rfl, rfl, rfl⟩ ⟨rfl, rfl, rfl⟩
    ⟨by decide, by decide⟩ ⟨by decide, by decide⟩ h
  rcases haligned.undivided with h | h
  · exact absurd h (by decide)
  · exact absurd h (by decide)

end DashInfer.Lora
