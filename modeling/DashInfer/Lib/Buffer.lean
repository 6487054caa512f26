import Mathlib.Data.List.Basic
import Mathlib.Tactic

/-!
Flat buffers and copies between them. A region copy moves a run of cells of
one buffer to an offset of another and fails where either run leaves its
buffer; a list of region copies whose targets are pairwise disjoint leaves
every target equal to its source, and every other cell as it was.
-/

namespace DashInfer.Lib

variable {α : Type}

/-- The `n` cells of a buffer from offset `o` on. -/
def slice (b : List α) (o n : Nat) : List α := (b.drop o).take n

/-- One copied run: where it goes, where it comes from and its length. -/
structure Region where
  dst : Nat
  src : Nat
  len : Nat
deriving DecidableEq, Repr

namespace Region

/-- Both ends of the run lie inside their buffers. -/
def Fits (c : Region) (dst src : Nat) : Prop :=
  c.dst + c.len ≤ dst ∧ c.src + c.len ≤ src

instance (c : Region) (dst src : Nat) : Decidable (c.Fits dst src) :=
  inferInstanceAs (Decidable (_ ∧ _))

/-- The run `[o, o + n)` shares no cell with the target. -/
def Apart (c : Region) (o n : Nat) : Prop := o + n ≤ c.dst ∨ c.dst + c.len ≤ o

/-- Copies the run; `none` where it leaves a buffer. -/
def copy (src : List α) (dst : List α) (c : Region) : Option (List α) :=
  if c.Fits dst.length src.length then
    some (dst.take c.dst ++ slice src c.src c.len ++ dst.drop (c.dst + c.len))
  else none

end Region

/-- Copies the runs one after another. -/
def copyRegions (src : List α) (dst : List α) (cs : List Region) : Option (List α) :=
  cs.foldlM (Region.copy src) dst

/-- Copies runs one after another, each from a buffer of its own. -/
def copyEach (dst : List α) (cs : List (List α × Region)) : Option (List α) :=
  cs.foldlM (fun dst c => c.2.copy c.1 dst) dst

theorem length_slice (b : List α) (o n : Nat) (h : o + n ≤ b.length) :
    (slice b o n).length = n := by
  simp only [slice, List.length_take, List.length_drop]
  omega

theorem slice_zero (b : List α) (o : Nat) : slice b o 0 = [] := by
  simp [slice]

theorem slice_all (b : List α) : slice b 0 b.length = b := by
  simp [slice]

theorem getElem?_slice (b : List α) (o n k : Nat) :
    (slice b o n)[k]? = if k < n then b[o + k]? else none := by
  simp [slice, List.getElem?_take, List.getElem?_drop]

/-- Two runs that follow one another make one run. -/
theorem slice_append (b : List α) (o m n : Nat) :
    slice b o m ++ slice b (o + m) n = slice b o (m + n) := by
  simp only [slice, List.take_add, List.drop_drop]

theorem slice_slice (b : List α) (o n p m : Nat) (h : p + m ≤ n) :
    slice (slice b o n) p m = slice b (o + p) m := by
  apply List.ext_getElem?
  intro k
  simp only [getElem?_slice]
  split
  · rw [if_pos (by omega), Nat.add_assoc]
  · rfl

/-- Runs of one width that follow one another make one run. -/
theorem flatMap_slice (b : List α) (o w n : Nat) :
    (List.range n).flatMap (fun r => slice b (o + r * w) w) = slice b o (n * w) := by
  induction n with
  | zero => simp [slice_zero]
  | succ n ih =>
      rw [List.range_succ, List.flatMap_append, ih, List.flatMap_singleton, slice_append,
        Nat.succ_mul]

theorem length_flatten_uniform {rows : List (List α)} {w : Nat} (h : ∀ row ∈ rows, row.length = w) :
    rows.flatten.length = rows.length * w := by
  induction rows with
  | nil => simp
  | cons row rest ih =>
      rw [List.flatten_cons, List.length_append, h row List.mem_cons_self,
        ih fun r hr => h r (List.mem_cons_of_mem _ hr), List.length_cons, Nat.succ_mul, Nat.add_comm]

/-- A row of a buffer that holds rows of one width. -/
theorem slice_flatten {rows : List (List α)} {w : Nat} (h : ∀ row ∈ rows, row.length = w) {k : Nat}
    {row : List α} (hk : rows[k]? = some row) : slice rows.flatten (k * w) w = row := by
  induction rows generalizing k with
  | nil => cases hk
  | cons head rest ih =>
      have hhead := h head List.mem_cons_self
      have hrest : ∀ r ∈ rest, r.length = w := fun r hr => h r (List.mem_cons_of_mem _ hr)
      cases k with
      | zero =>
          obtain rfl := Option.some.inj hk
          rw [slice, Nat.zero_mul, List.drop_zero, List.flatten_cons, ← hhead, List.take_left']
          rfl
      | succ k =>
          rw [slice, List.flatten_cons, Nat.succ_mul, Nat.add_comm, ← hhead, List.drop_append,
            List.drop_eq_nil_of_le (by omega), List.nil_append, Nat.add_sub_cancel_left, hhead]
          exact ih hrest hk

theorem flatMap_congr {β : Type} {l : List β} {f g : β → List α} (h : ∀ a ∈ l, f a = g a) :
    l.flatMap f = l.flatMap g := by
  rw [List.flatMap_def, List.flatMap_def, List.map_congr_left h]

namespace Region

theorem fits_of_copy {src dst out : List α} {c : Region} (h : copy src dst c = some out) :
    c.Fits dst.length src.length := by
  by_contra hne
  rw [copy, if_neg hne] at h
  cases h

theorem length_copy {src dst out : List α} {c : Region} (h : copy src dst c = some out) :
    out.length = dst.length := by
  rw [copy] at h
  split at h
  case isTrue hfits =>
      obtain rfl := Option.some.inj h
      obtain ⟨hdst, hsrc⟩ := hfits
      simp only [List.length_append, List.length_take, List.length_drop,
        length_slice _ _ _ hsrc]
      omega
  case isFalse => cases h

/-- The cell at `k` of a copied buffer. -/
theorem getElem?_copy {src dst out : List α} {c : Region} (h : copy src dst c = some out)
    (k : Nat) :
    out[k]? = if c.dst ≤ k ∧ k < c.dst + c.len then src[c.src + (k - c.dst)]? else dst[k]? := by
  rw [copy] at h
  split at h
  case isTrue hfits =>
      obtain rfl := Option.some.inj h
      obtain ⟨hdst, hsrc⟩ := hfits
      have hlen : (slice src c.src c.len).length = c.len := length_slice _ _ _ hsrc
      simp only [List.getElem?_append, List.length_append, List.length_take, hlen,
        List.getElem?_take, List.getElem?_drop, getElem?_slice]
      have hmin : min c.dst dst.length = c.dst := by omega
      simp only [hmin]
      split
      · split
        · rw [if_neg (by omega)]
        · rw [if_pos (by omega), if_pos (by omega)]
      · rw [if_neg (by omega)]
        congr 1
        omega
  case isFalse => cases h

/-- A copy depends on the run that it reads. -/
theorem copy_congr {src src' dst : List α} {c : Region}
    (hslice : slice src c.src c.len = slice src' c.src c.len)
    (hsrc : c.src + c.len ≤ src.length) (hsrc' : c.src + c.len ≤ src'.length) :
    copy src dst c = copy src' dst c := by
  have hfits : c.Fits dst.length src.length ↔ c.Fits dst.length src'.length :=
    ⟨fun h => ⟨h.1, hsrc'⟩, fun h => ⟨h.1, hsrc⟩⟩
  unfold copy
  by_cases h : c.Fits dst.length src.length
  · rw [if_pos h, if_pos (hfits.mp h), hslice]
  · rw [if_neg h, if_neg fun h' => h (hfits.mpr h')]

/-- A copied run reads back as its source. -/
theorem slice_copy {src dst out : List α} {c : Region} (h : copy src dst c = some out) :
    slice out c.dst c.len = slice src c.src c.len := by
  apply List.ext_getElem?
  intro k
  simp only [getElem?_slice]
  split
  · rw [getElem?_copy h, if_pos (by omega)]
    congr 1
    omega
  · rfl

/-- A run apart from the target keeps its cells. -/
theorem slice_copy_apart {src dst out : List α} {c : Region} {o n : Nat}
    (h : copy src dst c = some out) (ha : c.Apart o n) : slice out o n = slice dst o n := by
  apply List.ext_getElem?
  intro k
  simp only [getElem?_slice]
  split
  · rw [getElem?_copy h, if_neg]
    rcases ha with ha | ha <;> omega
  · rfl

/-- A copy of the whole source over a target of its length. -/
theorem copy_all {src dst : List α} {n : Nat} (hsrc : src.length = n) (hdst : dst.length = n) :
    copy src dst ⟨0, 0, n⟩ = some src := by
  have hfits : Fits ⟨0, 0, n⟩ dst.length src.length := by
    simp [Fits, hsrc, hdst]
  rw [copy, if_pos hfits, List.take_zero, List.nil_append, Nat.zero_add, ← hdst, List.drop_length,
    List.append_nil, hdst, ← hsrc, slice_all]

end Region

section Sources

variable {dst out : List α}

@[simp] theorem copyEach_nil : copyEach dst [] = some dst := rfl

theorem copyEach_cons (c : List α × Region) (cs : List (List α × Region)) :
    copyEach dst (c :: cs) = (c.2.copy c.1 dst).bind fun mid => copyEach mid cs := rfl

/-- Copies that all fit succeed and keep the length of the buffer. -/
theorem copyEach_isSome {cs : List (List α × Region)}
    (h : ∀ c ∈ cs, c.2.Fits dst.length c.1.length) :
    ∃ out, copyEach dst cs = some out ∧ out.length = dst.length := by
  induction cs generalizing dst with
  | nil => exact ⟨dst, rfl, rfl⟩
  | cons c cs ih =>
      have hc := h c (List.mem_cons_self ..)
      obtain ⟨mid, hmid⟩ : ∃ mid, c.2.copy c.1 dst = some mid :=
        ⟨_, by rw [Region.copy, if_pos hc]⟩
      have hlen := Region.length_copy hmid
      have hrest : ∀ d ∈ cs, d.2.Fits mid.length d.1.length := fun d hd => by
        rw [hlen]
        exact h d (List.mem_cons_of_mem _ hd)
      obtain ⟨out, hout, hsize⟩ := ih hrest
      refine ⟨out, ?_, hsize.trans hlen⟩
      rw [copyEach_cons, hmid]
      exact hout

theorem length_copyEach {cs : List (List α × Region)} (h : copyEach dst cs = some out) :
    out.length = dst.length := by
  induction cs generalizing dst with
  | nil =>
      obtain rfl := Option.some.inj h
      rfl
  | cons c cs ih =>
      rw [copyEach_cons, Option.bind_eq_some_iff] at h
      obtain ⟨mid, hmid, hrest⟩ := h
      exact (ih hrest).trans (Region.length_copy hmid)

/-- Copies that succeed all fit. -/
theorem fits_of_copyEach {cs : List (List α × Region)} (h : copyEach dst cs = some out) :
    ∀ c ∈ cs, c.2.Fits dst.length c.1.length := by
  induction cs generalizing dst with
  | nil => intro c hc; cases hc
  | cons c cs ih =>
      rw [copyEach_cons, Option.bind_eq_some_iff] at h
      obtain ⟨mid, hmid, hrest⟩ := h
      intro d hd
      rcases List.mem_cons.mp hd with rfl | hd
      · exact Region.fits_of_copy hmid
      · rw [← Region.length_copy hmid]
        exact ih hrest d hd

/-- A run apart from every target keeps its cells. -/
theorem slice_copyEach_apart {cs : List (List α × Region)} {o n : Nat}
    (h : copyEach dst cs = some out) (ha : ∀ c ∈ cs, c.2.Apart o n) :
    slice out o n = slice dst o n := by
  induction cs generalizing dst with
  | nil =>
      obtain rfl := Option.some.inj h
      rfl
  | cons c cs ih =>
      rw [copyEach_cons, Option.bind_eq_some_iff] at h
      obtain ⟨mid, hmid, hrest⟩ := h
      rw [ih hrest fun d hd => ha d (List.mem_cons_of_mem _ hd)]
      exact Region.slice_copy_apart hmid (ha c (List.mem_cons_self ..))

/-- With pairwise disjoint targets every copied run reads back as its
source. -/
theorem slice_copyEach {cs : List (List α × Region)}
    (hap : cs.Pairwise fun c d => d.2.Apart c.2.dst c.2.len)
    (h : copyEach dst cs = some out) :
    ∀ c ∈ cs, slice out c.2.dst c.2.len = slice c.1 c.2.src c.2.len := by
  induction cs generalizing dst with
  | nil => intro c hc; cases hc
  | cons c cs ih =>
      rw [copyEach_cons, Option.bind_eq_some_iff] at h
      obtain ⟨mid, hmid, hrest⟩ := h
      obtain ⟨hc, hcs⟩ := List.pairwise_cons.mp hap
      intro d hd
      rcases List.mem_cons.mp hd with rfl | hd
      · rw [slice_copyEach_apart hrest hc]
        exact Region.slice_copy hmid
      · exact ih hcs hrest d hd

end Sources

section Runs

variable {src dst out : List α}

@[simp] theorem copyRegions_nil : copyRegions src dst [] = some dst := rfl

theorem copyRegions_cons (c : Region) (cs : List Region) :
    copyRegions src dst (c :: cs) =
      (c.copy src dst).bind fun mid => copyRegions src mid cs := rfl

theorem copyRegions_append (cs ds : List Region) :
    copyRegions src dst (cs ++ ds) =
      (copyRegions src dst cs).bind fun mid => copyRegions src mid ds := by
  rw [copyRegions, List.foldlM_append]
  rfl

/-- Copies from one buffer are copies that each name it. -/
theorem copyRegions_eq_copyEach (cs : List Region) :
    copyRegions src dst cs = copyEach dst (cs.map fun c => (src, c)) := by
  induction cs generalizing dst with
  | nil => rfl
  | cons c cs ih =>
      rw [copyRegions_cons, List.map_cons, copyEach_cons]
      congr 1
      funext mid
      exact ih

/-- Copies that all fit succeed and keep the length of the buffer. -/
theorem copyRegions_isSome {cs : List Region}
    (h : ∀ c ∈ cs, c.Fits dst.length src.length) :
    ∃ out, copyRegions src dst cs = some out ∧ out.length = dst.length := by
  rw [copyRegions_eq_copyEach]
  apply copyEach_isSome
  intro c hc
  obtain ⟨d, hd, rfl⟩ := List.mem_map.mp hc
  exact h d hd

theorem length_copyRegions {cs : List Region} (h : copyRegions src dst cs = some out) :
    out.length = dst.length := by
  rw [copyRegions_eq_copyEach] at h
  exact length_copyEach h

/-- Copies that succeed all fit. -/
theorem fits_of_copyRegions {cs : List Region} (h : copyRegions src dst cs = some out) :
    ∀ c ∈ cs, c.Fits dst.length src.length := by
  rw [copyRegions_eq_copyEach] at h
  intro c hc
  exact fits_of_copyEach h (src, c) (List.mem_map_of_mem hc)

/-- With pairwise disjoint targets every copied run reads back as its
source. -/
theorem slice_copyRegions {cs : List Region}
    (hap : cs.Pairwise fun c d => d.Apart c.dst c.len)
    (h : copyRegions src dst cs = some out) :
    ∀ c ∈ cs, slice out c.dst c.len = slice src c.src c.len := by
  rw [copyRegions_eq_copyEach] at h
  intro c hc
  exact slice_copyEach (List.pairwise_map.mpr hap) h (src, c) (List.mem_map_of_mem hc)

end Runs

/-!
Single cells of a buffer behind machine indices. A load or store outside the
buffer has no result. A buffer that is filled from the front is described by
the list it starts with; one more store extends that list, and there is room
for it or there is not.
-/

def load (buf : List α) (i : Int) : Option α := if 0 ≤ i then buf[i.toNat]? else none

def store (buf : List α) (i : Int) (x : α) : Option (List α) :=
  if 0 ≤ i ∧ i < buf.length then some (buf.set i.toNat x) else none

theorem load_neg {buf : List α} {i : Int} (h : i < 0) : load buf i = none :=
  if_neg (Int.not_le.mpr h)

theorem load_natCast (buf : List α) (i : Nat) : load buf i = buf[i]? :=
  if_pos (Int.natCast_nonneg i)

theorem load_eq_getElem {buf l : List α} (h : l <+: buf) {i : Nat} (hi : i < l.length) :
    load buf i = some l[i] := by
  rw [load_natCast, List.getElem?_eq_getElem (hi.trans_le h.length_le), h.getElem hi]

/-- The next store to a buffer that starts with `l`. -/
theorem store_next {buf l : List α} (h : l <+: buf) (hroom : l.length < buf.length) (x : α) :
    ∃ buf', store buf l.length x = some buf' ∧ buf'.length = buf.length ∧ l ++ [x] <+: buf' := by
  obtain ⟨rest, rfl⟩ := h
  cases rest with
  | nil => simp at hroom
  | cons y tail =>
      refine ⟨l ++ x :: tail, ?_, by simp, ⟨tail, by simp⟩⟩
      unfold store
      rw [if_pos ⟨Int.natCast_nonneg _, by exact_mod_cast hroom⟩, Int.toNat_natCast]
      simp

theorem store_full {buf : List α} {i : Int} (h : (buf.length : Int) ≤ i) (x : α) :
    store buf i x = none :=
  if_neg fun hi => absurd hi.2 (Int.not_lt.mpr h)

end DashInfer.Lib
