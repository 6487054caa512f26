import DashInfer.Lib.Fallible
import DashInfer.Vision.CacheLookup
import DashInfer.Vision.MergeVits
import DashInfer.Vision.NewRequestLaw

/-!
Whether the embeddings of a request are complete when they come out of the local
cache again. A part that is no longer there is skipped, and only an entry without
any part shows in the number of results.
-/

namespace DashInfer.Vision

open Lib (Lru mapM_eq_some)

variable {T α : Type} {capacity : Nat}

section Grids

variable {grid : Grid}

theorem Grid.Normal.rows_pos (h : grid.Normal) : 0 < grid.rows := by
  obtain ⟨ht, hh, hw, hh2, hw2⟩ := h
  obtain ⟨a, ha⟩ := Int.dvd_of_emod_eq_zero hh2
  obtain ⟨b, hb⟩ := Int.dvd_of_emod_eq_zero hw2
  have hprod : grid.t * grid.h * grid.w = 4 * (grid.t * a * b) := by
    rw [ha, hb]
    ring
  have hpos : 0 < grid.t * a * b := by
    have ha' : 0 < a := by omega
    have hb' : 0 < b := by omega
    positivity
  unfold Grid.rows
  rw [hprod, Int.mul_ediv_cancel_left _ four_ne_zero]
  omega

theorem normalGrid_list (h : grid.Normal) : normalGrid grid.list = some ⟨grid, h⟩ :=
  dif_pos h

/-- `normalGrid` is what `normalize_vision_grid` accepts. -/
theorem normalGrid_eq (gridThw : List Int) :
    (normalGrid gridThw).map Subtype.val = (normalizeVisionGrid (some gridThw)).toOption := by
  unfold normalGrid normalizeVisionGrid
  split
  case h_1 t h w =>
    dsimp only
    split
    case isTrue hnormal =>
      obtain ⟨ht, hh, hw, hh2, hw2⟩ := hnormal
      dsimp only at ht hh hw hh2 hw2
      rw [if_neg (not_le.mpr ht), if_neg (not_le.mpr hh), if_neg (not_le.mpr hw),
        if_neg (by omega)]
      rfl
    case isFalse hnormal =>
      unfold Grid.Normal at hnormal
      dsimp only at hnormal
      split_ifs
      · rfl
      · rfl
      · rfl
      · rfl
      · omega
  case h_2 hnot =>
    split
    case h_1 heq => cases heq
    case h_2 t h w heq => exact absurd (Option.some.inj heq) (hnot t h w)
    case h_3 => rfl

theorem Grid.list_injective {grid' : Grid} (h : grid.list = grid'.list) : grid = grid' := by
  obtain ⟨t, h', w⟩ := grid
  obtain ⟨t', h'', w'⟩ := grid'
  unfold Grid.list at h
  simp only [List.cons.injEq, and_true] at h
  obtain ⟨rfl, rfl, rfl⟩ := h
  rfl

/-- A worker's result on an image in memory, where it is a success. -/
theorem forward_eq_processRequest (tower : VisionTower T α) (raises : Bool) (image : T)
    (gridThw : List Int) (requestId vitId : Int) (startTime : Nat) :
    (processRequest tower.visual raises
      ⟨requestId, vitId, .tensor image, some gridThw, startTime⟩).bind (fun vit =>
        if vit.status = .success then some (vit.vitEmbs, vit.vitGridThw) else none) =
      (tower.forward raises image gridThw).toOption.map (fun vit =>
        (some vit.tensor, some vit.grid.list)) := by
  have hgrid := normalGrid_eq gridThw
  unfold processRequest forwardImage VisionTower.forward
  dsimp only
  cases hnormal : normalGrid gridThw with
  | none =>
      rw [hnormal] at hgrid
      cases hnormalize : normalizeVisionGrid (some gridThw) with
      | error message => rfl
      | ok grid =>
          rw [hnormalize] at hgrid
          cases hgrid
  | some grid =>
      rw [hnormal] at hgrid
      cases hnormalize : normalizeVisionGrid (some gridThw) with
      | error message =>
          rw [hnormalize] at hgrid
          cases hgrid
      | ok grid' =>
          rw [hnormalize] at hgrid
          cases hgrid
          cases raises with
          | true => rfl
          | false => rfl

end Grids

section Lookups

variable {md5 : Md5Hex} {cache cache' : Lru String (CachedVit α) capacity} {part : VisionPart T}

/-- What the cache has for a part: an entry on its grid. -/
def cachedPart (md5 : Md5Hex) (cache : Lru String (CachedVit α) capacity) (part : VisionPart T) :
    Option (CachedVit α) :=
  (cache.peek (md5.hexdigest part.url)).filter (fun vit => decide (vit.grid = part.grid))

theorem fits_part (vit : CachedVit α) (part : VisionPart T) (useRedis : Option Bool) :
    vit.entry.fits ⟨some part.preprocessed.data.gridThw,
      some (some part.preprocessed.vitLen), useRedis⟩ = decide (vit.grid = part.grid) := by
  have hgrid : part.grid.list = vit.grid.list ↔ vit.grid = part.grid :=
    ⟨fun h => (Grid.list_injective h).symm, fun h => h ▸ rfl⟩
  simp [CacheEntry.fits, CachedVit.entry, VisionPart.preprocessed, hgrid]

theorem vitFromCache_fst (md5 : Md5Hex) (cache : Lru String (CachedVit α) capacity)
    (part : VisionPart T) :
    (vitFromCache md5 cache part.preprocessed).1 = cachedPart md5 cache part := by
  unfold vitFromCache cachedPart
  simp only [Lru.get_fst, fits_part]
  rfl

theorem peek_vitFromCache (md5 : Md5Hex) (cache : Lru String (CachedVit α) capacity)
    (result : Preprocessed T) (key : String) :
    (vitFromCache md5 cache result).2.peek key = cache.peek key :=
  Lru.peek_get _ _ _

theorem cachedPart_congr (h : ∀ key, cache'.peek key = cache.peek key) :
    cachedPart md5 cache' = cachedPart (T := T) md5 cache := by
  funext part
  unfold cachedPart
  rw [h]

theorem grid_of_cachedPart {vit : CachedVit α} (h : cachedPart md5 cache part = some vit) :
    cache.peek (md5.hexdigest part.url) = some vit ∧ vit.grid = part.grid := by
  obtain ⟨hpeek, hgrid⟩ := Option.filter_eq_some_iff.mp h
  exact ⟨hpeek, of_decide_eq_true hgrid⟩

end Lookups

section Merge

variable {md5 : Md5Hex} {cache cache' : Lru String (CachedVit α) capacity}

/-- The parts of an entry that the cache has. -/
def foundParts (md5 : Md5Hex) (cache : Lru String (CachedVit α) capacity)
    (item : VisionItem T) : List (CachedVit α) :=
  item.parts.filterMap (cachedPart md5 cache)

/-- What an entry is merged to. -/
def mergedOf (md5 : Md5Hex) (cache : Lru String (CachedVit α) capacity)
    (item : VisionItem T) : Option (Tensor α × Grid) :=
  match item with
  | .one part => (cachedPart md5 cache part).map (fun vit => (vit.tensor, vit.grid))
  | .list _ _ => mergeParts ((foundParts md5 cache item).map (fun vit => (vit.tensor, vit.grid)))

theorem foundParts_congr (h : ∀ key, cache'.peek key = cache.peek key) :
    foundParts md5 cache' = foundParts (T := T) md5 cache := by
  funext item
  unfold foundParts
  rw [cachedPart_congr h]

theorem mergedOf_congr (h : ∀ key, cache'.peek key = cache.peek key) :
    mergedOf md5 cache' = mergedOf (T := T) md5 cache := by
  funext item
  unfold mergedOf
  rw [cachedPart_congr h, foundParts_congr h]

theorem findParts_spec (md5 : Md5Hex) (cache : Lru String (CachedVit α) capacity)
    (parts : List (VisionPart T)) :
    (findParts md5 cache (parts.map VisionPart.preprocessed)).1 =
        (parts.filterMap (cachedPart md5 cache)).map (fun vit => (vit.tensor, vit.grid)) ∧
      ∀ key, (findParts md5 cache (parts.map VisionPart.preprocessed)).2.peek key =
        cache.peek key := by
  induction parts generalizing cache with
  | nil => exact ⟨rfl, fun _ => rfl⟩
  | cons part parts ih =>
      have hpeek := peek_vitFromCache md5 cache part.preprocessed
      obtain ⟨hfound, hkept⟩ := ih (vitFromCache md5 cache part.preprocessed).2
      rw [cachedPart_congr hpeek] at hfound
      rw [List.map_cons, findParts]
      dsimp only
      rw [hfound, vitFromCache_fst, List.filterMap_cons]
      refine ⟨?_, fun key => (hkept key).trans (hpeek key)⟩
      cases cachedPart md5 cache part with
      | none => rfl
      | some vit => rfl

theorem mergeItem_spec (md5 : Md5Hex) (cache : Lru String (CachedVit α) capacity)
    (item : VisionItem T) :
    (mergeItem md5 cache item.preResult).1 = mergedOf md5 cache item ∧
      ∀ key, (mergeItem md5 cache item.preResult).2.peek key = cache.peek key := by
  cases item with
  | one part =>
      refine ⟨?_, peek_vitFromCache md5 cache part.preprocessed⟩
      exact congrArg (Option.map _) (vitFromCache_fst md5 cache part)
  | list first more =>
      obtain ⟨hfound, hkept⟩ := findParts_spec md5 cache (first :: more)
      exact ⟨congrArg mergeParts hfound, hkept⟩

/-- The results, with the numbers of their entries. -/
def mergedVits (md5 : Md5Hex) (cache : Lru String (CachedVit α) capacity) (requestId : Int) :
    Nat → List (VisionItem T) → List (Vit (Tensor α))
  | _, [] => []
  | i, item :: rest =>
      match mergedOf md5 cache item with
      | none => mergedVits md5 cache requestId (i + 1) rest
      | some (embs, gridThw) =>
          { requestId, vitId := i, status := .success, vitEmbs := some embs
            vitGridThw := some gridThw.list, fromCache := false } ::
              mergedVits md5 cache requestId (i + 1) rest

theorem mergedVits_congr (h : ∀ key, cache'.peek key = cache.peek key) (requestId : Int) (i : Nat)
    (items : List (VisionItem T)) :
    mergedVits md5 cache' requestId i items = mergedVits md5 cache requestId i items := by
  induction items generalizing i with
  | nil => rfl
  | cons item rest ih =>
      rw [mergedVits, mergedVits, mergedOf_congr h, ih]

/-- The loop adds a result for each entry it finds something of. -/
theorem vits_mergeFrom {i : Nat} {group : VitGroup (Tensor α)} {requestId : Int}
    (hrequest : group.requestId = requestId) (hids : ∀ vit ∈ group.vits, vit.vitId < i)
    (items : List (VisionItem T)) :
    (mergeFrom md5 i group cache (items.map VisionItem.preResult)).1.vits =
      group.vits ++ mergedVits md5 cache requestId i items := by
  induction items generalizing i group cache with
  | nil => exact (List.append_nil _).symm
  | cons item rest ih =>
      obtain ⟨hmerged, hkept⟩ := mergeItem_spec md5 cache item
      have hnext : ∀ vit ∈ group.vits, vit.vitId < ((i + 1 : Nat) : Int) := by
        intro vit hvit
        have hlt := hids vit hvit
        omega
      rw [List.map_cons, mergeFrom, mergedVits, hmerged]
      cases mergedOf md5 cache item with
      | none =>
          dsimp only
          rw [ih hrequest hnext, mergedVits_congr hkept]
      | some merged =>
          dsimp only
          have hnew : (i : Int) ∉ group.vits.map (·.vitId) := by
            intro hmem
            obtain ⟨vit, hvit, heq⟩ := List.mem_map.mp hmem
            have hlt := hids vit hvit
            omega
          refine (ih ?_ ?_).trans ?_
          · exact hrequest
          · intro vit hvit
            change vit ∈ Vision.addVit group.vits _ at hvit
            rw [addVit_of_new hnew] at hvit
            rcases List.mem_append.mp hvit with hvit | hvit
            · exact hnext vit hvit
            · rw [List.mem_singleton.mp hvit]
              exact Int.ofNat_lt.mpr (Nat.lt_succ_self i)
          · change Vision.addVit group.vits _ ++ _ = _
            rw [addVit_of_new hnew, mergedVits_congr hkept, List.append_assoc, hrequest]
            rfl

theorem vits_mergeVitResults (md5 : Md5Hex) (requestId : Int)
    (cache : Lru String (CachedVit α) capacity) (items : List (VisionItem T)) :
    (mergeVitResults md5 requestId cache (items.map VisionItem.preResult)).1.vits =
      mergedVits md5 cache requestId 0 items := by
  have hspec := @vits_mergeFrom T α capacity md5 cache 0 (VitGroup.empty requestId) requestId rfl
    (fun vit hvit => absurd hvit List.not_mem_nil) items
  exact hspec

theorem length_mergedVits_le (md5 : Md5Hex) (cache : Lru String (CachedVit α) capacity)
    (requestId : Int) (i : Nat) (items : List (VisionItem T)) :
    (mergedVits md5 cache requestId i items).length ≤ items.length ∧
      ((mergedVits md5 cache requestId i items).length = items.length ↔
        ∀ item ∈ items, (mergedOf md5 cache item).isSome = true) := by
  induction items generalizing i with
  | nil => simp [mergedVits]
  | cons item rest ih =>
      obtain ⟨hle, hiff⟩ := ih (i + 1)
      rw [mergedVits, List.forall_mem_cons]
      cases mergedOf md5 cache item with
      | none =>
          simp only [List.length_cons, Option.isSome_none, Bool.false_eq_true, false_and, iff_false]
          omega
      | some merged =>
          simp only [List.length_cons, Option.isSome_some, true_and, Nat.add_right_cancel_iff]
          exact ⟨Nat.succ_le_succ hle, hiff⟩

/-- With something of each entry the numbers are those of the entries. -/
theorem ids_mergedVits {items : List (VisionItem T)}
    (h : ∀ item ∈ items, (mergedOf md5 cache item).isSome = true) (requestId : Int) (i : Nat) :
    (mergedVits md5 cache requestId i items).map (·.vitId) =
      (List.range' i items.length).map Int.ofNat := by
  induction items generalizing i with
  | nil => rfl
  | cons item rest ih =>
      obtain ⟨hitem, hrest⟩ := List.forall_mem_cons.mp h
      obtain ⟨merged, hmerged⟩ := Option.isSome_iff_exists.mp hitem
      rw [mergedVits, hmerged]
      dsimp only
      rw [List.map_cons, ih hrest, List.length_cons, List.range'_succ, List.map_cons]
      rfl

theorem mergedOf_eq_none_iff (item : VisionItem T) :
    mergedOf md5 cache item = none ↔ ∀ part ∈ item.parts, cachedPart md5 cache part = none := by
  cases item with
  | one part => simp [mergedOf, VisionItem.parts]
  | list first more =>
      rw [← List.filterMap_eq_nil_iff]
      unfold mergedOf foundParts
      cases (VisionItem.list first more).parts.filterMap (cachedPart md5 cache) with
      | nil => simp [mergeParts]
      | cons vit rest => simp [mergeParts]

theorem fst_of_mergedOf {item : VisionItem T} {merged : Tensor α × Grid}
    (h : mergedOf md5 cache item = some merged) :
    merged.1 = ((foundParts md5 cache item).map (·.tensor)).flatten := by
  cases item with
  | one part =>
      obtain ⟨vit, hvit, rfl⟩ := Option.map_eq_some_iff.mp h
      have hfound : foundParts md5 cache (.one part) = [vit] := by
        simp [foundParts, VisionItem.parts, hvit]
      rw [hfound]
      exact (List.append_nil _).symm
  | list first more =>
      unfold mergedOf mergeParts at h
      dsimp only at h
      split at h
      case h_1 => cases h
      case h_2 =>
        rw [← Option.some.inj h, List.map_map]
        rfl

/-- The rows of the parts of an entry that the cache has. -/
def cachedRows (md5 : Md5Hex) (cache : Lru String (CachedVit α) capacity)
    (item : VisionItem T) : Nat :=
  ((foundParts md5 cache item).map (·.grid.rows)).sum

theorem length_flatten_tensors (vits : List (CachedVit α)) :
    (vits.map (·.tensor)).flatten.length = (vits.map (·.grid.rows)).sum := by
  rw [List.length_flatten, List.map_map]
  congr 1
  exact List.map_congr_left fun vit _ => vit.length_tensor

/-- With something of each entry, its results have the rows of the parts found. -/
theorem lens_mergedVits {items : List (VisionItem T)}
    (h : ∀ item ∈ items, (mergedOf md5 cache item).isSome = true) (requestId : Int) (i : Nat) :
    (mergedVits md5 cache requestId i items).map (·.len List.length) =
      items.map (cachedRows md5 cache) := by
  induction items generalizing i with
  | nil => rfl
  | cons item rest ih =>
      obtain ⟨hitem, hrest⟩ := List.forall_mem_cons.mp h
      obtain ⟨merged, hmerged⟩ := Option.isSome_iff_exists.mp hitem
      rw [mergedVits, hmerged]
      dsimp only
      rw [List.map_cons, List.map_cons, ih hrest]
      congr 1
      change merged.1.length = _
      rw [fst_of_mergedOf hmerged]
      exact length_flatten_tensors _

end Merge

section Complete

variable {md5 : Md5Hex} {tower : VisionTower T α} {cache : Lru String (CachedVit α) capacity}

/-- The cache has the embedding that the tower makes of a part. -/
def Held (md5 : Md5Hex) (tower : VisionTower T α) (cache : Lru String (CachedVit α) capacity)
    (part : VisionPart T) : Prop :=
  ∃ vit, cachedPart md5 cache part = some vit ∧ vit.tensor = tower.visual part.image part.grid

theorem length_visual_part (part : VisionPart T) :
    (tower.visual part.image part.grid).length = part.grid.rows :=
  tower.length_visual part.image part.grid part.normal

theorem rows_found_le (parts : List (VisionPart T)) :
    ((parts.filterMap (cachedPart md5 cache)).map (·.grid.rows)).sum ≤
      (parts.map (·.grid.rows)).sum := by
  induction parts with
  | nil => exact le_rfl
  | cons part parts ih =>
      rw [List.filterMap_cons, List.map_cons, List.sum_cons]
      cases hvit : cachedPart md5 cache part with
      | none =>
          dsimp only
          omega
      | some vit =>
          have hgrid := (grid_of_cachedPart hvit).2
          dsimp only
          rw [List.map_cons, List.sum_cons, hgrid]
          omega

theorem length_flatten_visual (parts : List (VisionPart T)) :
    (parts.map (fun part => tower.visual part.image part.grid)).flatten.length =
      (parts.map (·.grid.rows)).sum := by
  rw [List.length_flatten, List.map_map]
  congr 1
  exact List.map_congr_left fun part _ => length_visual_part part

/-- A part that is missing leaves rows out, so nothing but the own embedding of
each part makes up the whole. -/
theorem flatten_found_iff (parts : List (VisionPart T)) :
    ((parts.filterMap (cachedPart md5 cache)).map (·.tensor)).flatten =
        (parts.map (fun part => tower.visual part.image part.grid)).flatten ↔
      ∀ part ∈ parts, Held md5 tower cache part := by
  induction parts with
  | nil => simp
  | cons part parts ih =>
      rw [List.forall_mem_cons, ← ih, List.filterMap_cons, List.map_cons, List.flatten_cons]
      unfold Held
      cases hvit : cachedPart md5 cache part with
      | none =>
          dsimp only
          constructor
          · intro heq
            have hlen := congrArg List.length heq
            have hle := @rows_found_le T α capacity md5 cache parts
            have hpos := part.normal.rows_pos
            rw [List.length_append, length_flatten_tensors, length_flatten_visual,
              length_visual_part] at hlen
            omega
          · rintro ⟨⟨vit, hsome, -⟩, -⟩
            cases hsome
      | some vit =>
          have hgrid := (grid_of_cachedPart hvit).2
          dsimp only
          rw [List.map_cons, List.flatten_cons]
          constructor
          · intro heq
            have hsame := List.append_inj heq (by
              rw [vit.length_tensor, length_visual_part, hgrid])
            exact ⟨⟨vit, rfl, hsame.1⟩, hsame.2⟩
          · rintro ⟨⟨vit', hsome, htensor⟩, hrest⟩
            cases hsome
            rw [htensor, hrest]

theorem mapM_embed (parts : List (VisionPart T)) :
    (parts.map VisionPart.preprocessed).mapM tower.embed =
      some (parts.map (fun part => tower.visual part.image part.grid)) := by
  induction parts with
  | nil => rfl
  | cons part parts ih =>
      have hpart : tower.embed part.preprocessed = some (tower.visual part.image part.grid) := by
        simp [VisionTower.embed, VisionPart.preprocessed, normalGrid_list part.normal]
      rw [List.map_cons, List.mapM_cons, hpart, ih]
      rfl

theorem results_preResult (item : VisionItem T) :
    item.preResult.results = item.parts.map VisionPart.preprocessed := by
  cases item with
  | one part => rfl
  | list first more => rfl

theorem parts_ne_nil (item : VisionItem T) : item.parts ≠ [] := by
  cases item with
  | one part => exact List.cons_ne_nil _ _
  | list first more => exact List.cons_ne_nil _ _

/-- The results of the merge are complete exactly when the cache has the own
embedding of each part. -/
theorem complete_mergedVits_iff (requestId : Int) (i : Nat) (items : List (VisionItem T)) :
    List.Forall₂ tower.Whole (items.map VisionItem.preResult)
        (mergedVits md5 cache requestId i items) ↔
      ∀ item ∈ items, ∀ part ∈ item.parts, Held md5 tower cache part := by
  induction items generalizing i with
  | nil => simp [mergedVits]
  | cons item rest ih =>
      rw [List.forall_mem_cons, List.map_cons, mergedVits, ← ih (i + 1)]
      cases hmerged : mergedOf md5 cache item with
      | none =>
          dsimp only
          constructor
          · intro hall
            have hlen := hall.length_eq
            have hle := (length_mergedVits_le md5 cache requestId (i + 1) rest).1
            rw [List.length_cons, List.length_map] at hlen
            omega
          · rintro ⟨hheld, -⟩
            obtain ⟨part, hpart⟩ := List.exists_mem_of_ne_nil _ (parts_ne_nil item)
            obtain ⟨vit, hvit, -⟩ := hheld part hpart
            rw [(mergedOf_eq_none_iff item).mp hmerged part hpart] at hvit
            cases hvit
      | some merged =>
          dsimp only
          rw [List.forall₂_cons, ← flatten_found_iff]
          apply and_congr_left'
          unfold VisionTower.Whole
          rw [results_preResult, mapM_embed]
          have hvitLen : item.preResult.vitLen = (item.parts.map (·.grid.rows)).sum := by
            unfold PreResult.vitLen
            rw [results_preResult, List.map_map]
            rfl
          have hlen := @length_flatten_visual T α tower item.parts
          have hfst := fst_of_mergedOf hmerged
          unfold foundParts at hfst
          constructor
          · rintro ⟨tensors, htensors, hembs, -⟩
            cases htensors
            rw [← hfst]
            exact Option.some.inj hembs
          · intro heq
            exact ⟨_, rfl, congrArg some (hfst.trans heq), hlen.trans hvitLen.symm⟩

end Complete

section Request

variable {E : Type} {rows : E → Nat} {maxTotalLen : Nat} {group : VitGroup E}

theorem fromHex_ok {digits : List Nat} (h : digits.length % 2 = 0) :
    ∃ bytes, fromHex digits = .ok bytes := by
  induction digits using fromHex.induct with
  | case1 => exact ⟨[], rfl⟩
  | case2 digit => cases h
  | case3 high low rest ih =>
      have hrest : rest.length % 2 = 0 := by
        rw [List.length_cons, List.length_cons] at h
        omega
      obtain ⟨bytes, hbytes⟩ := ih hrest
      refine ⟨(16 * high + low) :: bytes, ?_⟩
      rw [fromHex, hbytes]
      rfl

theorem length_vitLenHex (n : Nat) : (vitLenHex n).length % 2 = 0 := by
  unfold vitLenHex
  split
  case isTrue hodd =>
    rw [List.length_cons]
    omega
  case isFalse heven => omega

theorem keyBytes_ok {keys : List (List Nat)} {i : Nat} (heven : ∀ key ∈ keys, key.length % 2 = 0)
    (hget : ∀ j < keys.length, (group.get? ((i + j : Nat) : Int)).isSome = true) :
    ∃ bytes, keyBytes rows group i keys = .ok bytes := by
  induction keys generalizing i with
  | nil => exact ⟨[], rfl⟩
  | cons key rest ih =>
      obtain ⟨hkey, hrest⟩ := List.forall_mem_cons.mp heven
      obtain ⟨vit, hvit⟩ := Option.isSome_iff_exists.mp (hget 0 (Nat.succ_pos _))
      obtain ⟨more, hmore⟩ := @ih (i + 1) hrest fun j hj => by
        have hnext := hget (j + 1) (Nat.succ_lt_succ hj)
        rwa [Nat.add_right_comm, Nat.add_assoc]
      obtain ⟨bytes, hbytes⟩ := @fromHex_ok (key ++ vitLenHex (vit.len rows)) (by
        have hlen := length_vitLenHex (vit.len rows)
        rw [List.length_append]
        omega)
      refine ⟨bytes :: more, ?_⟩
      rw [Nat.add_zero] at hvit
      simp only [keyBytes, hvit, hbytes, hmore]
      rfl

theorem tokenLens_ok {kinds : List Nat} {i : Nat}
    (hget : ∀ j < kinds.length, (group.get? ((i + j : Nat) : Int)).isSome = true) :
    ∃ lens, tokenLens rows group i kinds = .ok lens := by
  induction kinds generalizing i with
  | nil => exact ⟨(0, 0), rfl⟩
  | cons kind rest ih =>
      obtain ⟨vit, hvit⟩ := Option.isSome_iff_exists.mp (hget 0 (Nat.succ_pos _))
      obtain ⟨lens, hlens⟩ := @ih (i + 1) fun j hj => by
        have hnext := hget (j + 1) (Nat.succ_lt_succ hj)
        rwa [Nat.add_right_comm, Nat.add_assoc]
      rw [Nat.add_zero] at hvit
      simp only [tokenLens, hvit, hlens, bind, Except.bind]
      split
      case isTrue => exact ⟨_, rfl⟩
      case isFalse => exact ⟨_, rfl⟩

/-- The prompt takes no embeddings of these lengths: its tokens are not one list,
or its placeholders are others. -/
def PromptRefuses (inputTokens : List (List Int)) (lens : List Nat) : Prop :=
  ∀ sourceTokens, inputTokens = [sourceTokens] → ∃ message,
    prepareMultimodalTokens (sourceTokens.map (fun token =>
      if token = replaceBos then imageBos else if token = replaceEos then imageEos else token))
      lens imageBos imageEos imageTarget = .error message

/-- With a key and a type for each of `n` entries, `get_as_request` only complains
about the tokens and the number of results. -/
theorem getAsRequest_error_iff {request : VLRequest} {n : Nat} (hkeys : request.keys.length = n)
    (htypes : request.mmTypes.length = n) (heven : ∀ key ∈ request.keys, key.length % 2 = 0)
    (hget : group.vits.length = n → ∀ j < n, (group.get? (j : Int)).isSome = true)
    (htokens : request.inputTokens ≠ []) :
    (∃ message, getAsRequest rows maxTotalLen request group = .error message) ↔
      group.vits.length ≠ n ∨ PromptRefuses request.inputTokens (group.vits.map (·.len rows)) := by
  unfold getAsRequest PromptRefuses
  split
  case h_1 hnil => exact absurd hnil htokens
  case h_2 sourceTokens hsource =>
    rw [hsource]
    dsimp only
    cases hprepare : prepareMultimodalTokens (sourceTokens.map (fun token =>
        if token = replaceBos then imageBos else if token = replaceEos then imageEos else token))
        (group.vits.map (·.len rows)) imageBos imageEos imageTarget with
    | error message =>
        constructor
        · intro _
          refine .inr fun tokens htokens => ?_
          cases htokens
          exact ⟨message, hprepare⟩
        · exact fun _ => ⟨message, rfl⟩
    | ok inputTokens =>
        have hno : ¬∀ tokens, [sourceTokens] = [tokens] → ∃ message,
            prepareMultimodalTokens (tokens.map (fun token =>
              if token = replaceBos then imageBos
              else if token = replaceEos then imageEos else token))
              (group.vits.map (·.len rows)) imageBos imageEos imageTarget = .error message := by
          intro h
          obtain ⟨message, hmessage⟩ := h sourceTokens rfl
          rw [hprepare] at hmessage
          cases hmessage
        rw [or_iff_left hno]
        dsimp only [bind, Except.bind]
        by_cases hlen : group.vits.length = n
        · have hall := hget hlen
          obtain ⟨vitKeys, hvitKeys⟩ := @keyBytes_ok E rows group request.keys 0 heven
            fun j hj => by
              rw [Nat.zero_add]
              exact hall j (hkeys ▸ hj)
          obtain ⟨lens, hlens⟩ := @tokenLens_ok E rows group request.mmTypes 0 fun j hj => by
            rw [Nat.zero_add]
            exact hall j (htypes ▸ hj)
          rw [if_neg (not_not.mpr (hkeys.trans hlen.symm)), hvitKeys]
          dsimp only
          rw [if_neg (not_not.mpr (htypes.trans hlen.symm)), hlens]
          constructor
          · rintro ⟨message, hmessage⟩
            cases hmessage
          · exact fun hne => absurd hlen hne
        · have hcount : request.keys.length ≠ group.vits.length := by omega
          rw [if_pos hcount]
          exact ⟨fun _ => hlen, fun _ => ⟨_, rfl⟩⟩
  case h_3 hnil hone =>
    constructor
    · exact fun _ => .inr fun tokens htokens' => absurd htokens' (hone tokens)
    · exact fun _ => ⟨_, rfl⟩

end Request

section Pass

variable {md5 : Md5Hex} {tower : VisionTower T α} {raises : Nat → Bool}
  {cache : Lru String (CachedVit α) capacity} {parts : List (VisionPart T)}

/-- The parts that the tower is asked for. -/
def missingParts (md5 : Md5Hex) (cache : Lru String (CachedVit α) capacity)
    (parts : List (VisionPart T)) : List (VisionPart T) :=
  parts.filter (fun part => (cachedPart md5 cache part).isNone)

theorem getVitFromCache_local (part : VisionPart T) :
    (localManager cache).getVitFromCache md5.hexdigest part.preprocessed =
      ({ key := md5.hexdigest part.url
         result := (cachedPart md5 cache part).map (·.tensor)
         gridThw := (cachedPart md5 cache part).map (·.grid.list)
         status := true
         source := .local }, localManager cache) := by
  have hurl : part.preprocessed.data.url.getD "" = part.url := rfl
  have hlocal : (localManager cache).localCache (md5.hexdigest part.url) =
      (cache.peek (md5.hexdigest part.url)).map CachedVit.entry := rfl
  have hretry := @CacheManager.retry_of_invalid α (localManager cache) rfl ⟨0, 0, 0⟩ false true
  unfold CacheManager.getVitFromCache getTorchFunc cachedPart
  simp only [hurl, Option.getD_none, Bool.false_and, Bool.false_eq_true, if_false, hretry, hlocal]
  cases cache.peek (md5.hexdigest part.url) with
  | none => rfl
  | some vit =>
      have hfits := fits_part vit part none
      unfold CachedVit.entry at hfits
      simp only [Option.map_some, Option.bind_some, CachedVit.entry, hfits]
      by_cases hgrid : vit.grid = part.grid
      · simp [Option.filter, hgrid]
      · simp [Option.filter, hgrid]

theorem lookMedia_local (media : NewMedia T) (part : VisionPart T) :
    lookMedia md5.hexdigest (fun manager _ _ _ => manager) (localManager cache, media)
        part.preprocessed =
      (localManager cache, if (cachedPart md5 cache part).isNone then
        addRequestInfo media part.preprocessed.data else media) := by
  unfold lookMedia
  simp only [getVitFromCache_local]
  cases cachedPart md5 cache part with
  | none => rfl
  | some vit => rfl

theorem foldl_lookMedia (media : NewMedia T) (parts : List (VisionPart T)) :
    (parts.map VisionPart.preprocessed).foldl
        (lookMedia md5.hexdigest (fun manager _ _ _ => manager)) (localManager cache, media) =
      (localManager cache, { media with
        imagesPre := media.imagesPre ++ (missingParts md5 cache parts).map (·.image)
        imagesUrl := media.imagesUrl ++ (missingParts md5 cache parts).map (·.url)
        gridThw := media.gridThw ++ (missingParts md5 cache parts).map (·.grid.list) }) := by
  induction parts generalizing media with
  | nil => simp [missingParts]
  | cons part parts ih =>
      rw [List.map_cons, List.foldl_cons, lookMedia_local, ih]
      unfold missingParts
      rw [List.filter_cons]
      split
      case isTrue =>
        cases hvideo : part.isVideo with
        | true => simp [addRequestInfo, VisionPart.preprocessed, hvideo]
        | false => simp [addRequestInfo, VisionPart.preprocessed, hvideo]
      case isFalse => rfl

/-- The tower's embedding of a part, as it goes to the cache. -/
def VisionPart.own (tower : VisionTower T α) (part : VisionPart T) : CachedVit α where
  tensor := tower.visual part.image part.grid
  grid := part.grid
  normal := part.normal
  length_tensor := tower.length_visual part.image part.grid part.normal

theorem forward_part (tower : VisionTower T α) (raises : Bool) (part : VisionPart T) :
    tower.forward raises part.image part.grid.list =
      if raises then .error .otherError else .ok (part.own tower) := by
  unfold VisionTower.forward
  rw [normalGrid_list part.normal]
  rfl

/-- The pass succeeds where the tower does not raise. -/
theorem towerPass_ok {i : Nat} (h : ∀ j < parts.length, raises (i + j) = false) :
    towerPass tower raises i (parts.map (·.image)) (parts.map (·.grid.list)) =
      .ok (parts.map (VisionPart.own tower)) := by
  induction parts generalizing i with
  | nil => rfl
  | cons part parts ih =>
      have hfirst : raises i = false := h 0 (Nat.succ_pos _)
      have hrest : ∀ j < parts.length, raises (i + 1 + j) = false := by
        intro j hj
        rw [Nat.add_right_comm, Nat.add_assoc]
        exact h (j + 1) (Nat.succ_lt_succ hj)
      rw [List.map_cons, List.map_cons, towerPass, forward_part, hfirst, ih hrest]
      rfl

theorem towerPass_error {i j : Nat} (hj : j < parts.length) (h : raises (i + j) = true) :
    ∃ status, towerPass tower raises i (parts.map (·.image)) (parts.map (·.grid.list)) =
      .error status := by
  induction parts generalizing i j with
  | nil => cases hj
  | cons part parts ih =>
      rw [List.map_cons, List.map_cons, towerPass, forward_part]
      cases hfirst : raises i with
      | true => exact ⟨.otherError, rfl⟩
      | false =>
          cases j with
          | zero =>
              rw [Nat.add_zero, hfirst] at h
              cases h
          | succ j =>
              rw [← Nat.add_assoc, Nat.add_right_comm] at h
              obtain ⟨status, hstatus⟩ := ih (Nat.lt_of_succ_lt_succ hj) h
              refine ⟨status, ?_⟩
              rw [if_neg Bool.false_ne_true]
              dsimp only
              rw [hstatus]
              rfl

/-- What the pass puts into the cache. -/
def passUses (md5 : Md5Hex) (tower : VisionTower T α) (parts : List (VisionPart T)) :
    List (Σ _ : String, CachedVit α) :=
  parts.map (fun part => ⟨md5.hexdigest part.url, part.own tower⟩)

theorem insertVitCache_parts (hcapacity : capacity ≠ 0) (parts : List (VisionPart T)) :
    insertVitCache md5 cache (parts.map (·.url)) (parts.map (VisionPart.own tower)) =
      some (cache.putAll (passUses md5 tower parts)) := by
  induction parts generalizing cache with
  | nil => rfl
  | cons part parts ih =>
      have hinsert : cache.insert? (md5.hexdigest part.url) (part.own tower) =
          some (cache.put (md5.hexdigest part.url) (part.own tower)) := if_neg hcapacity
      unfold insertVitCache at ih ⊢
      rw [List.map_cons, List.map_cons, List.zip_cons_cons, List.foldlM_cons, hinsert]
      exact ih

theorem insertVitCache_full (hcapacity : capacity = 0) (hparts : parts ≠ []) :
    insertVitCache md5 cache (parts.map (·.url)) (parts.map (VisionPart.own tower)) = none := by
  cases parts with
  | nil => exact absurd rfl hparts
  | cons part parts =>
      have hinsert : cache.insert? (md5.hexdigest part.url) (part.own tower) = none :=
        if_pos hcapacity
      unfold insertVitCache
      rw [List.map_cons, List.map_cons, List.zip_cons_cons, List.foldlM_cons, hinsert]
      rfl

/-- `images_info` for the parts that are missing. -/
def missingInfo (parts : List (VisionPart T)) : Option (NewImagesInfo T) :=
  if (parts.map (·.image)).length > 0 then
    some ⟨parts.map (·.image), parts.map (·.url), parts.map (·.grid.list)⟩
  else none

/-- The pass ends the request: the cache takes no entry, or the tower raises on one
of the parts that it is asked for. -/
def PassFails (capacity : Nat) (raises : Nat → Bool) (missing : List (VisionPart T)) : Prop :=
  missing ≠ [] ∧ capacity = 0 ∨ ∃ i < missing.length, raises i = true

theorem vitForward_ok (h : ¬PassFails capacity raises parts) :
    vitForward md5 tower raises cache (missingInfo parts) =
      .ok (cache.putAll (passUses md5 tower parts)) := by
  unfold PassFails at h
  push Not at h
  obtain ⟨hcapacity, hraises⟩ := h
  unfold missingInfo
  split
  case isTrue hpos =>
    rw [List.length_map] at hpos
    have hpass := @towerPass_ok T α tower raises parts 0 fun j hj => by
      rw [Nat.zero_add]
      exact Bool.eq_false_of_not_eq_true (hraises j hj)
    have hinsert := @insertVitCache_parts T α capacity md5 tower cache
      (hcapacity (List.ne_nil_of_length_pos hpos)) parts
    have hvalid : ¬((parts.map (·.image)).length < 1 ∨
        (parts.map (·.url)).length ≠ (parts.map (·.image)).length ∨
        (parts.map (·.grid.list)).length ≠ (parts.map (·.image)).length) := by
      simp only [List.length_map]
      omega
    unfold vitForward
    dsimp only
    rw [if_neg hvalid, hpass]
    dsimp only
    rw [hinsert]
  case isFalse hnil =>
    have hparts : parts = [] := by
      rw [List.length_map] at hnil
      exact List.length_eq_zero_iff.mp (by omega)
    subst hparts
    rfl

theorem vitForward_error (h : PassFails capacity raises parts) :
    ∃ status, vitForward md5 tower raises cache (missingInfo parts) = .error status := by
  have hparts : parts ≠ [] := by
    rcases h with ⟨hne, -⟩ | ⟨i, hi, -⟩
    · exact hne
    · exact List.ne_nil_of_length_pos (by omega)
  have hpos : (parts.map (·.image)).length > 0 := by
    rw [List.length_map]
    exact List.length_pos_of_ne_nil hparts
  have hvalid : ¬((parts.map (·.image)).length < 1 ∨
      (parts.map (·.url)).length ≠ (parts.map (·.image)).length ∨
      (parts.map (·.grid.list)).length ≠ (parts.map (·.image)).length) := by
    simp only [List.length_map] at hpos ⊢
    omega
  unfold missingInfo
  rw [if_pos hpos]
  unfold vitForward
  dsimp only
  rw [if_neg hvalid]
  by_cases hraises : ∃ i < parts.length, raises i = true
  · obtain ⟨i, hi, hraise⟩ := hraises
    obtain ⟨status, hstatus⟩ := @towerPass_error T α tower raises parts 0 i hi (by
      rwa [Nat.zero_add])
    rw [hstatus]
    exact ⟨status, rfl⟩
  · have hcapacity : capacity = 0 := by
      rcases h with ⟨-, hzero⟩ | hsome
      · exact hzero
      · exact absurd hsome hraises
    have hpass := @towerPass_ok T α tower raises parts 0 fun j hj => by
      rw [Nat.zero_add]
      exact Bool.eq_false_of_not_eq_true fun htrue => hraises ⟨j, hj, htrue⟩
    rw [hpass]
    dsimp only
    rw [insertVitCache_full hcapacity hparts]
    exact ⟨.otherError, rfl⟩

end Pass

section State

variable {md5 : Md5Hex} {tower : VisionTower T α} {cache : Lru String (CachedVit α) capacity}
  {others : List (Σ _ : String, CachedVit α)}

/-- The parts that are looked up before the pass; a request that was truncated to
nothing but text has none. -/
def lookedParts (truncateVisionLens : Nat) (items : List (VisionItem T)) : List (VisionPart T) :=
  if truncateVisionLens > 0 then (lastSlice truncateVisionLens items).flatMap VisionItem.parts
  else []

/-- The local cache when the merge starts: after the lookups, the pass over the
missing parts, and the other requests. -/
def cacheAtMerge (md5 : Md5Hex) (tower : VisionTower T α)
    (cache : Lru String (CachedVit α) capacity) (others : List (Σ _ : String, CachedVit α))
    (parts : List (VisionPart T)) : Lru String (CachedVit α) capacity :=
  ((lookAll md5 cache (parts.map VisionPart.preprocessed)).putAll
    (passUses md5 tower (missingParts md5 cache parts))).putAll others

/-- The entries that the lookups use. -/
def lookUses (md5 : Md5Hex) (cache : Lru String (CachedVit α) capacity)
    (parts : List (VisionPart T)) : List (Σ _ : String, CachedVit α) :=
  parts.filterMap fun part =>
    (cache.peek (md5.hexdigest part.url)).map fun vit => ⟨md5.hexdigest part.url, vit⟩

end State

section Law

variable {md5 : Md5Hex} {tower : VisionTower T α} {raises : Nat → Bool}
  {cache : Lru String (CachedVit α) capacity} {others : List (Σ _ : String, CachedVit α)}
  {prompt : MediaPrompt T} {inputTokens : Option (List (List Int))} {count : Nat}

/-- The request of the media that are kept. -/
def keptRequest (md5 : Md5Hex) (prompt : MediaPrompt T) (inputTokens : Option (List (List Int)))
    (count : Nat) : VLRequest where
  requestId := prompt.requestId
  inputTokens := inputTokens.getD []
  keys := ((lastSlice count (prompt.media.map Prod.fst)).map (fun item =>
    md5.hexdigest (keyText item))).map md5.digits
  mmTypes := (lastSlice count (prompt.media.map Prod.fst)).map mmType

theorem flatMap_results (items : List (VisionItem T)) :
    (items.map VisionItem.preResult).flatMap PreResult.results =
      (items.flatMap VisionItem.parts).map VisionPart.preprocessed := by
  induction items with
  | nil => rfl
  | cons item rest ih =>
      rw [List.map_cons, List.flatMap_cons, ih, results_preResult, List.flatMap_cons,
        List.map_append]

theorem newRequest_local (cache : Lru String (CachedVit α) capacity) (prompt : MediaPrompt T)
    (inputTokens : Option (List (List Int))) (count : Nat) :
    (newRequest md5.hexdigest (fun manager _ _ _ => manager) (localManager cache)
        prompt.vlPreResult prompt.request inputTokens count).1 =
          (lastSlice count prompt.items).map VisionItem.preResult ∧
      (newRequest md5.hexdigest (fun manager _ _ _ => manager) (localManager cache)
        prompt.vlPreResult prompt.request inputTokens count).2.1.imagesInfo =
          missingInfo (missingParts md5 cache (lookedParts count prompt.items)) := by
  have hkept := @newRequest_results T α md5.hexdigest (fun manager _ _ _ => manager)
    (localManager cache) prompt.vlPreResult prompt.request inputTokens count
  rw [MediaPrompt.vlPreResult, ← map_lastSlice] at hkept
  refine ⟨hkept, ?_⟩
  unfold newRequest lookedParts
  by_cases hpos : count > 0
  · have hresults : (lastSlice count prompt.vlPreResult).flatMap PreResult.results =
        ((lastSlice count prompt.items).flatMap VisionItem.parts).map VisionPart.preprocessed := by
      rw [MediaPrompt.vlPreResult, ← map_lastSlice, flatMap_results]
    simp only [if_pos hpos, hresults, foldl_lookMedia, NewMedia.empty, List.nil_append]
    rfl
  · simp only [if_neg hpos]
    rfl

theorem forwardMedia_ok
    (htruncate : truncateInput .qwen2Vl prompt.vlPreResult prompt.request =
      .ok (inputTokens, count)) (hcount : count ≤ prompt.items.length)
    (hpass : ¬PassFails capacity raises
      (missingParts md5 cache (lookedParts count prompt.items))) :
    forwardMedia md5 tower raises cache others prompt = .ok {
      kept := (lastSlice count prompt.items).map VisionItem.preResult
      request := keptRequest md5 prompt inputTokens count
      hieResults := (mergeVitResults md5 prompt.requestId
        (cacheAtMerge md5 tower cache others (lookedParts count prompt.items))
        ((lastSlice count prompt.items).map VisionItem.preResult)).1 } := by
  obtain ⟨hkept, hinfo⟩ := @newRequest_local T α capacity md5 cache prompt inputTokens count
  have hle : ¬count > prompt.vlPreResult.length := by
    rw [MediaPrompt.vlPreResult, List.length_map]
    omega
  have hlooked : (if count > 0 then
      lookAll md5 cache (((lastSlice count prompt.items).map VisionItem.preResult).flatMap
        PreResult.results) else cache) =
      lookAll md5 cache ((lookedParts count prompt.items).map VisionPart.preprocessed) := by
    unfold lookedParts
    rw [flatMap_results]
    split
    case isTrue => rfl
    case isFalse => rfl
  have hforward := @vitForward_ok T α capacity md5 tower raises
    (lookAll md5 cache ((lookedParts count prompt.items).map VisionPart.preprocessed)) _ hpass
  unfold forwardMedia
  rw [htruncate]
  dsimp only
  rw [if_neg hle, hkept, hinfo, hlooked, hforward]
  rfl

theorem forwardMedia_error
    (htruncate : truncateInput .qwen2Vl prompt.vlPreResult prompt.request =
      .ok (inputTokens, count))
    (h : prompt.items.length < count ∨ PassFails capacity raises
      (missingParts md5 cache (lookedParts count prompt.items))) :
    ∃ status, forwardMedia md5 tower raises cache others prompt = .error status := by
  obtain ⟨-, hinfo⟩ := @newRequest_local T α capacity md5 cache prompt inputTokens count
  unfold forwardMedia
  rw [htruncate]
  dsimp only
  split
  case isTrue => exact ⟨.requestError, rfl⟩
  case isFalse hle =>
    have hpass : PassFails capacity raises
        (missingParts md5 cache (lookedParts count prompt.items)) := by
      rw [MediaPrompt.vlPreResult, List.length_map] at hle
      exact h.resolve_left hle
    rw [hinfo]
    obtain ⟨status, hstatus⟩ := @vitForward_error T α capacity md5 tower raises
      (if count > 0 then lookAll md5 cache ((newRequest md5.hexdigest (fun manager _ _ _ => manager)
        (localManager cache) prompt.vlPreResult prompt.request inputTokens count).1.flatMap
          PreResult.results) else cache) _ hpass
    rw [hstatus]
    exact ⟨status, rfl⟩

/-- What has to hold for the request to end right: it ends early, or the cache has the
own embedding of each part when the merge starts, or `get_as_request` has tokens and
refuses what is found, since an entry has no part left or the prompt other
placeholders. -/
def StaysWhole (md5 : Md5Hex) (tower : VisionTower T α) (raises : Nat → Bool)
    (cache : Lru String (CachedVit α) capacity) (others : List (Σ _ : String, CachedVit α))
    (prompt : MediaPrompt T) : Prop :=
  match truncateInput .qwen2Vl prompt.vlPreResult prompt.request with
  | .error _ => True
  | .ok (inputTokens, count) =>
      let merge := cacheAtMerge md5 tower cache others (lookedParts count prompt.items)
      (prompt.items.length < count ∨ PassFails capacity raises
        (missingParts md5 cache (lookedParts count prompt.items))) ∨
      (∀ item ∈ lastSlice count prompt.items, ∀ part ∈ item.parts, Held md5 tower merge part) ∨
      inputTokens.getD [] ≠ [] ∧
        ((∃ item ∈ lastSlice count prompt.items, ∀ part ∈ item.parts,
            cachedPart md5 merge part = none) ∨
          PromptRefuses (inputTokens.getD [])
            ((lastSlice count prompt.items).map (cachedRows md5 merge)))

theorem isSome_get? {group : VitGroup (Tensor α)} {n : Nat}
    (h : group.vits.map (·.vitId) = (List.range' 0 n).map Int.ofNat) {j : Nat} (hj : j < n) :
    (group.get? (j : Int)).isSome = true := by
  have hmem : (j : Int) ∈ group.vits.map (·.vitId) := by
    rw [h]
    exact List.mem_map.mpr ⟨j, List.mem_range'_1.mpr ⟨Nat.zero_le j, by omega⟩, rfl⟩
  obtain ⟨vit, hvit, hid⟩ := List.mem_map.mp hmem
  unfold VitGroup.get?
  rw [List.find?_isSome]
  exact ⟨vit, hvit, by simpa using hid⟩

/-- `get_as_request` on what the merge found. -/
theorem endsWithError_iff {maxTotalLen : Nat} {merge : Lru String (CachedVit α) capacity} :
    (Handed.mk (T := T) ((lastSlice count prompt.items).map VisionItem.preResult)
        (keptRequest md5 prompt inputTokens count)
        (mergeVitResults md5 prompt.requestId merge
          ((lastSlice count prompt.items).map VisionItem.preResult)).1).EndsWithError maxTotalLen ↔
      inputTokens.getD [] ≠ [] ∧
        ((∃ item ∈ lastSlice count prompt.items, ∀ part ∈ item.parts,
            cachedPart md5 merge part = none) ∨
          PromptRefuses (inputTokens.getD [])
            ((lastSlice count prompt.items).map (cachedRows md5 merge))) := by
  have hmedia : (lastSlice count (prompt.media.map Prod.fst)).length =
      (lastSlice count prompt.items).length := by
    unfold MediaPrompt.items
    rw [← map_lastSlice, ← map_lastSlice, List.length_map, List.length_map]
  have hvits := vits_mergeVitResults md5 prompt.requestId merge (lastSlice count prompt.items)
  have hlength := (length_mergedVits_le md5 merge prompt.requestId 0
    (lastSlice count prompt.items)).2
  have hkeys : (keptRequest md5 prompt inputTokens count).keys.length =
      (lastSlice count prompt.items).length := by
    unfold keptRequest
    rw [List.length_map, List.length_map, hmedia]
  have htypes : (keptRequest md5 prompt inputTokens count).mmTypes.length =
      (lastSlice count prompt.items).length := by
    unfold keptRequest
    rw [List.length_map, hmedia]
  have heven : ∀ key ∈ (keptRequest md5 prompt inputTokens count).keys, key.length % 2 = 0 := by
    intro key hkey
    obtain ⟨text, htext, rfl⟩ := List.mem_map.mp hkey
    obtain ⟨item, -, rfl⟩ := List.mem_map.mp htext
    rw [md5.length_digits]
  have hget : (mergeVitResults md5 prompt.requestId merge
      ((lastSlice count prompt.items).map VisionItem.preResult)).1.vits.length =
        (lastSlice count prompt.items).length → ∀ j < (lastSlice count prompt.items).length,
      ((mergeVitResults md5 prompt.requestId merge
        ((lastSlice count prompt.items).map VisionItem.preResult)).1.get? (j : Int)).isSome =
          true := by
    intro hlen j hj
    rw [hvits] at hlen
    have hids := ids_mergedVits (hlength.mp hlen) prompt.requestId 0
    rw [← hvits] at hids
    exact isSome_get? hids hj
  apply and_congr_right
  intro htokens
  have hasked := @getAsRequest_error_iff (Tensor α) List.length maxTotalLen _ _ _ hkeys htypes heven
    hget htokens
  refine hasked.trans ?_
  rw [hvits]
  by_cases hall : ∀ item ∈ lastSlice count prompt.items, (mergedOf md5 merge item).isSome = true
  · have hnone : ¬∃ item ∈ lastSlice count prompt.items, ∀ part ∈ item.parts,
        cachedPart md5 merge part = none := by
      rintro ⟨item, hitem, hparts⟩
      have hsome := hall item hitem
      rw [(mergedOf_eq_none_iff item).mpr hparts] at hsome
      cases hsome
    rw [or_iff_right (not_not.mpr (hlength.mpr hall)), or_iff_right hnone, lens_mergedVits hall]
    rfl
  · have hfew := fun hlen => hall (hlength.mp hlen)
    push Not at hall
    obtain ⟨item, hitem, hnone⟩ := hall
    have hparts := (mergedOf_eq_none_iff item).mp (Option.not_isSome_iff_eq_none.mp hnone)
    exact iff_of_true (.inl hfew) (.inl ⟨item, hitem, hparts⟩)

/-- A request ends with an error or with complete embeddings exactly when it ends
early, the cache still has what it needs, or `get_as_request` refuses the rest. -/
theorem mergesWhole_iff (maxTotalLen : Nat) (md5 : Md5Hex) (tower : VisionTower T α)
    (raises : Nat → Bool) (cache : Lru String (CachedVit α) capacity)
    (others : List (Σ _ : String, CachedVit α)) (prompt : MediaPrompt T) :
    MergesWhole maxTotalLen tower (forwardMedia md5 tower raises cache others prompt) ↔
      StaysWhole md5 tower raises cache others prompt := by
  unfold StaysWhole
  cases htruncate : truncateInput .qwen2Vl prompt.vlPreResult prompt.request with
  | error cause =>
      unfold forwardMedia
      rw [htruncate]
      exact Iff.rfl
  | ok truncated =>
      obtain ⟨inputTokens, count⟩ := truncated
      dsimp only
      by_cases hearly : prompt.items.length < count ∨ PassFails capacity raises
          (missingParts md5 cache (lookedParts count prompt.items))
      · obtain ⟨status, hstatus⟩ := @forwardMedia_error T α capacity md5 tower raises cache others
          prompt inputTokens count htruncate hearly
        rw [hstatus]
        exact iff_of_true trivial (.inl hearly)
      · obtain ⟨hcount, hpass⟩ := not_or.mp hearly
        rw [forwardMedia_ok htruncate (not_lt.mp hcount) hpass, or_iff_right hearly]
        unfold MergesWhole
        dsimp only
        rw [endsWithError_iff, or_comm]
        apply or_congr_left
        unfold Handed.Complete
        rw [vits_mergeVitResults]
        exact complete_mergedVits_iff _ _ _

end Law

/-! ## A cache for one pair -/

/-- Repeats a number for each row. -/
def numberTower : VisionTower Nat Nat where
  visual := fun image grid => List.replicate grid.rows [image]
  length_visual := fun _ _ _ => List.length_replicate

/-- Stands for md5; all digests read alike. -/
def plainMd5 : Md5Hex where
  hexdigest := id
  digits := fun _ => List.replicate 32 0
  length_digits := fun _ => List.length_replicate

theorem normal_oneRow : Grid.Normal { t := 1, h := 2, w := 2 } := by decide

/-- A pair of frames with one row. -/
def pairPart (url : String) (image : Nat) : VisionPart Nat where
  isVideo := true
  url
  image
  grid := { t := 1, h := 2, w := 2 }
  normal := normal_oneRow

/-- A video of two pairs. -/
def twoPairs : MediaPrompt Nat where
  requestId := 1
  inputTokens := some [[151652, 151653]]
  truncateLengths := none
  maxInputLength := 100
  media := [(⟨.video, .list ["a", "b", "c", "d"], none, some 3136, some 1003520⟩,
    .list (pairPart "ab" 1) [pairPart "cd" 2])]

/-- The rows that were announced, and those that are handed over. -/
def Handed.rows (handed : Handed T α) : List Nat × List Nat :=
  (handed.kept.map PreResult.vitLen, handed.hieResults.vits.map (·.len List.length))

theorem Handed.Complete.rows_eq {tower : VisionTower T α} {handed : Handed T α}
    (h : handed.Complete tower) : handed.rows.1 = handed.rows.2 := by
  have hall : List.Forall₂ (fun data vit => PreResult.vitLen data = vit.len List.length)
      handed.kept handed.hieResults.vits := by
    refine h.imp ?_
    rintro data vit ⟨tensors, -, hembs, hlen⟩
    unfold Vit.len
    rw [hembs]
    exact hlen.symm
  have heq : List.Forall₂ Eq (handed.kept.map PreResult.vitLen)
      (handed.hieResults.vits.map (·.len List.length)) := by
    rwa [List.forall₂_map_left_iff, List.forall₂_map_right_iff]
  exact List.forall₂_eq_eq_eq ▸ heq

/-- The second pair takes the place of the first one, and one row of two is handed
over. -/
theorem merge_drops_pair : ¬MergesWhole 32000 numberTower (forwardMedia plainMd5 numberTower
    (fun _ => false) (Lru.empty String (CachedVit Nat) 1) [] twoPairs) := by
  have hrows : (forwardMedia plainMd5 numberTower (fun _ => false)
      (Lru.empty String (CachedVit Nat) 1) [] twoPairs).toOption.map Handed.rows =
        some ([2], [1]) := by
    decide +kernel
  have haccepted : (forwardMedia plainMd5 numberTower (fun _ => false)
      (Lru.empty String (CachedVit Nat) 1) [] twoPairs).toOption.map (fun handed =>
        (getAsRequest List.length 32000 handed.request handed.hieResults).toOption.isSome) =
          some true := by
    decide +kernel
  unfold MergesWhole
  cases hout : forwardMedia plainMd5 numberTower (fun _ => false)
      (Lru.empty String (CachedVit Nat) 1) [] twoPairs with
  | error status =>
      rw [hout] at hrows
      cases hrows
  | ok handed =>
      rw [hout] at hrows haccepted
      rintro (⟨-, message, herror⟩ | hcomplete)
      · have hsome : (getAsRequest List.length 32000 handed.request
            handed.hieResults).toOption.isSome = true := Option.some.inj haccepted
        rw [herror] at hsome
        cases hsome
      · have heq := hcomplete.rows_eq
        rw [Option.some.inj hrows] at heq
        revert heq
        decide

end DashInfer.Vision
