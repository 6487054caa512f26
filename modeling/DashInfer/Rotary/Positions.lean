import Mathlib
import DashInfer.Lib.Fallible
import DashInfer.Rotary.RotaryOp
import DashInfer.Vision.Mrope

/-!
The positions with which a request is rotated, in its prefill and while it is
decoded. The prefill launches a block for every token of the prompt, and only
the rows of the tokens behind the cached prefix are there.
-/

namespace DashInfer.Rotary

open Lib Vision
open WeightFile (Failure)

/-- A request to prefill in one pass; the positions of a multimodal prompt come
axis by axis. -/
structure RotaryRequest where
  inputLen : Nat
  prefixLen : Nat
  positions : Option (List (List Int))
deriving DecidableEq, Repr

/-- `buildGenContext`. -/
def RotaryRequest.genCtx (request : RotaryRequest) : GenCtx where
  inputLen := request.inputLen
  prefixLen := request.prefixLen
  step := 0
  realInputLen := request.inputLen
  extraEmbedding :=
    match request.positions with
    | none => []
    | some axes => [("positions", [axes.flatten])]

/-- A multimodal prompt has the positions built for its tokens, and the last
token is text. -/
def RotaryRequest.EndsInText (request : RotaryRequest) : Prop :=
  ∀ axes, request.positions = some axes → ∃ tokens imageTokenId visionGrids p last,
    buildMropePositions tokens imageTokenId visionGrids = .ok p ∧
    tokens.length = request.inputLen ∧ tokens.getLast? = some last ∧ last ≠ imageTokenId ∧
    axes = [p.time.map (↑), p.height.map (↑), p.width.map (↑)]

namespace RotaryOp

variable (op : RotaryOp) (request : RotaryRequest)

/-- A model the kernel is launched for: its heads have a size, and the sections
divide the frequencies. -/
structure Supported : Prop where
  aligned : op.sizePerHead % 8 = 0
  heads : 0 < op.sizePerHead ∧ 0 < op.numHeads
  sections : op.sectionWidths = [] ∨ op.sectionWidths.sum = op.sizePerHead / 2

/-- There is something left to prefill, and where the model has sections, every
axis has a coordinate for every token. -/
structure Takes : Prop where
  cached : request.prefixLen < request.inputLen
  axes : op.mropeSize ≠ 0 → ∀ axes, request.positions = some axes →
    axes.length = op.mropeSize ∧ ∀ coordinates ∈ axes, coordinates.length = request.inputLen

/-- The position of the token at an index of the prompt, for a frequency: the
index, or in a multimodal prompt the coordinate on the axis whose section the
frequency belongs to. -/
def PositionAt (j x : Nat) (p : Int) : Prop :=
  match request.positions with
  | none => p = j
  | some axes =>
      if op.mropeSize = 0 then p = j
      else ∃ axis coordinates, axes[axis]? = some coordinates ∧
        (op.sectionWidths.take axis).sum ≤ x ∧ x < (op.sectionWidths.take (axis + 1)).sum ∧
        coordinates[j]? = some p

/-- Exactly one block works on the row of the token, with its position. -/
def TokenRotated (ℓ : RotaryLaunch) (j : Nat) : Prop :=
  ∃ b < ℓ.blocks, ℓ.rowOffset b = (j - request.prefixLen) * op.qkvStride ∧ ℓ.pos b = j ∧
    (∀ x < op.sizePerHead / 2, op.PositionAt request j x (ℓ.realPos b x)) ∧
    ∀ b' < ℓ.blocks, ℓ.rowOffset b' = (j - request.prefixLen) * op.qkvStride → b' = b

/-- The new tokens are rotated, on their rows and on no others. -/
structure RunRotates (run : RotaryRun) : Prop where
  parts : run.launches.map RotaryLaunch.partOffset =
    [0, op.hiddenSize, op.hiddenSize + op.kvStride]
  tokens : ∀ ℓ ∈ run.launches, ∀ j, request.prefixLen ≤ j → j < request.inputLen →
    op.TokenRotated request ℓ j
  rows : ∀ ℓ ∈ run.launches, ∀ b < ℓ.blocks,
    ∃ row < request.inputLen - request.prefixLen, ℓ.rowOffset b = row * op.qkvStride
  inside : ∀ ℓ ∈ run.launches, ℓ.partOffset + ℓ.numHeads * ℓ.sizePerHead ≤ op.qkvStride
  fits : run.copied ≤ run.room

/-- The coordinates of the prompt. -/
def coordinates : Set Int :=
  match request.positions with
  | none => {c | ∃ j < request.inputLen, c = (j : Int)}
  | some axes =>
      if op.mropeSize = 0 then {c | ∃ j < request.inputLen, c = (j : Int)}
      else {c | ∃ coordinates ∈ axes, c ∈ coordinates}

/-- A request after some decoding steps. -/
def afterDecodes : Nat → GenCtx → GenCtx
  | 0, genCtx => genCtx
  | g + 1, genCtx => { afterDecodes g genCtx with step := (afterDecodes g genCtx).step + 1 }

/-- Every generated token gets the position that follows, in whatever batch. -/
def DecodesInOrder (layers : Nat) (genCtx : GenCtx) : Prop :=
  ∀ largest, IsGreatest (op.coordinates request) largest → ∀ (g : Nat) (batch : List GenCtx) (i : Nat),
    batch[i]? = some (afterDecodes g genCtx) →
    ∀ run ∈ (op.decodeStep layers batch).1, ∀ ℓ ∈ run.launches,
      ℓ.pos i = 1 + largest + g ∧ ∀ x, ℓ.realPos i x = 1 + largest + g

/-- The prefill rotates the new tokens as their positions say, and decoding goes
on from there. -/
def RotatesPrompt (layers : Nat) : Prop :=
  ∃ runs genCtx, op.runDecoderContext layers request.genCtx = .ok (runs, genCtx) ∧
    (∀ run ∈ runs, op.RunRotates request run) ∧
    (request.EndsInText → op.DecodesInOrder request layers genCtx)

end RotaryOp

/-- An element of rows of one length, in the rows one after another. -/
theorem getD_flatten {rows : List (List Int)} {n : Nat} (h : ∀ row ∈ rows, row.length = n) {k j : Nat}
    {row : List Int} (hrow : rows[k]? = some row) (hj : j < n) :
    row[j]? = some (rows.flatten.getD (j + k * n) 0) := by
  have hlength : j < row.length := by
    rw [h row (List.mem_of_getElem? hrow)]
    exact hj
  have hslice := getElem?_slice rows.flatten (k * n) n j
  rw [slice_flatten h hrow, if_pos hj, List.getElem?_eq_getElem hlength] at hslice
  rw [List.getElem?_eq_getElem hlength, List.getD_eq_getElem?_getD, Nat.add_comm, ← hslice,
    Option.getD_some]

section Sections

variable {widths : List Nat}

theorem getD_scanl {s : Nat} (h : s ≤ widths.length) :
    (widths.scanl (· + ·) 0).getD s 0 = (widths.take s).sum := by
  rw [List.getD_eq_getElem?_getD, List.getElem?_scanl, if_pos h, Option.getD_some,
    List.sum_eq_foldl]

/-- A number below the sum lies in one of the sections. -/
theorem exists_section {x : Nat} (h : x < widths.sum) : ∃ s < widths.length,
    (widths.take s).sum ≤ x ∧ x < (widths.take (s + 1)).sum := by
  induction widths generalizing x with
  | nil => cases h
  | cons width rest ih =>
      by_cases hx : x < width
      · refine ⟨0, Nat.succ_pos _, Nat.zero_le _, ?_⟩
        simpa using hx
      · rw [List.sum_cons] at h
        obtain ⟨s, hs, hstart, hend⟩ := ih (Nat.sub_lt_left_of_lt_add (not_lt.mp hx) h)
        refine ⟨s + 1, Nat.succ_lt_succ hs, ?_, ?_⟩
        · rw [List.take_succ_cons, List.sum_cons]
          omega
        · rw [List.take_succ_cons, List.sum_cons]
          omega

end Sections

/-- A launch on the rows of a prompt whose steps start at a position. -/
structure RotaryLaunch.OnPrompt (op : RotaryOp) (seqLen start : Nat) (positions : Option (List Int))
    (ℓ : RotaryLaunch) : Prop where
  batchSize : ℓ.batchSize = 1
  seqLen : ℓ.seqLen = seqLen
  stepList : ℓ.stepList = [(start : Int)]
  stride : ℓ.qkvStride = op.qkvStride
  positions : ℓ.positions = positions
  mropeSize : ℓ.mropeSize = op.mropeSize
  mropeSection : ℓ.mropeSection = op.mropeSection

namespace RotaryLaunch.OnPrompt

variable {op : RotaryOp} {seqLen start : Nat} {positions : Option (List Int)} {ℓ : RotaryLaunch}
  {b x : Nat}

theorem blocks (h : ℓ.OnPrompt op seqLen start positions) : ℓ.blocks = seqLen := by
  unfold RotaryLaunch.blocks
  rw [h.batchSize, h.seqLen, Nat.one_mul]

theorem rowOffset (h : ℓ.OnPrompt op seqLen start positions) :
    ℓ.rowOffset b = b * op.qkvStride % 2 ^ 32 := by
  unfold RotaryLaunch.rowOffset
  rw [h.stride]

theorem pos (h : ℓ.OnPrompt op seqLen start positions) (hb : b < seqLen) :
    ℓ.pos b = (b : Int) + start := by
  unfold RotaryLaunch.pos
  rw [h.seqLen, h.stepList, Nat.mod_eq_of_lt hb, Nat.div_eq_of_lt hb]
  rfl

theorem section? (h : ℓ.OnPrompt op seqLen start positions) (hx : x < op.sectionWidths.sum) :
    ∃ s < op.mropeSize, ℓ.section? x = some s ∧ (op.sectionWidths.take s).sum ≤ x ∧
      x < (op.sectionWidths.take (s + 1)).sum := by
  have hholds : ∀ s < op.mropeSize,
      (ℓ.mropeSection.getD s 0 ≤ x && x < ℓ.mropeSection.getD (s + 1) 0) = true ↔
        (op.sectionWidths.take s).sum ≤ x ∧ x < (op.sectionWidths.take (s + 1)).sum := by
    intro s hs
    rw [h.mropeSection, RotaryOp.mropeSection, getD_scanl hs.le, getD_scanl hs]
    simp
  obtain ⟨s, hs, hstart⟩ := exists_section hx
  cases hfind : ℓ.section? x with
  | none =>
      unfold RotaryLaunch.section? at hfind
      rw [h.mropeSize, List.find?_eq_none] at hfind
      exact absurd ((hholds s hs).mpr hstart) (hfind s (List.mem_range.mpr hs))
  | some found =>
      unfold RotaryLaunch.section? at hfind
      rw [h.mropeSize] at hfind
      have hfound := List.mem_range.mp (List.mem_of_find?_eq_some hfind)
      have hfits := List.find?_some hfind
      exact ⟨found, hfound, rfl, (hholds found hfound).mp hfits⟩

end RotaryLaunch.OnPrompt

namespace RotaryOp

variable {op : RotaryOp} {request : RotaryRequest}

/-- The positions that the prefill hands to the kernel. -/
def posTensor (op : RotaryOp) (request : RotaryRequest) : Option (List Int) :=
  match request.positions with
  | none => none
  | some axes => if op.mropeSize = 0 then none else some axes.flatten

/-- What every layer does in the prefill. -/
def prefillRun (op : RotaryOp) (request : RotaryRequest) : RotaryRun where
  copied := ((op.posTensor request).getD []).length
  room := op.mropeSize * (request.inputLen - request.prefixLen)
  launches := op.runRotary request.inputLen 1 [(request.prefixLen : Int)] (op.posTensor request)

/-- `real_input_len` behind the prefill. -/
def prefillLen (op : RotaryOp) (request : RotaryRequest) : Int :=
  match op.posTensor request with
  | none => request.inputLen
  | some positions => positions.getD (request.inputLen - 1) 0 + 1

section Layers

variable {shaped : Shaped} {rotaryStep : Option (List Int)} {genCtx : GenCtx}

/-- The request inside the prefill. -/
def during (request : RotaryRequest) (realInputLen : Int) : GenCtx :=
  { request.genCtx with step := request.prefixLen, realInputLen }

theorem runContext_eq (htakes : op.Takes request)
    (hstep : rotaryStep.getD [(request.prefixLen : Int)] = [(request.prefixLen : Int)])
    {realInputLen : Int} (hlen : op.posTensor request = none → realInputLen = request.inputLen) :
    op.runContext ⟨1, request.inputLen - request.prefixLen,
        op.mropeSize * (request.inputLen - request.prefixLen)⟩ rotaryStep
        (during request realInputLen) =
      .ok (op.prefillRun request, [(request.prefixLen : Int)],
        during request (op.prefillLen request)) := by
  have hrows : request.inputLen - request.prefixLen + request.prefixLen = request.inputLen :=
    Nat.sub_add_cancel htakes.cached.le
  unfold runContext during RotaryRequest.genCtx
  dsimp only
  rw [if_neg (not_not_intro rfl), hrows, hstep]
  unfold prefillRun prefillLen
  unfold posTensor at hlen ⊢
  cases hpositions : request.positions with
  | none =>
      rw [hpositions] at hlen
      rw [if_pos (.inl rfl), hlen rfl]
      rfl
  | some axes =>
      rw [hpositions] at hlen
      dsimp only at hlen ⊢
      by_cases hsize : op.mropeSize = 0
      · rw [if_pos hsize] at hlen
        rw [if_pos (.inr hsize), hlen rfl, if_pos hsize]
        rfl
      · have hnonempty : ¬([("positions", [axes.flatten])] = [] ∨ op.mropeSize = 0) := by
          rintro (hnil | hzero)
          · cases hnil
          · exact hsize hzero
        rw [if_neg hnonempty, if_neg hsize]
        rfl

/-- Every layer does the same. -/
theorem contextLayers_eq (htakes : op.Takes request) (layers : Nat)
    (hstep : rotaryStep.getD [(request.prefixLen : Int)] = [(request.prefixLen : Int)])
    {realInputLen : Int} (hlen : op.posTensor request = none → realInputLen = request.inputLen) :
    op.contextLayers ⟨1, request.inputLen - request.prefixLen,
        op.mropeSize * (request.inputLen - request.prefixLen)⟩ layers rotaryStep
        (during request realInputLen) =
      .ok (List.replicate layers (op.prefillRun request),
        during request (if layers = 0 then realInputLen else op.prefillLen request)) := by
  induction layers generalizing rotaryStep realInputLen with
  | zero => rfl
  | succ layers ih =>
      have hprefill : op.posTensor request = none → op.prefillLen request = request.inputLen := by
        intro hnone
        unfold prefillLen
        rw [hnone]
      rw [contextLayers, runContext_eq htakes hstep hlen]
      change (op.contextLayers _ layers (some [(request.prefixLen : Int)]) _ >>= _) = _
      rw [ih rfl hprefill, ite_self]
      rfl

theorem runDecoderContext_eq (htakes : op.Takes request) {layers : Nat} (hlayers : 0 < layers) :
    op.runDecoderContext layers request.genCtx =
      .ok (List.replicate layers (op.prefillRun request),
        { during request (op.prefillLen request) with step := request.inputLen }) := by
  have hrows : ((request.inputLen - request.prefixLen : Nat) : Int) + request.prefixLen =
      request.inputLen := by
    have hcached := htakes.cached
    omega
  have hlayer : op.contextLayers ⟨1, request.inputLen - request.prefixLen,
        op.mropeSize * (request.inputLen - request.prefixLen)⟩ layers none
        (during request request.inputLen) =
      .ok (List.replicate layers (op.prefillRun request),
        during request (if layers = 0 then (request.inputLen : Int) else op.prefillLen request)) :=
    contextLayers_eq htakes layers rfl fun _ => rfl
  rw [if_neg hlayers.ne'] at hlayer
  unfold runDecoderContext reshape
  dsimp only
  rw [if_neg (not_not_intro rfl)]
  change (op.contextLayers _ layers none (during request request.inputLen) >>= _) = _
  change op.contextLayers _ layers none (during request request.inputLen) = _ at hlayer
  rw [RotaryRequest.genCtx, hlayer]
  change Except.ok (_, ({ during request (op.prefillLen request) with
    step := ((request.inputLen - request.prefixLen : Nat) : Int) + request.prefixLen } : GenCtx)) = _
  rw [hrows]

end Layers

section Prefill

theorem onPrompt_of_mem {seqLen start : Nat} {positions : Option (List Int)} {ℓ : RotaryLaunch}
    (h : ℓ ∈ op.runRotary seqLen 1 [(start : Int)] positions) :
    ℓ.OnPrompt op seqLen start positions ∧ ℓ.partOffset + ℓ.numHeads * ℓ.sizePerHead ≤ op.qkvStride := by
  unfold runRotary at h
  dsimp only at h
  split at h
  case isTrue => cases h
  case isFalse =>
    unfold qkvStride hiddenSize kvStride
    simp only [List.mem_cons, List.not_mem_nil, or_false] at h
    rcases h with rfl | rfl | rfl
    · refine ⟨⟨rfl, rfl, rfl, rfl, rfl, rfl, rfl⟩, ?_⟩
      dsimp only
      rw [Nat.zero_add, Nat.mul_comm]
      exact Nat.le_add_right _ _
    · refine ⟨⟨rfl, rfl, rfl, rfl, rfl, rfl, rfl⟩, ?_⟩
      dsimp only
      rw [hiddenSize, Nat.mul_comm op.groupNum]
      omega
    · refine ⟨⟨rfl, rfl, rfl, rfl, rfl, rfl, rfl⟩, ?_⟩
      dsimp only
      rw [hiddenSize, kvStride, Nat.mul_comm op.groupNum]
      omega

theorem parts_runRotary (h : op.Supported) (seqLen runBatchSize : Nat) (runStep : List Int)
    (positions : Option (List Int)) :
    (op.runRotary seqLen runBatchSize runStep positions).map RotaryLaunch.partOffset =
      [0, op.hiddenSize, op.hiddenSize + op.kvStride] := by
  unfold runRotary
  dsimp only
  rw [if_neg (not_not_intro h.aligned)]
  rfl

theorem stride_pos (h : op.Supported) : 0 < op.qkvStride :=
  Nat.add_pos_left (Nat.mul_pos h.heads.1 h.heads.2) _

/-- With every block on a row of its own there are no more blocks than rows. -/
theorem unprefixed_of_rotates (htakes : op.Takes request)
    (hrun : op.RunRotates request (op.prefillRun request)) :
    request.prefixLen = 0 ∧ (request.inputLen - 1) * op.qkvStride < 2 ^ 32 := by
  have hcached := htakes.cached
  obtain ⟨ℓ, hℓ⟩ : ∃ ℓ, ℓ ∈ (op.prefillRun request).launches := by
    cases hlaunches : (op.prefillRun request).launches with
    | nil =>
        have hparts := hrun.parts
        rw [hlaunches] at hparts
        cases hparts
    | cons ℓ rest => exact ⟨ℓ, List.mem_cons_self⟩
  have hprompt := (onPrompt_of_mem hℓ).1
  have htokens := hrun.tokens ℓ hℓ
  have hrows := hrun.rows ℓ hℓ
  rw [hprompt.blocks] at hrows
  choose! row hrow hoffset using hrows
  have hzero : request.prefixLen = 0 := by
    have hinjective : Function.Injective fun b : Fin request.inputLen =>
        (⟨row b, hrow b b.2⟩ : Fin (request.inputLen - request.prefixLen)) := by
      intro b b' heq
      have hsame : row b = row b' := Fin.mk.inj heq
      have hlt := hrow b b.2
      obtain ⟨b₀, -, -, -, -, hunique⟩ := htokens (request.prefixLen + row b) (Nat.le_add_right _ _)
        (by omega)
      rw [Nat.add_sub_cancel_left, hprompt.blocks] at hunique
      have hb := hunique b b.2 (hoffset b b.2)
      have hb' := hunique b' b'.2 ((hoffset b' b'.2).trans (by rw [hsame]))
      exact Fin.ext (hb.trans hb'.symm)
    have hle := Fintype.card_le_of_injective _ hinjective
    rw [Fintype.card_fin, Fintype.card_fin] at hle
    omega
  refine ⟨hzero, ?_⟩
  obtain ⟨b, -, hlast, -⟩ := htokens (request.inputLen - 1) (by omega) (by omega)
  rw [hzero, Nat.sub_zero, hprompt.rowOffset] at hlast
  rw [← hlast]
  exact Nat.mod_lt _ (Nat.two_pow_pos 32)

/-- The position of a block's frequency on a prompt without prefix. -/
theorem positionAt_realPos (h : op.Supported) (htakes : op.Takes request) {ℓ : RotaryLaunch}
    (hprompt : ℓ.OnPrompt op request.inputLen 0 (op.posTensor request)) {j : Nat}
    (hj : j < request.inputLen) {x : Nat} (hx : x < op.sizePerHead / 2) :
    op.PositionAt request j x (ℓ.realPos j x) := by
  have hpos : ℓ.pos j = j := (hprompt.pos hj).trans (Int.add_zero _)
  unfold PositionAt RotaryLaunch.realPos
  rw [hprompt.positions]
  unfold posTensor
  cases hpositions : request.positions with
  | none => exact hpos
  | some axes =>
      dsimp only
      by_cases hsize : op.mropeSize = 0
      · rw [if_pos hsize, if_pos hsize]
        exact hpos
      · rw [if_neg hsize, if_neg hsize]
        obtain ⟨haxes, hlengths⟩ := htakes.axes hsize axes hpositions
        have hsum : x < op.sectionWidths.sum := by
          rcases h.sections with hnil | hsum
          · exact absurd (congrArg List.length hnil) hsize
          · rw [hsum]
            exact hx
        obtain ⟨s, hs, hsection, hstart, hend⟩ := hprompt.section? hsum
        rw [hsection, hpos, hprompt.seqLen]
        have hget := List.getElem?_eq_getElem (l := axes) (haxes ▸ hs)
        refine ⟨s, _, hget, hstart, hend, ?_⟩
        rw [getD_flatten hlengths hget hj]
        norm_cast

theorem rotates_of_unprefixed (h : op.Supported) (htakes : op.Takes request)
    (hzero : request.prefixLen = 0) (hsmall : (request.inputLen - 1) * op.qkvStride < 2 ^ 32) :
    op.RunRotates request (op.prefillRun request) := by
  have hoffset : ∀ b < request.inputLen, b * op.qkvStride % 2 ^ 32 = b * op.qkvStride := by
    intro b hb
    apply Nat.mod_eq_of_lt
    exact (Nat.mul_le_mul_right _ (Nat.le_sub_one_of_lt hb)).trans_lt hsmall
  constructor
  · exact parts_runRotary h _ _ _ _
  · intro ℓ hℓ j _ hj
    have hprompt := (onPrompt_of_mem hℓ).1
    rw [hzero] at hprompt
    refine ⟨j, ?_, ?_, ?_, ?_, ?_⟩
    · rw [hprompt.blocks]
      exact hj
    · rw [hprompt.rowOffset, hzero, Nat.sub_zero, hoffset j hj]
    · exact (hprompt.pos hj).trans (Int.add_zero _)
    · exact fun x hx => positionAt_realPos h htakes hprompt hj hx
    · intro b hb hrow
      rw [hprompt.blocks] at hb
      rw [hprompt.rowOffset, hzero, Nat.sub_zero, hoffset b hb] at hrow
      exact Nat.eq_of_mul_eq_mul_right (stride_pos h) hrow
  · intro ℓ hℓ b hb
    have hprompt := (onPrompt_of_mem hℓ).1
    rw [hprompt.blocks] at hb
    refine ⟨b, ?_, ?_⟩
    · rw [hzero]
      exact hb
    · rw [hprompt.rowOffset, hoffset b hb]
  · exact fun ℓ hℓ => (onPrompt_of_mem hℓ).2
  · unfold prefillRun posTensor
    dsimp only
    rw [hzero, Nat.sub_zero]
    cases hpositions : request.positions with
    | none => exact Nat.zero_le _
    | some axes =>
        dsimp only
        by_cases hsize : op.mropeSize = 0
        · rw [if_pos hsize]
          exact Nat.zero_le _
        · obtain ⟨haxes, hlengths⟩ := htakes.axes hsize axes hpositions
          rw [if_neg hsize, Option.getD_some, length_flatten_uniform hlengths, haxes]

end Prefill

section Decode

variable {genCtx : GenCtx}

theorem afterDecodes_eq (g : Nat) :
    afterDecodes g genCtx = { genCtx with step := genCtx.step + g } := by
  induction g with
  | zero =>
      rw [afterDecodes, Nat.cast_zero, Int.add_zero]
  | succ g ih =>
      rw [afterDecodes, ih, Nat.cast_succ, Int.add_assoc]

/-- The layers of a decoding step all take the steps of the batch. -/
theorem stepList_of_decoder {shaped : Shaped} (hshaped : shaped.seqLen = 1) {batch : List GenCtx}
    {layers : Nat} {rotaryStep : Option (List Int)}
    (hstep : rotaryStep.getD (batch.map GenCtx.runStep) = batch.map GenCtx.runStep)
    {run : RotaryRun} (hrun : run ∈ op.decoderLayers shaped batch layers rotaryStep)
    {ℓ : RotaryLaunch} (hℓ : ℓ ∈ run.launches) :
    ℓ.seqLen = 1 ∧ ℓ.positions = none ∧ ℓ.stepList = batch.map GenCtx.runStep := by
  induction layers generalizing rotaryStep with
  | zero => cases hrun
  | succ layers ih =>
      rw [decoderLayers] at hrun
      rcases List.mem_cons.mp hrun with rfl | hrest
      · unfold runDecoder runRotary at hℓ
        dsimp only at hℓ
        rw [hstep, hshaped] at hℓ
        split at hℓ
        case isTrue => cases hℓ
        case isFalse =>
          simp only [List.mem_cons, List.not_mem_nil, or_false] at hℓ
          rcases hℓ with rfl | rfl | rfl
          · exact ⟨rfl, rfl, rfl⟩
          · exact ⟨rfl, rfl, rfl⟩
          · exact ⟨rfl, rfl, rfl⟩
      · exact ih (by rw [Option.getD_some]; exact hstep) hrest

/-- `real_input_len` follows the largest coordinate. -/
theorem prefillLen_eq (htakes : op.Takes request) (htext : request.EndsInText) {largest : Int}
    (hlargest : IsGreatest (op.coordinates request) largest) :
    op.prefillLen request = 1 + largest := by
  have hcached := htakes.cached
  have hindex : IsGreatest {c : Int | ∃ j < request.inputLen, c = (j : Int)}
      ((request.inputLen : Int) - 1) := by
    constructor
    · exact ⟨request.inputLen - 1, by omega, by omega⟩
    · rintro c ⟨j, hj, rfl⟩
      omega
  unfold coordinates at hlargest
  unfold prefillLen posTensor
  cases hpositions : request.positions with
  | none =>
      rw [hpositions] at hlargest
      rw [hlargest.unique hindex]
      dsimp only
      omega
  | some axes =>
      rw [hpositions] at hlargest
      dsimp only at hlargest ⊢
      by_cases hsize : op.mropeSize = 0
      · rw [if_pos hsize] at hlargest
        rw [if_pos hsize, hlargest.unique hindex]
        dsimp only
        omega
      · rw [if_neg hsize] at hlargest
        rw [if_neg hsize]
        obtain ⟨tokens, imageTokenId, visionGrids, p, last, hbuild, htokens, hlast, hne, rfl⟩ :=
          htext axes hpositions
        obtain ⟨⟨htime, -, -⟩, hmax⟩ := buildMropePositions_last hbuild hlast hne
        rw [htokens] at htime hmax
        have hlt : request.inputLen - 1 < p.time.length := by omega
        have hlastTime : IsGreatest {c : Int | ∃ coordinates ∈
            [p.time.map ((↑) : Nat → Int), p.height.map (↑), p.width.map (↑)], c ∈ coordinates}
              (p.time.getD (request.inputLen - 1) 0 : Nat) := by
          constructor
          · refine ⟨_, List.mem_cons_self, List.mem_map_of_mem ?_⟩
            rw [List.getD_eq_getElem _ _ hlt]
            exact List.getElem_mem hlt
          · rintro c ⟨coordinates, hcoordinates, hc⟩
            have hmem : ∃ n ∈ p.time ++ p.height ++ p.width, (n : Int) = c := by
              simp only [List.mem_cons, List.not_mem_nil, or_false] at hcoordinates
              rcases hcoordinates with rfl | rfl | rfl
              · obtain ⟨n, hn, rfl⟩ := List.mem_map.mp hc
                exact ⟨n, List.mem_append_left _ (List.mem_append_left _ hn), rfl⟩
              · obtain ⟨n, hn, rfl⟩ := List.mem_map.mp hc
                exact ⟨n, List.mem_append_left _ (List.mem_append_right _ hn), rfl⟩
              · obtain ⟨n, hn, rfl⟩ := List.mem_map.mp hc
                exact ⟨n, List.mem_append_right _ hn, rfl⟩
            obtain ⟨n, hn, rfl⟩ := hmem
            exact_mod_cast hmax n hn
        have hmapped : request.inputLen - 1 < (p.time.map ((↑) : Nat → Int)).length := by
          rw [List.length_map]
          exact hlt
        have hread : [p.time.map ((↑) : Nat → Int), p.height.map (↑), p.width.map (↑)].flatten.getD
            (request.inputLen - 1) 0 = (p.time.getD (request.inputLen - 1) 0 : Nat) := by
          rw [List.flatten_cons, List.getD_append _ _ _ _ hmapped, ← Nat.cast_zero (R := Int),
            List.getD_map]
        dsimp only
        rw [hlargest.unique hlastTime, hread, Int.add_comm]

theorem decodes_of_prefill (htakes : op.Takes request) (htext : request.EndsInText) (layers : Nat) :
    op.DecodesInOrder request layers
      { during request (op.prefillLen request) with step := request.inputLen } := by
  intro largest hlargest g batch i hat run hrun ℓ hℓ
  obtain ⟨hseqLen, hpositions, hstepList⟩ := stepList_of_decoder rfl rfl hrun hℓ
  have hpos : ℓ.pos i = 1 + largest + g := by
    unfold RotaryLaunch.pos
    rw [hseqLen, hstepList, Nat.mod_one, Nat.div_one, List.getD_eq_getElem?_getD, List.getElem?_map,
      hat, afterDecodes_eq]
    change ((0 : Nat) : Int) + (op.prefillLen request +
      ((request.inputLen : Int) + g - request.inputLen)) = _
    rw [prefillLen_eq htakes htext hlargest]
    omega
  refine ⟨hpos, fun x => ?_⟩
  unfold RotaryLaunch.realPos
  rw [hpositions]
  exact hpos

end Decode

end RotaryOp

/-- A prefill in one pass rotates exactly the new tokens, each with its position,
and decoding goes on in order, exactly if nothing was cached and the rows start
within 32 bits. -/
theorem rotatesPrompt_iff {op : RotaryOp} {request : RotaryRequest} {layers : Nat}
    (hop : op.Supported) (htakes : op.Takes request) (hlayers : 0 < layers) :
    op.RotatesPrompt request layers ↔
      request.prefixLen = 0 ∧ (request.inputLen - 1) * op.qkvStride < 2 ^ 32 := by
  unfold RotaryOp.RotatesPrompt
  rw [RotaryOp.runDecoderContext_eq htakes hlayers]
  constructor
  · rintro ⟨runs, genCtx, heq, hruns, -⟩
    cases heq
    exact RotaryOp.unprefixed_of_rotates htakes
      (hruns _ (List.mem_replicate.mpr ⟨hlayers.ne', rfl⟩))
  · rintro ⟨hzero, hsmall⟩
    refine ⟨_, _, rfl, ?_, fun htext => RotaryOp.decodes_of_prefill htakes htext layers⟩
    intro run hrun
    rw [(List.mem_replicate.mp hrun).2]
    exact RotaryOp.rotates_of_unprefixed hop htakes hzero hsmall

/-- One head of size 8, with three axes. -/
def smallRotary : RotaryOp := ⟨1, 1, 8, [2, 1, 1], -1⟩

theorem smallRotary_supported : smallRotary.Supported := ⟨rfl, by decide, .inr rfl⟩

/-- Text, an image of two tokens, text. -/
def imagePrompt : RotaryRequest := ⟨4, 0, some [[0, 1, 1, 3], [0, 1, 1, 3], [0, 1, 2, 3]]⟩

theorem imagePrompt_takes : smallRotary.Takes imagePrompt where
  cached := by decide
  axes := by
    intro _ axes haxes
    cases haxes
    decide

theorem rotatesPrompt_iff_image : smallRotary.RotatesPrompt imagePrompt 2 :=
  (rotatesPrompt_iff smallRotary_supported imagePrompt_takes (by decide)).mpr (by decide)

/-- Two tokens of text, the first of which is cached. -/
def cachedPrompt : RotaryRequest := ⟨2, 1, none⟩

theorem cachedPrompt_leaves_rows : ¬smallRotary.RotatesPrompt cachedPrompt 1 := by
  have htakes : smallRotary.Takes cachedPrompt :=
    ⟨by decide, fun _ axes haxes => by cases haxes⟩
  rintro ⟨runs, genCtx, heq, hruns, -⟩
  rw [RotaryOp.runDecoderContext_eq htakes Nat.one_pos] at heq
  cases heq
  have hzero := RotaryOp.unprefixed_of_rotates htakes (hruns _ List.mem_cons_self)
  exact Nat.one_ne_zero hzero.1

end DashInfer.Rotary
