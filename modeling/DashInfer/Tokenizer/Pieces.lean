import DashInfer.Tokenizer.Spelling

/-!
The pieces of the tokens of a vocabulary. They are kept in a table that all
callers share, and a piece that is longer than the caller's buffer is asked for
a second time.
-/

namespace DashInfer.Tokenizer

open Lib

inductive VocabType where
  | wpm
  | spm
  | ugm
  | bpe
deriving DecidableEq, Repr

structure AsTokenizerData where
  vocabType : VocabType
  eosTokenId : Int
  id2token : AList fun _ : Int => Bytes
  utf8ToByte : ByteMap

/-- The vocabulary in the order of its texts. Of two texts with one id the
later one is kept. -/
def asTokenizerData (vocab : List (Bytes × Int)) (type : VocabType) (eosTokenId : Int) :
    Except Fault AsTokenizerData :=
  unicodeUtf8ToByteMap.map fun utf8ToByte =>
    ⟨type, eosTokenId, vocab.foldl (fun ids itr => ids.insert itr.2 itr.1) ∅, utf8ToByte⟩

/-- `token2piece_cache_`, which every caller of the process shares. -/
abbrev PieceCache := AList fun _ : Int => Bytes

def skipSpaces : Nat → Bytes → Bytes
  | lstrip + 1, c :: token => if c = 0x20 then skipSpaces lstrip token else c :: token
  | _, token => token

/-- The size of the piece and the buffer with it, or the negated size where the
buffer is too small. -/
def tryCopy (buf : Bytes) (lstrip : Int) (token : Bytes) : Int × Bytes :=
  let token := skipSpaces lstrip.toNat token
  if buf.length < token.length then (-token.length, buf)
  else (token.length, token ++ buf.drop token.length)

def tokenToPiece (tokenData : AsTokenizerData) (token : Int) (buf : Bytes) (lstrip : Int)
    (cache : PieceCache) : Except Fault (Int × Bytes) × PieceCache :=
  match cache.lookup token with
  | some result => (.ok (tryCopy buf lstrip result), cache)
  | none =>
      match tokenData.id2token.lookup token with
      | none => (.error .runtimeError, cache)
      | some tokenText =>
          match tokenData.vocabType with
          | .wpm | .spm | .ugm =>
              let result := unescapeWhitespace tokenText
              (.ok (tryCopy buf lstrip result), cache.insert token result)
          | .bpe =>
              match bpeDecodeText tokenText tokenData.utf8ToByte with
              | .error fault => (.error fault, cache)
              | .ok result => (.ok (tryCopy buf lstrip result), cache.insert token result)

/-- `std::vector<char>::resize`. -/
def resize (result : Bytes) (n : Nat) : Bytes :=
  result.take n ++ List.replicate (n - result.length) 0

def decodeToken (tokenData : AsTokenizerData) (token : Int) (cache : PieceCache) :
    Except Fault Bytes × PieceCache :=
  match tokenToPiece tokenData token (List.replicate 8 0) 0 cache with
  | (.error fault, cache) => (.error fault, cache)
  | (.ok (nTokens, result), cache) =>
      if nTokens < 0 then
        match tokenToPiece tokenData token (resize result (-nTokens).toNat) 0 cache with
        | (.error fault, cache) => (.error fault, cache)
        | (.ok (check, result), cache) =>
            (if check = -nTokens then .ok result else .error .enforce, cache)
      else (.ok (resize result nTokens.toNat), cache)

/-- The loop of `decode_tokens` from the token at place `i` on. -/
def decodeTokensFrom (tokenData : AsTokenizerData) :
    Nat → List Int → Bytes → PieceCache → Except Fault Bytes × PieceCache
  | _, [], result, cache => (.ok result, cache)
  | i, token :: tokens, result, cache =>
      match decodeToken tokenData token cache with
      | (.error fault, cache) => (.error fault, cache)
      | (.ok piece, cache) =>
          let piece := if i = 0 ∧ piece.headD 0 = 0x20 then piece.drop 1 else piece
          decodeTokensFrom tokenData (i + 1) tokens (result ++ piece) cache

def decodeTokens (tokenData : AsTokenizerData) (tokens : List Int) (cache : PieceCache) :
    Except Fault Bytes × PieceCache :=
  decodeTokensFrom tokenData 0 tokens [] cache

/-- The loop of `get_regular_tokens` over these ids. -/
def regularTokensFrom (tokenData : AsTokenizerData) :
    List Int → PieceCache → Except Fault (List (Int × Bytes × Bool)) × PieceCache
  | [], cache => (.ok [], cache)
  | i :: rest, cache =>
      match decodeToken tokenData i cache with
      | (.error fault, cache) => (.error fault, cache)
      | (.ok tokenStr, cache) =>
          match decodeTokens tokenData [i] cache with
          | (.error fault, cache) => (.error fault, cache)
          | (.ok tokenSequenceStr, cache) =>
              let isNewWord : Bool := tokenSequenceStr.length < tokenStr.length
              let (more, cache) := regularTokensFrom tokenData rest cache
              (more.map fun more => (i, tokenStr, isNewWord) :: more, cache)

def getRegularTokens (tokenData : AsTokenizerData) (vocabSize : Nat) (cache : PieceCache) :
    Except Fault (List (Int × Bytes × Bool)) × PieceCache :=
  regularTokensFrom tokenData ((List.range vocabSize).map Int.ofNat) cache

section Pieces

variable {tokenData : AsTokenizerData} {cache : PieceCache} {token : Int}

/-- The piece of a token by itself, without the table. -/
def pieceOf (tokenData : AsTokenizerData) (token : Int) : Except Fault Bytes :=
  match tokenData.id2token.lookup token with
  | none => .error .runtimeError
  | some tokenText =>
      match tokenData.vocabType with
      | .bpe => bpeDecodeText tokenText tokenData.utf8ToByte
      | _ => .ok (unescapeWhitespace tokenText)

/-- The table has pieces of this vocabulary. -/
def Coherent (tokenData : AsTokenizerData) (cache : PieceCache) : Prop :=
  ∀ token piece, cache.lookup token = some piece → pieceOf tokenData token = .ok piece

theorem coherent_empty : Coherent tokenData ∅ := by
  intro token piece h
  simp at h

theorem Coherent.insert {piece : Bytes} (h : Coherent tokenData cache)
    (hpiece : pieceOf tokenData token = .ok piece) :
    Coherent tokenData (cache.insert token piece) := by
  intro token' piece' hlook
  by_cases heq : token' = token
  · subst heq
    rw [AList.lookup_insert] at hlook
    cases hlook
    exact hpiece
  · rw [AList.lookup_insert_ne heq] at hlook
    exact h token' piece' hlook

/-- The first call of a token and every later one copy the piece of the
token. -/
theorem tokenToPiece_eq (h : Coherent tokenData cache) (token : Int) (buf : Bytes) (lstrip : Int) :
    ∃ after, Coherent tokenData after ∧
      tokenToPiece tokenData token buf lstrip cache =
        ((pieceOf tokenData token).map (tryCopy buf lstrip), after) := by
  unfold tokenToPiece
  cases hcached : cache.lookup token with
  | some result =>
      exact ⟨cache, h, by rw [h token result hcached]; rfl⟩
  | none =>
      cases htext : tokenData.id2token.lookup token with
      | none => exact ⟨cache, h, by simp [pieceOf, htext, Except.map]⟩
      | some tokenText =>
          cases htype : tokenData.vocabType with
          | bpe =>
              have hpiece : pieceOf tokenData token =
                  bpeDecodeText tokenText tokenData.utf8ToByte := by
                simp [pieceOf, htext, htype]
              cases hdecode : bpeDecodeText tokenText tokenData.utf8ToByte with
              | error fault => exact ⟨cache, h, by simp [hpiece, hdecode, Except.map]⟩
              | ok result =>
                  exact ⟨cache.insert token result, h.insert (hpiece.trans hdecode),
                    by simp [hpiece, hdecode, Except.map]⟩
          | wpm | spm | ugm =>
              have hpiece : pieceOf tokenData token = .ok (unescapeWhitespace tokenText) := by
                simp [pieceOf, htext, htype]
              exact ⟨_, h.insert hpiece, by simp [hpiece, Except.map]⟩

@[simp] theorem skipSpaces_zero (token : Bytes) : skipSpaces 0 token = token := by
  unfold skipSpaces
  rfl

theorem tryCopy_fits {buf piece : Bytes} (h : piece.length ≤ buf.length) :
    tryCopy buf 0 piece = ((piece.length : Int), piece ++ buf.drop piece.length) := by
  simp [tryCopy, Nat.not_lt.mpr h]

theorem tryCopy_short {buf piece : Bytes} (h : buf.length < piece.length) :
    tryCopy buf 0 piece = (-(piece.length : Int), buf) := by
  simp [tryCopy, h]

theorem tryCopy_exact {buf piece : Bytes} (h : buf.length = piece.length) :
    tryCopy buf 0 piece = ((piece.length : Int), piece) := by
  rw [tryCopy_fits h.ge, ← h, List.drop_length, List.append_nil]

/-- A token's text is its piece, whatever its length and whatever was asked
before. -/
theorem decodeToken_eq (h : Coherent tokenData cache) (token : Int) :
    ∃ after, Coherent tokenData after ∧
      decodeToken tokenData token cache = (pieceOf tokenData token, after) := by
  obtain ⟨mid, hmid, hfirst⟩ := tokenToPiece_eq h token (List.replicate 8 0) 0
  rw [decodeToken, hfirst]
  cases hpiece : pieceOf tokenData token with
  | error fault => exact ⟨mid, hmid, rfl⟩
  | ok piece =>
      simp only [Except.map]
      by_cases hfits : piece.length ≤ 8
      · rw [tryCopy_fits (by rwa [List.length_replicate])]
        exact ⟨mid, hmid, by simp [resize]⟩
      · -- the buffer has room for exactly the piece in the second call
        have hroom : (resize (List.replicate 8 0) piece.length).length = piece.length := by
          simp only [resize, List.length_append, List.length_take, List.length_replicate]
          omega
        obtain ⟨after, hafter, hsecond⟩ := tokenToPiece_eq hmid token
          (resize (List.replicate 8 0) piece.length) 0
        rw [hpiece, Except.map, tryCopy_exact hroom] at hsecond
        have hneg : -(piece.length : Int) < 0 := by omega
        refine ⟨after, hafter, ?_⟩
        rw [tryCopy_short (by rw [List.length_replicate]; omega)]
        simp only [hneg, if_true, neg_neg, Int.toNat_natCast, hsecond]

/-- The texts of all tokens but the first one are their pieces. -/
theorem decodeTokensFrom_eq (h : Coherent tokenData cache) {i : Nat} (hi : i ≠ 0)
    (tokens : List Int) (result : Bytes) : ∃ after, Coherent tokenData after ∧
      decodeTokensFrom tokenData i tokens result cache =
        ((tokens.mapM (pieceOf tokenData)).map (result ++ List.flatten ·), after) := by
  induction tokens generalizing i result cache with
  | nil => exact ⟨cache, h, by simp [decodeTokensFrom, Except.map, pure, Except.pure]⟩
  | cons token tokens ih =>
      obtain ⟨mid, hmid, hpiece⟩ := decodeToken_eq h token
      rw [decodeTokensFrom, hpiece, List.mapM_cons]
      cases pieceOf tokenData token with
      | error fault => exact ⟨mid, hmid, rfl⟩
      | ok piece =>
          obtain ⟨after, hafter, hrest⟩ := ih hmid (Nat.succ_ne_zero i) (result ++ piece)
          refine ⟨after, hafter, ?_⟩
          simp only [hi, false_and, if_false, hrest]
          cases tokens.mapM (pieceOf tokenData) with
          | error fault => rfl
          | ok pieces =>
              change (Except.ok (result ++ piece ++ pieces.flatten), after) =
                (Except.ok (result ++ (piece :: pieces).flatten), after)
              rw [List.flatten_cons, List.append_assoc]

/-- The pieces one after the other, without a space in front. -/
def joined (pieces : List Bytes) : Bytes :=
  if pieces.flatten.headD 0 = 0x20 ∧ pieces.headD [] ≠ [] then pieces.flatten.drop 1
  else pieces.flatten

theorem joined_cons (piece : Bytes) (pieces : List Bytes) : joined (piece :: pieces) =
    (if piece.headD 0 = 0x20 then piece.drop 1 else piece) ++ pieces.flatten := by
  cases piece with
  | nil => simp [joined]
  | cons c piece =>
      by_cases hc : c = 0x20 <;> simp [joined, hc]

/-- The text of a sequence of tokens. -/
def textOf (tokenData : AsTokenizerData) (tokens : List Int) : Except Fault Bytes :=
  (tokens.mapM (pieceOf tokenData)).map joined

theorem decodeTokens_eq (h : Coherent tokenData cache) (tokens : List Int) :
    ∃ after, Coherent tokenData after ∧
      decodeTokens tokenData tokens cache = (textOf tokenData tokens, after) := by
  cases tokens with
  | nil => exact ⟨cache, h, rfl⟩
  | cons token tokens =>
      obtain ⟨mid, hmid, hpiece⟩ := decodeToken_eq h token
      rw [decodeTokens, decodeTokensFrom, hpiece, textOf, List.mapM_cons]
      cases pieceOf tokenData token with
      | error fault => exact ⟨mid, hmid, rfl⟩
      | ok piece =>
          simp only [true_and, List.nil_append]
          obtain ⟨after, hafter, hrest⟩ := decodeTokensFrom_eq hmid (Nat.succ_ne_zero 0) tokens
            (if piece.headD 0 = 0x20 then piece.drop 1 else piece)
          refine ⟨after, hafter, ?_⟩
          rw [hrest]
          cases tokens.mapM (pieceOf tokenData) with
          | error fault => rfl
          | ok pieces =>
              change _ = (Except.ok (joined (piece :: pieces)), after)
              rw [joined_cons]
              rfl

/-- A token of its own has its piece as text, less a space in front. -/
theorem textOf_singleton (token : Int) :
    textOf tokenData [token] = (pieceOf tokenData token).map fun piece =>
      if piece.headD 0 = 0x20 then piece.drop 1 else piece := by
  rw [textOf, List.mapM_cons]
  cases pieceOf tokenData token with
  | error fault => rfl
  | ok piece =>
      change Except.ok (joined [piece]) = Except.ok _
      rw [joined_cons, List.flatten_nil, List.append_nil]

theorem regularTokensFrom_eq (h : Coherent tokenData cache) (ids : List Int) :
    ∃ after, Coherent tokenData after ∧ regularTokensFrom tokenData ids cache =
      (ids.mapM fun i => (pieceOf tokenData i).map fun piece =>
        (i, piece, decide (piece.headD 0 = 0x20)), after) := by
  induction ids generalizing cache with
  | nil => exact ⟨cache, h, rfl⟩
  | cons i ids ih =>
      obtain ⟨mid, hmid, hpiece⟩ := decodeToken_eq h i
      obtain ⟨mid', hmid', htext⟩ := decodeTokens_eq hmid [i]
      obtain ⟨after, hafter, hrest⟩ := ih hmid'
      rw [regularTokensFrom, hpiece, List.mapM_cons]
      cases hvalue : pieceOf tokenData i with
      | error fault => exact ⟨mid, hmid, rfl⟩
      | ok piece =>
          rw [textOf_singleton, hvalue] at htext
          simp only [htext, Except.map, hrest]
          refine ⟨after, hafter, ?_⟩
          have hword : (if piece.headD 0 = 0x20 then piece.drop 1 else piece).length <
              piece.length ↔ piece.headD 0 = 0x20 := by
            cases piece with
            | nil => simp
            | cons c piece => by_cases hc : c = 0x20 <;> simp [hc]
          simp only [hword]
          cases hmore : ids.mapM (fun i => (pieceOf tokenData i).map fun piece =>
            (i, piece, decide (piece.headD 0 = 0x20))) with
          | error fault =>
              simp only [Except.map] at hmore
              rw [hmore]
              rfl
          | ok more =>
              simp only [Except.map] at hmore
              rw [hmore]
              rfl

/-- A sequence of calls of `decode`, of which some may fail. -/
def decodeAll (tokenData : AsTokenizerData) :
    List (List Int) → PieceCache → List (Except Fault Bytes) × PieceCache
  | [], cache => ([], cache)
  | tokens :: calls, cache =>
      let (answer, cache) := decodeTokens tokenData tokens cache
      let (answers, cache) := decodeAll tokenData calls cache
      (answer :: answers, cache)

theorem decodeAll_eq (h : Coherent tokenData cache) (calls : List (List Int)) :
    ∃ after, Coherent tokenData after ∧
      decodeAll tokenData calls cache = (calls.map (textOf tokenData), after) := by
  induction calls generalizing cache with
  | nil => exact ⟨cache, h, rfl⟩
  | cons tokens calls ih =>
      obtain ⟨mid, hmid, htext⟩ := decodeTokens_eq h tokens
      obtain ⟨after, hafter, hrest⟩ := ih hmid
      exact ⟨after, hafter, by simp only [decodeAll, htext, hrest, List.map_cons]⟩

end Pieces

end DashInfer.Tokenizer
