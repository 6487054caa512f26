import Mathlib.Data.List.TakeWhile
import DashInfer.WeightFile.Header

/-!
What the parser reads from a header the writer printed.
-/

namespace DashInfer.WeightFile

open DashInfer.Lib
open DashInfer.Weight (DataType DataMode SplitMode TensorInfo Fault)

attribute [local semireducible] Lib.text

section Tuples

theorem text_comma : text "," = [44] := by decide

theorem text_commaSpace : text ", " = [44, 32] := by decide

theorem text_close : text ")," = [41, 44] := by decide

theorem mem_intTuple {c : UInt8} {l : List Int} (h : c ∈ intTuple l) :
    c = 44 ∨ c = 32 ∨ c = 45 ∨ isDigit c = true := by
  have hnumber : ∀ {i : Int}, c ∈ decimal i → c = 44 ∨ c = 32 ∨ c = 45 ∨ isDigit c = true :=
    fun hc => Or.inr (Or.inr (mem_decimal hc))
  match l, h with
  | [d], h =>
      rcases List.mem_append.mp h with hc | hc
      · exact hnumber hc
      · rw [text_comma] at hc
        exact Or.inl (List.mem_singleton.mp hc)
  | d :: e :: rest, h =>
      rcases List.mem_append.mp h with hc | hc
      · exact hnumber hc
      · obtain ⟨x, -, hx⟩ := List.mem_flatMap.mp hc
        rcases List.mem_append.mp hx with hc | hc
        · rw [text_commaSpace] at hc
          rcases List.mem_cons.mp hc with rfl | hc
          · exact Or.inl rfl
          · exact Or.inr (Or.inl (List.mem_singleton.mp hc))
        · exact hnumber hc

theorem not_mem_intTuple {c : UInt8} (hcomma : c ≠ 44) (hspace : c ≠ 32) (hsign : c ≠ 45)
    (hdigit : isDigit c = false) (l : List Int) : c ∉ intTuple l := by
  intro h
  rcases mem_intTuple h with hc | hc | hc | hc
  · exact hcomma hc
  · exact hspace hc
  · exact hsign hc
  · rw [hdigit] at hc
    cases hc

theorem skips_comma_decimal (i : Int) : skips (text ", ") (decimal i) = true :=
  skips_of_not_mem (k := 44) (by decide) (not_mem_decimal (by decide) (by decide) i)

theorem after?_comma_decimal (i : Int) : after? (text ", ") (decimal i) = none := by
  have h := after?_skip (skips_comma_decimal i) []
  rwa [List.append_nil] at h

/-- The numbers after the first one come back one by one. -/
theorem splitFrom_tuple (d : Int) (rest : List Int) :
    splitFrom (text ", ") [] 0 (decimal d ++ rest.flatMap fun x => text ", " ++ decimal x) =
      (d :: rest).map decimal := by
  induction rest generalizing d with
  | nil =>
      rw [List.flatMap_nil, List.append_nil, splitFrom_last (after?_comma_decimal d)]
      rfl
  | cons e rest ih =>
      have hhit : ∀ tail : List UInt8, splitFrom (text ", ") (decimal d) 0 (text ", " ++ tail) =
          decimal d :: splitFrom (text ", ") [] 0 tail := fun _ => splitFrom_hit (by decide)
      rw [splitFrom_skip (skips_comma_decimal d), List.flatMap_cons, List.nil_append,
        List.append_assoc, hhit, ih]
      rfl

theorem atoi_decimal_alone (i : Int) : atoi (decimal i) = i := by
  have h := @atoi_decimal i [] fun c hc => by cases hc
  rwa [List.append_nil] at h

/-- A list as the parser reads it: an empty one reads as a single zero. -/
def orZero (l : List Int) : List Int := if l = [] then [0] else l

theorem map_atoi_split_intTuple (l : List Int) :
    (split (text ", ") (intTuple l)).map atoi = orZero l := by
  rw [orZero]
  match l with
  | [] => rfl
  | [d] =>
      have hlast : after? (text ", ") (decimal d ++ text ",") = none := by
        rw [after?_skip (skips_comma_decimal d)]
        decide
      rw [if_neg (List.cons_ne_nil _ _), intTuple, split, splitFrom_last hlast, List.nil_append,
        List.map_singleton, atoi_decimal]
      intro c hc
      rw [text_comma] at hc
      obtain rfl := Option.some.inj hc
      rfl
  | d :: e :: rest =>
      rw [if_neg (List.cons_ne_nil _ _), intTuple, split, splitFrom_tuple, List.map_map]
      · refine (List.map_congr_left fun i _ => atoi_decimal_alone i).trans (List.map_id' _)
      · rintro ⟨⟩

end Tuples

section Fields

variable {key header rest : List UInt8}

theorem takeWhile_ne_append {c : UInt8} {pre : List UInt8} (h : c ∉ pre) :
    (pre ++ c :: rest).takeWhile (· ≠ c) = pre := by
  have hpre : ∀ x ∈ pre, decide (x ≠ c) = true := by
    intro x hx
    refine decide_eq_true ?_
    rintro rfl
    exact h hx
  rw [List.takeWhile_append_of_pos hpre, List.takeWhile_cons, if_neg (by simp), List.append_nil]

theorem parseTuple_eq {l : List Int} (h : after? key header = some (intTuple l ++ 41 :: rest)) :
    parseTuple key header = .ok (orZero l) := by
  have hmem : byte ')' ∈ intTuple l ++ 41 :: rest :=
    List.mem_append_right _ List.mem_cons_self
  have hnot : (41 : UInt8) ∉ intTuple l :=
    not_mem_intTuple (by decide) (by decide) (by decide) (by decide) l
  have htake : (intTuple l ++ 41 :: rest).takeWhile (· ≠ byte ')') = intTuple l :=
    takeWhile_ne_append hnot
  rw [parseTuple, h]
  dsimp only
  rw [if_pos hmem, htake, map_atoi_split_intTuple]

theorem parseField?_eq {i : Int} (h : after? key header = some (decimal i ++ 44 :: rest)) :
    parseField? key header = some i := by
  have htake : (decimal i ++ 44 :: rest).takeWhile (· ≠ byte ',') = decimal i :=
    takeWhile_ne_append (not_mem_decimal (by decide) (by decide) i)
  rw [parseField?, h, Option.map_some, htake, atoi_decimal_alone]

end Fields

section Keys

variable (a : TensorAttribute) {key : List UInt8}

theorem skips_quoted_decimal (hkey : key.head? = some 39) (i : Int) :
    skips key (decimal i) = true :=
  skips_of_not_mem hkey (not_mem_decimal (by decide) (by decide) i)

theorem skips_quoted_intTuple (hkey : key.head? = some 39) (l : List Int) :
    skips key (intTuple l) = true :=
  skips_of_not_mem hkey
    (not_mem_intTuple (by decide) (by decide) (by decide) (by decide) l)

theorem skips_quoted_dtype (hkey : key.head? = some 39) (h : a.dtype ≠ 39) :
    skips key [a.dtype] = true :=
  skips_of_not_mem hkey fun hmem => h (List.mem_singleton.mp hmem).symm

/-- The header from the shape on. -/
def fromShape : List UInt8 :=
  intTuple a.shape ++ (text ")," ++ (text "'group_list': (" ++ (intTuple a.groupList ++
    (text ")," ++ (text "'sparse_type': " ++ (decimal a.sparseType ++ (text "," ++
    (text "'nnz': " ++ (decimal a.nnz ++ (text "," ++ (text "'split_type': " ++
    (decimal (SplitMode.code a.splitMode) ++ (text "," ++ text "\x7d\n")))))))))))))

theorem createAllsparkyHeader_eq :
    createAllsparkyHeader a = text "\x7b'descr': '<" ++ ([a.dtype] ++ (decimal a.wordSize ++
      (text "', 'fortran_order': False, " ++ (text "'shape': (" ++ fromShape a)))) := by
  have hdescr : text "\x7b'descr': '" ++ text "<" = text "\x7b'descr': '<" := by decide
  unfold createAllsparkyHeader fromShape
  simp only [hdescr, List.append_assoc]

variable {a}

theorem after?_shape (h : a.dtype ≠ 39) :
    after? (text "'shape': (") (createAllsparkyHeader a) = some (fromShape a) := by
  have hkey : (text "'shape': (").head? = some 39 := by decide
  rw [createAllsparkyHeader_eq, after?_skip (by decide),
    after?_skip (skips_quoted_dtype a hkey h), after?_skip (skips_quoted_decimal hkey _),
    after?_skip (by decide)]
  exact after?_hit (by decide)

theorem after?_fromShape (hkey : key.head? = some 39) (h : a.dtype ≠ 39)
    (hdescr : skips key (text "\x7b'descr': '<") = true)
    (hfortran : skips key (text "', 'fortran_order': False, ") = true)
    (hshape : skips key (text "'shape': (") = true) :
    after? key (createAllsparkyHeader a) = after? key (fromShape a) := by
  rw [createAllsparkyHeader_eq, after?_skip hdescr,
    after?_skip (skips_quoted_dtype a hkey h), after?_skip (skips_quoted_decimal hkey _),
    after?_skip hfortran, after?_skip hshape]

theorem after?_groupList (h : a.dtype ≠ 39) :
    ∃ rest, after? (text "'group_list': (") (createAllsparkyHeader a) =
      some (intTuple a.groupList ++ 41 :: rest) := by
  have hkey : (text "'group_list': (").head? = some 39 := by decide
  rw [after?_fromShape hkey h (by decide) (by decide) (by decide),
    fromShape, after?_skip (skips_quoted_intTuple hkey _),
    after?_skip (by decide), after?_hit (by decide), text_close]
  exact ⟨_, rfl⟩

theorem after?_sparseType (h : a.dtype ≠ 39) :
    ∃ rest, after? (text "'sparse_type': ") (createAllsparkyHeader a) =
      some (decimal a.sparseType ++ 44 :: rest) := by
  have hkey : (text "'sparse_type': ").head? = some 39 := by decide
  rw [after?_fromShape hkey h (by decide) (by decide) (by decide),
    fromShape, after?_skip (skips_quoted_intTuple hkey _),
    after?_skip (by decide), after?_skip (by decide),
    after?_skip (skips_quoted_intTuple hkey _), after?_skip (by decide),
    after?_hit (by decide), text_comma]
  exact ⟨_, rfl⟩

theorem after?_nnz (h : a.dtype ≠ 39) :
    ∃ rest, after? (text "'nnz': ") (createAllsparkyHeader a) =
      some (decimal a.nnz ++ 44 :: rest) := by
  have hkey : (text "'nnz': ").head? = some 39 := by decide
  rw [after?_fromShape hkey h (by decide) (by decide) (by decide),
    fromShape, after?_skip (skips_quoted_intTuple hkey _),
    after?_skip (by decide), after?_skip (by decide),
    after?_skip (skips_quoted_intTuple hkey _), after?_skip (by decide),
    after?_skip (by decide), after?_skip (skips_quoted_decimal hkey _),
    after?_skip (by decide), after?_hit (by decide), text_comma]
  exact ⟨_, rfl⟩

theorem after?_splitType (h : a.dtype ≠ 39) :
    ∃ rest, after? (text "'split_type': ") (createAllsparkyHeader a) =
      some (decimal (SplitMode.code a.splitMode) ++ 44 :: rest) := by
  have hkey : (text "'split_type': ").head? = some 39 := by decide
  rw [after?_fromShape hkey h (by decide) (by decide) (by decide),
    fromShape, after?_skip (skips_quoted_intTuple hkey _),
    after?_skip (by decide), after?_skip (by decide),
    after?_skip (skips_quoted_intTuple hkey _), after?_skip (by decide),
    after?_skip (by decide), after?_skip (skips_quoted_decimal hkey _),
    after?_skip (by decide), after?_skip (by decide),
    after?_skip (skips_quoted_decimal hkey _), after?_skip (by decide),
    after?_hit (by decide), text_comma]
  exact ⟨_, rfl⟩

end Keys

section Info

variable {a : TensorAttribute}

theorem parseDtype_eq_ok {type : UInt8} {wordSize : Int} {dtype : DataType} :
    parseDtype type wordSize = .ok dtype ↔ DataType.code dtype = some (type, wordSize) := by
  constructor
  · intro h
    unfold parseDtype at h
    split at h
    case isTrue hf =>
        subst hf
        split at h <;> cases h <;> rfl
    case isFalse =>
        split at h
        case isTrue hi =>
            subst hi
            split at h <;> cases h <;> rfl
        case isFalse =>
            split at h
            case isTrue hu =>
                subst hu
                split at h <;> cases h <;> rfl
            case isFalse =>
                split at h
                case isTrue hb =>
                    subst hb
                    split at h <;> cases h <;> rfl
                case isFalse => cases h
  · intro h
    cases dtype <;> cases h <;> rfl

/-- The start of every header: the letter comes right after the byte order. -/
theorem parseDescr_open (value : List UInt8) :
    parseDescr (text "\x7b'descr': '<" ++ value) =
      match value with
      | [] => .error (.exception "basic_string::substr")
      | type :: size => parseDtype type (atoi (size.takeWhile (· ≠ 39))) := by
  have hopen : text "\x7b'descr': '<" = text "\x7b'" ++ (text "descr" ++ text "': '<") := by
    decide
  have horder : text "': '<" = [39, 58, 32, 39, 60] := by decide
  have hfound : after? (text "descr") (text "\x7b'descr': '<" ++ value) =
      some ([39, 58, 32, 39, 60] ++ value) := by
    rw [hopen, List.append_assoc, List.append_assoc, after?_skip (by decide),
      after?_hit (by decide), horder]
  have hlong : ¬ (39 :: 58 :: 32 :: 39 :: 60 :: value).length < 4 := by
    simp only [List.length_cons]
    omega
  have horder' : ¬ (60 : UInt8) ≠ byte '<' := by decide
  rw [parseDescr, hfound]
  cases value <;>
    simp only [List.cons_append, if_neg hlong, List.nil_append, List.drop_succ_cons,
      List.drop_zero, if_neg horder']

theorem createAllsparkyHeader_open (a : TensorAttribute) :
    ∃ rest, createAllsparkyHeader a =
      text "\x7b'descr': '<" ++ a.dtype :: (decimal a.wordSize ++ 39 :: rest) := by
  have hclose : text "', 'fortran_order': False, " = 39 :: text ", 'fortran_order': False, " := by
    decide
  rw [createAllsparkyHeader_eq, hclose]
  exact ⟨_, rfl⟩

theorem parseDescr_header (a : TensorAttribute) :
    parseDescr (createAllsparkyHeader a) = parseDtype a.dtype a.wordSize := by
  obtain ⟨rest, hrest⟩ := createAllsparkyHeader_open a
  rw [hrest, parseDescr_open]
  dsimp only
  rw [takeWhile_ne_append (not_mem_decimal (by decide) (by decide) _), atoi_decimal_alone]

theorem ofCode?_code (mode : SplitMode) : SplitMode.ofCode? (SplitMode.code mode) = some mode := by
  cases mode <;> rfl

theorem parseMode_header {mode : DataMode} (hquote : a.dtype ≠ 39)
    (hmode : DataMode.code mode = a.sparseType) :
    parseMode (createAllsparkyHeader a) = .ok mode := by
  obtain ⟨rest, hrest⟩ := after?_sparseType hquote
  rw [parseMode, parseField?_eq hrest, ← hmode]
  cases mode <;> rfl

theorem parseNnz_header (mode : DataMode) (hquote : a.dtype ≠ 39) :
    parseNnz mode (createAllsparkyHeader a) = .ok (if mode = .dense then 0 else a.nnz) := by
  obtain ⟨rest, hrest⟩ := after?_nnz hquote
  rw [parseNnz, parseField?_eq hrest]
  split <;> rfl

theorem parseSplitMode_header (hquote : a.dtype ≠ 39) :
    parseSplitMode (createAllsparkyHeader a) = .ok a.splitMode := by
  obtain ⟨rest, hrest⟩ := after?_splitType hquote
  rw [parseSplitMode, parseField?_eq hrest]
  dsimp only
  rw [ofCode?_code]

/-- The information a printed header reads as. -/
def readBack (a : TensorAttribute) (dtype : DataType) (mode : DataMode) : TensorInfo :=
  ⟨orZero a.shape, dtype, mode, a.splitMode, if mode = .dense then 0 else a.nnz,
    if ReadsGroups a.splitMode then orZero a.groupList else []⟩

theorem parseGroupList_header (hquote : a.dtype ≠ 39) :
    parseGroupList a.splitMode (createAllsparkyHeader a) =
      .ok (if ReadsGroups a.splitMode then orZero a.groupList else []) := by
  obtain ⟨rest, hrest⟩ := after?_groupList hquote
  rw [parseGroupList, parseTuple_eq hrest]
  by_cases hmode : ReadsGroups a.splitMode
  · rw [if_pos hmode, if_pos hmode]
  · rw [if_neg hmode, if_neg hmode]

/-- The header of a tensor with a data type and a data mode reads back, up to
what the parser does not look at. -/
theorem parseTensorInfo_header {dtype : DataType} {mode : DataMode}
    (hdtype : DataType.code dtype = some (a.dtype, a.wordSize))
    (hmode : DataMode.code mode = a.sparseType) (hnul : (0 : UInt8) ∉ createAllsparkyHeader a) :
    parseTensorInfo (createAllsparkyHeader a) = .ok (readBack a dtype mode) := by
  have hquote : a.dtype ≠ 39 := by
    intro h
    rw [h] at hdtype
    cases dtype <;> cases hdtype
  have hstring : (createAllsparkyHeader a).takeWhile (· ≠ 0) = createAllsparkyHeader a := by
    refine List.takeWhile_eq_self_iff.mpr fun c hc => decide_eq_true ?_
    rintro rfl
    exact hnul hc
  have hshape : after? (text "'shape': (") (createAllsparkyHeader a) = some (fromShape a) :=
    after?_shape hquote
  rw [fromShape, text_close] at hshape
  rw [parseTensorInfo, hstring, parseDescr_header, parseDtype_eq_ok.mpr hdtype,
    parseTuple_eq hshape, parseMode_header hquote hmode]
  simp only [parseNnz_header _ hquote, parseSplitMode_header hquote, parseGroupList_header hquote,
    bind, Except.bind]
  rfl

/-- Nothing below the space in the ASCII table. -/
def Printable (l : List UInt8) : Prop := ∀ c ∈ l, 32 ≤ c.toNat

theorem Printable.append {l m : List UInt8} (hl : Printable l) (hm : Printable m) :
    Printable (l ++ m) := by
  intro c hc
  rcases List.mem_append.mp hc with h | h
  · exact hl c h
  · exact hm c h

theorem printable_decimal (i : Int) : Printable (decimal i) := by
  intro c hc
  rcases mem_decimal hc with rfl | hdigit
  · decide
  · have h := isDigit_iff.mp hdigit
    omega

theorem printable_intTuple (l : List Int) : Printable (intTuple l) := by
  intro c hc
  rcases mem_intTuple hc with rfl | rfl | rfl | hdigit
  · decide
  · decide
  · decide
  · have h := isDigit_iff.mp hdigit
    omega

theorem printable_text {s : String} (h : ∀ c ∈ text s, 32 ≤ c.toNat) : Printable (text s) := h

/-- A header is one line: apart from the type letter it is printable up to its
last character. -/
theorem exists_body (a : TensorAttribute) :
    ∃ body, createAllsparkyHeader a = text "\x7b'descr': '<" ++ a.dtype :: (body ++ [10]) ∧
      Printable body := by
  have hclose : text "\x7d\n" = text "\x7d" ++ [10] := by decide
  refine ⟨decimal a.wordSize ++ (text "', 'fortran_order': False, " ++ (text "'shape': (" ++
    (intTuple a.shape ++ (text ")," ++ (text "'group_list': (" ++ (intTuple a.groupList ++
    (text ")," ++ (text "'sparse_type': " ++ (decimal a.sparseType ++ (text "," ++
    (text "'nnz': " ++ (decimal a.nnz ++ (text "," ++ (text "'split_type': " ++
    (decimal (SplitMode.code a.splitMode) ++ (text "," ++ text "\x7d")))))))))))))))), ?_, ?_⟩
  · rw [createAllsparkyHeader_eq, fromShape, hclose]
    simp only [List.append_assoc, List.cons_append, List.nil_append]
  · have hcomma : Printable (text ",") := printable_text (by decide +kernel)
    have hparen : Printable (text "),") := printable_text (by decide +kernel)
    refine (printable_decimal _).append ?_
    refine (printable_text (by decide +kernel)).append ?_
    refine (printable_text (by decide +kernel)).append ?_
    refine (printable_intTuple _).append (hparen.append ?_)
    refine (printable_text (by decide +kernel)).append ?_
    refine (printable_intTuple _).append (hparen.append ?_)
    refine (printable_text (by decide +kernel)).append ?_
    refine (printable_decimal _).append (hcomma.append ?_)
    refine (printable_text (by decide +kernel)).append ?_
    refine (printable_decimal _).append (hcomma.append ?_)
    refine (printable_text (by decide +kernel)).append ?_
    exact (printable_decimal _).append (hcomma.append (printable_text (by decide +kernel)))

end Info

end DashInfer.WeightFile
