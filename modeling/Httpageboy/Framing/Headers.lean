import Httpageboy.Framing.Outcome

set_option relaxedAutoImplicit false
set_option autoImplicit false

/-!
# Framing headers

What `extract_body_headers` decides, in terms of the values of the two framing fields, and how
that decision differs from the strict one: it accepts a plus sign, and it trims all Unicode
white space where only spaces and tabs may stand.

## Main definitions

* `Httpageboy.lengthValues`, `Httpageboy.codings` — what the framing headers of a head say.
* `Httpageboy.Decides` — the decision of the code; `Httpageboy.Declares` — the strict one.
* `Httpageboy.PlainlyWritten` — where the two agree.

## Main results

* `Httpageboy.bodyFraming_eq_ok_iff` — the code decides what `Decides` says.
* `Httpageboy.extractBodyHeaders_strict_iff` — it is strict on plainly written heads only.
-/

namespace Httpageboy

open Search

/-! ## Header lines by name -/

/-- The values of the header lines with the given name, in order. -/
def fieldValues (field : Str) (lines : List Str) : List Str :=
  lines.filterMap fun line =>
    match Str.splitOnce ':' line with
    | some (name, value) => if Str.eqIgnoreAsciiCase name field then some value else none
    | none => none

/-- The values of the `Content-Length` lines. -/
def lengthValues (lines : List Str) : List Str := fieldValues "content-length".toList lines

/-- The comma-separated pieces of the values of all `Transfer-Encoding` lines. -/
def codings (lines : List Str) : List Str :=
  (fieldValues "transfer-encoding".toList lines).flatMap fun value => value.splitOn ','

/-- The characters of a token. -/
def isTchar (c : Char) : Bool :=
  c.isAlphanum || "!#$%&'*+-.^_`|~".toList.contains c

/-- Whether a name is that of a framing field. -/
def isFramingName (name : Str) : Bool :=
  Str.eqIgnoreAsciiCase name "content-length".toList ||
    Str.eqIgnoreAsciiCase name "transfer-encoding".toList

/-- The values of a field, in the order of the lines. -/
lemma fieldValues_append (field : Str) (lines lines' : List Str) :
    fieldValues field (lines ++ lines') = fieldValues field lines ++ fieldValues field lines' :=
  List.filterMap_append

/-- The declared lengths, in the order of the lines. -/
lemma lengthValues_append (lines lines' : List Str) :
    lengthValues (lines ++ lines') = lengthValues lines ++ lengthValues lines' :=
  fieldValues_append _ lines lines'

/-- The transfer codings, in the order of the lines. -/
lemma codings_append (lines lines' : List Str) :
    codings (lines ++ lines') = codings lines ++ codings lines' := by
  unfold codings
  rw [fieldValues_append, List.flatMap_append]

/-- A line of the field adds its value. -/
lemma fieldValues_cons_of_eq {field line name value : Str}
    (hline : Str.splitOnce ':' line = some (name, value))
    (hname : Str.eqIgnoreAsciiCase name field = true) (lines : List Str) :
    fieldValues field (line :: lines) = value :: fieldValues field lines := by
  simp [fieldValues, hline, hname]

/-- A line of another field adds nothing. -/
lemma fieldValues_cons_of_ne {field line name value : Str}
    (hline : Str.splitOnce ':' line = some (name, value))
    (hname : ¬ Str.eqIgnoreAsciiCase name field = true) (lines : List Str) :
    fieldValues field (line :: lines) = fieldValues field lines := by
  simp [fieldValues, hline, hname]

/-- A line has a value among those of its field. -/
lemma mem_fieldValues {field name value line : Str} {lines : List Str} (hmem : line ∈ lines)
    (hline : Str.splitOnce ':' line = some (name, value))
    (hname : Str.eqIgnoreAsciiCase name field = true) : value ∈ fieldValues field lines := by
  refine List.mem_filterMap.2 ⟨line, hmem, ?_⟩
  simp [hline, hname]

/-- No name is that of both framing fields. -/
lemma not_transferEncoding_of_contentLength {name : Str}
    (h : Str.eqIgnoreAsciiCase name "content-length".toList = true) :
    ¬ Str.eqIgnoreAsciiCase name "transfer-encoding".toList = true := by
  rw [Str.eqIgnoreAsciiCase_iff] at h ⊢
  rw [h]
  decide

/-- A coding as the code compares it. -/
def canonicalCoding (coding : Str) : Str := Str.toAsciiLowercase (Str.trim coding)

/-! ## The decision of the code -/

/-- The parts of a line are accepted when none is blank, and are added in their canonical form. -/
lemma pushCodings_eq_ok_iff {values transferCodings result : List Str} :
    pushCodings values transferCodings = .ok result ↔
      (∀ coding ∈ values, Str.trim coding ≠ []) ∧
        result = transferCodings ++ values.map canonicalCoding := by
  induction values generalizing transferCodings with
  | nil =>
    simp only [pushCodings, Except.ok.injEq, List.not_mem_nil, false_implies, implies_true,
      List.map_nil, List.append_nil, true_and]
    exact eq_comm
  | cons coding values ih =>
    unfold pushCodings
    by_cases hcoding : Str.trim coding = []
    · simp [hcoding]
    · simp only [hcoding, if_false, ih, List.forall_mem_cons, ne_eq, not_false_eq_true, true_and,
        List.map_cons, List.append_assoc, List.singleton_append, canonicalCoding]

/-- The declared length behind lines with the given `Content-Length` values: unchanged without
one, else the number that the single value denotes. -/
def LengthAfter (contentLength : Option ℕ) (values : List Str) (result : Option ℕ) : Prop :=
  (values = [] ∧ result = contentLength) ∨
    (contentLength = none ∧ ∃ value n, values = [value] ∧
      Str.fromStrRadix 10 usizeMax (Str.trim value) = some n ∧ result = some n)

/-- One more `Content-Length` line, of a value that parses. -/
lemma lengthAfter_cons {contentLength result : Option ℕ} {value : Str} {values : List Str} {n : ℕ}
    (h : Str.fromStrRadix 10 usizeMax (Str.trim value) = some n) :
    LengthAfter contentLength (value :: values) result ↔
      contentLength = none ∧ LengthAfter (some n) values result := by
  unfold LengthAfter
  constructor
  · intro hafter
    rcases hafter with ⟨hnil, -⟩ | ⟨hnone, value', m, hvalues, hm, hresult⟩
    · cases hnil
    · obtain ⟨rfl, rfl⟩ := List.cons.inj hvalues
      have hmn : n = m := by simpa [h] using hm
      exact ⟨hnone, .inl ⟨rfl, by rw [hresult, hmn]⟩⟩
  · intro hafter
    obtain ⟨hnone, ⟨hvalues, hresult⟩ | ⟨hsome, -⟩⟩ := hafter
    · exact .inr ⟨hnone, value, n, by rw [hvalues], h, hresult⟩
    · cases hsome

/-- What the loop over the header lines accepts, and what it returns.

**Proof sketch.** Induction on the lines. A `Content-Length` line is only accepted when none
came before it, so at most one value counts; the codings of a `Transfer-Encoding` line are
appended to those read before. -/
lemma headerLoop_eq_ok_iff {lines : List Str} (hne : ∀ line ∈ lines, line ≠ [])
    {contentLength result : Option ℕ} {transferCodings results : List Str} :
    headerLoop lines contentLength transferCodings = .ok (result, results) ↔
      (∀ line ∈ lines, ':' ∈ line) ∧ (∀ coding ∈ codings lines, Str.trim coding ≠ []) ∧
        results = transferCodings ++ (codings lines).map canonicalCoding ∧
        LengthAfter contentLength (lengthValues lines) result := by
  induction lines generalizing contentLength transferCodings with
  | nil =>
    simp only [headerLoop, Except.ok.injEq, Prod.mk.injEq, List.not_mem_nil, false_implies,
      implies_true, codings, lengthValues, fieldValues, List.filterMap_nil, List.flatMap_nil,
      List.map_nil, List.append_nil, true_and, LengthAfter]
    constructor
    · intro h
      exact ⟨h.2.symm, .inl h.1.symm⟩
    · intro h
      rcases h with ⟨hresults, hresult | ⟨-, value, n, hnil, -⟩⟩
      · exact ⟨hresult.symm, hresults.symm⟩
      · cases hnil
  | cons line lines ih =>
    have hline : line ≠ [] := hne line List.mem_cons_self
    have htail : ∀ l ∈ lines, l ≠ [] := fun l hl => hne l (List.mem_cons_of_mem _ hl)
    unfold headerLoop
    rw [if_neg hline, List.forall_mem_cons]
    cases hsplit : Str.splitOnce ':' line with
    | none => simp [Str.splitOnce_eq_none_iff.1 hsplit]
    | some entry =>
      obtain ⟨name, value⟩ := entry
      have hcolon : ':' ∈ line := by
        rw [(Str.splitOnce_eq_some_iff.1 hsplit).1]
        simp
      simp only [hcolon, true_and]
      by_cases hlength : Str.eqIgnoreAsciiCase name "content-length".toList = true
      · have hcodings : codings (line :: lines) = codings lines := by
          unfold codings
          rw [fieldValues_cons_of_ne hsplit (not_transferEncoding_of_contentLength hlength)]
        have hlengths : lengthValues (line :: lines) = value :: lengthValues lines :=
          fieldValues_cons_of_eq hsplit hlength lines
        rw [if_pos hlength, hcodings, hlengths]
        cases hparse : Str.fromStrRadix 10 usizeMax (Str.trim value) with
        | none => cases contentLength <;> simp [LengthAfter, hparse]
        | some n =>
          rw [lengthAfter_cons hparse]
          cases contentLength with
          | some m => simp
          | none =>
            rw [if_neg (by simp)]
            simp only [ih htail, true_and]
      have hlengths : lengthValues (line :: lines) = lengthValues lines :=
        fieldValues_cons_of_ne hsplit hlength lines
      rw [if_neg hlength, hlengths]
      by_cases hencoding : Str.eqIgnoreAsciiCase name "transfer-encoding".toList = true
      · have hcodings : codings (line :: lines) = value.splitOn ',' ++ codings lines := by
          unfold codings
          rw [fieldValues_cons_of_eq hsplit hencoding, List.flatMap_cons]
        rw [if_pos hencoding, hcodings, List.map_append, List.forall_mem_append]
        cases hpush : pushCodings (value.splitOn ',') transferCodings with
        | error status =>
          have hbad : ¬ ∀ coding ∈ value.splitOn ',', Str.trim coding ≠ [] := fun hall => by
            have hok : pushCodings (value.splitOn ',') transferCodings = .ok _ :=
              pushCodings_eq_ok_iff.2 ⟨hall, rfl⟩
            rw [hpush] at hok
            cases hok
          simp only [hbad, false_and, and_false, reduceCtorEq]
        | ok pushed =>
          obtain ⟨hall, rfl⟩ := pushCodings_eq_ok_iff.1 hpush
          have hall : (∀ coding ∈ value.splitOn ',', Str.trim coding ≠ []) = True := eq_true hall
          simp only [ih htail, List.append_assoc, hall, true_and]
      · have hcodings : codings (line :: lines) = codings lines := by
          unfold codings
          rw [fieldValues_cons_of_ne hsplit hencoding]
        rw [if_neg hencoding, hcodings, ih htail]

/-- The decision of the code, in terms of the values of the framing fields. -/
def Decides (lines : List Str) : BodyFraming → Prop
  | .none => lengthValues lines = [] ∧ codings lines = []
  | .length n => codings lines = [] ∧ ∃ value, lengthValues lines = [value] ∧
      Str.fromStrRadix 10 usizeMax (Str.trim value) = some n
  | .chunked => lengthValues lines = [] ∧
      (codings lines).map canonicalCoding = ["chunked".toList]

/-- The decision of the code depends on the values of the framing fields only. -/
lemma decides_congr {lines lines' : List Str} {framing : BodyFraming}
    (hlength : lengthValues lines' = lengthValues lines)
    (hcodings : codings lines' = codings lines) :
    Decides lines' framing ↔ Decides lines framing := by
  cases framing <;> simp only [Decides, hlength, hcodings]

/-- **What the code decides** on header lines that are not empty.

**Proof sketch.** The loop over the lines ends with the declared length and the codings
(`headerLoop_eq_ok_iff`). From them the code decides by cases: both declared is an error, and so is
a coding that is not `chunked` alone; conversely each framing says what the loop has ended with. -/
theorem bodyFraming_eq_ok_iff {lines : List Str} (hne : ∀ line ∈ lines, line ≠ [])
    {framing : BodyFraming} :
    bodyFraming lines = .ok framing ↔ (∀ line ∈ lines, ':' ∈ line) ∧ Decides lines framing := by
  unfold bodyFraming
  constructor
  · intro h
    cases hloop : headerLoop lines none [] with
    | error status => simp [hloop] at h
    | ok result =>
      obtain ⟨contentLength, transferCodings⟩ := result
      obtain ⟨hcolon, -, htransfer, hafter⟩ := (headerLoop_eq_ok_iff hne).1 hloop
      simp only [hloop] at h
      rw [List.nil_append] at htransfer
      refine ⟨hcolon, ?_⟩
      by_cases hboth : contentLength.isSome ∧ transferCodings ≠ []
      · rw [if_pos hboth] at h
        cases h
      rw [if_neg hboth] at h
      by_cases hsome : transferCodings ≠ []
      · rw [if_pos hsome] at h
        by_cases hchunked : transferCodings ≠ ["chunked".toList]
        · rw [if_pos hchunked] at h
          cases h
        rw [if_neg hchunked] at h
        cases h
        rcases hafter with ⟨hvalues, -⟩ | ⟨-, -, n, -, -, rfl⟩
        · exact ⟨hvalues, by rw [← htransfer, not_not.1 hchunked]⟩
        · exact absurd ⟨rfl, hsome⟩ hboth
      · rw [if_neg hsome] at h
        have hcodings : codings lines = [] := by
          rw [not_not.1 hsome] at htransfer
          exact List.map_eq_nil_iff.1 htransfer.symm
        rcases hafter with ⟨hvalues, rfl⟩ | ⟨-, value, n, hvalues, hn, rfl⟩
        · cases h
          exact ⟨hvalues, hcodings⟩
        · cases h
          exact ⟨hcodings, value, hvalues, hn⟩
  · intro h
    obtain ⟨hcolon, hdecides⟩ := h
    cases framing with
    | none =>
      obtain ⟨hvalues, hcodings⟩ := hdecides
      have hloop : headerLoop lines none [] = .ok (none, []) := by
        refine (headerLoop_eq_ok_iff hne).2 ⟨hcolon, ?_, ?_, .inl ⟨hvalues, rfl⟩⟩
        · simp [hcodings]
        · simp [hcodings]
      simp [hloop]
    | length n =>
      obtain ⟨hcodings, value, hvalues, hn⟩ := hdecides
      have hloop : headerLoop lines none [] = .ok (some n, []) := by
        refine (headerLoop_eq_ok_iff hne).2
          ⟨hcolon, ?_, ?_, .inr ⟨rfl, value, n, hvalues, hn, rfl⟩⟩
        · simp [hcodings]
        · simp [hcodings]
      simp [hloop]
    | chunked =>
      obtain ⟨hvalues, hcodings⟩ := hdecides
      have hne' : ∀ coding ∈ codings lines, Str.trim coding ≠ [] := by
        intro coding hmem htrim
        have hcanonical : canonicalCoding coding ∈ (codings lines).map canonicalCoding :=
          List.mem_map_of_mem hmem
        rw [hcodings, List.mem_singleton, canonicalCoding, htrim] at hcanonical
        revert hcanonical
        decide
      have hloop : headerLoop lines none [] = .ok (none, ["chunked".toList]) := by
        refine (headerLoop_eq_ok_iff hne).2 ⟨hcolon, hne', ?_, .inl ⟨hvalues, rfl⟩⟩
        rw [hcodings, List.nil_append]
      simp [hloop]

/-! ## The strict decision -/

/-- The white space that may surround a header value: spaces and tabs. -/
def isOws (c : Char) : Bool := c = ' ' || c = '\t'

/-- A header value without the spaces and tabs around it. -/
def trimOws (s : Str) : Str := (s.dropWhile isOws).rdropWhile isOws

/-- The strict decision: a single `Content-Length` of decimal digits only, or the single coding
`chunked`, and never both fields. -/
def Declares (lines : List Str) : BodyFraming → Prop
  | .none => lengthValues lines = [] ∧ fieldValues "transfer-encoding".toList lines = []
  | .length n => fieldValues "transfer-encoding".toList lines = [] ∧
      ∃ value, lengthValues lines = [value] ∧ Str.numeral 10 (trimOws value) = some n ∧ n < 2 ^ 64
  | .chunked => lengthValues lines = [] ∧
      (codings lines).map (fun coding => Str.toAsciiLowercase (trimOws coding)) =
        ["chunked".toList]

/-- `extract_body_headers` decides strictly on a head: it returns what the head declares, and an
error when it declares nothing consistent. -/
def Strict (head : Str) : Prop :=
  (∀ framing, extractBodyHeaders head = .ok framing ↔ Declares (headerLines head) framing) ∧
    ((∃ status, extractBodyHeaders head = .error status) ↔
      ∀ framing, ¬ Declares (headerLines head) framing)

/-- The framing headers are plainly written: a declared length that counts has no plus sign,
and neither it nor the coding `chunked` is surrounded by white space other than spaces and
tabs. -/
structure PlainlyWritten (lines : List Str) : Prop where
  length : codings lines = [] → ∀ value, lengthValues lines = [value] → ∀ n < 2 ^ 64,
    (Str.numeral 10 (Str.trim value) = some n → Str.trim value = trimOws value) ∧
      ∀ digits, Str.trim value = '+' :: digits → Str.numeral 10 digits ≠ some n
  coding : lengthValues lines = [] → ∀ coding, codings lines = [coding] →
    canonicalCoding coding = "chunked".toList → Str.trim coding = trimOws coding

/-- Optional white space is white space for Rust, too. -/
lemma isWhitespace_of_isOws {c : Char} (h : isOws c = true) : Str.isWhitespace c = true := by
  simp only [isOws, Bool.or_eq_true, decide_eq_true_eq] at h
  rcases h with rfl | rfl <;> decide

/-- The two ways of trimming agree when spaces and tabs are the only white space. -/
lemma trim_eq_trimOws {s : Str} (h : ∀ c ∈ trimOws s, Str.isWhitespace c = false) :
    Str.trim s = trimOws s := by
  obtain ⟨a, b, hs, ha, hb⟩ : ∃ a b, s = a ++ trimOws s ++ b ∧ (∀ c ∈ a, isOws c = true) ∧
      ∀ c ∈ b, isOws c = true := Str.exists_trim isOws s
  calc Str.trim s = Str.trim (a ++ trimOws s ++ b) := by rw [← hs]
    _ = trimOws s := Str.trim_append (fun c hc => isWhitespace_of_isOws (ha c hc))
        (Str.trim_of_forall h)
        fun c hc => isWhitespace_of_isOws (hb c hc)

/-- Around a number, Rust strips what the grammar strips. -/
lemma trim_eq_of_numeral {s : Str} {radix n : ℕ} (h : Str.numeral radix (trimOws s) = some n) :
    Str.trim s = trimOws s :=
  trim_eq_trimOws (Str.isWhitespace_of_numeral h)

/-- Around the name of the coding, too. -/
lemma trim_eq_of_chunked {s : Str} (h : Str.toAsciiLowercase (trimOws s) = "chunked".toList) :
    Str.trim s = trimOws s := by
  refine trim_eq_trimOws fun c hc => ?_
  by_contra hspace
  have hspace : Str.isWhitespace c = true := by simpa using hspace
  have hmem : c.toLower ∈ Str.toAsciiLowercase (trimOws s) := List.mem_map_of_mem hc
  rw [h, Str.isWhitespace_toLower c hspace] at hmem
  have hall : ∀ d ∈ "chunked".toList, Str.isWhitespace d = false :=
    Str.not_isWhitespace_of_all (by decide)
  rw [hall c hmem] at hspace
  cases hspace

/-- No transfer coding is declared when no line is of that field. -/
lemma codings_eq_nil_iff {lines : List Str} :
    codings lines = [] ↔ fieldValues "transfer-encoding".toList lines = [] := by
  unfold codings
  rw [List.flatMap_eq_nil_iff]
  constructor
  · intro h
    refine List.eq_nil_iff_forall_not_mem.2 fun value hvalue => ?_
    exact List.splitOn_ne_nil ',' value (h value hvalue)
  · intro h value hvalue
    rw [h] at hvalue
    cases hvalue

/-- The code decides strictly when its decision is the strict one. -/
lemma strict_iff {head : Str} (hcolon : ∀ line ∈ headerLines head, ':' ∈ line) :
    Strict head ↔
      ∀ framing, Decides (headerLines head) framing ↔ Declares (headerLines head) framing := by
  have hne : ∀ line ∈ headerLines head, line ≠ [] := by
    intro line hline hnil
    simpa [hnil] using hcolon line hline
  have hok : ∀ framing, extractBodyHeaders head = .ok framing ↔
      Decides (headerLines head) framing := by
    intro framing
    have hiff : extractBodyHeaders head = .ok framing ↔ _ := bodyFraming_eq_ok_iff hne
    rwa [and_iff_right hcolon] at hiff
  constructor
  · intro h framing
    rw [← hok, h.1]
  · intro h
    have hdeclares : ∀ framing, extractBodyHeaders head = .ok framing ↔
        Declares (headerLines head) framing := fun framing => by rw [hok, h]
    refine ⟨hdeclares, ?_⟩
    simp only [← hdeclares]
    cases extractBodyHeaders head with
    | error status => simp
    | ok framing => simp

/-- Where the code decides strictly, the framing headers are plainly written. -/
lemma plainlyWritten_of_decides {lines : List Str}
    (h : ∀ framing, Decides lines framing ↔ Declares lines framing) : PlainlyWritten lines := by
  have hmax : usizeMax = 2 ^ 64 - 1 := rfl
  constructor
  · intro hcodings value hvalue n hn
    have hle : n ≤ usizeMax := by omega
    have hstrict : Str.fromStrRadix 10 usizeMax (Str.trim value) = some n →
        Str.numeral 10 (trimOws value) = some n := by
      intro hparse
      obtain ⟨-, value', hvalue', hstrict, -⟩ :=
        (h (.length n)).1 ⟨hcodings, value, hvalue, hparse⟩
      obtain rfl : value = value' := by simpa [hvalue] using hvalue'
      exact hstrict
    constructor
    · intro hnumeral
      have hparse := (Str.fromStrRadix_eq_some_iff (by decide)).2 ⟨.inl hnumeral, hle⟩
      exact trim_eq_of_numeral (hstrict hparse)
    · intro digits hplus hnumeral
      have hparse := (Str.fromStrRadix_eq_some_iff (by decide)).2
        ⟨.inr ⟨digits, hplus, hnumeral⟩, hle⟩
      have hdigits := hstrict hparse
      rw [← trim_eq_of_numeral hdigits, hplus,
        Str.numeral_cons_of_none (Str.toDigit_plus 10)] at hdigits
      cases hdigits
  · intro hvalues coding hcoding hchunked
    have hmap : (codings lines).map canonicalCoding = ["chunked".toList] := by
      rw [hcoding, List.map_singleton, hchunked]
    obtain ⟨-, hstrict⟩ := (h .chunked).1 ⟨hvalues, hmap⟩
    rw [hcoding, List.map_singleton, List.singleton_inj] at hstrict
    exact trim_eq_of_chunked hstrict

/-- On plainly written framing headers the code decides strictly. -/
lemma PlainlyWritten.decides_iff {lines : List Str} (hplain : PlainlyWritten lines)
    (framing : BodyFraming) : Decides lines framing ↔ Declares lines framing := by
  have hmax : usizeMax = 2 ^ 64 - 1 := rfl
  cases framing with
  | none =>
    unfold Decides Declares
    rw [codings_eq_nil_iff]
  | length n =>
    unfold Decides Declares
    rw [← codings_eq_nil_iff]
    refine and_congr_right fun hcodings => exists_congr fun value => ?_
    refine and_congr_right fun hvalue => ?_
    rw [Str.fromStrRadix_eq_some_iff (by decide)]
    constructor
    · intro h
      obtain ⟨hnumeral, hle⟩ := h
      have hlt : n < 2 ^ 64 := by omega
      obtain ⟨hspace, hplus⟩ := hplain.length hcodings value hvalue n hlt
      rcases hnumeral with hnumeral | ⟨digits, hsign, hnumeral⟩
      · exact ⟨by rw [← hspace hnumeral, hnumeral], hlt⟩
      · exact absurd hnumeral (hplus digits hsign)
    · intro h
      obtain ⟨hstrict, hlt⟩ := h
      exact ⟨.inl (by rw [trim_eq_of_numeral hstrict, hstrict]), by omega⟩
  | chunked =>
    unfold Decides Declares
    refine and_congr_right fun hvalues => ?_
    rw [List.map_eq_singleton_iff, List.map_eq_singleton_iff]
    refine exists_congr fun coding => and_congr_right fun hcoding => ?_
    constructor
    · intro h
      rw [← hplain.coding hvalues coding hcoding h]
      exact h
    · intro h
      unfold canonicalCoding
      rw [trim_eq_of_chunked h, h]

/-- **`extract_body_headers` is strict exactly on plainly written heads.**

**Proof sketch.** Digits and the letters of `chunked` are no white space, so whatever the
strict decision accepts, the code reads the same way. Conversely the code accepts a numeral
with a plus sign or other white space around it, and a coding with such white space; a plainly
written head has none of these. -/
theorem extractBodyHeaders_strict_iff {head : Str}
    (hcolon : ∀ line ∈ headerLines head, ':' ∈ line) :
    Strict head ↔ PlainlyWritten (headerLines head) := by
  rw [strict_iff hcolon]
  constructor
  · intro h
    exact plainlyWritten_of_decides h
  · intro hplain framing
    exact hplain.decides_iff framing

/-- A head whose only framing header is written with a plus sign. -/
def signedHead : Str := "POST / HTTP/1.1\r\nContent-Length: +5".toList

/-- The head whose length has a sign is one to which the equivalence applies. -/
theorem signedHead_strict_iff :
    (∀ line ∈ headerLines signedHead, ':' ∈ line) ∧
      (Strict signedHead ↔ PlainlyWritten (headerLines signedHead)) :=
  ⟨by decide, extractBodyHeaders_strict_iff (by decide)⟩

/-- The code takes the signed length for a length. -/
theorem signedHead_not_strict :
    (∀ line ∈ headerLines signedHead, ':' ∈ line) ∧ ¬ Strict signedHead := by
  refine ⟨by decide, fun h => ?_⟩
  have hok : extractBodyHeaders signedHead = .ok (.length 5) := by decide
  obtain ⟨-, value, hvalue, hnumeral, -⟩ := (h.1 _).1 hok
  have hvalues : lengthValues (headerLines signedHead) = [" +5".toList] := by decide
  obtain rfl : " +5".toList = value := by simpa [hvalues] using hvalue
  revert hnumeral
  decide

end Httpageboy
