import Httpageboy.Framing.Conservation

set_option relaxedAutoImplicit false
set_option autoImplicit false

/-!
# The grammar of chunked bodies

The chunked bodies that the framer accepts are the sentences of a grammar. It is wider than the
strict grammar of the protocol: white space may surround the size, an extension is any text up
to the line break, and a trailer line only has to contain a colon.

## Main definitions

* `Httpageboy.Sentence` — chunked bodies over a grammar of size lines and of trailer fields.
* `Httpageboy.StrictLine`, `Httpageboy.StrictField` — the strict grammar.
* `Httpageboy.LenientLine`, `Httpageboy.LenientField` — the grammar of the framer.

## Main results

* `Httpageboy.takeFramedRequest_sentence` — what the framer consumes behind a head with chunked
  framing is a sentence of the lenient grammar.
* `Httpageboy.laxBodies_not_strict` — it need not be one of the strict grammar.
-/

namespace Httpageboy

open Search

/-! ## Sentences -/

/-- Chunked bodies on the wire, with the data they carry, over a grammar of the lines that
announce a size and a grammar of the trailer fields. -/
inductive Sentence (Line : Bytes → ℕ → Prop) (Field : Str → Prop) : Bytes → Bytes → Prop
  | last {line : Bytes} {fields : List Str} (hline : Line line 0)
      (hfields : ∀ field ∈ fields, Field field) :
      Sentence Line Field
        (line ++ crlf ++ (Utf8.encode (unlines '\r' '\n' fields) ++ crlf)) []
  | chunk {line data wire body : Bytes} (hline : Line line data.length) (hdata : data ≠ [])
      (hwire : Sentence Line Field wire body) :
      Sentence Line Field (line ++ crlf ++ data ++ crlf ++ wire) (data ++ body)

/-- A size line of the protocol: hexadecimal digits, then nothing or an extension that starts
with a semicolon, after optional spaces and tabs, and contains no bare CR or LF. -/
def StrictLine (line : Bytes) (size : ℕ) : Prop :=
  ∃ digits extension : Str, line = Utf8.encode (digits ++ extension) ∧
    Str.numeral 16 digits = some size ∧
    (extension = [] ∨ ∃ ows text, extension = ows ++ ';' :: text ∧ (∀ c ∈ ows, isOws c = true) ∧
      '\r' ∉ text ∧ '\n' ∉ text)

/-- A trailer field of the protocol: a name that is a nonempty token, directly followed by a
colon. -/
def StrictField (field : Str) : Prop :=
  ∃ name value : Str, field = name ++ ':' :: value ∧ name ≠ [] ∧ ∀ c ∈ name, isTchar c = true

/-- A size line of the framer: hexadecimal digits, with a plus sign in front of them or not and
with white space around them, then nothing or a semicolon and any text without a line break. -/
structure LenientLine (line : Bytes) (size : ℕ) : Prop where
  text : ∃ before sign digits after extension : Str,
    line = Utf8.encode (before ++ (sign ++ digits) ++ after ++ extension) ∧
    (∀ c ∈ before, Str.isWhitespace c = true) ∧ (sign = [] ∨ sign = ['+']) ∧
    Str.numeral 16 digits = some size ∧ (∀ c ∈ after, Str.isWhitespace c = true) ∧
    (extension = [] ∨ ∃ text, extension = ';' :: text)
  noCrlf : ¬ crlf <:+: line

/-- A trailer field of the framer: a line with a colon. -/
def LenientField (field : Str) : Prop := ':' ∈ field ∧ ¬ ['\r', '\n'] <:+: field

/-! ## The framer accepts sentences only -/

/-- An accepted size line is a lenient one. -/
lemma lenientLine_of_sizeLine {line : Bytes} {size : ℕ} (h : SizeLine line size) :
    LenientLine line size := by
  constructor
  · have hsize := h.size
    unfold chunkSize at hsize
    cases htext : Utf8.decode line with
    | none => simp [htext] at hsize
    | some text =>
      simp only [htext] at hsize
      obtain ⟨extension, htextEq, hextension⟩ := Str.exists_of_splitOn ';' text
      generalize (text.splitOn ';').headD [] = sizeText at hsize htextEq
      by_cases hempty : Str.trim sizeText = []
      · simp [hempty] at hsize
      rw [if_neg hempty] at hsize
      cases hparse : Str.fromStrRadix 16 u64Max (Str.trim sizeText) with
      | none => simp [hparse] at hsize
      | some n =>
        have hn : n = size := by
          simp only [hparse] at hsize
          split_ifs at hsize
          simpa using hsize
        subst hn
        obtain ⟨before, after, htrim, hbefore, hafter⟩ := Str.exists_trim Str.isWhitespace sizeText
        change sizeText = before ++ Str.trim sizeText ++ after at htrim
        have hline : line = Utf8.encode (before ++ Str.trim sizeText ++ after ++ extension) := by
          rw [← htrim, ← htextEq]
          exact (Utf8.decode_eq_some_iff.1 htext)
        obtain ⟨hnumeral, -⟩ := (Str.fromStrRadix_eq_some_iff (by decide)).1 hparse
        rcases hnumeral with hnumeral | ⟨digits, hplus, hnumeral⟩
        · exact ⟨before, [], Str.trim sizeText, after, extension, hline, hbefore, .inl rfl,
            hnumeral, hafter, hextension⟩
        · rw [hplus] at hline
          exact ⟨before, ['+'], digits, after, extension, hline, hbefore, .inr rfl, hnumeral,
            hafter, hextension⟩
  · intro hinfix
    obtain ⟨u, v, huv⟩ := hinfix
    have hmin := (position_eq_some_iff.1 h.crlf).2 u (v ++ crlf) (by simp [← huv])
    have hlen := congrArg List.length huv
    simp only [List.length_append, crlf, List.length_cons, List.length_nil] at hlen
    omega

/-- An accepted trailer section is a block of lenient fields and an empty line. -/
lemma exists_fields_of_trailerSection {bytes : Bytes} (h : TrailerSection bytes) :
    ∃ fields : List Str, bytes = Utf8.encode (unlines '\r' '\n' fields) ++ crlf ∧
      ∀ field ∈ fields, LenientField field := by
  rcases h with rfl | ⟨trailer, rfl, hlines⟩
  · exact ⟨[], rfl, by simp⟩
  · refine ⟨splitPair '\r' '\n' trailer, ?_, fun field hfield => ?_⟩
    · rw [unlines_splitPair, Utf8.encode_append, List.append_assoc]
      rfl
    · exact ⟨(hlines field hfield).2, not_infix_of_mem_splitPair hfield⟩

/-- The chunked bodies of the framer are sentences of the lenient grammar. -/
lemma sentence_of_chunkedBody {wire body : Bytes} (h : ChunkedBody wire body) :
    Sentence LenientLine LenientField wire body := by
  induction h with
  | last hline htrailer =>
    obtain ⟨fields, rfl, hfields⟩ := exists_fields_of_trailerSection htrailer
    exact .last (lenientLine_of_sizeLine hline) hfields
  | chunk hline hdata hwire ih =>
    exact .chunk (lenientLine_of_sizeLine hline) hdata ih

/-- **What the framer consumes behind a head with chunked framing is a sentence** of the lenient
grammar, and the data of the sentence are the body of the request. -/
theorem takeFramedRequest_sentence {buffer tail raw rest : Bytes} {head : Str}
    {limits : RequestLimits} {idleEnd : Bool} (hsplit : BlankSplit buffer head tail)
    (hframing : extractBodyHeaders head = .ok .chunked)
    (h : takeFramedRequest buffer limits idleEnd = (.ok (some raw), rest)) :
    ∃ wire body, tail = wire ++ rest ∧ raw = Utf8.encode head ++ crlfcrlf ++ body ∧
      Sentence LenientLine LenientField wire body := by
  obtain ⟨head', tail', framing, body, hsplit', -, hframing', hraw, hbody⟩ :=
    takeFramedRequest_eq_some_iff.1 h
  obtain ⟨rfl, rfl⟩ := hsplit.unique hsplit'
  rw [hframing, Except.ok.injEq] at hframing'
  subst hframing'
  obtain ⟨wire, htail, hcarries⟩ := exists_carries hbody
  exact ⟨wire, body, htail, hraw, sentence_of_chunkedBody hcarries⟩

/-! ## The strict grammar is narrower -/

/-- A head with chunked framing. -/
def chunkedHead : Str := "POST / HTTP/1.1\r\nTransfer-Encoding: chunked".toList

/-- The receive buffer of a request with that head and the given text behind it. -/
def chunkedBuffer (wire : Str) : Bytes := Utf8.encode (chunkedHead ++ "\r\n\r\n".toList ++ wire)

/-- The buffer is a head, the blank line and the text. -/
lemma chunkedBuffer_eq (wire : Str) :
    chunkedBuffer wire = Utf8.encode chunkedHead ++ crlfcrlf ++ Utf8.encode wire := by
  have hblank : Utf8.encode "\r\n\r\n".toList = crlfcrlf := by
    rewrite [String.toList_ofList]
    decide
  rw [chunkedBuffer, Utf8.encode_append, Utf8.encode_append, hblank]

/-- The head ends at the first blank line. -/
lemma chunkedBuffer_split (wire : Str) :
    BlankSplit (chunkedBuffer wire) chunkedHead (Utf8.encode wire) := by
  have hempty : BlankSplit (chunkedBuffer []) chunkedHead [] := by
    refine ⟨chunkedBuffer_eq [], ?_⟩
    unfold chunkedBuffer chunkedHead
    rewrite [String.toList_ofList]
    decide
  rw [chunkedBuffer_eq]
  exact hempty.replace (Utf8.encode wire)

/-- The head declares a chunked body. -/
lemma extractBodyHeaders_chunkedHead : extractBodyHeaders chunkedHead = .ok .chunked := by
  unfold chunkedHead
  rewrite [String.toList_ofList]
  decide

/-- The length of the head. -/
lemma length_chunkedHead : (Utf8.encode chunkedHead).length = 43 := by
  unfold chunkedHead
  rewrite [String.toList_ofList]
  decide

/-- The framer takes what the chunk loop decodes. -/
lemma takeFramedRequest_chunkedBuffer {wire : Str} {body rest : Bytes}
    (h : chunkLoop RequestLimits.default 47 (Utf8.encode wire) [] 0 = .ok (some (body, rest))) :
    takeFramedRequest (chunkedBuffer wire) RequestLimits.default false =
      (.ok (some (Utf8.encode chunkedHead ++ crlfcrlf ++ body)), rest) := by
  have hlimit : (Utf8.encode chunkedHead).length + 4 ≤ RequestLimits.default.headerBytes := by
    rw [length_chunkedHead]
    decide
  have hbody : BodyTaken RequestLimits.default false chunkedHead (Utf8.encode wire) body rest
      .chunked := by
    unfold BodyTaken
    rw [length_chunkedHead]
    exact h
  exact takeFramedRequest_eq_some_iff.2 ⟨chunkedHead, Utf8.encode wire, .chunked, body,
    chunkedBuffer_split wire, hlimit, extractBodyHeaders_chunkedHead, rfl, hbody⟩

/-- What is framed in front of a second request is a sentence of the grammar. -/
theorem chunkedBuffer_sentence :
    ∃ wire body, Utf8.encode "3;a\r\nabc\r\n0\r\n\r\nGET".toList =
        wire ++ Utf8.encode "GET".toList ∧
      Utf8.encode (chunkedHead ++ "\r\n\r\nabc".toList) =
        Utf8.encode chunkedHead ++ crlfcrlf ++ body ∧
      Sentence LenientLine LenientField wire body := by
  have hloop : chunkLoop RequestLimits.default 47
      (Utf8.encode "3;a\r\nabc\r\n0\r\n\r\nGET".toList) [] 0 =
        .ok (some (Utf8.encode "abc".toList, Utf8.encode "GET".toList)) := by
    rewrite [String.toList_ofList, String.toList_ofList, String.toList_ofList]
    decide +kernel
  have hdata : Utf8.encode "\r\n\r\nabc".toList = crlfcrlf ++ Utf8.encode "abc".toList := by
    rewrite [String.toList_ofList, String.toList_ofList]
    decide
  rw [Utf8.encode_append, hdata, ← List.append_assoc]
  exact takeFramedRequest_sentence (chunkedBuffer_split _) extractBodyHeaders_chunkedHead
    (takeFramedRequest_chunkedBuffer hloop)

/-- A strict size line has no CR, no LF and starts with a digit. -/
lemma StrictLine.spec {line : Bytes} {size : ℕ} (h : StrictLine line size) :
    ∃ text : Str, line = Utf8.encode text ∧ '\r' ∉ text ∧ '\n' ∉ text ∧
      ∃ c text', text = c :: text' ∧ Str.isWhitespace c = false := by
  obtain ⟨digits, extension, rfl, hnumeral, hextension⟩ := h
  have hspace := Str.isWhitespace_of_numeral hnumeral
  have hdigits : '\r' ∉ digits ∧ '\n' ∉ digits := by
    constructor
    · intro hmem
      have hcr := hspace _ hmem
      revert hcr
      decide
    · intro hmem
      have hlf := hspace _ hmem
      revert hlf
      decide
  have hext : '\r' ∉ extension ∧ '\n' ∉ extension := by
    rcases hextension with rfl | ⟨ows, text, rfl, hows, hcr, hlf⟩
    · simp
    · have howsCr : '\r' ∉ ows := fun hmem => by
        have := hows _ hmem
        revert this
        decide
      have howsLf : '\n' ∉ ows := fun hmem => by
        have := hows _ hmem
        revert this
        decide
      simp [howsCr, howsLf, hcr, hlf]
  obtain ⟨hne, -⟩ := Str.numeral_eq_some_iff.1 hnumeral
  obtain ⟨c, digits, rfl⟩ := List.exists_cons_of_ne_nil hne
  refine ⟨c :: digits ++ extension, rfl, ?_, ?_, c, digits ++ extension, rfl,
    hspace c List.mem_cons_self⟩
  · intro hmem
    exact (List.mem_append.1 hmem).elim hdigits.1 hext.1
  · intro hmem
    exact (List.mem_append.1 hmem).elim hdigits.2 hext.2

/-- The bytes of a text up to its first CR. -/
def firstLine (wire : Bytes) : Bytes := wire.takeWhile (· ≠ 13)

/-- A strict line ends at the first CR of what starts with it. -/
lemma StrictLine.firstLine_eq {line rest : Bytes} {size : ℕ} (h : StrictLine line size) :
    firstLine (line ++ crlf ++ rest) = line := by
  obtain ⟨text, rfl, hcr, -⟩ := h.spec
  have hbytes : ∀ b ∈ Utf8.encode text, b ≠ 13 := by
    intro b hb hcrByte
    subst hcrByte
    exact hcr ((Utf8.mem_encode_iff (by decide)).1 hb)
  unfold firstLine
  rw [List.append_assoc, List.takeWhile_append_of_pos (by simpa using hbytes)]
  simp [crlf]

/-- A strict sentence is a strict line, ended by the first CR, with either the trailer section
behind it or data. -/
lemma strict_cases {wire body : Bytes} (h : Sentence StrictLine StrictField wire body) :
    (∃ fields : List Str, StrictLine (firstLine wire) 0 ∧ (∀ field ∈ fields, StrictField field) ∧
        wire = firstLine wire ++ crlf ++ (Utf8.encode (unlines '\r' '\n' fields) ++ crlf)) ∨
      ∃ size, size ≠ 0 ∧ StrictLine (firstLine wire) size := by
  cases h with
  | last hline hfields =>
    rw [hline.firstLine_eq]
    exact .inl ⟨_, hline, hfields, rfl⟩
  | @chunk line data wire body hline hdata hwire =>
    have hassoc : line ++ crlf ++ data ++ crlf ++ wire =
        line ++ crlf ++ (data ++ crlf ++ wire) := by simp only [List.append_assoc]
    rw [hassoc, hline.firstLine_eq]
    refine .inr ⟨data.length, ?_, hline⟩
    simpa using hdata

/-- The framer takes this text for a chunked body, and the strict grammar does not have it. -/
def AcceptedNotStrict (wire : Str) : Prop :=
  BlankSplit (chunkedBuffer wire) chunkedHead (Utf8.encode wire) ∧
    takeFramedRequest (chunkedBuffer wire) RequestLimits.default false =
      (.ok (some (chunkedBuffer [])), []) ∧
    ∀ body, ¬ Sentence StrictLine StrictField (Utf8.encode wire) body

/-- The first line of a strict sentence is a strict size line. -/
lemma exists_strictLine {wire body line : Bytes}
    (h : Sentence StrictLine StrictField wire body) (hfirst : firstLine wire = line) :
    ∃ size, StrictLine line size := by
  rw [← hfirst]
  rcases strict_cases h with ⟨-, hline, -⟩ | ⟨size, -, hline⟩
  · exact ⟨0, hline⟩
  · exact ⟨size, hline⟩

/-- The framer takes a text that the chunk loop decodes to nothing. -/
lemma acceptedNotStrict_of {wire : Str}
    (hloop : chunkLoop RequestLimits.default 47 (Utf8.encode wire) [] 0 = .ok (some ([], [])))
    (hstrict : ∀ body, ¬ Sentence StrictLine StrictField (Utf8.encode wire) body) :
    AcceptedNotStrict wire := by
  refine ⟨chunkedBuffer_split wire, ?_, hstrict⟩
  rw [takeFramedRequest_chunkedBuffer hloop, (chunkedBuffer_split []).eq]
  rfl

/-- White space in front of a size. -/
lemma acceptedNotStrict_space : AcceptedNotStrict " 0\r\n\r\n".toList := by
  have hloop : chunkLoop RequestLimits.default 47 (Utf8.encode " 0\r\n\r\n".toList) [] 0 =
      .ok (some ([], [])) := by
    rewrite [String.toList_ofList]
    decide +kernel
  refine acceptedNotStrict_of hloop fun body h => ?_
  have hfirst : firstLine (Utf8.encode " 0\r\n\r\n".toList) = Utf8.encode " 0".toList := by
    rewrite [String.toList_ofList, String.toList_ofList]
    decide
  obtain ⟨size, hline⟩ := exists_strictLine h hfirst
  obtain ⟨text, htext, -, -, c, text', rfl, hspace⟩ := hline.spec
  have hcons : [' ', '0'] = c :: text' := Utf8.encode_injective htext
  cases hcons
  revert hspace
  decide

/-- A bare LF in an extension. -/
lemma acceptedNotStrict_extension : AcceptedNotStrict "0;\n\r\n\r\n".toList := by
  have hloop : chunkLoop RequestLimits.default 47 (Utf8.encode "0;\n\r\n\r\n".toList) [] 0 =
      .ok (some ([], [])) := by
    rewrite [String.toList_ofList]
    decide +kernel
  refine acceptedNotStrict_of hloop fun body h => ?_
  have hfirst : firstLine (Utf8.encode "0;\n\r\n\r\n".toList) = Utf8.encode "0;\n".toList := by
    rewrite [String.toList_ofList, String.toList_ofList]
    decide
  obtain ⟨size, hline⟩ := exists_strictLine h hfirst
  obtain ⟨text, htext, -, hlf, -⟩ := hline.spec
  have hmem : '\n' ∈ text := by
    rw [← Utf8.encode_injective htext]
    decide
  exact hlf hmem

/-- A trailer field without a name.

**Proof sketch.** The size line is `0`, which announces no data, so the rest is a trailer section;
its only field starts with a colon, and a name would have to start with a token character. -/
lemma acceptedNotStrict_trailer : AcceptedNotStrict "0\r\n:\r\n\r\n".toList := by
  have hloop : chunkLoop RequestLimits.default 47 (Utf8.encode "0\r\n:\r\n\r\n".toList) [] 0 =
      .ok (some ([], [])) := by
    rewrite [String.toList_ofList]
    decide +kernel
  refine acceptedNotStrict_of hloop fun body h => ?_
  have hfirst : firstLine (Utf8.encode "0\r\n:\r\n\r\n".toList) = Utf8.encode "0".toList := by
    rewrite [String.toList_ofList, String.toList_ofList]
    decide
  rcases strict_cases h with ⟨fields, -, hfields, hwire⟩ | ⟨size, hsize, hline⟩
  · rw [hfirst] at hwire
    have hblock : [':', '\r', '\n', '\r', '\n'] = unlines '\r' '\n' fields ++ ['\r', '\n'] := by
      have hbytes : Utf8.encode "0".toList ++ crlf ++ Utf8.encode [':', '\r', '\n', '\r', '\n'] =
          Utf8.encode "0".toList ++ crlf ++ (Utf8.encode (unlines '\r' '\n' fields) ++ crlf) :=
        hwire
      apply Utf8.encode_injective
      rw [Utf8.encode_append]
      exact List.append_cancel_left hbytes
    cases fields with
    | nil => cases hblock
    | cons field fields =>
      obtain ⟨name, value, rfl, hne, hname⟩ := hfields field List.mem_cons_self
      obtain ⟨c, name, rfl⟩ := List.exists_cons_of_ne_nil hne
      have hc : c = ':' := by simpa [eq_comm] using congrArg List.head? hblock
      have htoken := hname c List.mem_cons_self
      rw [hc] at htoken
      revert htoken
      decide
  · rw [hfirst] at hline
    obtain ⟨digits, extension, htext, hnumeral, -⟩ := hline
    obtain ⟨hne, -⟩ := Str.numeral_eq_some_iff.1 hnumeral
    obtain ⟨c, digits, rfl⟩ := List.exists_cons_of_ne_nil hne
    have hcons : ['0'] = c :: digits ++ extension := Utf8.encode_injective htext
    rw [List.cons_append, List.cons.injEq, eq_comm (a := []), List.append_eq_nil_iff] at hcons
    obtain ⟨rfl, rfl, -⟩ := hcons
    have hzero : Str.numeral 16 ['0'] = some 0 := by decide
    rw [hzero] at hnumeral
    exact hsize (by simpa using hnumeral.symm)

/-- The framer accepts bodies that the strict grammar does not have: white space in front of a
size, a bare LF in an extension, a trailer field without a name. -/
theorem laxBodies_not_strict :
    AcceptedNotStrict " 0\r\n\r\n".toList ∧ AcceptedNotStrict "0;\n\r\n\r\n".toList ∧
      AcceptedNotStrict "0\r\n:\r\n\r\n".toList :=
  ⟨acceptedNotStrict_space, acceptedNotStrict_extension, acceptedNotStrict_trailer⟩

end Httpageboy
