import Httpageboy.Framing.Locality

set_option relaxedAutoImplicit false
set_option autoImplicit false

/-!
# Heads and chunked bodies as a client writes them

Heads of header lines, and chunked bodies with every choice the protocol leaves to a client:
the partition into chunks, the spelling of the sizes, extensions and trailers. The structures
carry the proofs of what makes them well-formed.

## Main definitions

* `Httpageboy.fieldLine` — a header entry as a line.
* `Httpageboy.WireChunk`, `Httpageboy.ChunkedCoding` — a chunked body as it is written.

## Main results

* `Httpageboy.blankSplit_joinPair` — a head of nonempty lines ends at the first blank line.
* `Httpageboy.chunkLoop_wire` — the chunk loop decodes what a `ChunkedCoding` encodes.
-/

namespace Httpageboy

open Search

/-! ## Lines -/

/-- The text contains no part of a line break. -/
def OneLine (s : Str) : Prop := '\r' ∉ s ∧ '\n' ∉ s

/-- A header entry as a line. -/
def fieldLine (entry : Str × Str) : Str := entry.1 ++ ':' :: ' ' :: entry.2

/-- The line of a header has a colon. -/
lemma colon_mem_fieldLine (entry : Str × Str) : ':' ∈ fieldLine entry := by
  simp [fieldLine]

/-- The line of a header is not empty. -/
lemma fieldLine_ne_nil (entry : Str × Str) : fieldLine entry ≠ [] := by
  simp [fieldLine]

/-- The line of a header on one line has no carriage return. -/
lemma cr_notMem_fieldLine {entry : Str × Str} (hname : OneLine entry.1) (hvalue : OneLine entry.2) :
    '\r' ∉ fieldLine entry := by
  simp [fieldLine, hname.1, hvalue.1]

/-- Encoding the lines one by one. -/
lemma encode_unlines (lines : List Str) :
    Utf8.encode (unlines '\r' '\n' lines) = unlines 13 10 (lines.map Utf8.encode) := by
  induction lines with
  | nil => rfl
  | cons line lines ih =>
    simp only [unlines_cons, Utf8.encode_append, ih, List.map_cons]
    rfl

/-- A text without a CR is encoded without one. -/
lemma cr_notMem_encode {s : Str} (h : '\r' ∉ s) : (13 : UInt8) ∉ Utf8.encode s := fun hmem =>
  h ((Utf8.mem_encode_iff (by decide)).1 hmem)

/-- Lines without a CR, none of them empty behind the first one, end at the first blank line. -/
lemma blankSplit_joinPair {line : Str} {lines : List Str} (hline : '\r' ∉ line)
    (hlines : ∀ l ∈ lines, '\r' ∉ l ∧ l ≠ []) (tail : Bytes) :
    BlankSplit (Utf8.encode (joinPair '\r' '\n' line lines) ++ crlfcrlf ++ tail)
      (joinPair '\r' '\n' line lines) tail := by
  refine ⟨rfl, ?_⟩
  have hblock : Utf8.encode (joinPair '\r' '\n' line lines) ++ crlf =
      unlines 13 10 (Utf8.encode line :: lines.map Utf8.encode) := by
    have hencode := encode_unlines (line :: lines)
    rw [← joinPair_append, Utf8.encode_append] at hencode
    exact hencode
  have hlen := congrArg List.length hblock
  have hbuffer : Utf8.encode (joinPair '\r' '\n' line lines) ++ crlfcrlf ++ tail =
      unlines 13 10 (Utf8.encode line :: lines.map Utf8.encode) ++ [13, 10] ++ tail := by
    rw [← hblock]
    simp [crlf, crlfcrlf]
  have hbytes : ∀ l ∈ lines.map Utf8.encode, (13 : UInt8) ∉ l ∧ l ≠ [] := by
    intro l hl
    obtain ⟨m, hm, rfl⟩ := List.mem_map.1 hl
    refine ⟨cr_notMem_encode (hlines m hm).1, fun hnil => (hlines m hm).2 ?_⟩
    exact Utf8.encode_injective (by simpa using hnil)
  have hfirst := position_blank_line (by decide : (13 : UInt8) ≠ 10) _ _
    (cr_notMem_encode hline) hbytes tail
  rw [hbuffer]
  change position [13, 10, 13, 10] _ = _
  rw [hfirst]
  simp only [crlf, List.length_append, List.length_cons, List.length_nil] at hlen
  congr 1
  omega

/-! ## Chunked bodies -/

/-- An extension of a size line: nothing, or a semicolon and any text on the same line. -/
def IsExtension (extension : Str) : Prop :=
  (extension = [] ∨ ∃ text, extension = ';' :: text) ∧ OneLine extension

/-- A size line as a client writes it: a hexadecimal numeral in any spelling, and an
extension. -/
structure WireSize (size : ℕ) where
  digits : Str
  extension : Str
  digits_eq : Str.numeral 16 digits = some size
  extension_ok : IsExtension extension

/-- The bytes of a size line, without its terminator. -/
def WireSize.line {size : ℕ} (s : WireSize size) : Bytes := Utf8.encode (s.digits ++ s.extension)

/-- A chunk as a client writes it. -/
structure WireChunk where
  data : Bytes
  size : WireSize data.length
  data_ne : data ≠ []

/-- The bytes of a chunk. -/
def WireChunk.wire (chunk : WireChunk) : Bytes :=
  chunk.size.line ++ crlf ++ chunk.data ++ crlf

/-- A chunked body as a client writes it: chunks, a last chunk of size zero, trailer fields. -/
structure ChunkedCoding where
  chunks : List WireChunk
  last : WireSize 0
  trailers : List (Str × Str)
  trailers_ok : ∀ trailer ∈ trailers, OneLine trailer.1 ∧ OneLine trailer.2

namespace ChunkedCoding

/-- The body that a chunked coding carries. -/
def body (coding : ChunkedCoding) : Bytes := coding.chunks.flatMap WireChunk.data

/-- The bytes of the trailer section, with the blank line that ends it. -/
def trailerSection (coding : ChunkedCoding) : Bytes :=
  Utf8.encode (unlines '\r' '\n' (coding.trailers.map fieldLine)) ++ crlf

/-- The bytes of a chunked coding. -/
def wire (coding : ChunkedCoding) : Bytes :=
  coding.chunks.flatMap WireChunk.wire ++ (coding.last.line ++ crlf ++ coding.trailerSection)

/-- The bytes of the size lines, with their terminators. -/
def sizeBytes (coding : ChunkedCoding) : ℕ :=
  (coding.chunks.map fun chunk => chunk.size.line.length + 2).sum + (coding.last.line.length + 2)

/-- The body is no longer than what carries it. -/
lemma length_body_le (coding : ChunkedCoding) : coding.body.length ≤ coding.wire.length := by
  have hchunks : ∀ chunks : List WireChunk, (chunks.flatMap WireChunk.data).length ≤
      (chunks.flatMap WireChunk.wire).length := by
    intro chunks
    induction chunks with
    | nil => exact Nat.le_refl _
    | cons chunk chunks ih =>
      simp only [List.flatMap_cons, WireChunk.wire, List.length_append] at ih ⊢
      omega
  have hle := hchunks coding.chunks
  unfold body wire
  rw [List.length_append]
  omega

end ChunkedCoding

/-- Hexadecimal digits are neither a semicolon nor a CR. -/
lemma notMem_of_numeral {digits : Str} {size : ℕ} (h : Str.numeral 16 digits = some size) :
    ';' ∉ digits ∧ '\r' ∉ digits := by
  constructor
  · intro hmem
    obtain ⟨d, hd⟩ := Str.exists_toDigit_of_numeral h _ hmem
    revert hd
    simp [Str.toDigit]
  · intro hmem
    have hspace := Str.isWhitespace_of_numeral h _ hmem
    revert hspace
    decide

namespace WireSize

variable {size : ℕ} (s : WireSize size)

/-- The size line of a chunk has no carriage return. -/
lemma cr_notMem_line : (13 : UInt8) ∉ s.line := by
  refine cr_notMem_encode fun hmem => ?_
  rcases List.mem_append.1 hmem with hmem | hmem
  · exact (notMem_of_numeral s.digits_eq).2 hmem
  · exact s.extension_ok.2.1 hmem

/-- The framer reads the size that a size line announces. -/
lemma chunkSize_line (hsize : size ≤ usizeMax) : chunkSize s.line = .ok size := by
  obtain ⟨hne, -⟩ := Str.numeral_eq_some_iff.1 s.digits_eq
  have hsemicolon := (notMem_of_numeral s.digits_eq).1
  have hfirst : ((s.digits ++ s.extension).splitOn ';').headD [] = s.digits := by
    obtain ⟨hnil | ⟨text, htext⟩, -⟩ := s.extension_ok
    · rw [hnil, List.append_nil, List.splitOn_eq_singleton hsemicolon, List.headD_cons]
    · rw [htext, List.splitOn_append_cons_self_of_not_mem hsemicolon, List.headD_cons]
  have htrim : Str.trim s.digits = s.digits :=
    Str.trim_of_forall (Str.isWhitespace_of_numeral s.digits_eq)
  have hparse : Str.fromStrRadix 16 u64Max s.digits = some size :=
    (Str.fromStrRadix_eq_some_iff (by decide)).2 ⟨.inl s.digits_eq, hsize⟩
  simp only [chunkSize, line, Utf8.decode_encode, hfirst, htrim, if_neg hne, hparse, if_pos hsize]

end WireSize

/-- The first CR of a line without one is that of its terminator. -/
lemma findCrlf_of_notMem {line : Bytes} (h : (13 : UInt8) ∉ line) (tail : Bytes) :
    findCrlf (line ++ crlf ++ tail) = some line.length :=
  position_of_notMem h tail

/-- The turn of the chunk loop at a chunk within the limits. -/
lemma chunkStep_wireChunk {limits : RequestLimits} {cursor decodedLen metadataBytes : ℕ}
    (chunk : WireChunk) (rest : Bytes)
    (hmeta : metadataBytes + (chunk.size.line.length + 2) ≤ limits.headerBytes)
    (hbody : decodedLen + chunk.data.length ≤ limits.bodyBytes)
    (hword : cursor + chunk.wire.length ≤ usizeMax) :
    chunkStep limits cursor (chunk.wire ++ rest) decodedLen metadataBytes =
      .ok (.chunk chunk.data rest (cursor + chunk.wire.length)
        (saturatingAdd metadataBytes (chunk.size.line.length + 2))) := by
  have hlen : chunk.wire.length = chunk.size.line.length + 2 + chunk.data.length + 2 := by
    simp only [WireChunk.wire, crlf, List.length_append, List.length_cons, List.length_nil]
  have hwire : chunk.wire ++ rest = chunk.size.line ++ crlf ++ (chunk.data ++ crlf ++ rest) := by
    simp only [WireChunk.wire, List.append_assoc]
  have hcursor : cursor + chunk.wire.length =
      cursor + chunk.size.line.length + 2 + chunk.data.length + 2 := by omega
  rw [hcursor] at hword ⊢
  rw [hwire]
  apply chunkStep_of_block
  · exact findCrlf_of_notMem chunk.size.cr_notMem_line _
  · exact chunk.size.chunkSize_line (by omega)
  · exact chunk.data_ne
  · exact Nat.le_trans (Nat.min_le_left _ _) hmeta
  · exact Nat.le_trans (Nat.min_le_left _ _) hbody
  · exact hword

/-- The framer takes a trailer section within the limit off whole.

**Proof sketch.** Without fields the section is one line terminator. With fields, the lines have no
carriage return, so that the first blank line is the one at the end, and each of them has its colon.
-/
lemma takeTrailer_trailerSection {limits : RequestLimits} (coding : ChunkedCoding) (t : Bytes)
    (hmax : coding.trailerSection.length ≤ limits.headerBytes) :
    takeTrailer limits (coding.trailerSection ++ t) = .ok (some t) := by
  unfold ChunkedCoding.trailerSection at hmax ⊢
  have hok := coding.trailers_ok
  cases htrailers : coding.trailers with
  | nil => simp [takeTrailer, crlf]
  | cons trailer trailers =>
    rw [htrailers] at hmax hok
    have hcr : ∀ entry ∈ trailer :: trailers, '\r' ∉ fieldLine entry := fun entry hentry =>
      cr_notMem_fieldLine (hok entry hentry).1 (hok entry hentry).2
    have hlines : ∀ l ∈ trailers.map fieldLine, '\r' ∉ l ∧ l ≠ [] := by
      intro l hl
      obtain ⟨entry, hentry, rfl⟩ := List.mem_map.1 hl
      exact ⟨hcr entry (List.mem_cons_of_mem _ hentry), fieldLine_ne_nil entry⟩
    have hline : '\r' ∉ fieldLine trailer := hcr trailer List.mem_cons_self
    have hsplit := blankSplit_joinPair hline hlines t
    have hbytes : Utf8.encode (unlines '\r' '\n' ((trailer :: trailers).map fieldLine)) ++ crlf =
        Utf8.encode (joinPair '\r' '\n' (fieldLine trailer) (trailers.map fieldLine)) ++
          crlfcrlf := by
      rw [List.map_cons, ← joinPair_append, Utf8.encode_append, List.append_assoc]
      rfl
    rw [hbytes] at hmax ⊢
    generalize hjoin : joinPair '\r' '\n' (fieldLine trailer) (trailers.map fieldLine) = text at *
    have hstart : (Utf8.encode text ++ crlfcrlf ++ t).take 2 ≠ crlf := by
      intro hcrlf
      obtain ⟨c, cs, hcons⟩ := List.exists_cons_of_ne_nil (fieldLine_ne_nil trailer)
      have htext : ∃ rest, text = c :: rest := by
        rw [← hjoin, hcons]
        exact ⟨_, rfl⟩
      obtain ⟨rest, rfl⟩ := htext
      have hfirst : (13 : UInt8) ∈ Utf8.encode [c] := by
        obtain ⟨b, bs, hb⟩ : ∃ b bs, Utf8.encode [c] = b :: bs := by
          refine List.exists_cons_of_ne_nil fun hnil => ?_
          have := Utf8.encode_injective (hnil.trans Utf8.encode_nil.symm)
          cases this
        have hencode : Utf8.encode (c :: rest) = b :: (bs ++ Utf8.encode rest) := by
          have happend := Utf8.encode_append [c] rest
          rw [hb] at happend
          exact happend
        rw [hencode] at hcrlf
        have hb13 : b = 13 := by simpa [crlf] using congrArg List.head? hcrlf
        rw [hb, hb13]
        exact List.mem_cons_self
      have hc : '\r' ∈ [c] := (Utf8.mem_encode_iff (by decide)).1 hfirst
      apply hline
      rw [hcons]
      exact List.mem_cons.2 (.inl (List.mem_singleton.1 hc))
    have hmax' : (Utf8.encode text).length + 4 ≤ limits.headerBytes := by
      simp only [crlfcrlf, List.length_append, List.length_cons, List.length_nil] at hmax
      omega
    have hcolon : ∀ line ∈ splitPair '\r' '\n' text, line ≠ [] → ':' ∈ line := by
      intro line hmem _
      rw [← hjoin, splitPair_joinPair (by decide) hline fun l hl => (hlines l hl).1,
        ← List.map_cons] at hmem
      obtain ⟨entry, -, rfl⟩ := List.mem_map.1 hmem
      exact colon_mem_fieldLine entry
    exact takeTrailer_eq_some_iff.2 (.inr ⟨text, hsplit, hstart, hmax', hcolon⟩)

/-- The turn of the chunk loop at the last chunk. -/
lemma chunkStep_last_wire {limits : RequestLimits} {cursor decodedLen metadataBytes : ℕ}
    (coding : ChunkedCoding) (t : Bytes)
    (hmeta : metadataBytes + (coding.last.line.length + 2) ≤ limits.headerBytes)
    (hmax : coding.trailerSection.length ≤ limits.headerBytes) :
    chunkStep limits cursor (coding.last.line ++ crlf ++ (coding.trailerSection ++ t)) decodedLen
      metadataBytes = .ok (.last t) := by
  apply chunkStep_of_last
  · exact findCrlf_of_notMem coding.last.cr_notMem_line _
  · exact coding.last.chunkSize_line (Nat.zero_le _)
  · exact Nat.le_trans (Nat.min_le_left _ _) hmeta
  · exact takeTrailer_trailerSection coding t hmax

/-- **The chunk loop decodes what a chunked coding encodes.**

**Proof sketch.** Induction on the chunks: the size lines, the data and the offsets that are
still to come stay within the limits. -/
theorem chunkLoop_wire {limits : RequestLimits} (coding : ChunkedCoding) (t : Bytes)
    (hmax : coding.trailerSection.length ≤ limits.headerBytes) (chunks : List WireChunk)
    {cursor metadataBytes : ℕ} {decoded : Bytes}
    (hmeta : metadataBytes + ((chunks.map fun chunk => chunk.size.line.length + 2).sum +
      (coding.last.line.length + 2)) ≤ limits.headerBytes)
    (hbody : (decoded ++ chunks.flatMap WireChunk.data).length ≤ limits.bodyBytes)
    (hword : cursor + (chunks.flatMap WireChunk.wire).length ≤ usizeMax) :
    chunkLoop limits cursor
        (chunks.flatMap WireChunk.wire ++
          (coding.last.line ++ crlf ++ (coding.trailerSection ++ t)))
        decoded metadataBytes =
      .ok (some (decoded ++ chunks.flatMap WireChunk.data, t)) := by
  induction chunks generalizing cursor metadataBytes decoded with
  | nil =>
    rw [List.map_nil, List.sum_nil, Nat.zero_add] at hmeta
    rw [List.flatMap_nil, List.flatMap_nil, List.nil_append, List.append_nil, chunkLoop_eq,
      chunkStep_last_wire coding t hmeta hmax]
  | cons chunk chunks ih =>
    simp only [List.map_cons, List.sum_cons] at hmeta
    simp only [List.flatMap_cons, List.length_append] at hbody hword
    have hsat : saturatingAdd metadataBytes (chunk.size.line.length + 2) ≤
        metadataBytes + (chunk.size.line.length + 2) := Nat.min_le_left _ _
    rw [List.flatMap_cons, List.flatMap_cons, List.append_assoc, chunkLoop_eq,
      chunkStep_wireChunk chunk _ (by omega) (by omega) (by omega)]
    simp only
    rw [ih (by omega) (by simp only [List.length_append]; omega) (by omega), List.append_assoc]

end Httpageboy
